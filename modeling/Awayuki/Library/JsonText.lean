import Mathlib.Tactic

/-!
# JSON texts

The texts that a JSON parser accepts, and the text of a value.  Arrays and objects may be nested to
a depth; a number is accepted if its value is finite, which is left open.  A member that is given
twice has its last value.

* `Value`, `Value.get`: the values;
* `quote`: the text of a string;
* `parse`: the value of a text;
* `readString_quote`: the text of a string is read back;
* `readValue_fuel`: the fuel lasts;
* `length_of_member`: a string inside a value is shorter than the text.
-/

namespace JsonText

variable {c : Char} {fuel : ℕ} {s : List Char}

inductive Value
  | null
  | bool (b : Bool)
  | number (text : List Char)
  | string (s : List Char)
  | array (values : List Value)
  | object (members : List (List Char × Value))

/-- The last member with the key. -/
def get (members : List (List Char × Value)) (key : List Char) : Option Value :=
  (members.reverse.find? fun member => member.1 = key).map (·.2)

/-! ### Strings -/

def isSpace (c : Char) : Bool := c = ' ' || c = '\t' || c = '\n' || c = '\r'

def skipSpace (text : List Char) : List Char := text.dropWhile isSpace

def hexValue (c : Char) : Option ℕ :=
  if 48 ≤ c.toNat ∧ c.toNat ≤ 57 then some (c.toNat - 48)
  else if 97 ≤ c.toNat ∧ c.toNat ≤ 102 then some (c.toNat - 87)
  else if 65 ≤ c.toNat ∧ c.toNat ≤ 70 then some (c.toNat - 55)
  else none

/-- The letters of the short escapes. -/
def letter (c : Char) : Option Char :=
  if c = '"' then some '"'
  else if c = '\\' then some '\\'
  else if c = '\x08' then some 'b'
  else if c = '\x0c' then some 'f'
  else if c = '\n' then some 'n'
  else if c = '\r' then some 'r'
  else if c = '\t' then some 't'
  else none

/-- The character of a short escape; a solidus may be escaped, too. -/
def unescape (c : Char) : Option Char :=
  if c = '"' then some '"'
  else if c = '\\' then some '\\'
  else if c = '/' then some '/'
  else if c = 'b' then some '\x08'
  else if c = 'f' then some '\x0c'
  else if c = 'n' then some '\n'
  else if c = 'r' then some '\r'
  else if c = 't' then some '\t'
  else none

/-- A character inside a string. -/
def escape (c : Char) : List Char :=
  match letter c with
  | some l => ['\\', l]
  | none =>
    if c.toNat < 32 then
      ['\\', 'u', '0', '0', (c.toNat / 16).digitChar, (c.toNat % 16).digitChar]
    else [c]

/-- The text of a string, without the quote that opens it. -/
def body (s : List Char) : List Char := s.flatMap escape ++ ['"']

def quote (s : List Char) : List Char := '"' :: body s

/-- Four hexadecimal digits. -/
def readHex : List Char → Option (ℕ × List Char)
  | a :: b :: c :: d :: rest =>
    match hexValue a, hexValue b, hexValue c, hexValue d with
    | some a, some b, some c, some d => some (((a * 16 + b) * 16 + c) * 16 + d, rest)
    | _, _, _, _ => none
  | _ => none

/-- The second half of a pair of surrogates. -/
def readLow (high : ℕ) : List Char → Option (Char × List Char)
  | b :: u :: rest =>
    if b = '\\' ∧ u = 'u' then
      (readHex rest).bind fun low =>
        if 0xDC00 ≤ low.1 ∧ low.1 < 0xE000 then
          some (Char.ofNat (0x10000 + (high - 0xD800) * 0x400 + (low.1 - 0xDC00)), low.2)
        else none
    else none
  | _ => none

def readUnicode (text : List Char) : Option (Char × List Char) :=
  (readHex text).bind fun unit =>
    if 0xD800 ≤ unit.1 ∧ unit.1 < 0xDC00 then readLow unit.1 unit.2
    else if 0xDC00 ≤ unit.1 ∧ unit.1 < 0xE000 then none
    else some (Char.ofNat unit.1, unit.2)

/-- A character of a string. -/
def readChar : List Char → Option (Char × List Char)
  | [] => none
  | c :: rest =>
    if c = '\\' then
      match rest with
      | [] => none
      | l :: rest => if l = 'u' then readUnicode rest else (unescape l).map (·, rest)
    else if c.toNat < 32 then none
    else some (c, rest)

/-- A string up to the quote that closes it. -/
def readString : ℕ → List Char → Option (List Char × List Char)
  | 0, _ => none
  | _ + 1, [] => none
  | fuel + 1, c :: rest =>
    if c = '"' then some ([], rest)
    else (readChar (c :: rest)).bind fun read =>
      (readString fuel read.2).map fun tail => (read.1 :: tail.1, tail.2)

/-! ### Values -/

def isDigit (c : Char) : Bool := 48 ≤ c.toNat && c.toNat ≤ 57

/-- Digits, one at least. -/
def readDigits (text : List Char) : Option (List Char × List Char) :=
  if (text.takeWhile isDigit).isEmpty then none
  else some (text.takeWhile isDigit, text.dropWhile isDigit)

/-- The digits before the point: no other follows a zero. -/
def readInteger : List Char → Option (List Char × List Char)
  | [] => none
  | c :: rest => if c = '0' then some (['0'], rest) else readDigits (c :: rest)

def readFraction : List Char → Option (List Char × List Char)
  | [] => some ([], [])
  | c :: rest =>
    if c = '.' then (readDigits rest).map fun digits => ('.' :: digits.1, digits.2)
    else some ([], c :: rest)

def readExponent : List Char → Option (List Char × List Char)
  | [] => some ([], [])
  | c :: rest =>
    if c = 'e' ∨ c = 'E' then
      let sign := rest.takeWhile fun s => s = '+' || s = '-'
      if sign.length ≤ 1 then
        (readDigits (rest.drop sign.length)).map fun digits => (c :: sign ++ digits.1, digits.2)
      else none
    else some ([], c :: rest)

section

variable (finite : List Char → Bool)

def readNumber (text : List Char) : Option (Value × List Char) :=
  let sign := (text.take 1).takeWhile (· = '-')
  (readInteger (text.drop sign.length)).bind fun integer =>
    (readFraction integer.2).bind fun fraction =>
      (readExponent fraction.2).bind fun exponent =>
        let number := sign ++ integer.1 ++ fraction.1 ++ exponent.1
        if finite number then some (.number number, exponent.2) else none

/-- What is no string, array or object. -/
def readLiteral (text : List Char) : Option (Value × List Char) :=
  if "null".toList.isPrefixOf text then some (.null, text.drop 4)
  else if "true".toList.isPrefixOf text then some (.bool true, text.drop 4)
  else if "false".toList.isPrefixOf text then some (.bool false, text.drop 5)
  else readNumber finite text

/-- Is the character the next one after white space?  What follows it, if it is. -/
def readMark (mark : Char) (text : List Char) : Option (List Char) :=
  match skipSpace text with
  | [] => none
  | c :: rest => if c = mark then some rest else none

mutual

def readValue : ℕ → ℕ → List Char → Option (Value × List Char)
  | 0, _, _ => none
  | fuel + 1, depth, text =>
    match skipSpace text with
    | [] => none
    | c :: rest =>
      if c = '"' then (readString (rest.length + 1) rest).map fun s => (.string s.1, s.2)
      else if c = '[' then
        match depth, readMark ']' rest with
        | 0, _ => none
        | _ + 1, some rest => some (.array [], rest)
        | depth + 1, none =>
          (readElements fuel depth rest).map fun values => (.array values.1, values.2)
      else if c = '{' then
        match depth, readMark '}' rest with
        | 0, _ => none
        | _ + 1, some rest => some (.object [], rest)
        | depth + 1, none =>
          (readMembers fuel depth rest).map fun members => (.object members.1, members.2)
      else readLiteral finite (c :: rest)

def readElements : ℕ → ℕ → List Char → Option (List Value × List Char)
  | 0, _, _ => none
  | fuel + 1, depth, text =>
    (readValue fuel depth text).bind fun value =>
      match readMark ',' value.2 with
      | some rest =>
        (readElements fuel depth rest).map fun values => (value.1 :: values.1, values.2)
      | none => (readMark ']' value.2).map ([value.1], ·)

def readMembers : ℕ → ℕ → List Char → Option (List (List Char × Value) × List Char)
  | 0, _, _ => none
  | fuel + 1, depth, text =>
    (readMark '"' text).bind fun rest =>
      (readString (rest.length + 1) rest).bind fun key =>
        (readMark ':' key.2).bind fun rest =>
          (readValue fuel depth rest).bind fun value =>
            match readMark ',' value.2 with
            | some rest =>
              (readMembers fuel depth rest).map fun members =>
                ((key.1, value.1) :: members.1, members.2)
            | none => (readMark '}' value.2).map ([(key.1, value.1)], ·)

end

/-- The value of a text, whose arrays and objects are nested less deep than the limit. -/
def parse (depth : ℕ) (text : List Char) : Option Value :=
  (readValue finite (2 * text.length + 1) depth text).bind fun value =>
    if (skipSpace value.2).isEmpty then some value.1 else none

end

/-! ### Strings are read back -/

theorem hexValue_digitChar : ∀ n < 16, hexValue n.digitChar = some n := by decide

theorem unescape_letter {l : Char} (h : letter c = some l) : l ≠ 'u' ∧ unescape l = some c := by
  unfold letter at h
  split_ifs at h with h₁ h₂ h₃ h₄ h₅ h₆ h₇
  all_goals
    cases h
    subst_vars
    decide

theorem readChar_escape (c : Char) (rest : List Char) :
    readChar (escape c ++ rest) = some (c, rest) := by
  unfold escape
  cases hletter : letter c with
  | some l =>
    obtain ⟨hl, hc⟩ := unescape_letter hletter
    show (if l = 'u' then _ else (unescape l).map (·, rest)) = _
    rw [if_neg hl, hc, Option.map_some]
  | none =>
    by_cases hcontrol : c.toNat < 32
    · have hhigh := hexValue_digitChar (c.toNat / 16) (by omega)
      have hlow := hexValue_digitChar (c.toNat % 16) (by omega)
      have hzero : hexValue '0' = some 0 := by decide
      have hread : readHex ('0' :: '0' :: (c.toNat / 16).digitChar :: (c.toNat % 16).digitChar ::
          rest) = some (c.toNat, rest) := by
        rw [readHex, hzero, hhigh, hlow]
        show some (((0 * 16 + 0) * 16 + c.toNat / 16) * 16 + c.toNat % 16, rest) = _
        rw [show ((0 * 16 + 0) * 16 + c.toNat / 16) * 16 + c.toNat % 16 = c.toNat by omega]
      show readChar ((if _ then _ else _) ++ rest) = _
      rw [if_pos hcontrol]
      show readUnicode ('0' :: '0' :: (c.toNat / 16).digitChar :: (c.toNat % 16).digitChar ::
        rest) = _
      rw [readUnicode, hread, Option.bind_some, if_neg (by omega), if_neg (by omega),
        Char.ofNat_toNat]
    · have hslash : c ≠ '\\' := by
        rintro rfl
        exact absurd hletter (by decide)
      show readChar ((if _ then _ else _) ++ rest) = _
      rw [if_neg hcontrol]
      show (if c = '\\' then _ else if c.toNat < 32 then none else some (c, rest)) = _
      rw [if_neg hslash, if_neg hcontrol]

theorem length_readHex {text rest : List Char} {n : ℕ} (h : readHex text = some (n, rest)) :
    rest.length < text.length := by
  unfold readHex at h
  split at h
  · split at h
    · cases h
      simp only [List.length_cons]
      omega
    · cases h
  · cases h

theorem length_readUnicode {text rest : List Char} (h : readUnicode text = some (c, rest)) :
    rest.length < text.length := by
  obtain ⟨⟨unit, rest'⟩, hunit, h⟩ := Option.bind_eq_some_iff.1 h
  have hlength := length_readHex hunit
  split_ifs at h
  · rcases rest' with _ | ⟨b, _ | ⟨u, low⟩⟩
    · cases h
    · cases h
    · simp only [readLow] at h
      split_ifs at h
      obtain ⟨⟨value, last⟩, hlow, h⟩ := Option.bind_eq_some_iff.1 h
      have hlow := length_readHex hlow
      split_ifs at h
      obtain rfl : last = rest := congrArg Prod.snd (Option.some.inj h)
      simp only [List.length_cons] at hlength
      omega
  · cases h
    exact hlength

theorem length_readChar {text rest : List Char} (h : readChar text = some (c, rest)) :
    rest.length < text.length := by
  unfold readChar at h
  split at h
  · cases h
  · split_ifs at h
    · split at h
      · cases h
      · split_ifs at h
        · have := length_readUnicode h
          simp only [List.length_cons]
          omega
        · obtain ⟨_, -, h⟩ := Option.map_eq_some_iff.1 h
          cases h
          simp only [List.length_cons]
          omega
    · cases h
      exact Nat.lt_succ_self _

/-- A string has no more characters than its text. -/
theorem length_readString {text rest : List Char} (h : readString fuel text = some (s, rest)) :
    s.length + rest.length < text.length := by
  induction fuel generalizing text s with
  | zero => cases h
  | succ fuel ih =>
    cases text with
    | nil => cases h
    | cons c text =>
      rw [readString] at h
      split_ifs at h
      · cases h
        simp
      · obtain ⟨⟨c', rest'⟩, hchar, h⟩ := Option.bind_eq_some_iff.1 h
        obtain ⟨⟨tail, rest''⟩, htail, h⟩ := Option.map_eq_some_iff.1 h
        cases h
        have hchar := length_readChar hchar
        have htail : tail.length + rest''.length < rest'.length := ih htail
        show (c' :: tail).length + rest''.length < (c :: text).length
        simp only [List.length_cons] at hchar ⊢
        omega

theorem escape_ne_nil (c : Char) : escape c ≠ [] := by
  unfold escape
  split
  · simp
  · split_ifs
    · simp
    · simp

theorem head_escape {d : Char} {rest : List Char} (h : escape c = d :: rest) : d ≠ '"' := by
  unfold escape at h
  split at h
  · cases h
    decide
  · next hletter =>
    split_ifs at h
    · cases h
      decide
    · cases h
      rintro rfl
      exact absurd hletter (by decide)

/-- The text of a string is read back. -/
theorem readString_body (s rest : List Char) (h : s.length < fuel) :
    readString fuel (body s ++ rest) = some (s, rest) := by
  induction s generalizing fuel with
  | nil =>
    obtain ⟨fuel, rfl⟩ : ∃ n, fuel = n + 1 := ⟨fuel - 1, by omega⟩
    rfl
  | cons c s ih =>
    obtain ⟨fuel, rfl⟩ : ∃ n, fuel = n + 1 := ⟨fuel - 1, by omega⟩
    have hsplit : body (c :: s) ++ rest = escape c ++ (body s ++ rest) := by
      simp [body]
    have hread := readChar_escape c (body s ++ rest)
    rw [hsplit]
    cases hescape : escape c with
    | nil => exact absurd hescape (escape_ne_nil c)
    | cons d tail =>
      rw [hescape] at hread
      rw [List.cons_append, readString, if_neg (head_escape hescape), ← List.cons_append, hread,
        Option.bind_some, ih (Nat.lt_of_succ_lt_succ h), Option.map_some]

theorem length_body (s : List Char) : s.length < (body s).length := by
  have hle : s.length ≤ (s.flatMap escape).length := by
    induction s with
    | nil => exact le_rfl
    | cons c s ih =>
      have := List.length_pos_of_ne_nil (escape_ne_nil c)
      rw [List.flatMap_cons, List.length_append, List.length_cons]
      omega
  rw [body, List.length_append, List.length_singleton]
  omega

/-! ### What is read is shorter -/

section

variable {finite : List Char → Bool} {text rest digits : List Char} {v : Value}
  {texts : List (List Char × List Char)} {values : List (List Char × Value)}

theorem length_skipSpace (text : List Char) : (skipSpace text).length ≤ text.length :=
  (List.dropWhile_suffix _).length_le

theorem length_readMark {mark : Char} (h : readMark mark text = some rest) :
    rest.length < text.length := by
  have hskip := length_skipSpace text
  unfold readMark at h
  cases hspace : skipSpace text with
  | nil =>
    rw [hspace] at h
    cases h
  | cons c tail =>
    rw [hspace] at h hskip
    obtain rfl : tail = rest := (Option.ite_none_right_eq_some.1 h).2 |> Option.some.inj
    exact hskip

theorem length_readDigits (h : readDigits text = some (digits, rest)) :
    rest.length < text.length := by
  unfold readDigits at h
  split_ifs at h with hempty
  cases h
  have hsplit :
      (text.takeWhile isDigit).length + (text.dropWhile isDigit).length = text.length := by
    rw [← List.length_append, List.takeWhile_append_dropWhile]
  have hpos : (text.takeWhile isDigit).length ≠ 0 := fun h =>
    hempty (List.isEmpty_iff_length_eq_zero.2 h)
  omega

theorem length_readInteger (h : readInteger text = some (digits, rest)) :
    rest.length < text.length := by
  cases text with
  | nil => cases h
  | cons c text =>
    rw [readInteger] at h
    split_ifs at h
    · cases h
      exact Nat.lt_succ_self _
    · exact length_readDigits h

theorem length_readFraction (h : readFraction text = some (digits, rest)) :
    rest.length ≤ text.length := by
  cases text with
  | nil =>
    cases h
    exact le_rfl
  | cons c text =>
    rw [readFraction] at h
    split_ifs at h
    · obtain ⟨⟨digits', rest'⟩, hdigits, h⟩ := Option.map_eq_some_iff.1 h
      cases h
      exact (length_readDigits hdigits).le.trans (Nat.le_succ _)
    · cases h
      exact le_rfl

theorem length_readExponent (h : readExponent text = some (digits, rest)) :
    rest.length ≤ text.length := by
  cases text with
  | nil =>
    cases h
    exact le_rfl
  | cons c text =>
    rw [readExponent] at h
    dsimp only at h
    split_ifs at h
    · obtain ⟨⟨digits', rest'⟩, hdigits, h⟩ := Option.map_eq_some_iff.1 h
      cases h
      have hlt := length_readDigits hdigits
      rw [List.length_drop] at hlt
      show rest'.length ≤ (c :: text).length
      rw [List.length_cons]
      omega
    · cases h
      exact le_rfl

/-- What is no string, array or object. -/
theorem length_readLiteral (h : readLiteral finite text = some (v, rest)) :
    rest.length < text.length ∧ (∀ s, v ≠ .string s) ∧ ∀ members, v ≠ .object members := by
  have hdrop : ∀ {word : List Char}, word.isPrefixOf text = true → word ≠ [] →
      (text.drop word.length).length < text.length := by
    intro word hword hne
    have hle := (List.isPrefixOf_iff_prefix.1 hword).length_le
    have := List.length_pos_of_ne_nil hne
    rw [List.length_drop]
    omega
  unfold readLiteral at h
  split_ifs at h with hnull htrue hfalse
  · cases h
    exact ⟨hdrop hnull (by decide), (fun _ h => by cases h), fun _ h => by cases h⟩
  · cases h
    exact ⟨hdrop htrue (by decide), (fun _ h => by cases h), fun _ h => by cases h⟩
  · cases h
    exact ⟨hdrop hfalse (by decide), (fun _ h => by cases h), fun _ h => by cases h⟩
  · obtain ⟨⟨integer, rest₁⟩, hinteger, h⟩ := Option.bind_eq_some_iff.1 h
    obtain ⟨⟨fraction, rest₂⟩, hfraction, h⟩ := Option.bind_eq_some_iff.1 h
    obtain ⟨⟨exponent, rest₃⟩, hexponent, h⟩ := Option.bind_eq_some_iff.1 h
    have hinteger := length_readInteger hinteger
    have hfraction : rest₂.length ≤ rest₁.length := length_readFraction hfraction
    have hexponent : rest₃.length ≤ rest₂.length := length_readExponent hexponent
    obtain ⟨-, h⟩ := Option.ite_none_right_eq_some.1 h
    cases h
    rw [List.length_drop] at hinteger
    refine ⟨?_, (fun _ h => by cases h), fun _ h => by cases h⟩
    show rest₃.length < text.length
    omega

/-- The strings that are a value, or a member of it, are shorter. -/
theorem length_read (finite : List Char → Bool) (fuel : ℕ) :
    (∀ depth text v rest, readValue finite fuel depth text = some (v, rest) →
      rest.length < text.length ∧ (∀ s, v = .string s → s.length < text.length) ∧
        ∀ members, v = .object members → ∀ key s, (key, .string s) ∈ members →
          s.length < text.length) ∧
    (∀ depth text values rest, readElements finite fuel depth text = some (values, rest) →
      rest.length < text.length) ∧
    ∀ depth text members rest, readMembers finite fuel depth text = some (members, rest) →
      rest.length < text.length ∧ ∀ key s, (key, .string s) ∈ members → s.length < text.length := by
  induction fuel with
  | zero =>
    refine ⟨fun _ _ _ _ h => ?_, fun _ _ _ _ h => ?_, fun _ _ _ _ h => ?_⟩
    · rw [readValue] at h
      cases h
    · rw [readElements] at h
      cases h
    · rw [readMembers] at h
      cases h
  | succ fuel ih =>
    obtain ⟨ihValue, ihElements, ihMembers⟩ := ih
    refine ⟨fun depth text v rest h => ?_, fun depth text values rest h => ?_,
      fun depth text members rest h => ?_⟩
    · have hskip := length_skipSpace text
      rw [readValue] at h
      cases hspace : skipSpace text with
      | nil =>
        rw [hspace] at h
        cases h
      | cons c tail =>
        rw [hspace] at h hskip
        rw [List.length_cons] at hskip
        dsimp only at h
        split_ifs at h with hquote hbracket hbrace
        · obtain ⟨⟨s, rest'⟩, hs, h⟩ := Option.map_eq_some_iff.1 h
          cases h
          have hlength := length_readString hs
          refine ⟨by dsimp only; omega, fun s' hs' => ?_, fun _ h => by cases h⟩
          obtain rfl : s = s' := Value.string.inj hs'
          omega
        · split at h
          · cases h
          · next depth' rest' hmark =>
            cases h
            have := length_readMark hmark
            exact ⟨by omega, (fun _ h => by cases h), fun _ h => by cases h⟩
          · obtain ⟨⟨values, rest'⟩, hvalues, h⟩ := Option.map_eq_some_iff.1 h
            cases h
            have := ihElements _ _ _ _ hvalues
            exact ⟨by dsimp only; omega, (fun _ h => by cases h), fun _ h => by cases h⟩
        · split at h
          · cases h
          · next depth' rest' hmark =>
            cases h
            have := length_readMark hmark
            refine ⟨by omega, (fun _ h => by cases h), fun members h => ?_⟩
            cases h
            exact fun _ _ h => absurd h List.not_mem_nil
          · obtain ⟨⟨members, rest'⟩, hmembers, h⟩ := Option.map_eq_some_iff.1 h
            cases h
            obtain ⟨hlength, hstrings⟩ := ihMembers _ _ _ _ hmembers
            refine ⟨by dsimp only; omega, (fun _ h => by cases h), fun members' h key s hs => ?_⟩
            cases h
            have := hstrings key s hs
            omega
        · obtain ⟨hlength, hstring, hobject⟩ := length_readLiteral h
          rw [List.length_cons] at hlength
          exact ⟨by omega, fun s hs => absurd hs (hstring s),
            fun members hmembers => absurd hmembers (hobject members)⟩
    · rw [readElements] at h
      obtain ⟨⟨value, rest₁⟩, hvalue, h⟩ := Option.bind_eq_some_iff.1 h
      have hfirst := (ihValue _ _ _ _ hvalue).1
      dsimp only at h
      split at h
      · next rest₂ hmark =>
        obtain ⟨⟨values, rest₃⟩, hvalues, h⟩ := Option.map_eq_some_iff.1 h
        cases h
        have hmark := length_readMark hmark
        have := ihElements _ _ _ _ hvalues
        dsimp only
        omega
      · obtain ⟨rest₂, hmark, h⟩ := Option.map_eq_some_iff.1 h
        cases h
        exact (length_readMark hmark).trans hfirst
    · rw [readMembers] at h
      obtain ⟨rest₁, hmark₁, h⟩ := Option.bind_eq_some_iff.1 h
      obtain ⟨⟨key, rest₂⟩, hkey, h⟩ := Option.bind_eq_some_iff.1 h
      obtain ⟨rest₃, hmark₃, h⟩ := Option.bind_eq_some_iff.1 h
      obtain ⟨⟨value, rest₄⟩, hvalue, h⟩ := Option.bind_eq_some_iff.1 h
      have hmark₁ := length_readMark hmark₁
      have hkey : key.length + rest₂.length < rest₁.length := length_readString hkey
      have hmark₃ : rest₃.length < rest₂.length := length_readMark hmark₃
      obtain ⟨hrest, hstring, -⟩ := ihValue _ _ _ _ hvalue
      dsimp only at h
      split at h
      · next rest₅ hmark =>
        obtain ⟨⟨members', rest₆⟩, hmembers, h⟩ := Option.map_eq_some_iff.1 h
        cases h
        have hmark := length_readMark hmark
        obtain ⟨hlength, hstrings⟩ := ihMembers _ _ _ _ hmembers
        refine ⟨by dsimp only; omega, fun key' s hs => ?_⟩
        rcases List.mem_cons.1 hs with heq | hs
        · have := hstring s (Prod.ext_iff.1 heq).2.symm
          omega
        · have := hstrings key' s hs
          omega
      · obtain ⟨rest₅, hmark, h⟩ := Option.map_eq_some_iff.1 h
        cases h
        have hmark := length_readMark hmark
        refine ⟨by omega, fun key' s hs => ?_⟩
        have := hstring s (Prod.ext_iff.1 (List.mem_singleton.1 hs)).2.symm
        omega

/-- A string that is a member of an object is shorter than the text. -/
theorem length_of_member {depth : ℕ} {members : List (List Char × Value)} {key : List Char}
    (h : parse finite depth text = some (.object members))
    (hget : get members key = some (.string s)) : s.length < text.length := by
  obtain ⟨⟨v, rest⟩, hread, h⟩ := Option.bind_eq_some_iff.1 h
  obtain ⟨-, h⟩ := Option.ite_none_right_eq_some.1 h
  obtain ⟨⟨key', v'⟩, hfind, hv'⟩ := Option.map_eq_some_iff.1 hget
  obtain rfl : v' = .string s := hv'
  have hmem := List.mem_reverse.1 (List.mem_of_find?_eq_some hfind)
  exact ((length_read finite _).1 _ _ _ _ hread).2.2 members (Option.some.inj h) key' s hmem

/-! ### The fuel lasts -/

theorem bind_congr {α β : Type} {x : Option α} {f g : α → Option β}
    (h : ∀ a, x = some a → f a = g a) : x.bind f = x.bind g := by
  cases x with
  | none => rfl
  | some a => exact h a rfl

theorem read_fuel (finite : List Char → Bool) (fuel : ℕ) :
    (∀ fuel' depth text, 2 * text.length < fuel → 2 * text.length < fuel' →
      readValue finite fuel depth text = readValue finite fuel' depth text) ∧
    (∀ fuel' depth text, 2 * text.length + 1 < fuel → 2 * text.length + 1 < fuel' →
      readElements finite fuel depth text = readElements finite fuel' depth text) ∧
    ∀ fuel' depth text, 2 * text.length + 1 < fuel → 2 * text.length + 1 < fuel' →
      readMembers finite fuel depth text = readMembers finite fuel' depth text := by
  induction fuel with
  | zero => exact ⟨fun _ _ _ h => by omega, fun _ _ _ h => by omega, fun _ _ _ h => by omega⟩
  | succ fuel ih =>
    obtain ⟨ihValue, ihElements, ihMembers⟩ := ih
    refine ⟨fun fuel' depth text h h' => ?_, fun fuel' depth text h h' => ?_,
      fun fuel' depth text h h' => ?_⟩
    · obtain ⟨fuel', rfl⟩ : ∃ n, fuel' = n + 1 := ⟨fuel' - 1, by omega⟩
      have hskip := length_skipSpace text
      rw [readValue, readValue]
      cases hspace : skipSpace text with
      | nil => rfl
      | cons c tail =>
        rw [hspace, List.length_cons] at hskip
        have helements := fun depth => ihElements fuel' depth tail (by omega) (by omega)
        have hmembers := fun depth => ihMembers fuel' depth tail (by omega) (by omega)
        simp only [helements, hmembers]
    · obtain ⟨fuel', rfl⟩ : ∃ n, fuel' = n + 1 := ⟨fuel' - 1, by omega⟩
      rw [readElements, readElements, ihValue fuel' depth text (by omega) (by omega)]
      refine bind_congr fun value hvalue => ?_
      have hlength := ((length_read finite fuel').1 _ _ _ _ hvalue).1
      cases hmark : readMark ',' value.2 with
      | none => rfl
      | some rest =>
        have := length_readMark hmark
        dsimp only
        rw [ihElements fuel' depth rest (by omega) (by omega)]
    · obtain ⟨fuel', rfl⟩ : ∃ n, fuel' = n + 1 := ⟨fuel' - 1, by omega⟩
      rw [readMembers, readMembers]
      refine bind_congr fun rest₁ hmark₁ => bind_congr fun key hkey =>
        bind_congr fun rest₃ hmark₃ => ?_
      have hmark₁ := length_readMark hmark₁
      have hkey := length_readString hkey
      have hmark₃ := length_readMark hmark₃
      rw [ihValue fuel' depth rest₃ (by omega) (by omega)]
      refine bind_congr fun value hvalue => ?_
      have hlength := ((length_read finite fuel').1 _ _ _ _ hvalue).1
      cases hmark : readMark ',' value.2 with
      | none => rfl
      | some rest =>
        have := length_readMark hmark
        dsimp only
        rw [ihMembers fuel' depth rest (by omega) (by omega)]

/-- The fuel lasts: more of it makes no difference. -/
theorem readValue_fuel {fuel' depth : ℕ} (h : 2 * text.length < fuel)
    (h' : 2 * text.length < fuel') :
    readValue finite fuel depth text = readValue finite fuel' depth text :=
  (read_fuel finite fuel).1 fuel' depth text h h'

/-! ### Texts that are read back -/

/-- The text of an object, for the texts of its members. -/
def members : List (List Char × List Char) → List Char
  | [] => ['}']
  | [member] => quote member.1 ++ ':' :: (member.2 ++ ['}'])
  | member :: rest => quote member.1 ++ ':' :: (member.2 ++ ',' :: members rest)

def object (texts : List (List Char × List Char)) : List Char := '{' :: members texts

/-- The text is read as the value, whatever follows it. -/
def Reads (finite : List Char → Bool) (depth : ℕ) (text : List Char) (v : Value) : Prop :=
  ∀ rest, ∃ least, ∀ fuel ≥ least, readValue finite fuel depth (text ++ rest) = some (v, rest)

variable {depth : ℕ}

theorem reads_null : Reads finite depth "null".toList .null := by
  refine fun rest => ⟨1, fun fuel hfuel => ?_⟩
  obtain ⟨fuel, rfl⟩ : ∃ n, fuel = n + 1 := ⟨fuel - 1, by omega⟩
  rw [readValue]
  rfl

theorem reads_bool (b : Bool) :
    Reads finite depth (if b then "true".toList else "false".toList) (.bool b) := by
  refine fun rest => ⟨1, fun fuel hfuel => ?_⟩
  obtain ⟨fuel, rfl⟩ : ∃ n, fuel = n + 1 := ⟨fuel - 1, by omega⟩
  cases b with
  | true =>
    rw [readValue]
    rfl
  | false =>
    rw [readValue]
    rfl

theorem reads_quote (s : List Char) : Reads finite depth (quote s) (.string s) := by
  refine fun rest => ⟨1, fun fuel hfuel => ?_⟩
  obtain ⟨fuel, rfl⟩ : ∃ n, fuel = n + 1 := ⟨fuel - 1, by omega⟩
  have hlength : s.length < (body s ++ rest).length + 1 := by
    have := length_body s
    rw [List.length_append]
    omega
  have hstring := readString_body s rest hlength
  rw [readValue]
  show (readString ((body s ++ rest).length + 1) (body s ++ rest)).map _ = _
  rw [hstring]
  rfl

/-- A member of an object. -/
theorem readMembers_member (key : List Char) (tail : List Char) :
    readMembers finite (fuel + 1) depth (quote key ++ ':' :: tail) =
      (readValue finite fuel depth tail).bind fun value =>
        match readMark ',' value.2 with
        | some rest =>
          (readMembers finite fuel depth rest).map fun members =>
            ((key, value.1) :: members.1, members.2)
        | none => (readMark '}' value.2).map ([(key, value.1)], ·) := by
  have hlength : key.length < (body key ++ ':' :: tail).length + 1 := by
    have := length_body key
    rw [List.length_append]
    omega
  have hquote : readMark '"' (quote key ++ ':' :: tail) = some (body key ++ ':' :: tail) := rfl
  have hcolon : readMark ':' (':' :: tail) = some tail := rfl
  rw [readMembers, hquote, Option.bind_some, readString_body key _ hlength, Option.bind_some,
    hcolon,
    Option.bind_some]

theorem reads_members
    (h : List.Forall₂ (fun t v => t.1 = v.1 ∧ Reads finite depth t.2 v.2) texts values)
    (hne : texts ≠ []) (rest : List Char) : ∃ least, ∀ fuel ≥ least,
      readMembers finite fuel depth (members texts ++ rest) = some (values, rest) := by
  induction h with
  | nil => exact absurd rfl hne
  | @cons t v texts values htv htexts ih =>
    obtain ⟨key, text⟩ := t
    obtain ⟨key', value⟩ := v
    obtain ⟨rfl, hread⟩ := htv
    cases texts with
    | nil =>
      cases htexts
      obtain ⟨least, hleast⟩ := hread ('}' :: rest)
      refine ⟨least + 1, fun fuel hfuel => ?_⟩
      obtain ⟨fuel, rfl⟩ : ∃ n, fuel = n + 1 := ⟨fuel - 1, by omega⟩
      have hsplit : members [(key, text)] ++ rest = quote key ++ ':' :: (text ++ '}' :: rest) := by
        simp [members]
      rw [hsplit, readMembers_member, hleast fuel (by omega)]
      rfl
    | cons next texts =>
      obtain ⟨leastTail, htail⟩ := ih (List.cons_ne_nil _ _)
      obtain ⟨least, hleast⟩ := hread (',' :: (members (next :: texts) ++ rest))
      refine ⟨max least leastTail + 1, fun fuel hfuel => ?_⟩
      obtain ⟨fuel, rfl⟩ : ∃ n, fuel = n + 1 := ⟨fuel - 1, by omega⟩
      have hsplit : members ((key, text) :: next :: texts) ++ rest =
          quote key ++ ':' :: (text ++ ',' :: (members (next :: texts) ++ rest)) := by
        simp [members]
      have hcomma : readMark ',' (',' :: (members (next :: texts) ++ rest)) =
          some (members (next :: texts) ++ rest) := rfl
      rw [hsplit, readMembers_member, hleast fuel (by omega), Option.bind_some]
      dsimp only
      rw [hcomma]
      dsimp only
      rw [htail fuel (by omega)]
      rfl

theorem reads_object
    (h : List.Forall₂ (fun t v => t.1 = v.1 ∧ Reads finite depth t.2 v.2) texts values)
    (hne : texts ≠ []) : Reads finite (depth + 1) (object texts) (.object values) := by
  intro rest
  obtain ⟨least, hleast⟩ := reads_members h hne rest
  refine ⟨least + 1, fun fuel hfuel => ?_⟩
  obtain ⟨fuel, rfl⟩ : ∃ n, fuel = n + 1 := ⟨fuel - 1, by omega⟩
  have hopen : readMark '}' (members texts ++ rest) = none := by
    cases texts with
    | nil => exact absurd rfl hne
    | cons text texts =>
      cases texts with
      | nil => rfl
      | cons next texts => rfl
  have hskip : skipSpace (object texts ++ rest) = '{' :: (members texts ++ rest) := rfl
  rw [readValue, hskip]
  dsimp only
  rw [if_neg (by decide), if_neg (by decide), if_pos rfl, hopen]
  dsimp only
  rw [hleast fuel (by omega)]
  rfl

/-- A text that is read as a value, whatever follows it, is a text of the value. -/
theorem parse_of_reads {text : List Char} (h : Reads finite depth text v) :
    parse finite depth text = some v := by
  obtain ⟨least, hleast⟩ := h []
  have hread := hleast (max least (2 * text.length + 1)) (le_max_left _ _)
  have hfuel : readValue finite (2 * text.length + 1) depth text =
      readValue finite (max least (2 * text.length + 1)) depth text :=
    readValue_fuel (by omega) (by omega)
  rw [List.append_nil] at hread
  rw [parse, hfuel, hread]
  rfl

end

end JsonText
