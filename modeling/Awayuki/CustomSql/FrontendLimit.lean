import Awayuki.CustomSql.Items

/-!
# The frontend's search for a `LIMIT`

`hasTopLevelSqlLimit` of `utils/sql.ts` decides in the frontend whether a custom timeline has a
limit of its own.  It reads the text as the user has typed it, in UTF-16 code units.

* `JsString`, `toUtf16`: strings of JavaScript;
* `hasTopLevelSqlLimit`: the loop over the code units;
* `limitIn`: what both searches find, from a place in a text on;
* `limitLoop_eq`, `scanLimit_eq`: so they do.
-/

namespace Awayuki.CustomSql

/-! ### Strings of JavaScript -/

variable {depth u turns : ℕ} {inWord : Bool} {d : Char}

/-- A string is a sequence of code units. -/
abbrev JsString := List ℕ

def utf16 (c : Char) : JsString :=
  if c.toNat < 0x10000 then [c.toNat]
  else [0xd800 + (c.toNat - 0x10000) / 0x400, 0xdc00 + (c.toNat - 0x10000) % 0x400]

def toUtf16 (s : Str) : JsString := s.flatMap utf16

def lowerUnit (u : ℕ) : ℕ := if 65 ≤ u ∧ u ≤ 90 then u + 32 else u

/-- `String.prototype.toLowerCase`.  The Kelvin sign is the only character outside ASCII whose
lower case is in ASCII; the lower case of any other has a character outside ASCII. -/
class JsLowerCase where
  toLowerCase : JsString → JsString
  ascii : ∀ s : JsString, (∀ u ∈ s, u < 128) → toLowerCase s = s.map lowerUnit
  kelvin : ∀ s : JsString, 0x212a ∈ s → 'k'.toNat ∈ toLowerCase s
  other : ∀ s : JsString, ∀ u ∈ s, 128 ≤ u → u ≠ 0x212a → ∃ v ∈ toLowerCase s, 128 ≤ v

/-- A lower case that knows ASCII and the Kelvin sign only. -/
@[reducible] def asciiLowerCase : JsLowerCase where
  toLowerCase s := s.map fun u => if u = 0x212a then 'k'.toNat else lowerUnit u
  ascii s hs := by
    refine List.map_congr_left fun u hu => if_neg ?_
    have := hs u hu
    omega
  kelvin s hs := List.mem_map.2 ⟨0x212a, hs, if_pos rfl⟩
  other s u hu hle hne := by
    refine ⟨u, List.mem_map.2 ⟨u, hu, ?_⟩, hle⟩
    rw [if_neg hne, lowerUnit, if_neg (by omega)]

/-! ### The loop -/

/-- `isSqlIdentifierChar`: `/[A-Za-z0-9_$]/` -/
def isSqlIdentifierChar (char : Option ℕ) : Bool :=
  char.any fun u => (65 ≤ u && u ≤ 90) || (97 ≤ u && u ≤ 122) || (48 ≤ u && u ≤ 57) ||
    u == '_'.toNat || u == '$'.toNat

/-- Behind the line break that ends a comment. -/
def behindLine : JsString → JsString
  | [] => []
  | u :: text => if u = '\n'.toNat then text else behindLine text

/-- Behind the end of a block comment. -/
def behindBlock : JsString → JsString
  | [] => []
  | u :: text =>
    if u = '*'.toNat && text.head? = some '/'.toNat then text.tail else behindBlock text

/-- Behind the closing quote; a doubled one does not close. -/
def behindQuote (quote : ℕ) : JsString → JsString
  | [] => []
  | [_] => []
  | u :: v :: text =>
    if u = quote then if v = quote then behindQuote quote text else v :: text
    else behindQuote quote (v :: text)

def behindBracket : JsString → JsString
  | [] => []
  | u :: text => if u = ']'.toNat then text else behindBracket text

section

variable [JsLowerCase]

/-- `sql[index - 1]` where the text begins. -/
def unitBefore (sql text : JsString) : Option ℕ := (sql.take (sql.length - text.length)).getLast?

/-- The loop, from an index on. -/
def limitLoop (sql : JsString) : ℕ → ℕ → JsString → Bool
  | _, _, [] => false
  | 0, _, _ :: _ => false
  | turns + 1, depth, u :: text =>
    if u = '-'.toNat && text.head? = some '-'.toNat then
      limitLoop sql turns depth (behindLine text.tail)
    else if u = '/'.toNat && text.head? = some '*'.toNat then
      limitLoop sql turns depth (behindBlock text.tail)
    else if u = '\''.toNat || u = '\x22'.toNat || u = '\x60'.toNat then
      limitLoop sql turns depth (behindQuote u text)
    else if u = '['.toNat then limitLoop sql turns depth (behindBracket text)
    else if u = '('.toNat then limitLoop sql turns (depth + 1) text
    else if u = ')'.toNat then limitLoop sql turns (depth - 1) text
    else if depth = 0 && JsLowerCase.toLowerCase ((u :: text).take 5) == toUtf16 "limit" &&
        !isSqlIdentifierChar (unitBefore sql (u :: text)) &&
        !isSqlIdentifierChar (u :: text)[5]? then
      true
    else limitLoop sql turns depth text

def hasTopLevelSqlLimit (sql : JsString) : Bool := limitLoop sql sql.length 0 sql

end

/-! ### What is searched for -/

variable {c q : Char} {text rest : Str}

theorem length_skipLine_le (text : Str) : (skipLine text).length ≤ text.length := by
  obtain ⟨skipped, htext, -⟩ := skipLine_spec text
  have := congrArg List.length htext
  rw [List.length_append] at this
  omega

theorem length_skipBlock_le (text : Str) : ((skipBlock text).getD []).length ≤ text.length := by
  cases hskip : skipBlock text with
  | none => exact Nat.zero_le _
  | some rest =>
    obtain ⟨skipped, rfl, -⟩ := exists_skipBlock hskip
    simp

theorem length_skipQuoted_le (q : Char) (text : Str) :
    ((skipQuoted q text).getD []).length ≤ text.length := by
  cases hskip : skipQuoted q text with
  | none => exact Nat.zero_le _
  | some rest =>
    obtain ⟨skipped, rfl, -⟩ := exists_skipQuoted hskip
    simp

theorem length_skipBracket_le (text : Str) :
    ((skipBracket text).getD []).length ≤ text.length := by
  cases hskip : skipBracket text with
  | none => exact Nat.zero_le _
  | some rest =>
    obtain ⟨skipped, rfl, -⟩ := exists_skipBracket hskip
    simp

/-- The keyword begins here, when no word goes on here. -/
def startsLimit (inWord : Bool) (text : Str) : Bool :=
  Str.toAsciiLowercase (text.take 5) == ("limit" : String).toList && !inWord &&
    !(text[5]?).any isIdentifierByte

/-- Is there a keyword `LIMIT` outside parentheses, quotes and comments? -/
def limitIn (inWord : Bool) (depth : ℕ) (text : Str) : Bool :=
  match text with
  | [] => false
  | c :: text =>
    if c = '-' && text.head? = some '-' then limitIn false depth (skipLine text.tail)
    else if c = '/' && text.head? = some '*' then
      limitIn false depth ((skipBlock text.tail).getD [])
    else if isQuote c then limitIn false depth ((skipQuoted c text).getD [])
    else if c = '[' then limitIn false depth ((skipBracket text).getD [])
    else if c = '(' then limitIn false (depth + 1) text
    else if c = ')' then limitIn false (depth - 1) text
    else depth = 0 && startsLimit inWord (c :: text) || limitIn (isIdentifierByte c) depth text
termination_by text.length
decreasing_by
  all_goals simp only [List.length_cons]
  · have := length_skipLine_le text.tail
    rw [List.length_tail] at this
    omega
  · have := length_skipBlock_le text.tail
    rw [List.length_tail] at this
    omega
  · have := length_skipQuoted_le c text
    omega
  · have := length_skipBracket_le text
    omega
  all_goals omega

/-! ### The backend's search -/

theorem limitIn_nil (inWord : Bool) (depth : ℕ) : limitIn inWord depth [] = false := by
  rw [limitIn]

/-- The keyword does not begin with another letter. -/
theorem startsLimit_of_ne (h : c.toLower ≠ 'l') : startsLimit inWord (c :: text) = false := by
  have htake :
      (Str.toAsciiLowercase ((c :: text).take 5) == ("limit" : String).toList) = false := by
    rw [beq_eq_false_iff_ne, List.take_succ_cons]
    intro heq
    exact h (List.cons.inj heq).1
  rw [startsLimit, htake, Bool.false_and, Bool.false_and]

/-- A line break ends every word. -/
theorem limitIn_of_newline {inWord' : Bool} (h : ∀ c ∈ text.head?, c = '\n') :
    limitIn inWord depth text = limitIn inWord' depth text := by
  cases text with
  | nil => rw [limitIn, limitIn]
  | cons c text =>
    obtain rfl := h c rfl
    rw [limitIn, limitIn, startsLimit_of_ne (by decide), startsLimit_of_ne (by decide)]

/-- The backend's search, from any place in the text on. -/
theorem scanLimit_eq {sql done : Str} (hsql : sql = done ++ text) (hturns : text.length ≤ turns) :
    scanLimit sql turns depth text = limitIn (done.getLast?.any isIdentifierByte) depth text := by
  induction turns generalizing depth text done with
  | zero =>
    obtain rfl := List.length_eq_zero_iff.1 (Nat.le_zero.1 hturns)
    rw [limitIn_nil]
    rfl
  | succ turns ih =>
    cases text with
    | nil =>
      rw [limitIn_nil]
      rfl
    | cons c text =>
      rw [List.length_cons] at hturns
      -- the rest of the text behind an item
      have hrest (item : Str) {rest : Str} {depth : ℕ} (htext : c :: text = item ++ rest)
          (hlength : rest.length ≤ text.length) :
          scanLimit sql turns depth rest =
            limitIn ((done ++ item).getLast?.any isIdentifierByte) depth rest :=
        ih (by rw [hsql, htext, List.append_assoc]) (hlength.trans (by omega))
      have hlast (item : Str) {d : Char} (hitem : item.getLast? = some d) :
          (done ++ item).getLast? = some d := by
        rw [List.getLast?_append, hitem]
        rfl
      rw [scanLimit, limitIn]
      split_ifs with hline hblock hquote hbracket hopen hclose
      · obtain ⟨rfl, text, rfl⟩ := head_eq hline
        obtain ⟨skipped, htext, -, hnext⟩ := skipLine_spec text
        rw [List.tail_cons, hrest ('-' :: '-' :: skipped) (congrArg ('-' :: '-' :: ·) htext)
          ((length_skipLine_le text).trans (Nat.le_succ _))]
        exact limitIn_of_newline hnext
      · obtain ⟨rfl, text, rfl⟩ := head_eq hblock
        rw [List.tail_cons]
        cases hskip : skipBlock text with
        | none =>
          rw [Option.getD_none, limitIn_nil]
          cases turns <;> rfl
        | some rest =>
          obtain ⟨skipped, rfl, hskipped, -⟩ := exists_skipBlock hskip
          rw [Option.getD_some, hrest ('/' :: '*' :: skipped) rfl (by simp; omega),
            hlast ('/' :: '*' :: skipped) (d := '/') (by
              rw [List.getLast?_cons, List.getLast?_cons, hskipped]; rfl)]
          rfl
      · cases hskip : skipQuoted c text with
        | none =>
          rw [Option.getD_none, limitIn_nil]
          cases turns <;> rfl
        | some rest =>
          obtain ⟨skipped, rfl, hskipped, -⟩ := exists_skipQuoted hskip
          have hc : isIdentifierByte c = false := by
            have hmem : c = '\'' ∨ c = '\x22' ∨ c = '\x60' := by simpa [isQuote] using hquote
            rcases hmem with rfl | rfl | rfl <;> rfl
          rw [Option.getD_some, hrest (c :: skipped) rfl (by simp),
            hlast (c :: skipped) (d := c) (by rw [List.getLast?_cons, hskipped]; rfl),
            Option.any_some, hc]
      · cases hskip : skipBracket text with
        | none =>
          rw [Option.getD_none, limitIn_nil]
          cases turns <;> rfl
        | some rest =>
          obtain ⟨skipped, rfl, hskipped, -⟩ := exists_skipBracket hskip
          rw [Option.getD_some, hrest (c :: skipped) rfl (by simp),
            hlast (c :: skipped) (d := ']') (by rw [List.getLast?_cons, hskipped]; rfl)]
          rfl
      · rw [hrest [c] rfl le_rfl, hlast [c] rfl, hopen]
        rfl
      · rw [hrest [c] rfl le_rfl, hlast [c] rfl, hclose]
        rfl
      · have hbefore : sql.take (sql.length - (c :: text).length) = done := by
          rw [hsql, List.length_append, Nat.add_sub_cancel, List.take_left]
        have hkeyword : keywordAt sql (c :: text) ("limit" : String).toList =
            startsLimit (done.getLast?.any isIdentifierByte) (c :: text) := by
          rw [keywordAt, hbefore]
          rfl
        rw [hkeyword, hrest [c] rfl le_rfl, hlast [c] rfl]
        rfl

/-! ### Code units -/

theorem utf16_cases (c : Char) : utf16 c = [c.toNat] ∨
    ∃ u v, utf16 c = [u, v] ∧ 128 ≤ u ∧ 128 ≤ v ∧ 128 ≤ c.toNat := by
  by_cases hc : c.toNat < 0x10000
  · exact .inl (if_pos hc)
  · exact .inr ⟨_, _, if_neg hc, by omega, by omega, by omega⟩

theorem toUtf16_cons (c : Char) (text : Str) : toUtf16 (c :: text) = utf16 c ++ toUtf16 text :=
  List.flatMap_cons

theorem toUtf16_append (s t : Str) : toUtf16 (s ++ t) = toUtf16 s ++ toUtf16 t :=
  List.flatMap_append

theorem toNat_eq_iff {c : Char} : c.toNat = d.toNat ↔ c = d :=
  ⟨fun h => Char.toNat_inj.1 h, congrArg _⟩

theorem isSqlIdentifierChar_toNat (c : Char) :
    isSqlIdentifierChar (some c.toNat) = isIdentifierByte c := by
  have hletters : isIdentifierByte c =
      ((decide (65 ≤ c.toNat ∧ c.toNat ≤ 90) || (decide (97 ≤ c.toNat) && decide (c.toNat ≤ 122)) ||
        (decide (48 ≤ c.toNat) && decide (c.toNat ≤ 57))) || c = '_' || c = '$') := rfl
  rw [hletters, Bool.eq_iff_iff]
  simp only [isSqlIdentifierChar, Option.any_some, Bool.or_eq_true, Bool.and_eq_true,
    decide_eq_true_eq, beq_iff_eq, toNat_eq_iff]

theorem isSqlIdentifierChar_of_le (h : 128 ≤ u) : isSqlIdentifierChar (some u) = false := by
  have hunderscore : '_'.toNat = 95 := rfl
  have hdollar : '$'.toNat = 36 := rfl
  rw [Bool.eq_false_iff]
  intro hid
  simp only [isSqlIdentifierChar, Option.any_some, Bool.or_eq_true, Bool.and_eq_true,
    decide_eq_true_eq, beq_iff_eq, hunderscore, hdollar] at hid
  omega

theorem isIdentifierByte_of_le (h : 128 ≤ c.toNat) : isIdentifierByte c = false := by
  rw [← isSqlIdentifierChar_toNat, isSqlIdentifierChar_of_le h]

theorem isSqlIdentifierChar_head (text : Str) :
    isSqlIdentifierChar (toUtf16 text).head? = text.head?.any isIdentifierByte := by
  cases text with
  | nil => rfl
  | cons c text =>
    rw [toUtf16_cons, List.head?_cons, Option.any_some]
    rcases utf16_cases c with hc | ⟨u, v, hc, hu, -, hle⟩
    · rw [hc]
      exact isSqlIdentifierChar_toNat c
    · rw [hc, isIdentifierByte_of_le hle]
      exact isSqlIdentifierChar_of_le hu

theorem isSqlIdentifierChar_last (text : Str) :
    isSqlIdentifierChar (toUtf16 text).getLast? = text.getLast?.any isIdentifierByte := by
  cases text using List.reverseRecOn with
  | nil => rfl
  | append_singleton text c =>
    rw [toUtf16_append, List.getLast?_concat, Option.any_some, toUtf16_cons]
    rcases utf16_cases c with hc | ⟨u, v, hc, -, hv, hle⟩
    · rw [hc]
      show isSqlIdentifierChar (toUtf16 text ++ [c.toNat]).getLast? = _
      rw [List.getLast?_concat]
      exact isSqlIdentifierChar_toNat c
    · rw [hc, isIdentifierByte_of_le hle]
      show isSqlIdentifierChar (toUtf16 text ++ ([u] ++ [v])).getLast? = _
      rw [← List.append_assoc, List.getLast?_concat]
      exact isSqlIdentifierChar_of_le hv

theorem head_toUtf16 (hd : d.toNat < 128) :
    (toUtf16 text).head? = some d.toNat ↔ text.head? = some d := by
  cases text with
  | nil => simp [toUtf16]
  | cons c text =>
    rw [toUtf16_cons]
    rcases utf16_cases c with hc | ⟨u, v, hc, hu, -, hle⟩
    · rw [hc, List.singleton_append, List.head?_cons, List.head?_cons, Option.some_inj,
        Option.some_inj, toNat_eq_iff]
    · rw [hc, List.cons_append, List.head?_cons, List.head?_cons, Option.some_inj, Option.some_inj]
      constructor
      · intro heq
        omega
      · rintro rfl
        omega

/-- A code unit is that of a character of ASCII when the character is. -/
theorem toNat_eq_of_lt (hd : d.toNat < 128) (hu : 128 ≤ u) : u ≠ d.toNat :=
  fun heq => by omega

theorem behindLine_toUtf16 (text : Str) :
    behindLine (toUtf16 text) = toUtf16 (skipLine text).tail := by
  induction text with
  | nil => rfl
  | cons c text ih =>
    rw [toUtf16_cons, skipLine]
    rcases utf16_cases c with hc | ⟨u, v, hc, hu, hv, hle⟩
    · rw [hc]
      simp only [List.singleton_append, behindLine, toNat_eq_iff]
      split_ifs with hnewline
      · rfl
      · exact ih
    · have hne : c ≠ '\n' := by
        rintro rfl
        exact absurd hle (by decide)
      rw [hc, if_neg hne, ← ih]
      refine (if_neg (toNat_eq_of_lt (by decide) hu)).trans ?_
      exact if_neg (toNat_eq_of_lt (by decide) hv)

theorem behindBracket_toUtf16 (text : Str) :
    behindBracket (toUtf16 text) = toUtf16 ((skipBracket text).getD []) := by
  induction text with
  | nil => rfl
  | cons c text ih =>
    rw [toUtf16_cons, skipBracket]
    rcases utf16_cases c with hc | ⟨u, v, hc, hu, hv, hle⟩
    · rw [hc]
      simp only [List.singleton_append, behindBracket, toNat_eq_iff]
      split_ifs with hbracket
      · rfl
      · exact ih
    · have hne : c ≠ ']' := by
        rintro rfl
        exact absurd hle (by decide)
      rw [hc, if_neg hne, ← ih]
      refine (if_neg (toNat_eq_of_lt (by decide) hu)).trans ?_
      exact if_neg (toNat_eq_of_lt (by decide) hv)

/-- A code unit and what is behind it spell the first two characters. -/
theorem pair_iff {a b : Char} (hb : b.toNat < 128) :
    (decide (c.toNat = a.toNat) && decide ((toUtf16 text).head? = some b.toNat)) =
      (decide (c = a) && decide (text.head? = some b)) := by
  rw [Bool.eq_iff_iff, Bool.and_eq_true, Bool.and_eq_true, decide_eq_true_eq, decide_eq_true_eq,
    decide_eq_true_eq, decide_eq_true_eq, toNat_eq_iff, head_toUtf16 hb]

variable {units : JsString}

theorem pair_eq_false {a : Char} {v : ℕ} (ha : a.toNat < 128) (hu : 128 ≤ u) :
    (decide (u = a.toNat) && decide (units.head? = some v)) = false := by
  rw [decide_eq_false (toNat_eq_of_lt ha hu), Bool.false_and]

theorem behindBlock_toUtf16 (text : Str) :
    behindBlock (toUtf16 text) = toUtf16 ((skipBlock text).getD []) := by
  induction text with
  | nil => rfl
  | cons c text ih =>
    rw [toUtf16_cons, skipBlock]
    rcases utf16_cases c with hc | ⟨u, v, hc, hu, hv, hle⟩
    · rw [hc, List.singleton_append, behindBlock, pair_iff (by decide)]
      split_ifs with hend
      · obtain ⟨rfl, text, rfl⟩ := head_eq hend
        rfl
      · exact ih
    · have hne : c ≠ '*' := by
        rintro rfl
        exact absurd hle (by decide)
      rw [hc, decide_eq_false hne, Bool.false_and, if_neg Bool.false_ne_true, ← ih]
      refine (if_neg (Bool.eq_false_iff.1 (pair_eq_false (by decide) hu))).trans ?_
      exact if_neg (Bool.eq_false_iff.1 (pair_eq_false (by decide) hv))

theorem behindQuote_of_ne {quote : ℕ} (h : u ≠ quote) :
    behindQuote quote (u :: units) = behindQuote quote units := by
  cases units with
  | nil => rfl
  | cons v units => exact if_neg h

theorem behindQuote_toUtf16 (hq : q.toNat < 128) (text : Str) :
    behindQuote q.toNat (toUtf16 text) = toUtf16 ((skipQuoted q text).getD []) := by
  induction text using skipQuoted.induct q with
  | case1 => rfl
  | case2 =>
    rw [skipQuoted, if_pos rfl, toUtf16_cons]
    rcases utf16_cases q with hc | ⟨u, v, hc, -, -, hle⟩
    · rw [hc]
      rfl
    · omega
  | case3 c hc =>
    rw [skipQuoted, if_neg hc, toUtf16_cons]
    rcases utf16_cases c with hc | ⟨u, v, hc, hu, hv, -⟩
    · rw [hc]
      rfl
    · rw [hc]
      exact behindQuote_of_ne (toNat_eq_of_lt hq hu)
  | case4 text ih =>
    rw [skipQuoted, if_pos rfl, if_pos rfl, ← ih, toUtf16_cons, toUtf16_cons]
    rcases utf16_cases q with hc | ⟨u, v, hc, -, -, hle⟩
    · rw [hc]
      exact (if_pos rfl).trans (if_pos rfl)
    · omega
  | case5 d text hd =>
    rw [skipQuoted, if_pos rfl, if_neg hd, Option.getD_some, toUtf16_cons, toUtf16_cons]
    rcases utf16_cases q with hc | ⟨u, v, hc, -, -, hle⟩
    · rw [hc]
      rcases utf16_cases d with hunit | ⟨u, v, hunits, hu, -, -⟩
      · rw [hunit]
        exact (if_pos rfl).trans (if_neg fun heq => hd (toNat_eq_iff.1 heq))
      · rw [hunits]
        exact (if_pos rfl).trans (if_neg (toNat_eq_of_lt hq hu))
    · omega
  | case6 c d text hc ih =>
    rw [skipQuoted, if_neg hc, ← ih, toUtf16_cons]
    rcases utf16_cases c with hunit | ⟨u, v, hunits, hu, hv, -⟩
    · rw [hunit]
      exact behindQuote_of_ne fun heq => hc (toNat_eq_iff.1 heq)
    · rw [hunits]
      refine (behindQuote_of_ne (toNat_eq_of_lt hq hu)).trans ?_
      exact behindQuote_of_ne (toNat_eq_of_lt hq hv)

/-- The first code units are those of the first characters, or both are not all of ASCII. -/
theorem take_toUtf16 (n : ℕ) (text : Str) :
    (∀ c ∈ text.take n, c.toNat < 128) ∧ (toUtf16 text).take n = (text.take n).map Char.toNat ∧
        (toUtf16 text).drop n = toUtf16 (text.drop n) ∨
      (∃ c ∈ text.take n, 128 ≤ c.toNat) ∧ ∃ u ∈ (toUtf16 text).take n, 128 ≤ u := by
  induction n generalizing text with
  | zero => exact .inl ⟨by simp, by simp, by simp⟩
  | succ n ih =>
    cases text with
    | nil => exact .inl ⟨by simp, by simp [toUtf16], by simp [toUtf16]⟩
    | cons c text =>
      by_cases hc : c.toNat < 128
      · have hunit : utf16 c = [c.toNat] := if_pos (by omega)
        rw [toUtf16_cons, hunit, List.singleton_append, List.take_succ_cons, List.take_succ_cons]
        rcases ih text with ⟨hascii, htake, hdrop⟩ | ⟨⟨d, hd, hle⟩, u, hu, hle'⟩
        · exact .inl ⟨List.forall_mem_cons.2 ⟨hc, hascii⟩, congrArg (c.toNat :: ·) htake, hdrop⟩
        · exact .inr ⟨⟨d, List.mem_cons_of_mem _ hd, hle⟩, u, List.mem_cons_of_mem _ hu, hle'⟩
      · refine .inr ⟨⟨c, List.mem_cons_self, by omega⟩, ?_⟩
        rw [toUtf16_cons]
        rcases utf16_cases c with hunit | ⟨u, v, hunits, hu, -, -⟩
        · rw [hunit]
          exact ⟨c.toNat, List.mem_cons_self, by omega⟩
        · rw [hunits]
          exact ⟨u, List.mem_cons_self, hu⟩

theorem toLower_of_le (hc : 128 ≤ c.toNat) : c.toLower = c := Str.toLower_eq_self (by omega)

theorem toNat_toLower (hc : c.toNat < 128) : c.toLower.toNat = lowerUnit c.toNat := by
  have hall : ∀ n < 128, (Char.ofNat n).toLower.toNat = lowerUnit (Char.ofNat n).toNat := by decide
  have h := hall c.toNat hc
  rwa [Char.ofNat_toNat] at h

theorem isQuote_eq : (decide (c.toNat = '\''.toNat) || decide (c.toNat = '\x22'.toNat) ||
    decide (c.toNat = '\x60'.toNat)) = isQuote c := by
  simp only [toNat_eq_iff, isQuote]
  rw [Bool.eq_iff_iff]
  simp [or_assoc]

theorem limitIn_newline : limitIn inWord depth ('\n' :: text) = limitIn false depth text := by
  rw [limitIn, startsLimit_of_ne (by decide), Bool.and_false, Bool.false_or]
  rfl

theorem limitIn_of_le (hc : 128 ≤ c.toNat) :
    limitIn inWord depth (c :: text) = limitIn (isIdentifierByte c) depth text := by
  have hne (d : Char) (hd : d.toNat < 128) : c ≠ d := fun heq => by
    rw [heq] at hc
    omega
  have hquote : isQuote c = false := by
    simp [isQuote, hne '\'' (by decide), hne '\x22' (by decide), hne '\x60' (by decide)]
  have hstarts : startsLimit inWord (c :: text) = false :=
    startsLimit_of_ne (by rw [toLower_of_le hc]; exact hne 'l' (by decide))
  rw [limitIn, decide_eq_false (hne '-' (by decide)), decide_eq_false (hne '/' (by decide)),
    hquote, if_neg (hne '[' (by decide)), if_neg (hne '(' (by decide)),
    if_neg (hne ')' (by decide)), hstarts, Bool.and_false, Bool.false_or]
  rfl

theorem length_toUtf16_pos {item : Str} (hitem : item ≠ []) : 0 < (toUtf16 item).length := by
  obtain ⟨c, item, rfl⟩ := List.exists_cons_of_ne_nil hitem
  rw [toUtf16_cons, List.length_append]
  rcases utf16_cases c with hunit | ⟨u, v, hunits, -⟩
  · rw [hunit, List.length_singleton]
    omega
  · rw [hunits, List.length_cons]
    omega

section

variable [JsLowerCase]

theorem toLowerCase_ne {s : JsString} (hu : u ∈ s) (hle : 128 ≤ u) :
    JsLowerCase.toLowerCase s ≠ toUtf16 ("limit" : String).toList := by
  intro h
  by_cases hkelvin : u = 0x212a
  · have hk := JsLowerCase.kelvin s (hkelvin ▸ hu)
    rw [h] at hk
    revert hk
    decide
  · obtain ⟨v, hv, hle⟩ := JsLowerCase.other s u hu hle hkelvin
    rw [h] at hv
    have hall : ∀ v ∈ toUtf16 ("limit" : String).toList, v < 128 := by decide
    exact absurd (hall v hv) (by omega)

/-- Both searches see the keyword at the same places. -/
theorem keyword_eq (inWord : Bool) (text : Str) :
    (JsLowerCase.toLowerCase ((toUtf16 text).take 5) == toUtf16 ("limit" : String).toList &&
      !inWord && !isSqlIdentifierChar (toUtf16 text)[5]?) = startsLimit inWord text := by
  rw [startsLimit]
  rcases take_toUtf16 5 text with ⟨hascii, htake, hdrop⟩ | ⟨⟨c, hc, hle⟩, u, hu, hle'⟩
  · have hlower : JsLowerCase.toLowerCase ((toUtf16 text).take 5) =
        (Str.toAsciiLowercase (text.take 5)).map Char.toNat := by
      rw [JsLowerCase.ascii _ ?_, htake, Str.toAsciiLowercase, List.map_map, List.map_map]
      · exact List.map_congr_left fun c hc => (toNat_toLower (hascii c hc)).symm
      · intro u hu
        rw [htake] at hu
        obtain ⟨c, hc, rfl⟩ := List.mem_map.1 hu
        exact hascii c hc
    have hlimit : toUtf16 ("limit" : String).toList = ("limit" : String).toList.map Char.toNat := by
      decide
    have hbeq : ((Str.toAsciiLowercase (text.take 5)).map Char.toNat ==
        ("limit" : String).toList.map Char.toNat) =
          (Str.toAsciiLowercase (text.take 5) == ("limit" : String).toList) := by
      rw [Bool.eq_iff_iff, beq_iff_eq, beq_iff_eq]
      exact (List.map_injective_iff.2 fun _ _ => toNat_eq_iff.1).eq_iff
    have hnext : isSqlIdentifierChar (toUtf16 text)[5]? = (text[5]?).any isIdentifierByte := by
      rw [← List.head?_drop, hdrop, isSqlIdentifierChar_head, List.head?_drop]
    rw [hlower, hlimit, hbeq, hnext]
  · have hne : Str.toAsciiLowercase (text.take 5) ≠ ("limit" : String).toList := by
      intro heq
      have hmem : c.toLower ∈ Str.toAsciiLowercase (text.take 5) := List.mem_map_of_mem hc
      have hall : (("limit" : String).toList.all fun c => c.toNat < 128) = true := by decide
      rw [heq, toLower_of_le hle] at hmem
      exact absurd (of_decide_eq_true (List.all_eq_true.1 hall c hmem)) (by omega)
    rw [beq_eq_false_iff_ne.2 (toLowerCase_ne hu hle'), beq_eq_false_iff_ne.2 hne,
      Bool.false_and, Bool.false_and, Bool.false_and]

/-- A code unit outside ASCII is passed. -/
theorem limitLoop_of_le {sql : JsString} (hu : 128 ≤ u) :
    limitLoop sql (turns + 1) depth (u :: units) = limitLoop sql turns depth units := by
  have hne (d : Char) (hd : d.toNat < 128) : u ≠ d.toNat := toNat_eq_of_lt hd hu
  have hlower : (JsLowerCase.toLowerCase ((u :: units).take 5) ==
      toUtf16 ("limit" : String).toList) = false :=
    beq_eq_false_iff_ne.2 (toLowerCase_ne List.mem_cons_self hu)
  rw [limitLoop, pair_eq_false (by decide) hu, pair_eq_false (by decide) hu,
    decide_eq_false (hne '\'' (by decide)), decide_eq_false (hne '\x22' (by decide)),
    decide_eq_false (hne '\x60' (by decide)), if_neg (hne '[' (by decide)),
    if_neg (hne '(' (by decide)), if_neg (hne ')' (by decide)), hlower, Bool.and_false,
    Bool.false_and, Bool.false_and]
  rfl

/-- The frontend's search, from any place in the text on. -/
theorem limitLoop_eq {sql : JsString} {done : Str} (hsql : sql = toUtf16 done ++ toUtf16 text)
    (hturns : (toUtf16 text).length ≤ turns) : limitLoop sql turns depth (toUtf16 text) =
      limitIn (done.getLast?.any isIdentifierByte) depth text := by
  induction turns using Nat.strongRecOn generalizing depth text done with
  | ind turns ih =>
    cases text with
    | nil =>
      rw [limitIn_nil]
      cases turns <;> rfl
    | cons c text =>
      obtain ⟨turns, rfl⟩ : ∃ t, turns = t + 1 := ⟨turns - 1, by
        have := length_toUtf16_pos (List.cons_ne_nil c text)
        omega⟩
      -- the rest of the text behind an item
      have hrest (item : Str) {rest : Str} {depth : ℕ} (htext : c :: text = item ++ rest)
          (hne : item ≠ []) :
          limitLoop sql turns depth (toUtf16 rest) =
            limitIn ((done ++ item).getLast?.any isIdentifierByte) depth rest := by
        refine ih turns (Nat.lt_succ_self _) ?_ ?_
        · rw [hsql, htext, toUtf16_append, toUtf16_append, List.append_assoc]
        · have hpos := length_toUtf16_pos hne
          rw [htext, toUtf16_append, List.length_append] at hturns
          omega
      have hlast (item : Str) {d : Char} (hitem : item.getLast? = some d) :
          (done ++ item).getLast? = some d := by
        rw [List.getLast?_append, hitem]
        rfl
      have hnil (depth : ℕ) : limitLoop sql turns depth [] = false := by
        cases turns <;> rfl
      rcases utf16_cases c with hunit | ⟨u, v, hunits, hu, hv, hle⟩
      · have hbefore : unitBefore sql (c.toNat :: toUtf16 text) = (toUtf16 done).getLast? := by
          rw [unitBefore, hsql, toUtf16_cons, hunit, List.singleton_append, List.length_append,
            Nat.add_sub_cancel, List.take_left]
        have hkeyword := keyword_eq (done.getLast?.any isIdentifierByte) (c :: text)
        rw [← isSqlIdentifierChar_last, toUtf16_cons, hunit, List.singleton_append] at hkeyword
        rw [toUtf16_cons, hunit, List.singleton_append, limitLoop, limitIn, pair_iff (by decide),
          pair_iff (by decide), isQuote_eq, hbefore, Bool.and_assoc, Bool.and_assoc,
          ← Bool.and_assoc _ (!isSqlIdentifierChar _), hkeyword, isSqlIdentifierChar_last]
        simp only [toNat_eq_iff]
        split_ifs with hline hblock hquote hbracket hopen hclose hstarts
        · obtain ⟨rfl, text, rfl⟩ := head_eq hline
          obtain ⟨skipped, htext, -, hnext⟩ := skipLine_spec text
          show limitLoop sql turns depth (behindLine (toUtf16 text)) =
            limitIn false depth (skipLine text)
          rw [behindLine_toUtf16]
          cases hskip : skipLine text with
          | nil =>
            rw [limitIn_nil]
            exact hnil depth
          | cons d rest =>
            rw [hskip] at htext hnext
            obtain rfl := hnext d rfl
            rw [List.tail_cons, limitIn_newline, hrest ('-' :: '-' :: (skipped ++ ['\n']))
              (by rw [htext]; simp) (List.cons_ne_nil _ _),
              hlast ('-' :: '-' :: (skipped ++ ['\n'])) (d := '\n') (by
                rw [← List.cons_append, ← List.cons_append, List.getLast?_concat])]
            rfl
        · obtain ⟨rfl, text, rfl⟩ := head_eq hblock
          show limitLoop sql turns depth (behindBlock (toUtf16 text)) =
            limitIn false depth ((skipBlock text).getD [])
          rw [behindBlock_toUtf16]
          cases hskip : skipBlock text with
          | none =>
            rw [Option.getD_none, limitIn_nil]
            exact hnil depth
          | some rest =>
            obtain ⟨skipped, rfl, hskipped, -⟩ := exists_skipBlock hskip
            rw [Option.getD_some, hrest ('/' :: '*' :: skipped) rfl (List.cons_ne_nil _ _),
              hlast ('/' :: '*' :: skipped) (d := '/') (by
                rw [List.getLast?_cons, List.getLast?_cons, hskipped]; rfl)]
            rfl
        · have hmem : c = '\'' ∨ c = '\x22' ∨ c = '\x60' := by simpa [isQuote] using hquote
          have hascii : c.toNat < 128 ∧ isIdentifierByte c = false := by
            rcases hmem with rfl | rfl | rfl <;> decide
          rw [behindQuote_toUtf16 hascii.1]
          cases hskip : skipQuoted c text with
          | none =>
            rw [Option.getD_none, limitIn_nil]
            exact hnil depth
          | some rest =>
            obtain ⟨skipped, rfl, hskipped, -⟩ := exists_skipQuoted hskip
            rw [Option.getD_some, hrest (c :: skipped) rfl (List.cons_ne_nil _ _),
              hlast (c :: skipped) (d := c) (by rw [List.getLast?_cons, hskipped]; rfl),
              Option.any_some, hascii.2]
        · rw [behindBracket_toUtf16]
          cases hskip : skipBracket text with
          | none =>
            rw [Option.getD_none, limitIn_nil]
            exact hnil depth
          | some rest =>
            obtain ⟨skipped, rfl, hskipped, -⟩ := exists_skipBracket hskip
            rw [Option.getD_some, hrest (c :: skipped) rfl (List.cons_ne_nil _ _),
              hlast (c :: skipped) (d := ']') (by rw [List.getLast?_cons, hskipped]; rfl)]
            rfl
        · rw [hrest [c] rfl (List.cons_ne_nil _ _), hlast [c] rfl, hopen]
          rfl
        · rw [hrest [c] rfl (List.cons_ne_nil _ _), hlast [c] rfl, hclose]
          rfl
        · rw [hstarts, Bool.true_or]
        · rw [hrest [c] rfl (List.cons_ne_nil _ _), hlast [c] rfl,
            Bool.eq_false_iff.2 hstarts, Bool.false_or]
          rfl
      · rw [toUtf16_cons, hunits, List.length_append, List.length_cons, List.length_singleton]
          at hturns
        obtain ⟨turns, rfl⟩ : ∃ t, turns = t + 1 := ⟨turns - 1, by omega⟩
        rw [toUtf16_cons, hunits, limitIn_of_le hle]
        have hsql' : sql = toUtf16 (done ++ [c]) ++ toUtf16 text := by
          rw [hsql, toUtf16_cons, toUtf16_append, toUtf16_cons, List.append_assoc,
            List.append_assoc]
          rfl
        refine (limitLoop_of_le hu).trans ((limitLoop_of_le hv).trans ?_)
        refine (ih turns (by omega) hsql' (by omega)).trans ?_
        rw [hlast [c] rfl]
        rfl

end

end Awayuki.CustomSql
