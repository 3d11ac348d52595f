import Mathlib.Tactic
import Mathlib.Data.List.DropRight
import Mathlib.Data.List.Infix
import Mathlib.Data.List.Lex
import Mathlib.Data.Char

/-!
# Text

A Rust `str` is seen as the list of its Unicode scalar values, so the string functions of the
standard library are list functions.  Byte counts (`str::len`, slice positions) are the UTF-8
sizes of those values.

* `len`, `trim`, `trimStartMatches`, `stripPrefix`, `splitOnce`, `rsplitOnce`, `contains`,
  `startsWith`, `endsWith`, `eqIgnoreAsciiCase`, `toAsciiLowercase`, `replace` follow the
  documentation of the functions of the same name;
* `CharTable` is what the lexer asks of the Unicode tables, `Icu` the folding of the `icu`
  crates: both are known here on ASCII only, which is all the code relies on.
-/

namespace Awayuki

/-- A Rust string: its Unicode scalar values in order. -/
abbrev Str := List Char

instance : Coe String Str := ⟨String.toList⟩

namespace Str

variable {c : Char}

-- An instance of its own, so that no definition has to carry its proof.
instance lawfulBEq : LawfulBEq Str := inferInstance

/-- `str::len`: the number of UTF-8 bytes. -/
def len (s : Str) : ℕ := (s.map Char.utf8Size).sum

@[simp] theorem len_nil : len [] = 0 := rfl

@[simp] theorem len_cons (c : Char) (s : Str) : len (c :: s) = c.utf8Size + len s := by
  simp [len]

@[simp] theorem len_append (s t : Str) : len (s ++ t) = len s + len t := by
  simp [len]

/-- `char::is_whitespace`: the code points of the `White_Space` property. -/
def isWhitespace (c : Char) : Bool :=
  (0x9 ≤ c.toNat && c.toNat ≤ 0xd) || c.toNat == 0x20 || c.toNat == 0x85 || c.toNat == 0xa0 ||
    c.toNat == 0x1680 || (0x2000 ≤ c.toNat && c.toNat ≤ 0x200a) || c.toNat == 0x2028 ||
    c.toNat == 0x2029 || c.toNat == 0x202f || c.toNat == 0x205f || c.toNat == 0x3000

/-- `str::is_ascii`. -/
def isAscii (s : Str) : Bool := s.all (fun c => c.toNat < 128)

def trimStart (s : Str) : Str := s.dropWhile isWhitespace

def trimEnd (s : Str) : Str := s.rdropWhile isWhitespace

def trim (s : Str) : Str := trimEnd (trimStart s)

/-- `str::trim_start_matches` for a character. -/
def trimStartMatches (c : Char) (s : Str) : Str := s.dropWhile (· == c)

/-- `str::strip_prefix` for a character. -/
def stripPrefixChar (c : Char) : Str → Option Str
  | [] => none
  | d :: s => if d = c then some s else none

/-- `str::strip_prefix` for a string. -/
def stripPrefix (p s : Str) : Option Str :=
  if p.isPrefixOf s then some (s.drop p.length) else none

variable {s : Str}

theorem stripPrefix_eq_some {p rest : Str} : stripPrefix p s = some rest ↔ s = p ++ rest := by
  unfold stripPrefix
  constructor
  · intro h
    split_ifs at h with hprefix
    rw [List.isPrefixOf_iff_prefix] at hprefix
    rw [← Option.some.inj h]
    exact (List.prefix_iff_eq_append.1 hprefix).symm
  · rintro rfl
    rw [if_pos (List.isPrefixOf_iff_prefix.2 (List.prefix_append _ _)), List.drop_left]

/-- `str::split_once`: around the first occurrence of the delimiter. -/
def splitOnce (c : Char) : Str → Option (Str × Str)
  | [] => none
  | d :: s => if d = c then some ([], s) else (splitOnce c s).map fun p => (d :: p.1, p.2)

/-- `str::rsplit_once`: around the last occurrence of the delimiter. -/
def rsplitOnce (c : Char) : Str → Option (Str × Str)
  | [] => none
  | d :: s =>
    match rsplitOnce c s with
    | some (a, b) => some (d :: a, b)
    | none => if d = c then some ([], s) else none

/-- `str::contains` for a string. -/
def contains (haystack needle : Str) : Bool := decide (needle <:+: haystack)

/-- `str::starts_with` for a string. -/
def startsWith (s p : Str) : Bool := p.isPrefixOf s

/-- `str::ends_with` for a string. -/
def endsWith (s p : Str) : Bool := p.isSuffixOf s

/-- `str::to_ascii_lowercase` (`Char.toLower` changes the letters `A` to `Z` only). -/
def toAsciiLowercase (s : Str) : Str := s.map Char.toLower

/-- `str::eq_ignore_ascii_case`. -/
def eqIgnoreAsciiCase (s t : Str) : Bool := toAsciiLowercase s == toAsciiLowercase t

/-- `[String]::join`. -/
def join (sep : Str) (parts : List Str) : Str := List.intercalate sep parts

/-- The loop of `replace`; `skip` characters are still part of an occurrence. -/
def replaceLoop (old new : Str) : ℕ → Str → Str
  | _, [] => []
  | skip + 1, _ :: s => replaceLoop old new skip s
  | 0, c :: s =>
    if old.isPrefixOf (c :: s) then new ++ replaceLoop old new (old.length - 1) s
    else c :: replaceLoop old new 0 s

/-- `str::replace` of a text that is not empty: its occurrences from the left. -/
def replace (s old new : Str) : Str := replaceLoop old new 0 s

/-- `char::to_digit`, for radices up to sixteen. -/
def digitValue (radix : ℕ) (c : Char) : Option ℕ :=
  let value := if c.isDigit then some (c.toNat - '0'.toNat)
    else if 'a' ≤ c ∧ c ≤ 'f' then some (c.toNat - 'a'.toNat + 10)
    else if 'A' ≤ c ∧ c ≤ 'F' then some (c.toNat - 'A'.toNat + 10)
    else none
  value.filter (· < radix)

/-- The number a string of digits denotes. -/
def digitsValue (radix : ℕ) (s : Str) : Option ℕ :=
  s.foldlM (fun n c => (digitValue radix c).map (radix * n + ·)) 0

/-- `u32::from_str_radix`. -/
def parseU32 (radix : ℕ) (s : Str) : Option ℕ :=
  let digits := (stripPrefixChar '+' s).getD s
  if digits.isEmpty then none else (digitsValue radix digits).filter (· < 2 ^ 32)

/-! ### Byte positions -/

/-- `&s[n..]`: `none` (a panic) when `n` is past the end or inside a character. -/
def dropBytes : Str → ℕ → Option Str
  | s, 0 => some s
  | [], _ + 1 => none
  | c :: s, n + 1 => if c.utf8Size ≤ n + 1 then dropBytes s (n + 1 - c.utf8Size) else none

/-- `&s[..n]`: `none` (a panic) when `n` is past the end or inside a character. -/
def takeBytes : Str → ℕ → Option Str
  | _, 0 => some []
  | [], _ + 1 => none
  | c :: s, n + 1 =>
    if c.utf8Size ≤ n + 1 then (takeBytes s (n + 1 - c.utf8Size)).map (c :: ·) else none

/-- `&s[a..b]`. -/
def slice (s : Str) (a b : ℕ) : Option Str :=
  if a ≤ b then (dropBytes s a).bind (takeBytes · (b - a)) else none

/-- The last character boundary not after `n`: where the code's loops that step back from
`n.min(s.len())` to a boundary stop. -/
def floorBoundary : Str → ℕ → ℕ
  | [], _ => 0
  | c :: s, n => if c.utf8Size ≤ n then c.utf8Size + floorBoundary s (n - c.utf8Size) else 0

theorem dropBytes_append (s t : Str) : dropBytes (s ++ t) s.len = some t := by
  induction s with
  | nil => cases t <;> rfl
  | cons c s ih =>
    obtain ⟨n, hn⟩ : ∃ n, c.utf8Size + len s = n + 1 :=
      ⟨c.utf8Size + len s - 1, by have := Char.utf8Size_pos c; omega⟩
    rw [len_cons, hn, List.cons_append, dropBytes, if_pos (by omega), ← ih]
    congr 1
    omega

theorem takeBytes_append (s t : Str) : takeBytes (s ++ t) s.len = some s := by
  induction s with
  | nil => cases t <;> rfl
  | cons c s ih =>
    obtain ⟨n, hn⟩ : ∃ n, c.utf8Size + len s = n + 1 :=
      ⟨c.utf8Size + len s - 1, by have := Char.utf8Size_pos c; omega⟩
    rw [len_cons, hn, List.cons_append, takeBytes, if_pos (by omega),
      show n + 1 - c.utf8Size = len s by omega, ih]
    rfl

theorem slice_append (s t u : Str) : slice (s ++ (t ++ u)) s.len (s.len + t.len) = some t := by
  rw [slice, if_pos (by omega), dropBytes_append, Option.bind_some, Nat.add_sub_cancel_left,
    takeBytes_append]

/-- Only the letters `A` to `Z` have another lower case. -/
theorem toLower_eq_self (hc : ¬ (65 ≤ c.toNat ∧ c.toNat ≤ 90)) : c.toLower = c := by
  unfold Char.toLower
  refine dif_neg fun hupper => hc ⟨?_, ?_⟩
  · exact UInt32.le_iff_toNat_le.1 hupper.1
  · exact UInt32.le_iff_toNat_le.1 hupper.2

@[simp] theorem toLower_toLower (c : Char) : c.toLower.toLower = c.toLower := by
  unfold Char.toLower
  split
  · next h =>
    -- a lower case letter is above the upper case ones
    rw [dif_neg]
    rintro ⟨-, hle⟩
    obtain ⟨hlow, hhigh⟩ := h
    rw [ge_iff_le, UInt32.le_iff_toNat_le] at hlow
    rw [UInt32.le_iff_toNat_le] at hhigh hle
    rw [UInt32.toNat_add] at hle
    have h65 : 'A'.val.toNat = 65 := rfl
    have h90 : 'Z'.val.toNat = 90 := rfl
    have h32 : ('a'.val - 'A'.val).toNat = 32 := rfl
    omega
  · rfl

@[simp] theorem toAsciiLowercase_idem (s : Str) :
    s.toAsciiLowercase.toAsciiLowercase = s.toAsciiLowercase := by
  simp only [toAsciiLowercase, List.map_map]
  exact List.map_congr_left fun c _ => by simp

variable {t : Str}

theorem eqIgnoreAsciiCase_iff :
    eqIgnoreAsciiCase s t = true ↔ toAsciiLowercase s = toAsciiLowercase t := by
  simp [eqIgnoreAsciiCase]

@[simp] theorem eqIgnoreAsciiCase_refl (s : Str) : eqIgnoreAsciiCase s s = true := by
  simp [eqIgnoreAsciiCase]

/-- Replacing brings in no characters but those of the new text. -/
theorem filter_replace {p : Char → Bool} {old new : Str} (hnew : new.filter p = []) (s : Str) :
    ((replace s old new).filter p).Sublist (s.filter p) := by
  have hloop (skip : ℕ) : ((replaceLoop old new skip s).filter p).Sublist (s.filter p) := by
    induction s generalizing skip with
    | nil => exact List.Sublist.refl _
    | cons c s ih =>
      cases skip with
      | succ skip => exact (ih skip).trans ((List.sublist_cons_self c s).filter p)
      | zero =>
        rw [replaceLoop]
        split_ifs
        · rw [List.filter_append, hnew, List.nil_append]
          exact (ih _).trans ((List.sublist_cons_self c s).filter p)
        · rw [List.filter_cons, List.filter_cons]
          split_ifs
          · exact (ih 0).cons_cons c
          · exact ih 0
  exact hloop 0

theorem trim_sublist (s : Str) : (trim s).Sublist s :=
  (List.rdropWhile_prefix _ _).sublist.trans (List.dropWhile_sublist _)

theorem len_le_of_sublist (h : s.Sublist t) : s.len ≤ t.len := by
  induction h with
  | slnil => exact le_refl _
  | cons c _ ih => exact le_trans ih (by simp)
  | cons_cons c _ ih => simpa using ih

theorem len_trim_le (s : Str) : s.trim.len ≤ s.len := len_le_of_sublist s.trim_sublist

theorem trimStart_append_of_not (hc : isWhitespace c = false) :
    trimStart (s ++ [c]) = trimStart s ++ [c] := by
  rw [trimStart, List.dropWhile_append, trimStart]
  split
  next h =>
    have hnil : List.dropWhile isWhitespace s = [] := by simpa using h
    simp [hnil, hc]
  next => rfl

theorem trim_append_of_not (hc : isWhitespace c = false) :
    trim (s ++ [c]) = trimStart s ++ [c] := by
  rw [trim, trimStart_append_of_not hc, trimEnd]
  exact List.rdropWhile_concat_neg _ _ _ (by simp [hc])

/-- White space at the end does not show in a trimmed text. -/
theorem trim_append_whitespace (hc : isWhitespace c = true) : trim (s ++ [c]) = trim s := by
  rw [trim, trim, trimStart, List.dropWhile_append, trimStart]
  split
  next h =>
    have hnil : List.dropWhile isWhitespace s = [] := by simpa using h
    simp [hnil, hc]
  next =>
    rw [trimEnd, trimEnd]
    exact List.rdropWhile_concat_pos _ _ _ hc

theorem trim_trim (s : Str) : s.trim.trim = s.trim := by
  have hfirst : trimStart s.trim = s.trim := by
    rw [trimStart, List.dropWhile_eq_self_iff]
    intro hpos
    have hlen : 0 < s.trimStart.length :=
      lt_of_lt_of_le hpos (List.rdropWhile_prefix _ _).length_le
    have hhead : s.trim[0] = s.trimStart[0] :=
      ((List.rdropWhile_prefix isWhitespace s.trimStart).getElem hpos)
    rw [hhead]
    exact List.dropWhile_get_zero_not isWhitespace s hlen
  have hlast : trimEnd s.trim = s.trim := List.rdropWhile_idempotent _ _
  rw [trim, hfirst, hlast]

/-- Trimming takes away white space only. -/
theorem mem_trim_iff (hc : isWhitespace c = false) : c ∈ trim s ↔ c ∈ s := by
  refine ⟨fun h => (trim_sublist s).subset h, fun h => ?_⟩
  have hdrop : ∀ t : Str, c ∈ t → c ∈ t.dropWhile isWhitespace := by
    intro t ht
    rw [← List.takeWhile_append_dropWhile (p := isWhitespace) (l := t), List.mem_append] at ht
    refine ht.resolve_left fun htake => ?_
    rw [List.mem_takeWhile_imp htake] at hc
    exact Bool.noConfusion hc
  rw [trim, trimEnd, List.rdropWhile, List.mem_reverse]
  exact hdrop _ (List.mem_reverse.2 (hdrop s h))

theorem isWhitespace_newline : isWhitespace '\n' = true := by decide

theorem contains_iff : contains s t = true ↔ t <:+: s := by
  simp [contains]

end Str

/-! ### What the code asks of Unicode -/

/-- `char::is_alphabetic` and `char::is_alphanumeric`, which on ASCII are letters and letters or
digits. -/
class CharTable where
  isAlphabetic : Char → Bool
  isAlphanumeric : Char → Bool
  isAlphabetic_ascii : ∀ c : Char, c.toNat < 128 → isAlphabetic c = c.isAlpha
  isAlphanumeric_ascii : ∀ c : Char, c.toNat < 128 → isAlphanumeric c = c.isAlphanum

/-- Normalization and case folding (`icu_normalizer`, `icu_casemap`): the composition NFKC,
full case folding, NFKC, which on ASCII text is the lower case. -/
class Icu where
  fold : Str → Str
  fold_ascii : ∀ s : Str, s.isAscii = true → fold s = s.toAsciiLowercase

/-- Tables that know ASCII only. -/
@[reducible] def asciiCharTable : CharTable where
  isAlphabetic := Char.isAlpha
  isAlphanumeric := Char.isAlphanum
  isAlphabetic_ascii _ _ := rfl
  isAlphanumeric_ascii _ _ := rfl

/-- A folding that knows ASCII only. -/
@[reducible] def asciiIcu : Icu where
  fold := Str.toAsciiLowercase
  fold_ascii _ _ := rfl

end Awayuki
