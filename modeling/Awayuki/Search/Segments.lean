import Awayuki.Text
import Awayuki.Library.Keyed

/-!
# Search: segments

The texts of `db/icu_search.rs`: a field or a term is folded and segmented, and a segment becomes
one token of the full-text index.

* `Segmenter`: what the code asks of the ICU crates;
* `indexText`, `matchExpression`, `requiresContiguousMatch`, `containsTerm`, `matchesFields`,
  `matchesIndexText`: the functions of the module;
* `encodeFtsToken_prefix_iff`: tokens begin with each other as their segments do;
* `splitWhitespace_indexText`: the tokens of a document can be read back.

A full-text expression `"t"* AND …` is the list of its tokens.
-/

namespace Awayuki

namespace Str

/-- `str::split_whitespace`. -/
def splitWhitespace (s : Str) : List Str := (s.splitOnP isWhitespace).filter (· ≠ [])

theorem splitWhitespace_join {words : List Str}
    (hwords : ∀ w ∈ words, w ≠ [] ∧ ∀ c ∈ w, isWhitespace c = false) :
    splitWhitespace (join " " words) = words := by
  induction words with
  | nil => rfl
  | cons w words ih =>
    obtain ⟨hne, hw⟩ := hwords w List.mem_cons_self
    have hhead := List.splitOnP_eq_singleton hw
    cases words with
    | nil => simp [splitWhitespace, join, List.intercalate, hhead, hne]
    | cons w' words =>
      have hjoin : join " " (w :: w' :: words) = w ++ ' ' :: join " " (w' :: words) := by
        simp [join, List.intercalate]
      have htail := ih fun v hv => hwords v (List.mem_cons_of_mem _ hv)
      rw [splitWhitespace] at htail ⊢
      rw [hjoin, List.splitOnP_append_cons _ _ (by decide), hhead, List.singleton_append,
        List.filter_cons_of_pos (by simpa), htail]

end Str

namespace Search

variable {s t : Str}

/-- What the code asks of ICU: `normalize_and_fold`, and the segments of a folded text. -/
structure Segmenter where
  normalizeAndFold : Str → Str
  segments : Str → List Str

section Functions

variable (icu : Segmenter)

/-- `tokenize_with_segmenter` -/
def tokenize (text : Str) : List Str :=
  ((icu.segments (icu.normalizeAndFold text)).map Str.trim).filter (· ≠ [])

def utf8Bytes (s : Str) : List UInt8 := s.flatMap String.utf8EncodeChar

/-- `{byte:02x}` -/
def hexByte (byte : UInt8) : Str :=
  [Nat.digitChar (byte.toNat / 16), Nat.digitChar (byte.toNat % 16)]

def encodeFtsToken (token : Str) : Str := 'x' :: (utf8Bytes token).flatMap hexByte

def indexText (fields : List Str) : Str :=
  Str.join " " ((Keyed.firsts id (fields.flatMap (tokenize icu))).map encodeFtsToken)

def matchExpression (term : Str) : Option (List Str) :=
  let tokens := (Keyed.firsts id (tokenize icu term)).map encodeFtsToken
  if tokens ≠ [] then some tokens else none

def requiresContiguousMatch (term : Str) : Bool := 1 < (tokenize icu term).length

def containsTerm (term : Str) (fields : List Str) : Bool :=
  let term := icu.normalizeAndFold term
  !term.isEmpty && fields.any fun field => (icu.normalizeAndFold field).contains term

def matchesFields (term : Str) (fields : List Str) : Bool :=
  let queryTokens := tokenize icu term
  let fieldTokens := fields.flatMap (tokenize icu)
  !queryTokens.isEmpty &&
    queryTokens.all fun query => fieldTokens.any fun token => token.startsWith query

end Functions

def matchesIndexText (queryTokenText : Str) (indexedFields : List Str) : Bool :=
  let queryTokens := queryTokenText.splitWhitespace
  !queryTokens.isEmpty &&
    queryTokens.all fun query => indexedFields.any fun field =>
      field.splitWhitespace.any fun indexed => indexed.startsWith query

/-- `… MATCH expression` on a document: each token begins a word of it. -/
def ftsMatch (expression : List Str) (tokenText : Str) : Bool :=
  expression.all fun token => tokenText.splitWhitespace.any fun word => word.startsWith token

/-! ### Tokens -/

/-- Encodings of one length are prefixes of each other as what they encode is. -/
theorem flatMap_prefix_iff {α β : Type} {f : α → List β} {n : ℕ} (hn : 0 < n)
    (hlength : ∀ a, (f a).length = n) (hf : Function.Injective f) {xs ys : List α} :
    xs.flatMap f <+: ys.flatMap f ↔ xs <+: ys := by
  induction xs generalizing ys with
  | nil => simp
  | cons x xs ih =>
    cases ys with
    | nil =>
      have hne : f x ≠ [] := fun h => by
        have := hlength x
        rw [h] at this
        simp only [List.length_nil] at this
        omega
      simp [hne]
    | cons y ys =>
      rw [List.flatMap_cons, List.flatMap_cons, List.cons_prefix_cons, ← ih]
      constructor
      · rintro ⟨rest, hrest⟩
        rw [List.append_assoc] at hrest
        obtain ⟨hhead, htail⟩ := List.append_inj hrest ((hlength x).trans (hlength y).symm)
        exact ⟨hf hhead, rest, htail⟩
      · rintro ⟨rfl, htail⟩
        exact (List.prefix_append_right_inj _).2 htail

theorem hexByte_injective : Function.Injective hexByte := by
  have hdigit : ∀ m < 16, ∀ n < 16, Nat.digitChar m = Nat.digitChar n → m = n := by decide
  intro a b h
  simp only [hexByte, List.cons.injEq, and_true] at h
  have ha := a.toNat_lt
  have hb := b.toNat_lt
  have hhigh := hdigit _ (by omega) _ (by omega) h.1
  have hlow := hdigit _ (by omega) _ (by omega) h.2
  refine UInt8.toNat_inj.1 ?_
  omega

/-- No UTF-8 sequence begins another. -/
theorem utf8EncodeChar_append_inj {c d : Char} {xs ys : List UInt8}
    (h : String.utf8EncodeChar c ++ xs = String.utf8EncodeChar d ++ ys) : c = d ∧ xs = ys := by
  have hbytes : (String.utf8EncodeChar c).toByteArray ++ xs.toByteArray =
      (String.utf8EncodeChar d).toByteArray ++ ys.toByteArray := by
    rw [← List.toByteArray_append, ← List.toByteArray_append, h]
  have hc := @ByteArray.utf8DecodeChar?_utf8EncodeChar_append xs.toByteArray c
  rw [hbytes, ByteArray.utf8DecodeChar?_utf8EncodeChar_append] at hc
  obtain rfl := Option.some.inj hc
  exact ⟨rfl, List.append_cancel_left h⟩

theorem utf8Bytes_prefix_iff : utf8Bytes s <+: utf8Bytes t ↔ s <+: t := by
  induction s generalizing t with
  | nil => simp [utf8Bytes]
  | cons c s ih =>
    cases t with
    | nil => simp [utf8Bytes, String.utf8EncodeChar_ne_nil]
    | cons d t =>
      rw [List.cons_prefix_cons, ← ih]
      simp only [utf8Bytes, List.flatMap_cons]
      constructor
      · rintro ⟨rest, hrest⟩
        rw [List.append_assoc] at hrest
        obtain ⟨rfl, htail⟩ := utf8EncodeChar_append_inj hrest
        exact ⟨rfl, rest, htail⟩
      · rintro ⟨rfl, htail⟩
        exact (List.prefix_append_right_inj _).2 htail

theorem encodeFtsToken_prefix_iff : encodeFtsToken s <+: encodeFtsToken t ↔ s <+: t := by
  rw [encodeFtsToken, encodeFtsToken, List.cons_prefix_cons,
    flatMap_prefix_iff (n := 2) (by decide) (fun _ => rfl) hexByte_injective, utf8Bytes_prefix_iff]
  exact and_iff_right rfl

theorem encodeFtsToken_startsWith :
    (encodeFtsToken t).startsWith (encodeFtsToken s) = t.startsWith s := by
  rw [Str.startsWith, Str.startsWith, Bool.eq_iff_iff, List.isPrefixOf_iff_prefix,
    List.isPrefixOf_iff_prefix, encodeFtsToken_prefix_iff]

theorem encodeFtsToken_injective : Function.Injective encodeFtsToken := by
  intro s t h
  have hst : s <+: t := encodeFtsToken_prefix_iff.1 (by rw [h])
  have hts : t <+: s := encodeFtsToken_prefix_iff.1 (by rw [h])
  exact hst.eq_of_length_le hts.length_le

theorem encodeFtsToken_word (token : Str) :
    encodeFtsToken token ≠ [] ∧ ∀ c ∈ encodeFtsToken token, Str.isWhitespace c = false := by
  refine ⟨List.cons_ne_nil _ _, fun c hc => ?_⟩
  have hdigit : ∀ n < 16, Str.isWhitespace (Nat.digitChar n) = false := by decide
  rcases List.mem_cons.1 hc with rfl | hc
  · decide
  · obtain ⟨byte, -, hc⟩ := List.mem_flatMap.1 hc
    have hbyte := byte.toNat_lt
    simp only [hexByte, List.mem_cons, List.not_mem_nil, or_false] at hc
    rcases hc with rfl | rfl
    · exact hdigit _ (by omega)
    · exact hdigit _ (by omega)

section Documents

variable (icu : Segmenter) {term : Str}

/-- The words of a document are the tokens of the segments of its fields. -/
theorem splitWhitespace_indexText (fields : List Str) :
    (indexText icu fields).splitWhitespace =
      (Keyed.firsts id (fields.flatMap (tokenize icu))).map encodeFtsToken := by
  refine Str.splitWhitespace_join fun w hw => ?_
  obtain ⟨token, -, rfl⟩ := List.mem_map.1 hw
  exact encodeFtsToken_word token

/-- Does a segment begin a word of the fields? -/
def Begins (fields : List Str) (query : Str) : Prop :=
  ∃ token ∈ fields.flatMap (tokenize icu), token.startsWith query

theorem any_word_indexText (fields : List Str) (query : Str) :
    ((indexText icu fields).splitWhitespace.any fun word =>
      word.startsWith (encodeFtsToken query)) = true ↔ Begins icu fields query := by
  simp only [splitWhitespace_indexText, List.any_map, List.any_eq_true, Function.comp_apply,
    encodeFtsToken_startsWith, Keyed.mem_firsts_id, Begins]

theorem matchExpression_eq_none : matchExpression icu term = none ↔ tokenize icu term = [] := by
  simp [matchExpression, Keyed.firsts_eq_nil]

theorem matchExpression_eq_some {expression : List Str}
    (h : matchExpression icu term = some expression) :
    expression = (Keyed.firsts id (tokenize icu term)).map encodeFtsToken ∧
      tokenize icu term ≠ [] := by
  have hne : tokenize icu term ≠ [] := fun hnil => by
    rw [(matchExpression_eq_none icu).2 hnil] at h
    cases h
  simp only [matchExpression] at h
  split_ifs at h
  exact ⟨(Option.some.inj h).symm, hne⟩

theorem matchesFields_iff {fields : List Str} : matchesFields icu term fields = true ↔
      tokenize icu term ≠ [] ∧ ∀ query ∈ tokenize icu term, Begins icu fields query := by
  simp only [matchesFields, Begins, Bool.and_eq_true, Bool.not_eq_true',
    List.isEmpty_eq_false_iff, List.all_eq_true, List.any_eq_true]

/-- The full-text table finds a current document exactly if its fields match. -/
theorem ftsMatch_indexText {expression : List Str} (h : matchExpression icu term = some expression)
    (fields : List Str) :
    ftsMatch expression (indexText icu fields) = matchesFields icu term fields := by
  obtain ⟨rfl, hne⟩ := matchExpression_eq_some icu h
  rw [Bool.eq_iff_iff, matchesFields_iff]
  simp only [ftsMatch, List.all_map, List.all_eq_true, Function.comp_apply, Keyed.mem_firsts_id,
    any_word_indexText]
  exact (and_iff_right hne).symm

/-- Two documents side by side match when every segment begins a word of one of them. -/
theorem matchesIndexText_indexText (hne : tokenize icu term ≠ []) (fields fields' : List Str) :
    matchesIndexText (indexText icu [term]) [indexText icu fields, indexText icu fields'] = true ↔
      ∀ query ∈ tokenize icu term, Begins icu fields query ∨ Begins icu fields' query := by
  have hsplit : (indexText icu [term]).splitWhitespace =
      (Keyed.firsts id (tokenize icu term)).map encodeFtsToken := by
    rw [splitWhitespace_indexText]
    simp
  have hnonempty : (Keyed.firsts id (tokenize icu term)).map encodeFtsToken ≠ [] := by
    simpa [Keyed.firsts_eq_nil] using hne
  simp only [matchesIndexText, hsplit, Bool.and_eq_true, Bool.not_eq_true',
    List.isEmpty_eq_false_iff, List.all_map, List.all_eq_true, Function.comp_apply,
    Keyed.mem_firsts_id, List.any_cons, List.any_nil, Bool.or_false, Bool.or_eq_true, any_word_indexText]
  exact and_iff_right hnonempty

end Documents

end Search

end Awayuki
