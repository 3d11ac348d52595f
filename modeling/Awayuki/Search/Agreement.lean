import Awayuki.Search.Segments

/-!
# Search: indexed and unindexed rows agree

A row that the full-text index has not reached is matched by its fields, a recent one by its
document, all others by the full-text table.  The three accept the same rows.

* `matchExpressionText`: the expression of `match_expression` as FTS5 is given it;
* `readExpression`: how FTS5 reads such an expression, quoted prefixes joined by `AND`;
* `matches_agree`: the three ways to match a term.
-/

namespace Awayuki.Search

/-! ### Expressions -/

/-- `format!("\"{}\"*", …)` -/
def quotedPrefix (token : Str) : Str := '"' :: token ++ "\"*".toList

/-- `tokens.join(" AND ")` -/
def renderExpression (tokens : List Str) : Str := Str.join " AND " (tokens.map quotedPrefix)

def matchExpressionText (icu : Segmenter) (term : Str) : Option Str :=
  (matchExpression icu term).map renderExpression

/-- A quoted string and the star of a prefix query. -/
def readPrefix : Str → Option (Str × Str)
  | '"' :: text =>
    match text.dropWhile (· ≠ '"') with
    | '"' :: '*' :: rest => some (text.takeWhile (· ≠ '"'), rest)
    | _ => none
  | _ => none

/-- The prefixes that an expression requires.  Each takes up some of the text, which bounds their
number. -/
def readExpression : ℕ → Str → Option (List Str)
  | 0, _ => none
  | bound + 1, text => do
    let (token, rest) ← readPrefix text
    if rest = [] then return [token]
    let rest ← Str.stripPrefix " AND " rest
    return token :: (← readExpression bound rest)

/-- Does the full-text table find a document by the text of an expression? -/
def ftsAccepts (expression tokenText : Str) : Bool :=
  (readExpression expression.length expression).any (ftsMatch · tokenText)

theorem readPrefix_quotedPrefix {token : Str} (h : '"' ∉ token) (rest : Str) :
    readPrefix (quotedPrefix token ++ rest) = some (token, rest) := by
  have hquote : ∀ c ∈ token, (decide (c ≠ '"')) = true := fun c hc =>
    decide_eq_true fun heq => h (heq ▸ hc)
  have hdrop : (token ++ '"' :: '*' :: rest).dropWhile (· ≠ '"') = '"' :: '*' :: rest := by
    rw [List.dropWhile_append_of_pos hquote]
    rfl
  have htake : (token ++ '"' :: '*' :: rest).takeWhile (· ≠ '"') = token := by
    rw [List.takeWhile_append_of_pos hquote]
    exact List.append_nil token
  have htext : quotedPrefix token ++ rest = '"' :: (token ++ '"' :: '*' :: rest) := by
    simp [quotedPrefix]
  rw [htext, readPrefix, hdrop, htake]
  rfl

/-- What is read is what was rendered. -/
theorem readExpression_render (tokens : List Str) (bound : ℕ) (hne : tokens ≠ [])
    (hquote : ∀ token ∈ tokens, '"' ∉ token) (hbound : tokens.length ≤ bound) :
    readExpression bound (renderExpression tokens) = some tokens := by
  induction tokens generalizing bound with
  | nil => exact absurd rfl hne
  | cons token tokens ih =>
    obtain ⟨bound, rfl⟩ : ∃ b, bound = b + 1 := ⟨bound - 1, by
      rw [List.length_cons] at hbound
      omega⟩
    have htoken := hquote token List.mem_cons_self
    cases tokens with
    | nil =>
      have htext : renderExpression [token] = quotedPrefix token ++ [] := by
        simp [renderExpression, Str.join]
      rw [htext, readExpression, readPrefix_quotedPrefix htoken]
      rfl
    | cons token' tokens =>
      have htext : renderExpression (token :: token' :: tokens) =
          quotedPrefix token ++ (" AND ".toList ++ renderExpression (token' :: tokens)) := by
        simp [renderExpression, Str.join, List.intercalate]
      have hstrip : Str.stripPrefix " AND " (" AND ".toList ++ renderExpression (token' :: tokens)) =
          some (renderExpression (token' :: tokens)) := Str.stripPrefix_eq_some.2 rfl
      have hrest := ih bound (List.cons_ne_nil _ _)
        (fun t ht => hquote t (List.mem_cons_of_mem _ ht)) (by
          simp only [List.length_cons] at hbound ⊢
          omega)
      rw [htext, readExpression, readPrefix_quotedPrefix htoken]
      simp only [bind, Option.bind, pure, hstrip, hrest]
      rfl

/-- An expression is at least as long as the number of its tokens. -/
theorem length_le_renderExpression (tokens : List Str) :
    tokens.length ≤ (renderExpression tokens).length := by
  induction tokens with
  | nil => exact Nat.zero_le _
  | cons token tokens ih =>
    cases tokens with
    | nil => simp [renderExpression, Str.join, quotedPrefix]
    | cons token' tokens =>
      have hlength : (renderExpression (token :: token' :: tokens)).length =
          (quotedPrefix token).length + 5 + (renderExpression (token' :: tokens)).length := by
        simp [renderExpression, Str.join, List.intercalate]
        omega
      rw [hlength, List.length_cons]
      omega

theorem encodeFtsToken_not_quote (token : Str) : '"' ∉ encodeFtsToken token := by
  have hdigit : ∀ n < 16, Nat.digitChar n ≠ '"' := by decide
  intro hmem
  rcases List.mem_cons.1 hmem with heq | hmem
  · cases heq
  · obtain ⟨byte, -, hmem⟩ := List.mem_flatMap.1 hmem
    have hbyte := byte.toNat_lt
    simp only [hexByte, List.mem_cons, List.not_mem_nil, or_false] at hmem
    rcases hmem with heq | heq
    · exact hdigit _ (by omega) heq.symm
    · exact hdigit _ (by omega) heq.symm

section Agreement

variable (icu : Segmenter)

/-- FTS5 reads the tokens of a term. -/
theorem ftsAccepts_matchExpression {term : Str} {expression : List Str}
    (h : matchExpression icu term = some expression) (tokenText : Str) :
    ftsAccepts (renderExpression expression) tokenText = ftsMatch expression tokenText := by
  obtain ⟨rfl, hne⟩ := matchExpression_eq_some icu h
  have hread := readExpression_render ((Keyed.firsts id (tokenize icu term)).map encodeFtsToken) _
    (by simpa [Keyed.firsts_eq_nil] using hne) (fun token htoken => by
      obtain ⟨segment, -, rfl⟩ := List.mem_map.1 htoken
      exact encodeFtsToken_not_quote segment) (length_le_renderExpression _)
  rw [ftsAccepts, hread]
  rfl

/-- Documents are matched as their fields are, however these are divided among documents. -/
theorem matchesIndexText_documents (term : Str) (documents : List (List Str)) :
    matchesIndexText (indexText icu [term]) (documents.map (indexText icu)) =
      matchesFields icu term documents.flatten := by
  have hsplit : (indexText icu [term]).splitWhitespace =
      (Keyed.firsts id (tokenize icu term)).map encodeFtsToken := by
    rw [splitWhitespace_indexText]
    simp
  rw [Bool.eq_iff_iff, matchesFields_iff]
  simp only [matchesIndexText, hsplit, Bool.and_eq_true, Bool.not_eq_true',
    List.isEmpty_eq_false_iff, List.all_map, List.all_eq_true, Function.comp_apply,
    Keyed.mem_firsts_id, List.any_map, List.any_eq_true]
  refine and_congr (by simp [Keyed.firsts_eq_nil]) (forall₂_congr fun query _ => ?_)
  constructor
  · rintro ⟨fields, hfields, hany⟩
    have hbegins := (any_word_indexText icu fields query).1 (List.any_eq_true.2 hany)
    obtain ⟨token, htoken, hstart⟩ := hbegins
    obtain ⟨field, hfield, htoken⟩ := List.mem_flatMap.1 htoken
    exact ⟨token, List.mem_flatMap.2 ⟨field, List.mem_flatten.2 ⟨fields, hfields, hfield⟩, htoken⟩,
      hstart⟩
  · rintro ⟨token, htoken, hstart⟩
    obtain ⟨field, hfield, htoken⟩ := List.mem_flatMap.1 htoken
    obtain ⟨fields, hfields, hfield⟩ := List.mem_flatten.1 hfield
    refine ⟨fields, hfields, List.any_eq_true.1 ((any_word_indexText icu fields query).2 ?_)⟩
    exact ⟨token, List.mem_flatMap.2 ⟨field, hfield, htoken⟩, hstart⟩

/-- For every segmentation, a term matches fields exactly if it matches their document, and
exactly if the full-text table finds that document. -/
theorem matches_agree (term : Str) (fields : List Str) :
    matchesIndexText (indexText icu [term]) [indexText icu fields] = matchesFields icu term fields ∧
      (matchExpressionText icu term).any (ftsAccepts · (indexText icu fields)) =
        matchesFields icu term fields := by
  constructor
  · have hdocuments := matchesIndexText_documents icu term [fields]
    rwa [List.flatten_singleton] at hdocuments
  · unfold matchExpressionText
    cases hterm : matchExpression icu term with
    | none =>
      have hnil := (matchExpression_eq_none icu).1 hterm
      simp [matchesFields, hnil]
    | some expression =>
      rw [Option.map_some, Option.any_some, ftsAccepts_matchExpression icu hterm]
      exact ftsMatch_indexText icu hterm fields

end Agreement

end Awayuki.Search
