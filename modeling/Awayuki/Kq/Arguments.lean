import Awayuki.Kq.Compile
import Awayuki.Kq.Derivation

/-!
# KQ: arguments of compiled sources

`Parser::parse_source` makes one source of each argument, after `normalize_source_argument`.

* `SourceSpec.Normal`: a source as the parser makes it;
* `parse_eq_ok`: how a query is put together;
* `compile_normal`: so are all sources of a compiled query.
-/

namespace Awayuki.Kq

/-- The source has no argument, or one that has been normalized. -/
def SourceSpec.Normal (source : SourceSpec) : Prop :=
  source.arguments = [] ∨ ∃ argument,
    source.arguments = [normalizeSourceArgument source.kind argument] ∧
      (sourceRequiresArgument source.kind = true →
        normalizeSourceArgument source.kind argument ≠ [])

section

variable {input : Str} {limits : QueryLimits} {rest rest' : List Token} {sources : List SourceSpec}
  {count count' : ℕ} {source : SourceSpec}

theorem normal_lone (kind : SourceKind) (span : Span) :
    ∀ s ∈ [(⟨kind, [], span⟩ : SourceSpec)], s.Normal :=
  List.forall_mem_singleton.2 (Or.inl rfl)

theorem makeSources_normal {kind : SourceKind} {arguments : List Str} {span : Span}
    (h : makeSources input kind arguments span = .ok sources) : ∀ s ∈ sources, s.Normal := by
  unfold makeSources at h
  dsimp only at h
  split_ifs at h with _ _ _ _ _ hempty
  · exact absurd h failAt_ne_ok
  · exact absurd h failAt_ne_ok
  · exact Except.ok.inj h ▸ normal_lone kind span
  · exact absurd h failAt_ne_ok
  · exact absurd h failAt_ne_ok
  · exact absurd h failAt_ne_ok
  · exact Except.ok.inj h ▸ normal_lone kind span
  · obtain rfl := Except.ok.inj h
    intro s hs
    obtain ⟨normalized, hnormalized, rfl⟩ := List.mem_map.1 hs
    obtain ⟨argument, -, rfl⟩ := List.mem_map.1 hnormalized
    refine Or.inr ⟨argument, rfl, fun hrequires hnil => hempty ?_⟩
    rw [Bool.and_eq_true, List.any_eq_true]
    refine ⟨hrequires, _, hnormalized, ?_⟩
    rw [List.isEmpty_iff]
    exact hnil

theorem parseSource_normal
    (h : parseSource input limits count rest = .ok (sources, count', rest')) :
    ∀ s ∈ sources, s.Normal := by
  obtain ⟨⟨token, rest₁⟩, -, h⟩ := bind_eq_ok.1 h
  simp only at h
  split at h
  all_goals
    obtain ⟨sourceName, -, h⟩ := bind_eq_ok.1 h
    split at h
    next => exact absurd h failAt_ne_ok
    next =>
      simp only [bind_eq_ok, Prod.exists, Except.ok.injEq, Prod.mk.injEq] at h
      obtain ⟨_, _, _, -, made, hmade, rfl, -, -⟩ := h
      exact makeSources_normal hmade

theorem parseSourcesLoop_normal {steps : ℕ} {before : List SourceSpec}
    (hbefore : ∀ s ∈ before, s.Normal)
    (h : parseSourcesLoop input limits steps before count rest = .ok (sources, rest')) :
    ∀ s ∈ sources, s.Normal := by
  induction steps generalizing before count rest with
  | zero =>
    cases h
    exact hbefore
  | succ steps ih =>
    rw [parseSourcesLoop] at h
    split_ifs at h
    · cases h
      exact hbefore
    · obtain ⟨⟨parsed, count₁, rest₁⟩, hparsed, h⟩ := bind_eq_ok.1 h
      have hmore : ∀ s ∈ before ++ parsed, s.Normal := by
        intro s hs
        rcases List.mem_append.1 hs with hs | hs
        · exact hbefore s hs
        · exact parseSource_normal hparsed s hs
      simp only at h
      split at h
      · exact absurd h errorCurrent_ne_ok
      · split at h
        · exact ih hmore h
        · split_ifs at h
          · cases h
            exact hmore
          · exact absurd h errorCurrent_ne_ok

theorem parseSources_normal (h : parseSources input limits rest = .ok (sources, rest')) :
    ∀ s ∈ sources, s.Normal := by
  obtain ⟨⟨all, rest₁⟩, hall, h⟩ := bind_eq_ok.1 h
  cases h
  exact fun s hs => parseSourcesLoop_normal (by simp) hall s (Keyed.mem_of_mem_firsts hs)

variable [RegexCrate]

/-- How a query is put together: its sources are read behind `from`, or are the local source. -/
theorem parse_eq_ok {tokens : List Token} {query : CompiledQuery}
    (h : parse input limits tokens = .ok query) : ∃ rest rest',
      ((∃ token after, takeKeyword "from" tokens = some (token, after) ∧
          parseSources input limits after = .ok (query.sources, rest)) ∨
        query.sources = [⟨.local, [], ⟨0, 0⟩⟩] ∧ rest = tokens) ∧
      parseWhere input limits (checkKeyword "from" tokens) rest = .ok (query.predicate, rest') ∧
      query.predicate.types.intersects .BOOL = true := by
  -- what follows the sources, whichever way they were read
  have hwhere (sources : List SourceSpec) (rest : List Token)
      (h : (if sources.isEmpty = true then
          errorCurrent input "from requires at least one source" rest
        else do
          let parsed ← parseWhere input limits (checkKeyword "from" tokens) rest
          if (!parsed.1.types.intersects .BOOL) = true then
            failAt input parsed.1.span "query predicate must produce a boolean value"
          else if (!atEnd parsed.2) = true then
            errorCurrent input "unexpected token after query" parsed.2
          else .ok (CompiledQuery.of sources parsed.1)) = .ok query) : query.sources = sources ∧
      ∃ rest', parseWhere input limits (checkKeyword "from" tokens) rest =
          .ok (query.predicate, rest') ∧ query.predicate.types.intersects .BOOL = true := by
    split at h
    · exact absurd h errorCurrent_ne_ok
    · obtain ⟨⟨e, rest'⟩, hpredicate, h⟩ := bind_eq_ok.1 h
      simp only at h
      split_ifs at h with htypes
      · exact absurd h failAt_ne_ok
      · exact absurd h errorCurrent_ne_ok
      · cases h
        rw [Bool.not_eq_true', Bool.not_eq_false] at htypes
        exact ⟨rfl, rest', hpredicate, htypes⟩
  unfold parse at h
  simp only at h
  split at h
  next token after htake =>
    obtain ⟨⟨sources, rest⟩, hsources, h⟩ := bind_eq_ok.1 h
    obtain ⟨rfl, rest', hpredicate⟩ := hwhere sources rest h
    exact ⟨rest, rest', .inl ⟨token, after, htake, hsources⟩, hpredicate⟩
  next =>
    split at h
    · obtain ⟨hsources, rest', hpredicate⟩ := hwhere [⟨.local, [], ⟨0, 0⟩⟩] tokens h
      exact ⟨tokens, rest', .inr ⟨hsources, rfl⟩, hpredicate⟩
    · obtain ⟨_, herror, -⟩ := bind_eq_ok.1 h
      exact absurd herror errorCurrent_ne_ok

theorem parse_normal {tokens : List Token} {query : CompiledQuery}
    (h : parse input limits tokens = .ok query) : ∀ s ∈ query.sources, s.Normal := by
  obtain ⟨rest, _, ⟨token, after, -, hsources⟩ | ⟨hsources, -⟩, -⟩ := parse_eq_ok h
  · exact parseSources_normal hsources
  · rw [hsources]
    exact normal_lone .local ⟨0, 0⟩

/-- Every source of a compiled query has one normalized argument at most. -/
theorem compile_normal [CharTable] {text : Str} {query : CompiledQuery}
    (h : compileQueryWithLimits text limits = .ok query) : ∀ s ∈ query.sources, s.Normal := by
  unfold compileQueryWithLimits at h
  split at h
  · exact absurd h failAt_ne_ok
  · obtain ⟨tokens, -, h⟩ := bind_eq_ok.1 h
    exact parse_normal h

end

end Awayuki.Kq
