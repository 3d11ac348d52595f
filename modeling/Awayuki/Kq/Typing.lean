import Awayuki.Kq.Arguments
import Awayuki.Kq.RoundTrip

/-!
# KQ: what the compiler accepts is well typed

The predicates that the compiler returns are the well-typed expressions of the printer: the
literals are those of the lexer, and the types those that the parser assigns.
-/

namespace Awayuki.Kq

/-! ### Literals -/

variable {e : Expr} {steps : ℕ} {token : Token} {tokens : List Token}

/-- The values of literal tokens are in the range that the lexer checks. -/
def TokenKind.Literal : TokenKind → Prop
  | .number value => 0 ≤ value ∧ value < 2 ^ 63
  | .opaqueId value => value ≠ []
  | _ => True

variable {input : Str} {start stop : ℕ} {kind : TokenKind}

theorem number_literal (h : number input start = .ok (kind, stop)) : kind.Literal := by
  simp only [number, bind_eq_ok] at h
  obtain ⟨_, -, digits, -, h⟩ := h
  split at h
  next => exact absurd h failAt_ne_ok
  next magnitude _ =>
    split_ifs at h with hlt hmin
    · cases h
      exact ⟨Int.natCast_nonneg _, by exact_mod_cast hlt⟩
    · cases h
      trivial
    · exact absurd h failAt_ne_ok

theorem slice_ne_nil {a b : ℕ} {value : Str} (h : sliceOrPanic input a b = .ok value)
    (hab : a ≠ b) : value ≠ [] := by
  unfold sliceOrPanic at h
  split at h
  next value' hslice =>
    cases h
    rintro rfl
    unfold Str.slice at hslice
    split_ifs at hslice with hle
    obtain ⟨rest, -, htake⟩ := Option.bind_eq_some_iff.1 hslice
    obtain ⟨n, hn⟩ : ∃ n, b - a = n + 1 := ⟨b - a - 1, by omega⟩
    rw [hn] at htake
    cases rest with
    | nil => cases htake
    | cons c rest =>
      simp only [Str.takeBytes] at htake
      split_ifs at htake
      simp at htake
  next => cases h

theorem markedLiteral_literal {delimiter : Char → Bool} {make : Str → TokenKind}
    {message : String} (hmake : ∀ value, value ≠ [] → (make value).Literal)
    (h : markedLiteral input delimiter make message start = .ok (kind, stop)) : kind.Literal := by
  simp only [markedLiteral, bind_eq_ok] at h
  obtain ⟨first, -, h⟩ := h
  split_ifs at h with hquote
  · obtain ⟨⟨value, stop'⟩, -, h⟩ := bind_eq_ok.1 h
    simp only at h
    split_ifs at h with hempty
    · exact absurd h failAt_ne_ok
    · cases h
      exact hmake value (by simpa using hempty)
  · obtain ⟨stop', -, h⟩ := bind_eq_ok.1 h
    split_ifs at h with hempty
    · exact absurd h failAt_ne_ok
    · obtain ⟨value, hvalue, h⟩ := bind_eq_ok.1 h
      cases h
      exact hmake value (slice_ne_nil hvalue (Ne.symm hempty))

theorem oneOrTwo_literal {position : ℕ} {one : TokenKind} {two : List (Char × TokenKind)}
    (hone : one.Literal) (htwo : ∀ entry ∈ two, entry.2.Literal)
    (h : oneOrTwo input position one two = .ok (kind, stop)) : kind.Literal := by
  simp only [oneOrTwo, bind_eq_ok] at h
  obtain ⟨next, -, h⟩ := h
  split at h
  next found hfound =>
    cases h
    obtain ⟨c, -, hlookup⟩ := Option.bind_eq_some_iff.1 hfound
    obtain ⟨l₁, l₂, hl, -⟩ := List.lookup_eq_some_iff.1 hlookup
    exact htwo (c, kind) (by simp [hl])
  next =>
    cases h
    exact hone

section

variable [CharTable]

theorem lexToken_literal {c : Char} (h : lexToken input start c = .ok (kind, stop)) :
    kind.Literal := by
  unfold lexToken at h
  split at h
  case h_1 =>
    obtain ⟨⟨value, stop'⟩, -, h⟩ := bind_eq_ok.1 h
    cases h
    trivial
  case h_2 =>
    refine markedLiteral_literal ?_ h
    exact fun _ _ => trivial
  case h_3 =>
    refine markedLiteral_literal ?_ h
    exact fun _ hvalue => hvalue
  case h_21 =>
    split_ifs at h
    · exact number_literal h
    · simp only [identifier, bind_eq_ok] at h
      obtain ⟨_, -, _, -, h⟩ := h
      cases h
      trivial
    · exact absurd h failAt_ne_ok
  all_goals first
    | cases h; trivial
    | refine oneOrTwo_literal ?_ ?_ h <;> simp [TokenKind.Literal]

theorem tokenizeLoop_literal {limits : QueryLimits} {position : ℕ} {tokens' : List Token}
    (htokens : ∀ token ∈ tokens, token.kind.Literal)
    (h : tokenizeLoop input limits steps tokens position = .ok tokens') :
    ∀ token ∈ tokens', token.kind.Literal := by
  have hpush : ∀ {ts ts' : List Token} {token : Token}, (∀ t ∈ ts, t.kind.Literal) →
      token.kind.Literal → pushToken input limits ts token = .ok ts' →
      ∀ t ∈ ts', t.kind.Literal := by
    intro ts ts' token hts htoken hpush
    unfold pushToken at hpush
    split_ifs at hpush
    · exact absurd hpush failAt_ne_ok
    · cases hpush
      simpa [or_imp, forall_and] using ⟨hts, htoken⟩
  induction steps generalizing tokens position with
  | zero => cases h
  | succ steps ih =>
    simp only [tokenizeLoop, bind_eq_ok] at h
    obtain ⟨next, -, h⟩ := h
    split at h
    next =>
      refine hpush htokens ?_ h
      trivial
    next c =>
      split_ifs at h with hspace
      · exact ih htokens h
      · obtain ⟨⟨kind, stop⟩, hlex, h⟩ := bind_eq_ok.1 h
        obtain ⟨tokens'', hpushed, h⟩ := bind_eq_ok.1 h
        exact ih (hpush htokens (lexToken_literal hlex) hpushed) h

/-- Every literal of the lexer is in range. -/
theorem tokenize_literal {limits : QueryLimits} (h : tokenize input limits = .ok tokens) :
    ∀ token ∈ tokens, token.kind.Literal :=
  tokenizeLoop_literal (by simp) h

end

/-! ### Expressions of derivations -/

section

variable [RegexCrate] {limits : QueryLimits}

theorem WellTyped.relabel (he : WellTyped limits e) (span : Span) :
    WellTyped limits (.mk e.kind e.types span) := by
  cases he with
  | bool value => exact .bool value span
  | number value _ range => exact .number value span range
  | text value => exact .text value span
  | identity value _ nonempty => exact .identity value span nonempty
  | set items _ typed scalar => exact .set items span typed scalar
  | field field => exact .field field span
  | unary op operand _ typed applies => exact .unary op operand span typed applies
  | binary op left right types _ typedLeft typedRight applies plain =>
    exact .binary op left right types span typedLeft typedRight applies plain
  | regex left right pattern regex types _ typedLeft typedRight applies literal short compiled =>
    exact .regex left right pattern regex types span typedLeft typedRight applies literal short
      compiled

theorem atomExpr_wellTyped (htoken : token.kind.Literal) (h : atomExpr token = some e) :
    WellTyped limits e := by
  unfold atomExpr at h
  split at h
  case h_1 value hkind =>
    cases h
    rw [hkind] at htoken
    exact .number value _ (.inr htoken)
  case h_2 value _ | h_3 value _ =>
    cases h
    exact .text value _
  case h_4 value hkind =>
    cases h
    refine .identity value _ ?_
    rwa [hkind] at htoken
  case h_5 =>
    cases h
    exact .field .ourAccounts _
  case h_6 =>
    split_ifs at h
    cases h
    exact .bool _ _
  case h_7 => cases h

theorem makeUnary_wellTyped {op : UnaryOp} {operand : Expr} {span : Span}
    (hoperand : WellTyped limits operand) (h : makeUnary input op operand span = .ok e) :
    WellTyped limits e := by
  unfold makeUnary at h
  split_ifs at h with happlies
  · cases h
    exact .unary op operand _ hoperand happlies
  · exact absurd h failAt_ne_ok

theorem compileRegex_eq_ok {pattern : Expr} {regex : Regex}
    (h : compileRegex input limits pattern = .ok regex) : ∃ text, pattern.kind = .text text ∧
      text.len ≤ limits.maxRegexBytes ∧
      RegexCrate.build (literalRegexOptions limits) text = some regex := by
  unfold compileRegex at h
  split at h
  next text hkind =>
    split_ifs at h with hlong
    · exact absurd h failAt_ne_ok
    · split at h
      next regex' hbuild =>
        cases h
        exact ⟨text, hkind, Nat.not_lt.1 hlong, hbuild⟩
      next => exact absurd h failAt_ne_ok
  next => exact absurd h failAt_ne_ok

theorem makeBinary_wellTyped {op : BinaryOp} {left right : Expr} {span : Span}
    (hleft : WellTyped limits left) (hright : WellTyped limits right)
    (h : makeBinary input limits op left right span = .ok e) : WellTyped limits e := by
  unfold makeBinary at h
  split at h
  next => exact absurd h failAt_ne_ok
  next types happlies =>
    by_cases hop : op = .regex
    · subst hop
      simp only [if_true, bind_eq_ok] at h
      obtain ⟨re, hre, h⟩ := h
      cases hcompile : compileRegex input limits right with
      | error e =>
        rw [hcompile] at hre
        cases hre
      | ok regex =>
        rw [hcompile] at hre
        cases hre
        cases h
        obtain ⟨text, hkind, hshort, hbuild⟩ := compileRegex_eq_ok hcompile
        exact .regex left right text regex types _ hleft hright happlies hkind hshort hbuild
    · simp only [if_neg hop, bind_eq_ok] at h
      obtain ⟨re, hre, h⟩ := h
      cases hre
      cases h
      exact .binary op left right types _ hleft hright happlies hop

/-- The expression of a derivation whose literals are in range is well typed. -/
theorem Cst.build_wellTyped (c : Cst) : (∀ token ∈ c.yield, token.kind.Literal) → ∀ e,
    c.build input limits = .ok e → WellTyped limits e := by
  refine Cst.induct
    (P := fun c => (∀ token ∈ c.yield, token.kind.Literal) → ∀ e,
      c.build input limits = .ok e → WellTyped limits e)
    (Q := fun is => (∀ token ∈ is.yield, token.kind.Literal) → ∀ es,
      is.build input limits = .ok es → ∀ e ∈ es, WellTyped limits e ∧
        e.types.intersects (.NUMBER ||| .TEXT ||| .IDENTITY) = true)
    ?atom ?path ?unit ?group ?emptySet ?set ?unary ?minimum ?binary ?last ?cons c
  all_goals simp only [build, CstItems.build, bind_eq_ok, Except.ok.injEq]
  case atom =>
    intro t htokens e h
    split at h
    next e' he =>
      cases h
      exact atomExpr_wellTyped (htokens t (by simp [yield])) he
    next => cases h
  case path =>
    intro t cs _ e h
    unfold pathExpr at h
    split at h
    next field _ =>
      cases h
      exact .field field _
    next => exact absurd h failAt_ne_ok
  case unit =>
    rintro o c _ e rfl
    exact .bool true _
  case group =>
    rintro o i c ih htokens e ⟨e', he', rfl⟩
    exact (ih (fun t ht => htokens t (by simp [yield, ht])) e' he').relabel _
  case emptySet =>
    rintro o c _ e rfl
    exact .set [] _ (by simp) (by simp)
  case set =>
    rintro o is c ih htokens e ⟨es, hes, rfl⟩
    have hitems := ih (fun t ht => htokens t (by simp [yield, ht])) es hes
    exact .set es _ (fun e he => (hitems e he).1) (fun e he => (hitems e he).2)
  case unary =>
    rintro t i ih htokens e ⟨e', he', h⟩
    split at h
    next => exact makeUnary_wellTyped (ih (fun t ht => htokens t (by simp [yield, ht])) e' he') h
    next => cases h
  case minimum =>
    rintro t m _ e rfl
    exact .number _ _ (.inl rfl)
  case binary =>
    rintro l t r ihl ihr htokens e ⟨el, hel, er, her, h⟩
    split at h
    next =>
      exact makeBinary_wellTyped (ihl (fun t ht => htokens t (by simp [yield, ht])) el hel)
        (ihr (fun t ht => htokens t (by simp [yield, ht])) er her) h
    next => cases h
  case last =>
    rintro i c ih htokens es ⟨e, he, e', hscalar, rfl⟩
    obtain ⟨htypes, rfl⟩ := scalarItem_eq_ok hscalar
    have hitem := ih (fun t ht => htokens t (by simp [CstItems.yield, ht])) e he
    simpa using ⟨hitem, htypes⟩
  case cons =>
    rintro i c is ihi ihis htokens es ⟨e, he, e', hscalar, es', hes, rfl⟩
    obtain ⟨htypes, rfl⟩ := scalarItem_eq_ok hscalar
    have hitem := ihi (fun t ht => htokens t (by simp [CstItems.yield, ht])) e he
    have hitems := ihis (fun t ht => htokens t (by simp [CstItems.yield, ht])) es' hes
    exact List.forall_mem_cons.2 ⟨⟨hitem, htypes⟩, hitems⟩

end

/-! ### Compiled queries -/

section

variable {limits : QueryLimits} {ts rest : List Token} {count count' : ℕ} {arguments : List Str}
  {sources : List SourceSpec} {query : CompiledQuery}

theorem advance_suffix (h : advance ts = .ok (token, rest)) : rest <:+ ts := by
  cases ts with
  | nil => cases h
  | cons t ts =>
    simp only [advance, Except.ok.injEq, Prod.mk.injEq] at h
    obtain ⟨rfl, rfl⟩ := h
    split_ifs
    · exact List.suffix_rfl
    · exact List.suffix_cons _ _

theorem takeIf_suffix {p : Token → Bool} (h : takeIf p ts = some (token, rest)) : rest <:+ ts := by
  cases ts with
  | nil => cases h
  | cons t ts =>
    simp only [takeIf] at h
    split_ifs at h
    cases h
    exact List.suffix_cons _ _

theorem expectSimple_suffix {expected : TokenKind} {message : String}
    (h : expectSimple input expected message ts = .ok (token, rest)) : rest <:+ ts := by
  obtain ⟨rfl, -⟩ := expectSimple_eq_ok h
  exact List.suffix_cons _ _

theorem parseSourceArgument_suffix {argument : Str}
    (h : parseSourceArgument input limits count ts = .ok (argument, count', rest)) :
    rest <:+ ts := by
  unfold parseSourceArgument at h
  split_ifs at h
  · exact absurd h errorCurrent_ne_ok
  · obtain ⟨⟨token, ts'⟩, hadvance, h⟩ := bind_eq_ok.1 h
    simp only at h
    split at h
    next =>
      cases h
      exact advance_suffix hadvance
    next => exact absurd h failAt_ne_ok

theorem parseColonArguments_suffix
    (h : parseColonArguments input limits steps count ts = .ok (arguments, count', rest)) :
    rest <:+ ts := by
  induction steps generalizing count ts arguments with
  | zero =>
    cases h
    exact List.suffix_rfl
  | succ steps ih =>
    unfold parseColonArguments at h
    split_ifs at h
    · simp only [bind_eq_ok, Prod.exists, Except.ok.injEq, Prod.mk.injEq] at h
      obtain ⟨_, _, h₁, _, _, _, h₂, _, _, _, h₃, rfl, rfl, rfl⟩ := h
      exact ((ih h₃).trans (parseSourceArgument_suffix h₂)).trans (advance_suffix h₁)
    · cases h
      exact List.suffix_rfl

theorem parseCallArguments_suffix
    (h : parseCallArguments input limits steps count ts = .ok (arguments, count', rest)) :
    rest <:+ ts := by
  induction steps generalizing count ts arguments with
  | zero => cases h
  | succ steps ih =>
    simp only [parseCallArguments, bind_eq_ok, Prod.exists] at h
    obtain ⟨_, _, _, h₁, h⟩ := h
    split at h
    next =>
      cases h
      exact parseSourceArgument_suffix h₁
    next htake =>
      have hcomma := (takeIf_suffix htake).trans (parseSourceArgument_suffix h₁)
      split_ifs at h
      · cases h
        exact hcomma
      · simp only [bind_eq_ok, Prod.exists, Except.ok.injEq, Prod.mk.injEq] at h
        obtain ⟨_, _, _, h₂, rfl, rfl, rfl⟩ := h
        exact (ih h₂).trans hcomma

theorem parseSourceArguments_suffix
    (h : parseSourceArguments input limits count ts = .ok (arguments, count', rest)) :
    rest <:+ ts := by
  unfold parseSourceArguments at h
  split at h
  next hcolon =>
    simp only [bind_eq_ok, Prod.exists, Except.ok.injEq, Prod.mk.injEq] at h
    obtain ⟨_, _, _, h₁, _, _, _, h₂, rfl, rfl, rfl⟩ := h
    exact ((parseColonArguments_suffix h₂).trans (parseSourceArgument_suffix h₁)).trans
      (takeIf_suffix hcolon)
  next =>
    split at h
    next hparen =>
      split_ifs at h
      · simp only [bind_eq_ok, Prod.exists, Except.ok.injEq, Prod.mk.injEq] at h
        obtain ⟨_, _, _, ⟨rfl, rfl, rfl⟩, _, _, h₂, rfl, rfl, rfl⟩ := h
        exact (expectSimple_suffix h₂).trans (takeIf_suffix hparen)
      · simp only [bind_eq_ok, Prod.exists, Except.ok.injEq, Prod.mk.injEq] at h
        obtain ⟨_, _, _, h₁, _, _, h₂, rfl, rfl, rfl⟩ := h
        exact ((expectSimple_suffix h₂).trans (parseCallArguments_suffix h₁)).trans
          (takeIf_suffix hparen)
    next =>
      cases h
      exact List.suffix_rfl

theorem parseSource_suffix (h : parseSource input limits count ts = .ok (sources, count', rest)) :
    rest <:+ ts := by
  obtain ⟨⟨token, ts'⟩, hadvance, h⟩ := bind_eq_ok.1 h
  simp only at h
  split at h
  all_goals
    obtain ⟨name, hname, h⟩ := bind_eq_ok.1 h
    split at h
    next => exact absurd h failAt_ne_ok
    next =>
      simp only [bind_eq_ok, Prod.exists, Except.ok.injEq, Prod.mk.injEq] at h
      obtain ⟨_, _, _, h₁, _, _, rfl, rfl, rfl⟩ := h
      exact (parseSourceArguments_suffix h₁).trans (advance_suffix hadvance)

theorem parseSourcesLoop_suffix {sources' : List SourceSpec}
    (h : parseSourcesLoop input limits steps sources count ts = .ok (sources', rest)) :
    rest <:+ ts := by
  induction steps generalizing count ts sources with
  | zero =>
    cases h
    exact List.suffix_rfl
  | succ steps ih =>
    unfold parseSourcesLoop at h
    split_ifs at h
    · cases h
      exact List.suffix_rfl
    · obtain ⟨⟨parsed, count', ts'⟩, hsource, h⟩ := bind_eq_ok.1 h
      simp only at h
      split at h
      · exact absurd h errorCurrent_ne_ok
      · split at h
        next htake => exact ((ih h).trans (takeIf_suffix htake)).trans (parseSource_suffix hsource)
        next =>
          split_ifs at h
          · cases h
            exact parseSource_suffix hsource
          · exact absurd h errorCurrent_ne_ok

theorem parseSources_suffix (h : parseSources input limits ts = .ok (sources, rest)) :
    rest <:+ ts := by
  simp only [parseSources, bind_eq_ok, Prod.exists, Except.ok.injEq, Prod.mk.injEq] at h
  obtain ⟨_, _, h, rfl, rfl⟩ := h
  exact parseSourcesLoop_suffix h

variable [RegexCrate]

theorem parsePredicate_wellTyped (hts : ∀ token ∈ ts, token.kind.Literal)
    (h : parsePredicate input limits ts = .ok (e, rest)) : WellTyped limits e := by
  rw [parsePredicate_eq] at h
  obtain ⟨c, -, -, -, -, hbuild, rfl⟩ := parseHeight_sound _ _ _ _ _ h
  exact c.build_wellTyped (fun t ht => hts t (by simp [ht])) e hbuild

variable (input limits) in
/-- The predicate of a query: always true, or parsed from some of the tokens. -/
def PredicateOf (tokens : List Token) (e : Expr) : Prop :=
  (∃ span, e = .mk (.bool true) .BOOL span) ∨
    ∃ ts rest, ts <:+ tokens ∧ parsePredicate input limits ts = .ok (e, rest)

theorem parseWhere_predicateOf {hadFrom : Bool}
    (h : parseWhere input limits hadFrom ts = .ok (e, rest)) : PredicateOf input limits ts e := by
  unfold parseWhere at h
  split at h
  next rest' htake =>
    split at h
    · split at h
      · simp only [bind_eq_ok, Prod.exists, Except.ok.injEq, Prod.mk.injEq] at h
        obtain ⟨_, _, -, rfl, -⟩ := h
        exact Or.inl ⟨_, rfl⟩
      · exact absurd h errorCurrent_ne_ok
    · exact Or.inr ⟨_, _, takeIf_suffix htake, h⟩
  next =>
    simp only [bind_eq_ok, Prod.exists, Except.ok.injEq, Prod.mk.injEq] at h
    obtain ⟨_, _, -, rfl, -⟩ := h
    exact Or.inl ⟨_, rfl⟩

theorem parse_predicateOf (h : parse input limits tokens = .ok query) :
    PredicateOf input limits tokens query.predicate ∧
      query.predicate.types.intersects .BOOL = true := by
  obtain ⟨rest, rest', hsources, hpredicate, htypes⟩ := parse_eq_ok h
  have hsuffix : rest <:+ tokens := by
    rcases hsources with ⟨token, after, htake, hsources⟩ | ⟨-, rfl⟩
    · exact (parseSources_suffix hsources).trans (takeIf_suffix htake)
    · exact List.suffix_rfl
  refine ⟨(parseWhere_predicateOf hpredicate).imp_right ?_, htypes⟩
  rintro ⟨ts, rest'', hts, hread⟩
  exact ⟨ts, rest'', hts.trans hsuffix, hread⟩

/-- The predicate of a compiled query comes from the tokens of the query. -/
theorem compile_predicateOf [CharTable] {text : Str}
    (h : compileQueryWithLimits text limits = .ok query) :
    ∃ tokens, tokenize text limits = .ok tokens ∧
      PredicateOf text limits tokens query.predicate ∧
      query.predicate.types.intersects .BOOL = true := by
  unfold compileQueryWithLimits at h
  split_ifs at h
  · exact absurd h failAt_ne_ok
  · obtain ⟨tokens, htokens, h⟩ := bind_eq_ok.1 h
    exact ⟨tokens, htokens, parse_predicateOf h⟩

/-- The predicate of a compiled query is a well-typed Boolean. -/
theorem compile_wellTyped [CharTable] {text : Str}
    (h : compileQueryWithLimits text limits = .ok query) : WellTyped limits query.predicate ∧
      query.predicate.types.intersects .BOOL = true := by
  obtain ⟨tokens, htokens, hpredicate, htypes⟩ := compile_predicateOf h
  refine ⟨?_, htypes⟩
  rcases hpredicate with ⟨span, htrue⟩ | ⟨ts, rest, hts, hpredicate⟩
  · rw [htrue]
    exact .bool true span
  · exact parsePredicate_wellTyped
      (fun token htoken => tokenize_literal htokens token (hts.subset htoken)) hpredicate

end

end Awayuki.Kq
