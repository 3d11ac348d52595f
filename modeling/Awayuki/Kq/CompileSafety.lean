import Awayuki.Kq.LexerSafety
import Awayuki.Kq.Compile

/-!
# KQ: compiling never panics

The parser looks at the first token that is left, and there always is one: the last token is
`end`, which no parser consumes.  Errors are reported at the spans of tokens and expressions,
whatever these are.

* `Safe`: a parser that leaves such a list of tokens, no longer than before, or fails in its place;
* `safe_nest`: the parsers of expressions, at every depth;
* `compileQueryWithLimits_safe`: the compiler.
-/

namespace Awayuki.Kq

open Outcome

section

variable {input : Str} {rest : List Token} {token : Token} {α : Type}

/-! ### Tokens that are left -/

variable {rest' : List Token} {expected : TokenKind} {keyword : String}

/-- A closed list, no longer than `rest`. -/
def Shrinks (rest rest' : List Token) : Prop := Closed rest' ∧ rest'.length ≤ rest.length

theorem Shrinks.refl (h : Closed rest) : Shrinks rest rest := ⟨h, le_refl _⟩

theorem Shrinks.trans {rest'' : List Token} (h : Shrinks rest rest') (h' : Shrinks rest' rest'') :
    Shrinks rest rest'' := ⟨h'.1, le_trans h'.2 h.2⟩

theorem Closed.tail (h : Closed (token :: rest)) (hkind : token.kind ≠ .end) : Closed rest := by
  obtain ⟨body, last, hlist, hlast, hbody⟩ := h
  cases body with
  | nil =>
    obtain ⟨rfl, -⟩ := List.cons.inj hlist
    exact absurd hlast hkind
  | cons first body =>
    obtain ⟨-, rfl⟩ := List.cons.inj hlist
    exact ⟨body, last, rfl, hlast, fun t ht => hbody t (List.mem_cons_of_mem _ ht)⟩

theorem Closed.exists_cons (h : Closed rest) : ∃ token rest', rest = token :: rest' := by
  obtain ⟨body, last, rfl, -⟩ := h
  cases body with
  | nil => exact ⟨last, [], rfl⟩
  | cons first body => exact ⟨first, body ++ [last], rfl⟩

theorem errorCurrent_meets (h : Closed rest) (P : α → Prop) (message : String) :
    Meets (Failure.Placed input) P (errorCurrent input message rest) := by
  obtain ⟨token, rest', rfl⟩ := h.exists_cons
  exact failAt_meets P token.span message

theorem advance_meets (h : Closed rest) :
    Meets (Failure.Placed input) (fun read => Shrinks rest read.2) (advance rest) := by
  obtain ⟨token, rest', rfl⟩ := h.exists_cons
  show Shrinks _ (ite _ _ _)
  split_ifs with hkind
  · exact Shrinks.refl h
  · exact ⟨h.tail hkind, Nat.le_succ _⟩

/-- A token that is taken is not `end`. -/
theorem takeIf_shrinks {p : Token → Bool} (hp : ∀ token : Token, p token = true → token.kind ≠ .end)
    (h : Closed rest) (htake : takeIf p rest = some (token, rest')) :
    Closed rest' ∧ rest'.length < rest.length := by
  obtain ⟨first, tail, rfl⟩ := h.exists_cons
  rw [takeIf] at htake
  split_ifs at htake with hfirst
  cases htake
  exact ⟨h.tail (hp _ hfirst), Nat.lt_succ_self _⟩

theorem takeSimple_shrinks (hexpected : expected ≠ .end) (h : Closed rest)
    (htake : takeSimple expected rest = some (token, rest')) :
    Closed rest' ∧ rest'.length < rest.length := by
  refine takeIf_shrinks (fun t ht => ?_) h htake
  rw [beq_iff_eq] at ht
  rw [ht]
  exact hexpected

theorem isKeyword_ne_end (h : token.isKeyword keyword = true) : token.kind ≠ .end := by
  intro hkind
  rw [Token.isKeyword, hkind] at h
  exact Bool.false_ne_true h

theorem takeKeyword_shrinks (h : Closed rest)
    (htake : takeKeyword keyword rest = some (token, rest')) :
    Closed rest' ∧ rest'.length < rest.length :=
  takeIf_shrinks (fun _ ht => isKeyword_ne_end ht) h htake

theorem expectSimple_meets (hexpected : expected ≠ .end) (message : String) (h : Closed rest) :
    Meets (Failure.Placed input) (fun read => Shrinks rest read.2)
      (expectSimple input expected message rest) := by
  unfold expectSimple
  split
  next taken htake =>
    obtain ⟨hclosed, hlength⟩ := takeSimple_shrinks hexpected h htake
    exact ⟨hclosed, hlength.le⟩
  next => exact errorCurrent_meets h _ _

/-! ### Parsers -/

/-- A parser that leaves a closed list of tokens, no longer than before, or fails in its place. -/
def Safe (input : Str) (parser : Parse α) : Prop :=
  ∀ rest, Closed rest →
    Meets (Failure.Placed input) (fun read => Shrinks rest read.2) (parser rest)

section

variable {limits : QueryLimits} {operator : Token → Option BinaryOp} {operand item : Parse Expr}
  {steps : ℕ} {inner : Nest}

theorem makeUnary_meets (op : UnaryOp) (operand : Expr) (span : Span) :
    Meets (Failure.Placed input) (fun _ => True) (makeUnary input op operand span) := by
  unfold makeUnary
  split_ifs
  · trivial
  · exact failAt_meets _ _ _

theorem compileRegex_meets [RegexCrate] (pattern : Expr) :
    Meets (Failure.Placed input) (fun _ => True) (compileRegex input limits pattern) := by
  unfold compileRegex
  split
  · split_ifs
    · exact failAt_meets _ _ _
    · split
      · trivial
      · exact failAt_meets _ _ _
  · exact failAt_meets _ _ _

theorem makeBinary_meets [RegexCrate] (op : BinaryOp) (left right : Expr) (span : Span) :
    Meets (Failure.Placed input) (fun _ => True)
      (makeBinary input limits op left right span) := by
  unfold makeBinary
  split
  · exact failAt_meets _ _ _
  · dsimp only
    split_ifs
    · have hcompile : Meets (Failure.Placed input) (fun _ => True)
          (compileRegex input limits right) := compileRegex_meets right
      have hregex := hcompile.map (f := some) (R := fun _ => True) fun _ _ => trivial
      exact hregex.bind fun _ _ => trivial
    · trivial

theorem foldRight_meets [RegexCrate] (first : Expr) (tails : List (BinaryOp × Span × Expr)) :
    Meets (Failure.Placed input) (fun _ => True) (foldRight input limits first tails) := by
  induction tails generalizing first with
  | nil => trivial
  | cons tail tails ih =>
    obtain ⟨op, span, operand⟩ := tail
    exact (ih operand).bind fun right _ => makeBinary_meets op first right span

/-- The operator at which a chain is too long is one of the chain. -/
theorem rightFoldOps_meets [RegexCrate] (first : Expr) (tails : List (BinaryOp × Span × Expr)) :
    Meets (Failure.Placed input) (fun _ => True) (rightFoldOps input limits first tails) := by
  unfold rightFoldOps
  split_ifs with hempty hlong
  · trivial
  · have hpos : 0 < tails.length := by
      rw [List.length_pos_iff]
      simpa using hempty
    have hindex : limits.maxDepth - 1 < tails.length := by omega
    rw [List.getElem?_eq_getElem hindex]
    exact failAt_meets _ _ _
  · exact foldRight_meets first tails

/-- A level's operators: none of them is `end`. -/
def OperatorLevel (operator : Token → Option BinaryOp) : Prop :=
  ∀ token op, operator token = some op → token.kind ≠ .end

theorem safe_parseTails (hoperator : OperatorLevel operator) (hoperand : Safe input operand)
    (steps : ℕ) : Safe input (parseTails operator operand steps) := by
  induction steps with
  | zero => exact fun rest h => Shrinks.refl h
  | succ steps ih =>
    intro rest h
    obtain ⟨token, rest, rfl⟩ := h.exists_cons
    rw [parseTails]
    split
    next => exact Shrinks.refl h
    next op hop =>
      have hafter : Shrinks (token :: rest) rest := ⟨h.tail (hoperator _ _ hop), Nat.le_succ _⟩
      refine (hoperand rest hafter.1).bind fun right hright => ?_
      refine (ih right.2 hright.1).bind fun tails htails => ?_
      exact hafter.trans (hright.trans htails)

theorem safe_parseChain [RegexCrate] (hoperator : OperatorLevel operator)
    (hoperand : Safe input operand) : Safe input (parseChain input limits operator operand) := by
  intro rest h
  refine (hoperand rest h).bind fun first hfirst => ?_
  refine (safe_parseTails hoperator hoperand _ first.2 hfirst.1).bind fun tails htails => ?_
  exact (rightFoldOps_meets first.1 tails.1).bind fun _ _ => hfirst.trans htails

/-! ### Fields and sets -/

theorem parseParts_meets (stop : ℕ) (h : Closed rest) :
    Meets (Failure.Placed input) (fun read => Shrinks rest read.2.2)
      (parseParts input stop rest) := by
  induction rest using List.twoStepInduction generalizing stop with
  | nil =>
    obtain ⟨_, _, hcons⟩ := h.exists_cons
    cases hcons
  | singleton token =>
    rw [parseParts]
    split_ifs with hdot
    · have hkind : token.kind ≠ .end := by rw [hdot]; simp
      obtain ⟨_, _, hcons⟩ := (h.tail hkind).exists_cons
      cases hcons
    · exact Shrinks.refl h
  | cons_cons token component rest ih _ =>
    rw [parseParts]
    split_ifs with hdot
    · have hfirst : token.kind ≠ .end := by rw [hdot]; simp
      split
      next part hpart =>
        have hsecond : component.kind ≠ .end := by rw [hpart]; simp
        have hrest : Closed rest := (h.tail hfirst).tail hsecond
        have hlength : Shrinks (token :: component :: rest) rest :=
          ⟨hrest, by simp only [List.length_cons]; omega⟩
        exact (ih component.span.stop hrest).bind fun parts hparts => hlength.trans hparts
      next => exact failAt_meets _ _ _
    · exact Shrinks.refl h

theorem safe_parseFieldOrBoolean (first : Str) (start : Span) :
    Safe input (parseFieldOrBoolean input first start) := by
  intro rest h
  unfold parseFieldOrBoolean
  split_ifs
  · exact Shrinks.refl h
  · refine (parseParts_meets start.stop h).bind fun parts hparts => ?_
    obtain ⟨parts, stop, rest'⟩ := parts
    dsimp only
    split
    · exact hparts
    · exact failAt_meets _ _ _

theorem parseItems_meets (hitem : Safe input item) (count : ℕ) (h : Closed rest)
    (hsteps : rest.length < steps) : Meets (Failure.Placed input) (fun read => Shrinks rest read.2)
      (parseItems input limits item steps count rest) := by
  induction steps generalizing count rest with
  | zero => exact absurd hsteps (Nat.not_lt_zero _)
  | succ steps ih =>
    rw [parseItems]
    split_ifs
    · exact errorCurrent_meets h _ _
    · refine (hitem rest h).bind fun value hvalue => ?_
      obtain ⟨value, rest₁⟩ := value
      dsimp only
      split_ifs
      · exact failAt_meets _ _ _
      · split
        next => exact hvalue
        next comma rest₂ htake =>
          obtain ⟨hclosed, hlength⟩ := takeSimple_shrinks (by simp) hvalue.1 htake
          have hafter : Shrinks rest rest₂ := ⟨hclosed, le_trans hlength.le hvalue.2⟩
          split_ifs
          · exact hafter
          · have hlt : rest₂.length < rest₁.length := hlength
            have hle : rest₁.length ≤ rest.length := hvalue.2
            have hfewer : rest₂.length < steps := by omega
            exact (ih (count + 1) hclosed hfewer).bind fun values hvalues => hafter.trans hvalues

theorem safe_parseSet (hitem : Safe input item) (start : Span) :
    Safe input (parseSet input limits item start) := by
  intro rest h
  unfold parseSet
  dsimp only
  split_ifs
  · exact (expectSimple_meets (by simp) _ h).bind fun close hclose => hclose
  · refine (parseItems_meets hitem 0 h (Nat.lt_succ_self _)).bind fun values hvalues => ?_
    exact (expectSimple_meets (by simp) _ hvalues.1).bind fun close hclose =>
      hvalues.trans hclose

/-! ### Expressions -/

theorem safe_parsePrimary {inner : Parse Expr} (hinner : Safe input inner) :
    Safe input (parsePrimary input limits inner) := by
  intro rest h
  refine (advance_meets h).bind fun read hread => ?_
  obtain ⟨token, rest'⟩ := read
  dsimp only
  split
  · exact hread
  · exact failAt_meets _ _ _
  · exact hread
  · exact hread
  · exact hread
  · exact hread
  · exact (safe_parseFieldOrBoolean _ _ rest' hread.1).mono fun _ hfield => hread.trans hfield
  · split
    next close rest₁ htake =>
      obtain ⟨hclosed, hlength⟩ := takeSimple_shrinks (by simp) hread.1 htake
      exact hread.trans ⟨hclosed, hlength.le⟩
    next =>
      refine (hinner rest' hread.1).bind fun expression hexpression => ?_
      refine (expectSimple_meets (by simp) _ hexpression.1).bind fun close hclose => ?_
      exact hread.trans (hexpression.trans hclose)
  · exact (safe_parseSet hinner _ rest' hread.1).mono fun _ hset => hread.trans hset
  · exact failAt_meets _ _ _
  · exact failAt_meets _ _ _

theorem unaryOperator_ne_end {op : UnaryOp} (h : unaryOperator token = some op) :
    token.kind ≠ .end := by
  intro hkind
  have hno : ∀ keyword : String, token.isKeyword keyword = false := by
    intro keyword
    rw [Token.isKeyword, hkind]
  simp [unaryOperator, hkind, hno] at h

theorem safe_parseUnary (hor : Safe input inner.or) (hunary : Safe input inner.unary) :
    Safe input (parseUnary input limits inner) := by
  intro rest h
  obtain ⟨token, rest, rfl⟩ := h.exists_cons
  rw [parseUnary]
  split
  next => exact safe_parsePrimary hor (token :: rest) h
  next op hop =>
    have hafter : Shrinks (token :: rest) rest :=
      ⟨h.tail (unaryOperator_ne_end hop), Nat.le_succ _⟩
    split
    next magnitude rest₁ htake =>
      obtain ⟨hclosed, hlength⟩ := takeSimple_shrinks (by simp) hafter.1 htake
      exact hafter.trans ⟨hclosed, hlength.le⟩
    next =>
      refine (hunary rest hafter.1).bind fun operand hoperand => ?_
      obtain ⟨operand, rest₁⟩ := operand
      exact (makeUnary_meets _ operand token.span).bind fun _ _ => hafter.trans hoperand

/-- Every level's operators are tokens of their own. -/
theorem operatorLevel_all : OperatorLevel orOperator ∧ OperatorLevel andOperator ∧
    OperatorLevel equalityOperator ∧ OperatorLevel comparisonOperator ∧
    OperatorLevel matchOperator ∧ OperatorLevel additiveOperator ∧
    OperatorLevel multiplicativeOperator := by
  refine ⟨?_, ?_, ?_, ?_, ?_, ?_, ?_⟩ <;>
  · intro token op h hkind
    have hno : ∀ keyword : String, token.isKeyword keyword = false := by
      intro keyword
      rw [Token.isKeyword, hkind]
    simp [orOperator, andOperator, equalityOperator, comparisonOperator, matchOperator,
      additiveOperator, multiplicativeOperator, hkind, hno] at h

/-- One depth from the next. -/
theorem safe_parseOr [RegexCrate] (hor : Safe input inner.or) (hunary : Safe input inner.unary) :
    Safe input (parseOr input limits inner) := by
  obtain ⟨h₁, h₂, h₃, h₄, h₅, h₆, h₇⟩ := operatorLevel_all
  have hmultiplicative : Safe input (parseMultiplicative input limits inner) :=
    safe_parseChain h₇ (safe_parseUnary hor hunary)
  have hadditive : Safe input (parseAdditive input limits inner) :=
    safe_parseChain h₆ hmultiplicative
  have hmatch : Safe input (parseMatchOperator input limits inner) := safe_parseChain h₅ hadditive
  have hcomparison : Safe input (parseComparison input limits inner) := safe_parseChain h₄ hmatch
  have hequality : Safe input (parseEquality input limits inner) := safe_parseChain h₃ hcomparison
  have hand : Safe input (parseAnd input limits inner) := safe_parseChain h₂ hequality
  exact safe_parseChain h₁ hand

/-- The parsers at every depth, by induction on the depths that are left. -/
theorem safe_nest [RegexCrate] (left : ℕ) :
    Safe input (nest input limits left).or ∧ Safe input (nest input limits left).unary := by
  induction left with
  | zero => exact ⟨fun rest h => errorCurrent_meets h _ _, fun rest h => errorCurrent_meets h _ _⟩
  | succ left ih => exact ⟨safe_parseOr ih.1 ih.2, safe_parseUnary ih.1 ih.2⟩

/-! ### Sources -/

theorem parseSourceArgument_meets (count : ℕ) (h : Closed rest) :
    Meets (Failure.Placed input) (fun read => Shrinks rest read.2.2)
      (parseSourceArgument input limits count rest) := by
  unfold parseSourceArgument
  split_ifs
  · exact errorCurrent_meets h _ _
  · refine (advance_meets h).bind fun read hread => ?_
    obtain ⟨token, rest'⟩ := read
    dsimp only
    split
    · exact hread
    · exact failAt_meets _ _ _

theorem parseColonArguments_meets (steps count : ℕ) (h : Closed rest) :
    Meets (Failure.Placed input) (fun read => Shrinks rest read.2.2)
      (parseColonArguments input limits steps count rest) := by
  induction steps generalizing count rest with
  | zero => exact Shrinks.refl h
  | succ steps ih =>
    rw [parseColonArguments]
    split_ifs
    · refine (advance_meets h).bind fun comma hcomma => ?_
      refine (parseSourceArgument_meets count hcomma.1).bind fun argument hargument => ?_
      refine (ih argument.2.1 hargument.1).bind fun arguments harguments => ?_
      exact hcomma.trans (hargument.trans harguments)
    · exact Shrinks.refl h

theorem parseCallArguments_meets (count : ℕ) (h : Closed rest) (hsteps : rest.length < steps) :
    Meets (Failure.Placed input) (fun read => Shrinks rest read.2.2)
      (parseCallArguments input limits steps count rest) := by
  induction steps generalizing count rest with
  | zero => exact absurd hsteps (Nat.not_lt_zero _)
  | succ steps ih =>
    rw [parseCallArguments]
    refine (parseSourceArgument_meets count h).bind fun argument hargument => ?_
    obtain ⟨argument, count, rest₁⟩ := argument
    dsimp only
    split
    next => exact hargument
    next comma rest₂ htake =>
      obtain ⟨hclosed, hlength⟩ := takeSimple_shrinks (by simp) hargument.1 htake
      have hafter : Shrinks rest rest₂ := ⟨hclosed, le_trans hlength.le hargument.2⟩
      split_ifs
      · exact hafter
      · have hlt : rest₂.length < rest₁.length := hlength
        have hle : rest₁.length ≤ rest.length := hargument.2
        have hfewer : rest₂.length < steps := by omega
        exact (ih count hclosed hfewer).bind fun arguments harguments =>
          hafter.trans harguments

theorem parseSourceArguments_meets (count : ℕ) (h : Closed rest) :
    Meets (Failure.Placed input) (fun read => Shrinks rest read.2.2)
      (parseSourceArguments input limits count rest) := by
  unfold parseSourceArguments
  split
  next colon rest₁ htake =>
    obtain ⟨hclosed, hlength⟩ := takeSimple_shrinks (by simp) h htake
    have hafter : Shrinks rest rest₁ := ⟨hclosed, hlength.le⟩
    refine (parseSourceArgument_meets count hclosed).bind fun argument hargument => ?_
    refine (parseColonArguments_meets _ _ hargument.1).bind fun arguments harguments => ?_
    exact hafter.trans (hargument.trans harguments)
  next =>
    split
    next paren rest₁ htake =>
      obtain ⟨hclosed, hlength⟩ := takeSimple_shrinks (by simp) h htake
      have hafter : Shrinks rest rest₁ := ⟨hclosed, hlength.le⟩
      dsimp only
      split_ifs
      · exact (expectSimple_meets (by simp) _ hclosed).bind fun close hclose =>
          hafter.trans hclose
      · refine (parseCallArguments_meets count hclosed (Nat.lt_succ_self _)).bind
          fun arguments harguments => ?_
        exact (expectSimple_meets (by simp) _ harguments.1).bind fun close hclose =>
          hafter.trans (harguments.trans hclose)
    next => exact Shrinks.refl h

theorem makeSources_meets (kind : SourceKind) (arguments : List Str) (span : Span) :
    Meets (Failure.Placed input) (fun _ => True) (makeSources input kind arguments span) := by
  unfold makeSources
  dsimp only
  split_ifs
  all_goals first
    | trivial
    | exact failAt_meets _ _ _

theorem parseSource_meets (count : ℕ) (h : Closed rest) :
    Meets (Failure.Placed input) (fun read => Shrinks rest read.2.2)
      (parseSource input limits count rest) := by
  unfold parseSource
  refine (advance_meets h).bind fun read hread => ?_
  obtain ⟨token, rest'⟩ := read
  dsimp only
  split
  case h_3 => exact (failAt_meets (fun _ => False) _ _).bind fun _ hfalse => hfalse.elim
  all_goals
    refine Meets.bind (P := fun _ => True) trivial fun sourceName _ => ?_
    split
    · exact failAt_meets _ _ _
    · refine (parseSourceArguments_meets count hread.1).bind fun arguments harguments => ?_
      exact (makeSources_meets _ _ _).bind fun _ _ => hread.trans harguments

theorem parseSourcesLoop_meets (steps : ℕ) (sources : List SourceSpec) (count : ℕ)
    (h : Closed rest) : Meets (Failure.Placed input) (fun read => Closed read.2)
      (parseSourcesLoop input limits steps sources count rest) := by
  induction steps generalizing sources count rest with
  | zero => exact h
  | succ steps ih =>
    rw [parseSourcesLoop]
    split_ifs
    · exact h
    · refine (parseSource_meets count h).bind fun parsed hparsed => ?_
      obtain ⟨parsed, count, rest₁⟩ := parsed
      dsimp only
      split
      · exact errorCurrent_meets hparsed.1 _ _
      · split
        next comma rest₂ htake => exact ih _ _ (takeSimple_shrinks (by simp) hparsed.1 htake).1
        next =>
          split_ifs
          · exact hparsed.1
          · exact errorCurrent_meets hparsed.1 _ _

theorem parseSources_meets (h : Closed rest) : Meets (Failure.Placed input)
    (fun read => Closed read.2) (parseSources input limits rest) :=
  (parseSourcesLoop_meets _ _ _ h).bind fun _ hsources => hsources

/-! ### Queries -/

theorem parseWhere_meets [RegexCrate] (hadFrom : Bool) (h : Closed rest) :
    Meets (Failure.Placed input) (fun read => Closed read.2) (parseWhere input limits hadFrom rest) := by
  unfold parseWhere
  split
  next token rest₁ htake =>
    have hclosed := (takeKeyword_shrinks h htake).1
    split_ifs
    · exact (advance_meets hclosed).bind fun _ _ => hclosed
    · exact errorCurrent_meets hclosed _ _
    · exact ((safe_nest _).1 rest₁ hclosed).mono fun _ hread => hread.1
  next => exact (advance_meets h).bind fun _ _ => h

theorem parse_meets [RegexCrate] (h : Closed rest) :
    Meets (Failure.Placed input) (fun _ => True) (parse input limits rest) := by
  unfold parse
  dsimp only
  have hsources : ∀ (sources : List SourceSpec) (rest₁ : List Token), Closed rest₁ →
      Meets (Failure.Placed input) (fun _ => True)
        (if sources.isEmpty then errorCurrent input "from requires at least one source" rest₁
        else parseWhere input limits (checkKeyword "from" rest) rest₁ >>= fun read =>
          if !read.1.types.intersects .BOOL then
            failAt input read.1.span "query predicate must produce a boolean value"
          else if !atEnd read.2 then errorCurrent input "unexpected token after query" read.2
          else .ok (CompiledQuery.of sources read.1)) := by
    intro sources rest₁ hclosed
    split_ifs
    · exact errorCurrent_meets hclosed _ _
    · refine (parseWhere_meets _ hclosed).bind fun predicate hpredicate => ?_
      split_ifs
      · exact failAt_meets _ _ _
      · exact errorCurrent_meets hpredicate _ _
      · trivial
  split
  next token rest₁ htake =>
    exact (parseSources_meets (takeKeyword_shrinks h htake).1).bind fun read hread =>
      hsources read.1 read.2 hread
  next =>
    split_ifs
    · exact hsources [⟨.local, [], ⟨0, 0⟩⟩] rest h
    · exact (errorCurrent_meets h (fun _ => False) _).bind fun _ hfalse => hfalse.elim

end

end

/-- Compiling a query, under whatever limits, never panics, and each of its errors is about a piece
of the query between two characters and has the line and the column at which the piece begins. -/
theorem compileQueryWithLimits_safe [CharTable] [RegexCrate] (query : Str) (limits : QueryLimits) :
    compileQueryWithLimits query limits ≠ .error .panic ∧
      ∀ error, compileQueryWithLimits query limits = .error (.compile error) →
        error.Placed query := by
  have hmeets : Meets (Failure.Placed query) (fun _ => True)
      (compileQueryWithLimits query limits) := by
    unfold compileQueryWithLimits
    split_ifs
    · exact failAt_meets _ _ _
    · exact (tokenize_meets query limits).bind fun tokens htokens => parse_meets htokens
  have hfailure := (meets_iff.1 hmeets).2
  exact ⟨fun hpanic => hfailure _ hpanic, fun error herror => hfailure _ herror⟩

end Awayuki.Kq
