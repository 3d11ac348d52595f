import Awayuki.Kq.Grammar

/-!
# KQ: the parser and the grammar

The parser accepts what the grammar derives, within the limits, and returns the expression of the
derivation.

* `Cst.build` is the expression of a derivation, with the type checks of the parser;
* `Cst.depth` and `Cst.Within` are what the parser counts: nested groups, sets and prefix
  operators, operators in a chain, items of a set;
* `parseHeight_complete`, `parseHeight_sound`: the parser at a height returns the expression of
  the derivation at the front of the tokens.
-/

namespace Awayuki.Kq

variable {e : Expr} {token : Token}

section

variable [RegexCrate] (input : Str) (limits : QueryLimits)

/-! ### The expression of a derivation -/

def pathExpr (first : Token) (components : List (Token × Token)) : Except Failure Expr :=
  let stop := components.foldl (fun _ component => component.2.span.stop) first.span.stop
  match resolveField ((first :: components.map Prod.snd).filterMap Token.word) with
  | some field => .ok (.mk (.field field) field.valueTypes ⟨first.span.start, stop⟩)
  | none => failAt input ⟨first.span.start, stop⟩ "field is unsupported or unavailable"

/-- An item of a set, which must be a scalar. -/
def scalarItem (value : Expr) : Except Failure Expr :=
  if value.types.intersects (.NUMBER ||| .TEXT ||| .IDENTITY) then .ok value
  else failAt input value.span "set items must be scalar values"

mutual

/-- The expression of a derivation. -/
def Cst.build : Cst → Except Failure Expr
  | .atom token =>
    match atomExpr token with
    | some expression => .ok expression
    | none => .error .panic
  | .path first components => pathExpr input first components
  | .unit «open» _ => .ok (.mk (.bool true) .BOOL «open».span)
  | .group «open» inner close => do
    let expression ← inner.build
    .ok (.mk expression.kind expression.types ⟨«open».span.start, close.span.stop⟩)
  | .emptySet «open» close => .ok (.mk (.set []) .SET ⟨«open».span.start, close.span.stop⟩)
  | .set «open» items close => do
    let values ← items.build
    .ok (.mk (.set values) .SET ⟨«open».span.start, close.span.stop⟩)
  | .unary operator operand => do
    let expression ← operand.build
    match unaryOperator operator with
    | some op => makeUnary input op expression operator.span
    | none => .error .panic
  | .minimum minus magnitude =>
    .ok (.mk (.number i64Min) .NUMBER ⟨minus.span.start, magnitude.span.stop⟩)
  | .binary left operator right => do
    let l ← left.build
    let r ← right.build
    match operator.binaryOperator with
    | some op => makeBinary input limits op l r operator.span
    | none => .error .panic

def CstItems.build : CstItems → Except Failure (List Expr)
  | .last item _ => do
    let value ← item.build
    let value ← scalarItem input value
    .ok [value]
  | .cons item _ items => do
    let value ← item.build
    let value ← scalarItem input value
    let values ← items.build
    .ok (value :: values)

end

variable {input limits}

theorem Cst.build_atom (h : atomExpr token = some e) :
    (Cst.atom token).build input limits = .ok e := by
  rw [build, h]

end

/-! ### What the parser counts -/

mutual

/-- How deep groups, sets and prefix operators are nested. -/
def Cst.depth : Cst → ℕ
  | .group _ inner _ => inner.depth + 1
  | .set _ items _ => items.depth + 1
  | .unary _ operand => operand.depth + 1
  | .binary left _ right => max left.depth right.depth
  | _ => 0

def CstItems.depth : CstItems → ℕ
  | .last item _ => item.depth
  | .cons item _ items => max item.depth items.depth

end

def CstItems.count : CstItems → ℕ
  | .last _ _ => 1
  | .cons _ _ items => items.count + 1

/-- The number of operators of height `g` that are chained from the root on. -/
def Cst.chain (g : ℕ) : Cst → ℕ
  | .binary _ operator right => if operator.height = g then right.chain g + 1 else 0
  | _ => 0

mutual

/-- Chains of operators and sets are no longer than the limits allow. -/
def Cst.Within (limits : QueryLimits) : Cst → Prop
  | .group _ inner _ => inner.Within limits
  | .set _ items _ => items.count ≤ limits.maxSetItems ∧ items.Within limits
  | .unary _ operand => operand.Within limits
  | .binary left operator right => left.Within limits ∧ right.Within limits ∧
      (Cst.binary left operator right).chain operator.height < limits.maxDepth
  | _ => True

def CstItems.Within (limits : QueryLimits) : CstItems → Prop
  | .last item _ => item.Within limits
  | .cons item _ items => item.Within limits ∧ items.Within limits

end

/-! ### The parser by heights -/

section

variable [RegexCrate] (input : Str) (limits : QueryLimits)

/-- The parser of expressions of height at most `h`: `parse_unary` up to `parse_or`. -/
def parseHeight (inner : Nest) : (h : ℕ) → Parse Expr
  | 0 => parseUnary input limits inner
  | h + 1 => parseChain input limits (heightOperator (h + 1)) (parseHeight inner h)

theorem nest_succ (n : ℕ) : nest input limits (n + 1) =
    ⟨parseHeight input limits (nest input limits n) 7,
      parseHeight input limits (nest input limits n) 0⟩ := rfl

theorem parsePredicate_eq : parsePredicate input limits =
    parseHeight input limits (nest input limits limits.maxDepth) 7 := rfl

end

/-! ### The derivation is found -/

section

variable {input : Str} {limits : QueryLimits} {rest ts : List Token} {n g : ℕ}
  {expected : TokenKind} {t : Token} {h steps : ℕ} {inner : Parse Expr}
  {components : List (Token × Token)} {kind : TokenKind} {o : Token} {message : String}

theorem parseTails_of_none {operator : Token → Option BinaryOp} (operand : Parse Expr) (steps : ℕ)
    (h : ∀ token ∈ rest.head?, operator token = none) :
    parseTails operator operand steps rest = .ok ([], rest) := by
  cases steps with
  | zero => rfl
  | succ steps =>
    cases rest with
    | nil => rfl
    | cons token rest => rw [parseTails, h token rfl]

theorem Follow.heightOperator (hrest : Follow h rest) (hg : 0 < g) (hgh : g ≤ h) :
    ∀ token ∈ rest.head?, Kq.heightOperator g token = none := fun token htoken => by
  have := (hrest token htoken).2
  rw [heightOperator_eq_none hg]
  omega

theorem unaryOperator_of_atomExpr (h : (atomExpr token).isSome) : unaryOperator token = none := by
  rw [← Option.not_isSome_iff_eq_none]
  exact fun hop => by simp [atomExpr_of_unaryOperator hop] at h

theorem unaryOperator_paren (h : token.kind = .leftParen ∨ token.kind = .leftBracket) :
    unaryOperator token = none := by
  rcases h with h | h <;> simp [unaryOperator, Token.isKeyword, h]

theorem parsePrimary_atom (h : atomExpr token = some e) :
    parsePrimary input limits inner (token :: rest) = .ok (e, rest) := by
  obtain ⟨kind, span⟩ := token
  cases kind
  case identifier value =>
    simp only [atomExpr, Option.ite_none_right_eq_some, Option.some.injEq] at h
    simp only [parsePrimary, advance, parseFieldOrBoolean, h.1, h.2, if_true, bind, Except.bind,
      reduceCtorEq, if_false]
  all_goals simp_all [atomExpr, parsePrimary, advance, bind, Except.bind]

theorem parseParts_complete (stop : ℕ) (hcs : ∀ c ∈ components, c.1.kind = .dot ∧ c.2.word.isSome)
    (hrest : ∀ token ∈ rest.head?, token.kind ≠ .dot) :
    parseParts input stop (componentTokens components ++ rest) =
      .ok ((components.map Prod.snd).filterMap Token.word,
        components.foldl (fun _ component => component.2.span.stop) stop, rest) := by
  induction components generalizing stop with
  | nil =>
    match rest with
    | [] => rfl
    | [token] => simp [componentTokens, parseParts, hrest token rfl]
    | token :: _ :: _ => simp [componentTokens, parseParts, hrest token rfl]
  | cons c cs ih =>
    obtain ⟨hdot, hword⟩ := hcs c (by simp)
    obtain ⟨value, hvalue⟩ : ∃ value, c.2.kind = .identifier value := by
      unfold Token.word at hword
      split at hword
      next value hkind => exact ⟨value, hkind⟩
      next => cases hword
    have hcs' := ih c.2.span.stop fun c hc => hcs c (by simp [hc])
    simp only [componentTokens] at hcs'
    simp [componentTokens, parseParts, hdot, hvalue, hcs', Token.word, bind, Except.bind]

theorem parsePrimary_path {first : Token} (wf : (Cst.path first components).WF)
    (hbuild : pathExpr input first components = .ok e)
    (hrest : ∀ token ∈ rest.head?, token.kind ≠ .dot) :
    parsePrimary input limits inner (first :: (componentTokens components ++ rest)) =
      .ok (e, rest) := by
  obtain ⟨hword, hatom, -, hcs⟩ := wf
  obtain ⟨kind, span⟩ := first
  cases kind
  case identifier value =>
    have hbool : ¬ (value.eqIgnoreAsciiCase "true" ∨ value.eqIgnoreAsciiCase "false") := by
      intro hvalue
      rw [atomExpr] at hatom
      dsimp only at hatom
      rw [if_pos hvalue] at hatom
      cases hatom
    simp only [pathExpr, Token.word, List.filterMap_cons] at hbuild
    simp only [parsePrimary, advance, parseFieldOrBoolean, hbool, if_false, bind, Except.bind,
      reduceCtorEq, parseParts_complete _ hcs hrest]
    split at hbuild
    next field hfield => rw [hfield]; cases hbuild; rfl
    next => exact absurd hbuild failAt_ne_ok
  all_goals cases hword

variable {c : Cst}

theorem Cst.chain_of_height_lt (h : c.height < g) : c.chain g = 0 := by
  cases c with
  | binary l t m => exact if_neg (Nat.ne_of_lt h)
  | _ => rfl

theorem Cst.chain_le_length (g : ℕ) : (c : Cst) → c.chain g ≤ c.yield.length
  | .binary l t m => by
    have := chain_le_length g m
    simp only [chain, yield, List.length_append, List.length_cons]
    split_ifs <;> omega
  | .atom _ | .path _ _ | .unit _ _ | .group _ _ _ | .emptySet _ _ | .set _ _ _ | .unary _ _
  | .minimum _ _ => Nat.zero_le _

theorem Token.height_le (token : Token) : token.height ≤ 7 := by
  unfold Token.height
  cases token.binaryOperator with
  | none => exact Nat.zero_le _
  | some op => exact op.height_le

theorem Cst.height_le (c : Cst) : c.height ≤ 7 := by
  cases c with
  | binary l t m => exact t.height_le
  | _ => exact Nat.zero_le _

theorem CstItems.count_le_length : (is : CstItems) → is.WF → is.count ≤ is.yield.length
  | .last i _, wf => by
    obtain ⟨t, ts, hyield, -⟩ := i.yield_head wf.1
    simp [count, yield, hyield]
  | .cons i _ is, wf => by
    have := count_le_length is wf.2.2
    simp only [count, yield, List.length_append, List.length_cons]
    omega

theorem takeSimple_of_ne (h : ∀ token ∈ ts.head?, token.kind ≠ expected) :
    takeSimple expected ts = none := by
  cases ts with
  | nil => rfl
  | cons token ts => simp [takeSimple, takeIf, h token rfl]

theorem takeSimple_of_eq (h : token.kind = expected) :
    takeSimple expected (token :: ts) = some (token, ts) := by
  simp [takeSimple, takeIf, h]

theorem checkSimple_of_ne (h : ∀ token ∈ ts.head?, token.kind ≠ expected) :
    checkSimple expected ts = false := by
  cases ts with
  | nil => rfl
  | cons token ts => simp [checkSimple, h token rfl]

theorem checkSimple_of_eq (h : token.kind = expected) :
    checkSimple expected (token :: ts) = true := by
  simp [checkSimple, h]

/-- No derivation starts with a closing token. -/
theorem Cst.head_ne (wf : c.WF) (hkind : kind.IsClosing) (rest : List Token) :
    ∀ token ∈ (c.yield ++ rest).head?, token.kind ≠ kind := by
  obtain ⟨t, ts, hyield, hhead⟩ := c.yield_head wf
  intro token htoken heq
  rw [hyield] at htoken
  obtain rfl : t = token := by simpa using htoken
  exact hhead (heq ▸ hkind)

variable {is : CstItems}

theorem CstItems.head_ne (wf : is.WF) (hkind : kind.IsClosing) (rest : List Token) :
    ∀ token ∈ (is.yield ++ rest).head?, token.kind ≠ kind := by
  obtain ⟨t, ts, hyield, hhead⟩ := is.yield_head wf
  intro token htoken heq
  rw [hyield] at htoken
  obtain rfl : t = token := by simpa using htoken
  exact hhead (heq ▸ hkind)

theorem scalarItem_eq_ok {e' : Expr} (h : scalarItem input e = .ok e') :
    e.types.intersects (.NUMBER ||| .TEXT ||| .IDENTITY) = true ∧ e = e' := by
  unfold scalarItem at h
  split_ifs at h with hscalar
  · exact ⟨hscalar, Except.ok.inj h⟩
  · exact absurd h failAt_ne_ok

theorem errorCurrent_ne_ok {α : Type} {a : α} : errorCurrent input message ts ≠ .ok a := by
  cases ts with
  | nil => exact fun h => nomatch h
  | cons token ts => exact failAt_ne_ok

theorem takeSimple_eq_some (h : takeSimple expected ts = some (token, rest)) :
    ts = token :: rest ∧ token.kind = expected := by
  cases ts with
  | nil => cases h
  | cons t ts =>
    simp only [takeSimple, takeIf] at h
    split_ifs at h with hkind
    cases h
    exact ⟨rfl, by simpa using hkind⟩

theorem expectSimple_eq_ok (h : expectSimple input expected message ts = .ok (token, rest)) :
    ts = token :: rest ∧ token.kind = expected := by
  unfold expectSimple at h
  split at h
  next taken htake =>
    cases h
    exact takeSimple_eq_some htake
  next => exact absurd h errorCurrent_ne_ok

theorem parseParts_sound {stop : ℕ} {parts : List Str} {stop' : ℕ}
    (h : parseParts input stop ts = .ok (parts, stop', rest)) :
    ∃ components : List (Token × Token), ts = componentTokens components ++ rest ∧
      (∀ c ∈ components, c.1.kind = .dot ∧ c.2.word.isSome) ∧
      parts = (components.map Prod.snd).filterMap Token.word ∧
      stop' = components.foldl (fun _ component => component.2.span.stop) stop := by
  fun_induction parseParts input stop ts generalizing parts stop' rest with
  | case1 | case3 | case6 =>
    cases h
    exact ⟨[], rfl, by simp, rfl, rfl⟩
  | case2 => cases h
  | case4 stop dot component ts hdot value hvalue ih =>
    simp only [bind_eq_ok, Prod.exists, Except.ok.injEq, Prod.mk.injEq] at h
    obtain ⟨parts, stop', rest, hparts, rfl, rfl, rfl⟩ := h
    obtain ⟨cs, rfl, hcs, rfl, rfl⟩ := ih hparts
    refine ⟨(dot, component) :: cs, rfl, ?_, by simp [Token.word, hvalue], rfl⟩
    exact List.forall_mem_cons.2 ⟨⟨hdot, by simp [Token.word, hvalue]⟩, hcs⟩
  | case5 => exact absurd h failAt_ne_ok

variable [RegexCrate]

/-- An expression is parsed alike at every height that what follows allows. -/
theorem parseHeight_climb {inner : Nest}
    (hparse : parseHeight input limits inner g ts = .ok (e, rest)) (hgh : g ≤ h)
    (hrest : Follow h rest) : parseHeight input limits inner h ts = .ok (e, rest) := by
  induction h, hgh using Nat.le_induction with
  | base => exact hparse
  | succ h hgh ih =>
    have htails := parseTails_of_none (parseHeight input limits inner h) rest.length
      (hrest.heightOperator (Nat.succ_pos h) le_rfl)
    simp only [parseHeight, parseChain, ih (hrest.mono (Nat.le_succ h)), htails, rightFoldOps,
      bind, Except.bind, List.isEmpty_nil, if_true]

theorem parseHeight_zero {inner : Nest} (h : unaryOperator token = none) :
    parseHeight input limits inner 0 (token :: rest) =
      parsePrimary input limits inner.or (token :: rest) := by
  simp only [parseHeight, parseUnary, h]

variable (input limits)

/-- The parser finds the derivation at the front of the tokens. -/
def Cst.Parses (c : Cst) : Prop :=
  ∀ (n h : ℕ) (e : Expr) (rest : List Token), c.WF → c.Within limits → c.depth ≤ n →
    c.build input limits = .ok e → c.height ≤ h → Follow h rest →
    parseHeight input limits (nest input limits n) h (c.yield ++ rest) = .ok (e, rest)

def CstItems.Parses (is : CstItems) : Prop :=
  ∀ (n count steps : ℕ) (values : List Expr) (close : Token) (rest : List Token), is.WF →
    is.Within limits → is.depth ≤ n → is.build input limits = .ok values →
    count + is.count ≤ limits.maxSetItems → is.count ≤ steps → close.kind = .rightBracket →
    parseItems input limits (parseHeight input limits (nest input limits n) 7) steps count
      (is.yield ++ close :: rest) = .ok (values, close :: rest)

/-- The parser reads the tokens before `rest` as operands joined by `k` operators of height
`g + 1`, of which it makes `e`. -/
def ChainAt (n g k : ℕ) (ts : List Token) (e : Expr) (rest : List Token) : Prop :=
  ∃ first mid tails, tails.length = k ∧ k ≤ mid.length ∧
    parseHeight input limits (nest input limits n) g ts = .ok (first, mid) ∧
    (∀ steps, k ≤ steps → parseTails (heightOperator (g + 1))
      (parseHeight input limits (nest input limits n) g) steps mid = .ok (tails, rest)) ∧
    foldRight input limits first tails = .ok e

def Cst.Chains (c : Cst) : Prop :=
  ∀ (n g : ℕ) (e : Expr) (rest : List Token), c.WF → c.Within limits → c.depth ≤ n →
    c.build input limits = .ok e → c.height = g + 1 → Follow (g + 1) rest →
    ChainAt input limits n g (c.chain (g + 1)) (c.yield ++ rest) e rest

variable {input limits}

/-- An expression below the height of the chain is one operand. -/
theorem Cst.Parses.chainAt (hc : c.Parses input limits) (wf : c.WF) (within : c.Within limits)
    (hdepth : c.depth ≤ n) (hbuild : c.build input limits = .ok e) (hheight : c.height ≤ g)
    (hrest : Follow (g + 1) rest) :
    ChainAt input limits n g (c.chain (g + 1)) (c.yield ++ rest) e rest :=
  ⟨e, rest, [], (chain_of_height_lt (Nat.lt_succ_of_le hheight)).symm,
    (chain_of_height_lt (Nat.lt_succ_of_le hheight)).symm ▸ Nat.zero_le _,
    hc n g e rest wf within hdepth hbuild hheight (hrest.mono (Nat.le_succ g)),
    fun _ _ => parseTails_of_none _ _ (hrest.heightOperator (Nat.succ_pos g) le_rfl), rfl⟩

variable {l m : Cst}

/-- A binary expression is its left operand followed by the chain of its right operand. -/
theorem Cst.chains_binary (hl : l.Parses input limits) (hm : m.Parses input limits)
    (hchain : m.Chains input limits) : (Cst.binary l t m).Chains input limits := by
  intro n g e rest wf within hdepth hbuild hg hrest
  change t.height = g + 1 at hg
  obtain ⟨wfl, wfm, -, hlh, hmh⟩ := wf
  obtain ⟨hwl, hwm, -⟩ := within
  obtain ⟨hdl, hdm⟩ := max_le_iff.1 hdepth
  simp only [build, bind_eq_ok] at hbuild
  obtain ⟨el, hel, em, hem, hmake⟩ := hbuild
  -- the right operand is read as a chain of its own, or as a single operand
  have hright : ChainAt input limits n g (m.chain (g + 1)) (m.yield ++ rest) em rest := by
    rcases Nat.lt_or_ge g m.height with hgm | hgm
    · exact hchain n g em rest wfm hwm hdm hem (by omega) hrest
    · exact hm.chainAt wfm hwm hdm hem hgm hrest
  obtain ⟨first, mid, tails, hlength, hle, hfirst, htails, hfold⟩ := hright
  obtain ⟨op, hop⟩ : ∃ op, t.binaryOperator = some op := by
    cases hop : t.binaryOperator with
    | none => simp [Token.height, hop] at hg
    | some op => exact ⟨op, rfl⟩
  have hoperator : heightOperator (g + 1) t = some op :=
    heightOperator_eq_some.2 ⟨hop, (Token.height_of_binaryOperator hop).symm.trans hg⟩
  rw [chain, if_pos hg]
  refine ⟨el, t :: (m.yield ++ rest), (op, t.span, first) :: tails, by simp [hlength], ?_, ?_, ?_, ?_⟩
  · have := chain_le_length (g + 1) m
    simp only [List.length_cons, List.length_append]
    omega
  · rw [yield, List.append_assoc, List.cons_append]
    exact hl n g el _ wfl hwl hdl hel (by omega) (.operator (by omega))
  · intro steps hsteps
    obtain ⟨steps, rfl⟩ : ∃ k, steps = k + 1 := ⟨steps - 1, by omega⟩
    simp only [parseTails, hoperator, hfirst, htails steps (by omega), bind, Except.bind]
  · simp only [foldRight, hfold, bind, Except.bind]
    rwa [hop] at hmake

/-- A chain of operators is parsed at its height. -/
theorem ChainAt.parseHeight {k : ℕ} (h : ChainAt input limits n g k ts e rest)
    (hk : k < limits.maxDepth) :
    parseHeight input limits (nest input limits n) (g + 1) ts = .ok (e, rest) := by
  obtain ⟨first, mid, tails, rfl, hle, hfirst, htails, hfold⟩ := h
  have hfold' : rightFoldOps input limits first tails = .ok e := by
    unfold rightFoldOps
    split_ifs with hempty hdepth
    · obtain rfl := List.isEmpty_iff.1 hempty
      exact hfold
    · omega
    · exact hfold
  simp only [Kq.parseHeight, parseChain, hfirst, htails mid.length hle, hfold', bind, Except.bind]

/-- An expression that is parsed at its own height is parsed at every height above. -/
theorem Cst.parses_of_height
    (h : ∀ (n : ℕ) (e : Expr) (rest : List Token), c.WF → c.Within limits → c.depth ≤ n →
      c.build input limits = .ok e → Follow c.height rest →
      parseHeight input limits (nest input limits n) c.height (c.yield ++ rest) = .ok (e, rest)) :
    c.Parses input limits := fun n _ e rest wf within hdepth hbuild hg hrest =>
  parseHeight_climb (h n e rest wf within hdepth hbuild (hrest.mono hg)) hg hrest

theorem Cst.parses_atom (t : Token) : (Cst.atom t).Parses input limits := by
  refine parses_of_height fun n e rest wf _ _ hbuild _ => ?_
  obtain ⟨e', he⟩ := Option.isSome_iff_exists.1 wf
  rw [build_atom he] at hbuild
  obtain rfl := Except.ok.inj hbuild
  exact (parseHeight_zero (unaryOperator_of_atomExpr wf)).trans (parsePrimary_atom he)

theorem Cst.parses_path (t : Token) (cs : List (Token × Token)) :
    (Cst.path t cs).Parses input limits := by
  refine parses_of_height fun n e rest wf _ _ hbuild hrest => ?_
  exact (parseHeight_zero wf.2.2.1).trans
    (parsePrimary_path wf hbuild fun token htoken => (hrest token htoken).1)

theorem Cst.parses_unit (o c : Token) : (Cst.unit o c).Parses input limits := by
  refine parses_of_height fun n e rest wf _ _ hbuild hrest => ?_
  simp only [build, Except.ok.injEq] at hbuild
  obtain rfl := hbuild
  refine (parseHeight_zero (unaryOperator_paren (.inl wf.1))).trans ?_
  simp [parsePrimary, advance, wf.1, takeSimple_of_eq wf.2, bind, Except.bind]

variable {i : Cst}

theorem Cst.parses_group {c : Token} (hi : i.Parses input limits) :
    (Cst.group o i c).Parses input limits := by
  refine parses_of_height fun n e rest wf within hdepth hbuild hrest => ?_
  obtain ⟨ho, wfi, hc⟩ := wf
  have hroom : i.depth + 1 ≤ n := hdepth
  obtain ⟨n, rfl⟩ : ∃ k, n = k + 1 := ⟨n - 1, by omega⟩
  simp only [build, bind_eq_ok, Except.ok.injEq] at hbuild
  obtain ⟨ei, hei, rfl⟩ := hbuild
  have hinner := hi n 7 ei (c :: rest) wfi within (by omega) hei
    i.height_le (.closing hc (.inl rfl))
  have hnext := takeSimple_of_ne (i.head_ne wfi (.inl rfl) (c :: rest))
  refine (parseHeight_zero (unaryOperator_paren (.inl ho))).trans ?_
  simp [parsePrimary, advance, ho, nest_succ, hinner, hnext, expectSimple, takeSimple_of_eq hc,
    bind, Except.bind]

theorem Cst.parses_emptySet (o c : Token) : (Cst.emptySet o c).Parses input limits := by
  refine parses_of_height fun n e rest wf _ _ hbuild hrest => ?_
  simp only [build, Except.ok.injEq] at hbuild
  obtain rfl := hbuild
  refine (parseHeight_zero (unaryOperator_paren (.inr wf.1))).trans ?_
  simp [parsePrimary, parseSet, advance, wf.1, checkSimple_of_eq wf.2, expectSimple,
    takeSimple_of_eq wf.2, bind, Except.bind]

theorem Cst.parses_set {c : Token} (his : is.Parses input limits) :
    (Cst.set o is c).Parses input limits := by
  refine parses_of_height fun n e rest wf within hdepth hbuild hrest => ?_
  obtain ⟨ho, wfis, hc⟩ := wf
  have hroom : is.depth + 1 ≤ n := hdepth
  obtain ⟨n, rfl⟩ : ∃ k, n = k + 1 := ⟨n - 1, by omega⟩
  simp only [build, bind_eq_ok, Except.ok.injEq] at hbuild
  obtain ⟨values, hvalues, rfl⟩ := hbuild
  have hlength := is.count_le_length wfis
  have hitems := his n 0 ((is.yield ++ c :: rest).length + 1) values c rest wfis within.2
    (by omega) hvalues (by simpa using within.1)
    (by simp only [List.length_append]; omega) hc
  have hnext := checkSimple_of_ne (is.head_ne wfis (.inr (.inl rfl)) (c :: rest))
  refine (parseHeight_zero (unaryOperator_paren (.inr ho))).trans ?_
  simp [parsePrimary, parseSet, advance, ho, nest_succ, hitems, hnext, expectSimple,
    takeSimple_of_eq hc, bind, Except.bind, -List.length_append, -List.length_cons]

theorem Cst.parses_unary (hi : i.Parses input limits) : (Cst.unary t i).Parses input limits := by
  refine parses_of_height fun n e rest wf within hdepth hbuild hrest => ?_
  obtain ⟨ht, wfi, hheight⟩ := wf
  obtain ⟨op, hop⟩ := Option.isSome_iff_exists.1 ht
  have hroom : i.depth + 1 ≤ n := hdepth
  obtain ⟨n, rfl⟩ : ∃ k, n = k + 1 := ⟨n - 1, by omega⟩
  simp only [build, bind_eq_ok, hop] at hbuild
  obtain ⟨ei, hei, hmake⟩ := hbuild
  have hinner := hi n 0 ei rest wfi within (by omega) hei
    (Nat.le_of_eq hheight) hrest
  have hnext := takeSimple_of_ne (i.head_ne wfi (.inr (.inr (.inr rfl))) rest)
  change parseUnary input limits (nest input limits (n + 1)) (t :: (i.yield ++ rest)) = .ok (e, rest)
  simp [parseUnary, hop, hnext, nest_succ, hinner, hmake, bind, Except.bind]

theorem Cst.parses_minimum (t m : Token) : (Cst.minimum t m).Parses input limits := by
  refine parses_of_height fun n e rest wf _ _ hbuild _ => ?_
  simp only [build, Except.ok.injEq] at hbuild
  obtain rfl := hbuild
  change parseUnary input limits (nest input limits n) (t :: m :: rest) = _
  simp [parseUnary, unaryOperator_minus wf.1, takeSimple_of_eq wf.2]

theorem Cst.parses_binary (h : (Cst.binary l t m).Chains input limits) :
    (Cst.binary l t m).Parses input limits := by
  refine parses_of_height fun n e rest wf within hdepth hbuild hrest => ?_
  obtain ⟨g, hg⟩ : ∃ g, (Cst.binary l t m).height = g + 1 :=
    Nat.exists_eq_add_one.2 (Nat.pos_of_ne_zero (height_binary_ne_zero wf))
  rw [hg] at hrest ⊢
  have hchain := within.2.2
  rw [show t.height = g + 1 from hg] at hchain
  exact (h n g e rest wf within hdepth hbuild hg hrest).parseHeight hchain

theorem CstItems.parses_last {comma : Option Token} (hi : i.Parses input limits) :
    (CstItems.last i comma).Parses input limits := by
  intro n count steps values close rest wf within hdepth hbuild hcount hsteps hclose
  obtain ⟨wfi, hcomma⟩ := wf
  obtain ⟨steps, rfl⟩ : ∃ k, steps = k + 1 :=
    ⟨steps - 1, by simp only [CstItems.count] at hsteps; omega⟩
  simp only [build, bind_eq_ok, Except.ok.injEq] at hbuild
  obtain ⟨e, he, e', hscalar, rfl⟩ := hbuild
  obtain ⟨htypes, rfl⟩ := scalarItem_eq_ok hscalar
  have hitem := hi n 7 e (comma.toList ++ close :: rest) wfi within hdepth he i.height_le
    (.last hcomma hclose)
  have hroom : ¬ count ≥ limits.maxSetItems := by simp only [CstItems.count] at hcount; omega
  simp only [yield, List.append_assoc, parseItems, hroom, if_false, hitem, htypes, bind,
    Except.bind, Bool.not_true, Bool.false_eq_true]
  cases comma with
  | none =>
    rw [Option.toList_none, List.nil_append, takeSimple_of_ne (by simp [hclose])]
  | some comma =>
    rw [Option.toList_some, List.cons_append, List.nil_append,
      takeSimple_of_eq (hcomma comma rfl)]
    simp [checkSimple_of_eq hclose]

theorem CstItems.parses_cons {comma : Token} (hi : i.Parses input limits)
    (his : is.Parses input limits) : (CstItems.cons i comma is).Parses input limits := by
  intro n count steps values close rest wf within hdepth hbuild hcount hsteps hclose
  obtain ⟨wfi, hcomma, wfis⟩ := wf
  obtain ⟨hdi, hdis⟩ := max_le_iff.1 hdepth
  simp only [CstItems.count] at hcount hsteps
  obtain ⟨steps, rfl⟩ : ∃ k, steps = k + 1 := ⟨steps - 1, by omega⟩
  simp only [build, bind_eq_ok, Except.ok.injEq] at hbuild
  obtain ⟨e, he, e', hscalar, es, hes, rfl⟩ := hbuild
  obtain ⟨htypes, rfl⟩ := scalarItem_eq_ok hscalar
  have hitem := hi n 7 e (comma :: (is.yield ++ close :: rest)) wfi within.1 hdi he i.height_le
    (.closing hcomma (.inr (.inr (.inl rfl))))
  have hitems := his n (count + 1) steps es close rest wfis within.2 hdis hes (by omega) (by omega)
    hclose
  have hroom : ¬ count ≥ limits.maxSetItems := by omega
  have hnext := checkSimple_of_ne (is.head_ne wfis (.inr (.inl rfl)) (close :: rest))
  simp only [yield, List.append_assoc, List.cons_append, parseItems, hroom, if_false, hitem,
    htypes, takeSimple_of_eq hcomma, hnext, hitems, bind, Except.bind, Bool.not_true,
    Bool.false_eq_true]

theorem Cst.chains_of_height_zero (h : c.height = 0) : c.Chains input limits :=
  fun _ g _ _ _ _ _ _ hg _ => absurd (h.symm.trans hg) (Nat.succ_ne_zero g).symm

/-- The parser at a height returns the expression of the derivation at the front of the tokens. -/
theorem Cst.parseHeight_complete (c : Cst) : c.Parses input limits := by
  have h : c.Parses input limits ∧ c.Chains input limits := by
    refine Cst.induct (P := fun c => c.Parses input limits ∧ c.Chains input limits)
      (Q := fun is => is.Parses input limits)
      (fun t => ⟨parses_atom t, ?_⟩) (fun t cs => ⟨parses_path t cs, ?_⟩)
      (fun o e => ⟨parses_unit o e, ?_⟩) (fun o i e hi => ⟨parses_group hi.1, ?_⟩)
      (fun o e => ⟨parses_emptySet o e, ?_⟩) (fun o is e his => ⟨parses_set his, ?_⟩)
      (fun t i hi => ⟨parses_unary hi.1, ?_⟩) (fun t m => ⟨parses_minimum t m, ?_⟩)
      (fun l t m hl hm => ?binary) (fun i c hi => CstItems.parses_last hi.1)
      (fun i c is hi his => CstItems.parses_cons hi.1 his) c
    case binary =>
      have hchains := Cst.chains_binary (t := t) hl.1 hm.1 hm.2
      exact ⟨parses_binary hchains, hchains⟩
    all_goals exact chains_of_height_zero rfl
  exact h.1

/-! ### What the parser accepts has a derivation -/

variable (input limits)

/-- The tokens before `rest` have a derivation of height at most `h` with the expression `e`. -/
def Reads (n h : ℕ) (ts : List Token) (e : Expr) (rest : List Token) : Prop :=
  ∃ c : Cst, c.WF ∧ c.Within limits ∧ c.depth ≤ n ∧ c.height ≤ h ∧
    c.build input limits = .ok e ∧ ts = c.yield ++ rest

/-- What is parsed is derived. -/
def Sound (parser : Parse Expr) (n h : ℕ) : Prop :=
  ∀ ts e rest, parser ts = .ok (e, rest) → Reads input limits n h ts e rest

variable {input limits}

/-- A chain whose first operand is derived is derived. -/
theorem parseTails_sound
    (hoperand : Sound input limits (parseHeight input limits (nest input limits n) g) n g)
    {first : Expr} {mid : List Token} {tails : List (BinaryOp × Span × Expr)} (wf : c.WF)
    (within : c.Within limits) (hdepth : c.depth ≤ n) (hheight : c.height ≤ g)
    (hbuild : c.build input limits = .ok first) (htails : parseTails (heightOperator (g + 1))
      (parseHeight input limits (nest input limits n) g) steps mid = .ok (tails, rest))
    (hfold : foldRight input limits first tails = .ok e)
    (hlimit : tails ≠ [] → tails.length < limits.maxDepth) :
    ∃ c' : Cst, c'.WF ∧ c'.Within limits ∧ c'.depth ≤ n ∧ c'.height ≤ g + 1 ∧
      c'.build input limits = .ok e ∧ c.yield ++ mid = c'.yield ++ rest ∧
      c'.chain (g + 1) = tails.length := by
  induction steps generalizing c first e mid tails with
  | zero =>
    cases htails
    cases hfold
    exact ⟨c, wf, within, hdepth, by omega, hbuild, rfl, Cst.chain_of_height_lt (by omega)⟩
  | succ steps ih =>
    cases mid with
    | nil =>
      cases htails
      cases hfold
      exact ⟨c, wf, within, hdepth, by omega, hbuild, rfl, Cst.chain_of_height_lt (by omega)⟩
    | cons token mid =>
      cases hop : heightOperator (g + 1) token with
      | none =>
        simp only [parseTails, hop] at htails
        cases htails
        cases hfold
        exact ⟨c, wf, within, hdepth, by omega, hbuild, rfl, Cst.chain_of_height_lt (by omega)⟩
      | some op =>
        simp only [parseTails, hop, bind_eq_ok, Prod.exists, Except.ok.injEq, Prod.mk.injEq] at htails
        obtain ⟨right, mid', hright, tails', rest', htails', rfl, rfl⟩ := htails
        obtain ⟨r, wfr, hwr, hdr, hhr, hbr, rfl⟩ := hoperand _ _ _ hright
        simp only [foldRight, bind_eq_ok] at hfold
        obtain ⟨er, hfoldr, hmake⟩ := hfold
        have hlt := hlimit (List.cons_ne_nil _ _)
        obtain ⟨m, wfm, hwm, hdm, hhm, hbm, hyield, hchain⟩ := ih wfr hwr hdr hhr hbr htails' hfoldr
          fun _ => Nat.lt_of_succ_lt hlt
        obtain ⟨hbinary, hgheight⟩ := heightOperator_eq_some.1 hop
        have htoken : token.height = g + 1 := (Token.height_of_binaryOperator hbinary).trans hgheight
        have hnode : (Cst.binary c token m).chain (g + 1) =
            ((op, token.span, right) :: tails').length := by
          rw [Cst.chain, if_pos htoken, hchain, List.length_cons]
        refine ⟨.binary c token m, ⟨wf, wfm, by omega, by omega, by omega⟩,
          ⟨within, hwm, by rw [htoken, hnode]; exact hlt⟩, max_le hdepth hdm, htoken.le, ?_, ?_,
          hnode⟩
        · simp only [Cst.build, hbuild, hbm, hbinary, bind, Except.bind]
          exact hmake
        · rw [Cst.yield, List.append_assoc, List.cons_append, ← hyield]

theorem parseChain_sound
    (hoperand : Sound input limits (parseHeight input limits (nest input limits n) g) n g) :
    Sound input limits (parseHeight input limits (nest input limits n) (g + 1)) n (g + 1) := by
  intro ts e rest h
  simp only [parseHeight, parseChain, bind_eq_ok, Prod.exists, Except.ok.injEq,
    Prod.mk.injEq] at h
  obtain ⟨first, mid, hfirst, tails, rest', htails, e', hfold, rfl, rfl⟩ := h
  obtain ⟨c, wf, within, hdepth, hheight, hbuild, rfl⟩ := hoperand _ _ _ hfirst
  have hright : foldRight input limits first tails = .ok e' ∧
      (tails ≠ [] → tails.length < limits.maxDepth) := by
    unfold rightFoldOps at hfold
    split_ifs at hfold with hempty hlong
    · obtain rfl := List.isEmpty_iff.1 hempty
      exact ⟨hfold, fun h => absurd rfl h⟩
    · split at hfold
      next => exact absurd hfold failAt_ne_ok
      next => cases hfold
    · exact ⟨hfold, fun _ => by omega⟩
  obtain ⟨c', wf', within', hdepth', hheight', hbuild', hyield, -⟩ :=
    parseTails_sound hoperand wf within hdepth hheight hbuild htails hright.1 hright.2
  exact ⟨c', wf', within', hdepth', hheight', hbuild', hyield⟩

/-- The items of a set are derived if what the parser of items reads is. -/
theorem parseItems_sound
    (hitem : Sound input limits (parseHeight input limits (nest input limits n) 7) n 7) {count : ℕ}
    {values : List Expr}
    (h : parseItems input limits (parseHeight input limits (nest input limits n) 7) steps count ts =
      .ok (values, rest)) : ∃ is : CstItems, is.WF ∧ is.Within limits ∧ is.depth ≤ n ∧
      is.build input limits = .ok values ∧ count + is.count ≤ limits.maxSetItems ∧
      ts = is.yield ++ rest := by
  induction steps generalizing count ts values rest with
  | zero => cases h
  | succ steps ih =>
    unfold parseItems at h
    split_ifs at h with hroom
    · exact absurd h errorCurrent_ne_ok
    · simp only [bind_eq_ok, Prod.exists] at h
      obtain ⟨value, mid, hvalue, h⟩ := h
      obtain ⟨i, wfi, hwi, hdi, -, hbi, rfl⟩ := hitem _ _ _ hvalue
      split_ifs at h with htypes
      · exact absurd h failAt_ne_ok
      · have hscalar : scalarItem input value = .ok value := if_pos (by simpa using htypes)
        split at h
        next htake =>
          cases h
          refine ⟨.last i none, ⟨wfi, by simp⟩, hwi, hdi, ?_, by simp [CstItems.count]; omega, ?_⟩
          · simp only [CstItems.build, hbi, hscalar, bind, Except.bind]
          · simp [CstItems.yield]
        next comma mid' htake =>
          obtain ⟨rfl, hcomma⟩ := takeSimple_eq_some htake
          split_ifs at h with hclose
          · cases h
            refine ⟨.last i (some comma), ⟨wfi, by simpa using hcomma⟩, hwi, hdi, ?_,
              by simp [CstItems.count]; omega, ?_⟩
            · simp only [CstItems.build, hbi, hscalar, bind, Except.bind]
            · simp [CstItems.yield]
          · simp only [bind_eq_ok, Prod.exists, Except.ok.injEq, Prod.mk.injEq] at h
            obtain ⟨values', rest', hvalues, rfl, rfl⟩ := h
            obtain ⟨is, wfis, hwis, hdis, hbis, hcount, rfl⟩ := ih hvalues
            refine ⟨.cons i comma is, ⟨wfi, hcomma, wfis⟩, ⟨hwi, hwis⟩, max_le hdi hdis, ?_,
              by simp only [CstItems.count]; omega, ?_⟩
            · simp only [CstItems.build, hbi, hscalar, hbis, bind, Except.bind]
            · simp [CstItems.yield]

theorem parseFieldOrBoolean_sound {first : Str} (htoken : token.kind = .identifier first)
    (hoperator : unaryOperator token = none)
    (h : parseFieldOrBoolean input first token.span ts = .ok (e, rest)) :
    Reads input limits n 0 (token :: ts) e rest := by
  unfold parseFieldOrBoolean at h
  split_ifs at h with hbool
  · cases h
    have hatom : atomExpr token =
        some (.mk (.bool (first.eqIgnoreAsciiCase "true")) .BOOL token.span) := by
      simp only [atomExpr, htoken, if_pos hbool]
    refine ⟨.atom token, ?_, trivial, Nat.zero_le _, le_rfl, ?_, rfl⟩
    · simp [Cst.WF, hatom]
    · simp [Cst.build, hatom]
  · simp only [bind_eq_ok, Prod.exists] at h
    obtain ⟨parts, stop, rest', hparts, h⟩ := h
    obtain ⟨cs, rfl, hcs, rfl, rfl⟩ := parseParts_sound hparts
    split at h
    next field hfield =>
      cases h
      refine ⟨.path token cs, ⟨?_, ?_, hoperator, hcs⟩, trivial, Nat.zero_le _, le_rfl, ?_, rfl⟩
      · simp [Token.word, htoken]
      · simp only [atomExpr, htoken, if_neg hbool]
      · have hword : token.word = some first := by simp only [Token.word, htoken]
        simp only [Cst.build, pathExpr, List.filterMap_cons, hword, hfield]
    next => exact absurd h failAt_ne_ok

/-- A group that is read is derived, if what is read one deeper is. -/
theorem parseGroup_sound (hinner : ∀ m, n = m + 1 →
      Sound input limits (parseHeight input limits (nest input limits m) 7) m 7)
    {«open» close : Token} (hopen : «open».kind = .leftParen) (hclose : close.kind = .rightParen)
    (h : (nest input limits n).or ts = .ok (e, close :: rest)) :
    Reads input limits n 0 («open» :: ts)
      (.mk e.kind e.types ⟨«open».span.start, close.span.stop⟩) rest := by
  cases n with
  | zero => exact absurd h errorCurrent_ne_ok
  | succ m =>
    obtain ⟨c, wf, within, hdepth, -, hbuild, rfl⟩ := hinner m rfl _ _ _ h
    refine ⟨.group «open» c close, ⟨hopen, wf, hclose⟩, within, Nat.succ_le_succ hdepth, le_rfl,
      ?_, by simp [Cst.yield]⟩
    simp only [Cst.build, hbuild, bind, Except.bind]

/-- A set that is read is derived, if what is read one deeper is. -/
theorem parseSet_sound (hinner : ∀ m, n = m + 1 →
      Sound input limits (parseHeight input limits (nest input limits m) 7) m 7) {«open» : Token}
    (hopen : «open».kind = .leftBracket)
    (h : parseSet input limits (nest input limits n).or «open».span ts = .ok (e, rest)) :
    Reads input limits n 0 («open» :: ts) e rest := by
  unfold parseSet at h
  split_ifs at h with hempty
  · simp only [bind_eq_ok, Prod.exists, Except.ok.injEq, Prod.mk.injEq] at h
    obtain ⟨_, _, ⟨rfl, rfl⟩, close, rest', hclose, rfl, rfl⟩ := h
    obtain ⟨rfl, hkind'⟩ := expectSimple_eq_ok hclose
    exact ⟨.emptySet «open» close, ⟨hopen, hkind'⟩, trivial, Nat.zero_le _, le_rfl, rfl, rfl⟩
  · simp only [bind_eq_ok, Prod.exists, Except.ok.injEq, Prod.mk.injEq] at h
    obtain ⟨values, mid, hvalues, close, rest', hclose, rfl, rfl⟩ := h
    obtain ⟨rfl, hkind'⟩ := expectSimple_eq_ok hclose
    cases n with
    | zero =>
      unfold parseItems at hvalues
      split_ifs at hvalues
      · exact absurd hvalues errorCurrent_ne_ok
      · obtain ⟨_, herror, -⟩ := bind_eq_ok.1 hvalues
        exact absurd herror errorCurrent_ne_ok
    | succ m =>
      obtain ⟨is, wf, within, hdepth, hbuild, hcount, rfl⟩ :=
        parseItems_sound (hinner m rfl) hvalues
      refine ⟨.set «open» is close, ⟨hopen, wf, hkind'⟩, ⟨by omega, within⟩,
        Nat.succ_le_succ hdepth, le_rfl, ?_, by simp [Cst.yield]⟩
      simp only [Cst.build, hbuild, bind, Except.bind]

/-- What `parse_primary` reads is derived, if what it reads one deeper is. -/
theorem parsePrimary_sound (hinner : ∀ m, n = m + 1 →
      Sound input limits (parseHeight input limits (nest input limits m) 7) m 7)
    (hoperator : unaryOperator token = none)
    (h : parsePrimary input limits (nest input limits n).or (token :: ts) = .ok (e, rest)) :
    Reads input limits n 0 (token :: ts) e rest := by
  have hatom : ∀ e, atomExpr token = some e → Reads input limits n 0 (token :: ts) e ts :=
    fun e he => ⟨.atom token, by simp [Cst.WF, he], trivial, Nat.zero_le _, le_rfl,
      by simp [Cst.build, he], rfl⟩
  have hend : token.kind ≠ .end := by
    intro hkind
    simp [parsePrimary, advance, hkind, bind, Except.bind] at h
    exact failAt_ne_ok h
  simp only [parsePrimary, advance, if_neg hend, bind_eq_ok, Prod.exists, Except.ok.injEq,
    Prod.mk.injEq] at h
  obtain ⟨_, _, ⟨rfl, rfl⟩, h⟩ := h
  split at h
  case h_1 _ hkind | h_3 _ hkind | h_4 _ hkind | h_5 _ hkind | h_6 hkind =>
    cases h
    exact hatom _ (by simp only [atomExpr, hkind])
  case h_7 first hkind => exact parseFieldOrBoolean_sound hkind hoperator h
  case h_8 hkind =>
    split at h
    next close rest' htake =>
      cases h
      obtain ⟨rfl, hclose⟩ := takeSimple_eq_some htake
      exact ⟨.unit token close, ⟨hkind, hclose⟩, trivial, Nat.zero_le _, le_rfl, rfl, rfl⟩
    next =>
      simp only [bind_eq_ok, Prod.exists, Except.ok.injEq, Prod.mk.injEq] at h
      obtain ⟨e', mid, hor, close, rest', hclose, rfl, rfl⟩ := h
      obtain ⟨rfl, hkind'⟩ := expectSimple_eq_ok hclose
      exact parseGroup_sound hinner hkind hkind' hor
  case h_9 hkind => exact parseSet_sound hinner hkind h
  all_goals exact absurd h failAt_ne_ok

/-- What `parse_unary` reads is derived, if what it reads one deeper is. -/
theorem parseUnary_sound (hinner : ∀ m, n = m + 1 → ∀ h,
      Sound input limits (parseHeight input limits (nest input limits m) h) m h) :
    Sound input limits (parseHeight input limits (nest input limits n) 0) n 0 := by
  intro ts e rest h
  cases ts with
  | nil => cases h
  | cons token ts =>
    cases hop : unaryOperator token with
    | none =>
      rw [parseHeight_zero hop] at h
      exact parsePrimary_sound (fun m hm => hinner m hm 7) hop h
    | some op =>
      simp only [parseHeight, parseUnary, hop] at h
      split at h
      next _ magnitude _ htake =>
        cases h
        obtain ⟨rfl, hmagnitude⟩ := takeSimple_eq_some htake
        have hminus : token.kind = .minus := by
          by_contra hne
          simp only [unaryOperator, hne, if_false] at hop
          split_ifs at hop <;> cases hop
        exact ⟨.minimum token magnitude, ⟨hminus, hmagnitude⟩, trivial, Nat.zero_le _, le_rfl, rfl,
          rfl⟩
      next =>
        simp only [bind_eq_ok, Prod.exists, Except.ok.injEq, Prod.mk.injEq] at h
        obtain ⟨e', rest', hoperand, e'', hmake, rfl, rfl⟩ := h
        cases n with
        | zero => exact absurd hoperand errorCurrent_ne_ok
        | succ m =>
          obtain ⟨c, wf, within, hdepth, hheight, hbuild, rfl⟩ := hinner m rfl 0 _ _ _ hoperand
          refine ⟨.unary token c, ⟨by simp [hop], wf, Nat.le_zero.1 hheight⟩, within,
            Nat.succ_le_succ hdepth, le_rfl, ?_, rfl⟩
          simp only [Cst.build, hbuild, hop, bind, Except.bind]
          exact hmake

/-- Whatever a height of the parser reads is derived. -/
theorem parseHeight_sound (n h : ℕ) :
    Sound input limits (parseHeight input limits (nest input limits n) h) n h := by
  induction n generalizing h with
  | zero =>
    induction h with
    | zero => exact parseUnary_sound fun m hm => absurd hm (Nat.succ_ne_zero m).symm
    | succ h ih => exact parseChain_sound ih
  | succ n ihn =>
    induction h with
    | zero =>
      refine parseUnary_sound fun m hm => ?_
      obtain rfl := Nat.succ.inj hm
      exact ihn
    | succ h ih => exact parseChain_sound ih

/-- The parser of predicates accepts what has a derivation within the limits, and returns the
expression of the derivation. -/
theorem parsePredicate_eq_ok_iff {last : Token} (hlast : last.kind = .end) :
    parsePredicate input limits (ts ++ [last]) = .ok (e, [last]) ↔
      ∃ d : Derivation ts, d.tree.Within limits ∧ d.tree.depth ≤ limits.maxDepth ∧
        d.tree.build input limits = .ok e := by
  rw [parsePredicate_eq]
  constructor
  · intro h
    obtain ⟨c, wf, within, hdepth, -, hbuild, hyield⟩ := parseHeight_sound _ _ _ _ _ h
    exact ⟨⟨c, wf, (List.append_cancel_right hyield).symm⟩, within, hdepth, hbuild⟩
  · rintro ⟨⟨c, wf, rfl⟩, within, hdepth, hbuild⟩
    exact c.parseHeight_complete _ 7 e [last] wf within hdepth hbuild c.height_le
      (.closing hlast (.inr (.inr (.inr rfl))))

end

end Awayuki.Kq
