import Awayuki.Kq.Typing

/-!
# KQ: the height of a predicate

`max_depth` limits two things by themselves: how deep groups, sets and prefix operators are nested,
and how long a chain of operators of one height is.  A chain adds its length to the height of the
predicate, and each of the seven heights may add one at each depth of nesting.

* `Expr.astHeight`: the height of the tree, which every recursion over it has as its depth;
* `Cst.astHeight_le`: what the nesting and the chains of a derivation add up to.
-/

namespace Awayuki.Kq

/-! ### Heights -/

mutual

/-- The number of steps from the root of the tree to its deepest leaf. -/
def Expr.astHeight : Expr → ℕ
  | .mk (.set items) _ _ => itemsHeight items
  | .mk (.unary _ operand) _ _ => operand.astHeight + 1
  | .mk (.binary _ left right _) _ _ => max left.astHeight right.astHeight + 1
  | _ => 0

/-- That of a set: it is a leaf when it has no items. -/
def itemsHeight : List Expr → ℕ
  | [] => 0
  | item :: items => max (item.astHeight + 1) (itemsHeight items)

end

/-- What one depth of nesting may add, with its group, set or prefix operator. -/
def depthHeight (limits : QueryLimits) : ℕ := 7 * (limits.maxDepth - 1) + 1

/-! ### Built expressions -/

variable {input : Str} {limits : QueryLimits} {e : Expr} {span : Span} {t : Token}

theorem astHeight_makeUnary {op : UnaryOp} {operand : Expr}
    (h : makeUnary input op operand span = .ok e) : e.astHeight = operand.astHeight + 1 := by
  unfold makeUnary at h
  split_ifs at h
  · cases h
    rw [Expr.astHeight]
  · exact absurd h failAt_ne_ok

theorem astHeight_atomExpr {token : Token} (h : atomExpr token = some e) : e.astHeight = 0 := by
  unfold atomExpr at h
  split at h
  case h_6 =>
    split_ifs at h
    cases h
    rfl
  all_goals cases h; try rfl

theorem astHeight_makeBinary [RegexCrate] {op : BinaryOp} {left right : Expr}
    (h : makeBinary input limits op left right span = .ok e) :
    e.astHeight = max left.astHeight right.astHeight + 1 := by
  unfold makeBinary at h
  split at h
  · exact absurd h failAt_ne_ok
  · dsimp only at h
    split at h
    · obtain ⟨regex, -, h⟩ := bind_eq_ok.1 h
      cases h
      rw [Expr.astHeight]
    · cases h
      rw [Expr.astHeight]

/-! ### Derivations -/

/-- What the chains of a derivation add at its depth, those of the heights up to `g`. -/
def Cst.chainHeight (limits : QueryLimits) (g : ℕ) (c : Cst) : ℕ :=
  c.chain g + (g - 1) * (limits.maxDepth - 1)

variable {c : Cst}

theorem Cst.chain_le (hwithin : c.Within limits) : c.chain c.height ≤ limits.maxDepth - 1 := by
  cases c with
  | binary l t r => exact Nat.le_sub_one_of_lt hwithin.2.2
  | _ => exact Nat.zero_le _

theorem Cst.chain_of_height_eq_zero (wf : c.WF) (h : c.height = 0) : c.chain 0 = 0 := by
  cases c with
  | binary l t r => exact absurd h (Nat.ne_of_gt wf.2.2.1)
  | _ => rfl

/-- A higher chain leaves room for all the lower ones. -/
theorem Cst.chainHeight_mono (wf : c.WF) (hwithin : c.Within limits) {g : ℕ} (hg : c.height ≤ g)
    (hpos : 0 < g) : c.chainHeight limits c.height ≤ c.chainHeight limits g := by
  unfold chainHeight
  by_cases hzero : c.height = 0
  · rw [hzero, c.chain_of_height_eq_zero wf hzero]
    omega
  rcases Nat.lt_or_ge c.height g with hlt | hge
  · have hchain := c.chain_le hwithin
    have hstep : (c.height - 1) * (limits.maxDepth - 1) + (limits.maxDepth - 1) ≤
        (g - 1) * (limits.maxDepth - 1) := by
      rw [← Nat.succ_mul]
      exact Nat.mul_le_mul_right _ (by omega)
    omega
  · obtain rfl : c.height = g := le_antisymm hg hge
    exact le_refl _

section

variable [RegexCrate]

/-- The height of a derivation's expression, when the chains and the sets are within the limits. -/
def Cst.Bounded (input : Str) (limits : QueryLimits) (c : Cst) : Prop :=
  ∀ e, c.WF → c.Within limits → c.build input limits = .ok e →
    e.astHeight ≤ c.chainHeight limits c.height + c.depth * depthHeight limits

def CstItems.Bounded (input : Str) (limits : QueryLimits) (items : CstItems) : Prop :=
  ∀ values, items.WF → items.Within limits → items.build input limits = .ok values →
    itemsHeight values ≤ (items.depth + 1) * depthHeight limits

/-- Inside of a group or of a set: every height may add its longest chain. -/
theorem Cst.Bounded.nested (hc : c.Bounded input limits) (wf : c.WF) (hwithin : c.Within limits)
    (hbuild : c.build input limits = .ok e) :
    e.astHeight + 1 ≤ (c.depth + 1) * depthHeight limits := by
  have hheight := hc e wf hwithin hbuild
  have hchain := c.chain_le hwithin
  have hseven := c.height_le
  have hmul : (c.height - 1) * (limits.maxDepth - 1) ≤ 6 * (limits.maxDepth - 1) :=
    Nat.mul_le_mul_right _ (by omega)
  have hdepth : (c.depth + 1) * depthHeight limits =
      c.depth * depthHeight limits + depthHeight limits := Nat.succ_mul _ _
  have hone : depthHeight limits = 7 * (limits.maxDepth - 1) + 1 := rfl
  unfold chainHeight at hheight
  omega

theorem Cst.bounded_of_astHeight_zero (h : ∀ e, c.build input limits = .ok e → e.astHeight = 0) :
    c.Bounded input limits := by
  intro e _ _ hbuild
  rw [h e hbuild]
  exact Nat.zero_le _

theorem Cst.bounded_unary {i : Cst} (hi : i.Bounded input limits) :
    (Cst.unary t i).Bounded input limits := by
  intro e wf hwithin hbuild
  rw [Cst.build] at hbuild
  obtain ⟨operand, hoperand, hbuild⟩ := bind_eq_ok.1 hbuild
  split at hbuild
  next op hop =>
    rw [astHeight_makeUnary hbuild]
    have hnested := hi.nested wf.2.1 hwithin hoperand
    exact le_trans hnested (Nat.le_add_left _ _)
  next => cases hbuild

/-- An operator adds one to its chain. -/
theorem Cst.bounded_binary {l r : Cst} (hl : l.Bounded input limits) (hr : r.Bounded input limits) :
    (Cst.binary l t r).Bounded input limits := by
  intro e wf hwithin hbuild
  obtain ⟨wfl, wfr, hpos, hleft, hright⟩ := wf
  obtain ⟨withinl, withinr, -⟩ := hwithin
  rw [Cst.build] at hbuild
  obtain ⟨left, hbuildl, hbuild⟩ := bind_eq_ok.1 hbuild
  obtain ⟨right, hbuildr, hbuild⟩ := bind_eq_ok.1 hbuild
  split at hbuild
  next op hop =>
    rw [astHeight_makeBinary hbuild]
    have hheight : (Cst.binary l t r).height = t.height := rfl
    have hchain : (Cst.binary l t r).chain t.height = r.chain t.height + 1 := if_pos rfl
    have hchainl : l.chain t.height = 0 := l.chain_of_height_lt hleft
    have hmonol := l.chainHeight_mono wfl withinl hleft.le hpos
    have hmonor := r.chainHeight_mono wfr withinr hright hpos
    have hbl := hl left wfl withinl hbuildl
    have hbr := hr right wfr withinr hbuildr
    have hdepthl : l.depth * depthHeight limits ≤ (Cst.binary l t r).depth * depthHeight limits :=
      Nat.mul_le_mul_right _ (le_max_left _ _)
    have hdepthr : r.depth * depthHeight limits ≤ (Cst.binary l t r).depth * depthHeight limits :=
      Nat.mul_le_mul_right _ (le_max_right _ _)
    rw [hheight]
    unfold chainHeight at *
    rw [hchain]
    rw [hchainl] at hmonol
    omega
  next => cases hbuild

/-- Every derivation's expression is that high at most: by induction over the derivation, each
operator adding one to its chain and each nesting making room for seven more chains. -/
theorem Cst.bounded (c : Cst) : c.Bounded input limits := by
  refine Cst.induct (P := fun c => c.Bounded input limits)
    (Q := fun items => items.Bounded input limits) ?atom ?path ?unit ?group ?emptySet ?set ?unary
    ?minimum ?binary ?last ?cons c
  case atom =>
    refine fun t => Cst.bounded_of_astHeight_zero fun e hbuild => ?_
    rw [Cst.build] at hbuild
    split at hbuild
    next e' he =>
      cases hbuild
      exact astHeight_atomExpr he
    next => cases hbuild
  case path =>
    refine fun t ps => Cst.bounded_of_astHeight_zero fun e hbuild => ?_
    rw [Cst.build, pathExpr] at hbuild
    split at hbuild
    · cases hbuild
      rfl
    · exact absurd hbuild failAt_ne_ok
  case unit =>
    refine fun o c => Cst.bounded_of_astHeight_zero fun e hbuild => ?_
    cases hbuild
    rfl
  case emptySet =>
    refine fun o c => Cst.bounded_of_astHeight_zero fun e hbuild => ?_
    cases hbuild
    rfl
  case minimum =>
    refine fun t m => Cst.bounded_of_astHeight_zero fun e hbuild => ?_
    cases hbuild
    rfl
  case group =>
    intro o i c hi e wf hwithin hbuild
    rw [Cst.build] at hbuild
    obtain ⟨inner, hinner, hbuild⟩ := bind_eq_ok.1 hbuild
    cases hbuild
    have hsame : (Expr.mk inner.kind inner.types ⟨o.span.start, c.span.stop⟩).astHeight =
        inner.astHeight := by
      obtain ⟨kind, types, span⟩ := inner
      cases kind <;> rfl
    rw [hsame]
    have hnested := hi.nested wf.2.1 hwithin hinner
    exact le_trans (Nat.le_of_succ_le hnested) (Nat.le_add_left _ _)
  case set =>
    intro o is c his e wf hwithin hbuild
    rw [Cst.build] at hbuild
    obtain ⟨values, hvalues, hbuild⟩ := bind_eq_ok.1 hbuild
    cases hbuild
    rw [Expr.astHeight]
    exact le_trans (his values wf.2.1 hwithin.2 hvalues) (Nat.le_add_left _ _)
  case unary => exact fun t i hi => Cst.bounded_unary hi
  case binary => exact fun l t r hl hr => Cst.bounded_binary hl hr
  case last =>
    intro i comma hi values wf hwithin hbuild
    rw [CstItems.build] at hbuild
    obtain ⟨value, hvalue, hbuild⟩ := bind_eq_ok.1 hbuild
    obtain ⟨value', hscalar, hbuild⟩ := bind_eq_ok.1 hbuild
    cases hbuild
    rw [← (scalarItem_eq_ok hscalar).2, itemsHeight, itemsHeight, max_eq_left (Nat.zero_le _)]
    exact hi.nested wf.1 hwithin hvalue
  case cons =>
    intro i comma is hi his values wf hwithin hbuild
    rw [CstItems.build] at hbuild
    obtain ⟨value, hvalue, hbuild⟩ := bind_eq_ok.1 hbuild
    obtain ⟨value', hscalar, hbuild⟩ := bind_eq_ok.1 hbuild
    obtain ⟨rest, hrest, hbuild⟩ := bind_eq_ok.1 hbuild
    cases hbuild
    rw [← (scalarItem_eq_ok hscalar).2, itemsHeight]
    have hfirst := hi.nested wf.1 hwithin.1 hvalue
    have hothers := his rest wf.2.2 hwithin.2 hrest
    have hdepthi : (i.depth + 1) * depthHeight limits ≤
        ((CstItems.cons i comma is).depth + 1) * depthHeight limits :=
      Nat.mul_le_mul_right _ (Nat.succ_le_succ (le_max_left _ _))
    have hdepthis : (is.depth + 1) * depthHeight limits ≤
        ((CstItems.cons i comma is).depth + 1) * depthHeight limits :=
      Nat.mul_le_mul_right _ (Nat.succ_le_succ (le_max_right _ _))
    exact max_le (le_trans hfirst hdepthi) (le_trans hothers hdepthis)

/-! ### Queries -/

end

/-! ### Three chains of one operator -/

section

attribute [local instance] asciiCharTable noRegex

def sampleLimits : QueryLimits := { QueryLimits.default with maxDepth := 2 }

def sampleText : Str := "where true == true & true | true"

theorem sampleText_compiles : ∃ query,
    compileQueryWithLimits sampleText sampleLimits = .ok query ∧
      query.predicate.astHeight = 3 := by
  have hheight : (compileQueryWithLimits sampleText sampleLimits).toOption.map
      (·.predicate.astHeight) = some 3 := by decide +kernel
  cases hcompile : compileQueryWithLimits sampleText sampleLimits with
  | error e =>
    rw [hcompile] at hheight
    cases hheight
  | ok query =>
    rw [hcompile] at hheight
    exact ⟨query, rfl, Option.some.inj hheight⟩

end

end Awayuki.Kq
