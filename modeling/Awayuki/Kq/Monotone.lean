import Awayuki.Kq.Evaluator
import Awayuki.Library.Information

/-!
# KQ: monotonicity in the missing information

Missing is `Value.unknown` or the unknown truth value.  Every operator but `and` and `or` is
strict, and those two are Kleene's, so the value of an expression is monotone in the values of
the fields.  A boost whose original is not resolved has no value for any field of the displayed
post, so that everything known of it stays true once the original is there.
-/

namespace Awayuki.Kq

open Information

variable {t t' s s' : Truth} {v : Value}

instance : HasMissing Truth := ⟨fun t => t = .unknown⟩

instance : HasMissing Value := ⟨fun v => v = .unknown ∨ v = .bool .unknown⟩

/-! ### Truth values -/

theorem Truth.missing_iff : Missing t ↔ t = .unknown := Iff.rfl

theorem Value.missing_iff : Missing v ↔ v = .unknown ∨ v = .bool .unknown := Iff.rfl

theorem Value.missing_bool : Missing (Value.bool t) ↔ Missing t := by
  simp [Value.missing_iff, Truth.missing_iff]

theorem Value.truth_strict : Strict Value.truth := by
  rintro v (rfl | rfl) <;> rfl

theorem Value.bool_refines (h : Refines t t') : Refines (Value.bool t) (Value.bool t') := by
  rcases h with h | rfl
  · exact .of_missing (Value.missing_bool.2 h)
  · exact .refl _

theorem Truth.and_refines (hs : Refines s s') (ht : Refines t t') :
    Refines (s.and t) (s'.and t') := by
  rcases hs with rfl | rfl
  · rcases ht with rfl | rfl
    · exact Or.inl rfl
    · cases t
      case false => cases s' <;> exact .refl _
      all_goals exact Or.inl rfl
  · rcases ht with rfl | rfl
    · cases s
      case false => cases t' <;> exact .refl _
      all_goals exact Or.inl rfl
    · exact .refl _

theorem Truth.or_refines (hs : Refines s s') (ht : Refines t t') : Refines (s.or t) (s'.or t') := by
  rcases hs with rfl | rfl
  · rcases ht with rfl | rfl
    · exact Or.inl rfl
    · cases t
      case true => cases s' <;> exact .refl _
      all_goals exact Or.inl rfl
  · rcases ht with rfl | rfl
    · cases s
      case true => cases t' <;> exact .refl _
      all_goals exact Or.inl rfl
    · exact .refl _

/-! ### Operators -/

theorem evalUnary_strict (op : UnaryOp) : Strict (evalUnary op) := by
  rintro v (rfl | rfl) <;> cases op <;> simp [evalUnary, Value.missing_iff, Value.truth, Truth.not]

theorem compareNumbers_strict (compare : ℤ → ℤ → Bool) :
    Strict₂ fun v w => compareNumbers v w compare := by
  rintro v w ((rfl | rfl) | (rfl | rfl))
  any_goals exact .inr rfl
  all_goals cases v <;> exact .inr rfl

theorem textParts_of_missing (h : Missing v) : textParts v = none := by
  rcases h with rfl | rfl <;> rfl

theorem regexMatch_strict [RegexCrate] (literalRegex : Option Regex) :
    Strict₂ fun v w => regexMatch v w literalRegex := by
  rintro v w (h | h)
  · simp [regexMatch, textParts_of_missing h, Value.missing_iff]
  · cases hv : textParts v <;> simp [regexMatch, textParts_of_missing h, Value.missing_iff, hv]

section

variable [Icu]

theorem equalValues_strict : Strict₂ equalValues := by
  rintro v w ((rfl | rfl) | (rfl | rfl))
  · rfl
  · cases w <;> rfl
  · cases v <;> rfl
  · cases v <;> simp [equalValues, Truth.missing_iff]

theorem compareText_strict (compare : Str → Str → Bool) :
    Strict₂ fun v w => compareText v w compare := by
  rintro v w (h | h)
  · simp [compareText, textParts_of_missing h, Value.missing_iff]
  · cases hv : textParts v <;> simp [compareText, textParts_of_missing h, Value.missing_iff, hv]

theorem contains_strict : Strict₂ contains := by
  rintro v w ((rfl | rfl) | (rfl | rfl))
  · simp [contains, Value.missing_iff]
  · cases w <;> simp [contains, Value.missing_iff]
  · simp [contains, Value.missing_iff]
  · cases v <;> simp [contains, Value.missing_iff, Value.intoScalar]

theorem isIn_strict : Strict₂ isIn := by
  rintro v w ((rfl | rfl) | (rfl | rfl))
  · simp [isIn, Value.missing_iff]
  · cases w <;> simp [isIn, Value.missing_iff, Value.intoScalar]
  · simp [isIn, Value.missing_iff]
  · cases v <;> simp [isIn, Value.missing_iff]

theorem arithmetic_strict : ∀ op ∈ [add, subtract, multiply, divide], Strict₂ op := by
  simp only [List.mem_cons, List.not_mem_nil, or_false]
  rintro op (rfl | rfl | rfl | rfl) v w ((rfl | rfl) | (rfl | rfl))
  any_goals exact .inl rfl
  all_goals cases v <;> exact .inl rfl

variable [RegexCrate]

/-- Every operator but `and` and `or` needs both operands. -/
theorem binaryValue_strict {op : BinaryOp} (hand : op ≠ .and) (hor : op ≠ .or)
    (literalRegex : Option Regex) : Strict₂ (binaryValue op literalRegex) := by
  intro v w h
  have hequal : equalValues v w = .unknown := equalValues_strict v w h
  cases op
  case and => exact absurd rfl hand
  case or => exact absurd rfl hor
  case equal => exact .inr (congrArg Value.bool hequal)
  case notEqual => simp [binaryValue, hequal, Truth.not, Value.missing_iff]
  case less | lessEqual | greater | greaterEqual => exact compareNumbers_strict _ v w h
  case startsWith | endsWith => exact compareText_strict _ v w h
  case contains => exact contains_strict v w h
  case «in» => exact isIn_strict v w h
  case regex => exact regexMatch_strict literalRegex v w h
  case add => exact arithmetic_strict add (by simp) v w h
  case subtract => exact arithmetic_strict subtract (by simp) v w h
  case multiply => exact arithmetic_strict multiply (by simp) v w h
  case divide => exact arithmetic_strict divide (by simp) v w h

/-! ### Expressions -/

variable {fields fields' : Field → Value}

theorem evalSet_refines {items : List Expr}
    (h : ∀ e ∈ items, Refines (evalWith fields e) (evalWith fields' e))
    (values : List ScalarValue) :
    Refines (evalSet fields values items) (evalSet fields' values items) := by
  induction items generalizing values with
  | nil => exact .refl _
  | cons item items ih =>
    have hitems := ih fun e he => h e (List.mem_cons_of_mem _ he)
    rcases h item List.mem_cons_self with hmissing | heq
    · refine .of_missing (.inl ?_)
      rcases hmissing with hv | hv <;> simp [evalSet, hv]
    · simp only [evalSet, ← heq]
      cases evalWith fields item <;> first | exact hitems _ | exact .refl _

/-- The value of an expression is monotone in the values of the fields. -/
theorem evalWith_refines (h : ∀ f, Refines (fields f) (fields' f)) (e : Expr) :
    Refines (evalWith fields e) (evalWith fields' e) := by
  induction e using Expr.induct with
  | bool | number | text | identity => exact .refl _
  | set items t s ih => exact evalSet_refines ih []
  | field f => exact h f
  | unary op e t s ih => exact (evalUnary_strict op).refines ih
  | binary op l r re t s ihl ihr =>
    rw [evalWith_binary, evalWith_binary]
    by_cases hand : op = .and
    · subst hand
      exact Value.bool_refines (Truth.and_refines (Value.truth_strict.refines ihl)
        (Value.truth_strict.refines ihr))
    by_cases hor : op = .or
    · subst hor
      exact Value.bool_refines (Truth.or_refines (Value.truth_strict.refines ihl)
        (Value.truth_strict.refines ihr))
    exact (binaryValue_strict hand hor re).refines ihl ihr

end

/-! ### Resolving the original of a boost -/

section

variable [Icu] [SerdeJson]

/-- `context'` knows more than `context` of a boost: its original, the status that one quotes, the
accounts' states of it, and perhaps more keys of the conversations asked for. -/
structure ResolvesBoost (context context' : EvaluationContext) : Prop where
  boost : context.wrapper.status.reblogOfId.isSome
  unresolved : context.effective = none
  wrapper : context'.wrapper = context.wrapper
  loginAccounts : context'.loginAccounts = context.loginAccounts
  memberships : context'.memberships = context.memberships
  conversationKeys : context.conversationKeys ⊆ context'.conversationKeys

namespace ResolvesBoost

variable {context context' : EvaluationContext} (h : ResolvesBoost context context')

include h

omit [Icu] [SerdeJson] in
theorem effectiveStatus_eq : effectiveStatus context = none := by
  simp [effectiveStatus, h.unresolved]

theorem fieldValue_refines (field : Field) (branch : SourceBranch) :
    Refines (fieldValue field context branch) (fieldValue field context' branch) := by
  cases field
  case boost | ourAccounts =>
    exact .of_eq (by simp [fieldValue, ourAccounts, h.wrapper, h.loginAccounts])
  case boosterId | boosterUsername | boosterAcct | boosterDisplayName | boosterNote
      | boosterLocked | boosterBot | boosterFollowers | boosterFollowing | boosterStatuses
      | boosterDomain =>
    exact .of_eq (by simp only [fieldValue, boosterFieldValue, h.wrapper])
  case quoteId | quoteUrl | quoteText | quoteAuthorAcct =>
    exact .of_missing (.inl (by simp [fieldValue, quoteFieldValue, h.effectiveStatus_eq]))
  case viewerFavourited | viewerReblogged | viewerMuted | viewerBookmarked | viewerPinned =>
    refine .of_missing (.inr ?_)
    cases branch.viewerAccountAcct <;>
      simp [fieldValue, viewerFieldValue, viewerSelector, viewerState, viewerRow,
        h.effectiveStatus_eq]
  all_goals
    exact .of_missing (.inl (by simp [fieldValue, effectiveFieldValue, h.effectiveStatus_eq]))

omit [SerdeJson] in
theorem membershipMatches_eq (timelineType : Str) (acct parameter : Option Str) :
    membershipMatches context' timelineType acct parameter =
      membershipMatches context timelineType acct parameter := by
  simp only [membershipMatches, h.memberships]

omit [Icu] [SerdeJson] in
theorem containsStatusKey_mono {key : StatusKey}
    (hkey : containsStatusKey context.conversationKeys key = true) :
    containsStatusKey context'.conversationKeys key = true := by
  obtain ⟨k, hk, hkey⟩ := List.any_eq_true.1 hkey
  exact List.any_eq_true.2 ⟨k, h.conversationKeys hk, hkey⟩

/-- An account source that looks at the displayed post does not match an unresolved boost; the
others only look at the memberships. -/
theorem accountSourceMatches_eq {kind : SourceKind} {account : LoginAccountIdentity}
    (hm : accountSourceMatches kind context account = true) :
    ∀ account, accountSourceMatches kind context' account =
      accountSourceMatches kind context account := by
  cases kind
  case home | «public» | localPublic =>
    intro account
    simp only [accountSourceMatches, h.membershipMatches_eq]
  case bookmarks | favourites =>
    simp [accountSourceMatches, viewerState, viewerRow, h.effectiveStatus_eq] at hm
  all_goals
    simp [accountSourceMatches, mentionsLoginAccount, h.effectiveStatus_eq] at hm

theorem accountSourceBranches_subset (source : SourceSpec) :
    accountSourceBranches source context ⊆ accountSourceBranches source context' := by
  by_cases hm : ∃ account, accountSourceMatches source.kind context account = true
  · obtain ⟨account, hm⟩ := hm
    have heq : accountSourceMatches source.kind context' =
        accountSourceMatches source.kind context :=
      funext (h.accountSourceMatches_eq hm)
    simp [accountSourceBranches, matchingLoginAccounts, heq, h.loginAccounts]
  · have hempty : matchingLoginAccounts source context = [] := by
      rw [matchingLoginAccounts, Keyed.firsts_eq_nil, List.filter_eq_nil_iff]
      exact fun account _ hacc => hm ⟨account, hacc⟩
    simp [accountSourceBranches, hempty, collapseImplicitAccountScopes]

theorem textSourceBranches_eq_nil (source : SourceSpec) (broad : Bool) :
    textSourceBranches source context broad = [] := by
  simp [textSourceBranches, textArgumentMatches, h.effectiveStatus_eq]

/-- Resolving the original adds branches and removes none. -/
theorem sourceBranches_subset (source : SourceSpec) :
    sourceBranches source context ⊆ sourceBranches source context' := by
  cases hkind : source.kind <;> simp only [sourceBranches, hkind]
  case search | track => simp [h.textSourceBranches_eq_nil]
  case conversation =>
    simp only [conversationSourceMatches, h.unresolved, h.wrapper, Option.any_none, Bool.or_false]
    cases hkeys : containsStatusKey context.conversationKeys (statusKey context.wrapper.status)
    · simp [unscopedBranch]
    · simp [h.containsStatusKey_mono hkeys]
  case user =>
    have heq : authorMatchesSelector context' = authorMatchesSelector context := by
      funext selector
      simp [authorMatchesSelector, h.wrapper]
    simp [heq]
  case hashtag =>
    have heq : hashtagSourceBranches context' = hashtagSourceBranches context := by
      funext tag
      simp [hashtagSourceBranches, h.memberships, h.loginAccounts]
    simp [heq]
  case list =>
    have heq : listArgumentBranches context' = listArgumentBranches context := by
      funext argument
      simp [listArgumentBranches, h.membershipMatches_eq, h.loginAccounts]
    simp [listSourceBranches, heq]
  case «local» => exact fun _ hb => hb
  all_goals exact h.accountSourceBranches_subset source

end ResolvesBoost

variable [RegexCrate]

/-- Refining the fields refines every expression; and a boost that matches before its original is
resolved matches after. -/
theorem matches_monotone :
    (∀ (fields fields' : Field → Value), (∀ f, Refines (fields f) (fields' f)) →
      ∀ e, Refines (evalWith fields e) (evalWith fields' e)) ∧
    ∀ (sources : List SourceSpec) (predicate : Expr) (context context' : EvaluationContext),
      ResolvesBoost context context' → Evaluator.matches sources predicate context = true →
        Evaluator.matches sources predicate context' = true := by
  refine ⟨fun fields fields' h => evalWith_refines h, ?_⟩
  intro sources predicate context context' h hm
  obtain ⟨source, hsource, branch, hbranch, htrue⟩ := Evaluator.matches_iff.1 hm
  refine Evaluator.matches_iff.2
    ⟨source, hsource, branch, h.sourceBranches_subset source hbranch, ?_⟩
  have hrefines : Refines (eval predicate context branch) (eval predicate context' branch) :=
    evalWith_refines (fun field => h.fieldValue_refines field branch) predicate
  have htruth := (Value.truth_strict.refines hrefines).eq (by simp [htrue, Truth.missing_iff])
  rw [← htruth, htrue]

end

section

attribute [local instance] asciiIcu rejectingJson noRegex

/-- A boost, known before and after its original is. -/
theorem matches_monotone_boost :
    let post := DbStatus.plain "1" "a.test" "7"
    let boost : StatusView := ⟨{ post with id := "2", reblogOfId := some "1" }, none⟩
    let before : EvaluationContext := ⟨boost, none, none, [], [], [], []⟩
    let after := { before with effective := some ⟨post, none⟩ }
    let predicate : Expr := .mk (.field .boost) .BOOL ⟨0, 0⟩
    Refines (evalWith (fun _ => .unknown) predicate) (evalWith (fun _ => .number 3) predicate) ∧
      Evaluator.matches [⟨.local, [], ⟨0, 0⟩⟩] predicate after = true := by
  intro post boost before after predicate
  exact ⟨matches_monotone.1 _ _ (fun _ => .of_missing (.inl rfl)) _,
    matches_monotone.2 _ _ before after ⟨rfl, rfl, rfl, rfl, rfl, fun _ h => h⟩ (by decide)⟩

end

end Awayuki.Kq
