import Awayuki.Kq.Evaluator

/-!
# KQ: one viewer at a time

A branch shows the `viewer` fields of the one login account it names, if it names any.  Two
contexts that differ only in the states of accounts that no branch names give the same answer to
every query.  Accounts are compared as the evaluator compares them, by `selectorEqual`: compared
letter by letter the statement fails.
-/

namespace Awayuki.Kq

section

variable [Icu] [SerdeJson]

/-! ### Two contexts -/

/-- Some branch of the sources shows the `viewer` fields of `acct`. -/
def SelectsViewer (sources : List SourceSpec) (context : EvaluationContext) (acct : Str) : Prop :=
  ∃ source ∈ sources, ∃ branch ∈ sourceBranches source context,
    branch.viewerAccountAcct = some acct

/-- The contexts differ only in the states recorded for accounts that are the `same` as none that
a branch selects, in the one context or in the other. -/
structure DifferInUnselectedStates (same : Str → Str → Bool) (sources : List SourceSpec)
    (context context' : EvaluationContext) : Prop where
  wrapper : context'.wrapper = context.wrapper
  effective : context'.effective = context.effective
  quote : context'.quote = context.quote
  loginAccounts : context'.loginAccounts = context.loginAccounts
  memberships : context'.memberships = context.memberships
  conversationKeys : context'.conversationKeys = context.conversationKeys
  selectedStates : ∀ acct,
    SelectsViewer sources context acct ∨ SelectsViewer sources context' acct →
      (context'.viewerStates.filter fun state => same state.loginAccountAcct acct) =
        context.viewerStates.filter fun state => same state.loginAccountAcct acct

namespace DifferInUnselectedStates

variable {sources : List SourceSpec} {context context' : EvaluationContext}
  (h : DifferInUnselectedStates selectorEqual sources context context')

include h

/-- The states of a selected account are the same. -/
theorem viewerRow_eq {acct : Str}
    (hacct : SelectsViewer sources context acct ∨ SelectsViewer sources context' acct) :
    viewerRow context' (some acct) = viewerRow context (some acct) := by
  simp only [viewerRow, effectiveStatus_congr h.effective]
  cases effectiveStatus context with
  | none => rfl
  | some subject =>
    have hsplit : ∀ states : List DbStatusViewerState,
        states.filter (isStateOf acct subject) =
          (states.filter fun state => selectorEqual state.loginAccountAcct acct).filter
            fun state => state.statusId == subject.id &&
              state.serverDomain.eqIgnoreAsciiCase subject.serverDomain := by
      intro states
      rw [List.filter_filter]
      refine List.filter_congr fun state _ => ?_
      rw [isStateOf, Bool.and_assoc, Bool.and_comm]
    simp only [hsplit, h.selectedStates acct hacct]

/-- `bookmarks` and `favourites` do look at the states, but only to select accounts: one that is
selected in either context is selected in both. -/
theorem matchingLoginAccounts_eq {source : SourceSpec} (hsource : source ∈ sources)
    (hkind : source.kind = .bookmarks ∨ source.kind = .favourites) :
    matchingLoginAccounts source context' = matchingLoginAccounts source context := by
  have hselects : ∀ c account, account ∈ matchingLoginAccounts source c →
      SelectsViewer sources c account.acct := by
    intro c account hmem
    refine ⟨source, hsource, ⟨some account.acct⟩, ?_, rfl⟩
    have hbranch : (⟨some account.acct⟩ : SourceBranch) ∈ accountSourceBranches source c := by
      simp only [accountSourceBranches, hkind, if_true]
      exact List.mem_map.2 ⟨account, hmem, rfl⟩
    rcases hkind with hkind | hkind <;> simpa only [sourceBranches, hkind] using hbranch
  have heq : ∀ account,
      account ∈ matchingLoginAccounts source context ∨
          account ∈ matchingLoginAccounts source context' →
        accountSourceMatches source.kind context' account =
          accountSourceMatches source.kind context account := by
    intro account hmem
    have hrow := h.viewerRow_eq (hmem.imp (hselects _ _) (hselects _ _))
    rcases hkind with hkind | hkind <;>
      simp only [hkind, accountSourceMatches, viewerState, hrow]
  have hmatch : ∀ c account, account ∈ matchingLoginAccounts source c →
      accountSourceMatches source.kind c account = true := fun c account hmem =>
    (List.mem_filter.1 (Keyed.mem_of_mem_firsts hmem)).2
  have hlogins : selectedLoginAccounts source.arguments context'.loginAccounts =
      selectedLoginAccounts source.arguments context.loginAccounts := by rw [h.loginAccounts]
  simp only [matchingLoginAccounts, hlogins] at heq hmatch ⊢
  refine Keyed.firsts_filter_congr _ (fun account hmem => ?_) (fun account hmem => ?_)
  · rw [← heq account (.inr hmem)]
    exact hmatch context' account (by simpa only [hlogins] using hmem)
  · rw [heq account (.inl hmem)]
    exact hmatch context account hmem

theorem sourceBranches_eq {source : SourceSpec} (hsource : source ∈ sources) :
    sourceBranches source context' = sourceBranches source context :=
  sourceBranches_congr h.wrapper h.effective (fun _ => h.loginAccounts) (fun _ => h.memberships)
    (fun _ => h.conversationKeys) (h.matchingLoginAccounts_eq hsource)

/-! ### The fields -/

theorem fieldValue_eq {source : SourceSpec} (hsource : source ∈ sources) {branch : SourceBranch}
    (hbranch : branch ∈ sourceBranches source context) (field : Field) :
    fieldValue field context' branch = fieldValue field context branch := by
  have heffective : effectiveFieldValue field context' = effectiveFieldValue field context := by
    simp only [effectiveFieldValue, effectiveStatus_congr h.effective, authorAccount_congr h.effective]
  have hbooster : boosterFieldValue field context' = boosterFieldValue field context := by
    simp only [boosterFieldValue, h.wrapper]
  have hquote : quoteFieldValue field context' = quoteFieldValue field context := by
    simp only [quoteFieldValue, effectiveStatus_congr h.effective, h.quote]
  have hviewer : viewerFieldValue field context' branch = viewerFieldValue field context branch := by
    have hrow : viewerRow context' branch.viewerAccountAcct =
        viewerRow context branch.viewerAccountAcct := by
      cases hacct : branch.viewerAccountAcct with
      | none => rfl
      | some acct => exact h.viewerRow_eq (.inl ⟨source, hsource, branch, hbranch, hacct⟩)
    simp only [viewerFieldValue, viewerState, hrow]
  simp only [fieldValue, ourAccounts, heffective, hbooster, hquote, hviewer, h.wrapper,
    h.loginAccounts]

theorem matches_eq [RegexCrate] (predicate : Expr) :
    Evaluator.matches sources predicate context' =
      Evaluator.matches sources predicate context := by
  rw [Bool.eq_iff_iff, Evaluator.matches_iff, Evaluator.matches_iff]
  refine exists_congr fun source => and_congr_right fun hsource => ?_
  rw [h.sourceBranches_eq hsource]
  refine exists_congr fun branch => and_congr_right fun hbranch => ?_
  have hfields : (fun field => fieldValue field context' branch) =
      fun field => fieldValue field context branch :=
    funext (h.fieldValue_eq hsource hbranch)
  rw [eval, eval, hfields]

end DifferInUnselectedStates

/-! ### One row -/

omit [SerdeJson] in
theorem mem_viewerRow {context : EvaluationContext} {viewerAccountAcct : Option Str}
    {state : DbStatusViewerState} (h : state ∈ viewerRow context viewerAccountAcct) :
    state ∈ context.viewerStates ∧ ∃ acct,
      viewerAccountAcct = some acct ∧ selectorEqual state.loginAccountAcct acct := by
  unfold viewerRow at h
  split at h
  next acct subject hsubject =>
    split at h
    next row hrows =>
      obtain rfl : row = state := by simpa using h
      have hmem : row ∈ context.viewerStates.filter (isStateOf acct subject) := by simp [hrows]
      obtain ⟨hmem, hof⟩ := List.mem_filter.1 hmem
      simp only [isStateOf, Bool.and_eq_true] at hof
      exact ⟨hmem, acct, rfl, hof.1.1⟩
    next => simp at h
  next => simp at h

theorem fieldValue_of_viewerSelector {field : Field} {select : DbStatusViewerState → Option Bool}
    (h : viewerSelector field = some select) (context : EvaluationContext)
    (branch : SourceBranch) : fieldValue field context branch =
      .bool (viewerState context branch.viewerAccountAcct select) := by
  have hviewer : viewerFieldValue field context branch =
      .bool (viewerState context branch.viewerAccountAcct select) := by
    rw [viewerFieldValue, h]
  cases field
  case viewerFavourited | viewerReblogged | viewerMuted | viewerBookmarked | viewerPinned =>
    exact hviewer
  all_goals simp [viewerSelector] at h

end

/-! ### Accounts whose names differ in case only -/

section

attribute [local instance] asciiIcu rejectingJson noRegex

/-- A post in the home timeline of `alice@a.test`, with what she and others recorded of it. -/
def homePost (states : List DbStatusViewerState) : EvaluationContext where
  wrapper := ⟨.plain "1" "a.test" "7", none⟩
  effective := some ⟨.plain "1" "a.test" "7", none⟩
  quote := none
  loginAccounts := [⟨"alice@a.test", "a.test", "7", "Alice", "mastodon", true⟩,
    ⟨"Alice@a.test", "a.test", "8", "Alice", "mastodon", true⟩]
  memberships := [⟨"home", "alice@a.test", none⟩]
  viewerStates := states
  conversationKeys := []

def favouritedBy (acct : Str) (favourited : Option Bool) : DbStatusViewerState :=
  ⟨acct, "1", "a.test", favourited, none, none, none, none⟩

def fromHome : SourceSpec := ⟨.home, [], ⟨5, 9⟩⟩

theorem selectsViewer_homePost {states : List DbStatusViewerState} {acct : Str}
    (h : SelectsViewer [fromHome] (homePost states) acct) : acct = "alice@a.test".toList := by
  have hbranches : sourceBranches fromHome (homePost states) = [⟨some "alice@a.test"⟩] := rfl
  simpa [SelectsViewer, hbranches, eq_comm] using h

end

end Awayuki.Kq
