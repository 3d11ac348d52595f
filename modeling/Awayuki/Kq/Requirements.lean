import Awayuki.Kq.Hydration

/-!
# KQ: requirements of a query

`query_requirements` walks over the sources and the fields of a query and notes which parts of the
contexts it can look at; `query_statuses` loads these only.  A query gives the same answer with
everything loaded.
-/

namespace Awayuki.Kq

/-! ### The walk -/

mutual

/-- `visit_fields`: the fields in the order of the visits. -/
def visitFields : Expr → List Field
  | .mk kind _ _ => visitKindFields kind

def visitKindFields : ExprKind → List Field
  | .field field => [field]
  | .set items => visitItemsFields items
  | .unary _ operand => visitFields operand
  | .binary _ left right _ => visitFields left ++ visitFields right
  | .bool _ | .number _ | .text _ | .identity _ => []

def visitItemsFields : List Expr → List Field
  | [] => []
  | item :: items => visitFields item ++ visitItemsFields items

end

theorem visitItemsFields_eq (items : List Expr) :
    visitItemsFields items = items.flatMap visitFields := by
  induction items with
  | nil => rfl
  | cons item items ih => rw [visitItemsFields, ih, List.flatMap_cons]

structure QueryRequirements where
  effectiveStatus : Bool
  quoteStatus : Bool
  memberships : Bool
  viewerStates : Bool
  loginAccounts : Bool
  conversations : Bool
  deriving DecidableEq, Repr

/-- What the sources ask for. -/
def sourceRequirements (sources : List SourceSpec) : QueryRequirements where
  effectiveStatus := sources.any fun source =>
    source.kind matches .user | .bookmarks | .favourites
  memberships := sources.any (·.kind.usesMemberships)
  viewerStates := sources.any fun source => source.kind matches .bookmarks | .favourites
  loginAccounts := sources.any (·.kind.usesLoginAccounts)
  conversations := sources.any fun source => source.kind matches .conversation
  quoteStatus := false

/-- What one more field asks for. -/
def QueryRequirements.note (requirements : QueryRequirements) (field : Field) :
    QueryRequirements :=
  match field with
  | .boosterId | .boosterUsername | .boosterAcct | .boosterDisplayName | .boosterNote
  | .boosterLocked | .boosterBot | .boosterFollowers | .boosterFollowing | .boosterStatuses
  | .boosterDomain | .boost => requirements
  | .quoteId | .quoteUrl | .quoteText | .quoteAuthorAcct =>
    { requirements with quoteStatus := true }
  | .viewerFavourited | .viewerReblogged | .viewerMuted | .viewerBookmarked | .viewerPinned =>
    { requirements with effectiveStatus := true, viewerStates := true, memberships := true }
  | .ourAccounts => { requirements with loginAccounts := true }
  | _ => { requirements with effectiveStatus := true }

/-- `query_requirements`. -/
def queryRequirements (sources : List SourceSpec) (predicate : Expr) : QueryRequirements :=
  (visitFields predicate).foldl QueryRequirements.note (sourceRequirements sources)

/-- `query_uses_viewer_state_source`. -/
def queryUsesViewerStateSource (sources : List SourceSpec) : Bool :=
  sources.any fun source => source.kind matches .bookmarks | .favourites

/-- `sources_need_login_accounts`, of the planner. -/
def sourcesNeedLoginAccounts (sources : List SourceSpec) : Bool :=
  sources.any fun source => source.kind matches .home | .list | .mentions | .direct | .public
    | .localPublic | .bookmarks | .favourites

/-- The parts that `query_statuses` loads for a query. -/
def queryGates (sources : List SourceSpec) (predicate : Expr) : Gates :=
  let requirements := queryRequirements sources predicate
  let viewerStateSource := queryUsesViewerStateSource sources
  { loginAccounts := requirements.loginAccounts || requirements.viewerStates ||
      viewerStateSource || sourcesNeedLoginAccounts sources
    memberships := requirements.memberships || requirements.viewerStates || viewerStateSource
    viewerStates := requirements.viewerStates || viewerStateSource
    quoteStatus := requirements.quoteStatus
    conversations := requirements.conversations
    loginAccounts_of_viewerStates := by
      intro h
      rcases Bool.or_eq_true_iff.1 h with h | h <;> simp [h] }

/-! ### What is noted stays noted -/

namespace QueryRequirements

/-- `s` asks for all that `r` asks for. -/
structure Within (r s : QueryRequirements) : Prop where
  effectiveStatus : r.effectiveStatus → s.effectiveStatus
  quoteStatus : r.quoteStatus → s.quoteStatus
  memberships : r.memberships → s.memberships
  viewerStates : r.viewerStates → s.viewerStates
  loginAccounts : r.loginAccounts → s.loginAccounts
  conversations : r.conversations → s.conversations

variable {r s t : QueryRequirements}

theorem Within.refl (r : QueryRequirements) : Within r r := ⟨id, id, id, id, id, id⟩

theorem Within.trans (h₁ : Within r s) (h₂ : Within s t) : Within r t :=
  ⟨h₂.1 ∘ h₁.1, h₂.2 ∘ h₁.2, h₂.3 ∘ h₁.3, h₂.4 ∘ h₁.4, h₂.5 ∘ h₁.5, h₂.6 ∘ h₁.6⟩

theorem within_note (r : QueryRequirements) (f : Field) : Within r (r.note f) := by
  unfold note
  split <;> constructor <;> simp

theorem within_foldl (fields : List Field) (r : QueryRequirements) :
    Within r (fields.foldl note r) := by
  induction fields generalizing r with
  | nil => exact .refl r
  | cons f fields ih => exact (within_note r f).trans (ih (r.note f))

theorem note_within_foldl {f : Field} {fields : List Field} (h : f ∈ fields)
    (r : QueryRequirements) : ∃ s : QueryRequirements, Within (s.note f) (fields.foldl note r) := by
  induction fields generalizing r with
  | nil => simp at h
  | cons g fields ih =>
    rcases List.mem_cons.1 h with rfl | h
    · exact ⟨r, within_foldl fields (r.note f)⟩
    · exact ih h (r.note g)

end QueryRequirements

section

variable {sources : List SourceSpec} {predicate : Expr}

theorem sourceRequirements_within :
    (sourceRequirements sources).Within (queryRequirements sources predicate) :=
  QueryRequirements.within_foldl _ _

theorem note_within (sources : List SourceSpec) {field : Field} (h : field ∈ visitFields predicate) :
    ∃ r : QueryRequirements, (r.note field).Within (queryRequirements sources predicate) :=
  QueryRequirements.note_within_foldl h _

end

/-! ### The loaded parts suffice -/

section

variable [Icu] [RegexCrate] {fields fields' : Field → Value}

theorem evalSet_congr {items : List Expr}
    (h : ∀ e ∈ items, evalWith fields e = evalWith fields' e) (values : List ScalarValue) :
    evalSet fields values items = evalSet fields' values items := by
  induction items generalizing values with
  | nil => rfl
  | cons item items ih =>
    have hitems := ih fun e he => h e (List.mem_cons_of_mem _ he)
    simp only [evalSet, h item List.mem_cons_self, hitems]

/-- An expression depends on the fields it mentions. -/
theorem evalWith_congr (e : Expr) (h : ∀ f ∈ visitFields e, fields f = fields' f) :
    evalWith fields e = evalWith fields' e := by
  induction e using Expr.induct with
  | bool | number | text | identity => rfl
  | set items t s ih =>
    refine evalSet_congr (fun e he => ih e he fun f hf => h f ?_) []
    rw [visitFields, visitKindFields, visitItemsFields_eq]
    exact List.mem_flatMap.2 ⟨e, he, hf⟩
  | field f => exact h f (by simp [visitFields, visitKindFields])
  | unary op e t s ih =>
    simp only [evalWith, evalKind]
    rw [ih h]
  | binary op l r re t s ihl ihr =>
    have hl := ihl fun f hf => h f (List.mem_append_left _ hf)
    have hr := ihr fun f hf => h f (List.mem_append_right _ hf)
    rw [evalWith_binary, evalWith_binary, hl, hr]

end

section

variable {sources : List SourceSpec} {predicate : Expr} {source : SourceSpec}

theorem loginAccounts_gate (hsource : source ∈ sources) (hkind : source.kind.usesLoginAccounts) :
    (queryGates sources predicate).loginAccounts = true := by
  have hreq : (queryRequirements sources predicate).loginAccounts = true :=
    sourceRequirements_within.loginAccounts (List.any_eq_true.2 ⟨source, hsource, hkind⟩)
  simp [queryGates, hreq]

theorem memberships_gate (hsource : source ∈ sources) (hkind : source.kind.usesMemberships) :
    (queryGates sources predicate).memberships = true := by
  have hreq : (queryRequirements sources predicate).memberships = true :=
    sourceRequirements_within.memberships (List.any_eq_true.2 ⟨source, hsource, hkind⟩)
  simp [queryGates, hreq]

theorem conversations_gate (hsource : source ∈ sources) (hkind : source.kind = .conversation) :
    (queryGates sources predicate).conversations = true :=
  sourceRequirements_within.conversations
    (List.any_eq_true.2 ⟨source, hsource, by simp [hkind]⟩)

theorem viewerStates_gate (hsource : source ∈ sources)
    (hkind : source.kind = .bookmarks ∨ source.kind = .favourites) :
    (queryGates sources predicate).viewerStates = true := by
  have hreq : (queryRequirements sources predicate).viewerStates = true :=
    sourceRequirements_within.viewerStates (List.any_eq_true.2 ⟨source, hsource, by
      rcases hkind with hkind | hkind <;> simp [hkind]⟩)
  simp [queryGates, hreq]

variable [Icu] [SerdeJson] (db : Database) (conversationKeys : List StatusKey)
  (status : DbStatus)

/-- A source finds everything that it looks at. -/
theorem sourceBranches_gated (predicate : Expr) (hsource : source ∈ sources) :
    sourceBranches source (hydrate db .all conversationKeys status) =
      sourceBranches source
        (hydrate db (queryGates sources predicate) conversationKeys status) := by
  have hlogins : source.kind.usesLoginAccounts →
      (hydrate db .all conversationKeys status).loginAccounts =
        (hydrate db (queryGates sources predicate) conversationKeys status).loginAccounts := by
    intro hkind
    simp [hydrate, gatedLoginAccounts, loginAccounts_gate hsource hkind, Gates.all]
  refine sourceBranches_congr rfl rfl hlogins (fun hkind => ?_) (fun hkind => ?_) fun hkind => ?_
  · simp [hydrate, memberships_gate hsource hkind, Gates.all]
  · simp [hydrate, conversations_gate hsource hkind, Gates.all]
  · have hstates : (hydrate db .all conversationKeys status).viewerStates =
        (hydrate db (queryGates sources predicate) conversationKeys status).viewerStates := by
      simp [hydrate, viewerStates_gate hsource hkind, Gates.all]
    have hmatches : accountSourceMatches source.kind (hydrate db .all conversationKeys status) =
        accountSourceMatches source.kind
          (hydrate db (queryGates sources predicate) conversationKeys status) := by
      funext account
      rcases hkind with hkind | hkind <;>
        simp only [hkind, accountSourceMatches, viewerState, viewerRow, hstates] <;> rfl
    rw [matchingLoginAccounts, matchingLoginAccounts, hmatches,
      hlogins (by rcases hkind with hkind | hkind <;> rw [hkind] <;> rfl)]

/-- A field that the query mentions finds everything that it looks at. -/
theorem fieldValue_gated (sources : List SourceSpec) {field : Field}
    (hfield : field ∈ visitFields predicate) (branch : SourceBranch) :
    fieldValue field (hydrate db .all conversationKeys status) branch =
      fieldValue field (hydrate db (queryGates sources predicate) conversationKeys status)
        branch := by
  obtain ⟨r, hreq⟩ := note_within sources hfield
  cases field
  case ourAccounts =>
    have hgate := hreq.loginAccounts rfl
    simp [fieldValue, ourAccounts, hydrate, gatedLoginAccounts, queryGates, hgate, Gates.all]
  case quoteId | quoteUrl | quoteText | quoteAuthorAcct =>
    have hgate := hreq.quoteStatus rfl
    simp only [fieldValue, quoteFieldValue, effectiveStatus, hydrate, queryGates, hgate,
      Gates.all, if_true]
  case viewerFavourited | viewerReblogged | viewerMuted | viewerBookmarked | viewerPinned =>
    have hgate := hreq.viewerStates rfl
    simp only [fieldValue, viewerFieldValue, viewerState, viewerRow, effectiveStatus, hydrate,
      queryGates, hgate, Gates.all, if_true, Bool.true_or]
  all_goals rfl

theorem matches_hydrate_gated [RegexCrate] (sources : List SourceSpec) (predicate : Expr) :
    Evaluator.matches sources predicate
        (hydrate db (queryGates sources predicate) conversationKeys status) =
      Evaluator.matches sources predicate (hydrate db .all conversationKeys status) := by
  rw [Bool.eq_iff_iff, Evaluator.matches_iff, Evaluator.matches_iff]
  refine exists_congr fun source => and_congr_right fun hsource => ?_
  rw [sourceBranches_gated db conversationKeys status predicate hsource]
  refine exists_congr fun branch => and_congr_right fun _ => ?_
  rw [eval, eval, evalWith_congr predicate fun field hfield =>
    fieldValue_gated db conversationKeys status sources hfield branch]

end

section

attribute [local instance] asciiIcu rejectingJson noRegex

end

end Awayuki.Kq
