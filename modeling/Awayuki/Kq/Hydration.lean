import Awayuki.Kq.Evaluator
import Mathlib.Data.List.Sort

/-!
# KQ: hydrating rows from the database

What `query_statuses` loads for a page of rows, and the evaluation context it builds for each of
them.

* `CachedStatusViewContext.load` collects the rows, the originals of boosts, the quoted statuses
  and the authors of all these; for the keys that a context looks up, this is the database
  (`contextFor_eq`), so a context does not depend on the page its row was read with;
* `Gates` says which optional parts are loaded.
-/

namespace Awayuki.Kq

/-! ### Login accounts and memberships -/

variable {keys : List EntityKey}

/-- `ORDER BY is_active DESC, acct`. -/
def loginAccountLe (a b : LoginAccountIdentity) : Prop :=
  (a.isActive = true ∧ b.isActive = false) ∨ (a.isActive = b.isActive ∧ a.acct ≤ b.acct)

instance : DecidableRel loginAccountLe := fun _ _ => inferInstanceAs (Decidable (_ ∨ _))

def loadLoginAccountIdentities (db : Database) : List LoginAccountIdentity :=
  db.loginAccounts.insertionSort loginAccountLe

/-- `ORDER BY position_at DESC, account_acct DESC, timeline_type DESC`. -/
def entryLe (a b : TimelineEntry) : Prop :=
  b.positionAt < a.positionAt ∨ (b.positionAt = a.positionAt ∧
    (b.accountAcct < a.accountAcct ∨ (b.accountAcct = a.accountAcct ∧
      b.timelineType ≤ a.timelineType)))

instance : DecidableRel entryLe := fun _ _ => inferInstanceAs (Decidable (_ ∨ _))

def normalizeTimelineMembership (stored : Str) : Str × Option Str :=
  match Str.stripPrefix "list:" stored with
  | some parameter => ("list", some parameter)
  | none =>
    match Str.stripPrefix "tag:" stored with
    | some parameter => ("hashtag", some parameter)
    | none => (stored, none)

def TimelineEntry.membership (entry : TimelineEntry) : TimelineMembership :=
  let (timelineType, parameter) := normalizeTimelineMembership entry.timelineType
  ⟨timelineType, entry.accountAcct, parameter⟩

/-- `load_timeline_memberships`: the memberships of one of the rows of a page. -/
def loadTimelineMemberships (db : Database) (pageKeys : List EntityKey) (key : EntityKey) :
    List TimelineMembership :=
  if key ∈ pageKeys then
    ((db.timelineEntries.filter fun entry => entry.statusKey = key).insertionSort entryLe).map
      TimelineEntry.membership
  else []

/-! ### Statuses and accounts -/

structure CachedStatusViewContext where
  statuses : List DbStatus
  accounts : List DbAccount

namespace CachedStatusViewContext

def status? (cached : CachedStatusViewContext) (k : EntityKey) : Option DbStatus :=
  Keyed.lookup DbStatus.key cached.statuses k

def account? (cached : CachedStatusViewContext) (k : EntityKey) : Option DbAccount :=
  Keyed.lookup DbAccount.key cached.accounts k

def queryStatusesByKeys (db : Database) (keys : List EntityKey) : List DbStatus :=
  db.statuses.filter fun s => s.key ∈ keys

/-- `CachedStatusViewContext::load`. -/
def load (db : Database) (rows : List DbStatus) : CachedStatusViewContext :=
  let relatedKeys := rows.flatMap fun s => s.reblogKey.toList ++ s.quoteKey.toList
  let known := rows ++ queryStatusesByKeys db relatedKeys
  let originals := rows.filterMap fun s => s.reblogKey.bind (Keyed.lookup DbStatus.key known)
  let statuses := known ++ queryStatusesByKeys db (originals.filterMap DbStatus.quoteKey)
  ⟨statuses, db.accounts.filter fun a => a.key ∈ statuses.map DbStatus.authorKey⟩

end CachedStatusViewContext

def accountForStatus (hydration : CachedStatusViewContext) (status : DbStatus) :
    Option DbAccount :=
  hydration.account? status.authorKey

/-- `effective_status`: the status that a row displays. -/
def effectiveOf (wrapper : DbStatus) (hydration : CachedStatusViewContext) : Option DbStatus :=
  match wrapper.reblogKey with
  | some key => hydration.status? key
  | none => some wrapper

def quoteStatus (effective : DbStatus) (hydration : CachedStatusViewContext) : Option DbStatus :=
  effective.quoteKey.bind hydration.status?

/-- `load_viewer_states`: for one of the displayed statuses of a page, the states of the accounts
in whose timelines its rows are and of all login accounts. -/
def loadViewerStates (db : Database) (memberships : EntityKey → List TimelineMembership)
    (wrapperToEffective : List (EntityKey × EntityKey))
    (loginAccounts : List LoginAccountIdentity) (effectiveKey : EntityKey) :
    List DbStatusViewerState :=
  db.viewerStates.filter fun state => state.statusKey = effectiveKey ∧
    ∃ pair ∈ wrapperToEffective, pair.2 = effectiveKey ∧
      (state.loginAccountAcct ∈ (memberships pair.1).map (·.accountAcct) ∨
        state.loginAccountAcct ∈ loginAccounts.map (·.acct))

/-! ### Contexts -/

/-- Which optional parts of the contexts are loaded.  Viewer states are loaded for the login
accounts. -/
structure Gates where
  loginAccounts : Bool
  memberships : Bool
  viewerStates : Bool
  quoteStatus : Bool
  conversations : Bool
  loginAccounts_of_viewerStates : viewerStates = true → loginAccounts = true

def Gates.all : Gates := ⟨true, true, true, true, true, fun h => h⟩

def gatedLoginAccounts (db : Database) (gates : Gates) : List LoginAccountIdentity :=
  if gates.loginAccounts then loadLoginAccountIdentities db else []

/-- The context of one row of a page. -/
def contextFor (db : Database) (gates : Gates) (conversationKeys : List StatusKey)
    (rows : List DbStatus) (status : DbStatus) : EvaluationContext :=
  let hydration := CachedStatusViewContext.load db rows
  let memberships :=
    if gates.memberships then loadTimelineMemberships db (rows.map DbStatus.key) else fun _ => []
  let wrapperToEffective := rows.filterMap fun row =>
    (effectiveOf row hydration).map fun effective => (row.key, effective.key)
  let loginAccounts := gatedLoginAccounts db gates
  let effective := effectiveOf status hydration
  { wrapper := ⟨status, accountForStatus hydration status⟩
    effective := effective.map fun effective => ⟨effective, accountForStatus hydration effective⟩
    quote := if gates.quoteStatus then
        (effective.bind (quoteStatus · hydration)).map fun quote =>
          ⟨quote, accountForStatus hydration quote⟩
      else none
    loginAccounts := loginAccounts
    memberships := memberships status.key
    viewerStates := if gates.viewerStates then
        effective.elim [] fun effective =>
          loadViewerStates db memberships wrapperToEffective loginAccounts effective.key
      else []
    conversationKeys := if gates.conversations then conversationKeys else [] }

/-! ### A context is its row and the database -/

/-- The status that a row displays, in the database. -/
def displayedStatus (db : Database) (wrapper : DbStatus) : Option DbStatus :=
  match wrapper.reblogKey with
  | some key => db.status? key
  | none => some wrapper

def storedView (db : Database) (status : DbStatus) : StatusView :=
  ⟨status, db.account? status.authorKey⟩

/-- The context of a row, read from the database directly. -/
def hydrate (db : Database) (gates : Gates) (conversationKeys : List StatusKey)
    (status : DbStatus) : EvaluationContext where
  wrapper := storedView db status
  effective := (displayedStatus db status).map (storedView db)
  quote := if gates.quoteStatus then
      (((displayedStatus db status).bind DbStatus.quoteKey).bind db.status?).map (storedView db)
    else none
  loginAccounts := gatedLoginAccounts db gates
  memberships := if gates.memberships then
      loadTimelineMemberships db [status.key] status.key
    else []
  viewerStates := if gates.viewerStates then
      (displayedStatus db status).elim [] fun effective =>
        db.viewerStates.filter fun state => state.statusKey = effective.key
    else []
  conversationKeys := if gates.conversations then conversationKeys else []

namespace CachedStatusViewContext

variable {db : Database} {rows : List DbStatus} (hrows : ∀ s ∈ rows, s ∈ db.statuses)
  {s row : DbStatus}

theorem mem_queryStatusesByKeys :
    s ∈ queryStatusesByKeys db keys ↔ s ∈ db.statuses ∧ s.key ∈ keys := by
  simp [queryStatusesByKeys]

include hrows

theorem mem_load_statuses (h : s ∈ (load db rows).statuses) : s ∈ db.statuses := by
  simp only [load, List.mem_append, mem_queryStatusesByKeys] at h
  rcases h with (h | h) | h
  · exact hrows s h
  · exact h.1
  · exact h.1

theorem status?_load {k : EntityKey}
    (hk : ∀ s ∈ db.statuses, s.key = k → s ∈ (load db rows).statuses) :
    (load db rows).status? k = db.status? k :=
  Keyed.lookup_of_subset db.statuses_nodup (fun _ => mem_load_statuses hrows) hk

/-- The originals of the rows are loaded. -/
theorem effectiveOf_load (hrow : row ∈ rows) :
    effectiveOf row (load db rows) = displayedStatus db row := by
  cases hkey : row.reblogKey with
  | none => simp [effectiveOf, displayedStatus, hkey]
  | some key =>
    simp only [effectiveOf, displayedStatus, hkey]
    refine status?_load hrows fun s hs hsk => ?_
    simp only [load, List.mem_append, mem_queryStatusesByKeys]
    refine .inl (.inr ⟨hs, List.mem_flatMap.2 ⟨row, hrow, ?_⟩⟩)
    simp [hkey, hsk]

/-- The statuses that the displayed statuses quote are loaded. -/
theorem quoteStatus_load {effective : DbStatus} (hrow : row ∈ rows)
    (heffective : displayedStatus db row = some effective) :
    quoteStatus effective (load db rows) = effective.quoteKey.bind db.status? := by
  refine Option.bind_congr fun quote hquote => status?_load hrows fun s hs hsk => ?_
  simp only [load, List.mem_append, mem_queryStatusesByKeys]
  cases hkey : row.reblogKey with
  | none =>
    obtain rfl : row = effective := by simpa [displayedStatus, hkey] using heffective
    refine .inl (.inr ⟨hs, List.mem_flatMap.2 ⟨row, hrow, ?_⟩⟩)
    simp [hquote, hsk]
  | some key =>
    simp only [displayedStatus, hkey] at heffective
    refine .inr ⟨hs, List.mem_filterMap.2 ⟨effective, List.mem_filterMap.2 ⟨row, hrow, ?_⟩, ?_⟩⟩
    · rw [hkey, Option.bind_some, ← heffective]
      refine Keyed.lookup_of_subset db.statuses_nodup (fun t ht => ?_) fun t ht htk => ?_
      · rcases List.mem_append.1 ht with ht | ht
        · exact hrows t ht
        · exact (mem_queryStatusesByKeys.1 ht).1
      · refine List.mem_append_right _ (mem_queryStatusesByKeys.2 ⟨ht, ?_⟩)
        exact List.mem_flatMap.2 ⟨row, hrow, by simp [hkey, htk]⟩
    · rw [hquote, hsk]

omit hrows in
/-- The authors of all loaded statuses are loaded. -/
theorem accountForStatus_load (hs : s ∈ (load db rows).statuses) :
    accountForStatus (load db rows) s = db.account? s.authorKey := by
  refine Keyed.lookup_of_subset db.accounts_nodup (fun a ha => (List.mem_filter.1 ha).1) ?_
  intro a ha hak
  have hauthor : a.key ∈ (load db rows).statuses.map DbStatus.authorKey :=
    hak ▸ List.mem_map_of_mem hs
  exact List.mem_filter.2 ⟨ha, decide_eq_true hauthor⟩

end CachedStatusViewContext

section

open CachedStatusViewContext

variable {db : Database} {rows : List DbStatus} {status : DbStatus}

theorem loadTimelineMemberships_of_mem {key : EntityKey} (h : key ∈ keys) :
    loadTimelineMemberships db keys key = loadTimelineMemberships db [key] key := by
  simp [loadTimelineMemberships, h]

theorem mem_loadLoginAccountIdentities {account : LoginAccountIdentity} :
    account ∈ loadLoginAccountIdentities db ↔ account ∈ db.loginAccounts :=
  List.mem_insertionSort loginAccountLe

/-- Every state belongs to a login account, so all states of a displayed status are loaded. -/
theorem loadViewerStates_eq {memberships : EntityKey → List TimelineMembership}
    {pairs : List (EntityKey × EntityKey)} {wrapperKey effectiveKey : EntityKey}
    (hpair : (wrapperKey, effectiveKey) ∈ pairs) :
    loadViewerStates db memberships pairs (loadLoginAccountIdentities db) effectiveKey =
      db.viewerStates.filter fun state => state.statusKey = effectiveKey := by
  refine List.filter_congr fun state hstate => ?_
  obtain ⟨account, haccount, hacct⟩ := db.viewerState_account state hstate
  have hlogin : state.loginAccountAcct ∈ (loadLoginAccountIdentities db).map (·.acct) :=
    List.mem_map.2 ⟨account, mem_loadLoginAccountIdentities.2 haccount, hacct⟩
  rw [decide_eq_decide]
  exact ⟨And.left, fun h => ⟨h, (wrapperKey, effectiveKey), hpair, rfl, .inr hlogin⟩⟩

/-- The context of a row does not depend on the page that the row was read with. -/
theorem contextFor_eq (hrows : ∀ s ∈ rows, s ∈ db.statuses) (hstatus : status ∈ rows)
    (gates : Gates) (conversationKeys : List StatusKey) :
    contextFor db gates conversationKeys rows status =
      hydrate db gates conversationKeys status := by
  have hmem : ∀ s ∈ rows, s ∈ (load db rows).statuses := fun s hs =>
    List.mem_append_left _ (List.mem_append_left _ hs)
  have heffective := effectiveOf_load hrows hstatus
  have hmemberships : (if gates.memberships then
      loadTimelineMemberships db (rows.map DbStatus.key) else fun _ => []) status.key =
        if gates.memberships then loadTimelineMemberships db [status.key] status.key else [] := by
    split_ifs
    · exact loadTimelineMemberships_of_mem (List.mem_map_of_mem hstatus)
    · rfl
  have heffectiveMem : ∀ effective, displayedStatus db status = some effective →
      effective ∈ (load db rows).statuses := by
    intro effective h
    rw [← heffective] at h
    unfold effectiveOf at h
    split at h
    · exact Keyed.mem_of_lookup h
    · obtain rfl : status = effective := by simpa using h
      exact hmem status hstatus
  simp only [contextFor, hydrate, storedView, heffective, hmemberships,
    accountForStatus_load (hmem status hstatus)]
  cases hdisplayed : displayedStatus db status with
  | none => simp
  | some effective =>
    have hquote := quoteStatus_load hrows hstatus hdisplayed
    have hquoteAccount : ∀ quote, quoteStatus effective (load db rows) = some quote →
        accountForStatus (load db rows) quote = db.account? quote.authorKey := by
      intro quote h
      obtain ⟨key, -, hkey⟩ := Option.bind_eq_some_iff.1 h
      exact accountForStatus_load (Keyed.mem_of_lookup hkey)
    have hpair : (status.key, effective.key) ∈ rows.filterMap fun row =>
        (effectiveOf row (load db rows)).map fun effective => (row.key, effective.key) := by
      refine List.mem_filterMap.2 ⟨status, hstatus, ?_⟩
      rw [heffective, hdisplayed, Option.map_some]
    have hstates : gates.viewerStates = true → ∀ memberships,
        loadViewerStates db memberships (rows.filterMap fun row =>
          (effectiveOf row (load db rows)).map fun effective => (row.key, effective.key))
          (gatedLoginAccounts db gates) effective.key =
            db.viewerStates.filter fun state => state.statusKey = effective.key := by
      intro hgate memberships
      rw [gatedLoginAccounts, if_pos (gates.loginAccounts_of_viewerStates hgate)]
      exact loadViewerStates_eq hpair
    have hview : (quoteStatus effective (load db rows)).map (fun quote =>
        (⟨quote, accountForStatus (load db rows) quote⟩ : StatusView)) =
          (effective.quoteKey.bind db.status?).map (storedView db) := by
      rw [← hquote]
      exact Option.map_congr fun quote h => by rw [storedView, hquoteAccount quote h]
    simp only [Option.map_some, Option.bind_some, Option.elim_some, hview,
      accountForStatus_load (heffectiveMem effective hdisplayed), EvaluationContext.mk.injEq,
      true_and, and_true]
    refine ⟨rfl, ?_⟩
    by_cases hgate : gates.viewerStates = true
    · rw [if_pos hgate, if_pos hgate]
      exact hstates hgate _
    · rw [if_neg hgate, if_neg hgate]

end

end Awayuki.Kq
