import Awayuki.Hydration.Agreement
import Awayuki.Hydration.Unified
import Awayuki.Library.Guarded
import Awayuki.Timeline.Origins

/-!
# Displayed flags and the account that acts

A stored row shows whether the active account has favourited, boosted or bookmarked the post.  A
switch of accounts publishes the new account, reads its flags for the stored posts in chunks and
patches them; meanwhile and afterwards the pages of unified timelines arrive, and their rows have
the flags of the accounts that received them.

* `switchAccount`, `readChunk`, `patch`: `switchAccount` with `reconcileViewerStates`, await by
  await;
* `nextStatuses`, `land`: what `loadTimeline` does with its page;
* `Right`: does the reconciliation that is under way leave a row with the flags of the account?
* `Meets`: the condition of one step;
* `flags_of_settled`: runs that meet it show the flags of the active account once they are settled.
-/

namespace Awayuki.Displayed

open Timeline Guarded
open Hydration (ViewerFlags Db AggregateFilter UnifiedTimeline TimelineRequest loadLocalTimeline)

/-! ### Rows -/

variable {nearTop : Bool}

/-- What the flags of a row depend on, besides its keys. -/
structure ViewerRest where
  statusIdentity : StatusIdentity
  flags : ViewerFlags
  deriving DecidableEq

abbrev Row := TimelineStatus ViewerRest

abbrev RowFields := StatusFields ViewerRest

/-- The fields of a view, as the frontend receives it. -/
def fieldsOf (view : Hydration.TimelineStatus) : RowFields where
  id := view.id
  originalStatusId := view.originalStatusId
  sourceAcct := view.sourceAcct
  serverDomain := view.serverDomain
  uri := view.uri
  createdAt := view.createdAt
  originalCreatedAt := view.originalCreatedAt
  notificationId := view.notificationId
  notificationKind := view.notificationKind
  notificationLabel := view.notificationLabel
  notificationAvatar := view.notificationAvatar
  notificationAccountId := view.notificationAccountId
  notificationAcct := view.notificationAcct
  notificationDisplayName := view.notificationDisplayName
  notificationAccountEmojis := some view.notificationAccountEmojis
  rest := ⟨view.statusIdentity, view.flags⟩

def rowOf : Hydration.TimelineStatus → Row
  | view@{ quote := none, .. } => .plain (fieldsOf view)
  | view@{ quote := some quote, .. } => .quoting (fieldsOf view) (rowOf quote)

theorem fields_rowOf (view : Hydration.TimelineStatus) : (rowOf view).fields = fieldsOf view := by
  unfold rowOf
  split <;> rfl

/-! ### Pages in columns -/

/-- A column of a unified timeline. -/
structure ColumnSummary where
  id : Str
  timeline : UnifiedTimeline
  maxStatuses : Limit
  displayFilter : AggregateFilter := {}

namespace ColumnSummary

variable (column : ColumnSummary)

def timelineDisplayLimit : ℕ := normalizeTimelineLimit column.maxStatuses

def timelinePageLimit : ℕ := min 120 column.timelineDisplayLimit

/-- Notifications have a stream of their own. -/
def receivesRealtime : Bool := column.timeline ≠ .notification

end ColumnSummary

/-- What the frontend runs on; `shows` is the test of `filterStatuses`. -/
structure Frontend where
  platform : Platform
  json : Hydration.SerdeJson
  shows : ColumnSummary → Row → Bool

section Frontend

variable (env : Frontend)

def parsedTime (status : Row) : Option ℤ := env.platform.dateParse status.fields.createdAt

/-- `Date.parse(left.createdAt) >= Date.parse(right.createdAt)`, which is false for `NaN`. -/
def notBefore (left right : Row) : Bool :=
  (parsedTime env left).any fun l => (parsedTime env right).any fun r => r ≤ l

/-- The next row of `mergeSorted`, unless its key has come before. -/
def pushRow (result : List Row) (next : Row) : List Row :=
  if statusKey env.platform next.fields ∈ result.map fun row => statusKey env.platform row.fields
    then result
  else result ++ [next]

/-- The loop of `mergeSorted`; every turn takes a row of one of the lists. -/
def mergeSortedLoop (limit : ℕ) : ℕ → List Row → List Row → List Row → List Row
  | 0, result, _, _ => result
  | fuel + 1, result, left, right =>
    if limit ≤ result.length then result
    else
      match left, right with
      | [], [] => result
      | [], next :: right => mergeSortedLoop limit fuel (pushRow env result next) [] right
      | next :: left, [] => mergeSortedLoop limit fuel (pushRow env result next) left []
      | l :: left, r :: right =>
        if notBefore env l r then
          mergeSortedLoop limit fuel (pushRow env result l) left (r :: right)
        else mergeSortedLoop limit fuel (pushRow env result r) (l :: left) right

def mergeSorted (left right : List Row) (limit : ℕ) : List Row :=
  mergeSortedLoop env limit (left.length + right.length) [] left right

/-- Is a row as new as the oldest of a page?  The least of times with a `NaN` is `NaN`. -/
def sinceOldest (loaded : List Row) (status : Row) : Bool :=
  match parsedTime env status, loaded.mapM (parsedTime env) with
  | some time, some times => times.min?.all (· ≤ time)
  | _, _ => false

def mergeLoadPage (column : ColumnSummary) (loaded current : List Row) (limit : ℕ) : List Row :=
  if !column.receivesRealtime || current.isEmpty then loaded.take limit
  else
    let seen := loaded.map fun row => statusKey env.platform row.fields
    let streamed := (current.filter (env.shows column)).filter fun status =>
      statusKey env.platform status.fields ∉ seen ∧ sinceOldest env loaded status
    if streamed.isEmpty then loaded.take limit else mergeSorted env loaded streamed limit

/-- A column that is scrolled keeps the rows that it has. -/
def preserveLoadedHistory (current : List Row) (nearTop : Bool) : Bool :=
  !nearTop && !current.isEmpty

def nextStatuses (column : ColumnSummary) (statuses current : List Row) (nearTop : Bool) :
    List Row :=
  let displayed := statuses.filter (env.shows column)
  if preserveLoadedHistory current nearTop then
    mergeSorted env displayed (current.filter (env.shows column))
      (displayed.length + current.length)
  else mergeLoadPage env column displayed current column.timelineDisplayLimit

/-- The operation that shows a page. -/
def pageOperation (column : ColumnSummary) (statuses current : List Row) (nearTop : Bool) :
    TimelineEntityOperation ViewerRest :=
  let next := nextStatuses env column statuses current nearTop
  .replaceColumn column.id next <|
    some <| if preserveLoadedHistory current nearTop then ((max 1 next.length : ℕ) : ℚ)
      else (column.timelineDisplayLimit : ℚ)

/-! ### Switches of accounts -/

def STATUS_VIEWER_STATES_BATCH_SIZE : ℕ := 1000

def statusIdentityValueKey (identity : StatusIdentity) : StatusIdentity :=
  { identity with serverDomain := env.platform.toLowerCase identity.serverDomain }

def statusIdentityKey (status : Row) : StatusIdentity :=
  statusIdentityValueKey env status.fields.rest.statusIdentity

/-- `reconcileViewerStates` between two awaits: the posts that were stored when it began, what it
has read, and how many it has asked for. -/
structure Reconciliation where
  actingAccountAcct : Str
  unique : OrderedMap StatusIdentity Row
  summaries : List (StatusIdentity × ViewerFlags)
  offset : ℕ

/-- `[...unique.values()]` -/
def Reconciliation.statuses (r : Reconciliation) : List Row := r.unique.entries.map Prod.snd

/-- `unique`: one stored row of each post, the last. -/
def captured (entities : OrderedMap StatusKey Row) : OrderedMap StatusIdentity Row :=
  .ofList (entities.entries.map fun e => (statusIdentityKey env e.2, e.2))

/-- `{ favourited, reblogged, bookmarked }` as a patch. -/
def viewerPatch (flags : ViewerFlags) : Patch ViewerRest :=
  { rest := fun rest => { rest with flags := flags } }

def Reconciliation.byIdentity (r : Reconciliation) : OrderedMap StatusIdentity ViewerFlags :=
  .ofList (r.summaries.map fun summary => (statusIdentityValueKey env summary.1, summary.2))

def Reconciliation.flagsOf (r : Reconciliation) (status : Row) : ViewerFlags :=
  ((r.byIdentity env).get (statusIdentityKey env status)).getD .unset

def Reconciliation.patches (r : Reconciliation) : List (Row × Patch ViewerRest) :=
  r.statuses.map fun status => (status, viewerPatch (r.flagsOf env status))

/-! ### The system -/

/-- What a page is made of. -/
inductive Answer
  /-- The rows of the database. -/
  | cached (db : Db)
  /-- What the servers have answered to a refresh of the notifications. -/
  | live (views : List Hydration.TimelineStatus)

/-- The flags of a view of the page: of a cached one, those of the account that it is from. -/
def Answer.flags (view : Hydration.TimelineStatus) : Answer → ViewerFlags
  | cached db => (db.sourceFlags view).getD view.flags
  | live _ => view.flags

structure Load where
  column : ColumnSummary
  refresh : Bool
  actingAccountAcct : Str
  answer : Option Answer

namespace Load

variable (load : Load)

def request : TimelineRequest where
  timeline := load.column.timeline
  limit := if load.refresh then min 80 load.column.timelinePageLimit
    else load.column.timelinePageLimit
  actingAccountAcct := some load.actingAccountAcct
  displayFilter := load.column.displayFilter

/-- The page of a load, when it has been made without an error. -/
def page : Option (List Hydration.TimelineStatus) :=
  load.answer.bind fun
    | .cached db => loadLocalTimeline env.json db load.request
    | .live views => some views

/-- Only the notifications are refreshed without reading the cache afterwards. -/
def fetched (views : List Hydration.TimelineStatus) : Load :=
  if load.refresh ∧ load.column.timeline = .notification then
    { load with answer := some (.live views) }
  else load

end Load

structure System where
  db : Db
  activeAcct : Str
  timeline : TimelineEntityState ViewerRest
  reconciliation : Option Reconciliation
  loads : List Load

def System.start (db : Db) (activeAcct : Str) : System where
  db := db
  activeAcct := activeAcct
  timeline := createTimelineEntityState
  reconciliation := none
  loads := []

/-- What happens; loads are named by their places. -/
inductive Event
  /-- Something is saved. -/
  | save (db : Db)
  | switchAccount (acct : Str)
  | readChunk
  | patch
  | load (column : ColumnSummary) (refresh : Bool)
  /-- The page of a load is read from the database. -/
  | read (place : ℕ)
  /-- The page of a load is made of answers of the servers. -/
  | fetch (place : ℕ) (views : List Hydration.TimelineStatus)
  /-- The page of a load arrives at a column. -/
  | land (place : ℕ) (nearTop : Bool)
  /-- A load is cancelled, or its page is not the current one any more. -/
  | discard (place : ℕ)

namespace System

variable (s : System)

/-- `state.timelines[column.id] ?? []` -/
def current (column : ColumnSummary) : List Row := (s.timeline.timelines.get column.id).getD []

/-- The new account is published and the stored posts are captured.  A switch that is under way
takes no other. -/
def switchAccount (acct : Str) : System :=
  if s.reconciliation.isSome then s
  else
    let unique := captured env s.timeline.entities
    { s with
      activeAcct := acct
      reconciliation :=
        if unique.entries.isEmpty then none
        else some { actingAccountAcct := acct, unique, summaries := [], offset := 0 } }

def readChunk : System :=
  match s.reconciliation with
  | none => s
  | some r =>
    if r.offset < r.statuses.length then
      let identities := r.statuses.map fun status => status.fields.rest.statusIdentity
      let chunk := (identities.drop r.offset).take STATUS_VIEWER_STATES_BATCH_SIZE
      { s with
        reconciliation := some
          { r with
            summaries := r.summaries ++ s.db.statusViewerStates r.actingAccountAcct chunk
            offset := r.offset + STATUS_VIEWER_STATES_BATCH_SIZE } }
    else s

def patch : System :=
  match s.reconciliation with
  | none => s
  | some r =>
    if r.offset < r.statuses.length then s
    else if s.activeAcct ≠ r.actingAccountAcct then { s with reconciliation := none }
    else
      { s with
        timeline := (reduceTimelineEntities env.platform s.timeline
          (patchOperations (r.patches env))).1
        reconciliation := none }

def load (column : ColumnSummary) (refresh : Bool) : System :=
  { s with loads := s.loads ++ [⟨column, refresh, s.activeAcct, none⟩] }

def read (place : ℕ) : System :=
  { s with loads := s.loads.modify place fun load => { load with answer := some (.cached s.db) } }

def fetch (place : ℕ) (views : List Hydration.TimelineStatus) : System :=
  { s with loads := s.loads.modify place (·.fetched views) }

def showPage (column : ColumnSummary) (views : List Hydration.TimelineStatus) (nearTop : Bool) :
    System :=
  { s with
    timeline := (reduceTimelineEntities env.platform s.timeline
      [pageOperation env column (views.map rowOf) (s.current column) nearTop]).1 }

/-- A page that has not been made cannot arrive; one that could not be made shows nothing. -/
def land (place : ℕ) (nearTop : Bool) : System :=
  match s.loads[place]? with
  | none => s
  | some load =>
    if load.answer.isNone then s
    else
      let s := match load.page env with
        | none => s
        | some views => s.showPage env load.column views nearTop
      { s with loads := s.loads.eraseIdx place }

end System

def step (s : System) : Event → System
  | .save db => { s with db := db }
  | .switchAccount acct => s.switchAccount env acct
  | .readChunk => s.readChunk
  | .patch => s.patch env
  | .load column refresh => s.load column refresh
  | .read place => s.read place
  | .fetch place views => s.fetch place views
  | .land place nearTop => s.land env place nearTop
  | .discard place => { s with loads := s.loads.eraseIdx place }

end Frontend

/-- No switch and no load is under way. -/
def Settled (s : System) : Prop := s.reconciliation = none ∧ s.loads = []

/-- The flags of every stored row are those that the database holds for the active account. -/
def DisplaysActive (s : System) : Prop :=
  ∀ e ∈ s.timeline.entities.entries,
    e.2.fields.rest.flags = s.db.flagsFor s.activeAcct e.2.fields.rest.statusIdentity

/-! ### The condition -/

section Condition

variable (env : Frontend)

/-- Of the captured posts with the key of a row, the one that is patched last. -/
def lastTarget (statuses : List Row) (fields : RowFields) : Option Row :=
  OrderedMap.final
    (statuses.map fun status => (canonicalStatusKey env.platform status.fields, status))
    (canonicalStatusKey env.platform fields)

/-- A row that has some flags will have those of the account: it is patched, at last through a post
with the same ones, or it has them already. -/
def Right (db : Db) (acct : Str) (statuses : List Row) (fields : RowFields)
    (flags : ViewerFlags) : Prop :=
  match lastTarget env statuses fields with
  | some target =>
    db.flagsFor acct target.fields.rest.statusIdentity =
      db.flagsFor acct fields.rest.statusIdentity
  | none => flags = db.flagsFor acct fields.rest.statusIdentity

instance (db : Db) (acct : Str) (statuses : List Row) (fields : RowFields) (flags : ViewerFlags) :
    Decidable (Right env db acct statuses fields flags) :=
  match h : lastTarget env statuses fields with
  | some target => decidable_of_iff (db.flagsFor acct target.fields.rest.statusIdentity =
      db.flagsFor acct fields.rest.statusIdentity) (by rw [Right, h])
  | none => decidable_of_iff (flags = db.flagsFor acct fields.rest.statusIdentity)
      (by rw [Right, h])

namespace System

variable (s : System)

/-- The posts that are still to be patched. -/
def targets : List Row := (s.reconciliation.map Reconciliation.statuses).getD []

/-- A row with its own flags. -/
def Keeps (fields : RowFields) : Prop :=
  Right env s.db s.activeAcct s.targets fields fields.rest.flags

instance (fields : RowFields) : Decidable (s.Keeps env fields) :=
  inferInstanceAs (Decidable (Right ..))

/-- What is saved leaves the flags of the active account for the stored posts as they are. -/
def SaveMeets (db : Db) : Prop :=
  ∀ status ∈ s.timeline.entities.entries.map Prod.snd ++ s.targets,
    db.flagsFor s.activeAcct status.fields.rest.statusIdentity =
      s.db.flagsFor s.activeAcct status.fields.rest.statusIdentity

/-- The patches of the switch, or the flags that are there, are right for every stored row. -/
def SwitchMeets (acct : Str) : Prop :=
  s.reconciliation = none → ∀ e ∈ s.timeline.entities.entries,
    Right env s.db acct ((captured env s.timeline.entities).entries.map Prod.snd) e.2.fields
      e.2.fields.rest.flags

/-- Of the rows that a page of a load shows: the account that a row of the page is from has done
with the post what the active account has, and so say the copies of posts that rows embed. -/
structure LandMeets (answer : Answer) (column : ColumnSummary)
    (views : List Hydration.TimelineStatus) (nearTop : Bool) : Prop where
  fits : OperationMeets env.platform s.timeline.toMutable
    (pageOperation env column (views.map rowOf) (s.current column) nearTop)
  source : ∀ view ∈ views,
    rowOf view ∈ nextStatuses env column (views.map rowOf) (s.current column) nearTop →
      Right env s.db s.activeAcct s.targets (fieldsOf view) (answer.flags view)
  embedded : ∀ status ∈ nextStatuses env column (views.map rowOf) (s.current column) nearTop,
    ∀ quote ∈ status.quote, quote.Every (s.Keeps env)

/-- The condition of one step. -/
def Meets : Event → Prop
  | .save db => s.SaveMeets db
  | .switchAccount acct => s.SwitchMeets env acct
  | .land place nearTop =>
    ∀ load ∈ s.loads[place]?, ∀ answer ∈ load.answer, ∀ views ∈ load.page env,
      s.LandMeets env answer load.column views nearTop
  | .readChunk | .patch | .load .. | .read _ | .fetch .. | .discard _ => True

instance (db : Db) : Decidable (s.SaveMeets db) := inferInstanceAs (Decidable (∀ _ ∈ _, _ = _))

instance (acct : Str) : Decidable (s.SwitchMeets env acct) :=
  inferInstanceAs (Decidable (_ = none → ∀ _ ∈ _, Right ..))

theorem landMeets_iff (answer : Answer) (column : ColumnSummary)
    (views : List Hydration.TimelineStatus) (nearTop : Bool) :
    s.LandMeets env answer column views nearTop ↔
      OperationMeets env.platform s.timeline.toMutable
          (pageOperation env column (views.map rowOf) (s.current column) nearTop) ∧
        (∀ view ∈ views,
          rowOf view ∈ nextStatuses env column (views.map rowOf) (s.current column) nearTop →
            Right env s.db s.activeAcct s.targets (fieldsOf view) (answer.flags view)) ∧
        ∀ status ∈ nextStatuses env column (views.map rowOf) (s.current column) nearTop,
          ∀ quote ∈ status.quote, quote.Every (s.Keeps env) :=
  ⟨fun h => ⟨h.fits, h.source, h.embedded⟩, fun h => ⟨h.1, h.2.1, h.2.2⟩⟩

instance (answer : Answer) (column : ColumnSummary) (views : List Hydration.TimelineStatus)
    (nearTop : Bool) : Decidable (s.LandMeets env answer column views nearTop) :=
  decidable_of_iff' _ (s.landMeets_iff env answer column views nearTop)

instance (event : Event) : Decidable (s.Meets env event) :=
  match event with
  | .save db => inferInstanceAs (Decidable (s.SaveMeets db))
  | .switchAccount acct => inferInstanceAs (Decidable (s.SwitchMeets env acct))
  | .land place nearTop =>
    inferInstanceAs (Decidable (∀ load ∈ s.loads[place]?, ∀ answer ∈ load.answer,
      ∀ views ∈ load.page env, s.LandMeets env answer load.column views nearTop))
  | .readChunk | .patch | .load .. | .read _ | .fetch .. | .discard _ => instDecidableTrue

end System

end Condition

/-! ### The rows that a page shows -/

variable {status : Row} {statuses : List Row}

section Pages

variable {env : Frontend} {result : List Row} {limit : ℕ}

theorem mem_pushRow {next : Row} (h : status ∈ pushRow env result next) :
    status ∈ result ∨ status = next := by
  unfold pushRow at h
  split_ifs at h
  · exact .inl h
  · simpa using h

variable {left right : List Row}

theorem mem_mergeSortedLoop {fuel : ℕ}
    (h : status ∈ mergeSortedLoop env limit fuel result left right) :
    status ∈ result ∨ status ∈ left ∨ status ∈ right := by
  fun_induction mergeSortedLoop with
  | case1 => exact .inl h
  | case2 => exact .inl h
  | case3 => exact .inl h
  | case4 fuel result hlimit next right ih =>
    rcases ih h with h | h | h
    · rcases mem_pushRow h with h | rfl
      · exact .inl h
      · simp
    · exact absurd h List.not_mem_nil
    · simp [h]
  | case5 fuel result hlimit next left ih =>
    rcases ih h with h | h | h
    · rcases mem_pushRow h with h | rfl
      · exact .inl h
      · simp
    · simp [h]
    · exact absurd h List.not_mem_nil
  | case6 fuel result hlimit l left r right hbefore ih =>
    rcases ih h with h | h | h
    · rcases mem_pushRow h with h | rfl
      · exact .inl h
      · simp
    · simp [h]
    · exact .inr (.inr h)
  | case7 fuel result hlimit l left r right hbefore ih =>
    rcases ih h with h | h | h
    · rcases mem_pushRow h with h | rfl
      · exact .inl h
      · simp
    · exact .inr (.inl h)
    · simp [h]

theorem mem_mergeSorted (h : status ∈ mergeSorted env left right limit) :
    status ∈ left ∨ status ∈ right := by
  rcases mem_mergeSortedLoop h with h | h
  · exact absurd h List.not_mem_nil
  · exact h

/-- The rows that a page shows are its own or rows that the column has. -/
theorem mem_nextStatuses {column : ColumnSummary} {current : List Row}
    (h : status ∈ nextStatuses env column statuses current nearTop) :
    status ∈ statuses ∨ status ∈ current := by
  have hdisplayed {status : Row} (h : status ∈ statuses.filter (env.shows column)) :
      status ∈ statuses := List.mem_of_mem_filter h
  unfold nextStatuses at h
  split_ifs at h
  · exact (mem_mergeSorted h).imp hdisplayed List.mem_of_mem_filter
  · unfold mergeLoadPage at h
    dsimp only at h
    split_ifs at h
    · exact .inl (hdisplayed (List.mem_of_mem_take h))
    · exact .inl (hdisplayed (List.mem_of_mem_take h))
    · exact (mem_mergeSorted h).imp hdisplayed fun h =>
        List.mem_of_mem_filter (List.mem_of_mem_filter h)

end Pages

/-! ### What patches make of a row -/

variable {fields : RowFields}

section Patches

variable {env : Frontend}

theorem viewerPatch_apply (flags : ViewerFlags) (row : Row) :
    ((viewerPatch flags).apply row).fields =
      { row.fields with rest := { row.fields.rest with flags := flags } } := by
  rw [Patch.apply, TimelineStatus.fields_mk]
  rfl

theorem viewerPatch_keepsIdentity (flags : ViewerFlags) : (viewerPatch flags).KeepsIdentity :=
  ⟨rfl, rfl, rfl, rfl, rfl, rfl⟩

theorem viewerPatch_idempotent (flags : ViewerFlags) : (viewerPatch flags).Idempotent := by
  intro row
  cases row <;> rfl

theorem lastTarget_append_singleton (statuses : List Row) (status : Row) (fields : RowFields) :
    lastTarget env (statuses ++ [status]) fields =
      if canonicalStatusKey env.platform status.fields = canonicalStatusKey env.platform fields
        then some status else lastTarget env statuses fields := by
  unfold lastTarget
  rw [List.map_append, List.map_singleton, OrderedMap.final_append_singleton]

theorem mem_of_lastTarget {target : Row} (h : lastTarget env statuses fields = some target) :
    target ∈ statuses := by
  obtain ⟨status, hmem, heq⟩ := List.mem_map.1 (OrderedMap.mem_of_final h)
  obtain ⟨-, rfl⟩ := Prod.ext_iff.1 heq
  exact hmem

/-- The patches of posts give a row the flags of the last post with its key. -/
theorem fields_patchedBy (statuses : List Row) (flagsOf : Row → ViewerFlags) (row : Row) :
    (patchedBy env.platform
      (statuses.map fun status => (status, viewerPatch (flagsOf status))) row).fields =
        { row.fields with
          rest := { row.fields.rest with
            flags := ((lastTarget env statuses row.fields).map flagsOf).getD
              row.fields.rest.flags } } := by
  induction statuses using List.reverseRecOn with
  | nil => rfl
  | append_singleton statuses status ih =>
    rw [lastTarget_append_singleton]
    unfold patchedBy at ih ⊢
    rw [List.map_append, List.map_singleton, List.foldl_append, List.foldl_cons, List.foldl_nil]
    -- Patches leave the key of the row as it is.
    have hkey : canonicalStatusKey env.platform (((statuses.map fun status =>
        (status, viewerPatch (flagsOf status))).foldl (fun row e =>
          if canonicalStatusKey env.platform row.fields =
            canonicalStatusKey env.platform e.1.fields then e.2.apply row else row) row).fields) =
        canonicalStatusKey env.platform row.fields := by
      rw [ih]
      rfl
    simp only [hkey, eq_comm (a := canonicalStatusKey env.platform row.fields)]
    split_ifs with hsame
    · rw [viewerPatch_apply, ih]
      rfl
    · exact ih

end Patches

/-! ### What a reconciliation reads -/

section Reads

variable {env : Frontend} {db : Db} {acct : Str} {r : Reconciliation}

theorem flagsFor_congr {identity identity' : StatusIdentity}
    (h : statusIdentityValueKey env identity = statusIdentityValueKey env identity') :
    db.flagsFor acct identity = db.flagsFor acct identity' := by
  have hprotocol : identity.protocol = identity'.protocol :=
    (congrArg StatusIdentity.protocol h :)
  have huri : identity.canonicalUri = identity'.canonicalUri :=
    (congrArg StatusIdentity.canonicalUri h :)
  unfold Db.flagsFor
  rw [hprotocol, huri]

/-- What has been read are the flags of the captured posts, of as many as were asked for. -/
structure Reads (db : Db) (r : Reconciliation) : Prop where
  flags : ∀ summary ∈ r.summaries, summary.2 = db.flagsFor r.actingAccountAcct summary.1 ∧
    ∃ status ∈ r.statuses, status.fields.rest.statusIdentity = summary.1
  asked : ∀ status ∈ r.statuses.take r.offset,
    ∃ summary ∈ r.summaries, summary.1 = status.fields.rest.statusIdentity

theorem Reads.flagsOf (h : Reads db r) (hread : r.statuses.length ≤ r.offset)
    (hstatus : status ∈ r.statuses) : r.flagsOf env status =
      db.flagsFor r.actingAccountAcct status.fields.rest.statusIdentity := by
  unfold Reconciliation.flagsOf Reconciliation.byIdentity
  rw [OrderedMap.get_ofList]
  cases hfinal : OrderedMap.final (r.summaries.map fun summary =>
      (statusIdentityValueKey env summary.1, summary.2)) (statusIdentityKey env status) with
  | none =>
    -- Every captured post has been asked for.
    rw [← List.take_of_length_le hread] at hstatus
    obtain ⟨summary, hsummary, hidentity⟩ := h.asked status hstatus
    refine absurd ?_ (OrderedMap.final_eq_none.1 hfinal)
    rw [List.map_map]
    refine List.mem_map.2 ⟨summary, hsummary, ?_⟩
    show statusIdentityValueKey env summary.1 = _
    rw [hidentity]
    rfl
  | some flags =>
    obtain ⟨summary, hsummary, heq⟩ := List.mem_map.1 (OrderedMap.mem_of_final hfinal)
    obtain ⟨hkey, rfl⟩ := Prod.ext_iff.1 heq
    rw [Option.getD_some, (h.flags summary hsummary).1]
    exact flagsFor_congr hkey

theorem Reads.readChunk (h : Reads db r) : Reads db
    { r with
      summaries := r.summaries ++ db.statusViewerStates r.actingAccountAcct
        (((r.statuses.map fun status => status.fields.rest.statusIdentity).drop r.offset).take
          STATUS_VIEWER_STATES_BATCH_SIZE)
      offset := r.offset + STATUS_VIEWER_STATES_BATCH_SIZE } where
  flags summary hsummary := by
    rcases List.mem_append.1 hsummary with hold | hnew
    · exact h.flags summary hold
    · obtain ⟨hchunk, hflags⟩ := db.flagsFor_of_mem hnew
      obtain ⟨status, hstatus, hidentity⟩ :=
        List.mem_map.1 (List.mem_of_mem_drop (List.mem_of_mem_take hchunk))
      exact ⟨hflags, status, hstatus, hidentity⟩
  asked status hstatus := by
    have htake : status ∈ r.statuses.take (r.offset + STATUS_VIEWER_STATES_BATCH_SIZE) := hstatus
    rw [List.take_add] at htake
    rcases List.mem_append.1 htake with hold | hnew
    · obtain ⟨summary, hsummary, hidentity⟩ := h.asked status hold
      exact ⟨summary, List.mem_append_left _ hsummary, hidentity⟩
    · have hchunk : status.fields.rest.statusIdentity ∈ ((r.statuses.map fun status =>
          status.fields.rest.statusIdentity).drop r.offset).take
            STATUS_VIEWER_STATES_BATCH_SIZE := by
        rw [← List.map_drop, ← List.map_take]
        exact List.mem_map_of_mem hnew
      exact ⟨_, List.mem_append_right _ (db.mem_statusViewerStates hchunk), rfl⟩

end Reads

/-! ### The invariant -/

section Invariant

variable {env : Frontend} {s : System}

theorem Right.of_flags {db db' : Db} {acct : Str} {flags : ViewerFlags}
    (h : Right env db acct statuses fields flags)
    (hfields : db'.flagsFor acct fields.rest.statusIdentity =
      db.flagsFor acct fields.rest.statusIdentity)
    (hstatuses : ∀ status ∈ statuses, db'.flagsFor acct status.fields.rest.statusIdentity =
      db.flagsFor acct status.fields.rest.statusIdentity) :
    Right env db' acct statuses fields flags := by
  unfold Right at h ⊢
  cases htarget : lastTarget env statuses fields with
  | none =>
    rw [htarget] at h
    exact h.trans hfields.symm
  | some target =>
    rw [htarget] at h
    exact (hstatuses target (mem_of_lastTarget htarget)).trans (h.trans hfields.symm)

/-- The rows are stored under their keys and will have the flags of the active account; the switch
that is under way is to it, and has read its flags. -/
structure Good (env : Frontend) (s : System) : Prop where
  integrity : Integrity env.platform s.timeline.entities s.timeline.canonicalIndex
  shown : ShowsStored s.timeline
  rows : AllFields (s.Keeps env) s.timeline.entities
  acting : ∀ r, s.reconciliation = some r → r.actingAccountAcct = s.activeAcct ∧ Reads s.db r

theorem System.targets_of_some {r : Reconciliation} (h : s.reconciliation = some r) :
    s.targets = r.statuses := by
  rw [targets, h]
  rfl

theorem System.targets_of_none (h : s.reconciliation = none) : s.targets = [] := by
  rw [targets, h]
  rfl

namespace Good

variable {views : List Hydration.TimelineStatus}

theorem start (db : Db) (activeAcct : Str) : Good env (.start db activeAcct) where
  integrity := .create
  shown := by
    intro columnId rows hget
    cases hget
  rows := by
    intro key entity hget
    cases hget
  acting := by
    intro r hr
    cases hr

/-- What the loads are does not matter to the rows. -/
theorem of_loads (h : Good env s) (loads : List Load) : Good env { s with loads := loads } where
  integrity := h.integrity
  shown := h.shown
  rows := h.rows
  acting := h.acting

theorem save (h : Good env s) {db : Db} (hmeets : s.SaveMeets db) :
    Good env { s with db := db } where
  integrity := h.integrity
  shown := h.shown
  rows key entity hget := by
    refine (h.rows key entity hget).of_flags (hmeets entity ?_) fun status hstatus =>
      hmeets status (List.mem_append_right _ hstatus)
    exact List.mem_append_left _ (List.mem_map_of_mem (OrderedMap.get_eq_some.1 hget))
  acting r hr := by
    obtain ⟨hacct, hreads⟩ := h.acting r hr
    refine ⟨hacct, fun summary hsummary => ?_, hreads.asked⟩
    obtain ⟨hflags, status, hstatus, hidentity⟩ := hreads.flags summary hsummary
    refine ⟨?_, status, hstatus, hidentity⟩
    have hsame := hmeets status
      (List.mem_append_right _ ((System.targets_of_some hr).symm ▸ hstatus))
    rw [hidentity] at hsame
    rw [hflags, hacct]
    exact hsame.symm

theorem switchAccount (h : Good env s) {acct : Str} (hmeets : s.SwitchMeets env acct) :
    Good env (s.switchAccount env acct) := by
  unfold System.switchAccount
  by_cases hpending : s.reconciliation.isSome
  · rw [if_pos hpending]
    exact h
  · rw [if_neg hpending]
    have hnone : s.reconciliation = none := Option.not_isSome_iff_eq_none.1 hpending
    refine ⟨h.integrity, h.shown, fun key entity hget => ?_, fun r hr => ?_⟩
    · -- The posts to be patched are those that are captured, also when there are none.
      have hright := hmeets hnone (key, entity) (OrderedMap.get_eq_some.1 hget)
      show Right env s.db acct _ entity.fields _
      convert hright using 1
      unfold System.targets
      dsimp only
      split_ifs with hempty
      · rw [List.isEmpty_iff.1 hempty]
        rfl
      · rfl
    · dsimp only at hr
      split_ifs at hr
      obtain rfl := Option.some.inj hr
      refine ⟨rfl, fun summary hsummary => ?_, fun status hstatus => ?_⟩
      · exact absurd hsummary List.not_mem_nil
      · exact absurd hstatus List.not_mem_nil

theorem readChunk (h : Good env s) : Good env s.readChunk := by
  unfold System.readChunk
  split
  · exact h
  · next r hr =>
    split_ifs
    · refine ⟨h.integrity, h.shown, fun key entity hget => ?_, fun r' hr' => ?_⟩
      · have hkeeps := h.rows key entity hget
        unfold System.Keeps at hkeeps ⊢
        rw [System.targets_of_some hr] at hkeeps
        exact hkeeps
      · obtain rfl := Option.some.inj hr'
        obtain ⟨hacct, hreads⟩ := h.acting r hr
        exact ⟨hacct, hreads.readChunk⟩
    · exact h

theorem patch (h : Good env s) : Good env (s.patch env) := by
  unfold System.patch
  split
  · exact h
  · next r hr =>
    obtain ⟨hacct, hreads⟩ := h.acting r hr
    split_ifs with hoffset hother
    · exact h
    · exact absurd hacct.symm hother
    · have hpatches : ∀ e ∈ r.patches env, e.2.KeepsIdentity ∧ e.2.Idempotent := by
        intro e he
        obtain ⟨status, -, rfl⟩ := List.mem_map.1 he
        exact ⟨viewerPatch_keepsIdentity _, viewerPatch_idempotent _⟩
      refine ⟨?_, h.shown.reduce _, fun key entity hget => ?_, fun r' hr' => by cases hr'⟩
      · exact h.integrity.reduce
          (patchesKeepIdentity_patchOperations fun e he => (hpatches e he).1)
          (operationsMeet_patchOperations _ _)
      · obtain ⟨row, hrow, hfields⟩ := exists_patched h.integrity
          (fun e he => (hpatches e he).1) (fun e he => (hpatches e he).2) hget
        have hkeeps := h.rows key row hrow
        rw [Reconciliation.patches, fields_patchedBy] at hfields
        rw [hfields]
        unfold System.Keeps Right at hkeeps ⊢
        rw [System.targets_of_some hr] at hkeeps
        cases htarget : lastTarget env r.statuses row.fields with
        | none =>
          rw [htarget] at hkeeps
          exact hkeeps
        | some target =>
          rw [htarget] at hkeeps
          have hflags : r.flagsOf env target =
              s.db.flagsFor r.actingAccountAcct target.fields.rest.statusIdentity :=
            hreads.flagsOf (Nat.le_of_not_lt hoffset) (mem_of_lastTarget htarget)
          show r.flagsOf env target = s.db.flagsFor s.activeAcct row.fields.rest.statusIdentity
          rw [hflags, hacct]
          exact hkeeps

variable {answer : Answer}

/-- The flags of a view of a page are those of the account that it is from. -/
theorem flags_of_page {load : Load} (hpage : load.page env = some views)
    (hanswer : load.answer = some answer) {view : Hydration.TimelineStatus} (hview : view ∈ views) :
    answer.flags view = view.flags := by
  unfold Load.page at hpage
  rw [hanswer, Option.bind_some] at hpage
  cases answer with
  | live => rfl
  | cached db =>
    show (db.sourceFlags view).getD view.flags = view.flags
    cases hsource : db.sourceFlags view with
    | none => rfl
    | some flags => exact (db.flags_of_loaded hpage hview hsource).symm

/-- The rows that a page shows keep what they show right. -/
theorem showPage (h : Good env s) {column : ColumnSummary}
    (hviews : ∀ view ∈ views, answer.flags view = view.flags)
    (hmeets : s.LandMeets env answer column views nearTop) :
    Good env (s.showPage env column views nearTop) := by
  have hpatch : PatchesKeepIdentity
      [pageOperation env column (views.map rowOf) (s.current column) nearTop] := by
    intro target patch hmem
    cases List.mem_singleton.1 hmem
  refine ⟨h.integrity.reduce hpatch ⟨hmeets.fits, trivial⟩, h.shown.reduce _, ?_, h.acting⟩
  refine AllFields.replaceColumn (P := s.Keeps env) h.rows fun status hstatus => ?_
  refine TimelineStatus.every_of_quote ?_ (hmeets.embedded status hstatus)
  rcases mem_nextStatuses hstatus with hpage | hcurrent
  · -- The flags of a row of the page are those of the account that it is from.
    obtain ⟨view, hview, rfl⟩ := List.mem_map.1 hpage
    have hright := hmeets.source view hview hstatus
    rw [hviews view hview] at hright
    rw [fields_rowOf]
    exact hright
  · -- A row that the column has is stored.
    unfold System.current at hcurrent
    cases hrows : s.timeline.timelines.get column.id with
    | none =>
      rw [hrows] at hcurrent
      exact absurd hcurrent List.not_mem_nil
    | some rows =>
      rw [hrows] at hcurrent
      obtain ⟨key, hget⟩ := h.shown column.id rows hrows status hcurrent
      exact h.rows key status hget

theorem land (h : Good env s) {place : ℕ} (hmeets : s.Meets env (.land place nearTop)) :
    Good env (s.land env place nearTop) := by
  unfold System.land
  split
  · exact h
  · next load hload =>
    split_ifs
    · exact h
    · refine of_loads (s := match load.page env with
        | none => s
        | some views => s.showPage env load.column views nearTop) ?_ _
      cases hpage : load.page env with
      | none => exact h
      | some views =>
        obtain ⟨answer, hanswer, hviews⟩ := Option.bind_eq_some_iff.1 hpage
        exact h.showPage (fun view hview => flags_of_page hpage hanswer hview)
          (hmeets load hload answer hanswer views hpage)

theorem step (h : Good env s) {event : Event} (hmeets : s.Meets env event) :
    Good env (step env s event) := by
  cases event with
  | save db => exact h.save hmeets
  | switchAccount acct => exact h.switchAccount hmeets
  | readChunk => exact h.readChunk
  | patch => exact h.patch
  | load column refresh => exact h.of_loads _
  | read place => exact h.of_loads _
  | fetch place views => exact h.of_loads _
  | land place nearTop => exact h.land hmeets
  | discard place => exact h.of_loads _

theorem run (h : Good env s) {events : List Event}
    (hmeets : Throughout (Displayed.step env) (System.Meets env) s events) :
    Good env (events.foldl (Displayed.step env) s) := by
  induction events generalizing s with
  | nil => exact h
  | cons event events ih =>
    obtain ⟨hfirst, hrest⟩ := throughout_cons.1 hmeets
    exact ih (h.step hfirst) hrest

/-- When no switch is under way, the rows have their flags already. -/
theorem displays (h : Good env s) (hsettled : s.reconciliation = none) : DisplaysActive s := by
  intro e he
  have hkeeps := h.rows e.1 e.2 (OrderedMap.get_eq_some.2 he)
  unfold System.Keeps at hkeeps
  rw [System.targets_of_none hsettled] at hkeeps
  exact hkeeps

end Good

/-- In every run whose steps meet the condition, the stored rows show the flags of the active
account as soon as all switches and loads are settled. -/
theorem flags_of_settled (env : Frontend) (db : Db) (activeAcct : Str) (events : List Event)
    (hmeets : Throughout (step env) (System.Meets env) (.start db activeAcct) events)
    (hsettled : Settled (events.foldl (step env) (.start db activeAcct))) :
    DisplaysActive (events.foldl (step env) (.start db activeAcct)) :=
  ((Good.start db activeAcct).run hmeets).displays hsettled.1

end Invariant

/-! ### Two accounts and a post -/

def ann : Str := "ann@alpha.example".toList

def bob : Str := "bob@alpha.example".toList

def sampleUri : Str := "https://alpha.example/statuses/1".toList

/-- A database with one post, which some accounts have received and Bob has favourited. -/
def sampleDb (accts : List Str) : Db where
  cache := Hydration.persistStatusGraph Hydration.noJson
    { Hydration.post "1".toList with uri := sampleUri } "alpha.example".toList (some bob) .empty
  updatedAt _ := []
  statusIdentities := [⟨"1".toList, "alpha.example".toList, .activityPub, sampleUri⟩]
  timelineEntries := accts.map fun acct =>
    { timelineType := "home".toList
      serverDomain := "alpha.example".toList
      statusId := "1".toList
      accountAcct := acct
      positionAt := sampleTime 1 }
  notifications := []

def sampleFrontend : Frontend where
  platform := samplePlatform
  json := Hydration.noJson
  shows _ _ := true

def home : ColumnSummary where
  id := "home".toList
  timeline := .aggregate "home".toList
  maxStatuses := some 100

/-- Home is loaded. -/
def sampleLoad : List Event := [.load home false, .read 0, .land 0 true]

/-- Home is loaded, and the account is changed. -/
def sampleSwitch : List Event :=
  sampleLoad ++ [.switchAccount bob, .readChunk, .patch]

theorem flags_of_settled_sampleSwitch :
    DisplaysActive (sampleSwitch.foldl (step sampleFrontend) (.start (sampleDb [ann, bob]) ann)) :=
  flags_of_settled sampleFrontend (sampleDb [ann, bob]) ann sampleSwitch
    ⟨trivial, trivial, by decide +kernel, by decide +kernel, trivial, trivial, trivial⟩
    ⟨by decide +kernel, by decide +kernel⟩

/-- Ann is shown that she has favourited a post that she has not received. -/
theorem not_flags_of_settled : ¬ ∀ (env : Frontend) (db : Db) (activeAcct : Str)
    (events : List Event), Settled (events.foldl (step env) (.start db activeAcct)) →
      DisplaysActive (events.foldl (step env) (.start db activeAcct)) := by
  intro h
  have hdisplays := h sampleFrontend (sampleDb [bob]) ann sampleLoad
    ⟨by decide +kernel, by decide +kernel⟩
  unfold DisplaysActive at hdisplays
  revert hdisplays
  decide +kernel

end Awayuki.Displayed
