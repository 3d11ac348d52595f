import Awayuki.Db.Models
import Awayuki.Library.Runs

/-!
# Startup synchronization of a collection

`startup_sync.rs` reads the bookmarks and the favourites of an account page by page.  What is
known of the scan is in the database, so that an interrupted one goes on where it was.

* `StartupSyncPolicy.plan`, `preparePhaseAt`: is there anything to do, and from where?
* `commitPageCheckpoint`: the members of a page and the cursor of the next, at once;
* `completePhaseAt`: what is not a member is cleared;
* `State.step`: the loop over the pages, with failures and other writers in between.
-/

namespace Awayuki.Sync

inductive StartupSyncPhase
  | home | «public» | notifications | bookmarks | favourites
  deriving DecidableEq, Repr

def StartupSyncPhase.supportsFullReconciliation : StartupSyncPhase → Bool
  | bookmarks | favourites => true
  | _ => false

/-- The row of an account and a phase in `startup_sync_state`. -/
structure StartupSyncState where
  highWaterId : Option Str
  resumeCursor : Option Str
  lastSuccessAt : Option ℤ
  lastFullReconcileAt : Option ℤ
  reconciliationGeneration : Option Str

inductive StartupSyncPlan
  | skip
  | incremental (sinceId : Option Str) (maxPages : ℕ)
  | fullReconcile (generation : Str) (cursor : Option Str)

structure StartupSyncPolicy where
  headRefreshInterval : ℤ
  fullReconcileInterval : ℤ

def StartupSyncPolicy.plan (policy : StartupSyncPolicy) (phase : StartupSyncPhase)
    (state : Option StartupSyncState) (now : ℤ) (nextGeneration : Str) : StartupSyncPlan :=
  match state.bind (·.reconciliationGeneration) with
  | some generation => .fullReconcile generation (state.bind (·.resumeCursor))
  | none =>
    if phase.supportsFullReconciliation &&
        (state.bind (·.lastFullReconcileAt)).all (policy.fullReconcileInterval ≤ now - ·) then
      .fullReconcile nextGeneration none
    else if phase.supportsFullReconciliation &&
        (state.bind (·.lastSuccessAt)).any (now - · < policy.headRefreshInterval) then .skip
    else .incremental (state.bind (·.highWaterId)) 1

/-! ### The tables -/

/-- What the database has about one account and phase; `flag` is the viewer column of the phase. -/
structure Tables where
  state : Option StartupSyncState
  members : Finset (Str × EntityKey)
  entries : Finset EntityKey
  flag : EntityKey → Option Bool

namespace Tables

def generation (db : Tables) : Option Str := db.state.bind (·.reconciliationGeneration)

def resumeCursor (db : Tables) : Option Str := db.state.bind (·.resumeCursor)

/-- The row that `INSERT … ON CONFLICT DO NOTHING` leaves. -/
def row (db : Tables) : StartupSyncState := db.state.getD ⟨none, none, none, none, none⟩

/-- Does the plan start a generation, rather than go on with one? -/
def starts (db : Tables) : StartupSyncPlan → Bool
  | .fullReconcile _ cursor => cursor.isNone && db.generation.isNone
  | _ => false

/-- The transaction of `prepare_phase_at`. -/
def preparePhaseAt (db : Tables) (plan : StartupSyncPlan) : Tables :=
  match plan with
  | .fullReconcile generation _ =>
    if db.starts plan then
      { db with
        state := some { db.row with
          reconciliationGeneration := some generation
          resumeCursor := none }
        members := ∅ }
    else { db with state := some db.row }
  | _ => { db with state := some db.row }

def commitPageCheckpoint (db : Tables) (highWaterId nextCursor generation : Option Str)
    (members : List EntityKey) : Option Tables :=
  db.state.map fun state =>
    { db with
      members := match generation with
        | some generation => db.members ∪ (members.map (generation, ·)).toFinset
        | none => db.members
      state := some { state with
        highWaterId := highWaterId.or state.highWaterId
        resumeCursor := nextCursor } }

/-- Is the status among the members that the scan has seen? -/
def seen (db : Tables) (generation : Str) (key : EntityKey) : Bool :=
  (generation, key) ∈ db.members

def completePhaseAt (db : Tables) (phase : StartupSyncPhase) (now : ℤ) : Option Tables :=
  db.state.map fun state =>
    match db.generation with
    | some generation =>
      { flag := fun key =>
          if phase.supportsFullReconciliation && db.flag key == some true &&
            !db.seen generation key then some false else db.flag key
        entries := db.entries.filter fun key => db.seen generation key
        members := db.members.filter fun member => member.1 ≠ generation
        state := some { state with
          resumeCursor := none
          reconciliationGeneration := none
          lastSuccessAt := some now
          lastFullReconcileAt := some now } }
    | none =>
      { db with state := some { state with
          resumeCursor := none
          reconciliationGeneration := none
          lastSuccessAt := some now } }

/-- One row of `status_viewer_state`. -/
def upsertFlag (db : Tables) (key : EntityKey) (value : Option Bool) : Tables :=
  { db with flag := Function.update db.flag key value }

end Tables

/-! ### Pages -/

/-- What of a status of the API the scan looks at. -/
structure Status where
  id : Str
  bookmarked : Option Bool
  favourited : Option Bool
  reblog : Option Status
  quote : Option Status

/-- The viewer column of the phase. -/
def Status.viewerColumn (phase : StartupSyncPhase) (status : Status) : Option Bool :=
  match phase with
  | .bookmarks => status.bookmarked
  | .favourites => status.favourited
  | _ => none

structure Response where
  data : List Status
  nextMaxId : Option Str

/-- What the phase takes from the statuses of a response. -/
def pageStatus (phase : StartupSyncPhase) (status : Status) : Status :=
  match phase with
  | .bookmarks => { status with bookmarked := some true }
  | .favourites => { status.reblog.getD status with favourited := some true }
  | _ => status

structure Page where
  highWaterId : Option Str
  statuses : List Status
  nextCursor : Option Str

def Response.nextCursor (response : Response) : Option Str :=
  response.nextMaxId.filter fun cursor => !cursor.isEmpty

/-- The local variables of `run_collection_phase`. -/
structure Scan where
  generation : Option Str
  cursor : Option Str
  sinceId : Option Str
  maxPages : ℕ
  seenCursors : Finset Str
  page : ℕ

def Scan.next (scan : Scan) : Scan := { scan with page := (scan.page + 1) % 2 ^ 32 }

/-- What becomes of the response to the request of a page. -/
def Scan.receive (scan : Scan) (phase : StartupSyncPhase) (response : Response) : Page where
  highWaterId := if scan.page = 1 && scan.cursor.isNone then response.data.head?.map (·.id)
    else none
  statuses := response.data.map (pageStatus phase)
  nextCursor := response.nextCursor

section Domain

variable (phase : StartupSyncPhase) (domain : Str)

def Status.key (status : Status) : EntityKey := (status.id, domain)

def Page.members (page : Page) : List EntityKey := page.statuses.map (Status.key domain)

/-- The rows of `status_viewer_state` that `persist_status_graph` writes, in order. -/
def Status.viewerRows (status : Status) : List (EntityKey × Option Bool) :=
  (status.reblog.toList ++ status.quote.toList ++ [status]).map fun status =>
    (status.key domain, status.viewerColumn phase)

/-- A transaction of `save_status_batch`. -/
def Tables.saveBatch (db : Tables) (batch : List Status) : Tables :=
  { db with
    flag := (batch.flatMap (Status.viewerRows phase domain)).foldl
      (fun flag row => Function.update flag row.1 row.2) db.flag
    entries := db.entries ∪ (batch.map (Status.key domain)).toFinset }

end Domain

/-! ### The loop -/

inductive Stage
  | idle
  | requesting (scan : Scan)
  | saving (scan : Scan) (page : Page) (unsaved : List Status)
  | checkpointing (scan : Scan) (page : Page)
  | completing

structure State where
  db : Tables
  stage : Stage

def usizeMax : ℕ := 2 ^ 64 - 1

/-- The variables before the loop. -/
def StartupSyncPlan.scan : StartupSyncPlan → Stage
  | .skip => .idle
  | .incremental sinceId maxPages =>
    .requesting ⟨none, none, sinceId, max maxPages 1, ∅, 0⟩
  | .fullReconcile generation cursor =>
    .requesting ⟨some generation, cursor, none, usizeMax, cursor.toFinset, 0⟩

/-- The end of the loop's body: complete, go on, or give up on a repeated cursor. -/
def Scan.afterCheckpoint (scan : Scan) (page : Page) : Stage :=
  if scan.generation.isNone || scan.maxPages ≤ scan.page || page.statuses.isEmpty then .completing
  else match page.nextCursor with
    | none => .completing
    | some next =>
      if next ∈ scan.seenCursors then .idle
      else .requesting { scan with
        cursor := some next
        seenCursors := insert next scan.seenCursors }

/-- After the response, and after each transaction of the save. -/
def saveStage (scan : Scan) (page : Page) : List Status → Stage
  | [] => .checkpointing scan page
  | unsaved => .saving scan page unsaved

def DB_BATCH_MAX_STATUSES : ℕ := 64

/-- What happens to the tables and to the loop.  `write` is anyone else's write of a viewer state:
an action of the user, an update from the stream. -/
inductive Label
  | prepare (now : ℤ) (nextGeneration : Str) (starts : Bool)
  | respond (request : Scan) (response : Response)
  | save (batch : List Status)
  | retry
  | checkpoint (page : Page)
  | complete (now : ℤ)
  | fail
  | write (key : EntityKey) (value : Option Bool)

section Step

variable (policy : StartupSyncPolicy) (phase : StartupSyncPhase) (domain : Str)

/-- One step; a failure leaves what the transactions before it have written. -/
inductive Step : State → Label → State → Prop
  | prepare {db : Tables} {now : ℤ} {nextGeneration : Str} {plan : StartupSyncPlan}
      (hplan : policy.plan phase db.state now nextGeneration = plan) :
      Step ⟨db, .idle⟩ (.prepare now nextGeneration (db.starts plan))
        ⟨db.preparePhaseAt plan, plan.scan⟩
  | respond {db : Tables} {scan : Scan} {response : Response} {page : Page}
      (hphase : phase.supportsFullReconciliation)
      (hpage : scan.next.receive phase response = page) :
      Step ⟨db, .requesting scan⟩ (.respond scan response)
        ⟨db, saveStage scan.next page page.statuses⟩
  | save {db : Tables} {scan : Scan} {page : Page} {batch unsaved : List Status}
      (hpos : batch ≠ []) (hmax : batch.length ≤ DB_BATCH_MAX_STATUSES) :
      Step ⟨db, .saving scan page (batch ++ unsaved)⟩ (.save batch)
        ⟨db.saveBatch phase domain batch, saveStage scan page unsaved⟩
  | retry {db : Tables} {scan : Scan} {page : Page} {unsaved : List Status} :
      Step ⟨db, .saving scan page unsaved⟩ .retry ⟨db, .saving scan page page.statuses⟩
  | checkpoint {db db' : Tables} {scan : Scan} {page : Page}
      (hcommit : db.commitPageCheckpoint page.highWaterId page.nextCursor scan.generation
        (page.members domain) = some db') :
      Step ⟨db, .checkpointing scan page⟩ (.checkpoint page) ⟨db', scan.afterCheckpoint page⟩
  | complete {db db' : Tables} {now : ℤ} (hcommit : db.completePhaseAt phase now = some db') :
      Step ⟨db, .completing⟩ (.complete now) ⟨db', .idle⟩
  | fail {s : State} : Step s .fail ⟨s.db, .idle⟩
  | write {s : State} {key : EntityKey} {value : Option Bool} :
      Step s (.write key value) ⟨s.db.upsertFlag key value, s.stage⟩

end Step

/-! ### What a plan and a transaction do -/

namespace Tables

variable {db db' : Tables} {policy : StartupSyncPolicy} {phase : StartupSyncPhase}
  {plan : StartupSyncPlan} {now : ℤ} {generation : Str}

/-- A plan starts a generation, goes on with one, or there is none. -/
theorem plan_cases {nextGeneration : Str}
    (hplan : policy.plan phase db.state now nextGeneration = plan) :
    (db.starts plan = true ∧ plan = .fullReconcile nextGeneration none ∧ db.generation = none) ∨
    (db.starts plan = false ∧ ∃ generation, db.generation = some generation ∧
      plan = .fullReconcile generation db.resumeCursor) ∨
    (db.starts plan = false ∧ db.generation = none ∧
      (plan = .skip ∨ ∃ sinceId, plan = .incremental sinceId 1)) := by
  subst hplan
  unfold StartupSyncPolicy.plan
  cases hgeneration : db.state.bind (·.reconciliationGeneration) with
  | some generation =>
    refine .inr (.inl ⟨?_, generation, hgeneration, rfl⟩)
    simp [starts, Tables.generation, hgeneration]
  | none =>
    show (_ ∧ ite _ _ _ = _ ∧ _) ∨ _
    split_ifs with hdue hfresh
    · exact .inl ⟨by simp [starts, Tables.generation, hgeneration], rfl, hgeneration⟩
    · exact .inr (.inr ⟨rfl, hgeneration, .inl rfl⟩)
    · exact .inr (.inr ⟨rfl, hgeneration, .inr ⟨_, rfl⟩⟩)

theorem preparePhaseAt_of_starts {cursor : Option Str}
    (hstarts : db.starts (.fullReconcile generation cursor) = true) :
    db.preparePhaseAt (.fullReconcile generation cursor) =
      { db with
        state := some { db.row with
          reconciliationGeneration := some generation
          resumeCursor := none }
        members := ∅ } := if_pos hstarts

/-- A prepare that starts nothing makes sure that there is a row. -/
theorem preparePhaseAt_of_not_starts (hstarts : db.starts plan = false) :
    db.preparePhaseAt plan = { db with state := some db.row } := by
  unfold preparePhaseAt
  cases plan with
  | fullReconcile generation cursor => exact if_neg (by simp [hstarts])
  | skip => rfl
  | incremental sinceId maxPages => rfl

@[simp] theorem generation_row : ({ db with state := some db.row } : Tables).generation =
    db.generation := by
  unfold generation row
  cases db.state <;> rfl

@[simp] theorem resumeCursor_row : ({ db with state := some db.row } : Tables).resumeCursor =
    db.resumeCursor := by
  unfold resumeCursor row
  cases db.state <;> rfl

theorem commitPageCheckpoint_some {highWaterId nextCursor scanned : Option Str}
    {members : List EntityKey}
    (h : db.commitPageCheckpoint highWaterId nextCursor scanned members = some db') :
    db'.generation = db.generation ∧ db'.resumeCursor = nextCursor ∧ db'.flag = db.flag ∧
      ∀ generation key, (generation, key) ∈ db'.members ↔
        (generation, key) ∈ db.members ∨ scanned = some generation ∧ key ∈ members := by
  unfold commitPageCheckpoint at h
  cases hstate : db.state with
  | none => simp [hstate] at h
  | some state =>
    rw [hstate, Option.map_some, Option.some_inj] at h
    subst h
    refine ⟨by simp [generation, hstate], rfl, rfl, fun generation key => ?_⟩
    cases scanned with
    | none => simp
    | some scanned =>
      refine Finset.mem_union.trans (or_congr_right ?_)
      rw [List.mem_toFinset, List.mem_map]
      constructor
      · rintro ⟨key, hkey, h⟩
        cases h
        exact ⟨rfl, hkey⟩
      · rintro ⟨h, hkey⟩
        cases h
        exact ⟨key, hkey, rfl⟩

/-- A completion clears and removes what the scan of the generation has not seen. -/
theorem completePhaseAt_some (key : EntityKey) (hphase : phase.supportsFullReconciliation)
    (hgeneration : db.generation = some generation) (h : db.completePhaseAt phase now = some db') :
    (key ∈ db'.entries ↔ key ∈ db.entries ∧ db.seen generation key) ∧
      db'.flag key = if db.flag key = some true ∧ ¬ db.seen generation key then some false
        else db.flag key := by
  unfold completePhaseAt at h
  obtain ⟨state, -, rfl⟩ := Option.map_eq_some_iff.1 h
  rw [hgeneration]
  constructor
  · exact Finset.mem_filter
  · show (if (_ && _ && _) = true then _ else _) = _
    simp [hphase]

theorem generation_completePhaseAt (h : db.completePhaseAt phase now = some db') :
    db'.generation = none := by
  unfold completePhaseAt at h
  obtain ⟨state, -, rfl⟩ := Option.map_eq_some_iff.1 h
  cases db.generation <;> rfl

end Tables

/-! ### The scan and the row -/

def Stage.scan? : Stage → Option Scan
  | .requesting scan | .saving scan _ _ | .checkpointing scan _ => some scan
  | .idle | .completing => none

/-- The variables of the loop are those of the row. -/
structure Scan.Follows (scan : Scan) (db : Tables) : Prop where
  generation : scan.generation = db.generation
  full : scan.generation.isSome →
    scan.cursor = db.resumeCursor ∧ scan.sinceId = none ∧ scan.maxPages = usizeMax

def State.InStep (s : State) : Prop := ∀ scan, s.stage.scan? = some scan → scan.Follows s.db

@[simp] theorem scan?_saveStage (scan : Scan) (page : Page) (unsaved : List Status) :
    (saveStage scan page unsaved).scan? = some scan := by
  cases unsaved <;> rfl

/-- The end of the body goes on only with another page of a generation. -/
theorem Scan.afterCheckpoint_scan? {scan next : Scan} {page : Page}
    (h : (scan.afterCheckpoint page).scan? = some next) :
    ∃ cursor, page.nextCursor = some cursor ∧ scan.generation.isSome ∧
      next = { scan with
        cursor := some cursor
        seenCursors := insert cursor scan.seenCursors } := by
  unfold Scan.afterCheckpoint at h
  split_ifs at h with hend
  · cases h
  · cases hcursor : page.nextCursor with
    | none =>
      rw [hcursor] at h
      cases h
    | some cursor =>
      rw [hcursor] at h
      replace h : (ite _ _ _ : Stage).scan? = some next := h
      split_ifs at h with hseen
      · cases h
      · cases h
        refine ⟨cursor, rfl, ?_, rfl⟩
        cases hgeneration : scan.generation with
        | none => simp [hgeneration] at hend
        | some generation => rfl

variable {policy : StartupSyncPolicy} {phase : StartupSyncPhase} {domain : Str} {s t : State}
  {label : Label}

theorem inStep_step (h : Step policy phase domain s label t) (hs : s.InStep) : t.InStep := by
  intro next hnext
  cases h with
  | @prepare db now nextGeneration plan hplan =>
    obtain ⟨hstarts, rfl, hnone⟩ | ⟨hstarts, generation, hsome, rfl⟩ |
      ⟨hstarts, hnone, rfl | ⟨sinceId, rfl⟩⟩ := Tables.plan_cases hplan
    · rw [Tables.preparePhaseAt_of_starts hstarts]
      cases hnext
      exact ⟨rfl, fun _ => ⟨rfl, rfl, rfl⟩⟩
    · rw [Tables.preparePhaseAt_of_not_starts hstarts]
      cases hnext
      exact ⟨by simp [hsome], fun _ => ⟨by simp, rfl, rfl⟩⟩
    · cases hnext
    · rw [Tables.preparePhaseAt_of_not_starts hstarts]
      cases hnext
      exact ⟨by simp [hnone], fun h => by cases h⟩
  | @respond db scan response page hphase hpage =>
    rw [scan?_saveStage] at hnext
    obtain rfl := Option.some_inj.1 hnext
    exact ⟨(hs scan rfl).generation, (hs scan rfl).full⟩
  | @save db scan page batch unsaved hpos hmax =>
    rw [scan?_saveStage] at hnext
    obtain rfl := Option.some_inj.1 hnext
    exact ⟨(hs scan rfl).generation, (hs scan rfl).full⟩
  | @retry db scan page unsaved =>
    exact hs next hnext
  | @checkpoint db db' scan page hcommit =>
    obtain ⟨cursor, hcursor, hfull, rfl⟩ := Scan.afterCheckpoint_scan? hnext
    obtain ⟨hgeneration, hresume, -, -⟩ := Tables.commitPageCheckpoint_some hcommit
    refine ⟨?_, fun _ => ⟨?_, ((hs scan rfl).full hfull).2⟩⟩
    · rw [hgeneration]
      exact (hs scan rfl).generation
    · rw [hresume, hcursor]
  | complete => cases hnext
  | fail => cases hnext
  | write => exact ⟨(hs next hnext).generation, (hs next hnext).full⟩

end Awayuki.Sync
