import Awayuki.Library.Runs
import Awayuki.Search.Operations

/-!
# Search index: the indexer

The worker of `services/search_indexer.rs` over the tables of statuses and accounts.  A worker reads
in one transaction and commits in a later one; writers, other workers and workers of other
processes go on in between.

* `Db.write`: what a writer does to the rows, with the triggers;
* `Db.work`: the next transaction of `run_index_step`, from the phase in which the worker is;
* `step`: everything that may happen next.
-/

namespace Awayuki.Search

/-! ### Statuses and accounts -/

/-- `STATUS_TEXT_SCOPE_VERSION`. -/
def statusTextScopeVersion : ℕ := 2

/-- The columns of `statuses` that are indexed. -/
structure StatusFields where
  content : Str
  spoilerText : Str
  deriving DecidableEq

/-- A row of `status_search_icu_content`. -/
structure StatusContent where
  tokenText : Str
  textScopeVersion : ℕ
  deriving DecidableEq

/-- The columns of `accounts` that are indexed. -/
structure AccountFields where
  acct : Str
  displayName : Str
  deriving DecidableEq

def statusSchema : Schema StatusFields StatusContent where
  fields row := [row.content, row.spoilerText]
  content tokenText := ⟨tokenText, statusTextScopeVersion⟩
  posting doc := if doc.textScopeVersion = 2 then some doc.tokenText else none

/-- A row of `account_search_icu_content` is its tokens. -/
def accountSchema : Schema AccountFields Str where
  fields row := [row.acct, row.displayName]
  content tokenText := tokenText
  posting tokenText := some tokenText

/-- The database, with the number of times that `randomblob` has been called. -/
structure Db (G : Type) where
  statuses : Index StatusFields StatusContent G
  accounts : Index AccountFields Str G
  drawn : ℕ

inductive Write
  | insertStatus (key : Key) (fields : StatusFields) (now : Str)
  | updateStatus (old new : Key) (fields : StatusFields) (now : Str)
  | deleteStatus (key : Key) (now : Str)
  | insertAccount (key : Key) (fields : AccountFields) (now : Str)
  | updateAccount (old new : Key) (fields : AccountFields) (now : Str)
  | deleteAccount (key : Key) (now : Str)

/-- What a worker will do in its next transaction. -/
inductive Phase (G : Type)
  | loadStatusQueue
  | commitStatusQueue (prepared : List (PreparedQueueRow G))
  | loadAccountQueue
  | commitAccountQueue (prepared : List (PreparedQueueRow G))
  | loadAccountState
  | loadAccountRows (state : BackfillState)
  | commitAccountBackfill (state : BackfillState) (prepared : List (PreparedBackfillRow AccountFields))
  | loadStatusState
  | loadStatusRows (state : BackfillState)
  | commitStatusBackfill (state : BackfillState) (prepared : List (PreparedBackfillRow StatusFields))

inductive Event
  | write (write : Write)
  | work (worker : ℕ)
  /-- The writer is busy, or the process stops: the worker starts anew. -/
  | abandon (worker : ℕ)
  deriving Inhabited

/-- Is this the worker's own event? -/
def Event.isOf (worker : ℕ) : Event → Prop
  | .write _ => False
  | .work i | .abandon i => i = worker

structure System (G : Type) where
  db : Db G
  workers : ℕ → Phase G

variable {G : Type}

/-- `EXISTS(SELECT 1 FROM …_search_index_queue)`. -/
def Index.hasWork {F D : Type} (s : Index F D G) : Bool := !s.queue.entries.isEmpty

/-! ### Transactions -/

/-- A write to the rows; `randomblob` gives each queued key its generation. -/
def Db.write (randomblob : ℕ → G) (db : Db G) : Write → Db G
  | .insertStatus key fields now =>
    { db with
      statuses := db.statuses.insert key fields (randomblob db.drawn) now
      drawn := db.drawn + 1 }
  | .updateStatus old new fields now =>
    { db with
      statuses := db.statuses.update old new fields (randomblob db.drawn)
        (randomblob (db.drawn + 1)) now
      drawn := db.drawn + 2 }
  | .deleteStatus key now =>
    { db with
      statuses := db.statuses.delete key (randomblob db.drawn) now
      drawn := db.drawn + 1 }
  | .insertAccount key fields now =>
    { db with
      accounts := db.accounts.insert key fields (randomblob db.drawn) now
      drawn := db.drawn + 1 }
  | .updateAccount old new fields now =>
    { db with
      accounts := db.accounts.update old new fields (randomblob db.drawn)
        (randomblob (db.drawn + 1)) now
      drawn := db.drawn + 2 }
  | .deleteAccount key now =>
    { db with
      accounts := db.accounts.delete key (randomblob db.drawn) now
      drawn := db.drawn + 1 }

section Work

variable [DecidableEq G]

/-- `commit_prepared_account_queue`: statuses come first. -/
def Db.commitPreparedAccountQueue (db : Db G) (prepared : List (PreparedQueueRow G)) : Db G :=
  if db.statuses.hasWork then db
  else { db with accounts := db.accounts.commitPreparedQueue accountSchema prepared }

/-- `commit_prepared_account_backfill`: the queues come first. -/
def Db.commitPreparedAccountBackfill (db : Db G) (state : BackfillState)
    (prepared : List (PreparedBackfillRow AccountFields)) : Db G :=
  if db.statuses.hasWork || db.accounts.hasWork then db
  else { db with accounts := db.accounts.commitPreparedBackfill accountSchema state prepared }

/-- `commit_prepared_status_backfill`: the queues and the backfill of the accounts come first. -/
def Db.commitPreparedStatusBackfill (db : Db G) (state : BackfillState)
    (prepared : List (PreparedBackfillRow StatusFields)) : Db G :=
  if db.statuses.hasWork || db.accounts.hasWork || !db.accounts.backfill.completed then db
  else { db with statuses := db.statuses.commitPreparedBackfill statusSchema state prepared }

/-- The transactions of `run_index_step`, in their order. -/
def Db.work (indexText : List Str → Str) (db : Db G) : Phase G → Db G × Phase G
  | .loadStatusQueue =>
    match db.statuses.loadQueueBatch with
    | [] => (db, .loadAccountQueue)
    | queue => (db, .commitStatusQueue (queue.map (prepareQueueRow statusSchema indexText)))
  | .commitStatusQueue prepared =>
    ({ db with statuses := db.statuses.commitPreparedQueue statusSchema prepared },
      .loadStatusQueue)
  | .loadAccountQueue =>
    match db.accounts.loadQueueBatch with
    | [] => (db, .loadAccountState)
    | queue => (db, .commitAccountQueue (queue.map (prepareQueueRow accountSchema indexText)))
  | .commitAccountQueue prepared => (db.commitPreparedAccountQueue prepared, .loadStatusQueue)
  | .loadAccountState =>
    let state := db.accounts.backfill
    if state.completed then (db, .loadStatusState) else (db, .loadAccountRows state)
  | .loadAccountRows state =>
    let rows := db.accounts.loadBackfillBatch state
    (db, .commitAccountBackfill state (rows.map (prepareBackfillRow accountSchema indexText)))
  | .commitAccountBackfill state prepared =>
    (db.commitPreparedAccountBackfill state prepared, .loadStatusQueue)
  | .loadStatusState =>
    let state := db.statuses.backfill
    if state.completed then (db, .loadStatusQueue) else (db, .loadStatusRows state)
  | .loadStatusRows state =>
    let rows := db.statuses.loadBackfillBatch state
    (db, .commitStatusBackfill state (rows.map (prepareBackfillRow statusSchema indexText)))
  | .commitStatusBackfill state prepared =>
    (db.commitPreparedStatusBackfill state prepared, .loadStatusQueue)

/-- What happens next. -/
def step (indexText : List Str → Str) (randomblob : ℕ → G) (s : System G) : Event → System G
  | .write write => { s with db := s.db.write randomblob write }
  | .work i =>
    let (db, phase) := s.db.work indexText (s.workers i)
    { db := db, workers := Function.update s.workers i phase }
  | .abandon i => { s with workers := Function.update s.workers i .loadStatusQueue }

/-- The runs of writers and workers. -/
abbrev Run (indexText : List Str → Str) (randomblob : ℕ → G) :
    System G → List Event → System G → Prop :=
  Runs.Run fun s event t => step indexText randomblob s event = t

end Work

/-! ### Where a run starts -/

/-- The state that the migrations 035 and 037 set. -/
def BackfillState.reset (cacheCounter : ℕ) : BackfillState :=
  ⟨none, 0, cacheCounter, decide (cacheCounter = 0)⟩

/-- The tables of an index that has just been created for the rows there are. -/
def Index.installed {F D : Type} (rows : OrderedMap Key F) : Index F D G :=
  ⟨rows, rows.entries.length, .empty, .empty, .empty, .reset rows.entries.length⟩

/-- A database without search index, after all migrations. -/
def Db.installed (statuses : OrderedMap Key StatusFields)
    (accounts : OrderedMap Key AccountFields) : Db G :=
  ⟨.installed statuses, .installed accounts, 0⟩

/-- Migration 037: documents of earlier versions are marked and will be replaced. -/
def Db.migrate037 (db : Db G) : Db G :=
  { db with
    statuses :=
      { db.statuses with
        content := db.statuses.content.map fun doc => { doc with textScopeVersion := 1 }
        postings := .empty
        backfill := .reset db.statuses.cacheCounter } }

/-- A database with the status index of the versions before migration 037. -/
structure Db.Legacy (indexText : List Str → Str) (randomblob : ℕ → G) (db : Db G) : Prop where
  counter : db.statuses.cacheCounter = db.statuses.rows.entries.length
  deleted : ∀ {key entry}, db.statuses.queue.get key = some entry → entry.action = .delete →
    db.statuses.rows.get key = none
  documents : ∀ {key doc}, db.statuses.queue.get key = none →
    db.statuses.content.get key = some doc → (db.statuses.rows.get key).isSome
  accounts : db.accounts.Covered accountSchema indexText
  statusGenerations : ∀ {key entry}, db.statuses.queue.get key = some entry →
    ∃ n < db.drawn, entry.generation = randomblob n
  accountGenerations : ∀ {key entry}, db.accounts.queue.get key = some entry →
    ∃ n < db.drawn, entry.generation = randomblob n

/-- The databases that the migrations leave. -/
inductive Db.Migrated (indexText : List Str → Str) (randomblob : ℕ → G) : Db G → Prop
  | installed (statuses : OrderedMap Key StatusFields) (accounts : OrderedMap Key AccountFields) :
    Db.Migrated indexText randomblob (.installed statuses accounts)
  | upgraded {db : Db G} (legacy : db.Legacy indexText randomblob) :
    Db.Migrated indexText randomblob db.migrate037

structure System.Start (indexText : List Str → Str) (randomblob : ℕ → G) (s : System G) : Prop where
  db : s.db.Migrated indexText randomblob
  workers : ∀ i, s.workers i = .loadStatusQueue

end Awayuki.Search
