import Awayuki.Text
import Awayuki.Library.OrderedMap
import Mathlib.Data.List.Sort
import Mathlib.Data.Prod.Lex

/-!
# Search index: the tables

The tables of one search index: the rows that are searched, the queue of the keys whose rows have
changed, the documents and the state of the backfill.  Statuses and accounts have one each; they
differ in the fields that are indexed and in the columns of a document.

* `Index.insert`, `Index.update`, `Index.delete`: the rows are written, and the triggers of the
  migrations run;
* `Index.loadQueueBatch`, `prepareQueueRow`, `Index.applyPrepared`: a queued key is indexed;
* `Index.loadBackfillBatch`, `Index.commitPreparedBackfill`: the rows are indexed from the greatest
  key down.
-/

namespace Awayuki.Search

/-- `QUEUE_CHUNK_SIZE`. -/
def queueChunkSize : ℕ := 8

/-- `BACKFILL_CHUNK_SIZE`. -/
def backfillChunkSize : ℕ := 32

/-- `PRIMARY KEY (id, server_domain)`, in the order of `ORDER BY id, server_domain`. -/
abbrev Key := Str ×ₗ Str

inductive Action
  | upsert | delete
  deriving DecidableEq, Repr

/-- A row of the queue, under its key. -/
structure QueueEntry (G : Type) where
  action : Action
  generation : G
  queuedAt : Str

structure BackfillState where
  cursor : Option Key
  processedCount : ℕ
  totalCount : ℕ
  completed : Bool
  deriving DecidableEq

/-- How the rows of an index become documents: the fields that are segmented, the document that is
stored for their tokens, and the tokens of a document that the full-text table holds. -/
structure Schema (F D : Type) where
  fields : F → List Str
  content : Str → D
  posting : D → Option Str

/-- The tables; `postings` is the full-text table that the triggers of `content` maintain. -/
structure Index (F D G : Type) where
  rows : OrderedMap Key F
  cacheCounter : ℕ
  queue : OrderedMap Key (QueueEntry G)
  content : OrderedMap Key D
  postings : OrderedMap Key Str
  backfill : BackfillState

namespace Index

variable {F D G : Type}

/-! ### The triggers of the rows -/

/-- `INSERT INTO …_search_index_queue … ON CONFLICT DO UPDATE`. -/
def enqueue (s : Index F D G) (key : Key) (action : Action) (generation : G) (now : Str) :
    Index F D G :=
  { s with queue := s.queue.set key ⟨action, generation, now⟩ }

/-- `INSERT`, which fails on a key that is there. -/
def insert (s : Index F D G) (key : Key) (fields : F) (generation : G) (now : Str) : Index F D G :=
  if (s.rows.get key).isSome then s
  else
    { s with rows := s.rows.set key fields, cacheCounter := s.cacheCounter + 1 }.enqueue
      key .upsert generation now

/-- The trigger `…_update`. -/
def updated [DecidableEq F] (s : Index F D G) (old new : Key) (oldFields newFields : F)
    (deletion generation : G) (now : Str) : Index F D G :=
  if old = new ∧ oldFields = newFields then s
  else
    let s := if old = new then s else s.enqueue old .delete deletion now
    s.enqueue new .upsert generation now

/-- `UPDATE` of one row, which may change its key but not to that of another row. -/
def update [DecidableEq F] (s : Index F D G) (old new : Key) (fields : F) (deletion generation : G)
    (now : Str) : Index F D G :=
  match s.rows.get old with
  | none => s
  | some oldFields =>
    if old ≠ new ∧ (s.rows.get new).isSome then s
    else
      let rows := if old = new then s.rows else s.rows.delete old
      { s with rows := rows.set new fields }.updated old new oldFields fields
        deletion generation now

/-- `DELETE` of one row. -/
def delete (s : Index F D G) (key : Key) (generation : G) (now : Str) : Index F D G :=
  if (s.rows.get key).isSome then
    { s with rows := s.rows.delete key, cacheCounter := s.cacheCounter - 1 }.enqueue
      key .delete generation now
  else s

/-! ### The documents and their triggers -/

/-- The postings of a document that is no more. -/
def unpost (schema : Schema F D) (postings : OrderedMap Key Str) (key : Key) (doc : D) :
    OrderedMap Key Str :=
  match schema.posting doc with
  | some _ => postings.delete key
  | none => postings

/-- The postings of a document that is new. -/
def post (schema : Schema F D) (postings : OrderedMap Key Str) (key : Key) (doc : D) :
    OrderedMap Key Str :=
  match schema.posting doc with
  | some tokens => postings.set key tokens
  | none => postings

/-- `INSERT INTO …_search_icu_content … ON CONFLICT DO UPDATE`, with the triggers
`…_search_icu_content_insert` and `…_search_icu_content_update`. -/
def upsertContent [DecidableEq D] (schema : Schema F D) (s : Index F D G) (key : Key) (doc : D) :
    Index F D G :=
  let postings :=
    match s.content.get key with
    | none => post schema s.postings key doc
    | some old =>
      if old = doc then s.postings else post schema (unpost schema s.postings key old) key doc
  { s with content := s.content.set key doc, postings := postings }

/-- `DELETE FROM …_search_icu_content`, with the trigger `…_search_icu_content_delete`. -/
def deleteContent (schema : Schema F D) (s : Index F D G) (key : Key) : Index F D G :=
  match s.content.get key with
  | none => s
  | some old =>
    { s with content := s.content.delete key, postings := unpost schema s.postings key old }

end Index

/-! ### The queue worker -/

structure QueueRow (F G : Type) where
  key : Key
  action : Action
  generation : G
  fields : Option F

structure PreparedQueueRow (G : Type) where
  key : Key
  action : Action
  generation : G
  tokenText : Option Str

section Queue

variable {F D G : Type}

/-- `ORDER BY q.queued_at, q.status_id, q.server_domain`. -/
def QueueEntry.order (e : Key × QueueEntry G) : Str ×ₗ Key := toLex (e.2.queuedAt, e.1)

/-- `load_status_queue_batch`, `load_account_queue_batch`. -/
def Index.loadQueueBatch (s : Index F D G) : List (QueueRow F G) :=
  let sorted := s.queue.entries.insertionSort fun a b => QueueEntry.order a ≤ QueueEntry.order b
  (sorted.take queueChunkSize).map fun e =>
    ⟨e.1, e.2.action, e.2.generation, s.rows.get e.1⟩

/-- `prepare_status_queue_row`, `prepare_account_queue_row`. -/
def prepareQueueRow (schema : Schema F D) (indexText : List Str → Str) (row : QueueRow F G) :
    PreparedQueueRow G where
  key := row.key
  action := row.action
  generation := row.generation
  tokenText :=
    if row.action = .upsert then row.fields.map fun fields => indexText (schema.fields fields)
    else none

variable [DecidableEq D] [DecidableEq G]

/-- Is the key still queued as it was when the row was read? -/
def Index.stillCurrent (s : Index F D G) (row : PreparedQueueRow G) : Bool :=
  match s.queue.get row.key with
  | some entry => entry.action = row.action ∧ entry.generation = row.generation
  | none => false

/-- `DELETE FROM …_search_index_queue WHERE … AND generation = ?`. -/
def Index.dequeue (s : Index F D G) (key : Key) (generation : G) : Index F D G :=
  match s.queue.get key with
  | some entry =>
    if entry.generation = generation then { s with queue := s.queue.delete key } else s
  | none => s

/-- `apply_prepared_status_row`, `apply_prepared_account_row`. -/
def Index.applyPrepared (schema : Schema F D) (s : Index F D G) (row : PreparedQueueRow G) :
    Index F D G :=
  if s.stillCurrent row then
    let s :=
      match row.tokenText with
      | some tokenText => s.upsertContent schema row.key (schema.content tokenText)
      | none => s.deleteContent schema row.key
    s.dequeue row.key row.generation
  else s

/-- `commit_prepared_status_queue`, and the loop of `commit_prepared_account_queue`. -/
def Index.commitPreparedQueue (schema : Schema F D) (s : Index F D G)
    (prepared : List (PreparedQueueRow G)) : Index F D G :=
  prepared.foldl (·.applyPrepared schema) s

end Queue

/-! ### The backfill -/

structure BackfillRow (F : Type) where
  key : Key
  fields : F

structure PreparedBackfillRow (F : Type) where
  key : Key
  fields : F
  tokenText : Str

/-- `(id, server_domain) < (?, ?)`, if there is a cursor. -/
def BackfillState.below (state : BackfillState) (key : Key) : Bool :=
  match state.cursor with
  | some cursor => key < cursor
  | none => true

section Backfill

variable {F D G : Type} [DecidableEq F] [DecidableEq D]

/-- `load_status_backfill_batch`, `load_account_backfill_batch`. -/
def Index.loadBackfillBatch (s : Index F D G) (state : BackfillState) : List (BackfillRow F) :=
  let rest := s.rows.entries.filter fun e => state.below e.1
  ((rest.insertionSort fun a b => b.1 ≤ a.1).take backfillChunkSize).map fun e => ⟨e.1, e.2⟩

def prepareBackfillRow (schema : Schema F D) (indexText : List Str → Str) (row : BackfillRow F) :
    PreparedBackfillRow F where
  key := row.key
  fields := row.fields
  tokenText := indexText (schema.fields row.fields)

/-- `upsert_status_backfill_content_if_current`, `upsert_account_backfill_content_if_current`. -/
def Index.upsertBackfillContentIfCurrent (schema : Schema F D) (s : Index F D G)
    (row : PreparedBackfillRow F) : Index F D G :=
  if s.rows.get row.key = some row.fields then
    s.upsertContent schema row.key (schema.content row.tokenText)
  else s

/-- `i64::MAX`. -/
def i64Max : ℕ := 2 ^ 63 - 1

/-- The state that a backfill batch leaves, read as it is in the transaction. -/
def BackfillState.advance (state snapshot : BackfillState) (prepared : List (PreparedBackfillRow F))
    (observedTotal : ℕ) : BackfillState :=
  let completed := decide (prepared.length < backfillChunkSize)
  let processedCount := min i64Max (snapshot.processedCount + prepared.length)
  let totalCount :=
    if completed then observedTotal
    else max (max snapshot.totalCount observedTotal) processedCount
  { cursor := (prepared.getLast?.map (·.key)).or state.cursor
    processedCount := if completed then totalCount else processedCount
    totalCount := totalCount
    completed := completed }

/-- `WHERE completed = 0 AND cursor_status_id IS ? AND … AND processed_count = ?`. -/
def BackfillState.unmoved (state snapshot : BackfillState) : Bool :=
  !state.completed && state.cursor = snapshot.cursor
    && state.processedCount = snapshot.processedCount

/-- `commit_prepared_status_backfill`, `commit_prepared_account_backfill`, once there is no other
work: the transaction is rolled back if the state has moved since the rows were read. -/
def Index.commitPreparedBackfill (schema : Schema F D) (s : Index F D G)
    (snapshot : BackfillState) (prepared : List (PreparedBackfillRow F)) : Index F D G :=
  if s.backfill.unmoved snapshot then
    let t := prepared.foldl (·.upsertBackfillContentIfCurrent schema) s
    { t with backfill := t.backfill.advance snapshot prepared t.cacheCounter }
  else s

end Backfill

end Awayuki.Search
