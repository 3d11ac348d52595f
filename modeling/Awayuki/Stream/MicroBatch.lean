import Awayuki.Text
import Awayuki.Library.OrderedMap

/-!
# Micro-batches of stream events

What one stream of an account does with the events that arrive together, from
`services/streaming_service.rs`, and the writes of `services/timeline_service.rs` it asks for.

* `CoalescedBatch`: the batch while it is received, one slot for each identity;
* `persistEventBatch`: the saves of a batch, then its deletions;
* `timelineEvent`, `receive`: what is delivered, and what a receiver shows of it;
* `handleBatch` and `oneByOne`: the batch as it is handled, and its events one at a time.

The tables are those of the account's server; writes that fail are left out.
-/

namespace Awayuki.MicroBatch

/-! ### Events -/

/-- A status of the API.  `content` stands for the columns that a later version replaces. -/
structure Status (α : Type) where
  id : Str
  createdAt : Str
  accountId : Str
  content : α
  reblog : Option (Status α) := none
  quote : Option (Status α) := none

structure Notification (α : Type) where
  id : Str
  status : Option (Status α)

inductive StreamType
  | user | «public» | publicLocal | publicRemote | userNotification | direct
  | list (id : Str)
  | feed (id : Str)
  | hashtag (tag : Str)
  | hashtagLocal (tag : Str)

def timelineKeyForStreamType : StreamType → Option Str
  | .user => some "home".toList
  | .public => some "public".toList
  | .publicLocal => some "local".toList
  | .list id => some ("list:".toList ++ id)
  | .feed id => some ("feed:".toList ++ id)
  | .hashtag tag | .hashtagLocal tag => some ("tag:".toList ++ tag)
  | .userNotification | .publicRemote | .direct => none

inductive StreamEvent
  | update (payload : Str)
  | statusUpdate (payload : Str)
  | delete (id : Str)
  | notification (payload : Str)
  | resync
  | filtersChanged
  | unknown (event payload : Str)

inductive ProcessedEvent (α : Type)
  | update (status : Status α)
  | statusUpdate (status : Status α)
  | delete (id : Str)
  | notification (notification : Notification α)
  | resync

/-- `serde_json::from_str` at the types of the payloads. -/
structure Serde (α : Type) where
  status : Str → Option (Status α)
  notification : Str → Option (Notification α)

variable {α : Type}

def parseStreamEvent (serde : Serde α) : StreamEvent → Option (ProcessedEvent α)
  | .update payload => (serde.status payload).map .update
  | .statusUpdate payload => (serde.status payload).map .statusUpdate
  | .delete id => some (.delete id)
  | .notification payload => (serde.notification payload).map .notification
  | .resync => some .resync
  | .filtersChanged => none
  | .unknown _ _ => none

namespace ProcessedEvent

def isDelete : ProcessedEvent α → Bool
  | delete _ => true
  | _ => false

def statusIdentity (id : Str) : Str := "status:".toList ++ id

def eventIdentity : ProcessedEvent α → Option Str
  | update status | statusUpdate status => some (statusIdentity status.id)
  | delete id => some (statusIdentity id)
  | notification n => some ("notification:".toList ++ n.id)
  | resync => none

end ProcessedEvent

open ProcessedEvent

/-! ### Coalescing -/

structure CoalescedBatch (α : Type) where
  events : List (Option (ProcessedEvent α))
  identityIndices : Str → Option ℕ

namespace CoalescedBatch

def new : CoalescedBatch α := ⟨[], fun _ => none⟩

/-- `push` of an event that was understood. -/
def pushEvent (batch : CoalescedBatch α) (event : ProcessedEvent α) : CoalescedBatch α :=
  match eventIdentity event with
  | none => { batch with events := batch.events ++ [some event] }
  | some identity =>
    match batch.identityIndices identity with
    | some index =>
      -- A delete is terminal within one micro-batch.
      if (batch.events[index]?.join).any isDelete && !isDelete event then batch
      else { batch with events := batch.events.set index (some event) }
    | none =>
      { events := batch.events ++ [some event]
        identityIndices :=
          Function.update batch.identityIndices identity (some batch.events.length) }

def push (serde : Serde α) (batch : CoalescedBatch α) (raw : StreamEvent) : CoalescedBatch α :=
  match parseStreamEvent serde raw with
  | none => batch
  | some event => batch.pushEvent event

def intoEvents (batch : CoalescedBatch α) : List (ProcessedEvent α) := batch.events.reduceOption

end CoalescedBatch

/-- The events of a micro-batch as they are handed on. -/
def receiveMicroBatch (serde : Serde α) (raw : List StreamEvent) : List (ProcessedEvent α) :=
  (raw.foldl (CoalescedBatch.push serde) .new).intoEvents

/-! ### Persistence -/

structure Row (α : Type) where
  createdAt : Str
  accountId : Str
  reblogOfId : Option Str
  content : α

/-- The table of statuses, and the entries `(timeline_type, account_acct)` of each status in the
timelines. -/
@[ext] structure Store (α : Type) where
  statuses : Str → Option (Row α)
  timelineEntries : Str → Finset (Str × Str)

namespace Store

variable (store : Store α)

/-- On a conflict the row keeps its time and its author. -/
def upsertStatus (status : Status α) : Store α :=
  let old := store.statuses status.id
  { store with
    statuses := Function.update store.statuses status.id <| some
      { createdAt := (old.map Row.createdAt).getD status.createdAt
        accountId := (old.map Row.accountId).getD status.accountId
        reblogOfId := status.reblog.map Status.id
        content := status.content } }

def insertTimelineEntry (id : Str) (entry : Str × Str) : Store α :=
  { store with
    timelineEntries := Function.update store.timelineEntries id
      (insert entry (store.timelineEntries id)) }

/-- A deletion of a status takes its boosts and all their timeline entries along. -/
def deleteStatusAndReferences (id : Str) : Store α :=
  let deleted (x : Str) : Bool :=
    decide (x = id) || decide ((store.statuses x).bind Row.reblogOfId = some id)
  { statuses := fun x => if deleted x then none else store.statuses x
    timelineEntries := fun x => if deleted x then ∅ else store.timelineEntries x }

end Store

/-- The statuses that are saved with a status: its original and its quote before it. -/
def Status.graph (status : Status α) : List (Status α) :=
  status.reblog.toList ++ status.quote.toList ++ [status]

def Store.persistStatusGraph (store : Store α) (status : Status α) : Store α :=
  status.graph.foldl Store.upsertStatus store

structure StatusBatchItem (α : Type) where
  status : Status α
  timeline : Option (Str × Str)

def Store.saveStatusItem (store : Store α) (item : StatusBatchItem α) : Store α :=
  let store := store.persistStatusGraph item.status
  match item.timeline with
  | some entry => store.insertTimelineEntry item.status.id entry
  | none => store

/-- What is saved of an event. -/
def batchItem (timeline : Option (Str × Str)) : ProcessedEvent α → Option (StatusBatchItem α)
  | .update status => some ⟨status, timeline⟩
  | .statusUpdate status => some ⟨status, none⟩
  | .notification n => n.status.map fun status => ⟨status, none⟩
  | .delete _ | .resync => none

def deletedId : ProcessedEvent α → Option Str
  | .delete id => some id
  | _ => none

/-- The stream whose events are handled. -/
structure Stream where
  streamType : StreamType
  serverDomain : Str
  sourceAcct : Str

/-- The timeline of the stream and the account it belongs to. -/
def Stream.timeline (stream : Stream) : Option (Str × Str) :=
  (timelineKeyForStreamType stream.streamType).map fun key => (key, stream.sourceAcct)

def persistEventBatch (stream : Stream) (store : Store α) (events : List (ProcessedEvent α)) :
    Store α :=
  (events.filterMap deletedId).foldl Store.deleteStatusAndReferences
    ((events.filterMap (batchItem stream.timeline)).foldl Store.saveStatusItem store)

/-! ### Delivery -/

inductive TimelineEvent (α : Type)
  | newStatus (status : Status α) (stream : Stream)
  | statusUpdate (status : Status α) (sourceAcct serverDomain : Str)
  | deleteStatus (id sourceAcct serverDomain : Str)
  | newNotification (notification : Notification α) (stream : Stream)
  | resync (sourceAcct serverDomain : Str)

def timelineEvent (stream : Stream) : ProcessedEvent α → TimelineEvent α
  | .update status => .newStatus status stream
  | .statusUpdate status => .statusUpdate status stream.sourceAcct stream.serverDomain
  | .delete id => .deleteStatus id stream.sourceAcct stream.serverDomain
  | .notification n => .newNotification n stream
  | .resync => .resync stream.sourceAcct stream.serverDomain

/-- The statuses that a receiver shows in the timeline of the stream. -/
abbrev Shown (α : Type) := Str → Option (Status α)

/-- A new status is shown, an update changes a status that is shown, a deletion takes a status and
its boosts away. -/
def receive (shown : Shown α) : TimelineEvent α → Shown α
  | .newStatus status _ => Function.update shown status.id (some status)
  | .statusUpdate status _ _ =>
    if (shown status.id).isSome then Function.update shown status.id (some status) else shown
  | .deleteStatus id _ _ => fun x =>
    (shown x).filter fun status =>
      !(decide (x = id) || decide (status.reblog.map Status.id = some id))
  | .newNotification _ _ | .resync _ _ => shown

/-- The store and what the receivers show. -/
abbrev State (α : Type) := Store α × Shown α

/-- Some events persisted together and delivered in their order. -/
def handle (stream : Stream) (state : State α) (events : List (ProcessedEvent α)) : State α :=
  (persistEventBatch stream state.1 events,
    (events.map (timelineEvent stream)).foldl receive state.2)

/-- A micro-batch as it is handled. -/
def handleBatch (stream : Stream) (serde : Serde α) (state : State α) (raw : List StreamEvent) :
    State α :=
  handle stream state (receiveMicroBatch serde raw)

/-! ### One event at a time -/

/-- A later update of a status that the events have deleted is ignored. -/
def heed (kept : List (ProcessedEvent α)) (event : ProcessedEvent α) : List (ProcessedEvent α) :=
  if (kept.any fun earlier => isDelete earlier && eventIdentity earlier == eventIdentity event) &&
      !isDelete event then kept
  else kept ++ [event]

/-- The events of a micro-batch that are not ignored. -/
def heeded (serde : Serde α) (raw : List StreamEvent) : List (ProcessedEvent α) :=
  (raw.filterMap (parseStreamEvent serde)).foldl heed []

/-- The events of a micro-batch handled one at a time in their order. -/
def oneByOne (stream : Stream) (serde : Serde α) (state : State α) (raw : List StreamEvent) :
    State α :=
  (heeded serde raw).foldl (fun state event => handle stream state [event]) state

end Awayuki.MicroBatch
