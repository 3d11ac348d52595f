import Awayuki.Text
import Awayuki.Library.OrderedMap
import Awayuki.Library.Collect
import Mathlib.Data.List.Sort
import Mathlib.Data.Rat.Defs

/-!
# The request scheduler

`RequestScheduler` bounds the reads of the frontend lane by lane.  A request waits in the queue
until its lane has room, is started, and is settled when its task is or when it is cancelled.  The
promise chain of a started request runs in steps of its own (`settle`, `handle`, `finish`), between
which anything else may happen.

* `RequestScheduler`: the fields of the class, with the promises it has to do with;
* `schedule`, `cancel`, `pump`: its methods;
* `settle`, `handle`, `finish`: the promise chain;
* `step`, `run`: everything that may happen, in any order.
-/

namespace Awayuki.Requests

inductive RequestLane
  | timeline
  | analytics
  | profile
  | autocomplete
  deriving DecidableEq

structure RequestScheduleOptions where
  key : Str
  lane : RequestLane
  priority : Option ℚ
  replace : Option Bool

/-- A request.  Its `order`, which no other request has, stands for its controller and for the
promise that `schedule` returned. -/
structure QueuedRequest where
  key : Str
  lane : RequestLane
  priority : ℚ
  order : ℕ
  generation : ℕ
  deriving DecidableEq

/-- What a promise is rejected with. -/
inductive Reason (E : Type)
  | requestCancelled (requestKey : Str)
  | other (error : E)
  deriving DecidableEq

/-- How far a started request has come: its task races against its cancellation, the race has been
decided, or its promise is settled and only `finally` is left. -/
inductive Phase (V E : Type)
  | racing
  | raced (outcome : Except (Reason E) V)
  | settled

structure Running (V E : Type) where
  request : QueuedRequest
  phase : Phase V E

/-- The scheduler, with the promises it has to do with: the controllers that are aborted, the
started requests, the tasks that have been started and are not settled, and what has been settled
in what way. -/
structure RequestScheduler (V E : Type) where
  limits : RequestLane → ℕ
  queue : List QueuedRequest
  active : OrderedMap Str QueuedRequest
  generations : Str → ℕ
  runningByLane : RequestLane → ℕ
  order : ℕ
  aborted : List ℕ
  running : List (Running V E)
  tasks : List QueuedRequest
  settled : List (QueuedRequest × Except (Reason E) V)

variable {V E : Type}

/-- A race is decided by whatever comes first. -/
def Phase.decide (outcome : Except (Reason E) V) : Phase V E → Phase V E
  | .racing => .raced outcome
  | phase => phase

namespace RequestScheduler

def create (limits : RequestLane → ℕ) : RequestScheduler V E where
  limits
  queue := []
  active := OrderedMap.empty
  generations _ := 0
  runningByLane _ := 0
  order := 0
  aborted := []
  running := []
  tasks := []
  settled := []

/-! ### Starting -/

def rejectCancelledQueuedRequests (s : RequestScheduler V E) : RequestScheduler V E :=
  { s with
    queue := s.queue.filter fun request => request.order ∉ s.aborted
    settled := s.settled ++ (s.queue.filter fun request => request.order ∈ s.aborted).map
      fun request => (request, .error (.requestCancelled request.key)) }

/-- The comparison of the queue. -/
def Precedes (left right : QueuedRequest) : Prop :=
  right.priority < left.priority ∨
    right.priority = left.priority ∧ left.order ≤ right.order

instance decidablePrecedes : DecidableRel Precedes :=
  fun _ _ => inferInstanceAs (Decidable (_ ∨ _))

def sortQueue (s : RequestScheduler V E) : RequestScheduler V E :=
  { s with queue := s.queue.insertionSort Precedes }

/-- May `pump` start this request? -/
def startable (s : RequestScheduler V E) (request : QueuedRequest) : Bool :=
  decide (request.order ∉ s.aborted ∧ s.runningByLane request.lane < s.limits request.lane)

def start (s : RequestScheduler V E) (request : QueuedRequest) : RequestScheduler V E :=
  { s with
    runningByLane :=
      Function.update s.runningByLane request.lane (s.runningByLane request.lane + 1)
    active := s.active.set request.key request
    running := s.running ++ [⟨request, .racing⟩]
    tasks := s.tasks ++ [request] }

def pumpLoop : ℕ → RequestScheduler V E → RequestScheduler V E
  | 0, s => s
  | steps + 1, s =>
    match s.queue.find? s.startable with
    | none => s
    | some request => pumpLoop steps ({ s with queue := s.queue.eraseP s.startable }.start request)

/-- Every turn of the loop takes a request out of the queue. -/
def pump (s : RequestScheduler V E) : RequestScheduler V E :=
  pumpLoop s.queue.length s.rejectCancelledQueuedRequests.sortQueue

/-! ### Scheduling and cancelling -/

/-- Changes the phase of the started request with this controller. -/
def advance (s : RequestScheduler V E) (order : ℕ) (next : Running V E → Phase V E) :
    RequestScheduler V E :=
  { s with
    running := s.running.map fun entry =>
      if entry.request.order = order then { entry with phase := next entry } else entry }

/-- `controller.abort()`, with the listener of a started request. -/
def abort (s : RequestScheduler V E) (request : QueuedRequest) : RequestScheduler V E :=
  { s with aborted := s.aborted ++ [request.order] }.advance request.order fun entry =>
    entry.phase.decide (.error (.requestCancelled entry.request.key))

def abortActive (s : RequestScheduler V E) (key : Str) : RequestScheduler V E :=
  match s.active.get key with
  | some request => s.abort request
  | none => s

/-- `cancel`, up to its call of `pump`. -/
def abortKey (s : RequestScheduler V E) (key : Str) : RequestScheduler V E :=
  ((s.queue.filter fun request => request.key = key).foldl abort s).abortActive key

def cancel (s : RequestScheduler V E) (key : Str) : RequestScheduler V E := (s.abortKey key).pump

/-- A set of keys, in the order in which they are put in. -/
def keySet (keys : List Str) : List Str := Collect.collect (fun left right => left == right) [] keys

def cancelPrefix (s : RequestScheduler V E) (start : Str) : RequestScheduler V E :=
  (keySet (((s.queue.filter fun request => request.key.startsWith start).map (·.key)) ++
    s.active.keys.filter fun key => key.startsWith start)).foldl cancel s

def cancelAll (s : RequestScheduler V E) : RequestScheduler V E :=
  (keySet (s.queue.map (·.key) ++ s.active.keys)).foldl cancel s

def enqueue (s : RequestScheduler V E) (options : RequestScheduleOptions) :
    RequestScheduler V E :=
  { s with
    generations := Function.update s.generations options.key (s.generations options.key + 1)
    order := s.order + 1
    queue := s.queue ++ [{
      key := options.key
      lane := options.lane
      priority := options.priority.getD 0
      order := s.order
      generation := s.generations options.key + 1 }] }

def schedule (s : RequestScheduler V E) (options : RequestScheduleOptions) :
    RequestScheduler V E :=
  ((if options.replace ≠ some false then s.cancel options.key else s).enqueue options).pump

/-! ### The promise chain of a started request -/

/-- `context.isCurrent` of a request. -/
def isCurrent (s : RequestScheduler V E) (request : QueuedRequest) : Prop :=
  request.order ∉ s.aborted ∧ s.generations request.key = request.generation

instance decidableIsCurrent (s : RequestScheduler V E) (request : QueuedRequest) :
    Decidable (s.isCurrent request) := inferInstanceAs (Decidable (_ ∧ _))

/-- The started request with this controller. -/
def entry? (s : RequestScheduler V E) (order : ℕ) : Option (Running V E) :=
  s.running.find? fun entry => entry.request.order = order

/-- The promise of a task is settled. -/
def settle (s : RequestScheduler V E) (order : ℕ) (outcome : Except (Reason E) V) :
    RequestScheduler V E :=
  match s.tasks.find? fun task => task.order = order with
  | none => s
  | some _ =>
    { s with tasks := s.tasks.eraseP fun task => task.order = order }.advance order fun entry =>
      entry.phase.decide outcome

/-- What `then` and `catch` do with the promise of a request. -/
def settlement (s : RequestScheduler V E) (request : QueuedRequest) :
    Except (Reason E) V → Except (Reason E) V
  | .ok value =>
    if s.isCurrent request then .ok value else .error (.requestCancelled request.key)
  | .error error =>
    .error (if request.order ∈ s.aborted then .requestCancelled request.key else error)

def handle (s : RequestScheduler V E) (order : ℕ) : RequestScheduler V E :=
  match s.entry? order with
  | some ⟨request, .raced outcome⟩ =>
    { s with settled := s.settled ++ [(request, s.settlement request outcome)] }.advance order
      fun _ => .settled
  | _ => s

/-- `finally`, up to its call of `pump`. -/
def release (s : RequestScheduler V E) (request : QueuedRequest) : RequestScheduler V E :=
  { s with
    runningByLane :=
      Function.update s.runningByLane request.lane (s.runningByLane request.lane - 1)
    active :=
      if (s.active.get request.key).map (·.generation) = some request.generation then
        s.active.delete request.key
      else s.active
    running := s.running.eraseP fun entry => entry.request.order = request.order }

def finish (s : RequestScheduler V E) (order : ℕ) : RequestScheduler V E :=
  match s.entry? order with
  | some ⟨request, .settled⟩ => (s.release request).pump
  | _ => s

end RequestScheduler

/-! ### Runs -/

/-- What happens: calls of the scheduler, a task that is settled, and the two steps of the promise
chain after that. -/
inductive Event (V E : Type)
  | schedule (options : RequestScheduleOptions)
  | cancel (key : Str)
  | cancelPrefix (start : Str)
  | cancelAll
  | settle (order : ℕ) (outcome : Except (Reason E) V)
  | handle (order : ℕ)
  | finish (order : ℕ)

/-- The events that cancel the requests of a key, or bring a newer generation of it. -/
def Event.Dismisses (key : Str) : Event V E → Prop
  | .schedule options => options.key = key
  | .cancel key' => key' = key
  | .cancelPrefix start => key.startsWith start = true
  | .cancelAll => True
  | _ => False

namespace RequestScheduler

def step (s : RequestScheduler V E) : Event V E → RequestScheduler V E
  | .schedule options => s.schedule options
  | .cancel key => s.cancel key
  | .cancelPrefix start => s.cancelPrefix start
  | .cancelAll => s.cancelAll
  | .settle order outcome => s.settle order outcome
  | .handle order => s.handle order
  | .finish order => s.finish order

def run (s : RequestScheduler V E) (events : List (Event V E)) : RequestScheduler V E :=
  events.foldl step s

end RequestScheduler

end Awayuki.Requests
