import Awayuki.Text
import Mathlib.Data.List.Sort

/-!
# The translation scheduler

`TranslationScheduler` of `features/timeline/translationScheduler.ts` runs one task for all who ask
for the same key, and not more of them at once than it was told.  Jobs and consumers are numbered in
the order in which they come.  Between the steps anything else may happen; the handlers of a task's
promise are two steps, `settle` and `finish`.

* `TranslationScheduler`: the fields of the class, with the jobs and the leases it has given out;
* `schedule`, `cancel`, `settle`, `finish`: what may happen;
* `pumpLoop`: slots are filled.
-/

namespace Awayuki.Translation

/-- What a task leaves. -/
inductive Outcome (ν ε : Type)
  | value (v : ν)
  | error (e : ε)
  deriving DecidableEq

/-- What the promise of a job is settled with. -/
inductive Settlement (ν ε : Type)
  | resolved (v : ν)
  | rejected (e : ε)
  | cancelled
  deriving DecidableEq

/-- The settlement of a promise, and if the task had been aborted by then. -/
structure Settled (ν ε : Type) where
  settlement : Settlement ν ε
  aborted : Bool
  deriving DecidableEq

structure TranslationJob (π ν ε : Type) where
  key : Str
  priority : π
  consumers : List ℕ
  aborted : Bool
  running : Bool
  promise : Option (Settled ν ε)

structure TranslationLease where
  job : ℕ
  cancelled : Bool

structure TranslationScheduler (π ν ε : Type) where
  concurrency : ℕ
  job : ℕ → TranslationJob π ν ε
  order : ℕ
  jobs : Str → Option ℕ
  queue : List ℕ
  running : ℕ
  lease : ℕ → TranslationLease
  leases : ℕ

inductive Label (π ν ε : Type)
  | schedule (key : Str) (priority : π)
  | cancel (lease : ℕ)
  | settle (job : ℕ) (outcome : Outcome ν ε)
  | finish (job : ℕ)

variable {π ν ε : Type}

namespace TranslationJob

/-- `resolve` or `reject`: a promise is settled once. -/
def settle (job : TranslationJob π ν ε) (settlement : Settlement ν ε) : TranslationJob π ν ε :=
  match job.promise with
  | some _ => job
  | none => { job with promise := some ⟨settlement, job.aborted⟩ }

/-- What the handlers of a task's promise settle the job with. -/
def settlement (job : TranslationJob π ν ε) : Outcome ν ε → Settlement ν ε
  | .value v => if job.aborted = true ∨ job.consumers = [] then .cancelled else .resolved v
  | .error e => .rejected e

/-- The task has been started, and is not settled. -/
def Runs (job : TranslationJob π ν ε) : Prop := job.running = true ∧ job.promise = none

/-- The task was aborted before it was settled. -/
def spoilt (job : TranslationJob π ν ε) : Bool :=
  match job.promise with
  | none => job.aborted
  | some settled => settled.aborted

end TranslationJob

namespace TranslationScheduler

def create (concurrency : ℕ) (blank : TranslationJob π ν ε) : TranslationScheduler π ν ε where
  concurrency
  job _ := blank
  order := 0
  jobs _ := none
  queue := []
  running := 0
  lease _ := ⟨0, true⟩
  leases := 0

variable (s : TranslationScheduler π ν ε)

def modify (j : ℕ) (f : TranslationJob π ν ε → TranslationJob π ν ε) :
    TranslationScheduler π ν ε :=
  { s with job := Function.update s.job j (f (s.job j)) }

/-! ### Slots -/

/-- May `pump` start this job? -/
def startable (j : ℕ) : Bool := !(s.job j).running && !(s.job j).consumers.isEmpty

def start (j : ℕ) : TranslationScheduler π ν ε :=
  { s.modify j fun job => { job with running := true } with running := s.running + 1 }

def pumpLoop : ℕ → TranslationScheduler π ν ε → TranslationScheduler π ν ε
  | 0, s => s
  | slots + 1, s =>
    match s.queue.find? s.startable with
    | none => s
    | some j => pumpLoop slots (s.start j)

/-- Every turn of the loop takes a slot. -/
def pump : TranslationScheduler π ν ε := pumpLoop (s.concurrency - s.running) s

def removeQueued (j : ℕ) : TranslationScheduler π ν ε := { s with queue := s.queue.erase j }

def unregister (key : Str) : TranslationScheduler π ν ε :=
  { s with jobs := Function.update s.jobs key none }

/-! ### Scheduling -/

/-- A lease for a job, held by the next consumer. -/
def issue (j : ℕ) : TranslationScheduler π ν ε :=
  { s with
    lease := Function.update s.lease s.leases ⟨j, false⟩
    leases := s.leases + 1 }

section

variable [LinearOrder π]

/-- The comparison of the queue. -/
def Precedes (left right : ℕ) : Prop :=
  (s.job right).priority < (s.job left).priority ∨
    (s.job right).priority = (s.job left).priority ∧ left ≤ right

instance decidablePrecedes : DecidableRel s.Precedes :=
  fun _ _ => inferInstanceAs (Decidable (_ ∨ _))

def sortQueue : TranslationScheduler π ν ε :=
  { s with queue := s.queue.insertionSort s.Precedes }

/-- A consumer joins a job. -/
def join (j : ℕ) (priority : π) : TranslationScheduler π ν ε :=
  ((s.issue j).modify j fun job =>
    { job with
      consumers := job.consumers ++ [s.leases]
      priority := max job.priority priority }).sortQueue

/-- A new job, with its first consumer. -/
def enqueue (key : Str) (priority : π) : TranslationScheduler π ν ε :=
  { s.issue s.order with
    job := Function.update s.job s.order
      { key, priority, consumers := [s.leases], aborted := false, running := false,
        promise := none }
    order := s.order + 1
    jobs := Function.update s.jobs key (some s.order)
    queue := s.queue ++ [s.order] }

def schedule (key : Str) (priority : π) : TranslationScheduler π ν ε :=
  match s.jobs key with
  | some j => s.join j priority
  | none => (s.enqueue key priority).sortQueue.pump

end

/-! ### Cancelling -/

def abort (j : ℕ) : TranslationScheduler π ν ε := s.modify j fun job => { job with aborted := true }

/-- A job that nobody waits for is given up. -/
def giveUp (j : ℕ) : TranslationScheduler π ν ε :=
  if (s.job j).running then s.abort j
  else
    (((s.abort j).removeQueued j).unregister (s.job j).key).modify j fun job =>
      job.settle .cancelled

def release (j consumer : ℕ) : TranslationScheduler π ν ε :=
  let left := s.modify j fun job => { job with consumers := job.consumers.erase consumer }
  if (left.job j).consumers = [] then left.giveUp j else left

def cancel (consumer : ℕ) : TranslationScheduler π ν ε :=
  if (s.lease consumer).cancelled then s
  else
    { s with
      lease := Function.update s.lease consumer
        { s.lease consumer with cancelled := true } }.release (s.lease consumer).job consumer

/-! ### The handlers of a task's promise -/

def settle (j : ℕ) (outcome : Outcome ν ε) : TranslationScheduler π ν ε :=
  s.modify j fun job => job.settle (job.settlement outcome)

def finish (j : ℕ) : TranslationScheduler π ν ε :=
  (({ s with running := s.running - 1 }.unregister (s.job j).key).removeQueued j).pump

/-- What may happen; a lease is cancelled once it is there, the handlers of a job run once each. -/
def step [LinearOrder π] (s : TranslationScheduler π ν ε) :
    Label π ν ε → Option (TranslationScheduler π ν ε)
  | .schedule key priority => some (s.schedule key priority)
  | .cancel consumer => if consumer < s.leases then some (s.cancel consumer) else none
  | .settle j outcome =>
    if j ∈ s.queue ∧ (s.job j).running = true ∧ (s.job j).promise.isNone then
      some (s.settle j outcome)
    else none
  | .finish j =>
    if j ∈ s.queue ∧ (s.job j).running = true ∧ (s.job j).promise.isSome then some (s.finish j)
    else none

end TranslationScheduler

end Awayuki.Translation
