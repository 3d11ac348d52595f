import Awayuki.Text
import Awayuki.Library.Agenda

/-!
# Plugins: the job executor

`TurnJobExecutor` of `plugins/executor.rs`: one turn runs what may run at once and the timers that
are due.  A job may put others in, and cancel timers, while it is called, so a turn is a sequence
of steps, and its place in the source is the `Phase`.

* `TurnJobExecutor`: the queues, with the jobs that have been put in so far;
* `enqueueJob`, `cancel`: what may happen between turns and while a job is called;
* `drain`, `takeDueClockJobs`, `runClockJob`, `returned`: the steps of a turn;
* `step`: everything that may happen.

A job is known by the number of its `enqueue_job`; an instant is a number of nanoseconds.
-/

namespace Awayuki.Plugins

def MAX_JOBS_PER_TURN : ℕ := 128

inductive Job
  | promise
  | async
  | generic
  | timeout (delay : ℕ)
  | interval (period : ℕ)
  | finalizationRegistryCleanup

/-- A timer in `clock_jobs`, with its instant; an interval has its period. -/
structure ClockJob where
  id : ℕ
  instant : ℕ
  period : Option ℕ
  seq : ℕ
  deriving DecidableEq

inductive JobControlError
  | deadline
  | stopped
  deriving DecidableEq

/-- The parts of one round of `drain_immediate_jobs`. -/
inductive Part
  | async
  | promise
  | generic
  deriving DecidableEq

/-- Where a turn is: in the first or the last call of `drain_immediate_jobs`, before the clock is
read, at the head of the loop over the timers that are due, or inside the call of a job. -/
inductive Phase
  | idle
  | drain (last : Bool) (part : Part) (progressed : Bool)
  | readClock
  | clock (due : List ClockJob)
  | calling (last : Bool) (next : Part)
  | callingClock (job : ClockJob) (due : List ClockJob)

structure TurnJobExecutor where
  promiseJobs : List ℕ
  asyncJobs : List ℕ
  genericJobs : List ℕ
  clockJobs : List ClockJob
  completedJobs : ℕ
  controlError : Option JobControlError
  budget : ℕ
  asyncJobRan : Bool
  phase : Phase
  /-- The last reading of the clock. -/
  now : ℕ
  /-- The number of jobs that have been put in, and of timers that have been armed. -/
  nextId : ℕ
  nextSeq : ℕ
  cancelled : List ℕ
  /-- The intervals, and those that have failed. -/
  intervals : List ℕ
  failed : List ℕ
  /-- The jobs other than intervals that have been started, and what this turn has started. -/
  started : List ℕ
  turnJobs : ℕ
  turnAsyncJobs : ℕ

/-- What may happen; `tripped` is what `check_execution_control` finds, `now` what the clock says. -/
inductive Label
  | enqueue (job : Job) (now : ℕ)
  | cancel (id : ℕ)
  | runJobs (tripped : Option JobControlError)
  | drain (tripped : Option JobControlError)
  | readClock (now : ℕ)
  | clock (tripped : Option JobControlError)
  | returned (ok : Bool) (now : ℕ)

namespace TurnJobExecutor

def create : TurnJobExecutor where
  promiseJobs := []
  asyncJobs := []
  genericJobs := []
  clockJobs := []
  completedJobs := 0
  controlError := none
  budget := 0
  asyncJobRan := false
  phase := .idle
  now := 0
  nextId := 0
  nextSeq := 0
  cancelled := []
  intervals := []
  failed := []
  started := []
  turnJobs := 0
  turnAsyncJobs := 0

variable (s : TurnJobExecutor)

def Cancelled (job : ClockJob) : Prop := job.id ∈ s.cancelled

instance decidableCancelled : DecidablePred s.Cancelled :=
  fun job => inferInstanceAs (Decidable (job.id ∈ s.cancelled))

/-- Is a job called, or no turn going on?  Only then do jobs come and go. -/
def isOpen : Bool :=
  match s.phase with
  | .idle | .calling _ _ | .callingClock _ _ => true
  | _ => false

/-! ### Timers -/

/-- `entry(instant).or_default().push(job)` -/
def push (job : ClockJob) : TurnJobExecutor :=
  { s with clockJobs := Agenda.put (·.instant) job s.clockJobs }

/-- A timer for the next instant of its own. -/
def arm (id instant : ℕ) (period : Option ℕ) : TurnJobExecutor :=
  { s.push ⟨id, instant, period, s.nextSeq⟩ with nextSeq := s.nextSeq + 1 }

/-- A zero interval is clamped to a millisecond. -/
def clampInterval (period : ℕ) : ℕ := if period / 1000000 = 0 then 1000000 else period

def pruneCancelledClockJobs : TurnJobExecutor :=
  { s with clockJobs := s.clockJobs.filter fun job => ¬ s.Cancelled job }

def restoreDueClockJobs (due : List ClockJob) : TurnJobExecutor :=
  { s with clockJobs := due.foldl (fun jobs job => Agenda.put (·.instant) job jobs) s.clockJobs }

/-! ### Between the steps of a turn -/

/-- `enqueue_job`, which reads the clock for a timer. -/
def enqueueJob (job : Job) (now : ℕ) : TurnJobExecutor :=
  let new := { s with now, nextId := s.nextId + 1 }
  match job with
  | .promise => { new with promiseJobs := s.promiseJobs ++ [s.nextId] }
  | .async => { new with asyncJobs := s.asyncJobs ++ [s.nextId] }
  | .generic => { new with genericJobs := s.genericJobs ++ [s.nextId] }
  | .timeout delay => new.arm s.nextId (now + delay) none
  | .interval period =>
    { new.arm s.nextId (now + clampInterval period) (some period) with
      intervals := s.nextId :: s.intervals }
  | .finalizationRegistryCleanup => { s with now }

def cancel (id : ℕ) : TurnJobExecutor := { s with cancelled := id :: s.cancelled }

/-! ### The steps of a turn -/

/-- The end of `run_jobs`. -/
def finish : TurnJobExecutor := { s.pruneCancelledClockJobs with phase := .idle }

/-- `check_execution_control` fails. -/
def trip (error : JobControlError) : TurnJobExecutor := { s with controlError := some error }

/-- A job is about to be called. -/
def begin : TurnJobExecutor := { s with budget := s.budget - 1, turnJobs := s.turnJobs + 1 }

/-- The start of `run_jobs`, up to its first check. -/
def runJobs (tripped : Option JobControlError) : TurnJobExecutor :=
  let s := { s.pruneCancelledClockJobs with
    budget := MAX_JOBS_PER_TURN, asyncJobRan := false, turnJobs := 0, turnAsyncJobs := 0 }
  match tripped with
  | some error => (s.trip error).finish
  | none => { s with phase := .drain false .async false }

/-- `drain_immediate_jobs` returns. -/
def drained (last : Bool) : TurnJobExecutor :=
  if last then s.finish else { s with phase := .readClock }

/-- One part of a round of `drain_immediate_jobs`: a job is called if there is one. -/
def drain (last progressed : Bool) (tripped : Option JobControlError) : Part → TurnJobExecutor
  | .async =>
    if s.budget = 0 then s.drained last
    else
      match s.asyncJobRan, s.asyncJobs, tripped with
      | false, _ :: _, some error => (s.trip error).finish
      | false, job :: jobs, none =>
        { s.begin with
          asyncJobs := jobs
          asyncJobRan := true
          started := job :: s.started
          turnAsyncJobs := s.turnAsyncJobs + 1
          phase := .calling last .promise }
      | _, _, _ => { s with phase := .drain last .promise progressed }
  | .promise =>
    match s.budget, s.promiseJobs, tripped with
    | _ + 1, _ :: _, some error => (s.trip error).finish
    | _ + 1, job :: jobs, none =>
      { s.begin with
        promiseJobs := jobs
        started := job :: s.started
        phase := .calling last .generic }
    | _, _, _ => { s with phase := .drain last .generic progressed }
  | .generic =>
    match s.budget, s.genericJobs, tripped with
    | _ + 1, _ :: _, some error => (s.trip error).finish
    | _ + 1, job :: jobs, none =>
      { s.begin with
        genericJobs := jobs
        started := job :: s.started
        phase := .calling last .async }
    | _, _, _ =>
      if progressed then { s with phase := .drain last .async false } else s.drained last

/-- `take_due_clock_jobs` -/
def takeDueClockJobs (now : ℕ) : TurnJobExecutor :=
  { s with
    now
    clockJobs := s.clockJobs.dropWhile fun job => job.instant ≤ now
    phase := .clock (s.clockJobs.takeWhile fun job => job.instant ≤ now) }

/-- The loop over the timers that are due, up to the call of one. -/
def runClockJob (tripped : Option JobControlError) : List ClockJob → TurnJobExecutor
  | [] => { s with phase := .drain true .async false }
  | job :: due =>
    if s.Cancelled job then { s with phase := .clock due }
    else if s.budget = 0 then
      { s.restoreDueClockJobs (job :: due) with phase := .drain true .async false }
    else
      match tripped with
      | some error => ((s.trip error).restoreDueClockJobs (job :: due)).finish
      | none =>
        { s.begin with
          started := if job.period.isSome then s.started else job.id :: s.started
          phase := .callingClock job due }

/-- A timer comes back from its call. -/
def clockReturned (job : ClockJob) (due : List ClockJob) (ok : Bool) (now : ℕ) : TurnJobExecutor :=
  let s := { s with completedJobs := s.completedJobs + 1, now, phase := .clock due }
  match ok, job.period with
  | true, none => s
  | true, some period =>
    if s.Cancelled job then s else s.arm job.id (now + clampInterval period) (some period)
  | false, none => (s.restoreDueClockJobs due).finish
  | false, some _ => { (s.restoreDueClockJobs due).finish with failed := job.id :: s.failed }

/-- A job other than a timer comes back from its call. -/
def returned (last : Bool) (next : Part) (ok : Bool) : TurnJobExecutor :=
  let s := { s with completedJobs := s.completedJobs + 1 }
  if ok then { s with phase := .drain last next (next ≠ .async) } else s.finish

def step : Label → Option TurnJobExecutor
  | .enqueue job now => if s.isOpen = true ∧ s.now ≤ now then some (s.enqueueJob job now) else none
  | .cancel id => if s.isOpen then some (s.cancel id) else none
  | .runJobs tripped =>
    match s.phase with
    | .idle => some (s.runJobs tripped)
    | _ => none
  | .drain tripped =>
    match s.phase with
    | .drain last part progressed => some (s.drain last progressed tripped part)
    | _ => none
  | .readClock now =>
    match s.phase with
    | .readClock => if s.now ≤ now then some (s.takeDueClockJobs now) else none
    | _ => none
  | .clock tripped =>
    match s.phase with
    | .clock due => some (s.runClockJob tripped due)
    | _ => none
  | .returned ok now =>
    match s.phase with
    | .calling last next => some (s.returned last next ok)
    | .callingClock job due => if s.now ≤ now then some (s.clockReturned job due ok now) else none
    | _ => none

end TurnJobExecutor

end Awayuki.Plugins
