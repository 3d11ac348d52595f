import Awayuki.Text
import Awayuki.Library.OrderedMap
import Awayuki.Library.Runs

/-!
# Settings: the mutation coordinator

`SettingsMutationCoordinator` of `domain/settingsMutations.ts`.  Drafts of settings are persisted
after a delay; the answers come later, with anything in between.

* `Entry`, `Call`, `Task`: what is kept for a key, the calls of `persist`, and the asynchronous
  functions that are suspended;
* `seed`, `enqueue`, `flush`, `resetScope`, `drain`: the methods, each up to where it waits;
* `step`: what can happen next.

Objects, timers and promises have numbers, all from one counter.
-/

namespace Awayuki.Settings

inductive SettingSavePhase
  | idle
  | dirty
  | saving
  | saved
  | failed
  | cancelled
  | conflict
  deriving DecidableEq, Repr

structure SettingSaveState (ν : Type) where
  key : Str
  generation : ℕ
  phase : SettingSavePhase
  draft : ν
  lastSaved : Option ν
  error : Option Str
  deriving DecidableEq, Repr

/-- `completion` is the promise that `resolve` resolves. -/
structure Waiter where
  generation : ℕ
  completion : ℕ
  deriving DecidableEq, Repr

/-- `object` tells entries of one key apart; `inFlight` is the number of a call. -/
structure Entry (ν : Type) where
  object : ℕ
  state : SettingSaveState ν
  scope : ℕ
  timer : Option ℕ
  inFlight : Option ℕ
  waiters : List Waiter
  deriving DecidableEq, Repr

/-- A call of `persist`, with what its `drain` remembers of it. -/
structure Call (ν ρ : Type) where
  key : Str
  value : ν
  generation : ℕ
  scope : ℕ
  outcome : Option (Except Str ρ)

def Call.answered {ν ρ : Type} (outcome : Except Str ρ) (call : Call ν ρ) : Call ν ρ :=
  { call with outcome := some outcome }

/-- A timer that was set by `enqueue` of an entry. -/
structure Timer where
  id : ℕ
  key : Str
  object : ℕ
  deriving DecidableEq, Repr

/-- Where a `drain` waits: for the call of another, or for its own. -/
inductive Suspension
  | returned
  | inFlight (key : Str) (call : ℕ)
  | persist (call : ℕ)
  deriving DecidableEq, Repr

/-- A `drain` that is suspended, and the keys that the `flush` that called it still has before it. -/
structure Task where
  suspension : Suspension
  targets : List Str
  deriving DecidableEq, Repr

/-- `reports` and `commits` are the arguments that `onState` and `onPersisted` were called with,
`settled` the calls in the order of their answers. -/
structure Coordinator (ν ρ : Type) where
  entries : OrderedMap Str (Entry ν)
  scope : ℕ
  fresh : ℕ
  timers : List Timer
  calls : List (Call ν ρ)
  tasks : List Task
  settled : List ℕ
  resolved : List ℕ
  reports : List (SettingSaveState ν)
  commits : List (Str × ρ × SettingSaveState ν)

namespace Coordinator

variable {ν ρ : Type}

def start : Coordinator ν ρ := ⟨.empty, 0, 0, [], [], [], [], [], [], []⟩

/-- `seed`. -/
def seed (s : Coordinator ν ρ) (key : Str) (value : ν) : Coordinator ν ρ :=
  let existing := s.entries.get key
  if existing.any fun entry => entry.state.phase ∈ [.dirty, .saving] then s
  else
    let state : SettingSaveState ν := {
      key, generation := (existing.map fun entry => entry.state.generation).getD 0,
      phase := .idle, draft := value, lastSaved := some value, error := none }
    { s with
      entries := s.entries.set key {
        object := s.fresh, state, scope := s.scope, timer := none, inFlight := none,
        waiters := (existing.map Entry.waiters).getD [] }
      fresh := s.fresh + 1
      reports := s.reports ++ [state] }

/-- `window.clearTimeout`. -/
def clearTimeout (s : Coordinator ν ρ) (timer : Option ℕ) : Coordinator ν ρ :=
  { s with timers := s.timers.filter fun t => timer ≠ some t.id }

/-- `enqueue`, without what the timer will do. -/
def enqueue (s : Coordinator ν ρ) (key : Str) (value : ν) : Coordinator ν ρ :=
  let existing := s.entries.get key
  let generation := (existing.map fun entry => entry.state.generation).getD 0 + 1
  let entry := existing.getD {
    object := s.fresh, scope := s.scope, timer := none, inFlight := none, waiters := []
    state := { key, generation := 0, phase := .idle, draft := value, lastSaved := none,
               error := none } }
  let s := s.clearTimeout entry.timer
  let state := { entry.state with generation, phase := .dirty, draft := value, error := none }
  { s with
    entries := s.entries.set key { entry with
      scope := s.scope
      state
      waiters := entry.waiters ++ [⟨generation, s.fresh + 1⟩]
      timer := some (s.fresh + 2) }
    fresh := s.fresh + 3
    timers := s.timers ++ [⟨s.fresh + 2, key, entry.object⟩]
    reports := s.reports ++ [state] }

/-- Suspends a `drain`, or returns to the `flush` that awaits it. -/
def park (s : Coordinator ν ρ) (suspension : Suspension) (targets : List Str) :
    Coordinator ν ρ :=
  { s with tasks := s.tasks ++ [⟨suspension, targets⟩] }

/-- The part of `drain` that calls `persist` and waits for it. -/
def send (s : Coordinator ν ρ) (key : Str) (entry : Entry ν) (targets : List Str) :
    Coordinator ν ρ :=
  let state := { entry.state with phase := .saving, error := none }
  let call : Call ν ρ := {
    key, value := entry.state.draft, generation := entry.state.generation, scope := entry.scope,
    outcome := none }
  park { s with
    entries := s.entries.set key { entry with state, inFlight := some s.calls.length }
    calls := s.calls ++ [call]
    reports := s.reports ++ [state] } (.persist s.calls.length) targets

/-- `drain`, up to where it waits. -/
def drain (s : Coordinator ν ρ) (key : Str) (targets : List Str) : Coordinator ν ρ :=
  match s.entries.get key with
  | none => s.park .returned targets
  | some entry =>
    match entry.inFlight with
    | some call => s.park (.inFlight key call) targets
    | none =>
      if entry.state.phase ≠ .dirty then s.park .returned targets else s.send key entry targets

/-- The end of a `drain` that has waited: a draft that came meanwhile is drained too. -/
def drainAgain (s : Coordinator ν ρ) (key : Str) (targets : List Str) : Coordinator ν ρ :=
  if (s.entries.get key).any fun entry => entry.state.phase = .dirty then s.drain key targets
  else s.park .returned targets

/-- The timer of an entry is cleared. -/
def clear (s : Coordinator ν ρ) (key : Str) (entry : Entry ν) : Coordinator ν ρ :=
  let s := s.clearTimeout entry.timer
  { s with entries := s.entries.set key { entry with timer := none } }

/-- The loop of `flush`, up to where it waits. -/
def flushTargets (s : Coordinator ν ρ) : List Str → Coordinator ν ρ
  | [] => s
  | target :: targets =>
    match s.entries.get target with
    | none => s.flushTargets targets
    | some entry => (s.clear target entry).drain target targets

/-- `flush`; the empty key is no key. -/
def flush (s : Coordinator ν ρ) (key : Option Str) : Coordinator ν ρ :=
  match key with
  | none => s.flushTargets s.entries.keys
  | some key => s.flushTargets (if key = [] then s.entries.keys else [key])

/-- The entry of a key in `resetScope`. -/
def resetEntry (s : Coordinator ν ρ) (key : Str) : Coordinator ν ρ :=
  match s.entries.get key with
  | none => s
  | some entry =>
    let s := s.clearTimeout entry.timer
    let hadPending := entry.state.phase = .dirty ∨ entry.state.phase = .saving
    let state := { entry.state with phase := if hadPending then .conflict else .cancelled }
    { s with
      entries := s.entries.set key { entry with timer := none, state, waiters := [] }
      resolved := s.resolved ++ entry.waiters.map Waiter.completion
      reports := s.reports ++ [state] }

/-- `resetScope`. -/
def resetScope (s : Coordinator ν ρ) : Coordinator ν ρ :=
  s.entries.keys.foldl resetEntry { s with scope := s.scope + 1 }

/-- `resolveWaiters`. -/
def resolveWaiters (entry : Entry ν) (generation : ℕ) : List ℕ × Entry ν :=
  ((entry.waiters.filter (·.generation ≤ generation)).map Waiter.completion,
    { entry with waiters := entry.waiters.filter fun waiter => ¬ waiter.generation ≤ generation })

/-- What a `drain` makes of the answer to its call. -/
def apply (s : Coordinator ν ρ) (call : Call ν ρ) (outcome : Except Str ρ) : Coordinator ν ρ :=
  match s.entries.get call.key with
  | none => s
  | some current =>
    if current.scope ≠ call.scope ∨ s.scope ≠ call.scope then s
    else
      match outcome with
      | .ok result =>
        if current.state.generation = call.generation then
          let state := { current.state with
            phase := .saved, lastSaved := some current.state.draft, error := none }
          let (resolved, entry) := resolveWaiters { current with state } call.generation
          { s with
            entries := s.entries.set call.key entry
            resolved := s.resolved ++ resolved
            reports := s.reports ++ [state]
            commits := s.commits ++ [(call.key, result, state)] }
        else
          let state := { current.state with phase := .dirty }
          let (resolved, entry) := resolveWaiters { current with state } call.generation
          { s with
            entries := s.entries.set call.key entry
            resolved := s.resolved ++ resolved
            reports := s.reports ++ [state] }
      | .error error =>
        let state := { current.state with phase := .failed, error := some error }
        let (resolved, entry) := resolveWaiters { current with state } state.generation
        { s with
          entries := s.entries.set call.key entry
          resolved := s.resolved ++ resolved
          reports := s.reports ++ [state] }

/-- The call is no longer in flight. -/
def release (s : Coordinator ν ρ) (key : Str) (call : ℕ) : Coordinator ν ρ :=
  match s.entries.get key with
  | none => s
  | some current =>
    if current.inFlight = some call then
      { s with entries := s.entries.set key { current with inFlight := none } }
    else s

/-- The answer to a call, if there is one already. -/
def answer (s : Coordinator ν ρ) (call : ℕ) : Option (Call ν ρ × Except Str ρ) :=
  (s.calls[call]?).bind fun c => c.outcome.map fun outcome => (c, outcome)

/-- A timer has fired, and the entry that set it forgets it. -/
def expire (s : Coordinator ν ρ) (timer : Timer) : Coordinator ν ρ :=
  let s := { s with timers := s.timers.filter fun t => t ≠ timer }
  match s.entries.get timer.key with
  | none => s
  | some entry =>
    if entry.object = timer.object then
      { s with entries := s.entries.set timer.key { entry with timer := none } }
    else s

/-- A call is answered. -/
def settle (s : Coordinator ν ρ) (call : ℕ) (outcome : Except Str ρ) : Coordinator ν ρ :=
  { s with
    calls := s.calls.modify call (Call.answered outcome)
    settled := s.settled ++ [call] }

/-- A suspended function goes on; `s` no longer has the task. -/
def resume (s : Coordinator ν ρ) (task : Task) : Option (Coordinator ν ρ) :=
  match task.suspension with
  | .returned => some (s.flushTargets task.targets)
  | .inFlight key call => (s.answer call).map fun _ => s.drainAgain key task.targets
  | .persist call => (s.answer call).map fun (c, outcome) =>
      ((s.apply c outcome).release c.key call).drainAgain c.key task.targets

end Coordinator

/-- What can happen: a method is called, a timer fires, a call is answered, a function goes on. -/
inductive Event (ν ρ : Type)
  | seed (key : Str) (value : ν)
  | enqueue (key : Str) (value : ν)
  | flush (key : Option Str)
  | resetScope
  | fire (timer : Timer)
  | settle (call : ℕ) (outcome : Except Str ρ)
  | resume (task : Task)

open Coordinator in
def step {ν ρ : Type} (s : Coordinator ν ρ) : Event ν ρ → Option (Coordinator ν ρ)
  | .seed key value => some (s.seed key value)
  | .enqueue key value => some (s.enqueue key value)
  | .flush key => some (s.flush key)
  | .resetScope => some s.resetScope
  | .fire timer => if timer ∈ s.timers then some ((s.expire timer).drain timer.key []) else none
  | .settle call outcome =>
    match s.calls[call]? with
    | some { outcome := none, .. } => some (s.settle call outcome)
    | _ => none
  | .resume task =>
    if task ∈ s.tasks then { s with tasks := s.tasks.erase task }.resume task else none

end Awayuki.Settings
