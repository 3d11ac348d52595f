import Awayuki.Library.Guarded
import Awayuki.Recovery.Frontend

/-!
# The coordinator of frontend recovery

`FrontendRecoveryCoordinator` of `utils/frontendRecovery.ts` writes the draft of a document, and
whether recovery is blocked, to the native process.  One write is under way at a time; what changes
meanwhile waits in one slot.  A request with the signature of the write that was completed last is
not written again.

* `World`: the coordinator, the native process, and the write between them;
* `step`: the calls, the native side's part, and what the promises do;
* `AcksTrue`: what a call that has resolved says is stored;
* `acksTrue_iff`: exactly if nothing is acknowledged without a write that is not stored.
-/

namespace Awayuki.Recovery.Coordinator

/-- The drafts of a document: `JSON.stringify` of one, which fails for one with a cycle, the value
of a JSON text, and `parseComposeRecoveryCheckpoint`. -/
structure Drafts (C V : Type) where
  accountAcct : C → Str
  stringify : C → Option Str
  value : Str → V
  parse : Option V → Option C

/-- The JSON text of `this.checkpoint`. -/
def Drafts.text {C V : Type} (drafts : Drafts C V) : Option C → Option Str
  | none => some "null".toList
  | some checkpoint => drafts.stringify checkpoint

/-- What the coordinator has to say at a call. -/
structure Values (C : Type) where
  checkpoint : Option C
  recoveryBlocked : Bool

structure RecoveryWrite (C : Type) extends Values C where
  generation : Str

/-- `JSON.stringify(request)`, which has the text of the draft in it. -/
structure Signature where
  checkpoint : Str
  recoveryBlocked : Bool
  generation : Str
  deriving DecidableEq

/-- A write on its way, and the answer of the native process as soon as there is one. -/
structure Flight where
  request : Signature
  answer : Option (Except CheckpointError Unit)

/-- `restorePromise`, with the generation that it brought. -/
inductive Handshake
  | none | failed | ready (generation : Str)
  deriving DecidableEq

/-- `writePromise`: there is none, or its loop awaits a write, or the loop has ended and the
finalizer is still to run. -/
inductive Phase
  | idle | writing | finishing (fulfilled : Bool)
  deriving DecidableEq

structure World (C V : Type) where
  checkpoint : Option C
  blockers : List Str
  handshake : Handshake
  pending : Option (RecoveryWrite C)
  phase : Phase
  lastCompletedSignature : Option Signature
  native : State V
  inFlight : List Flight
  /-- The values at each call of `setBlocked`. -/
  calls : List (Values C)
  /-- The calls whose promises resolve if the loop that is under way ends well. -/
  waiting : List ℕ

/-- A new document. -/
def World.start {C V : Type} (native : State V) : World C V :=
  ⟨none, [], .none, none, .idle, none, native, [], [], []⟩

inductive Action (C : Type)
  | save (checkpoint : C) (blocked : Bool)
  | setBlocked (reason : Str) (blocked : Bool)
  | restore (accountAcct : Option Str) (answered : Bool)
  /-- The native process executes the write that is on its way. -/
  | perform
  /-- The promise of a write settles, with the answer, or as one whose answer is lost. -/
  | respond (answered : Bool)
  | finalize

section

variable {C V : Type} (drafts : Drafts C V) (json : Json V) (uuid : ℕ → Str)

def signature (request : RecoveryWrite C) : Option Signature :=
  (drafts.text request.checkpoint).map fun checkpoint =>
    { checkpoint, recoveryBlocked := request.recoveryBlocked, generation := request.generation }

namespace World

variable (w : World C V)

/-- The loop has thrown. -/
def fail : World C V := { w with phase := .finishing false, waiting := [] }

/-- The loop of `flush` up to its next `await` or to its end.  Nothing is put into the slot while it
runs, so that it ends after a request that it skips. -/
def drain : World C V :=
  match w.pending with
  | none => { w with phase := .finishing true }
  | some request =>
    let w := { w with pending := none }
    match signature drafts request with
    | none => w.fail
    | some signature =>
      if w.lastCompletedSignature = some signature then { w with phase := .finishing true }
      else { w with phase := .writing, inFlight := w.inFlight ++ [⟨signature, none⟩] }

def flush : World C V := if w.phase = .idle then w.drain drafts else w

def block (reason : Str) (blocked : Bool) : List Str :=
  if blocked then w.blockers.insert reason else w.blockers.filter (· ≠ reason)

/-- The values that `setBlocked` finds. -/
def values (reason : Str) (blocked : Bool) : Values C :=
  { checkpoint := w.checkpoint, recoveryBlocked := !(w.block reason blocked).isEmpty }

/-- `setBlocked`, with the calls that resolve at once. -/
def setBlocked (reason : Str) (blocked : Bool) : World C V × List ℕ :=
  let values := w.values reason blocked
  let called := { w with blockers := w.block reason blocked, calls := w.calls ++ [values] }
  match w.handshake with
  | .ready generation =>
    let waiting := if w.phase = .finishing false then w.waiting else w.waiting ++ [w.calls.length]
    (({ called with pending := some { values with generation }, waiting } : World C V).flush drafts,
      [])
  | _ => (called, [w.calls.length])

/-- The call of `setBlocked` that an action makes. -/
def call : Action C → Option (World C V × Str × Bool)
  | .setBlocked reason blocked => some (w, reason, blocked)
  | .save checkpoint blocked =>
    match w.handshake with
    | .ready _ =>
      match drafts.stringify checkpoint with
      | none => some (w, "invalid-checkpoint".toList, true)
      | some _ => some ({ w with
          checkpoint := some checkpoint
          blockers := w.blockers.filter (· ≠ "invalid-checkpoint".toList) },
        "compose".toList, blocked)
    | _ => none
  | _ => none

/-- `restore` takes the draft of another account away. -/
def forAccount (accountAcct : Option Str) : World C V :=
  if w.checkpoint.map drafts.accountAcct = accountAcct then w else { w with checkpoint := none }

def restore (accountAcct : Option Str) (answered : Bool) : World C V :=
  match w.handshake with
  | .failed => w
  | .ready _ => w.forAccount drafts accountAcct
  | .none =>
    let (answer, native) := w.native.restore uuid
    let w := { w with native }
    match answer with
    | .ok restored =>
      if answered && !restored.generation.isEmpty then
        ({ w with
          handshake := .ready restored.generation
          checkpoint := drafts.parse restored.checkpoint } : World C V).forAccount drafts
            accountAcct
      else { w with handshake := .failed }
    | .error _ => { w with handshake := .failed }

def perform : World C V :=
  match w.inFlight with
  | ⟨request, none⟩ :: flights =>
    let (answer, native) := w.native.checkpoint json (drafts.value request.checkpoint)
      request.recoveryBlocked request.generation
    { w with native, inFlight := ⟨request, some answer⟩ :: flights }
  | _ => w

/-- `await this.write(request)` returns or throws. -/
def respond (answered : Bool) : World C V :=
  match w.inFlight with
  | [] => w
  | flight :: flights =>
    let settled := { w with inFlight := flights }
    if answered then
      match flight.answer with
      | none => w
      | some (.ok ()) =>
        ({ settled with lastCompletedSignature := some flight.request } : World C V).drain drafts
      | some (.error _) => settled.fail
    else settled.fail

/-- The finalizer hands over to a new loop, or the promises settle. -/
def finalize : World C V × List ℕ :=
  match w.phase with
  | .finishing _ =>
    if w.pending.isSome then (w.drain drafts, [])
    else ({ w with phase := .idle, waiting := [] }, w.waiting)
  | _ => (w, [])

end World

/-- A step, and the calls whose promises resolve in it. -/
def step (w : World C V) (action : Action C) : World C V × List ℕ :=
  match w.call drafts action with
  | some (w, reason, blocked) => w.setBlocked drafts reason blocked
  | none =>
    match action with
    | .restore accountAcct answered => (w.restore drafts uuid accountAcct answered, [])
    | .perform => (w.perform drafts json, [])
    | .respond answered => (w.respond drafts answered, [])
    | .finalize => w.finalize drafts
    | _ => (w, [])

def next (w : World C V) (action : Action C) : World C V := (step drafts json uuid w action).1

/-! ### What an acknowledgement says -/

/-- The native process stores the values. -/
def Stores (native : State V) (values : Values C) : Prop :=
  (drafts.text values.checkpoint).map (fun text => json.saved (drafts.value text)) =
      some native.stored.checkpoint ∧
    native.stored.recoveryBlocked = values.recoveryBlocked

/-- The native process stores the values of the call or of a later one. -/
def Acknowledged (w : World C V) (call : ℕ) : Prop :=
  ∃ values ∈ w.calls.drop call, Stores drafts json w.native values

/-- What resolves in the step is stored after it. -/
def AcksTrue (w : World C V) (action : Action C) : Prop :=
  ∀ call ∈ (step drafts json uuid w action).2,
    Acknowledged drafts json (next drafts json uuid w action) call

/-- The values that a step takes for stored without a write: those of a call before the handshake,
and of a request that has the signature of the write that was completed last. -/
def takenForStored (w : World C V) (action : Action C) : Option (Values C) :=
  match w.call drafts action with
  | some (w, reason, blocked) =>
    let values := w.values reason blocked
    match w.handshake with
    | .ready generation =>
      if w.phase = .idle ∧ w.lastCompletedSignature.isSome ∧
          signature drafts { values with generation } = w.lastCompletedSignature then some values
      else none
    | _ => some values
  | none =>
    match action, w.pending, w.phase with
    | .finalize, some request, .finishing _ =>
      if w.waiting ≠ [] ∧ w.lastCompletedSignature.isSome ∧
          signature drafts request = w.lastCompletedSignature then some request.toValues
      else none
    | _, _, _ => none

/-- What is taken for stored is stored. -/
def Intact (w : World C V) (action : Action C) : Prop :=
  ∀ values, takenForStored drafts w action = some values → Stores drafts json w.native values

end

/-! ### What every run keeps -/

/-- The values of the last call. -/
def Last {C V : Type} (w : World C V) (values : Values C) : Prop := w.calls.getLast? = some values

section

variable {C V : Type} (drafts : Drafts C V) (json : Json V)

/-- The write on its way has the values. -/
structure Carries (flight : Flight) (values : Values C) : Prop where
  text : drafts.text values.checkpoint = some flight.request.checkpoint
  blocked : values.recoveryBlocked = flight.request.recoveryBlocked

/-- What was answered is stored. -/
def Answered (native : State V) (flight : Flight) : Prop :=
  flight.answer = some (.ok ()) →
    native.stored.checkpoint = json.saved (drafts.value flight.request.checkpoint) ∧
      native.stored.recoveryBlocked = flight.request.recoveryBlocked

/-- What holds of the coordinator whatever happens. -/
structure Shape (w : World C V) : Prop where
  unready : w.phase ≠ .idle → ∃ generation, w.handshake = .ready generation
  idle : w.phase = .idle → w.pending = none ∧ w.inFlight = [] ∧ w.waiting = []
  writing : w.phase = .writing → ∃ flight, w.inFlight = [flight] ∧
    Answered drafts json w.native flight ∧
    (w.pending = none → ∃ values, Last w values ∧ Carries drafts flight values)
  finishing : ∀ fulfilled, w.phase = .finishing fulfilled → w.inFlight = [] ∧
    (fulfilled = false → w.waiting = [])
  awaited : ∀ request, w.phase = .finishing true → w.pending = some request →
    w.waiting ≠ [] → w.calls.length - 1 ∈ w.waiting
  pending : ∀ request, w.pending = some request → Last w request.toValues
  waiting : ∀ call ∈ w.waiting, call < w.calls.length

/-- A loop that has ended well has the values of the last call stored, if a call waits for it. -/
def Held (w : World C V) : Prop :=
  w.phase = .finishing true → w.pending = none → w.waiting ≠ [] →
    ∃ values, Last w values ∧ Stores drafts json w.native values

end

end Awayuki.Recovery.Coordinator
