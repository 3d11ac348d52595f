import Awayuki.Text
import Awayuki.Library.OrderedMap
import Awayuki.Library.Runs

/-!
# The lifecycle of mutations

`MutationLifecycle` runs the destructive actions of the user: at most one at a time for a key,
with a dialog first where there is something to confirm.  A change of the account opens a new
scope; what was started before is uncertain from then on.

* `start`, `confirmed`, `executed`, `finalize`, `resolve`, `invalidateAll`: the pieces of the code
  between two awaits;
* `step`: one of them, and the calls that it makes;
* `Guarantees`: what holds of a step;
* `Meets`: no run is asked for under a key of an older scope, and no scope opens while a result is
  on its way;
* `guarantees_of_meets`: in runs of such steps the guarantees hold.
-/

namespace Awayuki.Mutations

open Runs

/-! ### State -/

variable {operationId i : ℕ}

inductive MutationPhase
  | idle | confirming | pending | succeeded | failed | cancelled | uncertain
  deriving DecidableEq, Repr

/-- The operation ids are random: an operation is known by its number. -/
structure MutationState where
  key : Str
  operationId : ℕ
  phase : MutationPhase
  error : Option Str
  deriving DecidableEq, Repr

/-- The options of a run: is there a dialog, and which errors leave the outcome open? -/
structure MutationRunOptions (ε : Type) where
  confirm : Bool
  isUncertain : Option (ε → Bool)

/-- What a promise comes to. -/
inductive Outcome (β : Type)
  | value (value : Option β)
  | rejected

/-- Where an operation is: before the answer of the dialog, before the result of `execute`, or
after `execute` has returned, when the promise of the run is still two reactions away. -/
inductive Stage (β : Type)
  | confirming
  | executing
  | settled (outcome : Outcome β)
  | finalized (outcome : Outcome β)
  | resolved

/-- The local variables of `execute`. -/
structure Operation (β ε : Type) where
  key : Str
  operationScope : ℕ
  options : MutationRunOptions ε
  stage : Stage β

structure MutationLifecycle (β ε : Type) where
  active : OrderedMap Str ℕ
  states : Str → Option MutationState
  scope : ℕ
  operations : List (Operation β ε)

/-- What the class calls and answers. -/
inductive Call (β : Type)
  | onState (state : MutationState)
  | onCancel (operationId : ℕ)
  | confirm (operationId : ℕ)
  | execute (operationId : ℕ)
  | answer (operationId : ℕ)
  | resolve (operationId : ℕ) (outcome : Outcome β)

variable {β ε : Type}

namespace MutationLifecycle

def initial : MutationLifecycle β ε := ⟨.empty, fun _ => none, 0, []⟩

def publish (s : MutationLifecycle β ε) (state : MutationState) : MutationLifecycle β ε :=
  { s with states := Function.update s.states state.key (some state) }

def setStage (s : MutationLifecycle β ε) (operationId : ℕ) (stage : Stage β) :
    MutationLifecycle β ε :=
  { s with operations := s.operations.modify operationId fun op => { op with stage := stage } }

/-! ### Pieces of the code -/

/-- `run` without an operation of the key, up to the first await of `execute`. -/
def start (s : MutationLifecycle β ε) (key : Str) (options : MutationRunOptions ε) :
    MutationLifecycle β ε × List (Call β) :=
  let operationId := s.operations.length
  let opened (stage : Stage β) (state : MutationState) : MutationLifecycle β ε :=
    { s.publish state with
      operations := s.operations ++ [⟨key, s.scope, options, stage⟩]
      active := s.active.set key operationId }
  if options.confirm then
    let state : MutationState := ⟨key, operationId, .confirming, none⟩
    (opened .confirming state, [.onState state, .confirm operationId, .answer operationId])
  else
    let state : MutationState := ⟨key, operationId, .pending, none⟩
    (opened .executing state, [.onState state, .execute operationId, .answer operationId])

def run (s : MutationLifecycle β ε) (key : Str) (options : MutationRunOptions ε) :
    MutationLifecycle β ε × List (Call β) :=
  match s.active.get key with
  | some existing => (s, [.answer existing])
  | none => s.start key options

/-- Publishes a state and leaves the operation in a stage. -/
def moveTo (s : MutationLifecycle β ε) (operationId : ℕ) (state : MutationState)
    (stage : Stage β) (calls : List (Call β)) : MutationLifecycle β ε × List (Call β) :=
  ((s.publish state).setStage operationId stage, .onState state :: calls)

/-- After the answer of the dialog. -/
def confirmed (s : MutationLifecycle β ε) (operationId : ℕ) (op : Operation β ε)
    (answer : Bool) : MutationLifecycle β ε × List (Call β) :=
  if !answer || s.scope != op.operationScope then
    s.moveTo operationId ⟨op.key, operationId, .cancelled, none⟩ (.settled (.value none)) []
  else
    s.moveTo operationId ⟨op.key, operationId, .pending, none⟩ .executing
      [.execute operationId]

/-- After the result of `execute`; `text` is `String(error)`. -/
def executed (text : ε → Str) (s : MutationLifecycle β ε) (operationId : ℕ)
    (op : Operation β ε) (result : Except ε β) : MutationLifecycle β ε × List (Call β) :=
  match result with
  | .ok value =>
    if s.scope != op.operationScope then
      s.moveTo operationId ⟨op.key, operationId, .uncertain,
        some "Mutation completed after its resource scope changed"⟩ (.settled (.value none)) []
    else
      s.moveTo operationId ⟨op.key, operationId, .succeeded, none⟩
        (.settled (.value (some value))) []
  | .error error =>
    if s.scope != op.operationScope then
      s.moveTo operationId ⟨op.key, operationId, .uncertain, some (text error)⟩
        (.settled (.value none)) []
    else
      let phase := if (op.options.isUncertain.map (· error)).getD false
        then MutationPhase.uncertain else .failed
      s.moveTo operationId ⟨op.key, operationId, phase, some (text error)⟩
        (.settled (.value none)) []

/-- The callback of `finally`. -/
def finalize (s : MutationLifecycle β ε) (operationId : ℕ) (op : Operation β ε)
    (outcome : Outcome β) : MutationLifecycle β ε :=
  let s := s.setStage operationId (.finalized outcome)
  if s.active.get op.key = some operationId then { s with active := s.active.delete op.key } else s

/-- One key of `invalidateAll`. -/
def invalidate (reason : Str) (acc : MutationLifecycle β ε × List (Call β)) (key : Str) :
    MutationLifecycle β ε × List (Call β) :=
  match acc.1.states key with
  | none => acc
  | some current =>
    let state := { current with phase := .uncertain, error := some reason }
    (acc.1.publish state,
      acc.2 ++ (if current.phase = .pending then [.onCancel current.operationId] else []) ++
        [.onState state])

def invalidateAll (s : MutationLifecycle β ε) (reason : Str) :
    MutationLifecycle β ε × List (Call β) :=
  s.active.keys.foldl (invalidate reason) ({ s with scope := s.scope + 1 }, [])

end MutationLifecycle

/-! ### Steps -/

/-- What happens: a call of `run` or `invalidateAll`, the answer of a dialog, the result of an
operation, or a reaction of its promise. -/
inductive Label (β ε : Type)
  | run (key : Str) (options : MutationRunOptions ε)
  | confirmed (operationId : ℕ) (answer : Bool)
  | confirmFailed (operationId : ℕ)
  | executed (operationId : ℕ) (result : Except ε β)
  | finalize (operationId : ℕ)
  | resolve (operationId : ℕ)
  | invalidateAll (reason : Str)

open MutationLifecycle in
def step (text : ε → Str) (s : MutationLifecycle β ε) :
    Label β ε → Option (MutationLifecycle β ε × List (Call β))
  | .run key options => some (s.run key options)
  | .confirmed operationId answer =>
    s.operations[operationId]?.bind fun op =>
      match op.stage with
      | .confirming => some (s.confirmed operationId op answer)
      | _ => none
  | .confirmFailed operationId =>
    s.operations[operationId]?.bind fun op =>
      match op.stage with
      | .confirming => some (s.setStage operationId (.settled .rejected), [])
      | _ => none
  | .executed operationId result =>
    s.operations[operationId]?.bind fun op =>
      match op.stage with
      | .executing => some (s.executed text operationId op result)
      | _ => none
  | .finalize operationId =>
    s.operations[operationId]?.bind fun op =>
      match op.stage with
      | .settled outcome => some (s.finalize operationId op outcome, [])
      | _ => none
  | .resolve operationId =>
    s.operations[operationId]?.bind fun op =>
      match op.stage with
      | .finalized outcome =>
        some (s.setStage operationId .resolved, [.resolve operationId outcome])
      | _ => none
  | .invalidateAll reason => some (s.invalidateAll reason)

/-- `execute` has been called for the operation and is not settled. -/
def Operation.Executing (op : Operation β ε) : Prop := op.stage = .executing

/-- The promise of the operation is on its way to a value. -/
def Operation.HasValue (op : Operation β ε) : Prop :=
  ∃ value, op.stage = .settled (.value (some value)) ∨ op.stage = .finalized (.value (some value))

/-- The scope has changed since the operation was started. -/
def MutationLifecycle.Outdated (s : MutationLifecycle β ε) (operationId : ℕ) : Prop :=
  ∃ op, s.operations[operationId]? = some op ∧ op.operationScope ≠ s.scope

/-- What a step from `s` to `t` with the calls it makes guarantees. -/
structure Guarantees (s : MutationLifecycle β ε) (label : Label β ε) (t : MutationLifecycle β ε)
    (calls : List (Call β)) : Prop where
  single : ∀ (i j : ℕ) (op op' : Operation β ε), t.operations[i]? = some op →
    t.operations[j]? = some op' → op.Executing → op'.Executing → op.key = op'.key → i = j
  succeeded : ∀ state, .onState state ∈ calls → state.phase = .succeeded →
    ¬ s.Outdated state.operationId
  resolves : ∀ operationId value, .resolve operationId (.value (some value)) ∈ calls →
    ¬ s.Outdated operationId
  executes : ∀ operationId, .execute operationId ∈ calls → ¬ t.Outdated operationId
  answers : ∀ key options, label = .run key options →
    ∃ (operationId : ℕ) (op : Operation β ε), .answer operationId ∈ calls ∧
      t.operations[operationId]? = some op ∧ op.key = key ∧ op.operationScope = s.scope ∧
      (s.active.get key = none → op.options = options ∧ s.operations[operationId]? = none)

/-- The condition on a step. -/
def Meets (s : MutationLifecycle β ε) : Label β ε → Prop
  | .run key _ => ∀ operationId, s.active.get key = some operationId → ¬ s.Outdated operationId
  | .invalidateAll _ => ∀ op ∈ s.operations, ¬ op.HasValue
  | _ => True

/-! ### What the pieces leave -/

variable {op : Operation β ε}

namespace MutationLifecycle

variable {s : MutationLifecycle β ε}

theorem operations_setStage (operationId : ℕ) (stage : Stage β)
    (hop : s.operations[operationId]? = some op) : (s.setStage operationId stage).operations[i]? =
      if i = operationId then some { op with stage := stage } else s.operations[i]? := by
  rw [setStage, List.getElem?_modify]
  by_cases hi : i = operationId
  · subst hi
    simp [hop]
  · simp [hi, Ne.symm hi]

/-- The calls of `invalidateAll` cancel operations and publish uncertain ones. -/
theorem foldl_invalidate (reason : Str) (keys : List Str)
    (acc : MutationLifecycle β ε × List (Call β)) :
    (keys.foldl (invalidate reason) acc).1.operations = acc.1.operations ∧
      (keys.foldl (invalidate reason) acc).1.active = acc.1.active ∧
      (keys.foldl (invalidate reason) acc).1.scope = acc.1.scope ∧
      ∀ call ∈ (keys.foldl (invalidate reason) acc).2, call ∈ acc.2 ∨
        (∃ operationId, call = .onCancel operationId) ∨
        ∃ state : MutationState, call = .onState state ∧ state.phase = .uncertain := by
  induction keys generalizing acc with
  | nil => exact ⟨rfl, rfl, rfl, fun call hcall => .inl hcall⟩
  | cons key keys ih =>
    obtain ⟨hoperations, hactive, hscope, hcalls⟩ := ih (invalidate reason acc key)
    rw [List.foldl_cons, hoperations, hactive, hscope]
    unfold invalidate at hcalls ⊢
    cases hstate : acc.1.states key with
    | none => simpa [hstate] using hcalls
    | some current =>
      rw [hstate] at hcalls
      refine ⟨rfl, rfl, rfl, fun call hcall => ?_⟩
      rcases hcalls call hcall with hcall | hother
      · simp only [List.mem_append, List.mem_singleton] at hcall
        rcases hcall with (hold | hcancel) | rfl
        · exact .inl hold
        · split at hcancel
          · exact .inr (.inl ⟨_, List.mem_singleton.1 hcancel⟩)
          · cases hcancel
        · exact .inr (.inr ⟨_, rfl, rfl⟩)
      · exact .inr hother

end MutationLifecycle

/-! ### The invariant -/

/-- The operation still occupies its key. -/
def Stage.Busy : Stage β → Prop
  | .confirming | .executing | .settled _ => True
  | _ => False

structure Inv (s : MutationLifecycle β ε) : Prop where
  known : ∀ key operationId, s.active.get key = some operationId →
    ∃ op : Operation β ε, s.operations[operationId]? = some op ∧ op.key = key
  occupies : ∀ (operationId : ℕ) (op : Operation β ε), s.operations[operationId]? = some op →
    op.stage.Busy → s.active.get op.key = some operationId
  current : ∀ (operationId : ℕ) (op : Operation β ε), s.operations[operationId]? = some op →
    op.HasValue → op.operationScope = s.scope

section Invariant

variable {s t : MutationLifecycle β ε} {text : ε → Str}

theorem inv_initial : Inv (MutationLifecycle.initial : MutationLifecycle β ε) where
  known key operationId h := by simp [MutationLifecycle.initial] at h
  occupies operationId op h := by simp [MutationLifecycle.initial] at h
  current operationId op h := by simp [MutationLifecycle.initial] at h

/-- Publishing does not touch what the invariant speaks of. -/
theorem Inv.publish (h : Inv s) (state : MutationState) : Inv (s.publish state) :=
  ⟨h.known, h.occupies, h.current⟩

variable {stage : Stage β}

/-- An operation may move to a stage where it occupies its key only if it already does, and to a
value only in its scope. -/
theorem Inv.setStage (h : Inv s) (hop : s.operations[operationId]? = some op)
    (hbusy : stage.Busy → op.stage.Busy)
    (hvalue : Operation.HasValue { op with stage  := stage } → op.operationScope = s.scope) :
    Inv (s.setStage operationId stage) where
  known key id hactive := by
    obtain ⟨op', hop', hkey⟩ := h.known key id hactive
    rw [MutationLifecycle.operations_setStage _ _ hop]
    split
    · next hid =>
      rw [hid, hop] at hop'
      cases hop'
      exact ⟨_, rfl, hkey⟩
    · exact ⟨op', hop', hkey⟩
  occupies id op' hop' hbusy' := by
    rw [MutationLifecycle.operations_setStage _ _ hop] at hop'
    split at hop'
    · next hid =>
      cases hop'
      rw [hid]
      exact h.occupies operationId op hop (hbusy hbusy')
    · exact h.occupies id op' hop' hbusy'
  current id op' hop' hvalue' := by
    rw [MutationLifecycle.operations_setStage _ _ hop] at hop'
    split at hop'
    · cases hop'
      exact hvalue hvalue'
    · exact h.current id op' hop' hvalue'

theorem not_hasValue (h : ∀ value, stage ≠ .settled (.value (some value)) ∧
      stage ≠ .finalized (.value (some value))) :
    ¬ Operation.HasValue { op with stage := stage } := by
  rintro ⟨value, hvalue | hvalue⟩
  · exact (h value).1 hvalue
  · exact (h value).2 hvalue

/-- A published change to a stage without a value. -/
theorem Inv.moveTo (h : Inv s) (hop : s.operations[operationId]? = some op) (hbusy : op.stage.Busy)
    (hvalue : Operation.HasValue { op with stage  := stage } → op.operationScope = s.scope)
    (state : MutationState) (calls : List (Call β)) :
    Inv (s.moveTo operationId state stage calls).1 :=
  (h.publish state).setStage hop (fun _ => hbusy) hvalue

theorem Inv.confirmed (h : Inv s) (hop : s.operations[operationId]? = some op)
    (hbusy : op.stage.Busy) (answer : Bool) : Inv (s.confirmed operationId op answer).1 := by
  unfold MutationLifecycle.confirmed
  split
  · exact h.moveTo hop hbusy (fun hv => absurd hv (not_hasValue (by simp))) _ _
  · exact h.moveTo hop hbusy (fun hv => absurd hv (not_hasValue (by simp))) _ _

theorem Inv.executed (h : Inv s) (hop : s.operations[operationId]? = some op)
    (hbusy : op.stage.Busy) (text : ε → Str) (result : Except ε β) :
    Inv (s.executed text operationId op result).1 := by
  unfold MutationLifecycle.executed
  cases result with
  | ok value =>
    dsimp only
    split
    · exact h.moveTo hop hbusy (fun hv => absurd hv (not_hasValue (by simp))) _ _
    · next hscope =>
      have hcurrent : op.operationScope = s.scope :=
        (not_not.1 fun h => hscope (bne_iff_ne.2 h)).symm
      exact h.moveTo hop hbusy (fun _ => hcurrent) _ _
  | error error =>
    dsimp only
    split
    · exact h.moveTo hop hbusy (fun hv => absurd hv (not_hasValue (by simp))) _ _
    · exact h.moveTo hop hbusy (fun hv => absurd hv (not_hasValue (by simp))) _ _

/-- The callback of `finally` frees the key of an operation that does not need it any more. -/
theorem Inv.finalize (h : Inv s) {outcome : Outcome β} (hop : s.operations[operationId]? = some op)
    (hstage : op.stage = .settled outcome) : Inv (s.finalize operationId op outcome) := by
  have hmoved : Inv (s.setStage operationId (.finalized outcome)) := by
    refine h.setStage hop (fun hbusy => hbusy.elim) fun hvalue => h.current _ _ hop ?_
    obtain ⟨value, hvalue | hvalue⟩ := hvalue
    · cases hvalue
    · cases hvalue
      exact ⟨value, .inl hstage⟩
  unfold MutationLifecycle.finalize
  dsimp only
  split
  · next hactive =>
    refine ⟨fun key id hget => ?_, fun id op' hop' hbusy => ?_, hmoved.current⟩
    · rw [OrderedMap.get_delete] at hget
      split at hget
      · cases hget
      · exact hmoved.known key id hget
    · have hoccupies := hmoved.occupies id op' hop' hbusy
      rw [OrderedMap.get_delete]
      split
      · next hkey =>
        -- another operation of the key would be the one that occupies it
        rw [hkey, hactive] at hoccupies
        cases hoccupies
        rw [MutationLifecycle.operations_setStage _ _ hop, if_pos rfl] at hop'
        cases hop'
        exact hbusy.elim
      · exact hoccupies
  · exact hmoved

theorem getElem?_append_singleton {op' : Operation β ε}
    (h : (s.operations ++ [op])[i]? = some op') :
    s.operations[i]? = some op' ∨ i = s.operations.length ∧ op' = op := by
  rw [List.getElem?_append] at h
  split at h
  · exact .inl h
  · next hi =>
    have hlt := (List.getElem?_eq_some_iff.1 h).1
    rw [List.length_singleton] at hlt
    obtain rfl : i = s.operations.length := by omega
    rw [Nat.sub_self] at h
    exact .inr ⟨rfl, (Option.some.inj h).symm⟩

/-- A new operation takes a free key. -/
theorem Inv.start (h : Inv s) {key : Str} (hfree : s.active.get key = none)
    (options : MutationRunOptions ε) : Inv (s.start key options).1 := by
  have hopened (stage : Stage β) (state : MutationState)
      (hstage : stage = .confirming ∨ stage = .executing) :
      Inv { s.publish state with
        operations := s.operations ++ [⟨key, s.scope, options, stage⟩]
        active := s.active.set key s.operations.length } := by
    refine ⟨fun k id hget => ?_, fun id op hop hbusy => ?_, fun id op hop hvalue => ?_⟩
    · dsimp only at hget ⊢
      rw [OrderedMap.get_set] at hget
      split at hget
      · next hk =>
        cases hget
        exact ⟨_, List.getElem?_concat_length, hk.symm⟩
      · obtain ⟨op, hop, hkey⟩ := h.known k id hget
        exact ⟨op, by rw [List.getElem?_append_left (List.getElem?_eq_some_iff.1 hop).1, hop], hkey⟩
    · dsimp only at hop ⊢
      rw [OrderedMap.get_set]
      rcases getElem?_append_singleton hop with hold | ⟨rfl, rfl⟩
      · have hoccupies := h.occupies id op hold hbusy
        rw [if_neg, hoccupies]
        rintro hkey
        rw [hkey, hfree] at hoccupies
        cases hoccupies
      · rw [if_pos rfl]
    · dsimp only at hop
      rcases getElem?_append_singleton hop with hold | ⟨rfl, rfl⟩
      · exact h.current id op hold hvalue
      · obtain ⟨value, hvalue | hvalue⟩ := hvalue <;> rcases hstage with rfl | rfl <;> cases hvalue
  unfold MutationLifecycle.start
  dsimp only
  split
  · exact hopened _ _ (.inl rfl)
  · exact hopened _ _ (.inr rfl)

/-- A new scope keeps the invariant when no value is on its way. -/
theorem Inv.invalidateAll (h : Inv s) (hmeets : ∀ op ∈ s.operations, ¬ op.HasValue)
    (reason : Str) : Inv (s.invalidateAll reason).1 := by
  obtain ⟨hoperations, hactive, -, -⟩ := MutationLifecycle.foldl_invalidate reason s.active.keys
    (({ s with scope := s.scope + 1 }, []) : MutationLifecycle β ε × List (Call β))
  unfold MutationLifecycle.invalidateAll
  refine ⟨fun key id hget => ?_, fun id op hop hbusy => ?_, fun id op hop hvalue => ?_⟩
  · rw [hactive] at hget
    rw [hoperations]
    exact h.known key id hget
  · rw [hoperations] at hop
    rw [hactive]
    exact h.occupies id op hop hbusy
  · rw [hoperations] at hop
    exact absurd hvalue (hmeets op (List.mem_of_getElem? hop))

/-! ### One step -/

/-- What a step does, with the stage in which it finds the operation. -/
inductive Moved (text : ε → Str) (s : MutationLifecycle β ε) :
    Label β ε → MutationLifecycle β ε × List (Call β) → Prop
  | joined {key options operationId} (h : s.active.get key = some operationId) :
    Moved text s (.run key options) (s, [.answer operationId])
  | started {key options} (h : s.active.get key = none) :
    Moved text s (.run key options) (s.start key options)
  | confirmed {operationId : ℕ} {op : Operation β ε} {answer}
    (hop : s.operations[operationId]? = some op) (hstage : op.stage = .confirming) :
    Moved text s (.confirmed operationId answer) (s.confirmed operationId op answer)
  | confirmFailed {operationId : ℕ} {op : Operation β ε}
    (hop : s.operations[operationId]? = some op) (hstage : op.stage = .confirming) :
    Moved text s (.confirmFailed operationId) (s.setStage operationId (.settled .rejected), [])
  | executed {operationId : ℕ} {op : Operation β ε} {result}
    (hop : s.operations[operationId]? = some op) (hstage : op.stage = .executing) :
    Moved text s (.executed operationId result) (s.executed text operationId op result)
  | finalize {operationId : ℕ} {op : Operation β ε} {outcome}
    (hop : s.operations[operationId]? = some op) (hstage : op.stage = .settled outcome) :
    Moved text s (.finalize operationId) (s.finalize operationId op outcome, [])
  | resolve {operationId : ℕ} {op : Operation β ε} {outcome}
    (hop : s.operations[operationId]? = some op) (hstage : op.stage = .finalized outcome) :
    Moved text s (.resolve operationId)
      (s.setStage operationId .resolved, [.resolve operationId outcome])
  | invalidateAll {reason} : Moved text s (.invalidateAll reason) (s.invalidateAll reason)

variable {label : Label β ε} {next : MutationLifecycle β ε × List (Call β)}

theorem moved_of_step (h : step text s label = some next) : Moved text s label next := by
  cases label with
  | run key options =>
    obtain rfl := Option.some.inj h
    unfold MutationLifecycle.run
    split
    · next hactive => exact .joined hactive
    · next hactive => exact .started hactive
  | confirmed operationId answer =>
    obtain ⟨op, hop, h⟩ := Option.bind_eq_some_iff.1 h
    split at h
    · next hstage =>
      obtain rfl := Option.some.inj h
      exact .confirmed hop hstage
    · cases h
  | confirmFailed operationId =>
    obtain ⟨op, hop, h⟩ := Option.bind_eq_some_iff.1 h
    split at h
    · next hstage =>
      obtain rfl := Option.some.inj h
      exact .confirmFailed hop hstage
    · cases h
  | executed operationId result =>
    obtain ⟨op, hop, h⟩ := Option.bind_eq_some_iff.1 h
    split at h
    · next hstage =>
      obtain rfl := Option.some.inj h
      exact .executed hop hstage
    · cases h
  | finalize operationId =>
    obtain ⟨op, hop, h⟩ := Option.bind_eq_some_iff.1 h
    split at h
    · next hstage =>
      obtain rfl := Option.some.inj h
      exact .finalize hop hstage
    · cases h
  | resolve operationId =>
    obtain ⟨op, hop, h⟩ := Option.bind_eq_some_iff.1 h
    split at h
    · next hstage =>
      obtain rfl := Option.some.inj h
      exact .resolve hop hstage
    · cases h
  | invalidateAll reason =>
    obtain rfl := Option.some.inj h
    exact .invalidateAll

theorem Inv.moved (h : Inv s) (hmeets : Meets s label) (hmoved : Moved text s label next) :
    Inv next.1 := by
  cases hmoved with
  | joined => exact h
  | started hfree => exact h.start hfree _
  | confirmed hop hstage => exact h.confirmed hop (by rw [hstage]; trivial) _
  | confirmFailed hop hstage =>
    exact h.setStage hop (fun _ => by rw [hstage]; trivial)
      fun hvalue => absurd hvalue (not_hasValue (by simp))
  | executed hop hstage => exact h.executed hop (by rw [hstage]; trivial) text _
  | finalize hop hstage => exact h.finalize hop hstage
  | resolve hop hstage =>
    exact h.setStage hop (fun hbusy => hbusy.elim)
      fun hvalue => absurd hvalue (not_hasValue (by simp))
  | invalidateAll => exact h.invalidateAll hmeets _

/-- Two operations of a key cannot both be waiting for their result. -/
theorem Inv.single (h : Inv s) {j : ℕ} {op' : Operation β ε} (hop : s.operations[i]? = some op)
    (hop' : s.operations[j]? = some op') (hexecuting : op.Executing) (hexecuting' : op'.Executing)
    (hkey : op.key = op'.key) : i = j := by
  have hi := h.occupies i op hop (by rw [show op.stage = _ from hexecuting]; trivial)
  have hj := h.occupies j op' hop' (by rw [show op'.stage = _ from hexecuting']; trivial)
  rw [hkey, hj] at hi
  exact (Option.some.inj hi).symm

theorem not_outdated (hop : s.operations[operationId]? = some op)
    (hscope : op.operationScope = s.scope) : ¬ s.Outdated operationId := by
  rintro ⟨op', hop', hne⟩
  rw [hop] at hop'
  cases hop'
  exact hne hscope

/-- What a step from `s` to `t` calls: it says of an operation of the current scope only that it
has succeeded, executes no other, and resolves what is finalized. -/
inductive Told (s t : MutationLifecycle β ε) : Call β → Prop
  | answer (operationId : ℕ) : Told s t (.answer operationId)
  | onCancel (operationId : ℕ) : Told s t (.onCancel operationId)
  | confirm (operationId : ℕ) : Told s t (.confirm operationId)
  | onState {state : MutationState}
    (h : state.phase = .succeeded → ¬ s.Outdated state.operationId) : Told s t (.onState state)
  | execute {operationId : ℕ} (h : ¬ t.Outdated operationId) : Told s t (.execute operationId)
  | resolve {operationId : ℕ} {op : Operation β ε} {outcome : Outcome β}
    (hop : s.operations[operationId]? = some op) (hstage : op.stage = .finalized outcome) :
    Told s t (.resolve operationId outcome)

theorem Moved.told (h : Moved text s label next) : ∀ call ∈ next.2, Told s next.1 call := by
  cases h with
  | joined => exact List.forall_mem_singleton.2 (.answer _)
  | started =>
    unfold MutationLifecycle.start
    dsimp only
    split
    · simp only [List.forall_mem_cons]
      exact ⟨.onState nofun, .confirm _, .answer _, nofun⟩
    · simp only [List.forall_mem_cons]
      exact ⟨.onState nofun, .execute (not_outdated List.getElem?_concat_length rfl), .answer _,
        nofun⟩
  | confirmed hop =>
    unfold MutationLifecycle.confirmed
    split
    · exact List.forall_mem_singleton.2 (.onState nofun)
    · next hcondition =>
      rw [Bool.or_eq_true, not_or] at hcondition
      have hscope := (not_not.1 fun h => hcondition.2 (bne_iff_ne.2 h)).symm
      refine List.forall_mem_cons.2 ⟨.onState nofun, List.forall_mem_singleton.2 (.execute ?_)⟩
      exact not_outdated ((MutationLifecycle.operations_setStage _ _ hop).trans (if_pos rfl)) hscope
  | confirmFailed => exact nofun
  | @executed operationId op result hop =>
    unfold MutationLifecycle.executed
    cases result with
    | ok value =>
      dsimp only
      split
      · exact List.forall_mem_singleton.2 (.onState nofun)
      · next hscope =>
        exact List.forall_mem_singleton.2 (.onState fun _ =>
          not_outdated hop (not_not.1 fun h => hscope (bne_iff_ne.2 h)).symm)
    | error error =>
      dsimp only
      split
      · exact List.forall_mem_singleton.2 (.onState nofun)
      · refine List.forall_mem_singleton.2 (.onState fun hphase => ?_)
        dsimp only at hphase
        split at hphase <;> cases hphase
  | finalize => exact nofun
  | resolve hop hstage => exact List.forall_mem_singleton.2 (.resolve hop hstage)
  | invalidateAll =>
    intro call hcall
    obtain ⟨-, -, -, hcalls⟩ := MutationLifecycle.foldl_invalidate _ s.active.keys
      (({ s with scope := s.scope + 1 }, []) : MutationLifecycle β ε × List (Call β))
    rcases hcalls call hcall with hnil | ⟨operationId, rfl⟩ | ⟨state, rfl, huncertain⟩
    · cases hnil
    · exact .onCancel operationId
    · refine .onState fun hphase => ?_
      rw [huncertain] at hphase
      cases hphase

/-- `succeeded` is published in the scope of its operation only. -/
theorem Moved.succeeded (h : Moved text s label next) {state : MutationState}
    (hcall : .onState state ∈ next.2) (hphase : state.phase = .succeeded) :
    ¬ s.Outdated state.operationId := by
  cases h.told _ hcall with
  | onState h => exact h hphase

/-- Only an operation of the current scope is executed. -/
theorem Moved.executes (h : Moved text s label next) (hcall : .execute operationId ∈ next.2) :
    ¬ next.1.Outdated operationId := by
  cases h.told _ hcall with
  | execute h => exact h

/-- A promise resolves with a value in the scope of its operation only. -/
theorem Inv.resolves (h : Inv s) (hmoved : Moved text s label next) {value : β}
    (hcall : .resolve operationId (.value (some value)) ∈ next.2) : ¬ s.Outdated operationId := by
  cases hmoved.told _ hcall with
  | resolve hop hstage => exact not_outdated hop (h.current _ _ hop ⟨value, .inr hstage⟩)

/-- Each request is answered by an operation of the current scope, its own if the key is free. -/
theorem Inv.answers {key : Str} {options : MutationRunOptions ε} (h : Inv s)
    (hmeets : Meets s (.run key options : Label β ε))
    (hmoved : Moved text s (.run key options) next) :
    ∃ (operationId : ℕ) (op : Operation β ε), .answer operationId ∈ next.2 ∧
      next.1.operations[operationId]? = some op ∧ op.key = key ∧ op.operationScope = s.scope ∧
      (s.active.get key = none → op.options = options ∧ s.operations[operationId]? = none) := by
  cases hmoved with
  | @joined _ _ operationId hactive =>
    obtain ⟨op, hop, hkey⟩ := h.known key operationId hactive
    have hscope : op.operationScope = s.scope := by
      by_contra hne
      exact hmeets operationId hactive ⟨op, hop, hne⟩
    exact ⟨operationId, op, List.mem_singleton_self _, hop, hkey, hscope, by simp [hactive]⟩
  | started hfree =>
    unfold MutationLifecycle.start
    dsimp only
    split
    · exact ⟨s.operations.length, _, by simp, List.getElem?_concat_length, rfl, rfl, by simp⟩
    · exact ⟨s.operations.length, _, by simp, List.getElem?_concat_length, rfl, rfl, by simp⟩

theorem Inv.guarantees {calls : List (Call β)} (h : Inv s) (hmeets : Meets s label)
    (hstep : step text s label = some (t, calls)) : Guarantees s label t calls := by
  have hmoved := moved_of_step hstep
  have ht : Inv t := h.moved hmeets hmoved
  refine ⟨fun i j op op' hi hj => ht.single hi hj, fun state hcall hphase => ?_,
    fun operationId value hcall => ?_, fun operationId hcall => ?_, fun key options hlabel => ?_⟩
  · exact hmoved.succeeded hcall hphase
  · exact h.resolves hmoved hcall
  · exact hmoved.executes hcall
  · subst hlabel
    exact h.answers hmeets hmoved

end Invariant

/-! ### Runs -/

def Step (text : ε → Str) (s : MutationLifecycle β ε) (label : Label β ε)
    (t : MutationLifecycle β ε) : Prop :=
  ∃ calls, step text s label = some (t, calls)

/-- The steps that meet the condition. -/
def GoodStep (text : ε → Str) (s : MutationLifecycle β ε) (label : Label β ε)
    (t : MutationLifecycle β ε) : Prop :=
  Meets s label ∧ Step text s label t

/-- In a run whose steps meet the condition, every step has the guarantees. -/
theorem guarantees_of_meets (text : ε → Str) {labels : List (Label β ε)} {label : Label β ε}
    {s t : MutationLifecycle β ε} {calls : List (Call β)}
    (hrun : Run (GoodStep text) .initial labels s) (hmeets : Meets s label)
    (hstep : step text s label = some (t, calls)) : Guarantees s label t calls := by
  have hinv : Inv s := hrun.invariant inv_initial fun ht hgood => by
    obtain ⟨hmeets, calls, hstep⟩ := hgood
    exact ht.moved hmeets (moved_of_step hstep)
  exact hinv.guarantees hmeets hstep

def sampleOptions : MutationRunOptions Str := ⟨false, none⟩

/-- A switch of the account is waiting for its result. -/
def sampleStarted : MutationLifecycle ℕ Str :=
  (MutationLifecycle.initial.start "account:switch" sampleOptions).1

/-- A login has opened a new scope. -/
def sampleInvalidated : MutationLifecycle ℕ Str :=
  (sampleStarted.invalidateAll "Account changed during an operation").1

theorem step_sampleStarted : Step id MutationLifecycle.initial
    (.run "account:switch" sampleOptions) sampleStarted := ⟨_, rfl⟩

theorem step_sampleInvalidated : Step id sampleStarted
    (.invalidateAll "Account changed during an operation") sampleInvalidated := ⟨_, rfl⟩

theorem guarantees_of_meets_sample : Guarantees sampleInvalidated
    (.run "compose:submit" sampleOptions)
    (sampleInvalidated.start "compose:submit" sampleOptions).1
    (sampleInvalidated.start "compose:submit" sampleOptions).2 := by
  have hstarted : GoodStep id MutationLifecycle.initial (.run "account:switch" sampleOptions)
      sampleStarted := ⟨fun id h => (by cases h), step_sampleStarted⟩
  have hinvalidated : GoodStep id sampleStarted
      (.invalidateAll "Account changed during an operation") sampleInvalidated := by
    refine ⟨fun op hop hvalue => ?_, step_sampleInvalidated⟩
    obtain rfl := List.mem_singleton.1 hop
    rcases hvalue with ⟨value, hvalue | hvalue⟩ <;> cases hvalue
  exact guarantees_of_meets id (.snoc (.snoc (.nil _) hstarted) hinvalidated)
    (fun id h => by cases h) rfl

/-! ### What the condition leaves out -/

section Exact

variable {s : MutationLifecycle β ε}

/-- A run that is asked for under a key of an older scope is answered by the operation there. -/
theorem not_guarantees_of_outdated (key : Str) (hactive : s.active.get key = some operationId)
    (houtdated : s.Outdated operationId) (options : MutationRunOptions ε) :
    ¬ Guarantees s (.run key options) (s.run key options).1 (s.run key options).2 := by
  intro h
  obtain ⟨id, op, hanswer, hop, -, hscope, -⟩ := h.answers key options rfl
  unfold MutationLifecycle.run at hanswer hop
  rw [hactive] at hanswer hop
  cases List.mem_singleton.1 hanswer
  exact not_outdated hop hscope houtdated

end Exact

theorem not_always_guarantees : ¬ ∀ (labels : List (Label ℕ Str)) (label : Label ℕ Str)
    (s t : MutationLifecycle ℕ Str) (calls : List (Call ℕ)),
      Run (Step id) .initial labels s → step id s label = some (t, calls) →
        Guarantees s label t calls := by
  intro h
  have hrun := (Run.nil _).snoc step_sampleStarted |>.snoc step_sampleInvalidated
  have houtdated : sampleInvalidated.Outdated 0 := ⟨_, rfl, by decide⟩
  exact not_guarantees_of_outdated "account:switch" rfl houtdated sampleOptions
    (h _ (.run "account:switch" sampleOptions) _ _ _ hrun rfl)

end Awayuki.Mutations
