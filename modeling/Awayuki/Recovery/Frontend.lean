import Awayuki.Text
import Awayuki.Library.Runs

/-!
# Frontend recovery

The checkpoints that `application/frontend_recovery.rs` keeps in memory for the main webview.  A
document restores once, then saves checkpoints under the generation that it was given.

* `State`: what is stored behind the lock, which a panic poisons;
* `perform`: the four operations and their answers;
* `recovery_never_discards`: what the answers say about the history before them.
-/

namespace Awayuki.Recovery

/-- `MAX_CHECKPOINT_BYTES`. -/
def maxCheckpointBytes : ℕ := 1024 * 1024

inductive CheckpointError
  | tooLarge | unavailable | staleDocument
  deriving DecidableEq, Repr

/-- The values that are checkpointed: which of them is `null`, and how many bytes
`serde_json::to_vec` makes of one, if it does. -/
structure Json (V : Type) where
  isNull : V → Bool
  serialized : V → Option ℕ

/-- `(!checkpoint.is_null()).then_some(checkpoint)`. -/
def Json.saved {V : Type} (json : Json V) (value : V) : Option V :=
  if json.isNull value then none else some value

structure StoredCheckpoint (V : Type) where
  checkpoint : Option V
  generation : Option Str
  recoveryBlocked : Bool
  recreationPermitted : Bool

structure RestoredCheckpoint (V : Type) where
  checkpoint : Option V
  generation : Str

/-- The state, with the number of generations that have been made. -/
structure State (V : Type) where
  stored : StoredCheckpoint V
  poisoned : Bool
  drawn : ℕ

/-- `FrontendRecoveryState::default`. -/
def State.default {V : Type} : State V := ⟨⟨none, none, true, false⟩, false, 0⟩

namespace State

variable {V : Type}

def checkpoint (json : Json V) (s : State V) (value : V) (recoveryBlocked : Bool)
    (generation : Str) : Except CheckpointError Unit × State V :=
  if s.poisoned then (.error .unavailable, s)
  else if s.stored.generation ≠ some generation then (.error .staleDocument, s)
  else
    -- A rejected update must not leave an older draft eligible for a reload.
    let blocked := { s with stored := { s.stored with recoveryBlocked := true } }
    match json.serialized value with
    | none => (.error .unavailable, blocked)
    | some length =>
      if maxCheckpointBytes < length then (.error .tooLarge, blocked)
      else
        (.ok (),
          { s with stored := { s.stored with checkpoint := json.saved value, recoveryBlocked } })

def restore (uuid : ℕ → Str) (s : State V) :
    Except CheckpointError (RestoredCheckpoint V) × State V :=
  if s.poisoned then (.error .unavailable, s)
  else
    let generation := uuid s.drawn
    (.ok ⟨s.stored.checkpoint, generation⟩,
      { s with
        stored := ⟨s.stored.checkpoint, some generation, true, false⟩
        drawn := s.drawn + 1 })

def recoveryAllowed (s : State V) : Bool := !s.poisoned && !s.stored.recoveryBlocked

def tryBeginRecovery (s : State V) : Bool × State V :=
  if s.poisoned then (false, s)
  else if s.stored.recoveryBlocked then (false, s)
  else (true, { s with stored := ⟨s.stored.checkpoint, none, true, true⟩ })

def tryBeginRecreation (s : State V) : Bool × State V :=
  if s.poisoned then (false, s)
  else if !s.stored.recoveryBlocked || s.stored.generation.isSome ||
      !s.stored.recreationPermitted then (false, s)
  else (true, { s with stored := { s.stored with recreationPermitted := false } })

end State

/-! ### Calls and their answers -/

/-- One call with its answer; `panicked` is a panic of a thread that holds the lock. -/
inductive Call (V : Type)
  | restored (answer : Except CheckpointError (RestoredCheckpoint V))
  | checkpointed (value : V) (recoveryBlocked : Bool) (generation : Str)
    (answer : Except CheckpointError Unit)
  | recovery (granted : Bool)
  | recreation (granted : Bool)
  | panicked

section Calls

variable {V : Type} (json : Json V) (uuid : ℕ → Str)

/-- The lock makes the calls happen one after the other, in any order. -/
inductive Performs : State V → Call V → State V → Prop
  | restore (s) : Performs s (.restored (s.restore uuid).1) (s.restore uuid).2
  | checkpoint (s value recoveryBlocked generation) :
    Performs s
      (.checkpointed value recoveryBlocked generation
        (s.checkpoint json value recoveryBlocked generation).1)
      (s.checkpoint json value recoveryBlocked generation).2
  | tryBeginRecovery (s) : Performs s (.recovery s.tryBeginRecovery.1) s.tryBeginRecovery.2
  | tryBeginRecreation (s) : Performs s (.recreation s.tryBeginRecreation.1) s.tryBeginRecreation.2
  | panic (s) : Performs s .panicked { s with poisoned := true }

/-- The runs of a process, by the calls and answers in their order. -/
abbrev Run : State V → List (Call V) → State V → Prop := Runs.Run (Performs json uuid)

/-- Does the call end the document that was current, by another one or by a granted reload? -/
def Call.replacesDocument : Call V → Bool
  | .restored (.ok _) => true
  | .recovery granted => granted
  | _ => false

/-- Does the call end the permission to recreate: is it used, or does a document restore? -/
def Call.endsRecreation : Call V → Bool
  | .restored (.ok _) => true
  | .recreation granted => granted
  | _ => false

/-- Is it a checkpoint of this document, accepted or not? -/
def Call.isCheckpointOf (generation : Str) : Call V → Bool
  | .checkpointed _ _ generation' _ => generation' = generation
  | _ => false

end Calls

/-! ### What one call does -/

section Calls

variable {V : Type} {json : Json V} {uuid : ℕ → Str} {s t : State V} {call : Call V}

theorem checkpoint_of_stale (json : Json V) (value : V) (recoveryBlocked : Bool)
    {generation : Str} (h : s.stored.generation ≠ some generation) :
    ∃ error, s.checkpoint json value recoveryBlocked generation = (.error error, s) := by
  unfold State.checkpoint
  split_ifs
  · exact ⟨_, rfl⟩
  · exact ⟨_, rfl⟩

/-- A checkpoint is accepted, or it blocks recovery, or nothing happens to it. -/
theorem checkpoint_cases (json : Json V) (s : State V) (value : V) (recoveryBlocked : Bool)
    (generation : Str) :
    (∃ error, s.checkpoint json value recoveryBlocked generation = (.error error, s) ∧
      (s.poisoned = true ∨ s.stored.generation ≠ some generation)) ∨
    (s.stored.generation = some generation ∧
      ∃ error, s.checkpoint json value recoveryBlocked generation =
        (.error error, { s with stored := { s.stored with recoveryBlocked := true } })) ∨
    (s.stored.generation = some generation ∧
      s.checkpoint json value recoveryBlocked generation =
        (.ok (), { s with stored := { s.stored with
          checkpoint := json.saved value, recoveryBlocked } })) := by
  unfold State.checkpoint
  split_ifs with hpoisoned hgeneration
  · exact .inl ⟨_, rfl, .inl hpoisoned⟩
  · exact .inl ⟨_, rfl, .inr hgeneration⟩
  · rw [not_not] at hgeneration
    cases json.serialized value with
    | none => exact .inr (.inl ⟨hgeneration, _, rfl⟩)
    | some length =>
      by_cases hlength : maxCheckpointBytes < length
      · exact .inr (.inl ⟨hgeneration, _, if_pos hlength⟩)
      · exact .inr (.inr ⟨hgeneration, if_neg hlength⟩)

/-- Nothing but an accepted checkpoint of the current document changes the stored one. -/
theorem Performs.checkpoint_eq (h : Performs json uuid s call t) (hgeneration : s.stored.generation = none)
    (hcall : ∀ answer, call ≠ .restored (.ok answer)) :
    t.stored.checkpoint = s.stored.checkpoint ∧ t.stored.generation = none := by
  cases h with
  | restore =>
    unfold State.restore at hcall ⊢
    split_ifs at hcall ⊢
    · exact ⟨rfl, hgeneration⟩
    · exact absurd rfl (hcall _)
  | checkpoint value recoveryBlocked generation =>
    have hstale : s.stored.generation ≠ some generation := by simp [hgeneration]
    obtain ⟨error, heq⟩ := checkpoint_of_stale json value recoveryBlocked hstale
    rw [heq]
    exact ⟨rfl, hgeneration⟩
  | tryBeginRecovery =>
    unfold State.tryBeginRecovery
    split_ifs
    · exact ⟨rfl, hgeneration⟩
    · exact ⟨rfl, hgeneration⟩
    · exact ⟨rfl, rfl⟩
  | tryBeginRecreation =>
    unfold State.tryBeginRecreation
    split_ifs
    · exact ⟨rfl, hgeneration⟩
    · exact ⟨rfl, hgeneration⟩
    · exact ⟨rfl, hgeneration⟩
  | panic => exact ⟨rfl, hgeneration⟩

/-! ### What the state says about the history -/

variable {history : List (Call V)}

/-- The document of this generation is the last that has restored, and no reload was granted. -/
def CurrentDocument (history : List (Call V)) (generation : Str) : Prop :=
  ∃ before restored after, history = before ++ .restored (.ok restored) :: after ∧
    restored.generation = generation ∧ ∀ call ∈ after, call.replacesDocument = false

/-- The newest checkpoint of the current document was accepted, did not block, and had the value. -/
def SafeDocument (history : List (Call V)) (generation : Str) (value : V) : Prop :=
  ∃ before after, history = before ++ .checkpointed value false generation (.ok ()) :: after ∧
    CurrentDocument before generation ∧
    (∀ call ∈ after, call.replacesDocument = false) ∧
    ∀ call ∈ after, call.isCheckpointOf generation = false

theorem CurrentDocument.snoc {generation : Str} (h : CurrentDocument history generation)
    (hcall : call.replacesDocument = false) : CurrentDocument (history ++ [call]) generation := by
  obtain ⟨before, restored, after, rfl, hrestored, hafter⟩ := h
  refine ⟨before, restored, after ++ [call], by simp, hrestored, fun call' hmem => ?_⟩
  rcases List.mem_append.1 hmem with hmem | hmem
  · exact hafter call' hmem
  · rwa [List.mem_singleton.1 hmem]

theorem SafeDocument.snoc {generation : Str} {value : V}
    (h : SafeDocument history generation value) (hcall : call.replacesDocument = false)
    (hcheckpoint : call.isCheckpointOf generation = false) :
    SafeDocument (history ++ [call]) generation value := by
  obtain ⟨before, after, rfl, hcurrent, hafter, hnewest⟩ := h
  refine ⟨before, after ++ [call], by simp, hcurrent, fun call' hmem => ?_, fun call' hmem => ?_⟩
  · rcases List.mem_append.1 hmem with hmem | hmem
    · exact hafter call' hmem
    · rwa [List.mem_singleton.1 hmem]
  · rcases List.mem_append.1 hmem with hmem | hmem
    · exact hnewest call' hmem
    · rwa [List.mem_singleton.1 hmem]

/-- Does the call open the permission to recreate? -/
def Call.opensRecreation : Call V → Bool
  | .recovery granted => granted
  | _ => false

structure Inv (json : Json V) (uuid : ℕ → Str) (history : List (Call V)) (s : State V) : Prop where
  current : ∀ generation, s.stored.generation = some generation →
    CurrentDocument history generation
  safe : s.poisoned = false → s.stored.recoveryBlocked = false → ∃ generation value,
    s.stored.generation = some generation ∧ s.stored.checkpoint = json.saved value ∧
      SafeDocument history generation value
  permitted : s.stored.recreationPermitted =
    Runs.Outstanding Call.opensRecreation Call.endsRecreation history
  drawn : ∀ generation, s.stored.generation = some generation →
    ∃ n < s.drawn, generation = uuid n
  replaced : ∀ before restored after, history = before ++ .restored (.ok restored) :: after →
    (∃ n < s.drawn, restored.generation = uuid n) ∧
      ((∃ call ∈ after, call.replacesDocument = true) →
        s.stored.generation ≠ some restored.generation)

theorem Inv.start : Inv json uuid [] (State.default : State V) where
  current _ h := by simp [State.default] at h
  safe _ h := by simp [State.default] at h
  permitted := rfl
  drawn _ h := by simp [State.default] at h
  replaced before restored after h := by simp at h

/-- A call that replaces no document, and is no restore, leaves what was replaced replaced. -/
theorem Inv.replaced_snoc (h : Inv json uuid history s)
    (hcall : call.replacesDocument = false) (hgeneration : t.stored.generation = s.stored.generation)
    (hdrawn : t.drawn = s.drawn) : ∀ before restored after,
      history ++ [call] = before ++ .restored (.ok restored) :: after →
    (∃ n < t.drawn, restored.generation = uuid n) ∧
      ((∃ call ∈ after, call.replacesDocument = true) →
        t.stored.generation ≠ some restored.generation) := by
  intro before restored after heq
  rcases List.eq_nil_or_concat after with rfl | ⟨after, last, rfl⟩
  · obtain ⟨-, rfl⟩ := List.append_inj' heq rfl |>.imp id List.singleton_inj.1
    simp [Call.replacesDocument] at hcall
  · rw [List.concat_eq_append, ← List.cons_append, ← List.append_assoc] at heq
    obtain ⟨hhistory, hlast⟩ := List.append_inj' heq rfl
    obtain rfl := List.singleton_inj.1 hlast
    obtain ⟨hold, hreplaced⟩ := h.replaced before restored after hhistory
    rw [hgeneration, hdrawn]
    refine ⟨hold, fun ⟨call', hmem, hcall'⟩ => ?_⟩
    rw [List.concat_eq_append, List.mem_append, List.mem_singleton] at hmem
    rcases hmem with hmem | rfl
    · exact hreplaced ⟨call', hmem, hcall'⟩
    · simp [hcall] at hcall'

/-- A call that leaves what is stored. -/
theorem Inv.unchanged (h : Inv json uuid history s) (hstored : t.stored = s.stored)
    (hdrawn : t.drawn = s.drawn) (hpoisoned : t.poisoned = false → s.poisoned = false)
    (hreplaces : call.replacesDocument = false) (hopens : call.opensRecreation = false)
    (hends : call.endsRecreation = false)
    (hcheckpoint : t.poisoned = false → ∀ generation, s.stored.generation = some generation →
      call.isCheckpointOf generation = false) :
    Inv json uuid (history ++ [call]) t where
  current generation hgeneration := (h.current generation (hstored ▸ hgeneration)).snoc hreplaces
  safe hsound hblocked := by
    obtain ⟨generation, value, hgeneration, hvalue, hsafe⟩ :=
      h.safe (hpoisoned hsound) (hstored ▸ hblocked)
    rw [hstored]
    refine ⟨generation, value, hgeneration, hvalue, hsafe.snoc hreplaces ?_⟩
    exact hcheckpoint hsound generation hgeneration
  permitted := by
    rw [hstored, h.permitted, Runs.outstanding_snoc, hopens, hends]
    rfl
  drawn := by
    rw [hstored, hdrawn]
    exact h.drawn
  replaced := h.replaced_snoc hreplaces (congrArg _ hstored) hdrawn

theorem Inv.restore (huuid : Function.Injective uuid) (h : Inv json uuid history s) :
    Inv json uuid (history ++ [.restored (s.restore uuid).1]) (s.restore uuid).2 := by
  by_cases hpoisoned : s.poisoned = true
  · have heq : s.restore uuid = (.error .unavailable, s) := if_pos hpoisoned
    rw [heq]
    exact h.unchanged rfl rfl id rfl rfl rfl fun _ _ _ => rfl
  · have heq : s.restore uuid = (.ok ⟨s.stored.checkpoint, uuid s.drawn⟩,
        { s with
          stored := ⟨s.stored.checkpoint, some (uuid s.drawn), true, false⟩
          drawn := s.drawn + 1 }) := if_neg hpoisoned
    rw [heq]
    refine ⟨?_, fun _ hblocked => by simp at hblocked, ?_, ?_, ?_⟩
    · intro generation hgeneration
      exact ⟨history, _, [], rfl, Option.some.inj hgeneration, by simp⟩
    · rw [Runs.outstanding_snoc]
      rfl
    · intro generation hgeneration
      exact ⟨s.drawn, Nat.lt_succ_self _, (Option.some.inj hgeneration).symm⟩
    · intro before restored after hsplit
      rcases List.eq_nil_or_concat after with rfl | ⟨after, last, rfl⟩
      · obtain ⟨-, hcall⟩ := List.append_inj' hsplit rfl
        injection hcall with hcall
        injection hcall with hcall
        injection hcall with hcall
        subst hcall
        exact ⟨⟨s.drawn, Nat.lt_succ_self _, rfl⟩, by simp⟩
      · rw [List.concat_eq_append, ← List.cons_append, ← List.append_assoc] at hsplit
        obtain ⟨hhistory, -⟩ := List.append_inj' hsplit rfl
        obtain ⟨⟨n, hn, hgeneration⟩, -⟩ := h.replaced before restored after hhistory
        refine ⟨⟨n, hn.trans (Nat.lt_succ_self _), hgeneration⟩, fun _ hsame => ?_⟩
        have : s.drawn = n := huuid ((Option.some.inj hsame).trans hgeneration)
        omega

theorem Inv.checkpoint (h : Inv json uuid history s) (value : V) (recoveryBlocked : Bool)
    (generation : Str) :
    Inv json uuid
      (history ++ [.checkpointed value recoveryBlocked generation
        (s.checkpoint json value recoveryBlocked generation).1])
      (s.checkpoint json value recoveryBlocked generation).2 := by
  rcases checkpoint_cases json s value recoveryBlocked generation with
    ⟨error, heq, hstale⟩ | ⟨hgeneration, error, heq⟩ | ⟨hgeneration, heq⟩
  · rw [heq]
    refine h.unchanged rfl rfl id rfl rfl rfl fun hsound generation' hcurrent => ?_
    rcases hstale with hpoisoned | hstale
    · exact absurd (hpoisoned.symm.trans hsound) (by simp)
    · exact decide_eq_false fun hsame => hstale (hsame ▸ hcurrent)
  · rw [heq]
    refine ⟨?_, fun _ hblocked => by simp at hblocked, ?_, h.drawn, h.replaced_snoc rfl rfl rfl⟩
    · exact fun generation' hcurrent => (h.current generation' hcurrent).snoc rfl
    · rw [Runs.outstanding_snoc]
      exact h.permitted
  · rw [heq]
    refine ⟨?_, fun _ hblocked => ?_, ?_, h.drawn, h.replaced_snoc rfl rfl rfl⟩
    · exact fun generation' hcurrent => (h.current generation' hcurrent).snoc rfl
    · obtain rfl : recoveryBlocked = false := hblocked
      refine ⟨generation, value, hgeneration, rfl, history, [], rfl, ?_, by simp, by simp⟩
      exact h.current generation hgeneration
    · rw [Runs.outstanding_snoc]
      exact h.permitted

theorem Inv.tryBeginRecovery (h : Inv json uuid history s) :
    Inv json uuid (history ++ [.recovery s.tryBeginRecovery.1]) s.tryBeginRecovery.2 := by
  unfold State.tryBeginRecovery
  split_ifs
  · exact h.unchanged rfl rfl id rfl rfl rfl fun _ _ _ => rfl
  · exact h.unchanged rfl rfl id rfl rfl rfl fun _ _ _ => rfl
  · refine ⟨fun _ hnone => by simp at hnone, fun _ hblocked => by simp at hblocked, ?_,
      fun _ hnone => by simp at hnone, ?_⟩
    · rw [Runs.outstanding_snoc]
      rfl
    · intro before restored after hsplit
      rcases List.eq_nil_or_concat after with rfl | ⟨after, last, rfl⟩
      · obtain ⟨-, hcall⟩ := List.append_inj' hsplit rfl
        simp at hcall
      · rw [List.concat_eq_append, ← List.cons_append, ← List.append_assoc] at hsplit
        obtain ⟨hhistory, -⟩ := List.append_inj' hsplit rfl
        exact ⟨(h.replaced before restored after hhistory).1, fun _ => by simp⟩

theorem Inv.tryBeginRecreation (h : Inv json uuid history s) :
    Inv json uuid (history ++ [.recreation s.tryBeginRecreation.1]) s.tryBeginRecreation.2 := by
  unfold State.tryBeginRecreation
  split_ifs with hpoisoned hrefused
  · exact h.unchanged rfl rfl id rfl rfl rfl fun _ _ _ => rfl
  · exact h.unchanged rfl rfl id rfl rfl rfl fun _ _ _ => rfl
  · simp only [Bool.or_eq_true, not_or, Bool.not_eq_true', Bool.not_eq_false] at hrefused
    refine ⟨?_, fun _ hblocked => ?_, ?_, h.drawn, h.replaced_snoc rfl rfl rfl⟩
    · exact fun generation hcurrent => (h.current generation hcurrent).snoc rfl
    · exact absurd (hrefused.1.1.symm.trans hblocked) (by simp)
    · rw [Runs.outstanding_snoc]
      rfl

theorem Inv.performs (huuid : Function.Injective uuid) (h : Inv json uuid history s)
    (hcall : Performs json uuid s call t) : Inv json uuid (history ++ [call]) t := by
  cases hcall with
  | restore => exact h.restore huuid
  | checkpoint value recoveryBlocked generation =>
    exact h.checkpoint value recoveryBlocked generation
  | tryBeginRecovery => exact h.tryBeginRecovery
  | tryBeginRecreation => exact h.tryBeginRecreation
  | panic => exact h.unchanged rfl rfl (by simp) rfl rfl rfl fun _ _ _ => rfl

theorem run_inv (huuid : Function.Injective uuid)
    (hrun : Run json uuid State.default history s) : Inv json uuid history s :=
  hrun.history .start fun h hcall => h.performs huuid hcall

/-- From a granted reload to the next restore, what is stored stays. -/
theorem checkpoint_of_recovery {later : List (Call V)} (hgranted : s.tryBeginRecovery.1 = true)
    (hrun : Run json uuid s.tryBeginRecovery.2 later t)
    (hlater : ∀ answer, .restored (.ok answer) ∉ later) :
    t.stored.checkpoint = s.stored.checkpoint := by
  have hstart : s.tryBeginRecovery.2.stored.checkpoint = s.stored.checkpoint ∧
      s.tryBeginRecovery.2.stored.generation = none := by
    unfold State.tryBeginRecovery at hgranted ⊢
    split_ifs at hgranted ⊢
    exact ⟨rfl, rfl⟩
  have hend : t.stored.checkpoint = s.stored.checkpoint ∧ t.stored.generation = none := by
    induction hrun with
    | nil => exact hstart
    | snoc run last ih =>
      obtain ⟨hcheckpoint, hgeneration⟩ :=
        ih fun answer hmem => hlater answer (List.mem_append_left _ hmem)
      have hcall := last.checkpoint_eq hgeneration fun answer heq =>
        hlater answer (List.mem_append_right _ (by simp [heq]))
      exact ⟨hcall.1.trans hcheckpoint, hcall.2⟩
  exact hend.1

/-- A reload is granted only when the newest checkpoint of the current document was accepted, did
not block, and is what is stored, and the next document will restore it; a document that has been
replaced changes nothing; and a recreation is granted at most once for a granted reload, and not
once a document has restored. -/
theorem recovery_never_discards (json : Json V) (huuid : Function.Injective uuid)
    (hrun : Run json uuid State.default history s) :
    (s.tryBeginRecovery.1 = true →
      (∃ generation value, s.stored.generation = some generation ∧
        s.stored.checkpoint = json.saved value ∧ SafeDocument history generation value) ∧
      ∀ later t, Run json uuid s.tryBeginRecovery.2 later t →
        (∀ answer, .restored (.ok answer) ∉ later) →
        t.stored.checkpoint = s.stored.checkpoint) ∧
    (∀ before restored after, history = before ++ .restored (.ok restored) :: after →
      (∃ call ∈ after, call.replacesDocument = true) →
      ∀ value recoveryBlocked, ∃ error,
        s.checkpoint json value recoveryBlocked restored.generation = (.error error, s)) ∧
    (s.tryBeginRecreation.1 = true → ∃ before after, history = before ++ .recovery true :: after ∧
      ∀ call ∈ after, call.endsRecreation = false) := by
  have hinv := run_inv huuid hrun
  refine ⟨fun hgranted => ⟨?_, fun later t => checkpoint_of_recovery hgranted⟩, ?_, ?_⟩
  · unfold State.tryBeginRecovery at hgranted
    split_ifs at hgranted with hpoisoned hblocked
    exact hinv.safe (by simpa using hpoisoned) (by simpa using hblocked)
  · intro before restored after hsplit hreplaced value recoveryBlocked
    have hstale := (hinv.replaced before restored after hsplit).2 hreplaced
    exact checkpoint_of_stale json value recoveryBlocked hstale
  · intro hgranted
    have hpermitted : s.stored.recreationPermitted = true := by
      unfold State.tryBeginRecreation at hgranted
      split_ifs at hgranted with _ hrefused
      simp only [Bool.or_eq_true, not_or, Bool.not_eq_true', Bool.not_eq_false] at hrefused
      exact hrefused.2
    obtain ⟨before, call, after, hsplit, hopens, hafter⟩ :=
      Runs.exists_of_outstanding (hinv.permitted.symm.trans hpermitted)
    refine ⟨before, after, ?_, hafter⟩
    cases call with
    | recovery granted =>
      obtain rfl : granted = true := hopens
      exact hsplit
    | restored | checkpointed | recreation | panicked => simp [Call.opensRecreation] at hopens

end Calls

/-- Drafts that are texts, the empty one `null`. -/
def sampleJson : Json Str := ⟨List.isEmpty, fun text => some (text.len + 2)⟩

def sampleUuid (n : ℕ) : Str := List.replicate n 'f'

theorem recovery_never_discards_draft :
    let restored := (State.default : State Str).restore sampleUuid
    let saved := restored.2.checkpoint sampleJson "draft" false []
    ∃ generation value, saved.2.stored.generation = some generation ∧
      saved.2.stored.checkpoint = sampleJson.saved value ∧
      SafeDocument [.restored restored.1, .checkpointed "draft" false [] saved.1]
        generation value := by
  intro restored saved
  have huuid : Function.Injective sampleUuid := List.replicate_left_injective 'f'
  have hrun : Run sampleJson sampleUuid State.default
      [.restored restored.1, .checkpointed "draft" false [] saved.1] saved.2 :=
    Runs.run_cons.2 ⟨_, .restore _, Runs.run_cons.2 ⟨_, .checkpoint _ _ _ _, .nil _⟩⟩
  exact ((recovery_never_discards sampleJson huuid hrun).1 (by decide)).1

end Awayuki.Recovery
