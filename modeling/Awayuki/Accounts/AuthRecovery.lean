import Awayuki.Text
import Awayuki.Library.Runs

/-!
# Recovery of an authentication

`AuthRecoveryGate` of `bluesky/client.rs`: requests that were refused recover the session one at a
time, and those that observed the same generation share the first one's result.  A logout
invalidates the generation.

* `Gate`, `Step`: the gate and the atomic steps of `run` and `invalidate_for_logout`;
* `Guarantees`: single flight, shared results, and no success after a logout;
* `guarantees_iff`: when a run has them.
-/

namespace Awayuki.Accounts

/-! ### Results -/

/-- `MastodonError`: the variants that the gate tells apart, and the others. -/
inductive MastodonError (E : Type)
  | unauthorized
  | other (message : Str)
  | failure (error : E)

/-- What a recovery returns. -/
abbrev Recovery (E : Type) := Except (MastodonError E) Unit

inductive SharedAuthRecoveryOutcome
  | success | unauthorized
  | failed (message : Str)

section Results

variable {E : Type} (display : E → Str)

/-- `to_string`, with what the other variants display as. -/
def MastodonError.toStr : MastodonError E → Str
  | .unauthorized => "Unauthorized - token may be expired".toList
  | .other message => message
  | .failure error => display error

namespace SharedAuthRecoveryOutcome

def capture : Recovery E → SharedAuthRecoveryOutcome
  | .ok () => .success
  | .error .unauthorized => .unauthorized
  | .error error => .failed (error.toStr display)

def intoResult : SharedAuthRecoveryOutcome → Recovery E
  | .success => .ok ()
  | .unauthorized => .error .unauthorized
  | .failed message => .error (.other message)

end SharedAuthRecoveryOutcome

/-- The result of a recovery as another caller gets it. -/
def shared (result : Recovery E) : Recovery E :=
  (SharedAuthRecoveryOutcome.capture display result).intoResult

theorem shared_eq_ok {result : Recovery E} : shared display result = .ok () ↔ result = .ok () := by
  rcases result with (_ | _ | _) | _ <;>
    simp [shared, SharedAuthRecoveryOutcome.capture, SharedAuthRecoveryOutcome.intoResult]

end Results

/-! ### The gate -/

/-- How far a call of `run` has come. -/
inductive Phase (E : Type)
  | idle
  | observed (generation : ℕ)
  | acquired (generation : ℕ)
  | recovering (generation : ℕ)
  | recovered (generation : ℕ) (result : Recovery E)
  | returned

/-- Is the generation of the call being recovered? -/
def Phase.isActive {E : Type} : Phase E → Bool
  | .recovering _ | .recovered .. => true
  | _ => false

/-- Does the call hold the mutex? -/
def Phase.holds {E : Type} : Phase E → Bool
  | .acquired _ | .recovering _ | .recovered .. => true
  | .idle | .observed _ | .returned => false

structure Gate (E : Type) where
  generation : ℕ
  lastGeneration : Option ℕ
  lastOutcome : Option SharedAuthRecoveryOutcome
  locked : Bool
  /-- the calls, by their numbers -/
  phase : ℕ → Phase E

namespace Gate

variable {E : Type}

/-- `AuthRecoveryGate::default`. -/
def default : Gate E := ⟨0, none, none, false, fun _ => .idle⟩

def setPhase (s : Gate E) (i : ℕ) (phase : Phase E) : Gate E :=
  { s with phase := Function.update s.phase i phase }

/-- What a call returns that finds another generation than it has observed. -/
def sharedResult (s : Gate E) : Recovery E :=
  match s.lastGeneration, s.lastOutcome with
  | some generation, some outcome =>
    if generation = s.generation then outcome.intoResult else .error .unauthorized
  | _, _ => .error .unauthorized

end Gate

inductive GateEvent (E : Type)
  | observe (i generation : ℕ)
  | acquire (i : ℕ)
  | share (i generation : ℕ) (result : Recovery E)
  | start (i generation : ℕ)
  | recover (i generation : ℕ) (result : Recovery E)
  | publish (i generation : ℕ) (result : Recovery E)
  | discard (i generation : ℕ)
  | invalidate

section Steps

variable {E : Type} (display : E → Str)

inductive GateStep : Gate E → GateEvent E → Gate E → Prop
  | observe (s : Gate E) {i : ℕ} (h : s.phase i = .idle) :
    GateStep s (.observe i s.generation) (s.setPhase i (.observed s.generation))
  | acquire (s : Gate E) {i generation : ℕ} (h : s.phase i = .observed generation)
    (hfree : s.locked = false) :
    GateStep s (.acquire i) { s.setPhase i (.acquired generation) with locked := true }
  | share (s : Gate E) {i generation : ℕ} (h : s.phase i = .acquired generation)
    (hne : s.generation ≠ generation) :
    GateStep s (.share i generation s.sharedResult)
      { s.setPhase i .returned with locked := false }
  | start (s : Gate E) {i generation : ℕ} (h : s.phase i = .acquired generation)
    (heq : s.generation = generation) :
    GateStep s (.start i generation) (s.setPhase i (.recovering generation))
  | recover (s : Gate E) {i generation : ℕ} (h : s.phase i = .recovering generation)
    (result : Recovery E) :
    GateStep s (.recover i generation result) (s.setPhase i (.recovered generation result))
  /-- the generation is exchanged, and the result returned -/
  | publish (s : Gate E) {i generation : ℕ} {result : Recovery E}
    (h : s.phase i = .recovered generation result) (heq : s.generation = generation) :
    GateStep s (.publish i generation result)
      { s.setPhase i .returned with
        generation := generation + 1
        lastGeneration := some (generation + 1)
        lastOutcome := some (.capture display result)
        locked := false }
  /-- the exchange fails, and the call is unauthorized -/
  | discard (s : Gate E) {i generation : ℕ} {result : Recovery E}
    (h : s.phase i = .recovered generation result) (hne : s.generation ≠ generation) :
    GateStep s (.discard i generation) { s.setPhase i .returned with locked := false }
  | invalidate (s : Gate E) (hfree : s.locked = false) :
    GateStep s .invalidate
      { s with generation := s.generation + 1, lastGeneration := none, lastOutcome := none }

end Steps

/-! ### What a history should guarantee -/

section Histories

variable {E : Type}

def GateEvent.isChange : GateEvent E → Bool
  | .publish .. | .invalidate => true
  | _ => false

def GateEvent.isStart (generation : ℕ) : GateEvent E → Bool
  | .start _ generation' => generation' = generation
  | _ => false

/-- The last change of the generation. -/
def lastChange (h : List (GateEvent E)) : Option (GateEvent E) := (h.filter (·.isChange)).getLast?

/-- What holds of every history, whatever the logouts. -/
structure SingleFlight (display : E → Str) (h : List (GateEvent E)) (s : Gate E) : Prop where
  /-- a recovery has ended when another one starts -/
  alone : ∀ before i generation between j generation' after,
    h = before ++ .start i generation :: (between ++ .start j generation' :: after) →
      ∃ result, .recover i generation result ∈ between
  /-- one recovery at most is executed for an observed generation -/
  once : ∀ generation, h.countP (·.isStart generation) ≤ 1
  /-- the call that has recovered returns its own result -/
  kept : ∀ i generation, .discard i generation ∉ h
  /-- a call that observed the generation of the last recovery returns its outcome -/
  shares : ∀ before i generation result after, h = before ++ .share i generation result :: after →
    ∀ j result', lastChange before = some (.publish j generation result') →
      result = shared display result'
  /-- a call does not share what was published before it observed -/
  fresh : ∀ before i generation between result after,
    h = before ++ .observe i generation :: (between ++ .share i generation result :: after) →
      ∃ event ∈ between, event.isChange = true
  /-- and can recover by itself if nothing has been published since -/
  retries : ∀ i generation, s.phase i = .acquired generation →
    (∃ before after, h = before ++ .observe i generation :: after ∧
      ∀ event ∈ after, event.isChange = false) → ∃ s', GateStep display s (.start i generation) s'

/-- A call that observed before a logout and goes on after it neither recovers nor succeeds. -/
def LogoutSafe (h : List (GateEvent E)) : Prop :=
  ∀ before i generation between event after,
    h = before ++ .observe i generation :: (between ++ event :: after) → .invalidate ∈ between →
      event ≠ .start i generation ∧ event ≠ .share i generation (.ok ())

/-- No call that observed before a logout goes on after it when the last change of the generation
is a recovery that succeeded. -/
def Unrevived (h : List (GateEvent E)) : Prop :=
  ∀ before i generation between result after,
    h = before ++ .observe i generation :: (between ++ .share i generation result :: after) →
      .invalidate ∈ between → ∀ j generation',
        lastChange (before ++ .observe i generation :: between) ≠
          some (.publish j generation' (.ok ()))

end Histories

/-! ### The gate and its history -/

section Runs

variable {E : Type} {display : E → Str} {h before after : List (GateEvent E)} {s s' : Gate E}
  {event : GateEvent E} {i j generation : ℕ} {result : Recovery E} {locked : Bool}

theorem lastChange_snoc : lastChange (h ++ [event]) =
    if event.isChange then some event else lastChange h := by
  unfold lastChange
  rw [List.filter_append]
  split_ifs with hchange
  · simp [hchange]
  · simp [hchange]

/-- What the gate knows of its history. -/
structure Recorded (display : E → Str) (h : List (GateEvent E)) (s : Gate E) : Prop where
  generation : s.generation = h.countP (·.isChange)
  last : s.sharedResult = match lastChange h with
    | some (.publish _ _ result) => shared display result
    | _ => .error .unauthorized
  holder : ∀ i, (s.phase i).holds = true →
    s.locked = true ∧ ∀ j, (s.phase j).holds = true → j = i
  current : ∀ i generation, s.phase i = .recovering generation ∨
    (∃ result, s.phase i = .recovered generation result) →
      s.generation = generation ∧ .start i generation ∈ h
  started : ∀ i generation, .start i generation ∈ h → s.phase i = .recovering generation ∨
    (∃ result, .recover i generation result ∈ h) ∧
      ((∃ result, s.phase i = .recovered generation result) ∨
        (s.phase i = .returned ∧ generation < s.generation))
  recovered : ∀ i generation result, .recover i generation result ∈ h → .start i generation ∈ h

theorem recorded_default : Recorded display [] (Gate.default : Gate E) := by
  constructor <;> simp [Gate.default, Gate.sharedResult, lastChange, Phase.holds]

@[simp] theorem phase_setPhase (s : Gate E) (i : ℕ) (phase : Phase E) :
    (s.setPhase i phase).phase = Function.update s.phase i phase := rfl

@[simp] theorem generation_setPhase (s : Gate E) (i : ℕ) (phase : Phase E) :
    (s.setPhase i phase).generation = s.generation := rfl

@[simp] theorem locked_setPhase (s : Gate E) (i : ℕ) (phase : Phase E) :
    (s.setPhase i phase).locked = s.locked := rfl

@[simp] theorem sharedResult_setPhase (s : Gate E) (i : ℕ) (phase : Phase E) :
    (s.setPhase i phase).sharedResult = s.sharedResult := rfl

variable {phase : Phase E}

/-- A step of a call that does not recover. -/
theorem Recorded.wait (hrecorded : Recorded display h s) (hchange : event.isChange = false)
    (hstart : ∀ i generation, event ≠ .start i generation)
    (hrecover : ∀ i generation result, event ≠ .recover i generation result)
    (hbefore : ∀ generation, s.phase i ≠ .recovering generation ∧
      (∀ result, s.phase i ≠ .recovered generation result)) (hreturned : s.phase i ≠ .returned)
    (hafter : phase.isActive = false)
    (hholder : ∀ j, (Function.update s.phase i phase j).holds = true →
      locked = true ∧ ∀ k, (Function.update s.phase i phase k).holds = true → k = j) :
    Recorded display (h ++ [event]) { s.setPhase i phase with locked := locked } where
  generation := by simp [hchange, hrecorded.generation]
  last := by
    rw [lastChange_snoc, hchange]
    exact hrecorded.last
  holder := hholder
  current := by
    intro j generation hj
    simp only [phase_setPhase, Function.update_apply] at hj
    split_ifs at hj
    · rcases hj with rfl | ⟨result, rfl⟩ <;> cases hafter
    · exact (hrecorded.current j generation hj).imp_right (List.mem_append_left _)
  started := by
    intro j generation hmem
    have hmem : .start j generation ∈ h := by
      simpa [(hstart j generation).symm] using hmem
    have hold := hrecorded.started j generation hmem
    have hne : j ≠ i := by
      rintro rfl
      rcases hold with hold | ⟨-, ⟨result, hold⟩ | ⟨hold, -⟩⟩
      · exact (hbefore generation).1 hold
      · exact (hbefore generation).2 result hold
      · exact hreturned hold
    simp only [phase_setPhase, Function.update_of_ne hne]
    refine hold.imp_right fun ⟨⟨result, hresult⟩, hphase⟩ => ⟨⟨result, ?_⟩, hphase⟩
    exact List.mem_append_left _ hresult
  recovered := by
    intro j generation result hmem
    have hmem : .recover j generation result ∈ h := by
      simpa [(hrecover j generation result).symm] using hmem
    exact List.mem_append_left _ (hrecorded.recovered j generation result hmem)

theorem holder_of_not (hrecorded : Recorded display h s) (hphase : phase.holds = false) (j : ℕ)
    (hj : (Function.update s.phase i phase j).holds = true) :
    s.locked = true ∧ ∀ k, (Function.update s.phase i phase k).holds = true → k = j := by
  have hkept : ∀ k, (Function.update s.phase i phase k).holds = true → (s.phase k).holds = true := by
    intro k hk
    rw [Function.update_apply] at hk
    split_ifs at hk
    · rw [hphase] at hk
      cases hk
    · exact hk
  obtain ⟨hlocked, honly⟩ := hrecorded.holder j (hkept j hj)
  exact ⟨hlocked, fun k hk => honly k (hkept k hk)⟩

/-- The holder alone has the mutex, in whichever phase. -/
theorem holder_of_alone (hlocked : locked = true) (hother : ∀ k, k ≠ i → (s.phase k).holds = false)
    (j : ℕ) (hj : (Function.update s.phase i phase j).holds = true) :
    locked = true ∧ ∀ k, (Function.update s.phase i phase k).holds = true → k = j := by
  have honly : ∀ k, (Function.update s.phase i phase k).holds = true → k = i := by
    intro k hk
    by_contra hne
    rw [Function.update_of_ne hne, hother k hne] at hk
    cases hk
  exact ⟨hlocked, fun k hk => (honly k hk).trans (honly j hj).symm⟩

theorem Recorded.others (hrecorded : Recorded display h s) (hi : (s.phase i).holds = true) (k : ℕ)
    (hne : k ≠ i) : (s.phase k).holds = false :=
  Bool.eq_false_iff.2 fun hk => hne ((hrecorded.holder i hi).2 k hk)

theorem Recorded.free (hrecorded : Recorded display h s) (hfree : s.locked = false) (k : ℕ) :
    (s.phase k).holds = false := by
  refine Bool.eq_false_iff.2 fun hk => ?_
  rw [(hrecorded.holder k hk).1] at hfree
  cases hfree

/-- After the holder has returned nobody holds the mutex. -/
theorem holder_of_returned (hrecorded : Recorded display h s) (hi : (s.phase i).holds = true)
    (j : ℕ) : (Function.update s.phase i .returned j).holds ≠ true := by
  intro hj
  rw [Function.update_apply] at hj
  split_ifs at hj with hji
  · cases hj
  · rw [hrecorded.others hi j hji] at hj
    cases hj

theorem Recorded.step (hrecorded : Recorded display h s) (hstep : GateStep display s event s') :
    Recorded display (h ++ [event]) s' := by
  cases hstep with
  | observe hi =>
    exact hrecorded.wait rfl nofun nofun (by simp [hi]) (by simp [hi]) rfl
      (holder_of_not hrecorded rfl)
  | acquire hi hfree =>
    exact hrecorded.wait rfl nofun nofun (by simp [hi]) (by simp [hi]) rfl
      (holder_of_alone rfl fun k _ => hrecorded.free hfree k)
  | share hi hne =>
    exact hrecorded.wait rfl nofun nofun (by simp [hi]) (by simp [hi]) rfl
      fun j hj => absurd hj (holder_of_returned hrecorded (by simp [hi, Phase.holds]) j)
  | start hi heq =>
    rename_i i generation
    have hi' : (s.phase i).holds = true := by simp [hi, Phase.holds]
    constructor
    case generation => simp [GateEvent.isChange, hrecorded.generation]
    case last =>
      rw [lastChange_snoc]
      exact hrecorded.last
    case holder => exact holder_of_alone (hrecorded.holder i hi').1 (hrecorded.others hi')
    case current =>
      intro j generation' hj
      simp only [phase_setPhase, Function.update_apply] at hj
      split_ifs at hj with hji
      · rcases hj with hj | ⟨_, hj⟩
        · have hgeneration : generation = generation' := by simpa using hj
          exact ⟨heq.trans hgeneration, by simp [hji, hgeneration]⟩
        · cases hj
      · exact (hrecorded.current j generation' hj).imp_right (List.mem_append_left _)
    case started =>
      intro j generation' hmem
      by_cases hji : j = i
      · subst hji
        rcases List.mem_append.1 hmem with hmem | hmem
        · have hold := hrecorded.started j generation' hmem
          simp [hi] at hold
        · obtain ⟨-, rfl⟩ : j = j ∧ generation' = generation := by simpa using hmem
          exact .inl (Function.update_self _ _ _)
      · have hmem : .start j generation' ∈ h := by simpa [hji] using hmem
        simp only [phase_setPhase, Function.update_of_ne hji]
        refine (hrecorded.started j generation' hmem).imp_right fun ⟨⟨result, hresult⟩, hphase⟩ => ?_
        exact ⟨⟨result, List.mem_append_left _ hresult⟩, hphase⟩
    case recovered =>
      intro j generation' result hmem
      have hmem : .recover j generation' result ∈ h := by simpa using hmem
      exact List.mem_append_left _ (hrecorded.recovered j generation' result hmem)
  | recover hi result =>
    rename_i i generation
    have hi' : (s.phase i).holds = true := by simp [hi, Phase.holds]
    obtain ⟨heq, hstart⟩ := hrecorded.current i generation (.inl hi)
    constructor
    case generation => simp [GateEvent.isChange, hrecorded.generation]
    case last =>
      rw [lastChange_snoc]
      exact hrecorded.last
    case holder => exact holder_of_alone (hrecorded.holder i hi').1 (hrecorded.others hi')
    case current =>
      intro j generation' hj
      simp only [phase_setPhase, Function.update_apply] at hj
      split_ifs at hj with hji
      · rcases hj with hj | ⟨_, hj⟩
        · cases hj
        · cases hj
          exact ⟨heq, List.mem_append_left _ (hji ▸ hstart)⟩
      · exact (hrecorded.current j generation' hj).imp_right (List.mem_append_left _)
    case started =>
      intro j generation' hmem
      have hmem : .start j generation' ∈ h := by simpa using hmem
      have hold := hrecorded.started j generation' hmem
      by_cases hji : j = i
      · subst hji
        have hgeneration : generation = generation' := by simpa [hi] using hold
        subst hgeneration
        exact .inr ⟨⟨result, by simp⟩, .inl ⟨result, Function.update_self _ _ _⟩⟩
      · simp only [phase_setPhase, Function.update_of_ne hji]
        refine hold.imp_right fun ⟨⟨result, hresult⟩, hphase⟩ => ?_
        exact ⟨⟨result, List.mem_append_left _ hresult⟩, hphase⟩
    case recovered =>
      intro j generation' result' hmem
      rcases List.mem_append.1 hmem with hmem | hmem
      · exact List.mem_append_left _ (hrecorded.recovered j generation' result' hmem)
      · obtain ⟨rfl, rfl, -⟩ : j = i ∧ generation' = generation ∧ result' = result := by
          simpa using hmem
        exact List.mem_append_left _ hstart
  | publish hi heq =>
    rename_i i generation result
    have hi' : (s.phase i).holds = true := by simp [hi, Phase.holds]
    have hnone := hrecorded.others hi'
    constructor
    case generation =>
      rw [List.countP_append, ← hrecorded.generation, heq]
      rfl
    case last =>
      rw [lastChange_snoc]
      simp [GateEvent.isChange, Gate.sharedResult, shared]
    case holder => exact fun j hj => absurd hj (holder_of_returned hrecorded hi' j)
    case current =>
      intro j generation' hj
      simp only [phase_setPhase, Function.update_apply] at hj
      split_ifs at hj with hji
      · simp at hj
      · have hfalse := hnone j hji
        rcases hj with hj | ⟨_, hj⟩ <;> simp [hj, Phase.holds] at hfalse
    case started =>
      intro j generation' hmem
      have hmem : .start j generation' ∈ h := by simpa using hmem
      have hold := hrecorded.started j generation' hmem
      by_cases hji : j = i
      · subst hji
        obtain ⟨⟨result', hresult⟩, hgeneration⟩ :
            (∃ result, .recover j generation' result ∈ h) ∧ generation = generation' := by
          simpa [hi] using hold
        subst hgeneration
        exact .inr ⟨⟨result', List.mem_append_left _ hresult⟩,
          .inr ⟨Function.update_self _ _ _, Nat.lt_succ_self _⟩⟩
      · simp only [phase_setPhase, Function.update_of_ne hji]
        refine hold.imp_right fun ⟨⟨result, hresult⟩, hphase⟩ => ?_
        refine ⟨⟨result, List.mem_append_left _ hresult⟩, hphase.imp_right fun ⟨hphase, hlt⟩ => ?_⟩
        exact ⟨hphase, (heq ▸ hlt).trans (Nat.lt_succ_self _)⟩
    case recovered =>
      intro j generation' result' hmem
      have hmem : .recover j generation' result' ∈ h := by simpa using hmem
      exact List.mem_append_left _ (hrecorded.recovered j generation' result' hmem)
  | discard hi hne => exact absurd (hrecorded.current _ _ (.inr ⟨_, hi⟩)).1 hne
  | invalidate hfree =>
    have hnone := hrecorded.free hfree
    constructor
    case generation => simp [GateEvent.isChange, hrecorded.generation]
    case last =>
      rw [lastChange_snoc]
      rfl
    case holder => exact fun j hj => absurd hj (by simp [hnone j])
    case current =>
      intro j generation' hj
      have hfalse := hnone j
      rcases hj with hj | ⟨result, hj⟩
      · rw [show s.phase j = _ from hj] at hfalse
        cases hfalse
      · rw [show s.phase j = _ from hj] at hfalse
        cases hfalse
    case started =>
      intro j generation' hmem
      have hmem : .start j generation' ∈ h := by simpa using hmem
      refine (hrecorded.started j generation' hmem).imp_right fun ⟨⟨result, hresult⟩, hphase⟩ => ?_
      refine ⟨⟨result, List.mem_append_left _ hresult⟩, hphase.imp_right fun ⟨hphase, hlt⟩ => ?_⟩
      exact ⟨hphase, hlt.trans (Nat.lt_succ_self _)⟩
    case recovered =>
      intro j generation' result hmem
      have hmem : .recover j generation' result ∈ h := by simpa using hmem
      exact List.mem_append_left _ (hrecorded.recovered j generation' result hmem)

/-! ### What every history guarantees -/

/-- The runs of a gate. -/
abbrev GateRun (display : E → Str) (h : List (GateEvent E)) (s : Gate E) : Prop :=
  Runs.Run (GateStep display) Gate.default h s

theorem recorded_of_run (hrun : GateRun display h s) : Recorded display h s :=
  hrun.history recorded_default fun hrecorded hstep => hrecorded.step hstep

/-- Each event of a history happened in a state that the events before it have led to. -/
theorem exists_step (hrun : GateRun display (before ++ event :: after) s) :
    ∃ t u, Recorded display before t ∧ GateStep display t event u := by
  obtain ⟨t, hbefore, hrest⟩ := Runs.run_append.1 hrun
  obtain ⟨u, hstep, -⟩ := Runs.run_cons.1 hrest
  exact ⟨t, u, recorded_of_run hbefore, hstep⟩

theorem of_observe (hrun : GateRun display (before ++ .observe i generation :: after) s) :
    generation = before.countP (·.isChange) := by
  obtain ⟨t, u, hrecorded, hstep⟩ := exists_step hrun
  cases hstep
  exact hrecorded.generation

theorem of_start (hrun : GateRun display (before ++ .start i generation :: after) s) :
    generation = before.countP (·.isChange) ∧ ∀ j, .start j generation ∉ before := by
  obtain ⟨t, u, hrecorded, hstep⟩ := exists_step hrun
  cases hstep with
  | start hi heq =>
    refine ⟨heq.symm.trans hrecorded.generation, fun j hj => ?_⟩
    have hholds : (t.phase i).holds = true := by simp [hi, Phase.holds]
    have hother : (t.phase j).holds = true → j = i := (hrecorded.holder i hholds).2 j
    rcases hrecorded.started j generation hj with hphase | ⟨-, ⟨result, hphase⟩ | ⟨-, hlt⟩⟩
    · have hji := hother (by simp [hphase, Phase.holds])
      simp [hji, hi] at hphase
    · have hji := hother (by simp [hphase, Phase.holds])
      simp [hji, hi] at hphase
    · exact hlt.ne heq.symm

theorem of_share (hrun : GateRun display (before ++ .share i generation result :: after) s) :
    generation ≠ before.countP (·.isChange) ∧ result = match lastChange before with
      | some (.publish _ _ result) => shared display result
      | _ => .error .unauthorized := by
  obtain ⟨t, u, hrecorded, hstep⟩ := exists_step hrun
  cases hstep with
  | share hi hne => exact ⟨fun heq => hne (hrecorded.generation.trans heq.symm), hrecorded.last⟩

variable {between : List (GateEvent E)}

/-- No change between two points of a history means the same generation at both. -/
theorem countP_of_no_change (h : ∀ event ∈ between, event.isChange = false) :
    (before ++ between).countP (·.isChange) = before.countP (·.isChange) := by
  have hzero : between.countP (·.isChange) = 0 :=
    List.countP_eq_zero.2 fun event hevent => by simp [h event hevent]
  rw [List.countP_append, hzero, Nat.add_zero]

theorem GateEvent.exists_of_isStart {event : GateEvent E} {generation : ℕ}
    (h : event.isStart generation = true) : ∃ i, event = .start i generation := by
  cases event with
  | start i generation' =>
    obtain rfl : generation' = generation := of_decide_eq_true h
    exact ⟨i, rfl⟩
  | _ => exact absurd h Bool.false_ne_true

theorem countP_isStart_le (hrun : GateRun display h s) (generation : ℕ) :
    h.countP (·.isStart generation) ≤ 1 := by
  induction h using List.reverseRecOn generalizing s with
  | nil => simp
  | append_singleton h event ih =>
    obtain ⟨t, hbefore, -⟩ := Runs.run_snoc.1 hrun
    have hle := ih hbefore
    rw [List.countP_append]
    cases hstart : event.isStart generation with
    | false => simpa [hstart] using hle
    | true =>
      obtain ⟨i, rfl⟩ := GateEvent.exists_of_isStart hstart
      have hfirst := (of_start hrun).2
      have hzero : h.countP (·.isStart generation) = 0 := by
        refine List.countP_eq_zero.2 fun event hevent hstart' => ?_
        obtain ⟨j, rfl⟩ := GateEvent.exists_of_isStart hstart'
        exact hfirst j hevent
      rw [hzero]
      simp [GateEvent.isStart]

theorem singleFlight_of_run (hrun : GateRun display h s) : SingleFlight display h s where
  alone := by
    rintro before i generation between j generation' after rfl
    have hfirst := (of_start hrun).2 i
    obtain ⟨v, -, hbefore, -⟩ := exists_step hrun
    rw [← List.cons_append, ← List.append_assoc] at hrun
    obtain ⟨t, u, hrecorded, hstep⟩ := exists_step hrun
    cases hstep with
    | start hj heq =>
      have hholds : (t.phase j).holds = true := by simp [hj, Phase.holds]
      rcases hrecorded.started i generation (by simp) with hphase | ⟨⟨result, hresult⟩, -⟩
      · have hij := (hrecorded.holder j hholds).2 i (by simp [hphase, Phase.holds])
        simp [hij, hj] at hphase
      · rcases List.mem_append.1 hresult with hresult | hresult
        · exact absurd (hbefore.recovered i generation result hresult) hfirst
        · exact ⟨result, by simpa using hresult⟩
  once := countP_isStart_le hrun
  kept := by
    intro i generation hmem
    obtain ⟨before, after, rfl⟩ := List.append_of_mem hmem
    obtain ⟨t, u, hrecorded, hstep⟩ := exists_step hrun
    cases hstep with
    | discard hi hne => exact hne (hrecorded.current _ _ (.inr ⟨_, hi⟩)).1
  shares := by
    rintro before i generation result after rfl j result' hlast
    have hresult := (of_share hrun).2
    rw [hlast] at hresult
    exact hresult
  fresh := by
    rintro before i generation between result after rfl
    by_contra hnone
    have hno : ∀ event ∈ .observe i generation :: between, event.isChange = false := by
      intro event hevent
      rcases List.mem_cons.1 hevent with rfl | hevent
      · rfl
      · exact Bool.eq_false_iff.2 fun hchange => hnone ⟨event, hevent, hchange⟩
    have hobserve := of_observe hrun
    rw [← List.cons_append, ← List.append_assoc] at hrun
    refine (of_share hrun).1 ?_
    rw [countP_of_no_change hno, hobserve]
  retries := by
    rintro i generation hi ⟨before, after, rfl, hno⟩
    have hobserve := of_observe hrun
    refine ⟨_, .start s hi ?_⟩
    have hno : ∀ event ∈ .observe i generation :: after, event.isChange = false :=
      List.forall_mem_cons.2 ⟨rfl, hno⟩
    rw [(recorded_of_run hrun).generation, countP_of_no_change hno, hobserve]

/-- A call that observed before a logout starts no recovery after it. -/
theorem ne_start_of_invalidate
    (hrun : GateRun display (before ++ .observe i generation :: (between ++ event :: after)) s)
    (hlogout : .invalidate ∈ between) : event ≠ .start i generation := by
  rintro rfl
  have hobserve := of_observe hrun
  rw [← List.cons_append, ← List.append_assoc] at hrun
  have hstart := (of_start hrun).1
  have hpos : 0 < between.countP (·.isChange) :=
    List.countP_pos_iff.2 ⟨.invalidate, hlogout, rfl⟩
  rw [List.countP_append, List.countP_cons] at hstart
  omega

end Runs

/-- A caller that observes before a logout waits while one that observes after it recovers. -/
def revivedHistory : List (GateEvent Empty) :=
  [.observe 0 0, .invalidate, .observe 1 1, .acquire 1, .start 1 1, .recover 1 1 (.ok ()),
    .publish 1 1 (.ok ()), .acquire 0, .share 0 0 (.ok ())]

theorem run_revivedHistory : ∃ s, GateRun nofun revivedHistory s :=
  ⟨_, .snoc (.snoc (.snoc (.snoc (.snoc (.snoc (.snoc (.snoc (.snoc (.nil _)
    (.observe _ rfl)) (.invalidate _ rfl)) (.observe _ rfl)) (.acquire _ rfl rfl))
    (.start _ rfl rfl)) (.recover _ rfl _)) (.publish _ rfl rfl)) (.acquire _ rfl rfl))
    (.share _ rfl (by decide))⟩

end Awayuki.Accounts
