import Awayuki.Plugins.JobAccounting
import Awayuki.Library.Runs

/-!
# Plugins: turns and timers

A turn starts so many jobs and no more.  Timers are started in the order of their instants, and of
their coming among those of one instant.  The exception is a turn that ends before all timers that
are due have been started: they are put back behind what has come for the same instant meanwhile.

* `Bounded`: what a turn has started;
* `InOrder`: the order of the timers; `collides`: the step that upsets it;
* `Kept`, `StartsInOrder`: what becomes of the jobs;
* `kept_of_run`: runs.
-/

namespace Awayuki.Plugins.TurnJobExecutor

variable {s t : TurnJobExecutor}

/-! ### What a turn starts -/

variable {label : Label} {now : ℕ} {due : List ClockJob}

structure Bounded (s : TurnJobExecutor) : Prop where
  jobs : s.turnJobs ≤ MAX_JOBS_PER_TURN
  budget : s.phase ≠ .idle → s.turnJobs + s.budget = MAX_JOBS_PER_TURN
  asyncJobs : s.turnAsyncJobs ≤ 1
  noAsyncJob : s.phase ≠ .idle → s.asyncJobRan = false → s.turnAsyncJobs = 0

/-- A step that starts nothing. -/
theorem Bounded.frame (h : Bounded s) (hjobs : t.turnJobs = s.turnJobs)
    (hbudget : t.budget = s.budget) (hran : t.asyncJobRan = s.asyncJobRan)
    (hasync : t.turnAsyncJobs = s.turnAsyncJobs) (hphase : s.phase = .idle → t.phase = .idle) :
    Bounded t where
  jobs := hjobs ▸ h.jobs
  budget ht := by
    rw [hjobs, hbudget]
    exact h.budget fun hs => ht (hphase hs)
  asyncJobs := hasync ▸ h.asyncJobs
  noAsyncJob ht hnone := by
    rw [hasync]
    exact h.noAsyncJob (fun hs => ht (hphase hs)) (hran ▸ hnone)

theorem Bounded.finish (h : Bounded s) : Bounded s.finish :=
  h.frame rfl rfl rfl rfl fun _ => rfl

/-- A step that starts a job. -/
theorem Bounded.begin (h : Bounded s) (hs : s.phase ≠ .idle) (hpositive : s.budget ≠ 0)
    (hjobs : t.turnJobs = s.turnJobs + 1) (hbudget : t.budget = s.budget - 1)
    (hasync : t.asyncJobRan = s.asyncJobRan ∧ t.turnAsyncJobs = s.turnAsyncJobs ∨
      s.asyncJobRan = false ∧ t.asyncJobRan = true ∧ t.turnAsyncJobs = s.turnAsyncJobs + 1) :
    Bounded t := by
  have hsum := h.budget hs
  refine { jobs := by omega, budget := fun _ => by omega, asyncJobs := ?_, noAsyncJob := ?_ }
  · rcases hasync with ⟨-, hsame⟩ | ⟨hran, -, hone⟩
    · exact hsame ▸ h.asyncJobs
    · rw [hone, h.noAsyncJob hs hran]
  · intro _ hnone
    rcases hasync with ⟨hran, hsame⟩ | ⟨-, hran, -⟩
    · rw [hsame]
      exact h.noAsyncJob hs (hran ▸ hnone)
    · rw [hran] at hnone
      cases hnone

theorem Bounded.step (h : Bounded s) (hstep : s.step label = some t) : Bounded t := by
  cases label with
  | enqueue job now =>
    obtain ⟨-, hstep⟩ := Option.ite_none_right_eq_some.1 hstep
    cases hstep
    cases job
    all_goals exact h.frame rfl rfl rfl rfl id
  | cancel id =>
    obtain ⟨-, hstep⟩ := Option.ite_none_right_eq_some.1 hstep
    cases hstep
    exact h.frame rfl rfl rfl rfl fun hs => hs
  | runJobs tripped =>
    unfold TurnJobExecutor.step at hstep
    dsimp only at hstep
    split at hstep
    · cases hstep
      cases tripped with
      | some error => exact ⟨Nat.zero_le _, fun hne => absurd rfl hne, Nat.zero_le _, fun _ _ => rfl⟩
      | none => exact ⟨Nat.zero_le _, fun _ => rfl, Nat.zero_le _, fun _ _ => rfl⟩
    · cases hstep
  | drain tripped =>
    unfold TurnJobExecutor.step at hstep
    dsimp only at hstep
    split at hstep
    · next last part progressed hphase =>
      have hturn : s.phase ≠ .idle := fun hs => by rw [hphase] at hs; cases hs
      cases hstep
      rcases drain_cases s last progressed tripped part with
        ⟨part', progressed', ht⟩ | ht | ⟨error, ht⟩ | ⟨job, next, hstarts⟩
      · rw [ht]
        exact h.frame rfl rfl rfl rfl fun hs => absurd hs hturn
      · rw [ht, drained]
        split_ifs
        · exact h.finish
        · exact h.frame rfl rfl rfl rfl fun hs => absurd hs hturn
      · rw [ht]
        exact h.frame rfl rfl rfl rfl fun _ => rfl
      · obtain ⟨promise, async, generic, ran, count, ht, -, hbudget, hasync⟩ := hstarts
        rw [ht]
        exact h.begin hturn hbudget rfl rfl hasync
    · cases hstep
  | readClock now =>
    unfold TurnJobExecutor.step at hstep
    dsimp only at hstep
    split at hstep
    · next hphase =>
      obtain ⟨-, hstep⟩ := Option.ite_none_right_eq_some.1 hstep
      cases hstep
      exact h.frame rfl rfl rfl rfl fun hs => by rw [hphase] at hs; cases hs
    · cases hstep
  | clock tripped =>
    unfold TurnJobExecutor.step at hstep
    dsimp only at hstep
    split at hstep
    · next due hphase =>
      have hturn : s.phase ≠ .idle := fun hs => by rw [hphase] at hs; cases hs
      cases hstep
      cases due with
      | nil => exact h.frame rfl rfl rfl rfl fun hs => absurd hs hturn
      | cons job due =>
        rcases runClockJob_cases s tripped job due with
          ⟨-, ht⟩ | ⟨-, -, ht⟩ | ⟨-, error, -, ht⟩ | ⟨-, hbudget, -, ht⟩
        · rw [ht]
          exact h.frame rfl rfl rfl rfl fun hs => absurd hs hturn
        · rw [ht]
          exact h.frame rfl rfl rfl rfl fun hs => absurd hs hturn
        · rw [ht]
          exact h.frame rfl rfl rfl rfl fun _ => rfl
        · rw [ht]
          exact h.begin hturn hbudget rfl rfl (.inl ⟨rfl, rfl⟩)
    · cases hstep
  | returned ok now =>
    unfold TurnJobExecutor.step at hstep
    dsimp only at hstep
    split at hstep
    · next last next' hphase =>
      have hturn : s.phase ≠ .idle := fun hs => by rw [hphase] at hs; cases hs
      cases hstep
      unfold returned
      dsimp only
      split_ifs
      · exact h.frame rfl rfl rfl rfl fun hs => absurd hs hturn
      · exact h.frame rfl rfl rfl rfl fun _ => rfl
    · next job due hphase =>
      have hturn : s.phase ≠ .idle := fun hs => by rw [hphase] at hs; cases hs
      obtain ⟨-, hstep⟩ := Option.ite_none_right_eq_some.1 hstep
      cases hstep
      unfold clockReturned
      dsimp only
      split
      · exact h.frame rfl rfl rfl rfl fun hs => absurd hs hturn
      · split_ifs
        · exact h.frame rfl rfl rfl rfl fun hs => absurd hs hturn
        · exact h.frame rfl rfl rfl rfl fun hs => absurd hs hturn
      · exact h.frame rfl rfl rfl rfl fun _ => rfl
      · exact h.frame rfl rfl rfl rfl fun _ => rfl
    · cases hstep

/-! ### The order of the timers -/

/-- The order in which timers are to be started. -/
def Before (a b : ClockJob) : Prop :=
  a.instant < b.instant ∨ a.instant = b.instant ∧ a.seq < b.seq

/-- The timer has not been cancelled. -/
def Live (s : TurnJobExecutor) (job : ClockJob) : Prop := ¬ s.Cancelled job

structure InOrder (s : TurnJobExecutor) : Prop where
  ordered : Agenda.Ordered ClockJob.instant s.clockJobs
  inTurn : Agenda.InTurn s.Live Before s.clockJobs
  dueInTurn : Agenda.InTurn s.Live Before s.phase.due
  cross : ∀ job ∈ s.phase.due, ∀ other ∈ s.clockJobs, s.Live job → s.Live other →
    Before job other
  past : ∀ job ∈ s.phase.due, job.instant ≤ s.now
  armed : ∀ job ∈ s.clockJobs ++ s.phase.due, job.seq < s.nextSeq

/-- A step that takes timers away. -/
theorem InOrder.sublist (h : InOrder s) (hclock : t.clockJobs.Sublist s.clockJobs)
    (hdue : t.phase.due.Sublist s.phase.due) (hnow : s.now ≤ t.now)
    (hseq : s.nextSeq = t.nextSeq) (hcancelled : s.cancelled ⊆ t.cancelled) : InOrder t := by
  have hlive : ∀ job, t.Live job → s.Live job := fun job hjob hmem => hjob (hcancelled hmem)
  exact
    { ordered := List.Pairwise.sublist hclock h.ordered
      inTurn := List.Pairwise.sublist hclock (h.inTurn.mono hlive)
      dueInTurn := List.Pairwise.sublist hdue (h.dueInTurn.mono hlive)
      cross := fun job hjob other hother hj ho =>
        h.cross job (hdue.subset hjob) other (hclock.subset hother) (hlive job hj) (hlive other ho)
      past := fun job hjob => (h.past job (hdue.subset hjob)).trans hnow
      armed := fun job hjob => by
        rw [← hseq]
        refine h.armed job ?_
        rcases List.mem_append.1 hjob with hjob | hjob
        · exact List.mem_append_left _ (hclock.subset hjob)
        · exact List.mem_append_right _ (hdue.subset hjob) }

theorem InOrder.finish (h : InOrder s) : InOrder s.finish :=
  h.sublist List.filter_sublist (List.nil_sublist _) le_rfl rfl (List.Subset.refl _)

/-- A timer is armed: it comes behind all that are there for its instant. -/
theorem InOrder.arm (h : InOrder s) (id : ℕ) {instant : ℕ} (hinstant : s.now ≤ instant)
    (period : Option ℕ) : InOrder (s.arm id instant period) := by
  have hseq : ∀ job ∈ s.clockJobs ++ s.phase.due, job.seq < s.nextSeq := h.armed
  have hmem : ∀ {job}, job ∈ (s.arm id instant period).clockJobs ↔
      job = ⟨id, instant, period, s.nextSeq⟩ ∨ job ∈ s.clockJobs := Agenda.mem_put
  refine
    { ordered := h.ordered.put _
      inTurn := h.inTurn.put h.ordered (fun job hjob _ hle => ?_) fun job _ _ hlt => .inl hlt
      dueInTurn := h.dueInTurn, cross := fun job hjob other hother hj ho => ?_, past := h.past
      armed := fun job hjob => ?_ }
  · rcases Nat.lt_or_eq_of_le hle with hlt | heq
    · exact .inl hlt
    · exact .inr ⟨heq, hseq job (List.mem_append_left _ hjob)⟩
  · rcases hmem.1 hother with rfl | hother
    · rcases Nat.lt_or_eq_of_le ((h.past job hjob).trans hinstant) with hlt | heq
      · exact .inl hlt
      · exact .inr ⟨heq, hseq job (List.mem_append_right _ hjob)⟩
    · exact h.cross job hjob other hother hj ho
  · show job.seq < s.nextSeq + 1
    rcases List.mem_append.1 hjob with hjob | hjob
    · rcases hmem.1 hjob with rfl | hjob
      · exact Nat.lt_succ_self _
      · exact Nat.lt_succ_of_lt (hseq job (List.mem_append_left _ hjob))
    · exact Nat.lt_succ_of_lt (hseq job (List.mem_append_right _ hjob))

theorem InOrder.takeDue (h : InOrder s) (now : ℕ) : InOrder (s.takeDueClockJobs now) := by
  have hsplit := List.takeWhile_append_dropWhile
    (p := fun job : ClockJob => decide (job.instant ≤ now)) (l := s.clockJobs)
  have hturn := h.inTurn
  rw [Agenda.InTurn, ← hsplit, List.pairwise_append] at hturn
  exact
    { ordered := List.Pairwise.sublist (List.dropWhile_sublist _) h.ordered
      inTurn := hturn.2.1
      dueInTurn := hturn.1
      cross := fun job hjob other hother => hturn.2.2 job hjob other hother
      past := fun job hjob => Agenda.le_of_mem_takeWhile hjob
      armed := fun job hjob => by
        refine h.armed job (List.mem_append_left _ ?_)
        rw [← hsplit]
        exact List.mem_append.2 (List.mem_append.1 hjob).symm }

/-- Timers are put back, and none that has come meanwhile has the instant of one of them. -/
theorem InOrder.restore (h : InOrder s) {phase : Phase} (hphase : phase.due = [])
    (hapart : ∀ job ∈ s.phase.due, ∀ other ∈ s.clockJobs, s.Live job → s.Live other →
      other.instant ≠ job.instant) :
    InOrder { s.restoreDueClockJobs s.phase.due with phase } := by
  obtain ⟨hturn, hordered⟩ := h.inTurn.restore h.ordered h.dueInTurn (fun _ _ => .inl)
    fun job hjob other hother hj ho => by
      rcases h.cross job hjob other hother hj ho with hlt | ⟨heq, -⟩
      · exact .inr hlt
      · exact absurd heq.symm (hapart job hjob other hother hj ho)
  refine
    { ordered := hordered, inTurn := hturn, dueInTurn := ?_, cross := ?_, past := ?_,
      armed := fun job hjob => ?_ }
  · show Agenda.InTurn _ _ phase.due
    rw [hphase]
    exact List.Pairwise.nil
  · intro job hjob
    change job ∈ phase.due at hjob
    rw [hphase] at hjob
    cases hjob
  · intro job hjob
    change job ∈ phase.due at hjob
    rw [hphase] at hjob
    cases hjob
  · change job ∈ _ ++ phase.due at hjob
    rw [hphase, List.append_nil] at hjob
    have hmem := (Agenda.perm_restore s.phase.due s.clockJobs).subset hjob
    exact h.armed job (List.mem_append.2 (List.mem_append.1 hmem).symm)

/-! ### Timers that are put back -/

/-- The timers that a step puts back. -/
def restores (s : TurnJobExecutor) : Label → List ClockJob
  | .clock tripped =>
    match s.phase with
    | .clock (job :: due) =>
      if s.Cancelled job then []
      else if s.budget = 0 ∨ tripped.isSome = true then job :: due else []
    | _ => []
  | .returned ok _ =>
    match s.phase with
    | .callingClock _ due => if ok then [] else due
    | _ => []
  | _ => []

/-- A timer is put back, and another one has come for the same instant. -/
def collides (s : TurnJobExecutor) (label : Label) : Bool :=
  (s.restores label).any fun job => !decide (s.Cancelled job) &&
    s.clockJobs.any fun other => !decide (s.Cancelled other) && other.instant = job.instant

theorem apart_of_not_collides (h : s.collides label = false) :
    ∀ job ∈ s.restores label, ∀ other ∈ s.clockJobs, s.Live job → s.Live other →
      other.instant ≠ job.instant := by
  intro job hjob other hother hj ho heq
  refine absurd (List.any_eq_false.1 h job hjob) ?_
  simp only [Bool.and_eq_true, Bool.not_eq_true', decide_eq_false_iff_not, List.any_eq_true,
    decide_eq_true_eq, not_not]
  exact ⟨hj, other, hother, ho, heq⟩

def calmStep (s : TurnJobExecutor) (label : Label) : Option TurnJobExecutor :=
  if s.collides label then none else s.step label

theorem step_of_calmStep (h : s.calmStep label = some t) :
    s.collides label = false ∧ s.step label = some t := by
  unfold calmStep at h
  split_ifs at h with hcollides
  exact ⟨by simpa using hcollides, h⟩

/-! ### Steps -/

/-- A step that leaves the timers alone. -/
theorem InOrder.frame (h : InOrder s) (hclock : t.clockJobs = s.clockJobs)
    (hdue : t.phase.due = [] ∨ t.phase.due = s.phase.due) (hnow : s.now ≤ t.now)
    (hseq : s.nextSeq = t.nextSeq) (hcancelled : s.cancelled ⊆ t.cancelled) : InOrder t := by
  refine h.sublist (by rw [hclock]) ?_ hnow hseq hcancelled
  rcases hdue with hdue | hdue
  · rw [hdue]
    exact List.nil_sublist _
  · rw [hdue]

theorem InOrder.enqueue (h : InOrder s) (job : Job) (hnow : s.now ≤ now) :
    InOrder (s.enqueueJob job now) := by
  have hnew : InOrder { s with now, nextId := s.nextId + 1 } :=
    h.frame rfl (.inr rfl) hnow rfl (List.Subset.refl _)
  cases job with
  | promise => exact h.frame rfl (.inr rfl) hnow rfl (List.Subset.refl _)
  | async => exact h.frame rfl (.inr rfl) hnow rfl (List.Subset.refl _)
  | generic => exact h.frame rfl (.inr rfl) hnow rfl (List.Subset.refl _)
  | timeout delay => exact hnew.arm s.nextId (Nat.le_add_right now delay) none
  | interval period =>
    have harmed := hnew.arm s.nextId (Nat.le_add_right now (clampInterval period)) (some period)
    exact harmed.frame rfl (.inr rfl) le_rfl rfl (List.Subset.refl _)
  | finalizationRegistryCleanup => exact h.frame rfl (.inr rfl) hnow rfl (List.Subset.refl _)

theorem InOrder.drain (h : InOrder s) (last progressed : Bool)
    (tripped : Option JobControlError) (part : Part) :
    InOrder (s.drain last progressed tripped part) := by
  rcases drain_cases s last progressed tripped part with
    ⟨part', progressed', ht⟩ | ht | ⟨error, ht⟩ | ⟨job, next, hstarts⟩
  · rw [ht]
    exact h.frame rfl (.inl rfl) le_rfl rfl (List.Subset.refl _)
  · rw [ht, drained]
    split_ifs
    · exact h.finish
    · exact h.frame rfl (.inl rfl) le_rfl rfl (List.Subset.refl _)
  · have htrip : InOrder (s.trip error) := h.frame rfl (.inr rfl) le_rfl rfl (List.Subset.refl _)
    rw [ht]
    exact htrip.finish
  · obtain ⟨promise, async, generic, ran, count, ht, -, -, -⟩ := hstarts
    rw [ht]
    exact h.frame rfl (.inl rfl) le_rfl rfl (List.Subset.refl _)

theorem InOrder.clock (h : InOrder s) (hphase : s.phase = .clock due)
    {tripped : Option JobControlError} (hcalm : s.collides (.clock tripped) = false) :
    InOrder (s.runClockJob tripped due) := by
  cases due with
  | nil => exact h.frame rfl (.inl rfl) le_rfl rfl (List.Subset.refl _)
  | cons job due =>
    have hdue : s.phase.due = job :: due := by
      rw [hphase]
      rfl
    have hrest : due.Sublist s.phase.due := hdue ▸ List.sublist_cons_self job due
    -- what is put back is what has been taken out and not been started
    have hrestore : s.restores (.clock tripped) = job :: due → ∀ phase : Phase, phase.due = [] →
        InOrder { s.restoreDueClockJobs (job :: due) with phase } := by
      intro hback phase hnone
      have hapart := apart_of_not_collides hcalm
      rw [hback, ← hdue] at hapart
      rw [← hdue]
      exact h.restore hnone hapart
    rcases runClockJob_cases s tripped job due with
      ⟨-, ht⟩ | ⟨hlive, hbudget, ht⟩ | ⟨hlive, error, rfl, ht⟩ | ⟨-, -, -, ht⟩
    · rw [ht]
      exact h.sublist (List.Sublist.refl _) hrest le_rfl rfl (List.Subset.refl _)
    · rw [ht]
      refine hrestore ?_ _ rfl
      simp [restores, hphase, hlive, hbudget]
    · rw [ht]
      have hback := hrestore (by simp [restores, hphase, hlive]) .idle rfl
      exact hback.sublist List.filter_sublist (List.nil_sublist _) le_rfl rfl (List.Subset.refl _)
    · rw [ht]
      exact h.sublist (List.Sublist.refl _) hrest le_rfl rfl (List.Subset.refl _)

theorem InOrder.clockReturned (h : InOrder s) {job : ClockJob}
    (hphase : s.phase = .callingClock job due) {ok : Bool} (hnow : s.now ≤ now)
    (hcalm : s.collides (.returned ok now) = false) : InOrder (s.clockReturned job due ok now) := by
  have hdue : s.phase.due = due := by
    rw [hphase]
    rfl
  have hback : InOrder { s with
      completedJobs := s.completedJobs + 1, now, phase := .clock due } :=
    h.frame rfl (.inr hdue.symm) hnow rfl (List.Subset.refl _)
  have hrestore : ok = false → InOrder { s.restoreDueClockJobs due with
      completedJobs := s.completedJobs + 1, now, phase := .idle } := by
    rintro rfl
    have hapart := apart_of_not_collides hcalm
    have hrestores : s.restores (.returned false now) = due := by simp [restores, hphase]
    rw [hrestores] at hapart
    exact hback.restore rfl hapart
  unfold TurnJobExecutor.clockReturned
  dsimp only
  split
  · exact hback
  · split_ifs
    · exact hback
    · exact hback.arm job.id (Nat.le_add_right now _) _
  · exact (hrestore rfl).sublist List.filter_sublist (List.nil_sublist _) le_rfl rfl
      (List.Subset.refl _)
  · exact (hrestore rfl).sublist List.filter_sublist (List.nil_sublist _) le_rfl rfl
      (List.Subset.refl _)

theorem InOrder.step (h : InOrder s) (hstep : s.calmStep label = some t) : InOrder t := by
  obtain ⟨hcalm, hstep⟩ := step_of_calmStep hstep
  cases label with
  | enqueue job now =>
    obtain ⟨⟨-, hnow⟩, hstep⟩ := Option.ite_none_right_eq_some.1 hstep
    cases hstep
    exact h.enqueue job hnow
  | cancel id =>
    obtain ⟨-, hstep⟩ := Option.ite_none_right_eq_some.1 hstep
    cases hstep
    exact h.frame rfl (.inr rfl) le_rfl rfl (List.subset_cons_self _ _)
  | runJobs tripped =>
    unfold TurnJobExecutor.step at hstep
    dsimp only at hstep
    split at hstep
    · cases hstep
      have hreset : InOrder { s.pruneCancelledClockJobs with
          budget := MAX_JOBS_PER_TURN, asyncJobRan := false, turnJobs := 0, turnAsyncJobs := 0 } :=
        h.sublist List.filter_sublist (List.Sublist.refl _) le_rfl rfl (List.Subset.refl _)
      cases tripped with
      | some error =>
        exact hreset.sublist List.filter_sublist (List.nil_sublist _) le_rfl rfl
          (List.Subset.refl _)
      | none => exact hreset.frame rfl (.inl rfl) le_rfl rfl (List.Subset.refl _)
    · cases hstep
  | drain tripped =>
    unfold TurnJobExecutor.step at hstep
    dsimp only at hstep
    split at hstep
    · cases hstep
      exact h.drain _ _ _ _
    · cases hstep
  | readClock now =>
    unfold TurnJobExecutor.step at hstep
    dsimp only at hstep
    split at hstep
    · obtain ⟨-, hstep⟩ := Option.ite_none_right_eq_some.1 hstep
      cases hstep
      exact h.takeDue now
    · cases hstep
  | clock tripped =>
    unfold TurnJobExecutor.step at hstep
    dsimp only at hstep
    split at hstep
    · next due hphase =>
      cases hstep
      exact h.clock hphase hcalm
    · cases hstep
  | returned ok now =>
    unfold TurnJobExecutor.step at hstep
    dsimp only at hstep
    split at hstep
    · cases hstep
      unfold returned
      dsimp only
      split_ifs
      · exact h.frame rfl (.inl rfl) le_rfl rfl (List.Subset.refl _)
      · exact h.sublist List.filter_sublist (List.nil_sublist _) le_rfl rfl (List.Subset.refl _)
    · next job due hphase =>
      obtain ⟨hnow, hstep⟩ := Option.ite_none_right_eq_some.1 hstep
      cases hstep
      exact h.clockReturned hphase hnow hcalm
    · cases hstep

/-! ### What becomes of the jobs -/

structure Kept (s : TurnJobExecutor) : Prop where
  /-- A job other than an interval waits, or has been started once. -/
  once : ∀ id < s.nextId, id ∉ s.intervals → id ∉ s.cancelled →
    s.waiting.count id = 1 ∧ s.started.count id = 0 ∨
      s.waiting.count id = 0 ∧ s.started.count id = 1
  intervals : s.phase = .idle → ∀ id ∈ s.intervals, id ∉ s.cancelled → id ∉ s.failed →
    s.waiting.count id = 1
  jobs : s.turnJobs ≤ MAX_JOBS_PER_TURN
  asyncJobs : s.turnAsyncJobs ≤ 1

/-- The timer that is started next is the first of all that are there. -/
def StartsInOrder (s : TurnJobExecutor) : Prop :=
  ∀ t job due, s.step (.clock none) = some t → t.phase = .callingClock job due →
    ∀ other ∈ due ++ t.clockJobs, t.Live other → Before job other

theorem Accounted.waiting_add_started (h : Accounted s) {id : ℕ} (hid : id < s.nextId)
    (hinterval : id ∉ s.intervals) (hcancelled : id ∉ s.cancelled) :
    s.waiting.count id + s.started.count id = 1 := by
  have hone := h.once id hid hcancelled fun hfailed => hinterval (h.failed id hfailed)
  have hcalled : s.phase.interval.count id = 0 := by
    rw [List.count_eq_zero]
    intro hmem
    cases hphase : s.phase with
    | callingClock job due =>
      rw [hphase] at hmem
      change id ∈ if job.period.isSome then [job.id] else [] at hmem
      split_ifs at hmem with hperiod
      · rw [List.mem_singleton.1 hmem] at hinterval
        exact hinterval ((h.called job due hphase).2.1 hperiod)
      · cases hmem
    | _ =>
      rw [hphase] at hmem
      cases hmem
  rw [ledger, List.count_append, List.count_append, hcalled] at hone
  exact hone

theorem Accounted.kept (h : Accounted s) (hbounded : Bounded s) : Kept s where
  once id hid hinterval hcancelled := by
    have hone := h.waiting_add_started hid hinterval hcancelled
    omega
  intervals hphase id hinterval hcancelled hfailed := by
    have hone := h.once id (h.known id hinterval) hcancelled hfailed
    have hstarted : s.started.count id = 0 := by
      rw [List.count_eq_zero]
      exact fun hmem => h.immediate id (List.mem_append_right _ hmem) hinterval
    have hcalled : s.phase.interval = [] := by
      rw [hphase]
      rfl
    rw [ledger, List.count_append, List.count_append, hstarted, hcalled] at hone
    exact hone
  jobs := hbounded.jobs
  asyncJobs := hbounded.asyncJobs

theorem InOrder.startsInOrder (h : InOrder s) : StartsInOrder s := by
  intro t job due hstep hcalling other hother hlive
  unfold TurnJobExecutor.step at hstep
  dsimp only at hstep
  split at hstep
  · next due' hphase =>
    cases hstep
    cases due' with
    | nil => cases hcalling
    | cons job' due' =>
      rcases runClockJob_cases s none job' due' with
        ⟨-, ht⟩ | ⟨-, -, ht⟩ | ⟨-, error, htripped, ht⟩ | ⟨hstarted, -, -, ht⟩
      · rw [ht] at hcalling
        cases hcalling
      · rw [ht] at hcalling
        cases hcalling
      · cases htripped
      · rw [ht] at hcalling hother hlive
        cases hcalling
        have hdue : s.phase.due = job :: due := by
          rw [hphase]
          rfl
        rcases List.mem_append.1 hother with hother | hother
        · have hturn := h.dueInTurn
          rw [hdue, Agenda.InTurn, List.pairwise_cons] at hturn
          exact hturn.1 other hother hstarted hlive
        · exact h.cross job (hdue ▸ List.mem_cons_self) other hother hstarted hlive
  · cases hstep

/-! ### Runs -/

theorem accounted_create : Accounted create where
  once _ hid := absurd hid (Nat.not_lt_zero _)
  fresh _ _ := rfl
  timers _ hjob := by cases hjob
  called _ _ hphase := by cases hphase
  immediate _ hid := by cases hid
  known _ hid := by cases hid
  failed _ hid := by cases hid

theorem bounded_create : Bounded create :=
  ⟨Nat.zero_le _, fun h => absurd rfl h, Nat.zero_le _, fun _ _ => rfl⟩

theorem inOrder_create : InOrder create where
  ordered := .nil
  inTurn := .nil
  dueInTurn := .nil
  cross _ hjob := by cases hjob
  past _ hjob := by cases hjob
  armed _ hjob := by cases hjob

/-- No job is lost or started twice, whatever happens.  The timers are started in their order as
long as none is put back behind one that has come for the same instant. -/
theorem kept_of_run {labels : List Label}
    (hrun : Runs.Run (fun s label t => s.step label = some t) create labels s) :
    Kept s ∧ (Runs.Run (fun s label t => s.calmStep label = some t) create labels s →
      StartsInOrder s) := by
  have haccounted : Accounted s := hrun.invariant accounted_create fun h hstep => h.step hstep
  have hbounded : Bounded s := hrun.invariant bounded_create fun h hstep => h.step hstep
  refine ⟨haccounted.kept hbounded, fun hcalm => ?_⟩
  have hinOrder : InOrder s := hcalm.invariant inOrder_create fun h hstep => h.step hstep
  exact hinOrder.startsInOrder

/-- A timer arms another one for a later instant and fails, and the rest is put back. -/
def apartLabels : List Label :=
  [.enqueue (.timeout 0) 0, .enqueue (.timeout 0) 0, .runJobs none, .drain none, .drain none,
    .drain none, .readClock 0, .clock none, .enqueue (.timeout 1) 0, .returned false 0,
    .runJobs none, .drain none, .drain none, .drain none, .readClock 1]

theorem isSome_apart : (apartLabels.foldlM calmStep create).isSome = true := by decide +kernel

def apart : TurnJobExecutor := (apartLabels.foldlM calmStep create).get isSome_apart

theorem kept_apart : Kept apart ∧ StartsInOrder apart := by
  have hcalm : Runs.Run (fun s label t => s.calmStep label = some t) create apartLabels apart :=
    Runs.run_iff_foldlM.2 (Option.some_get isSome_apart).symm
  have hkept := kept_of_run (hcalm.mono fun h => (step_of_calmStep h).2)
  exact ⟨hkept.1, hkept.2 hcalm⟩

/-- The first of two timers arms a third one for the same instant, and the turn is stopped when it
comes back. -/
def overtakenLabels : List Label :=
  [.enqueue (.timeout 0) 0, .enqueue (.timeout 0) 0, .runJobs none, .drain none, .drain none,
    .drain none, .readClock 0, .clock none, .enqueue (.timeout 0) 0, .returned true 0,
    .clock (some .stopped), .runJobs none, .drain none, .drain none, .drain none, .readClock 0]

theorem isSome_overtaken : (overtakenLabels.foldlM step create).isSome = true := by
  decide +kernel

def overtaken : TurnJobExecutor := (overtakenLabels.foldlM step create).get isSome_overtaken

/-- The third timer is started before the second one. -/
theorem not_startsInOrder : ¬ ∀ (labels : List Label) (s : TurnJobExecutor),
    Runs.Run (fun s label t => s.step label = some t) create labels s →
      Kept s ∧ StartsInOrder s := by
  intro h
  have hstarts := (h overtakenLabels overtaken
    (Runs.run_iff_foldlM.2 (Option.some_get isSome_overtaken).symm)).2
  have hbefore := hstarts (overtaken.runClockJob none [⟨2, 0, none, 2⟩, ⟨1, 0, none, 1⟩])
    ⟨2, 0, none, 2⟩ [⟨1, 0, none, 1⟩] rfl rfl ⟨1, 0, none, 1⟩ List.mem_cons_self
    (by unfold Live Cancelled; decide +kernel)
  exact absurd hbefore (by unfold Before; decide)

end Awayuki.Plugins.TurnJobExecutor
