import Awayuki.Translation.Core
import Awayuki.Library.Runs

/-!
# Live consumers of translations

A consumer that has not cancelled waits for a job that waits for a slot or runs, and gets what the
task leaves.  The exception is a job whose task was aborted and that is still registered: who joins
it then gets a cancellation.

* `Change`: what a step may do to a job;
* `Honest`: what the states of a run have in which nobody joins a job that was aborted;
* `Served`: what the consumers see;
* `served_of_run`: all states of such a run.
-/

namespace Awayuki.Translation.TranslationScheduler

variable {π ν ε : Type} {s t : TranslationScheduler π ν ε} {i j : ℕ}

/-! ### What a step does to a job -/

variable {label : Label π ν ε}

/-- What a step may do to a job that was there. -/
structure Change (s : TranslationScheduler π ν ε) (label : Label π ν ε)
    (t : TranslationScheduler π ν ε) (i : ℕ) : Prop where
  promise : (t.job i).promise = (s.job i).promise ∨
    (∃ outcome, label = .settle i outcome ∧ (s.job i).promise = none ∧
      (t.job i).promise = some ⟨(s.job i).settlement outcome, (s.job i).aborted⟩) ∨
    (t.job i).promise = some ⟨.cancelled, true⟩ ∧ (t.job i).consumers = []
  aborted : (t.job i).aborted = (s.job i).aborted ∨
    (t.job i).aborted = true ∧ (t.job i).consumers = []
  consumers : ((s.job i).consumers = [] → (t.job i).consumers = []) ∨
    ∃ key priority, label = .schedule key priority ∧ s.jobs key = some i

theorem Change.of_eq (h : ∃ running, t.job i = { s.job i with running }) : Change s label t i := by
  obtain ⟨running, h⟩ := h
  exact ⟨.inl (by rw [h]), .inl (by rw [h]), .inl fun hempty => by rw [h]; exact hempty⟩

/-- A job is spoilt by a step that leaves it without consumers only. -/
theorem Change.spoilt (h : Change s label t i) (ht : (t.job i).spoilt = true) :
    (s.job i).spoilt = true ∨ (t.job i).consumers = [] := by
  unfold TranslationJob.spoilt at ht ⊢
  rcases h.promise with hsame | ⟨outcome, -, hnone, hsettled⟩ | ⟨-, hempty⟩
  · cases hpromise : (s.job i).promise with
    | none =>
      rw [hsame, hpromise] at ht
      rcases h.aborted with haborted | ⟨-, hempty⟩
      · exact .inl (haborted ▸ ht)
      · exact .inr hempty
    | some settled =>
      rw [hsame, hpromise] at ht
      exact .inl ht
  · rw [hsettled] at ht
    rw [hnone]
    exact .inl ht
  · exact .inr hempty

theorem change_cancel (h : Core s) {consumer : ℕ} (hissued : consumer < s.leases) (i : ℕ) :
    Change s label (s.cancel consumer) i := by
  cases hlive : (s.lease consumer).cancelled with
  | true =>
    rw [TranslationScheduler.cancel, if_pos hlive]
    exact .of_eq ⟨_, rfl⟩
  | false =>
    rw [cancel_eq consumer hlive]
    by_cases hi : i = (s.lease consumer).job
    · rw [← hi]
      have hmine : (s.without consumer).job i =
          { s.job i with consumers := (s.job i).consumers.erase consumer } := by
        rw [without_job, if_pos hi]
      split_ifs with hempty
      · cases hrunning : (s.job i).running with
        | true =>
          have hgive : (s.without consumer).giveUp i = (s.without consumer).abort i := by
            rw [giveUp, if_pos (by rw [hmine]; exact hrunning)]
          have hjob : ((s.without consumer).abort i).job i =
              { (s.without consumer).job i with aborted := true } := by
            rw [abort_job, if_pos rfl]
          rw [hgive]
          refine ⟨.inl ?_, .inr ⟨?_, ?_⟩, .inl fun _ => ?_⟩
          · rw [hjob, hmine]
          · rw [hjob]
          · rw [hjob]
            exact hempty
          · rw [hjob]
            exact hempty
        | false =>
          have hqueue := h.toBase.mem_queue ⟨hissued, hi.symm, hlive⟩ hrunning
          have hgive : (s.without consumer).giveUp i = (s.without consumer).withdraw i := by
            rw [giveUp, if_neg (by rw [hmine]; simp [hrunning])]
            rfl
          have hjob := withdraw_job (s := s.without consumer) (j := i)
            (by rw [hmine]; exact (h.waiting i hqueue hrunning).2.1)
          rw [hgive]
          refine ⟨.inr (.inr ⟨?_, ?_⟩), .inr ⟨?_, ?_⟩, .inl fun _ => ?_⟩
          · rw [hjob]
          · rw [hjob]
            exact hempty
          · rw [hjob]
          · rw [hjob]
            exact hempty
          · rw [hjob]
            exact hempty
      · refine ⟨.inl ?_, .inl ?_, .inl fun hnone => ?_⟩
        · rw [hmine]
        · rw [hmine]
        · rw [hmine]
          simp [hnone]
    · have hother : (s.without consumer).job i = s.job i := by rw [without_job, if_neg hi]
      refine .of_eq ⟨(s.job i).running, ?_⟩
      split_ifs
      · unfold giveUp
        split_ifs
        · rw [abort_job, if_neg hi, hother]
        · exact (withdraw_job_of_ne hi).trans hother
      · exact hother

theorem cancel_frame (consumer : ℕ) :
    (s.cancel consumer).order = s.order ∧ (s.cancel consumer).concurrency = s.concurrency := by
  cases hlive : (s.lease consumer).cancelled with
  | true =>
    rw [TranslationScheduler.cancel, if_pos hlive]
    exact ⟨rfl, rfl⟩
  | false =>
    rw [cancel_eq consumer hlive]
    split_ifs
    · unfold giveUp
      split_ifs
      · exact ⟨rfl, rfl⟩
      · exact ⟨rfl, rfl⟩
    · exact ⟨rfl, rfl⟩

section

variable [LinearOrder π]

theorem Core.step (h : Core s) (hfull : Full s) (hstep : s.step label = some t) :
    Core t ∧ Full t := by
  cases label with
  | schedule key priority =>
    cases hstep
    exact h.schedule hfull
  | cancel consumer =>
    obtain ⟨hissued, hstep⟩ := Option.ite_none_right_eq_some.1 hstep
    cases hstep
    exact h.cancel hfull hissued
  | settle j outcome =>
    obtain ⟨⟨-, hrunning, hpromise⟩, hstep⟩ := Option.ite_none_right_eq_some.1 hstep
    cases hstep
    refine ⟨h.settle hrunning (Option.isNone_iff_eq_none.1 hpromise) outcome, ?_⟩
    intro hfree i hi
    have hold := hfull hfree i hi
    rw [settle_job]
    split_ifs with heq
    · rw [TranslationJob.settle, Option.isNone_iff_eq_none.1 hpromise]
      exact hrunning
    · exact hold
  | finish j =>
    obtain ⟨⟨hj, hrunning, hpromise⟩, hstep⟩ := Option.ite_none_right_eq_some.1 hstep
    cases hstep
    refine (h.finished hj hrunning ?_).pump
    exact Option.isSome_iff_ne_none.1 hpromise

theorem concurrency_step (hstep : s.step label = some t) : t.concurrency = s.concurrency := by
  cases label with
  | schedule key priority =>
    have hschedule : s.schedule key priority = t := Option.some.inj hstep
    rw [← hschedule, TranslationScheduler.schedule]
    split
    · rfl
    · exact (pumped_pump _).concurrency
  | cancel consumer =>
    obtain ⟨-, hstep⟩ := Option.ite_none_right_eq_some.1 hstep
    cases hstep
    exact (cancel_frame consumer).2
  | settle j outcome =>
    obtain ⟨-, hstep⟩ := Option.ite_none_right_eq_some.1 hstep
    cases hstep
    rfl
  | finish j =>
    obtain ⟨-, hstep⟩ := Option.ite_none_right_eq_some.1 hstep
    cases hstep
    exact (pumped_pump _).concurrency

/-- A step gives a job its number, or changes one that was there. -/
theorem Core.change (h : Core s) (hstep : s.step label = some t) (hi : i < t.order) :
    i < s.order ∧ Change s label t i ∨
      i = s.order ∧ (t.job i).promise = none ∧ (t.job i).aborted = false := by
  cases label with
  | schedule key priority =>
    have hschedule : s.schedule key priority = t := Option.some.inj hstep
    subst hschedule
    unfold TranslationScheduler.schedule at hi ⊢
    split at hi
    · next j hjob =>
      refine .inl ⟨hi, ?_⟩
      have heq : (s.join j priority).job i = (s.joined j priority).job i := rfl
      by_cases hij : i = j
      · subst hij
        refine ⟨.inl ?_, .inl ?_, .inr ⟨key, priority, rfl, hjob⟩⟩
        · rw [heq, joined_job, if_pos rfl]
        · rw [heq, joined_job, if_pos rfl]
      · refine .of_eq ⟨(s.job i).running, ?_⟩
        rw [heq, joined_job, if_neg hij]
    · next hnew =>
      have hpumped := pumped_pump (s.enqueue key priority).sortQueue
      obtain ⟨running, hjob⟩ := hpumped.job i
      have horder : i < s.order + 1 := lt_of_lt_of_eq hi hpumped.order
      by_cases heq : i = s.order
      · refine .inr ⟨heq, ?_, ?_⟩
        · rw [hjob]
          show ((s.enqueue key priority).job i).promise = none
          rw [enqueue_job, if_pos heq]
        · rw [hjob]
          show ((s.enqueue key priority).job i).aborted = false
          rw [enqueue_job, if_pos heq]
      · refine .inl ⟨by omega, .of_eq ⟨running, ?_⟩⟩
        have hsorted : (s.enqueue key priority).sortQueue.job i = s.job i := by
          show (s.enqueue key priority).job i = _
          rw [enqueue_job, if_neg heq]
        rw [hjob, hsorted]
  | cancel consumer =>
    obtain ⟨hissued, hstep⟩ := Option.ite_none_right_eq_some.1 hstep
    cases hstep
    exact .inl ⟨lt_of_lt_of_eq hi (cancel_frame consumer).1, change_cancel h hissued i⟩
  | settle j outcome =>
    obtain ⟨⟨-, -, hpromise⟩, hstep⟩ := Option.ite_none_right_eq_some.1 hstep
    cases hstep
    rw [Option.isNone_iff_eq_none] at hpromise
    refine .inl ⟨hi, ?_⟩
    by_cases heq : i = j
    · subst heq
      have hjob : (s.settle i outcome).job i =
          { s.job i with promise := some ⟨(s.job i).settlement outcome, (s.job i).aborted⟩ } := by
        rw [settle_job, if_pos rfl, TranslationJob.settle, hpromise]
      refine ⟨.inr (.inl ⟨outcome, rfl, hpromise, ?_⟩), .inl ?_, .inl fun hempty => ?_⟩
      · rw [hjob]
      · rw [hjob]
      · rw [hjob]
        exact hempty
    · exact .of_eq ⟨(s.job i).running, by rw [settle_job, if_neg heq]⟩
  | finish j =>
    obtain ⟨-, hstep⟩ := Option.ite_none_right_eq_some.1 hstep
    cases hstep
    have hpumped := pumped_pump (s.finished j)
    obtain ⟨running, hjob⟩ := hpumped.job i
    have horder : i < s.order := lt_of_lt_of_eq hi hpumped.order
    exact .inl ⟨horder, .of_eq ⟨running, hjob⟩⟩

/-! ### Runs in which nobody joins a job that was aborted -/

/-- A consumer joins a job whose task was aborted before it was settled. -/
def joinsAborted (s : TranslationScheduler π ν ε) : Label π ν ε → Bool
  | .schedule key _ => (s.jobs key).any fun j => (s.job j).spoilt
  | _ => false

def calmStep (s : TranslationScheduler π ν ε) (label : Label π ν ε) :
    Option (TranslationScheduler π ν ε) :=
  if s.joinsAborted label then none else s.step label

theorem step_of_calmStep (h : s.calmStep label = some t) :
    s.joinsAborted label = false ∧ s.step label = some t := by
  unfold calmStep at h
  split_ifs at h with hjoins
  exact ⟨by simpa using hjoins, h⟩

structure Honest (s : TranslationScheduler π ν ε) : Prop where
  spoilt : ∀ j < s.order, (s.job j).spoilt = true → (s.job j).consumers = []
  cancelled : ∀ j < s.order, ∀ settled, (s.job j).promise = some settled →
    settled.settlement = .cancelled → settled.aborted = true

theorem Honest.step (h : Honest s) (hcore : Core s) (hstep : s.calmStep label = some t) :
    Honest t := by
  obtain ⟨hcalm, hstep⟩ := step_of_calmStep hstep
  constructor
  · intro i hi ht
    rcases hcore.change hstep hi with ⟨hold, hchange⟩ | ⟨-, hpromise, haborted⟩
    · rcases hchange.spoilt ht with hs | hempty
      · rcases hchange.consumers with hkeeps | ⟨key, priority, rfl, hjob⟩
        · exact hkeeps (h.spoilt i hold hs)
        · rw [joinsAborted, hjob] at hcalm
          exact absurd hs (by simpa using hcalm)
      · exact hempty
    · unfold TranslationJob.spoilt at ht
      rw [hpromise] at ht
      exact absurd (haborted.symm.trans ht) (by decide)
  · intro i hi settled hsettled hcancelled
    rcases hcore.change hstep hi with ⟨hold, hchange⟩ | ⟨-, hpromise, -⟩
    · rcases hchange.promise with hsame | ⟨outcome, -, -, hnew⟩ | ⟨hnew, -⟩
      · exact h.cancelled i hold settled (hsame ▸ hsettled) hcancelled
      · cases hnew.symm.trans hsettled
        cases outcome with
        | value v =>
          by_cases hgone : (s.job i).aborted = true ∨ (s.job i).consumers = []
          · exact hgone.elim id (hcore.deserted i hold)
          · change (if _ then _ else _) = _ at hcancelled
            rw [if_neg hgone] at hcancelled
            cases hcancelled
        | error e => cases hcancelled
      · cases hnew.symm.trans hsettled
        rfl
    · cases hpromise.symm.trans hsettled

/-! ### What the consumers see -/

/-- What a consumer gets from a task that was not aborted. -/
def Settlement.of : Outcome ν ε → Settlement ν ε
  | .value v => .resolved v
  | .error e => .rejected e

/-- Every promise was settled by the handlers of its task, or cancelled. -/
def Told (labels : List (Label π ν ε)) (s : TranslationScheduler π ν ε) : Prop :=
  ∀ j < s.order, ∀ settled, (s.job j).promise = some settled →
    settled.settlement = .cancelled ∨
      ∃ outcome, .settle j outcome ∈ labels ∧ settled.settlement = Settlement.of outcome

theorem Told.step {labels : List (Label π ν ε)} (h : Told labels s) (hcore : Core s)
    (hstep : s.step label = some t) : Told (labels ++ [label]) t := by
  intro i hi settled hsettled
  rcases hcore.change hstep hi with ⟨hold, hchange⟩ | ⟨-, hpromise, -⟩
  · rcases hchange.promise with hsame | ⟨outcome, rfl, -, hnew⟩ | ⟨hnew, -⟩
    · rcases h i hold settled (hsame ▸ hsettled) with hcancelled | ⟨outcome, hmem, hsettlement⟩
      · exact .inl hcancelled
      · exact .inr ⟨outcome, List.mem_append_left _ hmem, hsettlement⟩
    · cases hnew.symm.trans hsettled
      cases outcome with
      | value v =>
        by_cases hgone : (s.job i).aborted = true ∨ (s.job i).consumers = []
        · exact .inl (if_pos hgone)
        · exact .inr ⟨.value v, by simp, if_neg hgone⟩
      | error e => exact .inr ⟨.error e, by simp, rfl⟩
    · cases hnew.symm.trans hsettled
      exact .inl rfl
  · cases hpromise.symm.trans hsettled

/-- What the consumers see of a scheduler after a history. -/
structure Served (concurrency : ℕ) (labels : List (Label π ν ε))
    (s : TranslationScheduler π ν ε) : Prop where
  atMost : ∀ running : List ℕ, running.Nodup →
    (∀ j ∈ running, j < s.order ∧ (s.job j).Runs) → running.length ≤ concurrency
  onePerKey : ∀ i < s.order, ∀ j < s.order, (s.job i).Runs → (s.job j).Runs →
    (s.job i).key = (s.job j).key → i = j
  settles : ∀ consumer j settled, s.Holds consumer j → (s.job j).promise = some settled →
    settled.aborted = false ∧
      ∃ outcome, .settle j outcome ∈ labels ∧ settled.settlement = Settlement.of outcome
  pending : ∀ consumer j, s.Holds consumer j → (s.job j).promise = none →
    j ∈ s.queue ∧ (s.running < concurrency → (s.job j).Runs)

/-- The jobs that a step aborts have no consumer that has not cancelled. -/
def AbortsDeserted (s t : TranslationScheduler π ν ε) : Prop :=
  ∀ j < t.order, (s.job j).aborted = false → (t.job j).aborted = true →
    ∀ consumer < t.leases, (t.lease consumer).job = j → (t.lease consumer).cancelled = true

theorem Core.abortsDeserted (h : Core s) (hfull : Full s) (hstep : s.step label = some t) :
    AbortsDeserted s t := by
  intro j hj hbefore hafter consumer hconsumer hjob
  have hempty : (t.job j).consumers = [] := by
    rcases h.change hstep hj with ⟨-, hchange⟩ | ⟨-, -, hnew⟩
    · rcases hchange.aborted with hsame | ⟨-, hempty⟩
      · rw [hsame, hbefore] at hafter
        cases hafter
      · exact hempty
    · rw [hnew] at hafter
      cases hafter
  by_contra hlive
  have hmem := ((h.step hfull hstep).1.consumers j hj consumer).2
    ⟨hconsumer, hjob, by simpa using hlive⟩
  rw [hempty] at hmem
  cases hmem

omit [LinearOrder π] in
theorem Core.mem_queue_of_runs (h : Core s) (hj : j < s.order) (hruns : (s.job j).Runs) :
    j ∈ s.queue := by
  by_contra hqueue
  exact (h.gone j hj hqueue).1 hruns.2

omit [LinearOrder π] in
theorem Core.served (h : Core s) (hfull : Full s) (hhonest : Honest s)
    {labels : List (Label π ν ε)} (htold : Told labels s) : Served s.concurrency labels s where
  atMost := by
    intro running hnodup hruns
    have hsub : running ⊆ s.queue.filter fun j => (s.job j).running := by
      intro j hj
      obtain ⟨hknown, hrunning⟩ := hruns j hj
      exact List.mem_filter.2 ⟨h.mem_queue_of_runs hknown hrunning, hrunning.1⟩
    calc running.length ≤ (s.queue.filter fun j => (s.job j).running).length :=
          (hnodup.subperm hsub).length_le
      _ = s.running := by rw [← List.countP_eq_length_filter, h.slots, held]
      _ ≤ s.concurrency := h.bound
  onePerKey := by
    intro i hi j hj hirun hjrun hkey
    have hifirst := (h.registered _ i).2 ⟨h.mem_queue_of_runs hi hirun, rfl⟩
    have hjfirst := (h.registered _ j).2 ⟨h.mem_queue_of_runs hj hjrun, rfl⟩
    rw [hkey] at hifirst
    exact Option.some.inj (hifirst.symm.trans hjfirst)
  settles := by
    intro consumer j settled hholds hpromise
    have hj : j < s.order := hholds.2.1 ▸ h.leased consumer hholds.1
    have hmem := (h.consumers j hj consumer).2 hholds
    have haborted : settled.aborted = false := by
      by_contra hspoilt
      have hempty := hhonest.spoilt j hj (by
        unfold TranslationJob.spoilt
        rw [hpromise]
        simpa using hspoilt)
      rw [hempty] at hmem
      cases hmem
    refine ⟨haborted, (htold j hj settled hpromise).resolve_left fun hcancelled => ?_⟩
    have := hhonest.cancelled j hj settled hpromise hcancelled
    exact absurd (haborted.symm.trans this) (by decide)
  pending := by
    intro consumer j hholds hpromise
    have hj : j < s.order := hholds.2.1 ▸ h.leased consumer hholds.1
    have hqueue : j ∈ s.queue := by
      by_contra hqueue
      exact (h.gone j hj hqueue).1 hpromise
    exact ⟨hqueue, fun hfree => ⟨hfull hfree j hqueue, hpromise⟩⟩

/-! ### Runs -/

variable {concurrency : ℕ} {blank : TranslationJob π ν ε} {labels : List (Label π ν ε)}

omit [LinearOrder π] in
theorem core_create : Core (create concurrency blank) where
  nodup := List.nodup_nil
  known := fun _ h => nomatch h
  registered := fun _ _ => ⟨fun h => (nomatch h), fun h => (nomatch h.1)⟩
  slots := rfl
  bound := Nat.zero_le _
  leased := fun _ h => absurd h (Nat.not_lt_zero _)
  distinct := fun _ h => absurd h (Nat.not_lt_zero _)
  consumers := fun _ h => absurd h (Nat.not_lt_zero _)
  gone := fun _ h => absurd h (Nat.not_lt_zero _)
  waiting := fun _ h => nomatch h
  deserted := fun _ h => absurd h (Nat.not_lt_zero _)

/-- What every state of a run has in which nobody joins a job that was aborted. -/
structure Invariant (concurrency : ℕ) (labels : List (Label π ν ε))
    (s : TranslationScheduler π ν ε) : Prop where
  core : Core s
  full : Full s
  honest : Honest s
  told : Told labels s
  concurrency : s.concurrency = concurrency

theorem invariant_of_run
    (hrun : Runs.Run (fun s label t => s.calmStep label = some t) (create concurrency blank)
      labels s) : Invariant concurrency labels s := by
  refine hrun.history ⟨core_create, fun _ _ h => (nomatch h), ?_, ?_, rfl⟩ ?_
  · exact ⟨fun _ h => absurd h (Nat.not_lt_zero _), fun _ h => absurd h (Nat.not_lt_zero _)⟩
  · exact fun _ h => absurd h (Nat.not_lt_zero _)
  · intro labels s label t h hcalm
    obtain ⟨-, hstep⟩ := step_of_calmStep hcalm
    obtain ⟨hcore, hfull⟩ := h.core.step h.full hstep
    exact ⟨hcore, hfull, h.honest.step h.core hcalm, h.told.step h.core hstep,
      (concurrency_step hstep).trans h.concurrency⟩

/-- In a run in which nobody joins a job whose task was aborted before it was settled, every
consumer is served, and whatever comes next aborts only what nobody waits for. -/
theorem served_of_run
    (hrun : Runs.Run (fun s label t => s.calmStep label = some t) (create concurrency blank)
      labels s) :
    Served concurrency labels s ∧
      ∀ label t, s.step label = some t → AbortsDeserted s t := by
  have h := invariant_of_run hrun
  exact ⟨h.concurrency ▸ h.core.served h.full h.honest h.told,
    fun label t hstep => h.core.abortsDeserted h.full hstep⟩

end

/-! ### Joining a job that was aborted -/

def blankJob : TranslationJob ℕ ℕ ℕ :=
  { key := [], priority := 0, consumers := [], aborted := false, running := false,
    promise := none }

/-- A consumer cancels while another one waits for the same text, whose task then leaves `7`. -/
def sharedLabels : List (Label ℕ ℕ ℕ) :=
  [.schedule "post".toList 0, .schedule "post".toList 1, .cancel 0, .settle 0 (.value 7)]

theorem served_sharedLabels :
    ∃ s, Served 1 sharedLabels s ∧ ∀ label t, s.step label = some t → AbortsDeserted s t := by
  have hsome : (sharedLabels.foldlM calmStep (create 1 blankJob)).isSome = true := by
    decide +kernel
  exact ⟨_, served_of_run (Runs.run_iff_foldlM.2 (Option.some_get hsome).symm)⟩

/-- The only consumer cancels, and the text is asked for again before its task has settled. -/
def rejoinLabels : List (Label ℕ ℕ ℕ) :=
  [.schedule "post".toList 0, .cancel 0, .schedule "post".toList 0, .settle 0 (.value 7)]

theorem isSome_rejoin : (rejoinLabels.foldlM step (create 1 blankJob)).isSome = true := by
  decide +kernel

/-- The state in which the task has settled. -/
def rejoined : TranslationScheduler ℕ ℕ ℕ :=
  (rejoinLabels.foldlM step (create 1 blankJob)).get isSome_rejoin

/-- The second consumer gets a cancellation, though it has not cancelled. -/
theorem not_served : ¬ ∀ (labels : List (Label ℕ ℕ ℕ)) (s : TranslationScheduler ℕ ℕ ℕ),
    Runs.Run (fun s label t => s.step label = some t) (create 1 blankJob) labels s →
      Served 1 labels s := by
  intro h
  have hserved := h rejoinLabels rejoined
    (Runs.run_iff_foldlM.2 (Option.some_get isSome_rejoin).symm)
  have hholds : rejoined.Holds 1 0 := ⟨by decide +kernel, by decide +kernel, by decide +kernel⟩
  have hpromise : (rejoined.job 0).promise = some ⟨.cancelled, true⟩ := by decide +kernel
  exact absurd (hserved.settles 1 0 _ hholds hpromise).1 (by decide)

end Awayuki.Translation.TranslationScheduler
