import Awayuki.Translation.Scheduler

/-!
# What the states of the translation scheduler have

* `Base`: the map of the jobs, the queue, the count of the slots and the leases agree;
* `Core`: a job that waits has a consumer, a job that has none is aborted;
* `Full`: no job waits while a slot is free;
* one lemma for each method, between them those for what a pump leaves as it was.
-/

namespace Awayuki.Translation.TranslationScheduler

variable {π ν ε : Type} {s t : TranslationScheduler π ν ε} {i j : ℕ}

/-! ### Reading a job after a change -/

variable {consumer : ℕ}

@[simp] theorem modify_job (f : TranslationJob π ν ε → TranslationJob π ν ε) :
    (s.modify j f).job i = if i = j then f (s.job j) else s.job i :=
  Function.update_apply _ _ _ _

theorem start_job : (s.start j).job i =
    if i = j then { s.job j with running := true } else s.job i :=
  Function.update_apply _ _ _ _

/-! ### What all states have -/

/-- How many jobs of the queue hold a slot. -/
def held (s : TranslationScheduler π ν ε) : ℕ := s.queue.countP fun j => (s.job j).running

/-- A consumer has a lease for the job that it has not cancelled. -/
def Holds (s : TranslationScheduler π ν ε) (consumer j : ℕ) : Prop :=
  consumer < s.leases ∧ (s.lease consumer).job = j ∧ (s.lease consumer).cancelled = false

/-- The fields agree. -/
structure Base (s : TranslationScheduler π ν ε) : Prop where
  nodup : s.queue.Nodup
  known : ∀ j ∈ s.queue, j < s.order
  registered : ∀ key j, s.jobs key = some j ↔ j ∈ s.queue ∧ (s.job j).key = key
  slots : s.running = s.held
  bound : s.running ≤ s.concurrency
  leased : ∀ consumer < s.leases, (s.lease consumer).job < s.order
  distinct : ∀ j < s.order, (s.job j).consumers.Nodup
  consumers : ∀ j < s.order, ∀ consumer, consumer ∈ (s.job j).consumers ↔ s.Holds consumer j
  gone : ∀ j < s.order, j ∉ s.queue →
    (s.job j).promise ≠ none ∧ ((s.job j).running = false → (s.job j).consumers = [])

/-- A job that waits for a slot has a consumer; a job that has none is aborted. -/
structure Core (s : TranslationScheduler π ν ε) : Prop extends Base s where
  waiting : ∀ j ∈ s.queue, (s.job j).running = false →
    (s.job j).consumers ≠ [] ∧ (s.job j).promise = none ∧ (s.job j).aborted = false
  deserted : ∀ j < s.order, (s.job j).consumers = [] → (s.job j).aborted = true

/-- No job waits while a slot is free. -/
def Full (s : TranslationScheduler π ν ε) : Prop :=
  s.running < s.concurrency → ∀ j ∈ s.queue, (s.job j).running = true

/-! ### Slots are filled -/

/-- Counting members of a list one of which gets a property. -/
theorem countP_of_gain {l : List ℕ} {p q : ℕ → Bool} (hnodup : l.Nodup) (hj : j ∈ l)
    (hp : p j = false) (hq : q j = true) (hother : ∀ i ∈ l, i ≠ j → q i = p i) :
    l.countP q = l.countP p + 1 := by
  induction l with
  | nil => cases hj
  | cons i l ih =>
    obtain ⟨hi, hnodup⟩ := List.nodup_cons.1 hnodup
    rcases List.mem_cons.1 hj with rfl | hj
    · have hrest : l.countP q = l.countP p := List.countP_congr fun i hil => by
        rw [hother i (List.mem_cons_of_mem _ hil) (fun h => hi (h ▸ hil))]
      rw [List.countP_cons_of_pos hq, List.countP_cons_of_neg (by simp [hp]), hrest]
    · have hne : i ≠ j := fun h => hi (h ▸ hj)
      have ih := ih hnodup hj fun k hk => hother k (List.mem_cons_of_mem _ hk)
      rw [List.countP_cons, List.countP_cons, ih, hother i List.mem_cons_self hne]
      omega

theorem Core.start (h : Core s) (hj : j ∈ s.queue) (hstart : s.startable j = true)
    (hslot : s.running < s.concurrency) : Core (s.start j) := by
  have hidle : (s.job j).running = false := by
    unfold startable at hstart
    simp_all
  have hkey : ∀ i, ((s.start j).job i).key = (s.job i).key := by
    intro i
    rw [start_job]
    split_ifs with heq
    · rw [heq]
    · rfl
  have hconsumers : ∀ i, ((s.start j).job i).consumers = (s.job i).consumers := by
    intro i
    rw [start_job]
    split_ifs with heq
    · rw [heq]
    · rfl
  refine
    { nodup := h.nodup, known := h.known, registered := ?_, slots := ?_, bound := hslot,
      leased := h.leased, distinct := ?_, consumers := ?_, gone := ?_, waiting := ?_,
      deserted := ?_ }
  · intro key i
    rw [hkey]
    exact h.registered key i
  · have hgain : (s.start j).held = s.held + 1 := by
      refine countP_of_gain h.nodup hj hidle ?_ fun i _ hne => ?_
      · rw [start_job, if_pos rfl]
      · rw [start_job, if_neg hne]
    rw [hgain, ← h.slots]
    rfl
  · intro i hi
    rw [hconsumers]
    exact h.distinct i hi
  · intro i hi
    rw [hconsumers]
    exact h.consumers i hi
  · intro i hi hqueue
    have hne : i ≠ j := fun heq => hqueue (heq ▸ hj)
    rw [start_job, if_neg hne]
    exact h.gone i hi hqueue
  · intro i hi hrunning
    rw [start_job] at hrunning ⊢
    split_ifs at hrunning ⊢ with heq
    exact h.waiting i hi hrunning
  · intro i hi hempty
    rw [hconsumers] at hempty
    rw [start_job]
    split_ifs with heq
    · exact h.deserted j (heq ▸ hi) (heq ▸ hempty)
    · exact h.deserted i hi hempty

theorem Core.pumpLoop {slots : ℕ} (h : Core s) (hslots : slots = s.concurrency - s.running) :
    Core (pumpLoop slots s) ∧ Full (TranslationScheduler.pumpLoop slots s) := by
  induction slots generalizing s with
  | zero =>
    refine ⟨h, fun hfree => ?_⟩
    change s.running < s.concurrency at hfree
    omega
  | succ slots ih =>
    unfold TranslationScheduler.pumpLoop
    cases hfind : s.queue.find? s.startable with
    | none =>
      refine ⟨h, fun _ j hj => ?_⟩
      have hnot := List.find?_eq_none.1 hfind j hj
      by_contra hrunning
      have hrunning : (s.job j).running = false := by simpa using hrunning
      have hwaiting := (h.waiting j hj hrunning).1
      unfold startable at hnot
      simp_all
    | some j =>
      have hj := List.mem_of_find?_eq_some hfind
      have hfree : s.running < s.concurrency := by omega
      refine ih (h.start hj (List.find?_some hfind) hfree) ?_
      show slots = s.concurrency - (s.running + 1)
      omega

theorem Core.pump (h : Core s) : Core s.pump ∧ Full s.pump := h.pumpLoop rfl

/-- What a pump leaves as it was: all but the slots. -/
structure Pumped (s t : TranslationScheduler π ν ε) : Prop where
  concurrency : t.concurrency = s.concurrency
  order : t.order = s.order
  leases : t.leases = s.leases
  lease : t.lease = s.lease
  queue : t.queue = s.queue
  job : ∀ i, ∃ running, t.job i = { s.job i with running }

theorem pumped_pumpLoop (slots : ℕ) (s : TranslationScheduler π ν ε) :
    Pumped s (pumpLoop slots s) := by
  induction slots generalizing s with
  | zero => exact ⟨rfl, rfl, rfl, rfl, rfl, fun i => ⟨_, rfl⟩⟩
  | succ slots ih =>
    unfold TranslationScheduler.pumpLoop
    split
    · exact ⟨rfl, rfl, rfl, rfl, rfl, fun i => ⟨_, rfl⟩⟩
    · next j _ =>
      have hrest := ih (s.start j)
      refine ⟨hrest.concurrency, hrest.order, hrest.leases, hrest.lease, hrest.queue, fun i => ?_⟩
      obtain ⟨running, hjob⟩ := hrest.job i
      refine ⟨running, ?_⟩
      rw [hjob, start_job]
      split_ifs with heq
      · rw [heq]
      · rfl

theorem pumped_pump (s : TranslationScheduler π ν ε) : Pumped s s.pump := pumped_pumpLoop _ s

/-! ### Cancelling -/

/-- The state without a consumer of a job, which may have no other one. -/
def without (s : TranslationScheduler π ν ε) (consumer : ℕ) : TranslationScheduler π ν ε :=
  { s with
    lease := Function.update s.lease consumer
      { s.lease consumer with cancelled := true } }.modify (s.lease consumer).job fun job =>
    { job with consumers := job.consumers.erase consumer }

theorem without_job : (s.without consumer).job i =
    if i = (s.lease consumer).job then
      { s.job i with consumers := (s.job i).consumers.erase consumer }
    else s.job i := by
  unfold without
  rw [modify_job]
  split_ifs with h
  · rw [h]
  · rfl

theorem holds_without {other : ℕ} : (s.without consumer).Holds other j ↔
    other ≠ consumer ∧ s.Holds other j := by
  unfold Holds without modify
  dsimp only
  rw [Function.update_apply]
  split_ifs with h
  · simp [h]
  · simp [h]

theorem Base.without (h : Base s) (consumer : ℕ) : Base (s.without consumer) := by
  have hkey : ∀ i, ((s.without consumer).job i).key = (s.job i).key := by
    intro i
    rw [without_job]
    split_ifs
    · rfl
    · rfl
  have hrunning : ∀ i, ((s.without consumer).job i).running = (s.job i).running := by
    intro i
    rw [without_job]
    split_ifs
    · rfl
    · rfl
  refine
    { nodup := h.nodup, known := h.known, registered := ?_, slots := ?_, bound := h.bound,
      leased := ?_, distinct := ?_, consumers := ?_, gone := ?_ }
  · intro key i
    rw [hkey]
    exact h.registered key i
  · unfold held
    simp only [hrunning]
    exact h.slots
  · intro other hother
    show (Function.update s.lease consumer _ other).job < s.order
    rw [Function.update_apply]
    split_ifs with heq
    · exact h.leased consumer (heq ▸ hother)
    · exact h.leased other hother
  · intro i hi
    rw [without_job]
    split_ifs
    · exact (h.distinct i hi).erase consumer
    · exact h.distinct i hi
  · intro i hi other
    rw [holds_without, without_job]
    split_ifs with heq
    · rw [(h.distinct i hi).mem_erase_iff, h.consumers i hi other]
    · rw [h.consumers i hi other]
      refine ⟨fun hholds => ⟨?_, hholds⟩, fun hholds => hholds.2⟩
      rintro rfl
      exact heq hholds.2.1.symm
  · intro i hi hqueue
    rw [without_job]
    obtain ⟨hpromise, hidle⟩ := h.gone i hi hqueue
    split_ifs
    · exact ⟨hpromise, fun hrunning => by simp [hidle hrunning]⟩
    · exact ⟨hpromise, hidle⟩

theorem cancel_eq (consumer : ℕ) (hlive : (s.lease consumer).cancelled = false) :
    s.cancel consumer =
      if ((s.without consumer).job (s.lease consumer).job).consumers = [] then
        (s.without consumer).giveUp (s.lease consumer).job
      else s.without consumer := by
  rw [cancel, if_neg (by simp [hlive])]
  rfl

theorem abort_job : (s.abort j).job i =
    if i = j then { s.job j with aborted := true } else s.job i :=
  Function.update_apply _ _ _ _

theorem Base.abort (h : Base s) (j : ℕ) : Base (s.abort j) := by
  have hsame : ∀ i, ∃ aborted, (s.abort j).job i = { s.job i with aborted } := by
    intro i
    rw [abort_job]
    split_ifs with heq
    · exact ⟨true, by rw [heq]⟩
    · exact ⟨_, rfl⟩
  have hkey : ∀ i, ((s.abort j).job i).key = (s.job i).key := fun i => by
    obtain ⟨_, heq⟩ := hsame i
    rw [heq]
  have hrunning : ∀ i, ((s.abort j).job i).running = (s.job i).running := fun i => by
    obtain ⟨_, heq⟩ := hsame i
    rw [heq]
  have hconsumers : ∀ i, ((s.abort j).job i).consumers = (s.job i).consumers := fun i => by
    obtain ⟨_, heq⟩ := hsame i
    rw [heq]
  refine
    { nodup := h.nodup, known := h.known, registered := ?_, slots := ?_, bound := h.bound,
      leased := h.leased, distinct := ?_, consumers := ?_, gone := ?_ }
  · intro key i
    rw [hkey]
    exact h.registered key i
  · unfold held
    simp only [hrunning]
    exact h.slots
  · intro i hi
    rw [hconsumers]
    exact h.distinct i hi
  · intro i hi
    rw [hconsumers]
    exact h.consumers i hi
  · intro i hi hqueue
    obtain ⟨_, heq⟩ := hsame i
    rw [heq]
    exact h.gone i hi hqueue

/-- The state without a job that waited. -/
def withdraw (s : TranslationScheduler π ν ε) (j : ℕ) : TranslationScheduler π ν ε :=
  (((s.abort j).removeQueued j).unregister (s.job j).key).modify j fun job =>
    job.settle .cancelled

theorem withdraw_job_of_ne (h : i ≠ j) : (s.withdraw j).job i = s.job i := by
  unfold withdraw
  rw [modify_job, if_neg h]
  show (s.abort j).job i = _
  rw [abort_job, if_neg h]

theorem withdraw_job (hpromise : (s.job j).promise = none) : (s.withdraw j).job j =
    { s.job j with aborted := true, promise := some ⟨.cancelled, true⟩ } := by
  unfold withdraw
  rw [modify_job, if_pos rfl]
  show ((s.abort j).job j).settle .cancelled = _
  rw [abort_job, if_pos rfl, TranslationJob.settle, hpromise]

theorem held_erase (h : Base s) (hj : j ∈ s.queue) {job : ℕ → TranslationJob π ν ε}
    (hjob : ∀ i ≠ j, (job i).running = (s.job i).running) :
    ((s.queue.erase j).countP fun i => (job i).running) =
      s.held - if (s.job j).running = true then 1 else 0 := by
  have hcongr : ((s.queue.erase j).countP fun i => (job i).running) =
      (s.queue.erase j).countP fun i => (s.job i).running :=
    List.countP_congr fun i hi => by
      rw [hjob i (h.nodup.mem_erase_iff.1 hi).1]
  rw [hcongr, List.countP_erase]
  simp [hj, held]

theorem registered_erase (h : Base s) (hj : j ∈ s.queue) (key : Str) (i : ℕ) :
    Function.update s.jobs (s.job j).key none key = some i ↔
      i ∈ s.queue.erase j ∧ (s.job i).key = key := by
  rw [h.nodup.mem_erase_iff, Function.update_apply]
  split_ifs with heq
  · refine ⟨fun h => (nomatch h), ?_⟩
    rintro ⟨⟨hne, hi⟩, hkey⟩
    refine absurd ?_ hne
    have hfirst := (h.registered _ _).2 ⟨hi, hkey⟩
    have hsecond := (h.registered _ _).2 ⟨hj, heq.symm⟩
    exact Option.some.inj (hfirst.symm.trans hsecond)
  · rw [h.registered]
    constructor
    · rintro ⟨hi, hkey⟩
      refine ⟨⟨?_, hi⟩, hkey⟩
      rintro rfl
      exact heq hkey.symm
    · rintro ⟨⟨-, hi⟩, hkey⟩
      exact ⟨hi, hkey⟩

theorem Base.withdraw (h : Base s) (hj : j ∈ s.queue) (hidle : (s.job j).running = false)
    (hempty : (s.job j).consumers = []) (hpromise : (s.job j).promise = none) :
    Base (s.withdraw j) := by
  have hsame : ∀ i, ((s.withdraw j).job i).key = (s.job i).key ∧
      ((s.withdraw j).job i).running = (s.job i).running ∧
      ((s.withdraw j).job i).consumers = (s.job i).consumers := by
    intro i
    by_cases heq : i = j
    · rw [heq, withdraw_job hpromise]
      exact ⟨rfl, rfl, rfl⟩
    · rw [withdraw_job_of_ne heq]
      exact ⟨rfl, rfl, rfl⟩
  have hmem : ∀ i, i ∈ (s.withdraw j).queue → i ∈ s.queue := fun i hi => List.mem_of_mem_erase hi
  refine
    { nodup := h.nodup.erase j, known := fun i hi => h.known i (hmem i hi), registered := ?_,
      slots := ?_, bound := h.bound, leased := h.leased, distinct := ?_, consumers := ?_,
      gone := ?_ }
  · intro key i
    rw [(hsame i).1]
    exact registered_erase h hj key i
  · show s.running = (s.queue.erase j).countP fun i => ((s.withdraw j).job i).running
    rw [held_erase h hj fun i _ => (hsame i).2.1, hidle, ← h.slots]
    rfl
  · intro i hi
    rw [(hsame i).2.2]
    exact h.distinct i hi
  · intro i hi
    rw [(hsame i).2.2]
    exact h.consumers i hi
  · intro i hi hqueue
    by_cases heq : i = j
    · rw [heq, withdraw_job hpromise]
      exact ⟨nofun, fun _ => hempty⟩
    · rw [withdraw_job_of_ne heq]
      exact h.gone i hi fun hi => hqueue ((h.nodup.mem_erase_iff).2 ⟨heq, hi⟩)

/-- A job with a live consumer is in the queue unless it was started. -/
theorem Base.mem_queue (h : Base s) (hholds : s.Holds consumer j)
    (hidle : (s.job j).running = false) : j ∈ s.queue := by
  have hj : j < s.order := hholds.2.1 ▸ h.leased consumer hholds.1
  by_contra hqueue
  have hmem := (h.consumers j hj consumer).2 hholds
  rw [(h.gone j hj hqueue).2 hidle] at hmem
  cases hmem

theorem Core.cancel (h : Core s) (hfull : Full s) (hissued : consumer < s.leases) :
    Core (s.cancel consumer) ∧ Full (s.cancel consumer) := by
  cases hlive : (s.lease consumer).cancelled with
  | true =>
    rw [TranslationScheduler.cancel, if_pos hlive]
    exact ⟨h, hfull⟩
  | false =>
    rw [cancel_eq consumer hlive]
    have hbase := h.toBase.without consumer
    generalize hjob : (s.lease consumer).job = j
    have hmine : (s.without consumer).job j =
        { s.job j with consumers := (s.job j).consumers.erase consumer } := by
      rw [without_job, if_pos hjob.symm]
    have hother : ∀ i ≠ j, (s.without consumer).job i = s.job i := fun i hi => by
      rw [without_job, if_neg (hjob ▸ hi)]
    split_ifs with hempty
    · cases hrunning : (s.job j).running with
      | true =>
        have hgive : (s.without consumer).giveUp j = (s.without consumer).abort j := by
          rw [giveUp, if_pos (by rw [hmine]; exact hrunning)]
        rw [hgive]
        refine ⟨⟨hbase.abort j, fun i hi hidle => ?_, fun i hi hempty => ?_⟩,
          fun hfree i hi => ?_⟩
        · by_cases heq : i = j
          · rw [heq, abort_job, if_pos rfl, hmine] at hidle
            simp [hrunning] at hidle
          · rw [abort_job, if_neg heq, hother i heq] at hidle ⊢
            exact h.waiting i hi hidle
        · by_cases heq : i = j
          · rw [heq, abort_job, if_pos rfl]
          · rw [abort_job, if_neg heq, hother i heq] at hempty ⊢
            exact h.deserted i hi hempty
        · by_cases heq : i = j
          · rw [heq, abort_job, if_pos rfl, hmine]
            exact hrunning
          · rw [abort_job, if_neg heq, hother i heq]
            exact hfull hfree i hi
      | false =>
        have hj : j ∈ s.queue := h.toBase.mem_queue ⟨hissued, hjob, hlive⟩ hrunning
        have hgive : (s.without consumer).giveUp j = (s.without consumer).withdraw j := by
          rw [giveUp, if_neg (by rw [hmine]; simp [hrunning])]
          rfl
        have hpromise : ((s.without consumer).job j).promise = none := by
          rw [hmine]
          exact (h.waiting j hj hrunning).2.1
        have hwithdraw := hbase.withdraw hj (by rw [hmine]; exact hrunning) hempty hpromise
        rw [hgive]
        refine ⟨⟨hwithdraw, fun i hi hidle => ?_, fun i hi hempty => ?_⟩, fun hfree i hi => ?_⟩
        · have hi := hbase.nodup.mem_erase_iff.1 hi
          rw [withdraw_job_of_ne hi.1, hother i hi.1] at hidle ⊢
          exact h.waiting i hi.2 hidle
        · by_cases heq : i = j
          · rw [heq, withdraw_job hpromise]
          · rw [withdraw_job_of_ne heq, hother i heq] at hempty ⊢
            exact h.deserted i hi hempty
        · have hi := hbase.nodup.mem_erase_iff.1 hi
          rw [withdraw_job_of_ne hi.1, hother i hi.1]
          exact hfull hfree i hi.2
    · refine ⟨⟨hbase, fun i hi hidle => ?_, fun i hi hnone => ?_⟩, fun hfree i hi => ?_⟩
      · by_cases heq : i = j
        · subst heq
          refine ⟨hempty, ?_⟩
          rw [hmine] at hidle ⊢
          exact (h.waiting i hi hidle).2
        · rw [hother i heq] at hidle ⊢
          exact h.waiting i hi hidle
      · have hne : i ≠ j := fun heq => hempty (heq ▸ hnone)
        rw [hother i hne] at hnone ⊢
        exact h.deserted i hi hnone
      · by_cases heq : i = j
        · rw [heq, hmine]
          exact hfull hfree j (heq ▸ hi)
        · rw [hother i heq]
          exact hfull hfree i hi

/-! ### Scheduling -/

theorem holds_issue : (s.issue j).Holds consumer i ↔
    s.Holds consumer i ∨ consumer = s.leases ∧ i = j := by
  unfold Holds issue
  dsimp only
  rw [Function.update_apply]
  split_ifs with heq
  · subst heq
    constructor
    · rintro ⟨-, hjob, -⟩
      exact .inr ⟨rfl, hjob.symm⟩
    · rintro (⟨hlt, -⟩ | ⟨-, hjob⟩)
      · exact absurd hlt (lt_irrefl _)
      · exact ⟨Nat.lt_succ_self _, hjob.symm, rfl⟩
  · constructor
    · rintro ⟨hlt, hrest⟩
      exact .inl ⟨by omega, hrest⟩
    · rintro (⟨hlt, hrest⟩ | ⟨hconsumer, -⟩)
      · exact ⟨by omega, hrest⟩
      · exact absurd hconsumer heq

theorem leased_issue (h : Base s) (hj : j < s.order) (hconsumer : consumer < (s.issue j).leases) :
    ((s.issue j).lease consumer).job < s.order := by
  show (Function.update s.lease s.leases _ consumer).job < s.order
  rw [Function.update_apply]
  split_ifs with heq
  · exact hj
  · refine h.leased consumer ?_
    change consumer < s.leases + 1 at hconsumer
    omega

theorem notMem_consumers (h : Base s) (hj : j < s.order) : s.leases ∉ (s.job j).consumers :=
  fun hmem => absurd ((h.consumers j hj _).1 hmem).1 (lt_irrefl _)

theorem enqueue_job {key : Str} {priority : π} : (s.enqueue key priority).job i =
    if i = s.order then
      { key, priority, consumers := [s.leases], aborted := false, running := false,
        promise := none }
    else s.job i :=
  Function.update_apply _ _ _ _

section

variable [LinearOrder π] {key : Str} {priority : π}

theorem mem_sortQueue : i ∈ s.sortQueue.queue ↔ i ∈ s.queue :=
  (List.perm_insertionSort _ _).mem_iff

theorem Core.sortQueue (h : Core s) : Core s.sortQueue where
  nodup := (List.perm_insertionSort _ _).nodup_iff.2 h.nodup
  known := fun i hi => h.known i (mem_sortQueue.1 hi)
  registered := fun key i => by
    rw [mem_sortQueue]
    exact h.registered key i
  slots := h.slots.trans ((List.perm_insertionSort _ _).countP_eq _).symm
  bound := h.bound
  leased := h.leased
  distinct := h.distinct
  consumers := h.consumers
  gone := fun i hi hqueue => h.gone i hi fun hmem => hqueue (mem_sortQueue.2 hmem)
  waiting := fun i hi => h.waiting i (mem_sortQueue.1 hi)
  deserted := h.deserted

theorem Full.sortQueue (h : Full s) : Full s.sortQueue :=
  fun hfree i hi => h hfree i (mem_sortQueue.1 hi)

/-- The state in which a consumer has joined, before the queue is sorted. -/
def joined (s : TranslationScheduler π ν ε) (j : ℕ) (priority : π) : TranslationScheduler π ν ε :=
  (s.issue j).modify j fun job =>
    { job with
      consumers := job.consumers ++ [s.leases]
      priority := max job.priority priority }

theorem joined_job : (s.joined j priority).job i =
    if i = j then
      { s.job j with
        consumers := (s.job j).consumers ++ [s.leases]
        priority := max (s.job j).priority priority }
    else s.job i :=
  modify_job _

theorem Core.joined (h : Core s) (hj : j ∈ s.queue) : Core (s.joined j priority) := by
  have hknown := h.known j hj
  have hsame : ∀ i, ((s.joined j priority).job i).key = (s.job i).key ∧
      ((s.joined j priority).job i).running = (s.job i).running := by
    intro i
    rw [joined_job]
    split_ifs with heq
    · rw [heq]
      exact ⟨rfl, rfl⟩
    · exact ⟨rfl, rfl⟩
  refine
    { nodup := h.nodup, known := h.known, registered := ?_, slots := ?_, bound := h.bound,
      leased := fun _ => leased_issue h.toBase hknown, distinct := ?_, consumers := ?_,
      gone := ?_, waiting := ?_, deserted := ?_ }
  · intro key i
    rw [(hsame i).1]
    exact h.registered key i
  · have hheld : (s.joined j priority).held = s.held :=
      List.countP_congr fun i _ => by rw [(hsame i).2]
    rw [hheld]
    exact h.slots
  · intro i hi
    rw [joined_job]
    split_ifs with heq
    · subst heq
      exact (h.distinct i hi).append (List.nodup_singleton _)
        (List.disjoint_singleton.2 (notMem_consumers h.toBase hi))
    · exact h.distinct i hi
  · intro i hi consumer
    have hholds : (s.joined j priority).Holds consumer i ↔
      s.Holds consumer i ∨ consumer = s.leases ∧ i = j := holds_issue
    rw [hholds, joined_job]
    split_ifs with heq
    · subst heq
      rw [List.mem_append, h.consumers i hi, List.mem_singleton]
      simp
    · rw [h.consumers i hi]
      simp [heq]
  · intro i hi hqueue
    have hne : i ≠ j := fun heq => hqueue (heq ▸ hj)
    rw [joined_job, if_neg hne]
    exact h.gone i hi hqueue
  · intro i hi hidle
    rw [joined_job] at hidle ⊢
    split_ifs at hidle ⊢ with heq
    · subst heq
      exact ⟨by simp, (h.waiting i hi hidle).2⟩
    · exact h.waiting i hi hidle
  · intro i hi hempty
    rw [joined_job] at hempty ⊢
    split_ifs at hempty ⊢ with heq
    · simp at hempty
    · exact h.deserted i hi hempty

theorem Full.joined (h : Full s) : Full (s.joined j priority) := by
  intro hfree i hi
  rw [joined_job]
  split_ifs with heq
  · exact heq ▸ h hfree i hi
  · exact h hfree i hi

omit [LinearOrder π] in
theorem Core.enqueue (h : Core s) (hnew : s.jobs key = none) : Core (s.enqueue key priority) := by
  have hfresh : s.order ∉ s.queue := fun hmem => absurd (h.known _ hmem) (lt_irrefl _)
  have hold : ∀ i ∈ s.queue, (s.enqueue key priority).job i = s.job i := fun i hi => by
    rw [enqueue_job, if_neg (h.known i hi).ne]
  have hmem : ∀ i, i ∈ (s.enqueue key priority).queue ↔ i ∈ s.queue ∨ i = s.order := fun i => by
    show i ∈ s.queue ++ [s.order] ↔ _
    simp
  refine
    { nodup := ?_, known := ?_, registered := ?_, slots := ?_, bound := h.bound,
      leased := ?_, distinct := ?_, consumers := ?_, gone := ?_, waiting := ?_, deserted := ?_ }
  · exact h.nodup.append (List.nodup_singleton _) (List.disjoint_singleton.2 hfresh)
  · intro i hi
    show i < s.order + 1
    rcases (hmem i).1 hi with hi | rfl
    · exact Nat.lt_succ_of_lt (h.known i hi)
    · exact Nat.lt_succ_self _
  · intro key' i
    show Function.update s.jobs key (some s.order) key' = some i ↔ _
    rw [hmem, Function.update_apply, enqueue_job]
    by_cases hi : i = s.order
    · rw [if_pos hi]
      split_ifs with hkey
      · simp [hi, hkey]
      · have : s.jobs key' ≠ some i := fun heq => hfresh (hi ▸ ((h.registered _ _).1 heq).1)
        simp [this, Ne.symm hkey]
    · rw [if_neg hi]
      split_ifs with hkey
      · have : ¬ (i ∈ s.queue ∧ (s.job i).key = key') := fun hboth => by
          rw [← h.registered, hkey, hnew] at hboth
          cases hboth
        simp only [Option.some.injEq, hi, or_false, this, iff_false]
        exact fun heq => hi heq.symm
      · simp only [hi, or_false]
        exact h.registered key' i
  · have hcount : (s.enqueue key priority).held =
        (s.queue.countP fun i => ((s.enqueue key priority).job i).running) + 0 := by
      show (s.queue ++ [s.order]).countP _ = _
      rw [List.countP_append, List.countP_singleton, enqueue_job, if_pos rfl]
      rfl
    have hheld : (s.queue.countP fun i => ((s.enqueue key priority).job i).running) = s.held :=
      List.countP_congr fun i hi => by rw [hold i hi]
    rw [hcount, hheld, ← h.slots]
    rfl
  · intro consumer hconsumer
    show (Function.update s.lease s.leases _ consumer).job < s.order + 1
    rw [Function.update_apply]
    split_ifs with heq
    · exact Nat.lt_succ_self _
    · change consumer < s.leases + 1 at hconsumer
      exact Nat.lt_succ_of_lt (h.leased consumer (by omega))
  · intro i hi
    change i < s.order + 1 at hi
    rw [enqueue_job]
    split_ifs with heq
    · exact List.nodup_singleton _
    · exact h.distinct i (by omega)
  · intro i hi consumer
    change i < s.order + 1 at hi
    have hholds : (s.enqueue key priority).Holds consumer i ↔
      s.Holds consumer i ∨ consumer = s.leases ∧ i = s.order := holds_issue
    rw [hholds, enqueue_job]
    split_ifs with heq
    · have hnone : ¬ s.Holds consumer i := fun hholds => by
        have := h.leased consumer hholds.1
        rw [hholds.2.1] at this
        omega
      subst heq
      simp [hnone]
    · rw [h.consumers i (by omega)]
      simp [heq]
  · intro i hi hqueue
    change i < s.order + 1 at hi
    have hne : i ≠ s.order := fun heq => hqueue ((hmem i).2 (.inr heq))
    rw [enqueue_job, if_neg hne]
    exact h.gone i (by omega) fun hmem' => hqueue ((hmem i).2 (.inl hmem'))
  · intro i hi hidle
    rcases (hmem i).1 hi with hi | rfl
    · rw [hold i hi] at hidle ⊢
      exact h.waiting i hi hidle
    · rw [enqueue_job, if_pos rfl]
      exact ⟨by simp, rfl, rfl⟩
  · intro i hi hempty
    change i < s.order + 1 at hi
    rw [enqueue_job] at hempty ⊢
    split_ifs at hempty ⊢ with heq
    exact h.deserted i (by omega) hempty

theorem Core.schedule (h : Core s) (hfull : Full s) :
    Core (s.schedule key priority) ∧ Full (s.schedule key priority) := by
  unfold TranslationScheduler.schedule
  split
  · next j hjob =>
    exact ⟨(h.joined ((h.registered _ _).1 hjob).1).sortQueue, hfull.joined.sortQueue⟩
  · next hnew => exact (h.enqueue hnew).sortQueue.pump

end

/-! ### The end of a task -/

theorem settle_job {outcome : Outcome ν ε} : (s.settle j outcome).job i =
    if i = j then (s.job j).settle ((s.job j).settlement outcome) else s.job i :=
  modify_job _

theorem Core.settle (h : Core s) (hrunning : (s.job j).running = true)
    (hpromise : (s.job j).promise = none) (outcome : Outcome ν ε) : Core (s.settle j outcome) := by
  have hjob : (s.settle j outcome).job j =
      { s.job j with promise := some ⟨(s.job j).settlement outcome, (s.job j).aborted⟩ } := by
    rw [settle_job, if_pos rfl, TranslationJob.settle, hpromise]
  have hother : ∀ i ≠ j, (s.settle j outcome).job i = s.job i := fun i hi => by
    rw [settle_job, if_neg hi]
  have hsame : ∀ i, ((s.settle j outcome).job i).key = (s.job i).key ∧
      ((s.settle j outcome).job i).running = (s.job i).running ∧
      ((s.settle j outcome).job i).consumers = (s.job i).consumers := by
    intro i
    by_cases heq : i = j
    · rw [heq, hjob]
      exact ⟨rfl, rfl, rfl⟩
    · rw [hother i heq]
      exact ⟨rfl, rfl, rfl⟩
  refine
    { nodup := h.nodup, known := h.known, registered := ?_, slots := ?_, bound := h.bound,
      leased := h.leased, distinct := ?_, consumers := ?_, gone := ?_, waiting := ?_,
      deserted := ?_ }
  · intro key i
    rw [(hsame i).1]
    exact h.registered key i
  · have hheld : (s.settle j outcome).held = s.held :=
      List.countP_congr fun i _ => by rw [(hsame i).2.1]
    rw [hheld]
    exact h.slots
  · intro i hi
    rw [(hsame i).2.2]
    exact h.distinct i hi
  · intro i hi
    rw [(hsame i).2.2]
    exact h.consumers i hi
  · intro i hi hqueue
    by_cases heq : i = j
    · rw [heq, hjob]
      exact ⟨nofun, fun hidle => absurd (hrunning.symm.trans hidle) (by decide)⟩
    · rw [hother i heq]
      exact h.gone i hi hqueue
  · intro i hi hidle
    by_cases heq : i = j
    · rw [heq, (hsame j).2.1, hrunning] at hidle
      cases hidle
    · rw [hother i heq] at hidle ⊢
      exact h.waiting i hi hidle
  · intro i hi hempty
    by_cases heq : i = j
    · subst heq
      rw [hjob] at hempty ⊢
      exact h.deserted i hi hempty
    · rw [hother i heq] at hempty ⊢
      exact h.deserted i hi hempty

/-- The state that `finish` pumps. -/
def finished (s : TranslationScheduler π ν ε) (j : ℕ) : TranslationScheduler π ν ε :=
  ({ s with running := s.running - 1 }.unregister (s.job j).key).removeQueued j

theorem Core.finished (h : Core s) (hj : j ∈ s.queue) (hrunning : (s.job j).running = true)
    (hpromise : (s.job j).promise ≠ none) : Core (s.finished j) where
  nodup := h.nodup.erase j
  known := fun i hi => h.known i (List.mem_of_mem_erase hi)
  registered := registered_erase h.toBase hj
  slots := by
    show s.running - 1 = (s.queue.erase j).countP fun i => (s.job i).running
    rw [held_erase h.toBase hj fun _ _ => rfl, if_pos hrunning, h.slots]
  bound := (Nat.sub_le _ _).trans h.bound
  leased := h.leased
  distinct := h.distinct
  consumers := h.consumers
  gone := fun i hi hqueue => by
    by_cases heq : i = j
    · subst heq
      exact ⟨hpromise, fun hidle => absurd (hrunning.symm.trans hidle) (by decide)⟩
    · exact h.gone i hi fun hmem => hqueue (h.nodup.mem_erase_iff.2 ⟨heq, hmem⟩)
  waiting := fun i hi => h.waiting i (List.mem_of_mem_erase hi)
  deserted := h.deserted

end Awayuki.Translation.TranslationScheduler
