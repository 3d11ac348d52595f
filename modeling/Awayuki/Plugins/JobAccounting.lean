import Awayuki.Plugins.JobExecutor

/-!
# Plugins: what becomes of the jobs

A job that has been put in waits until it is started, and is started once; an interval waits again
when it has been called.

* `drain_cases`, `runClockJob_cases`: what the two loops of a turn do;
* `ledger`: where every job is;
* `Accounted`: every job is there once;
* `Accounted.step`: everything that may happen leaves it so.
-/

namespace Awayuki.Plugins

/-- The timers that have been taken out of `clock_jobs` by the turn. -/
def Phase.due : Phase → List ClockJob
  | .clock due => due
  | .callingClock _ due => due
  | _ => []

/-- The interval that is being called. -/
def Phase.interval : Phase → List ℕ
  | .callingClock job _ => if job.period.isSome then [job.id] else []
  | _ => []

namespace TurnJobExecutor

variable {s t : TurnJobExecutor} {due : List ClockJob} {job : ClockJob}

/-- The jobs that wait to be started. -/
def waiting (s : TurnJobExecutor) : List ℕ :=
  s.promiseJobs ++ s.asyncJobs ++ s.genericJobs ++ s.clockJobs.map (·.id) ++
    s.phase.due.map (·.id)

/-- Where every job is: it waits, or was started, or is the interval that is being called. -/
def ledger (s : TurnJobExecutor) : List ℕ := s.waiting ++ s.started ++ s.phase.interval

/-! ### What `drain_immediate_jobs` does -/

/-- A job is taken from its queue and called. -/
def Starts (s : TurnJobExecutor) (last : Bool) (job : ℕ) (next : Part) (t : TurnJobExecutor) :
    Prop :=
  ∃ promise async generic ran count,
    t = { s.begin with
      promiseJobs := promise
      asyncJobs := async
      genericJobs := generic
      asyncJobRan := ran
      turnAsyncJobs := count
      started := job :: s.started
      phase := .calling last next } ∧
    (job :: (promise ++ async ++ generic)).Perm
      (s.promiseJobs ++ s.asyncJobs ++ s.genericJobs) ∧ s.budget ≠ 0 ∧
    (ran = s.asyncJobRan ∧ count = s.turnAsyncJobs ∨
      s.asyncJobRan = false ∧ ran = true ∧ count = s.turnAsyncJobs + 1)

theorem drain_cases (s : TurnJobExecutor) (last progressed : Bool)
    (tripped : Option JobControlError) (part : Part) :
    (∃ part' progressed', s.drain last progressed tripped part =
      { s with phase := .drain last part' progressed' }) ∨
    s.drain last progressed tripped part = s.drained last ∨
    (∃ error, s.drain last progressed tripped part = (s.trip error).finish) ∨
    ∃ job next, Starts s last job next (s.drain last progressed tripped part) := by
  unfold TurnJobExecutor.drain
  cases part with
  | async =>
    dsimp only
    split_ifs with hbudget
    · exact .inr (.inl rfl)
    · split
      · exact .inr (.inr (.inl ⟨_, rfl⟩))
      · next job jobs hran hjobs =>
        refine .inr (.inr (.inr ⟨job, .promise, s.promiseJobs, jobs, s.genericJobs, true, _, rfl,
          ?_, hbudget, .inr ⟨hran, rfl, rfl⟩⟩))
        rw [hjobs, List.append_assoc, List.append_assoc, List.cons_append]
        exact List.perm_middle.symm
      · exact .inl ⟨_, _, rfl⟩
  | promise =>
    dsimp only
    split
    · exact .inr (.inr (.inl ⟨_, rfl⟩))
    · next job jobs hbudget hjobs =>
      refine .inr (.inr (.inr ⟨job, .generic, jobs, s.asyncJobs, s.genericJobs, _, _, rfl, ?_, ?_,
        .inl ⟨rfl, rfl⟩⟩))
      · rw [hjobs]
        exact .refl _
      · rw [hbudget]
        exact Nat.succ_ne_zero _
    · exact .inl ⟨_, _, rfl⟩
  | generic =>
    dsimp only
    split
    · exact .inr (.inr (.inl ⟨_, rfl⟩))
    · next job jobs hbudget hjobs =>
      refine .inr (.inr (.inr ⟨job, .async, s.promiseJobs, s.asyncJobs, jobs, _, _, rfl, ?_, ?_,
        .inl ⟨rfl, rfl⟩⟩))
      · rw [hjobs]
        exact List.perm_middle.symm
      · rw [hbudget]
        exact Nat.succ_ne_zero _
    · split_ifs
      · exact .inl ⟨_, _, rfl⟩
      · exact .inr (.inl rfl)

/-- What the loop over the timers that are due does with the first of them. -/
theorem runClockJob_cases (s : TurnJobExecutor) (tripped : Option JobControlError)
    (job : ClockJob) (due : List ClockJob) :
    s.Cancelled job ∧ s.runClockJob tripped (job :: due) = { s with phase := .clock due } ∨
    ¬ s.Cancelled job ∧ s.budget = 0 ∧
      s.runClockJob tripped (job :: due) =
        { s.restoreDueClockJobs (job :: due) with phase := .drain true .async false } ∨
    (¬ s.Cancelled job ∧ ∃ error, tripped = some error ∧ s.runClockJob tripped (job :: due) =
      ((s.trip error).restoreDueClockJobs (job :: due)).finish) ∨
    ¬ s.Cancelled job ∧ s.budget ≠ 0 ∧ tripped = none ∧ s.runClockJob tripped (job :: due) =
      { s.begin with
        started := if job.period.isSome then s.started else job.id :: s.started
        phase := .callingClock job due } := by
  by_cases hcancelled : s.Cancelled job
  · exact .inl ⟨hcancelled, if_pos hcancelled⟩
  · have hstep : s.runClockJob tripped (job :: due) = if s.budget = 0 then _ else _ :=
      if_neg hcancelled
    by_cases hbudget : s.budget = 0
    · exact .inr (.inl ⟨hcancelled, hbudget, hstep.trans (if_pos hbudget)⟩)
    · cases tripped with
      | some error => exact .inr (.inr (.inl ⟨hcancelled, error, rfl, hstep.trans (if_neg hbudget)⟩))
      | none => exact .inr (.inr (.inr ⟨hcancelled, hbudget, rfl, hstep.trans (if_neg hbudget)⟩))

/-! ### Every job is there once -/

structure Accounted (s : TurnJobExecutor) : Prop where
  once : ∀ id < s.nextId, id ∉ s.cancelled → id ∉ s.failed → s.ledger.count id = 1
  fresh : ∀ id, s.nextId ≤ id → s.ledger.count id = 0
  timers : ∀ job ∈ s.clockJobs ++ s.phase.due, job.period.isSome = true ↔ job.id ∈ s.intervals
  called : ∀ job due, s.phase = .callingClock job due →
    job.id < s.nextId ∧ (job.period.isSome = true ↔ job.id ∈ s.intervals)
  immediate : ∀ id ∈ s.promiseJobs ++ s.asyncJobs ++ s.genericJobs ++ s.started,
    id ∉ s.intervals
  known : ∀ id ∈ s.intervals, id < s.nextId
  failed : ∀ id ∈ s.failed, id ∈ s.intervals

theorem count_ledger (id : ℕ) : s.ledger.count id =
    s.promiseJobs.count id + s.asyncJobs.count id + s.genericJobs.count id +
      (s.clockJobs.map (·.id)).count id + (s.phase.due.map (·.id)).count id +
      s.started.count id + s.phase.interval.count id := by
  simp only [ledger, waiting, List.count_append]

/-- A step that moves jobs about, and loses none but those that are cancelled or fail. -/
theorem Accounted.move (h : Accounted s) (hnext : t.nextId = s.nextId)
    (hintervals : t.intervals = s.intervals) (hcancelled : s.cancelled ⊆ t.cancelled)
    (hfailed : s.failed ⊆ t.failed) (hfailed' : ∀ id ∈ t.failed, id ∈ s.intervals)
    (hledger : ∀ id, t.ledger.count id ≤ s.ledger.count id ∧
      (id ∉ t.cancelled → id ∉ t.failed → t.ledger.count id = s.ledger.count id))
    (htimers : ∀ job ∈ t.clockJobs ++ t.phase.due,
      job.period.isSome = true ↔ job.id ∈ s.intervals)
    (hcalled : ∀ job due, t.phase = .callingClock job due →
      job.id < s.nextId ∧ (job.period.isSome = true ↔ job.id ∈ s.intervals))
    (himmediate : ∀ id ∈ t.promiseJobs ++ t.asyncJobs ++ t.genericJobs ++ t.started,
      id ∉ s.intervals) : Accounted t where
  once id hid hc hf := by
    rw [(hledger id).2 hc hf]
    exact h.once id (hnext ▸ hid) (fun hmem => hc (hcancelled hmem)) fun hmem => hf (hfailed hmem)
  fresh id hid := by
    have hzero := h.fresh id (hnext ▸ hid)
    have hle := (hledger id).1
    omega
  timers := hintervals ▸ htimers
  called job due hphase := by
    rw [hnext, hintervals]
    exact hcalled job due hphase
  immediate := hintervals ▸ himmediate
  known id hid := by
    rw [hnext]
    exact h.known id (hintervals ▸ hid)
  failed id hid := hintervals ▸ hfailed' id hid

/-- No timer has been taken out, and none is called. -/
def Settled (phase : Phase) : Prop :=
  phase.due = [] ∧ phase.interval = [] ∧ ∀ job due, phase ≠ .callingClock job due

theorem settled_idle : Settled .idle := ⟨rfl, rfl, fun _ _ h => by cases h⟩

theorem settled_drain (last : Bool) (part : Part) (progressed : Bool) :
    Settled (.drain last part progressed) := ⟨rfl, rfl, fun _ _ h => by cases h⟩

theorem settled_readClock : Settled .readClock := ⟨rfl, rfl, fun _ _ h => by cases h⟩

theorem settled_calling (last : Bool) (next : Part) : Settled (.calling last next) :=
  ⟨rfl, rfl, fun _ _ h => by cases h⟩

/-- Between two such places of a turn everything stays where it is. -/
theorem Accounted.phase (h : Accounted s) (hs : Settled s.phase)
    (hnext : t.nextId = s.nextId) (hintervals : t.intervals = s.intervals)
    (hcancelled : t.cancelled = s.cancelled) (hfailed : t.failed = s.failed)
    (hqueues : t.promiseJobs = s.promiseJobs ∧ t.asyncJobs = s.asyncJobs ∧
      t.genericJobs = s.genericJobs ∧ t.clockJobs = s.clockJobs ∧ t.started = s.started)
    (ht : Settled t.phase) : Accounted t := by
  obtain ⟨hpromise, hasync, hgeneric, hclock, hstarted⟩ := hqueues
  refine h.move hnext hintervals (by rw [hcancelled]; exact List.Subset.refl _)
    (by rw [hfailed]; exact List.Subset.refl _) (by rw [hfailed]; exact h.failed) (fun id => ?_) ?_
    (fun job due hphase => absurd hphase (ht.2.2 job due)) ?_
  · have heq : t.ledger.count id = s.ledger.count id := by
      rw [count_ledger, count_ledger, hpromise, hasync, hgeneric, hclock, hstarted, hs.1, ht.1,
        hs.2.1, ht.2.1]
    exact ⟨heq.le, fun _ _ => heq⟩
  · rw [hclock, ht.1, ← hs.1]
    exact h.timers
  · rw [hpromise, hasync, hgeneric, hstarted]
    exact h.immediate

theorem count_filter_of_notMem {jobs : List ClockJob} {id : ℕ} (h : id ∉ s.cancelled) :
    ((jobs.filter fun job => ¬ s.Cancelled job).map (·.id)).count id =
      (jobs.map (·.id)).count id := by
  induction jobs with
  | nil => rfl
  | cons job jobs ih =>
    by_cases hjob : s.Cancelled job
    · have hne : job.id ≠ id := fun heq => h (heq ▸ hjob)
      rw [List.filter_cons_of_neg (by simpa using hjob), ih, List.map_cons,
        List.count_cons_of_ne hne]
    · rw [List.filter_cons_of_pos (by simpa using hjob), List.map_cons, List.map_cons,
        List.count_cons, List.count_cons, ih]

theorem Accounted.prune (h : Accounted s) : Accounted s.pruneCancelledClockJobs := by
  refine h.move rfl rfl (List.Subset.refl _) (List.Subset.refl _) h.failed (fun id => ?_) ?_
    h.called h.immediate
  · rw [count_ledger, count_ledger]
    simp only [pruneCancelledClockJobs]
    have hle : ((s.clockJobs.filter fun job => ¬ s.Cancelled job).map (·.id)).count id ≤
        (s.clockJobs.map (·.id)).count id := (List.filter_sublist.map _).count_le id
    refine ⟨by omega, fun hid _ => ?_⟩
    have hid' : id ∉ s.cancelled := hid
    rw [count_filter_of_notMem hid']
  · intro job hjob
    refine h.timers job ?_
    rcases List.mem_append.1 hjob with hjob | hjob
    · exact List.mem_append_left _ (List.mem_of_mem_filter hjob)
    · exact List.mem_append_right _ hjob

theorem Accounted.finish (h : Accounted s) (hs : Settled s.phase) : Accounted s.finish :=
  h.prune.phase hs rfl rfl rfl rfl ⟨rfl, rfl, rfl, rfl, rfl⟩ settled_idle

/-- The timers that had been taken out are back. -/
theorem Accounted.restore (h : Accounted s) (hinterval : s.phase.interval = []) {phase : Phase}
    (hphase : Settled phase) :
    Accounted { s.restoreDueClockJobs s.phase.due with phase } := by
  have hperm := @Agenda.perm_restore _ ClockJob.instant s.phase.due s.clockJobs
  refine h.move rfl rfl (List.Subset.refl _) (List.Subset.refl _) h.failed (fun id => ?_) ?_
    (fun job due heq => absurd heq (hphase.2.2 job due)) h.immediate
  · have heq : ((s.phase.due.foldl (fun jobs job => Agenda.put ClockJob.instant job jobs)
        s.clockJobs).map (·.id)).count id =
        (s.phase.due.map (·.id)).count id + (s.clockJobs.map (·.id)).count id := by
      rw [(hperm.map _).count_eq, List.map_append, List.count_append]
    rw [count_ledger, count_ledger, hinterval]
    simp only [restoreDueClockJobs, heq, hphase.1, hphase.2.1, List.map_nil, List.count_nil]
    exact ⟨by omega, fun _ _ => by omega⟩
  · intro job hjob
    rw [hphase.1, List.append_nil] at hjob
    refine h.timers job ?_
    have hmem := hperm.subset hjob
    rw [List.mem_append] at hmem ⊢
    exact hmem.symm

theorem Accounted.takeDue (h : Accounted s) (hs : Settled s.phase) (now : ℕ) :
    Accounted (s.takeDueClockJobs now) := by
  have hsplit := List.takeWhile_append_dropWhile
    (p := fun job : ClockJob => decide (job.instant ≤ now)) (l := s.clockJobs)
  refine h.move rfl rfl (List.Subset.refl _) (List.Subset.refl _) h.failed (fun id => ?_) ?_
    (fun job due heq => by cases heq) h.immediate
  · have hall : (s.clockJobs.map (·.id)).count id =
        ((s.clockJobs.takeWhile fun job => job.instant ≤ now).map (·.id)).count id +
          ((s.clockJobs.dropWhile fun job => job.instant ≤ now).map (·.id)).count id := by
      conv_lhs => rw [← hsplit]
      rw [List.map_append, List.count_append]
    rw [count_ledger, count_ledger, hall, hs.1, hs.2.1]
    simp only [takeDueClockJobs, Phase.due, Phase.interval, List.map_nil, List.count_nil]
    exact ⟨by omega, fun _ _ => by omega⟩
  · intro job hjob
    refine h.timers job ?_
    rw [hs.1, List.append_nil, ← hsplit]
    exact List.mem_append.2 (List.mem_append.1 hjob).symm

theorem Accounted.cancel (h : Accounted s) (id : ℕ) : Accounted (s.cancel id) :=
  h.move rfl rfl (List.subset_cons_self _ _) (List.Subset.refl _) h.failed
    (fun _ => ⟨le_rfl, fun _ _ => rfl⟩) h.timers h.called h.immediate

theorem count_push (job : ClockJob) (jobs : List ClockJob) (id : ℕ) :
    ((Agenda.put ClockJob.instant job jobs).map (·.id)).count id =
      [job.id].count id + (jobs.map (·.id)).count id := by
  rw [((Agenda.perm_put job jobs).map _).count_eq, List.map_cons, ← List.singleton_append,
    List.count_append]

theorem notMem_of_count {id : ℕ} (h : s.ledger.count id = 0) :
    (id ∉ s.promiseJobs ++ s.asyncJobs ++ s.genericJobs ++ s.started) ∧
      ∀ job ∈ s.clockJobs ++ s.phase.due, job.id ≠ id := by
  rw [List.count_eq_zero] at h
  simp only [ledger, waiting, List.mem_append, List.mem_map, not_or] at h
  obtain ⟨⟨⟨⟨⟨hpromise, hasync⟩, hgeneric⟩, hclock⟩, hdue⟩, hstarted⟩ := h.1
  refine ⟨?_, fun job hjob heq => ?_⟩
  · simp only [List.mem_append, not_or]
    exact ⟨⟨⟨hpromise, hasync⟩, hgeneric⟩, hstarted⟩
  · rcases List.mem_append.1 hjob with hjob | hjob
    · exact hclock ⟨job, hjob, heq⟩
    · exact hdue ⟨job, hjob, heq⟩

/-- A job is put in: it has a number of its own. -/
theorem Accounted.add (h : Accounted s) (interval : Bool) (hnext : t.nextId = s.nextId + 1)
    (hintervals : t.intervals = if interval then s.nextId :: s.intervals else s.intervals)
    (hcancelled : t.cancelled = s.cancelled) (hfailed : t.failed = s.failed)
    (hphase : t.phase = s.phase)
    (hledger : ∀ id, t.ledger.count id = s.ledger.count id + [s.nextId].count id)
    (htimers : ∀ job ∈ t.clockJobs, job ∈ s.clockJobs ∨
      job.id = s.nextId ∧ job.period.isSome = interval)
    (himmediate : ∀ id ∈ t.promiseJobs ++ t.asyncJobs ++ t.genericJobs ++ t.started,
      id ∈ s.promiseJobs ++ s.asyncJobs ++ s.genericJobs ++ s.started ∨
        id = s.nextId ∧ interval = false) : Accounted t := by
  obtain ⟨hnew, hnewTimer⟩ := notMem_of_count (h.fresh s.nextId le_rfl)
  have hbelow : s.nextId ∉ s.intervals := fun hmem => absurd (h.known _ hmem) (lt_irrefl _)
  have hmem : ∀ id, id ∈ t.intervals ↔ id ∈ s.intervals ∨ id = s.nextId ∧ interval = true := by
    intro id
    rw [hintervals]
    cases interval with
    | true => simp [or_comm]
    | false => simp
  have hold : ∀ id, id ≠ s.nextId → (id ∈ t.intervals ↔ id ∈ s.intervals) := by
    intro id hne
    rw [hmem]
    exact ⟨fun h => h.resolve_right fun hnew => hne hnew.1, .inl⟩
  refine
    { once := ?_, fresh := ?_, timers := ?_, called := ?_, immediate := ?_, known := ?_,
      failed := ?_ }
  · intro id hid hc hf
    rw [hledger]
    by_cases heq : id = s.nextId
    · rw [heq, h.fresh s.nextId le_rfl, List.count_singleton_self]
    · rw [h.once id (by omega) (hcancelled ▸ hc) (hfailed ▸ hf),
        List.count_singleton, if_neg (by simpa using Ne.symm heq)]
  · intro id hid
    rw [hledger, h.fresh id (by omega), List.count_singleton,
      if_neg (by simpa using (show s.nextId ≠ id by omega))]
  · intro job hjob
    rcases List.mem_append.1 hjob with hjob | hjob
    · rcases htimers job hjob with hjob | ⟨hid, hperiod⟩
      · have hjob := List.mem_append_left s.phase.due hjob
        rw [hold _ (hnewTimer job hjob)]
        exact h.timers job hjob
      · rw [hmem, hperiod, hid]
        simp [hbelow]
    · rw [hphase] at hjob
      have hjob := List.mem_append_right s.clockJobs hjob
      rw [hold _ (hnewTimer job hjob)]
      exact h.timers job hjob
  · intro job due hcalled
    rw [hphase] at hcalled
    obtain ⟨hid, hiff⟩ := h.called job due hcalled
    rw [hold _ hid.ne, hnext]
    exact ⟨Nat.lt_succ_of_lt hid, hiff⟩
  · intro id hid
    rcases himmediate id hid with hid | ⟨rfl, hinterval⟩
    · have hne : id ≠ s.nextId := by
        rintro rfl
        exact hnew hid
      rw [hold _ hne]
      exact h.immediate id hid
    · rw [hmem, hinterval]
      simp [hbelow]
  · intro id hid
    rw [hnext]
    rcases (hmem id).1 hid with hid | ⟨rfl, -⟩
    · exact Nat.lt_succ_of_lt (h.known id hid)
    · exact Nat.lt_succ_self _
  · intro id hid
    rw [hmem]
    exact .inl (h.failed id (hfailed ▸ hid))

theorem Accounted.enqueue (h : Accounted s) (job : Job) (now : ℕ) :
    Accounted (s.enqueueJob job now) := by
  have hsame : Accounted { s with now } :=
    h.move rfl rfl (List.Subset.refl _) (List.Subset.refl _) h.failed
      (fun _ => ⟨le_rfl, fun _ _ => rfl⟩) h.timers h.called h.immediate
  have hmem : ∀ job, job ∈ s.clockJobs → job ∈ s.clockJobs ∨
      job.id = s.nextId ∧ job.period.isSome = false := fun _ => .inl
  cases job with
  | promise =>
    refine h.add false rfl rfl rfl rfl rfl (fun id => ?_) hmem fun id hid => ?_
    · rw [count_ledger, count_ledger]
      simp only [TurnJobExecutor.enqueueJob, List.count_append]
      omega
    · change id ∈ (s.promiseJobs ++ [s.nextId]) ++ s.asyncJobs ++ s.genericJobs ++ s.started at hid
      simp only [List.mem_append, List.mem_singleton] at hid ⊢
      tauto
  | async =>
    refine h.add false rfl rfl rfl rfl rfl (fun id => ?_) hmem fun id hid => ?_
    · rw [count_ledger, count_ledger]
      simp only [TurnJobExecutor.enqueueJob, List.count_append]
      omega
    · change id ∈ s.promiseJobs ++ (s.asyncJobs ++ [s.nextId]) ++ s.genericJobs ++ s.started at hid
      simp only [List.mem_append, List.mem_singleton] at hid ⊢
      tauto
  | generic =>
    refine h.add false rfl rfl rfl rfl rfl (fun id => ?_) hmem fun id hid => ?_
    · rw [count_ledger, count_ledger]
      simp only [TurnJobExecutor.enqueueJob, List.count_append]
      omega
    · change id ∈ s.promiseJobs ++ s.asyncJobs ++ (s.genericJobs ++ [s.nextId]) ++ s.started at hid
      simp only [List.mem_append, List.mem_singleton] at hid ⊢
      tauto
  | timeout delay =>
    refine h.add false rfl rfl rfl rfl rfl (fun id => ?_) (fun job hjob => ?_) fun _ => .inl
    · rw [count_ledger, count_ledger]
      simp only [TurnJobExecutor.enqueueJob, arm, push, count_push]
      omega
    · rcases Agenda.mem_put.1 hjob with rfl | hjob
      · exact .inr ⟨rfl, rfl⟩
      · exact .inl hjob
  | interval period =>
    refine h.add true rfl rfl rfl rfl rfl (fun id => ?_) (fun job hjob => ?_) fun _ => .inl
    · rw [count_ledger, count_ledger]
      simp only [TurnJobExecutor.enqueueJob, arm, push, count_push]
      omega
    · rcases Agenda.mem_put.1 hjob with rfl | hjob
      · exact .inr ⟨rfl, rfl⟩
      · exact .inl hjob
  | finalizationRegistryCleanup => exact hsame

/-- A job of the immediate queues is started. -/
theorem Accounted.start (h : Accounted s) (hs : Settled s.phase) {job : ℕ}
    (hnext : t.nextId = s.nextId) (hintervals : t.intervals = s.intervals)
    (hcancelled : t.cancelled = s.cancelled) (hfailed : t.failed = s.failed)
    (hclock : t.clockJobs = s.clockJobs) (hstarted : t.started = job :: s.started)
    (hqueues : (job :: (t.promiseJobs ++ t.asyncJobs ++ t.genericJobs)).Perm
      (s.promiseJobs ++ s.asyncJobs ++ s.genericJobs))
    (ht : Settled t.phase) : Accounted t := by
  refine h.move hnext hintervals (by rw [hcancelled]; exact List.Subset.refl _)
    (by rw [hfailed]; exact List.Subset.refl _) (by rw [hfailed]; exact h.failed) (fun id => ?_) ?_
    (fun job due hphase => absurd hphase (ht.2.2 job due)) fun id hid => ?_
  · have hcount := hqueues.count_eq id
    rw [List.count_cons] at hcount
    simp only [List.count_append] at hcount
    have heq : t.ledger.count id = s.ledger.count id := by
      rw [count_ledger, count_ledger, hclock, hstarted, List.count_cons, hs.1, ht.1, hs.2.1,
        ht.2.1]
      omega
    exact ⟨heq.le, fun _ _ => heq⟩
  · rw [hclock, ht.1, ← hs.1]
    exact h.timers
  · refine h.immediate id ?_
    rw [hstarted] at hid
    have hmem : id ∈ job :: (t.promiseJobs ++ t.asyncJobs ++ t.genericJobs) ∨ id ∈ s.started := by
      rcases List.mem_append.1 hid with hid | hid
      · exact .inl (List.mem_cons_of_mem _ hid)
      · rcases List.mem_cons.1 hid with rfl | hid
        · exact .inl List.mem_cons_self
        · exact .inr hid
    rw [hqueues.mem_iff] at hmem
    exact List.mem_append.2 hmem

theorem Accounted.trip (h : Accounted s) (error : JobControlError) : Accounted (s.trip error) :=
  h.move rfl rfl (List.Subset.refl _) (List.Subset.refl _) h.failed
    (fun _ => ⟨le_rfl, fun _ _ => rfl⟩) h.timers h.called h.immediate

theorem Accounted.drained (h : Accounted s) (hs : Settled s.phase) (last : Bool) :
    Accounted (s.drained last) := by
  unfold TurnJobExecutor.drained
  split_ifs
  · exact h.finish hs
  · exact h.phase hs rfl rfl rfl rfl ⟨rfl, rfl, rfl, rfl, rfl⟩ settled_readClock

theorem Accounted.drain (h : Accounted s) (hs : Settled s.phase) (last progressed : Bool)
    (tripped : Option JobControlError) (part : Part) :
    Accounted (s.drain last progressed tripped part) := by
  rcases drain_cases s last progressed tripped part with
    ⟨part', progressed', ht⟩ | ht | ⟨error, ht⟩ | ⟨job, next, hstarts⟩
  · rw [ht]
    exact h.phase hs rfl rfl rfl rfl ⟨rfl, rfl, rfl, rfl, rfl⟩ (settled_drain _ _ _)
  · rw [ht]
    exact h.drained hs last
  · rw [ht]
    exact (h.trip error).finish hs
  · obtain ⟨promise, async, generic, ran, count, ht, hperm, -, -⟩ := hstarts
    rw [ht]
    exact h.start hs rfl rfl rfl rfl rfl rfl hperm (settled_calling _ _)

theorem Accounted.restoreClock (h : Accounted s) (hphase : s.phase = .clock due) {phase : Phase}
    (hsettled : Settled phase) : Accounted { s.restoreDueClockJobs due with phase } := by
  have hrestored := h.restore (by rw [hphase]; rfl) hsettled
  rw [hphase] at hrestored
  exact hrestored

theorem Accounted.restoreFinish (h : Accounted s) (hphase : s.phase = .clock due) :
    Accounted (s.restoreDueClockJobs due).finish :=
  (h.restoreClock hphase settled_idle).finish settled_idle

/-- A timer that is cancelled is passed over. -/
theorem Accounted.skip (h : Accounted s) (hphase : s.phase = .clock (job :: due))
    (hcancelled : s.Cancelled job) : Accounted { s with phase := .clock due } := by
  refine h.move rfl rfl (List.Subset.refl _) (List.Subset.refl _) h.failed (fun id => ?_) ?_
    (fun _ _ heq => by cases heq) h.immediate
  · rw [count_ledger, count_ledger, hphase]
    simp only [Phase.due, Phase.interval, List.map_cons, List.count_cons, beq_iff_eq]
    refine ⟨by omega, fun hid _ => ?_⟩
    have hne : job.id ≠ id := fun heq => hid (heq ▸ hcancelled)
    rw [if_neg hne]
    omega
  · intro other hother
    refine h.timers other ?_
    rw [hphase]
    rcases List.mem_append.1 hother with hother | hother
    · exact List.mem_append_left _ hother
    · exact List.mem_append_right _ (List.mem_cons_of_mem _ hother)

/-- A timer is called: a timeout has been started, an interval is accounted for by its call. -/
theorem Accounted.call (h : Accounted s) (hphase : s.phase = .clock (job :: due)) :
    Accounted { s.begin with
      started := if job.period.isSome then s.started else job.id :: s.started
      phase := .callingClock job due } := by
  have hmem : job ∈ s.clockJobs ++ s.phase.due := by
    rw [hphase]
    exact List.mem_append_right _ List.mem_cons_self
  refine h.move rfl rfl (List.Subset.refl _) (List.Subset.refl _) h.failed (fun id => ?_) ?_
    ?_ fun id hid => ?_
  · have heq : ({ s.begin with
        started := if job.period.isSome then s.started else job.id :: s.started
        phase := .callingClock job due } : TurnJobExecutor).ledger.count id =
        s.ledger.count id := by
      rw [count_ledger, count_ledger, hphase]
      simp only [begin, Phase.due, Phase.interval, List.map_cons, List.count_cons]
      cases job.period.isSome with
      | true =>
        simp only [if_true, List.count_cons, List.count_nil]
        omega
      | false =>
        simp only [Bool.false_eq_true, if_false, List.count_cons, List.count_nil]
        omega
    exact ⟨heq.le, fun _ _ => heq⟩
  · intro other hother
    refine h.timers other ?_
    rw [hphase]
    rcases List.mem_append.1 hother with hother | hother
    · exact List.mem_append_left _ hother
    · exact List.mem_append_right _ (List.mem_cons_of_mem _ hother)
  · intro other rest heq
    cases heq
    refine ⟨?_, h.timers job hmem⟩
    by_contra hlt
    exact (notMem_of_count (h.fresh job.id (not_lt.1 hlt))).2 job hmem rfl
  · by_cases hperiod : job.period.isSome = true
    · refine h.immediate id ?_
      rw [if_pos hperiod] at hid
      exact hid
    · rw [if_neg hperiod] at hid
      rcases List.mem_append.1 hid with hid | hid
      · exact h.immediate id (List.mem_append_left _ hid)
      · rcases List.mem_cons.1 hid with rfl | hid
        · exact fun hinterval => hperiod ((h.timers job hmem).2 hinterval)
        · exact h.immediate id (List.mem_append_right _ hid)

theorem Accounted.clock (h : Accounted s) (hphase : s.phase = .clock due)
    (tripped : Option JobControlError) : Accounted (s.runClockJob tripped due) := by
  cases due with
  | nil =>
    have hsettled : Settled s.phase := by
      rw [hphase]
      exact ⟨rfl, rfl, fun _ _ heq => by cases heq⟩
    exact h.phase hsettled rfl rfl rfl rfl ⟨rfl, rfl, rfl, rfl, rfl⟩ (settled_drain _ _ _)
  | cons job due =>
    rcases runClockJob_cases s tripped job due with
      ⟨hcancelled, ht⟩ | ⟨-, -, ht⟩ | ⟨-, error, -, ht⟩ | ⟨-, -, -, ht⟩
    · rw [ht]
      exact h.skip hphase hcancelled
    · rw [ht]
      exact h.restoreClock hphase (settled_drain _ _ _)
    · rw [ht]
      exact (h.trip error).restoreFinish hphase
    · rw [ht]
      exact h.call hphase

/-- A timer has come back, and is in the queue again if it is an interval that is to go on. -/
theorem Accounted.comeBack (h : Accounted s) (hphase : s.phase = .callingClock job due)
    (hnext : t.nextId = s.nextId) (hintervals : t.intervals = s.intervals)
    (hcancelled : t.cancelled = s.cancelled) (hfailed : s.failed ⊆ t.failed)
    (hfailed' : ∀ id ∈ t.failed, id ∈ s.intervals)
    (hqueues : t.promiseJobs = s.promiseJobs ∧ t.asyncJobs = s.asyncJobs ∧
      t.genericJobs = s.genericJobs ∧ t.started = s.started) (ht : t.phase = .clock due)
    (hclock : t.clockJobs = s.clockJobs ∧
        (job.period.isSome = true → job.id ∈ t.cancelled ∨ job.id ∈ t.failed) ∨
      job.period.isSome = true ∧ ∃ instant period seq, t.clockJobs =
        Agenda.put ClockJob.instant ⟨job.id, instant, some period, seq⟩ s.clockJobs) :
    Accounted t := by
  obtain ⟨hpromise, hasync, hgeneric, hstarted⟩ := hqueues
  refine h.move hnext hintervals (by rw [hcancelled]; exact List.Subset.refl _) hfailed hfailed'
    (fun id => ?_) (fun other hother => ?_) (fun _ _ heq => by rw [ht] at heq; cases heq) ?_
  · have hdue : (t.phase.due.map (·.id)).count id = (s.phase.due.map (·.id)).count id := by
      rw [ht, hphase]
      rfl
    have hnone : t.phase.interval = [] := by
      rw [ht]
      rfl
    have hcalled : s.phase.interval = if job.period.isSome then [job.id] else [] := by
      rw [hphase]
      rfl
    rw [count_ledger, count_ledger, hpromise, hasync, hgeneric, hstarted, hdue, hnone, hcalled]
    rcases hclock with ⟨hclock, hlost⟩ | ⟨hperiod, instant, period, seq, hclock⟩
    · rw [hclock]
      refine ⟨by simp, fun hc hf => ?_⟩
      by_cases hperiod : job.period.isSome = true
      · have hne : job.id ≠ id := by
          rintro rfl
          exact (hlost hperiod).elim hc hf
        rw [if_pos hperiod, List.count_singleton, if_neg (by simpa using hne)]
        rfl
      · rw [if_neg hperiod]
    · rw [hclock, count_push, if_pos hperiod]
      dsimp only
      rw [List.count_nil]
      exact ⟨by omega, fun _ _ => by omega⟩
  · rw [ht] at hother
    have hold : other ∈ s.clockJobs ∨ other ∈ due →
        (other.period.isSome = true ↔ other.id ∈ s.intervals) := by
      intro hmem
      refine h.timers other ?_
      rw [hphase]
      exact List.mem_append.2 hmem
    rcases List.mem_append.1 hother with hother | hother
    · rcases hclock with ⟨hclock, -⟩ | ⟨hperiod, instant, period, seq, hclock⟩
      · exact hold (.inl (hclock ▸ hother))
      · rw [hclock] at hother
        rcases Agenda.mem_put.1 hother with rfl | hother
        · exact iff_of_true rfl ((h.called job due hphase).2.1 hperiod)
        · exact hold (.inl hother)
    · exact hold (.inr hother)
  · rw [hpromise, hasync, hgeneric, hstarted]
    exact h.immediate

theorem Accounted.clockReturned (h : Accounted s) (hphase : s.phase = .callingClock job due)
    (ok : Bool) (now : ℕ) : Accounted (s.clockReturned job due ok now) := by
  unfold TurnJobExecutor.clockReturned
  dsimp only
  split
  · next hperiod =>
    exact h.comeBack hphase rfl rfl rfl (List.Subset.refl _) h.failed ⟨rfl, rfl, rfl, rfl⟩ rfl
      (.inl ⟨rfl, fun hsome => by simp [hperiod] at hsome⟩)
  · next period hperiod =>
    split_ifs with hcancelled
    · exact h.comeBack hphase rfl rfl rfl (List.Subset.refl _) h.failed ⟨rfl, rfl, rfl, rfl⟩ rfl
        (.inl ⟨rfl, fun _ => .inl hcancelled⟩)
    · exact h.comeBack hphase rfl rfl rfl (List.Subset.refl _) h.failed ⟨rfl, rfl, rfl, rfl⟩ rfl
        (.inr ⟨by simp [hperiod], _, _, _, rfl⟩)
  · next hperiod =>
    have hback : Accounted { s with
        completedJobs := s.completedJobs + 1, now, phase := .clock due } :=
      h.comeBack hphase rfl rfl rfl (List.Subset.refl _) h.failed ⟨rfl, rfl, rfl, rfl⟩ rfl
        (.inl ⟨rfl, fun hsome => by simp [hperiod] at hsome⟩)
    exact hback.restoreFinish rfl
  · next period hperiod =>
    have hinterval : job.id ∈ s.intervals :=
      (h.called job due hphase).2.1 (by simp [hperiod])
    have hback : Accounted { s with
        completedJobs := s.completedJobs + 1, now, phase := .clock due
        failed := job.id :: s.failed } := by
      refine h.comeBack hphase rfl rfl rfl (List.subset_cons_self _ _) (fun id hid => ?_)
        ⟨rfl, rfl, rfl, rfl⟩ rfl (.inl ⟨rfl, fun _ => .inr List.mem_cons_self⟩)
      rcases List.mem_cons.1 hid with rfl | hid
      · exact hinterval
      · exact h.failed id hid
    exact hback.restoreFinish rfl

theorem Accounted.step (h : Accounted s) {label : Label} (hstep : s.step label = some t) :
    Accounted t := by
  cases label with
  | enqueue job now =>
    obtain ⟨-, hstep⟩ := Option.ite_none_right_eq_some.1 hstep
    cases hstep
    exact h.enqueue job now
  | cancel id =>
    obtain ⟨-, hstep⟩ := Option.ite_none_right_eq_some.1 hstep
    cases hstep
    exact h.cancel id
  | runJobs tripped =>
    unfold TurnJobExecutor.step at hstep
    dsimp only at hstep
    split at hstep
    · next hphase =>
      cases hstep
      have hsettled : Settled s.phase := hphase ▸ settled_idle
      have hreset : Accounted { s.pruneCancelledClockJobs with
          budget := MAX_JOBS_PER_TURN, asyncJobRan := false, turnJobs := 0, turnAsyncJobs := 0 } :=
        h.prune.phase hsettled rfl rfl rfl rfl ⟨rfl, rfl, rfl, rfl, rfl⟩ hsettled
      cases tripped with
      | some error => exact (hreset.trip error).finish hsettled
      | none =>
        exact hreset.phase hsettled rfl rfl rfl rfl ⟨rfl, rfl, rfl, rfl, rfl⟩ (settled_drain _ _ _)
    · cases hstep
  | drain tripped =>
    unfold TurnJobExecutor.step at hstep
    dsimp only at hstep
    split at hstep
    · next last part progressed hphase =>
      cases hstep
      exact h.drain (hphase ▸ settled_drain _ _ _) last progressed tripped part
    · cases hstep
  | readClock now =>
    unfold TurnJobExecutor.step at hstep
    dsimp only at hstep
    split at hstep
    · next hphase =>
      obtain ⟨-, hstep⟩ := Option.ite_none_right_eq_some.1 hstep
      cases hstep
      exact h.takeDue (hphase ▸ settled_readClock) now
    · cases hstep
  | clock tripped =>
    unfold TurnJobExecutor.step at hstep
    dsimp only at hstep
    split at hstep
    · next due hphase =>
      cases hstep
      exact h.clock hphase tripped
    · cases hstep
  | returned ok now =>
    unfold TurnJobExecutor.step at hstep
    dsimp only at hstep
    split at hstep
    · next last next' hphase =>
      cases hstep
      have hsettled : Settled s.phase := hphase ▸ settled_calling _ _
      have hsame : Accounted { s with completedJobs := s.completedJobs + 1 } :=
        h.phase hsettled rfl rfl rfl rfl ⟨rfl, rfl, rfl, rfl, rfl⟩ hsettled
      unfold TurnJobExecutor.returned
      dsimp only
      split_ifs
      · exact hsame.phase hsettled rfl rfl rfl rfl ⟨rfl, rfl, rfl, rfl, rfl⟩ (settled_drain _ _ _)
      · exact hsame.finish hsettled
    · next job due hphase =>
      obtain ⟨-, hstep⟩ := Option.ite_none_right_eq_some.1 hstep
      cases hstep
      exact h.clockReturned hphase ok now
    · cases hstep

end TurnJobExecutor

end Awayuki.Plugins
