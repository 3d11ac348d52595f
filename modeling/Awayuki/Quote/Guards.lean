import Awayuki.Quote.Registry
import Awayuki.Library.Runs

/-!
# Background quotes: guards

The registry together with the guards of the tasks that were spawned.  A guard is made with its job
and dropped with its task, whenever that ends; in between the job may have been cancelled and
registered again.

* `State`, `Event`, `step`: schedules, cancellations and drops, in any order;
* `nthGeneration`: the generation of the n-th registration, which wraps around in 64 bits;
* `registry_consistent`: what holds of every reachable state;
* `not_older_guard_keeps`: a guard that is a whole turn of the counter older removes a newer job.
-/

namespace Awayuki.Quote

open Runs

variable {events : List Event}

/-- `serial` tells the registrations apart. -/
structure BackgroundQuoteGuard where
  key : Str
  generation : ℕ
  serial : ℕ
  deriving DecidableEq, Repr

/-- `BackgroundQuoteGuard::drop`. -/
def BackgroundQuoteGuard.drop (guard : BackgroundQuoteGuard) (r : BackgroundQuoteRegistry) :
    BackgroundQuoteRegistry :=
  (r.removeJob guard.key (some guard.generation)).2

/-- `registrations` counts the registrations, `serial` has the last one of a key. -/
structure State where
  registry : BackgroundQuoteRegistry
  guards : List BackgroundQuoteGuard
  registrations : ℕ
  serial : Str → ℕ

def State.start : State := ⟨.default, [], 0, fun _ => 0⟩

inductive Event
  | schedule (now : ℕ) (serverDomain sourceAcct candidateKey : Str) (owner : BackgroundQuoteOwner)
  | attach (key : Str) (generation task : ℕ)
  | cancelOwner (owner : BackgroundQuoteOwner)
  | cancelSource (sourceAccount : Str × Str)
  | cancelAll
  | giveUp (key : Str) (deadline : ℕ)
  | drop (guard : BackgroundQuoteGuard)

/-- What happens to the registry and the guards; a guard is dropped only once. -/
def step (s : State) : Event → Option State
  | .schedule now serverDomain sourceAcct candidateKey owner =>
    match s.registry.schedule now serverDomain sourceAcct candidateKey owner with
    | (none, registry) => some { s with registry }
    | (some generation, registry) =>
      let key := BackgroundQuoteRegistry.jobKey serverDomain sourceAcct candidateKey
      some {
        registry
        guards := ⟨key, generation, s.registrations + 1⟩ :: s.guards
        registrations := s.registrations + 1
        serial := Function.update s.serial key (s.registrations + 1) }
  | .attach key generation task =>
    some { s with registry := (s.registry.attach key generation task).2 }
  | .cancelOwner owner => some { s with registry := (s.registry.cancelOwner owner).2 }
  | .cancelSource sourceAccount =>
    some { s with registry := (s.registry.cancelSource sourceAccount).2 }
  | .cancelAll => some { s with registry := s.registry.cancelAll.2 }
  | .giveUp key deadline => some { s with registry := s.registry.giveUp key deadline }
  | .drop guard =>
    if guard ∈ s.guards then
      some { s with registry := guard.drop s.registry, guards := s.guards.erase guard }
    else none

abbrev Reaches (events : List Event) (s : State) : Prop :=
  Run (fun s event t => step s event = some t) .start events s

/-! ### Generations -/

/-- The generation of the n-th registration; the first has number 1. -/
def nthGeneration (n : ℕ) : ℕ :=
  if n = 0 then 0 else (n - 1) % (2 ^ 64 - 1) + 1

theorem nthGeneration_succ (n : ℕ) :
    nthGeneration (n + 1) = BackgroundQuoteRegistry.followingGeneration (nthGeneration n) := by
  unfold nthGeneration BackgroundQuoteRegistry.followingGeneration
  cases n with
  | zero => decide
  | succ n =>
    simp only [Nat.succ_ne_zero, if_false, Nat.add_sub_cancel]
    have hlt : n % (2 ^ 64 - 1) < 2 ^ 64 - 1 := Nat.mod_lt _ (by decide)
    have hnext : (n + 1) % (2 ^ 64 - 1) = (n % (2 ^ 64 - 1) + 1) % (2 ^ 64 - 1) := by
      rw [Nat.add_mod, Nat.mod_eq_of_lt (show 1 < 2 ^ 64 - 1 by decide)]
    rw [hnext]
    generalize n % (2 ^ 64 - 1) = g at hlt
    omega

/-- Less than a turn apart, generations differ. -/
theorem nthGeneration_ne {m n : ℕ} (hpos : 0 < m) (hlt : m < n) (hturn : n - m < 2 ^ 64 - 1) :
    nthGeneration m ≠ nthGeneration n := by
  unfold nthGeneration
  rw [if_neg (by omega), if_neg (by omega)]
  omega

/-! ### What stays of the jobs -/

namespace BackgroundQuoteRegistry

/-- No generation is given out, no key is given up, and every job was there before. -/
structure Keeps (r r' : BackgroundQuoteRegistry) : Prop where
  counter : r'.nextGeneration = r.nextGeneration
  negative : ∀ key, r.negativeUntil key = none → r'.negativeUntil key = none
  jobs : ∀ key job', r'.jobs.lookup key = some job' →
    ∃ job, r.jobs.lookup key = some job ∧ job.generation = job'.generation

variable {r r' r'' : BackgroundQuoteRegistry}

theorem Keeps.refl (r : BackgroundQuoteRegistry) : r.Keeps r :=
  ⟨rfl, fun _ => id, fun _ job h => ⟨job, h, rfl⟩⟩

theorem Keeps.trans (h : r.Keeps r') (h' : r'.Keeps r'') : r.Keeps r'' := by
  refine ⟨h'.counter.trans h.counter, fun key hkey => h'.negative key (h.negative key hkey),
    fun key job'' hjob'' => ?_⟩
  obtain ⟨job', hjob', heq'⟩ := h'.jobs key job'' hjob''
  obtain ⟨job, hjob, heq⟩ := h.jobs key job' hjob'
  exact ⟨job, hjob, heq.trans heq'⟩

/-- Functions that keep the jobs keep them one after another. -/
theorem Keeps.foldl {α : Type} {f : BackgroundQuoteRegistry → α → BackgroundQuoteRegistry}
    (hf : ∀ (r : BackgroundQuoteRegistry) a, r.Keeps (f r a)) (l : List α)
    (r : BackgroundQuoteRegistry) : r.Keeps (l.foldl f r) := by
  induction l generalizing r with
  | nil => exact .refl r
  | cons a l ih => exact (hf r a).trans (ih _)

/-- A job may be replaced by one of its generation. -/
theorem keeps_insert {key : Str} {job : BackgroundQuoteJob} (job' : BackgroundQuoteJob)
    (h : r.jobs.lookup key = some job) (heq : job.generation = job'.generation) :
    r.Keeps { r with jobs := r.jobs.insert key job' } := by
  refine ⟨rfl, fun _ => id, fun k job'' hk => ?_⟩
  rcases lookup_insert_eq_some.1 hk with ⟨rfl, rfl⟩ | ⟨-, hk⟩
  · exact ⟨job, h, heq⟩
  · exact ⟨job'', hk, rfl⟩

theorem keeps_mapOwnerJobs (owner : BackgroundQuoteOwner)
    (f : ∀ {κ : Type} [DecidableEq κ], Buckets κ Str → κ → Buckets κ Str) :
    r.Keeps (r.mapOwnerJobs owner f) := by
  cases owner <;> exact ⟨rfl, fun _ => id, fun _ job h => ⟨job, h, rfl⟩⟩

theorem keeps_registerOwner (key : Str) (owner : BackgroundQuoteOwner) :
    r.Keeps (r.registerOwner key owner) := by
  unfold registerOwner
  split
  · exact .refl r
  · next job hjob =>
    split_ifs
    · exact .refl r
    · exact (keeps_insert { job with owners := job.owners ++ [owner] } hjob rfl).trans
        (keeps_mapOwnerJobs owner _)

theorem keeps_removeJob (key : Str) (generation : Option ℕ) :
    r.Keeps (r.removeJob key generation).2 := by
  have hnone : r.Keeps (r.removeJob key none).2 := by
    cases hjob : r.jobs.lookup key with
    | none => simpa [removeJob, hjob] using Keeps.refl r
    | some job =>
      have herase : r.Keeps { r with
          jobs := r.jobs.erase key, sourceJobs := r.sourceJobs.remove job.sourceAccount key } :=
        ⟨rfl, fun _ => id, fun _ job' h => ⟨job', (lookup_erase_eq_some.1 h).2, rfl⟩⟩
      have howners := herase.trans <| .foldl (fun r owner => keeps_mapOwnerJobs owner
        fun jobs k => jobs.remove k key) job.owners _
      simp only [removeJob, hjob, Option.any_none, Bool.false_eq_true, if_false]
      exact ⟨howners.counter, howners.negative, howners.jobs⟩
  cases generation with
  | none => exact hnone
  | some generation =>
    by_cases h : (r.jobs.lookup key).map (·.generation) = some generation
    · rwa [removeJob_generation_eq h]
    · rw [removeJob_generation_ne h]
      exact .refl r

theorem keeps_removeJobs (keys : List Str) : r.Keeps (r.removeJobs keys) :=
  .foldl (fun _ key => keeps_removeJob key none) keys r

theorem keeps_attach (key : Str) (generation task : ℕ) :
    r.Keeps (r.attach key generation task).2 := by
  unfold attach
  split
  · exact .refl r
  · next job hjob =>
    split_ifs
    · exact keeps_insert { job with abortHandle := some task } hjob rfl
    · exact .refl r

theorem keeps_releaseJob (owner : BackgroundQuoteOwner) (key : Str) :
    r.Keeps (releaseJob owner r key) := by
  unfold releaseJob
  split
  · exact .refl r
  · next job hjob =>
    have hreleased := keeps_insert
      { job with owners := job.owners.filter (· ≠ owner) } hjob rfl
    dsimp only
    split_ifs
    · exact hreleased.trans (keeps_removeJob key none)
    · exact hreleased

theorem keeps_cancelOwner (owner : BackgroundQuoteOwner) : r.Keeps (r.cancelOwner owner).2 :=
  (keeps_mapOwnerJobs owner _).trans (.foldl (fun _ key => keeps_releaseJob owner key) _ _)

theorem keeps_cancelSource (account : Str × Str) : r.Keeps (r.cancelSource account).2 := by
  have hindex : r.Keeps { r with sourceJobs := r.sourceJobs.erase account } :=
    ⟨rfl, fun _ => id, fun _ job h => ⟨job, h, rfl⟩⟩
  exact hindex.trans (keeps_removeJobs (r.sourceJobs.get account))

/-- A schedule that registers no job. -/
theorem keeps_schedule (r : BackgroundQuoteRegistry) (now : ℕ)
    (serverDomain sourceAcct candidateKey : Str) (owner : BackgroundQuoteOwner)
    (h : (r.schedule now serverDomain sourceAcct candidateKey owner).1 = none) :
    r.Keeps (r.schedule now serverDomain sourceAcct candidateKey owner).2 := by
  have hfilter : r.Keeps
      { r with negativeUntil := fun k => (r.negativeUntil k).filter (now < ·) } :=
    ⟨rfl, fun _ hk => by simp [hk], fun _ job h => ⟨job, h, rfl⟩⟩
  unfold schedule at h ⊢
  dsimp only at h ⊢
  split_ifs at h ⊢
  · exact hfilter
  · exact hfilter.trans (keeps_registerOwner _ _)
  · exact hfilter

/-- A schedule that registers a job gives it the following generation. -/
theorem schedule_some (r : BackgroundQuoteRegistry) (now : ℕ)
    (serverDomain sourceAcct candidateKey : Str) (owner : BackgroundQuoteOwner) {generation : ℕ}
    (h : (r.schedule now serverDomain sourceAcct candidateKey owner).1 = some generation) :
    let r' := (r.schedule now serverDomain sourceAcct candidateKey owner).2
    generation = followingGeneration r.nextGeneration ∧ r'.nextGeneration = generation ∧
      (∀ key, r.negativeUntil key = none → r'.negativeUntil key = none) ∧
      ∀ key job', r'.jobs.lookup key = some job' →
        key = jobKey serverDomain sourceAcct candidateKey ∧ job'.generation = generation ∨
        key ≠ jobKey serverDomain sourceAcct candidateKey ∧
          ∃ job, r.jobs.lookup key = some job ∧ job.generation = job'.generation := by
  unfold schedule at h ⊢
  dsimp only at h ⊢
  split_ifs at h ⊢
  obtain rfl := Option.some.inj h
  have hkeeps := keeps_registerOwner (r := { r with
    negativeUntil := fun k => (r.negativeUntil k).filter (now < ·)
    nextGeneration := followingGeneration r.nextGeneration
    jobs := r.jobs.insert (jobKey serverDomain sourceAcct candidateKey)
      ⟨followingGeneration r.nextGeneration, (serverDomain, sourceAcct), [], none⟩
    sourceJobs := r.sourceJobs.insert (serverDomain, sourceAcct)
      (jobKey serverDomain sourceAcct candidateKey) })
    (jobKey serverDomain sourceAcct candidateKey) owner
  refine ⟨rfl, hkeeps.counter, fun key hkey => hkeeps.negative key (by simp [hkey]),
    fun key job' hjob' => ?_⟩
  obtain ⟨job, hjob, heq⟩ := hkeeps.jobs key job' hjob'
  rcases lookup_insert_eq_some.1 hjob with ⟨hkey, rfl⟩ | ⟨hkey, hjob⟩
  · exact .inl ⟨hkey, heq.symm⟩
  · exact .inr ⟨hkey, job, hjob, heq⟩

end BackgroundQuoteRegistry

/-! ### Reachable states -/

/-- Guards and jobs have the generations of their registrations. -/
structure Inv (s : State) : Prop where
  consistent : s.registry.Consistent
  counter : s.registry.nextGeneration = nthGeneration s.registrations
  guards : ∀ guard ∈ s.guards, 0 < guard.serial ∧ guard.generation = nthGeneration guard.serial
  jobs : ∀ key job, s.registry.jobs.lookup key = some job →
    job.generation = nthGeneration (s.serial key)

variable {s : State}

/-- What only removes guards and keeps the jobs keeps the invariant. -/
theorem Inv.keeps (h : Inv s) {registry : BackgroundQuoteRegistry}
    (hconsistent : registry.Consistent) (hkeeps : s.registry.Keeps registry)
    {guards : List BackgroundQuoteGuard} (hguards : guards ⊆ s.guards) :
    Inv { s with registry, guards } := by
  refine ⟨hconsistent, hkeeps.counter.trans h.counter, fun guard hguard =>
    h.guards guard (hguards hguard), fun key job hjob => ?_⟩
  obtain ⟨job', hjob', heq⟩ := hkeeps.jobs key job hjob
  exact heq ▸ h.jobs key job' hjob'

theorem Inv.schedule {t : State} {now : ℕ} {serverDomain sourceAcct candidateKey : Str}
    {owner : BackgroundQuoteOwner} (h : Inv s)
    (hstep : step s (.schedule now serverDomain sourceAcct candidateKey owner) = some t) :
    Inv t := by
  have hconsistent := h.consistent.schedule now serverDomain sourceAcct candidateKey owner
  have hkeeps := BackgroundQuoteRegistry.keeps_schedule s.registry now serverDomain sourceAcct
    candidateKey owner
  have hsome := @BackgroundQuoteRegistry.schedule_some s.registry now serverDomain sourceAcct
    candidateKey owner
  simp only [Quote.step] at hstep
  generalize s.registry.schedule now serverDomain sourceAcct candidateKey owner = result at *
  obtain ⟨generation, registry⟩ := result
  cases generation with
  | none =>
    obtain rfl := Option.some.inj hstep
    exact h.keeps hconsistent (hkeeps rfl) (List.Subset.refl _)
  | some generation =>
    obtain rfl := Option.some.inj hstep
    obtain ⟨hgeneration, hcounter, -, hjobs⟩ := @hsome generation rfl
    have hnth : generation = nthGeneration (s.registrations + 1) := by
      rw [nthGeneration_succ, ← h.counter, hgeneration]
    refine ⟨hconsistent, hcounter.trans hnth, fun guard hguard => ?_, fun key job hjob => ?_⟩
    · rcases List.mem_cons.1 hguard with rfl | hguard
      · exact ⟨Nat.succ_pos _, hnth⟩
      · exact h.guards guard hguard
    · rcases hjobs key job hjob with ⟨rfl, hnew⟩ | ⟨hkey, job', hjob', heq⟩
      · rw [hnew, hnth]
        simp only [Function.update_self]
      · rw [← heq, h.jobs key job' hjob']
        simp only [Function.update_of_ne hkey]

theorem Inv.step {t : State} {event : Event} (h : Inv s) (hstep : step s event = some t) :
    Inv t := by
  cases event with
  | schedule now serverDomain sourceAcct candidateKey owner => exact h.schedule hstep
  | attach key generation task =>
    obtain rfl := Option.some.inj hstep
    exact h.keeps (h.consistent.attach key generation task)
      (BackgroundQuoteRegistry.keeps_attach key generation task) (List.Subset.refl _)
  | cancelOwner owner =>
    obtain rfl := Option.some.inj hstep
    exact h.keeps (h.consistent.cancelOwner owner)
      (BackgroundQuoteRegistry.keeps_cancelOwner owner) (List.Subset.refl _)
  | cancelSource account =>
    obtain rfl := Option.some.inj hstep
    exact h.keeps (h.consistent.cancelSource account)
      (BackgroundQuoteRegistry.keeps_cancelSource account) (List.Subset.refl _)
  | cancelAll =>
    obtain rfl := Option.some.inj hstep
    exact h.keeps h.consistent.cancelAll
      (BackgroundQuoteRegistry.keeps_removeJobs _) (List.Subset.refl _)
  | giveUp key deadline =>
    obtain rfl := Option.some.inj hstep
    have hconsistent : (s.registry.giveUp key deadline).Consistent :=
      ⟨h.consistent.sources, h.consistent.owners, h.consistent.owned, h.consistent.capacity⟩
    exact ⟨hconsistent, h.counter, h.guards, h.jobs⟩
  | drop guard =>
    simp only [Quote.step] at hstep
    split_ifs at hstep
    obtain rfl := Option.some.inj hstep
    exact h.keeps (h.consistent.removeJob_generation guard.key guard.generation)
      (BackgroundQuoteRegistry.keeps_removeJob _ _) List.erase_subset

theorem Inv.start : Inv .start where
  consistent := BackgroundQuoteRegistry.Consistent.default
  counter := rfl
  guards := by simp [State.start]
  jobs := by simp [State.start, BackgroundQuoteRegistry.default]

theorem Reaches.inv (h : Reaches events s) : Inv s :=
  h.invariant Inv.start Inv.step

/-- In every reachable state the indexes say what the jobs say, and a guard leaves alone what was
registered after it under its key, less than a turn of the counter later. -/
theorem registry_consistent {events : List Event} {s : State} (h : Reaches events s) :
    s.registry.Consistent ∧
    ∀ guard ∈ s.guards, guard.serial < s.serial guard.key →
      s.serial guard.key - guard.serial < 2 ^ 64 - 1 → guard.drop s.registry = s.registry := by
  have hinv := h.inv
  refine ⟨hinv.consistent, fun guard hguard holder hturn => ?_⟩
  obtain ⟨hpos, hgeneration⟩ := hinv.guards guard hguard
  have hne : (s.registry.jobs.lookup guard.key).map (·.generation) ≠ some guard.generation := by
    intro heq
    obtain ⟨job, hjob, hjobGeneration⟩ := Option.map_eq_some_iff.1 heq
    refine nthGeneration_ne hpos holder hturn ?_
    rw [← hgeneration, ← hjobGeneration, hinv.jobs guard.key job hjob]
  rw [BackgroundQuoteGuard.drop, BackgroundQuoteRegistry.removeJob_generation_ne hne]

/-- A job that is cancelled and registered again: the first guard is older. -/
theorem registry_consistent_again :
    ∃ events s guard, Reaches events s ∧ guard ∈ s.guards ∧
      (s.registry.jobs.lookup guard.key).map (·.generation) = some 2 ∧
      s.registry.Consistent ∧ guard.drop s.registry = s.registry := by
  let event : Event := .schedule 0 ['a'] ['b'] ['c'] (.consumer ['d'])
  obtain ⟨s, hs⟩ : ∃ s, [event, .cancelAll, event].foldlM step .start = some s := ⟨_, rfl⟩
  have hrun : Reaches [event, .cancelAll, event] s := by
    refine run_cons.2 ⟨_, rfl, run_cons.2 ⟨_, rfl, run_cons.2 ⟨s, hs, .nil s⟩⟩⟩
  obtain rfl := Option.some.inj hs
  refine ⟨_, _, ⟨BackgroundQuoteRegistry.jobKey ['a'] ['b'] ['c'], 1, 1⟩, hrun, by decide, by decide,
    (registry_consistent hrun).1, (registry_consistent hrun).2 _ (by decide) (by decide) (by decide)⟩

/-! ### A whole turn of the counter -/

namespace BackgroundQuoteRegistry

/-- There are no jobs, and any could be registered. -/
def Idle (r : BackgroundQuoteRegistry) : Prop :=
  (∀ key, r.negativeUntil key = none) ∧ ∀ key, r.jobs.lookup key = none

variable {r : BackgroundQuoteRegistry}

theorem Idle.schedule (h : r.Idle) (serverDomain sourceAcct candidateKey : Str)
    (owner : BackgroundQuoteOwner) :
    (r.schedule 0 serverDomain sourceAcct candidateKey owner).1 =
      some (followingGeneration r.nextGeneration) := by
  have hkeys : r.jobs.keys = [] := by
    refine List.eq_nil_iff_forall_not_mem.2 fun key hkey => ?_
    have hsome := AList.lookup_isSome.2 (AList.mem_keys.2 hkey)
    simp [h.2 key] at hsome
  simp [BackgroundQuoteRegistry.schedule, h.1, h.2, hkeys, BACKGROUND_QUOTE_CAPACITY]

/-- The registered job is there. -/
theorem lookup_schedule {now generation : ℕ} {serverDomain sourceAcct candidateKey : Str}
    {owner : BackgroundQuoteOwner}
    (h : (r.schedule now serverDomain sourceAcct candidateKey owner).1 = some generation) :
    ((r.schedule now serverDomain sourceAcct candidateKey owner).2.jobs.lookup
      (jobKey serverDomain sourceAcct candidateKey)).map (·.generation) = some generation := by
  unfold schedule at h ⊢
  dsimp only at h ⊢
  split_ifs at h ⊢
  obtain rfl := Option.some.inj h
  dsimp only
  rw [(registerOwner_spec _ _ _ (AList.lookup_insert _) (by simp)).1, AList.lookup_insert]
  rfl

theorem idle_cancelAll (h : ∀ key, r.negativeUntil key = none) : r.cancelAll.2.Idle := by
  refine ⟨fun key => (keeps_removeJobs r.jobs.keys).negative key (h key), fun key => ?_⟩
  refine Option.eq_none_iff_forall_ne_some.2 fun job hjob => ?_
  obtain ⟨hkey, hjob⟩ := (lookup_removeJobs _).1 hjob
  exact hkey (AList.mem_keys.1 (AList.lookup_isSome.1 (by rw [hjob]; rfl)))

end BackgroundQuoteRegistry

/-- Registering when there are no jobs. -/
theorem Reaches.register (h : Reaches events s) (hidle : s.registry.Idle)
    (serverDomain sourceAcct candidateKey : Str) (owner : BackgroundQuoteOwner) :
    let key := BackgroundQuoteRegistry.jobKey serverDomain sourceAcct candidateKey
    let generation := nthGeneration (s.registrations + 1)
    let registry := (s.registry.schedule 0 serverDomain sourceAcct candidateKey owner).2
    Reaches (events ++ [.schedule 0 serverDomain sourceAcct candidateKey owner]) {
      registry
      guards := ⟨key, generation, s.registrations + 1⟩ :: s.guards
      registrations := s.registrations + 1
      serial := Function.update s.serial key (s.registrations + 1) } := by
  intro key generation registry
  refine h.snoc ?_
  have hsome := hidle.schedule serverDomain sourceAcct candidateKey owner
  have heq : s.registry.schedule 0 serverDomain sourceAcct candidateKey owner =
      (some generation, registry) := by
    refine Prod.ext ?_ rfl
    rw [hsome, h.inv.counter, ← nthGeneration_succ]
  simp only [step, heq]
  rfl

/-- A job that is registered when there are none, and cancelled at once. -/
theorem Reaches.round (h : Reaches events s) (hidle : s.registry.Idle) (candidateKey : Str) :
    ∃ events' s', Reaches events' s' ∧ s'.registrations = s.registrations + 1 ∧
      s'.registry.Idle ∧
      s'.guards = ⟨BackgroundQuoteRegistry.jobKey ['a'] ['b'] candidateKey,
        nthGeneration (s.registrations + 1), s.registrations + 1⟩ :: s.guards := by
  have hregister := h.register hidle ['a'] ['b'] candidateKey (.consumer ['d'])
  obtain ⟨-, -, hnegative, -⟩ := BackgroundQuoteRegistry.schedule_some _ 0 _ _ _ _
    (hidle.schedule ['a'] ['b'] candidateKey (.consumer ['d']))
  have hcancel := hregister.append (run_cons.2 ⟨_, (rfl : step _ .cancelAll = _), .nil _⟩)
  exact ⟨_, _, hcancel, rfl,
    BackgroundQuoteRegistry.idle_cancelAll fun key => hnegative key (hidle.1 key), rfl⟩

/-- After any number of jobs that were cancelled at once, the first guard is still there. -/
theorem idle_rounds (n : ℕ) :
    ∃ events s, Reaches events s ∧ s.registrations = n + 1 ∧ s.registry.Idle ∧
      ⟨BackgroundQuoteRegistry.jobKey ['a'] ['b'] ['c'], 1, 1⟩ ∈ s.guards := by
  induction n with
  | zero =>
    have hidle : State.start.registry.Idle := ⟨fun _ => rfl, fun _ => rfl⟩
    obtain ⟨events, s, hs, hregistrations, hidle', hguards⟩ :=
      Reaches.round (.nil State.start) hidle ['c']
    refine ⟨events, s, hs, hregistrations, hidle', ?_⟩
    rw [hguards]
    exact List.mem_cons_self
  | succ n ih =>
    obtain ⟨events, s, hs, hregistrations, hidle, hguard⟩ := ih
    obtain ⟨events', s', hs', hregistrations', hidle', hguards⟩ := hs.round hidle ['e']
    refine ⟨events', s', hs', by rw [hregistrations', hregistrations], hidle', ?_⟩
    rw [hguards]
    exact List.mem_cons_of_mem _ hguard

/-- When the counter has come around, the first guard has the generation of the newest job of its
key, which it removes when it is dropped. -/
theorem not_older_guard_keeps :
    ¬ ∀ events s, Reaches events s → s.registry.Consistent ∧
      ∀ guard ∈ s.guards, guard.serial < s.serial guard.key →
        guard.drop s.registry = s.registry := by
  intro hall
  obtain ⟨events, s, hs, hregistrations, hidle, hguard⟩ := idle_rounds (2 ^ 64 - 2)
  have hregister := hs.register hidle ['a'] ['b'] ['c'] (.consumer ['d'])
  rw [hregistrations] at hregister
  have hkeeps := (hall _ _ hregister).2 _ (List.mem_cons_of_mem _ hguard)
    (by simp only [Function.update_self]; norm_num)
  -- the newest job has generation 1 too
  have hlookup := BackgroundQuoteRegistry.lookup_schedule
    (hidle.schedule ['a'] ['b'] ['c'] (.consumer ['d']))
  rw [hs.inv.counter, ← nthGeneration_succ, hregistrations,
    show nthGeneration (2 ^ 64 - 2 + 1 + 1) = 1 by decide] at hlookup
  obtain ⟨job, hjob, -⟩ := Option.map_eq_some_iff.1 hlookup
  have hdrop := congrArg (fun registry => registry.jobs.lookup
    (BackgroundQuoteRegistry.jobKey ['a'] ['b'] ['c'])) hkeeps
  simp only [BackgroundQuoteGuard.drop, BackgroundQuoteRegistry.removeJob_generation_eq hlookup,
    (BackgroundQuoteRegistry.removeJob_spec hjob).1, AList.lookup_erase, hjob] at hdrop
  cases hdrop

end Awayuki.Quote
