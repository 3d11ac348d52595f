import Awayuki.Text
import Awayuki.Library.Buckets
import Mathlib.Data.List.AList

/-!
# Background quotes: the registry

The registry of background quote jobs in `services/timeline_service.rs`.  A job is registered
under its key; three indexes tell the jobs of a source account, of an account that waits for them
and of a consumer that does.

* `BackgroundQuoteRegistry` and the functions on it;
* `ownerJobs`: the indexes of accounts and of consumers as one index of owners;
* `Consistent`: the indexes say what the jobs say.
-/

namespace Awayuki.Quote

def BACKGROUND_QUOTE_CAPACITY : ℕ := 128

inductive BackgroundQuoteOwner
  | account (serverDomain sourceAcct : Str)
  | consumer (consumerId : Str)
  deriving DecidableEq, Repr

/-- `owners` is a set; `abortHandle` is the number of a task. -/
structure BackgroundQuoteJob where
  generation : ℕ
  sourceAccount : Str × Str
  owners : List BackgroundQuoteOwner
  abortHandle : Option ℕ
  deriving DecidableEq, Repr

structure BackgroundQuoteRegistry where
  negativeUntil : Str → Option ℕ
  jobs : AList fun _ : Str => BackgroundQuoteJob
  accountJobs : Buckets (Str × Str) Str
  sourceJobs : Buckets (Str × Str) Str
  consumerJobs : Buckets Str Str
  nextGeneration : ℕ

namespace BackgroundQuoteRegistry

/-- `BackgroundQuoteRegistry::default`. -/
def default : BackgroundQuoteRegistry where
  negativeUntil := fun _ => none
  jobs := ∅
  accountJobs := .empty
  sourceJobs := .empty
  consumerJobs := .empty
  nextGeneration := 0

/-- The index of accounts or of consumers, as the owner tells. -/
def mapOwnerJobs (r : BackgroundQuoteRegistry) (owner : BackgroundQuoteOwner)
    (f : ∀ {κ : Type} [DecidableEq κ], Buckets κ Str → κ → Buckets κ Str) :
    BackgroundQuoteRegistry :=
  match owner with
  | .account serverDomain sourceAcct =>
    { r with accountJobs := f r.accountJobs (serverDomain, sourceAcct) }
  | .consumer consumerId => { r with consumerJobs := f r.consumerJobs consumerId }

/-- `register_background_quote_owner`. -/
def registerOwner (r : BackgroundQuoteRegistry) (key : Str) (owner : BackgroundQuoteOwner) :
    BackgroundQuoteRegistry :=
  match r.jobs.lookup key with
  | none => r
  | some job =>
    if owner ∈ job.owners then r
    else
      { r with jobs := r.jobs.insert key { job with owners := job.owners ++ [owner] } }.mapOwnerJobs
        owner fun jobs k => jobs.insert k key

/-- `remove_background_quote_job`; with a generation, only the job of that generation.  The
result is the handle that the caller may abort the task by. -/
def removeJob (r : BackgroundQuoteRegistry) (key : Str) (generation : Option ℕ) :
    Option ℕ × BackgroundQuoteRegistry :=
  if generation.any fun g => (r.jobs.lookup key).map (·.generation) ≠ some g then (none, r)
  else
    match r.jobs.lookup key with
    | none => (none, r)
    | some job =>
      let r := { r with
        jobs := r.jobs.erase key
        sourceJobs := r.sourceJobs.remove job.sourceAccount key }
      let r := job.owners.foldl
        (fun r owner => r.mapOwnerJobs owner fun jobs k => jobs.remove k key) r
      (job.abortHandle, { r with
        accountJobs := r.accountJobs.retainNonempty
        sourceJobs := r.sourceJobs.retainNonempty
        consumerJobs := r.consumerJobs.retainNonempty })

/-- The key of a job. -/
def jobKey (serverDomain sourceAcct candidateKey : Str) : Str :=
  serverDomain ++ '\x00' :: sourceAcct ++ '\x00' :: candidateKey

/-- `next_generation.wrapping_add(1).max(1)`. -/
def followingGeneration (generation : ℕ) : ℕ := max ((generation + 1) % 2 ^ 64) 1

/-- The registration in `schedule_pending_quote_resolution_owned`: the generation of a new job, if
there is to be one. -/
def schedule (r : BackgroundQuoteRegistry) (now : ℕ) (serverDomain sourceAcct candidateKey : Str)
    (owner : BackgroundQuoteOwner) : Option ℕ × BackgroundQuoteRegistry :=
  let key := jobKey serverDomain sourceAcct candidateKey
  let r := { r with negativeUntil := fun k => (r.negativeUntil k).filter (now < ·) }
  if (r.negativeUntil key).isSome then (none, r)
  else if (r.jobs.lookup key).isSome then (none, r.registerOwner key owner)
  else if r.jobs.keys.length ≥ BACKGROUND_QUOTE_CAPACITY then (none, r)
  else
    let generation := followingGeneration r.nextGeneration
    let job := { generation, sourceAccount := (serverDomain, sourceAcct), owners := [],
                 abortHandle := none }
    let r := { r with
      nextGeneration := generation
      jobs := r.jobs.insert key job
      sourceJobs := r.sourceJobs.insert (serverDomain, sourceAcct) key }
    (some generation, r.registerOwner key owner)

/-- The end of `schedule_pending_quote_resolution_owned`, once the task is spawned: is its job
still there? -/
def attach (r : BackgroundQuoteRegistry) (key : Str) (generation task : ℕ) :
    Bool × BackgroundQuoteRegistry :=
  match r.jobs.lookup key with
  | none => (false, r)
  | some job =>
    if job.generation = generation ∧ job.owners ≠ [] then
      (true, { r with jobs := r.jobs.insert key { job with abortHandle := some task } })
    else (false, r)

/-- The set of jobs of an owner. -/
def ownerJobs (r : BackgroundQuoteRegistry) : Buckets BackgroundQuoteOwner Str
  | .account serverDomain sourceAcct => r.accountJobs (serverDomain, sourceAcct)
  | .consumer consumerId => r.consumerJobs consumerId

/-- One job of `cancel_background_quote_owner`. -/
def releaseJob (owner : BackgroundQuoteOwner) (r : BackgroundQuoteRegistry) (key : Str) :
    BackgroundQuoteRegistry :=
  match r.jobs.lookup key with
  | none => r
  | some job =>
    let owners := job.owners.filter (· ≠ owner)
    let r := { r with jobs := r.jobs.insert key { job with owners } }
    if owners = [] then (r.removeJob key none).2 else r

/-- `cancel_background_quote_owner`: had the owner any jobs? -/
def cancelOwner (r : BackgroundQuoteRegistry) (owner : BackgroundQuoteOwner) :
    Bool × BackgroundQuoteRegistry :=
  let keys := r.ownerJobs.get owner
  (!keys.isEmpty, keys.foldl (releaseJob owner) (r.mapOwnerJobs owner fun jobs k => jobs.erase k))

def removeJobs (r : BackgroundQuoteRegistry) (keys : List Str) : BackgroundQuoteRegistry :=
  keys.foldl (fun r key => (r.removeJob key none).2) r

/-- `cancel_background_quote_source`: had the account any jobs? -/
def cancelSource (r : BackgroundQuoteRegistry) (sourceAccount : Str × Str) :
    Bool × BackgroundQuoteRegistry :=
  let keys := r.sourceJobs.get sourceAccount
  (!keys.isEmpty,
    { r with sourceJobs := r.sourceJobs.erase sourceAccount }.removeJobs keys)

/-- `cancel_all_pending_quote_resolution`: the number of jobs that there were. -/
def cancelAll (r : BackgroundQuoteRegistry) : ℕ × BackgroundQuoteRegistry :=
  (r.jobs.keys.length, r.removeJobs r.jobs.keys)

/-- What a task that finds nothing leaves behind. -/
def giveUp (r : BackgroundQuoteRegistry) (key : Str) (deadline : ℕ) : BackgroundQuoteRegistry :=
  { r with negativeUntil := Function.update r.negativeUntil key (some deadline) }

/-! ### Consistency -/

/-- The indexes say what the jobs say, but for some hidden pairs of an owner or a source account
and a job, which they do not have yet or no longer. -/
structure ConsistentBut (hidden : BackgroundQuoteOwner → Str → Prop)
    (hiddenSource : Str × Str → Str → Prop) (r : BackgroundQuoteRegistry) : Prop where
  sources : r.sourceJobs.Indexes fun account key =>
    (∃ job, r.jobs.lookup key = some job ∧ job.sourceAccount = account) ∧ ¬ hiddenSource account key
  owners : r.ownerJobs.Indexes fun owner key =>
    (∃ job, r.jobs.lookup key = some job ∧ owner ∈ job.owners) ∧ ¬ hidden owner key
  owned : ∀ key job, r.jobs.lookup key = some job → job.owners ≠ []
  capacity : r.jobs.keys.length ≤ BACKGROUND_QUOTE_CAPACITY

def Consistent (r : BackgroundQuoteRegistry) : Prop :=
  r.ConsistentBut (fun _ _ => False) fun _ _ => False

/-! ### Maps -/

section

variable {κ β : Type} [DecidableEq κ] {m : AList fun _ : κ => β} {k k' : κ} {v v' : β}

theorem lookup_erase_eq_some :
    (m.erase k).lookup k' = some v ↔ k' ≠ k ∧ m.lookup k' = some v := by
  by_cases h : k' = k
  · subst h
    simp [AList.lookup_erase]
  · simp [AList.lookup_erase_ne h, h]

theorem lookup_insert_eq_some :
    (m.insert k v).lookup k' = some v' ↔ k' = k ∧ v = v' ∨ k' ≠ k ∧ m.lookup k' = some v' := by
  by_cases h : k' = k
  · subst h
    simp [AList.lookup_insert]
  · simp [AList.lookup_insert_ne h, h]

/-- Replacing a value keeps the number of keys. -/
theorem length_keys_insert (h : m.lookup k = some v) :
    (m.insert k v').keys.length = m.keys.length := by
  have hmem : k ∈ m.keys := AList.mem_keys.1 (AList.lookup_isSome.1 (by rw [h]; rfl))
  rw [AList.keys_insert, List.length_cons, List.length_erase_of_mem hmem]
  have := List.length_pos_of_mem hmem
  omega

/-- A new key is one more. -/
theorem length_keys_insert_new (h : m.lookup k = none) :
    (m.insert k v).keys.length = m.keys.length + 1 := by
  have hmem : k ∉ m.keys := fun hk => by
    have := AList.lookup_isSome.2 (AList.mem_keys.2 hk)
    simp [h] at this
  rw [AList.keys_insert, List.length_cons, List.erase_of_not_mem hmem]

theorem length_keys_erase_le : (m.erase k).keys.length ≤ m.keys.length := by
  rw [AList.keys_erase]
  exact List.length_erase_le

end

/-! ### One index of owners -/

section

variable {r : BackgroundQuoteRegistry} {owner owner' : BackgroundQuoteOwner} {key : Str}

@[simp] theorem mapOwnerJobs_jobs
    (f : ∀ {κ : Type} [DecidableEq κ], Buckets κ Str → κ → Buckets κ Str) :
    (r.mapOwnerJobs owner f).jobs = r.jobs := by
  cases owner <;> rfl

@[simp] theorem mapOwnerJobs_sourceJobs
    (f : ∀ {κ : Type} [DecidableEq κ], Buckets κ Str → κ → Buckets κ Str) :
    (r.mapOwnerJobs owner f).sourceJobs = r.sourceJobs := by
  cases owner <;> rfl

theorem ownerJobs_insert :
    (r.mapOwnerJobs owner fun jobs k => jobs.insert k key).ownerJobs =
      r.ownerJobs.insert owner key := by
  funext owner'
  by_cases h : owner' = owner
  · subst h
    cases owner' <;>
      simp only [mapOwnerJobs, ownerJobs, Buckets.insert, Function.update_self] <;> rfl
  · rw [Buckets.insert, Function.update_of_ne h]
    cases owner <;> cases owner' <;> simp_all [mapOwnerJobs, ownerJobs, Buckets.insert]

theorem ownerJobs_remove :
    (r.mapOwnerJobs owner fun jobs k => jobs.remove k key).ownerJobs =
      r.ownerJobs.remove owner key := by
  funext owner'
  by_cases h : owner' = owner
  · subst h
    cases owner' <;> simp only [mapOwnerJobs, ownerJobs, Buckets.remove, Function.update_self]
  · rw [Buckets.remove, Function.update_of_ne h]
    cases owner <;> cases owner' <;> simp_all [mapOwnerJobs, ownerJobs, Buckets.remove]

theorem ownerJobs_erase :
    (r.mapOwnerJobs owner fun jobs k => jobs.erase k).ownerJobs = r.ownerJobs.erase owner := by
  funext owner'
  by_cases h : owner' = owner
  · subst h
    cases owner' <;> simp only [mapOwnerJobs, ownerJobs, Buckets.erase, Function.update_self]
  · rw [Buckets.erase, Function.update_of_ne h]
    cases owner <;> cases owner' <;> simp_all [mapOwnerJobs, ownerJobs, Buckets.erase]

variable (key) in
/-- The loop over the owners of a job that is removed. -/
theorem removeOwners_spec (owners : List BackgroundQuoteOwner) (r : BackgroundQuoteRegistry) :
    let r' := owners.foldl (fun r owner => r.mapOwnerJobs owner fun jobs k => jobs.remove k key) r
    r'.jobs = r.jobs ∧ r'.sourceJobs = r.sourceJobs ∧ ∀ o k,
      k ∈ r'.ownerJobs.get o ↔ k ∈ r.ownerJobs.get o ∧ ¬ (o ∈ owners ∧ k = key) := by
  induction owners generalizing r with
  | nil => simp
  | cons owner owners ih =>
    obtain ⟨hjobs, hsources, howners⟩ := ih (r.mapOwnerJobs owner fun jobs k => jobs.remove k key)
    refine ⟨by simpa using hjobs, by simpa using hsources, fun o k => ?_⟩
    rw [List.foldl_cons, howners, ownerJobs_remove, Buckets.mem_get_remove, List.mem_cons]
    tauto

variable {job : BackgroundQuoteJob}

/-- What removing a job does to jobs and indexes. -/
theorem removeJob_spec (h : r.jobs.lookup key = some job) :
    (r.removeJob key none).2.jobs = r.jobs.erase key ∧
    (∀ {R : Str × Str → Str → Prop},
      (∀ a k, R a k ↔ k ∈ r.sourceJobs.get a ∧ ¬ (a = job.sourceAccount ∧ k = key)) →
      (r.removeJob key none).2.sourceJobs.Indexes R) ∧
    ∀ {R : BackgroundQuoteOwner → Str → Prop},
      (∀ o k, R o k ↔ k ∈ r.ownerJobs.get o ∧ ¬ (o ∈ job.owners ∧ k = key)) →
      (r.removeJob key none).2.ownerJobs.Indexes R := by
  obtain ⟨hjobs, hsources, howners⟩ := removeOwners_spec key job.owners { r with
    jobs := r.jobs.erase key, sourceJobs := r.sourceJobs.remove job.sourceAccount key }
  simp only [removeJob, h, Option.any_none, Bool.false_eq_true, if_false]
  refine ⟨hjobs, fun {R} hR => ?_, fun {R} hR => ?_⟩
  · refine Buckets.Indexes.retainNonempty fun a k => ?_
    rw [hsources, Buckets.mem_get_remove, hR]
  · have hretain : ∀ r' : BackgroundQuoteRegistry, ({ r' with
        accountJobs := r'.accountJobs.retainNonempty
        sourceJobs := r'.sourceJobs.retainNonempty
        consumerJobs := r'.consumerJobs.retainNonempty } : BackgroundQuoteRegistry).ownerJobs =
        r'.ownerJobs.retainNonempty := by
      intro r'
      funext owner
      cases owner <;> rfl
    rw [hretain]
    refine Buckets.Indexes.retainNonempty fun o k => ?_
    rw [howners, hR]
    exact Iff.rfl

variable {hidden : BackgroundQuoteOwner → Str → Prop} {hiddenSource : Str × Str → Str → Prop}

/-- Removing a job keeps what is consistent. -/
theorem ConsistentBut.removeJob (h : r.ConsistentBut hidden hiddenSource) (key : Str) :
    (r.removeJob key none).2.ConsistentBut hidden hiddenSource := by
  cases hjob : r.jobs.lookup key with
  | none => simpa [BackgroundQuoteRegistry.removeJob, hjob] using h
  | some job =>
    obtain ⟨hjobs, hsources, howners⟩ := removeJob_spec hjob
    refine ⟨hsources fun a k => ?_, howners fun o k => ?_, fun k job' hk => ?_, ?_⟩
    · simp only [hjobs, lookup_erase_eq_some, h.sources.mem]
      by_cases hk : k = key
      · subst hk
        simp only [ne_eq, not_true, false_and, exists_false, hjob, Option.some.injEq,
          exists_eq_left', and_true]
        tauto
      · simp [hk]
    · simp only [hjobs, lookup_erase_eq_some, h.owners.mem]
      by_cases hk : k = key
      · subst hk
        simp only [ne_eq, not_true, false_and, exists_false, hjob, Option.some.injEq,
          exists_eq_left', and_true]
        tauto
      · simp [hk]
    · rw [hjobs, lookup_erase_eq_some] at hk
      exact h.owned k job' hk.2
    · rw [hjobs]
      exact length_keys_erase_le.trans h.capacity

theorem Consistent.default : Consistent .default where
  sources := Buckets.indexes_empty.congr (by simp [BackgroundQuoteRegistry.default])
  owners := by
    have hnone : (BackgroundQuoteRegistry.default).ownerJobs = .empty := by
      funext owner
      cases owner <;> rfl
    rw [hnone]
    exact Buckets.indexes_empty.congr (by simp [BackgroundQuoteRegistry.default])
  owned := by simp [BackgroundQuoteRegistry.default]
  capacity := Nat.zero_le _

variable (r owner key) in
/-- Registering a new owner of a job. -/
theorem registerOwner_spec (h : r.jobs.lookup key = some job) (howner : owner ∉ job.owners) :
    (r.registerOwner key owner).jobs =
        r.jobs.insert key { job with owners := job.owners ++ [owner] } ∧
      (r.registerOwner key owner).sourceJobs = r.sourceJobs ∧
      (r.registerOwner key owner).ownerJobs = r.ownerJobs.insert owner key := by
  simp only [registerOwner, h, if_neg howner, mapOwnerJobs_jobs, mapOwnerJobs_sourceJobs,
    ownerJobs_insert, true_and]
  rfl

theorem Consistent.registerOwner (h : r.Consistent) (key : Str) (owner : BackgroundQuoteOwner) :
    (r.registerOwner key owner).Consistent := by
  cases hjob : r.jobs.lookup key with
  | none => simpa only [BackgroundQuoteRegistry.registerOwner, hjob] using h
  | some job =>
    by_cases howner : owner ∈ job.owners
    · simpa only [BackgroundQuoteRegistry.registerOwner, hjob, if_pos howner] using h
    obtain ⟨hjobs, hsources, howners⟩ := registerOwner_spec r owner key hjob howner
    refine ⟨?_, ?_, fun k job' hk => ?_, ?_⟩
    · rw [hsources]
      refine h.sources.congr fun a k => ?_
      simp only [hjobs, lookup_insert_eq_some]
      by_cases hk : k = key
      · subst hk
        simp [hjob]
      · simp [hk]
    · rw [howners]
      refine (h.owners.insert owner key).congr fun o k => ?_
      simp only [hjobs, lookup_insert_eq_some]
      by_cases hk : k = key
      · subst hk
        simp [hjob, or_comm]
      · simp [hk]
    · rw [hjobs, lookup_insert_eq_some] at hk
      rcases hk with ⟨-, rfl⟩ | ⟨-, hk⟩
      · simp
      · exact h.owned k job' hk
    · rw [hjobs, length_keys_insert hjob]
      exact h.capacity

/-- Registering a new job with its first owner. -/
theorem Consistent.register (h : r.Consistent) (hnew : r.jobs.lookup key = none)
    (hcapacity : r.jobs.keys.length < BACKGROUND_QUOTE_CAPACITY) (howners : job.owners = [])
    (generation : ℕ) : ({ r with
      nextGeneration := generation
      jobs := r.jobs.insert key job
      sourceJobs := r.sourceJobs.insert job.sourceAccount key }.registerOwner key owner).Consistent := by
  have hnone : ∀ job, r.jobs.lookup key ≠ some job := by simp [hnew]
  obtain ⟨hjobs, hsources, howners'⟩ := registerOwner_spec { r with
      nextGeneration := generation
      jobs := r.jobs.insert key job
      sourceJobs := r.sourceJobs.insert job.sourceAccount key } owner key
    (AList.lookup_insert _) (by simp [howners])
  refine ⟨?_, ?_, fun k job' hk => ?_, ?_⟩
  · rw [hsources]
    refine (h.sources.insert job.sourceAccount key).congr fun a k => ?_
    simp only [hjobs, lookup_insert_eq_some]
    by_cases hk : k = key
    · subst hk
      simp [hnew, eq_comm]
    · simp [hk]
  · rw [howners']
    refine (h.owners.insert owner key).congr fun o k => ?_
    simp only [hjobs, lookup_insert_eq_some]
    by_cases hk : k = key
    · subst hk
      simp [hnew, howners]
    · simp [hk]
  · rw [hjobs, lookup_insert_eq_some, lookup_insert_eq_some] at hk
    rcases hk with ⟨-, rfl⟩ | ⟨hne, ⟨heq, -⟩ | ⟨-, hk⟩⟩
    · simp
    · exact absurd heq hne
    · exact h.owned k job' hk
  · rw [hjobs, length_keys_insert (AList.lookup_insert _), length_keys_insert_new hnew]
    exact hcapacity

theorem Consistent.schedule (h : r.Consistent) (now : ℕ)
    (serverDomain sourceAcct candidateKey : Str) (owner : BackgroundQuoteOwner) :
    (r.schedule now serverDomain sourceAcct candidateKey owner).2.Consistent := by
  have h' : Consistent { r with negativeUntil := fun k => (r.negativeUntil k).filter (now < ·) } :=
    ⟨h.sources, h.owners, h.owned, h.capacity⟩
  simp only [BackgroundQuoteRegistry.schedule]
  split_ifs with hnegative hjob hcapacity
  · exact h'
  · exact h'.registerOwner _ _
  · exact h'
  · exact h'.register (by simpa using hjob) (Nat.not_le.1 hcapacity) rfl _

theorem Consistent.attach (h : r.Consistent) (key : Str) (generation task : ℕ) :
    (r.attach key generation task).2.Consistent := by
  unfold BackgroundQuoteRegistry.attach
  split
  · exact h
  · next job hjob =>
    split_ifs with hactive
    swap
    · exact h
    refine ⟨h.sources.congr fun a k => ?_, h.owners.congr fun o k => ?_, fun k job' hk => ?_, ?_⟩
    · simp only [lookup_insert_eq_some]
      by_cases hk : k = key
      · subst hk
        simp [hjob]
      · simp [hk]
    · simp only [lookup_insert_eq_some]
      by_cases hk : k = key
      · subst hk
        simp [hjob]
      · simp [hk]
    · rw [lookup_insert_eq_some] at hk
      rcases hk with ⟨-, rfl⟩ | ⟨-, hk⟩
      · exact hactive.2
      · exact h.owned k job' hk
    · rw [length_keys_insert hjob]
      exact h.capacity

theorem ConsistentBut.removeJobs (keys : List Str) (h : r.ConsistentBut hidden hiddenSource) :
    (r.removeJobs keys).ConsistentBut hidden hiddenSource := by
  induction keys generalizing r with
  | nil => exact h
  | cons key keys ih => exact ih (h.removeJob key)

/-- The jobs that are left when some are removed. -/
theorem lookup_removeJobs (keys : List Str) : (r.removeJobs keys).jobs.lookup key = some job ↔
      key ∉ keys ∧ r.jobs.lookup key = some job := by
  induction keys generalizing r with
  | nil => simp [removeJobs]
  | cons key' keys ih =>
    refine (ih (r := (r.removeJob key' none).2)).trans ?_
    have hjobs : (r.removeJob key' none).2.jobs.lookup key = some job ↔
        key ≠ key' ∧ r.jobs.lookup key = some job := by
      cases hjob : r.jobs.lookup key' with
      | some job' => rw [(removeJob_spec hjob).1, lookup_erase_eq_some]
      | none =>
        simp only [removeJob, hjob, Option.any_none, Bool.false_eq_true, if_false]
        refine ⟨fun h => ⟨?_, h⟩, And.right⟩
        rintro rfl
        simp [hjob] at h
    rw [hjobs, List.mem_cons]
    tauto

theorem Consistent.cancelSource (h : r.Consistent) (account : Str × Str) :
    (r.cancelSource account).2.Consistent := by
  have hbut : ({ r with sourceJobs := r.sourceJobs.erase account }).ConsistentBut
      (fun _ _ => False) fun a _ => a = account := by
    refine ⟨(h.sources.erase account).congr fun a k => ?_, h.owners, h.owned, h.capacity⟩
    simp
  have hremoved := hbut.removeJobs (r.sourceJobs.get account)
  refine ⟨hremoved.sources.congr fun a k => ?_, hremoved.owners, hremoved.owned,
    hremoved.capacity⟩
  -- no job of the account is left
  simp only [not_false_eq_true, and_true]
  refine ⟨And.left, fun ha => ⟨ha, ?_⟩⟩
  rintro rfl
  obtain ⟨job, hjob, rfl⟩ := ha
  obtain ⟨hk, hjob⟩ := (lookup_removeJobs _).1 hjob
  exact hk ((h.sources.mem _ _).2 ⟨⟨job, hjob, rfl⟩, id⟩)

theorem Consistent.cancelAll (h : r.Consistent) : r.cancelAll.2.Consistent :=
  ConsistentBut.removeJobs _ h

/-- One job of an owner that is cancelled: it loses the owner, or is removed. -/
theorem ConsistentBut.releaseJob (h : r.ConsistentBut (fun o _ => o = owner) hiddenSource)
    (key : Str) :
    (releaseJob owner r key).ConsistentBut (fun o _ => o = owner) hiddenSource ∧
    ∀ k job, (BackgroundQuoteRegistry.releaseJob owner r key).jobs.lookup k = some job →
      k = key ∧ owner ∉ job.owners ∨ k ≠ key ∧ r.jobs.lookup k = some job := by
  cases hjob : r.jobs.lookup key with
  | none =>
    simp only [BackgroundQuoteRegistry.releaseJob, hjob]
    refine ⟨h, fun k job hk => .inr ⟨?_, hk⟩⟩
    rintro rfl
    simp [hjob] at hk
  | some job =>
    simp only [BackgroundQuoteRegistry.releaseJob, hjob]
    split_ifs with hempty
    · have hfilter : ∀ o ∈ job.owners, o = owner := by simpa using hempty
      obtain ⟨hjobs, hsources, howners⟩ := removeJob_spec
        (r := { r with
          jobs := r.jobs.insert key { job with owners := job.owners.filter (· ≠ owner) } })
        (AList.lookup_insert _)
      have hlookup : ∀ k job', (AList.erase key (r.jobs.insert key
          { job with owners := job.owners.filter (· ≠ owner) })).lookup k = some job' ↔
          k ≠ key ∧ r.jobs.lookup k = some job' := by
        intro k job'
        rw [lookup_erase_eq_some, lookup_insert_eq_some]
        tauto
      refine ⟨⟨hsources fun a k => ?_, howners fun o k => ?_, fun k job' hk => ?_, ?_⟩,
        fun k job' hk => ?_⟩
      · simp only [hjobs, hlookup, h.sources.mem]
        by_cases hk : k = key
        · subst hk
          simp only [ne_eq, not_true, false_and, exists_false, hjob, Option.some.injEq,
            exists_eq_left', and_true]
          tauto
        · simp [hk]
      · have howner : k ∈ r.ownerJobs.get o ↔ _ := h.owners.mem o k
        change _ ↔ k ∈ r.ownerJobs.get o ∧ _
        simp only [hjobs, hlookup, howner]
        by_cases hk : k = key
        · subst hk
          simp only [ne_eq, not_true, false_and, exists_false, hjob, Option.some.injEq,
            exists_eq_left', false_iff]
          exact fun ⟨⟨hmem, hne⟩, _⟩ => hne (hfilter o hmem)
        · simp [hk]
      · rw [hjobs, hlookup] at hk
        exact h.owned k job' hk.2
      · rw [hjobs]
        refine length_keys_erase_le.trans ?_
        rw [length_keys_insert hjob]
        exact h.capacity
      · rw [hjobs, hlookup] at hk
        exact .inr hk
    · refine ⟨⟨h.sources.congr fun a k => ?_, h.owners.congr fun o k => ?_, fun k job' hk => ?_, ?_⟩,
        fun k job' hk => ?_⟩
      · simp only [lookup_insert_eq_some]
        by_cases hk : k = key
        · subst hk
          simp [hjob]
        · simp [hk]
      · simp only [lookup_insert_eq_some]
        by_cases hk : k = key
        · subst hk
          simp only [hjob, Option.some.injEq, exists_eq_left', true_and, not_true, ne_eq, false_and,
            or_false, List.mem_filter, decide_eq_true_eq]
          tauto
        · simp [hk]
      · rw [lookup_insert_eq_some] at hk
        rcases hk with ⟨-, rfl⟩ | ⟨-, hk⟩
        · exact hempty
        · exact h.owned k job' hk
      · rw [length_keys_insert hjob]
        exact h.capacity
      · rcases lookup_insert_eq_some.1 hk with ⟨rfl, rfl⟩ | hk
        · exact .inl ⟨rfl, by simp⟩
        · exact .inr hk

theorem ConsistentBut.releaseJobs (keys : List Str)
    (h : r.ConsistentBut (fun o _ => o = owner) hiddenSource) :
    (keys.foldl (BackgroundQuoteRegistry.releaseJob owner) r).ConsistentBut (fun o _ => o = owner)
      hiddenSource ∧
    ∀ k job, (keys.foldl (BackgroundQuoteRegistry.releaseJob owner) r).jobs.lookup k = some job →
      owner ∈ job.owners → k ∉ keys ∧ r.jobs.lookup k = some job := by
  induction keys generalizing r with
  | nil => exact ⟨h, fun k job hk _ => ⟨List.not_mem_nil, hk⟩⟩
  | cons key keys ih =>
    obtain ⟨hreleased, hjobs⟩ := h.releaseJob key
    obtain ⟨hrest, hrestJobs⟩ := ih hreleased
    refine ⟨hrest, fun k job hk howner => ?_⟩
    obtain ⟨hmem, hk⟩ := hrestJobs k job hk howner
    rcases hjobs k job hk with ⟨-, hnot⟩ | ⟨hne, hk⟩
    · exact absurd howner hnot
    · exact ⟨by simp [hne, hmem], hk⟩

theorem Consistent.cancelOwner (h : r.Consistent) (owner : BackgroundQuoteOwner) :
    (r.cancelOwner owner).2.Consistent := by
  have hbut : (r.mapOwnerJobs owner fun jobs k => jobs.erase k).ConsistentBut (fun o _ => o = owner)
      fun _ _ => False := by
    refine ⟨?_, ?_, ?_, ?_⟩
    · simpa using h.sources
    · rw [ownerJobs_erase]
      refine (h.owners.erase owner).congr fun o k => ?_
      simp
    · simpa using h.owned
    · simpa using h.capacity
  obtain ⟨hreleased, hjobs⟩ := hbut.releaseJobs (r.ownerJobs.get owner)
  refine ⟨hreleased.sources, hreleased.owners.congr fun o k => ?_, hreleased.owned,
    hreleased.capacity⟩
  -- no job has the owner any more
  simp only [not_false_eq_true, and_true]
  refine ⟨And.left, fun ho => ⟨ho, ?_⟩⟩
  rintro rfl
  obtain ⟨job, hjob, hmem⟩ := ho
  obtain ⟨hk, hjob⟩ := hjobs k job hjob hmem
  rw [mapOwnerJobs_jobs] at hjob
  exact hk ((h.owners.mem _ _).2 ⟨⟨job, hjob, hmem⟩, id⟩)

/-- A job of another generation is not removed. -/
theorem removeJob_generation_ne {generation : ℕ}
    (h : (r.jobs.lookup key).map (·.generation) ≠ some generation) :
    r.removeJob key (some generation) = (none, r) := by
  rw [removeJob, if_pos (by simpa only [Option.any_some, decide_eq_true_eq] using h)]

theorem removeJob_generation_eq {generation : ℕ}
    (h : (r.jobs.lookup key).map (·.generation) = some generation) :
    r.removeJob key (some generation) = r.removeJob key none := by
  simp [removeJob, h]

/-- A guard drops the job of its generation, or nothing. -/
theorem Consistent.removeJob_generation (h : r.Consistent) (key : Str) (generation : ℕ) :
    (r.removeJob key (some generation)).2.Consistent := by
  by_cases hgeneration : (r.jobs.lookup key).map (·.generation) = some generation
  · rw [removeJob_generation_eq hgeneration]
    exact ConsistentBut.removeJob h key
  · rw [removeJob_generation_ne hgeneration]
    exact h

end

end BackgroundQuoteRegistry

end Awayuki.Quote
