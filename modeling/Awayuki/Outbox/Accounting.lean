import Awayuki.Outbox.AtMostOnce

/-!
# Compose outbox: accounts of attempts

A row counts its claims.  While deliveries fail, the worker claims it again as long as the count is
below the limit; beyond that only the user and the recovery at startup let it be claimed, once each.

* `RowStep`: everything that a step does to one row;
* `budget`: how often a row may still be claimed, which every step accounts for;
* `Accounts`: what a run adds up to.
-/

namespace Awayuki.Outbox

open Runs Table

/-! ### Events of a row -/

variable {t t' : Table}

def Event.claims (id : Str) : Event → Bool
  | .claim row _ => row.id == id
  | _ => false

def Event.retries (id : Str) : Event → Bool
  | .retry id' _ => id' == id
  | _ => false

def Event.resumes (id : Str) : Event → Bool
  | .resume id' _ _ _ => id' == id
  | _ => false

def Event.starts : Event → Bool
  | .start => true
  | _ => false

/-- How often the row was claimed. -/
def claims (id : Str) (events : List Event) : ℕ := events.countP (Event.claims id)

/-- How often the user retried the row. -/
def retries (id : Str) (events : List Event) : ℕ := events.countP (Event.retries id)

/-- What a step does to a row: it is left alone, claimed, put back into the queue, settled or
stopped, or cancelled. -/
inductive RowStep (event : Event) (old new : ComposeOutboxRow) : Prop
  | kept (claims : event.claims old.id = false) (same : new = old)
  | claimed (claims : event.claims old.id = true) (waiting : old.state.waiting = true)
      (sending : new.state = .sending) (attempts : new.attempts = old.attempts + 1)
  | requeued (claims : event.claims old.id = false)
      (again : event.retries old.id = true ∨ event.resumes old.id = true)
      (retryable : old.state.retryable = true) (queued : new.state = .queued)
      (attempts : new.attempts = old.attempts)
  | settled (claims : event.claims old.id = false) (sending : old.state = .sending)
      (waits : new.state.waiting = true → old.attempts < MAX_AUTOMATIC_ATTEMPTS)
      (attempts : new.attempts = old.attempts)
  | cancelled (claims : event.claims old.id = false) (cancellable : old.state.cancellable = true)
      (cancelled : new.state = .cancelled) (attempts : new.attempts = old.attempts)

/-- Every row after a step comes from a row before it, or is new. -/
def RowSteps (event : Event) (t t' : Table) : Prop :=
  ∀ new ∈ t'.rows, (∃ old ∈ t.rows, new.id = old.id ∧ RowStep event old new) ∨
    (∀ row ∈ t.rows, row.id ≠ new.id) ∧ new.state = .queued ∧ new.attempts = 0 ∧
      event.claims new.id = false

variable {event : Event}

theorem RowSteps.of_rows (h : t'.rows = t.rows)
    (hclaims : ∀ row ∈ t.rows, event.claims row.id = false) : RowSteps event t t' := by
  intro new hnew
  rw [h] at hnew
  exact .inl ⟨new, hnew, rfl, .kept (hclaims new hnew) rfl⟩

theorem RowSteps.of_replaces {old : ComposeOutboxRow} {change : Change}
    (h : Replaces t t' old (change.apply old)) (hold : RowStep event old (change.apply old))
    (hclaims : ∀ row ∈ t.rows, row ≠ old → event.claims row.id = false) : RowSteps event t t' := by
  intro new hnew
  rcases (h.2 new).1 hnew with rfl | ⟨hmem, hne⟩
  · exact .inl ⟨old, h.1, change.id old, hold⟩
  · exact .inl ⟨new, hmem, rfl, .kept (hclaims new hmem hne) rfl⟩

/-! ### Attempts of deliveries -/

/-- A delivery knows how often its row has been claimed. -/
def Exact (s : System) : Prop :=
  ∀ d ∈ s.deliveries, ∀ row ∈ s.table.rows, row.id = d.row.id → row.attempts = d.row.attempts

theorem shouldRetry_attempts {idempotentProvider : Bool} {attempts : ℕ} {code : AppErrorCode}
    (h : shouldRetry idempotentProvider attempts code = true) :
    attempts < MAX_AUTOMATIC_ATTEMPTS :=
  of_decide_eq_true (Bool.and_eq_true_iff.1 h).1

theorem updateIn_rowSteps {id : Str} {states : RowState → Bool} {change : Change}
    (hclaims : ∀ id, event.claims id = false)
    (hmove : ∀ old, old.id = id → states old.state = true → RowStep event old (change.apply old)) :
    RowSteps event t (t.updateIn id states change).2 := by
  rcases t.updateIn_cases id states change with ⟨old, hid, hstate, hreplaces⟩ | hnone
  · exact .of_replaces hreplaces (hmove old hid hstate) fun _ _ _ => hclaims _
  · exact .of_rows (congrArg Table.rows hnone) fun _ _ => hclaims _

section

variable {serverKind : Str → ServerKind} [Chrono] {id : Str} {row : ComposeOutboxRow}

/-- `settle` keeps the attempts. -/
theorem settle_rowSteps {idempotentProvider : Bool} {result : Except AppError Posted} {clock : ℕ}
    (hclaims : ∀ id, event.claims id = false)
    (hexact : ∀ old ∈ t.rows, old.id = row.id → old.attempts = row.attempts) :
    RowSteps event t (settle t idempotentProvider row result clock) := by
  cases result with
  | ok posted =>
    rcases t.markSucceeded_cases row.id posted.originalStatusId posted.serverDomain
      (Chrono.rfc3339 clock) with ⟨old, hid, hstate, hreplaces⟩ | hrows
    · exact .of_replaces hreplaces (.settled (hclaims _) hstate (fun h => by cases h) rfl)
        fun _ _ _ => hclaims _
    · exact .of_rows hrows fun _ _ => hclaims _
  | error error =>
    obtain ⟨state, text, next, hwaiting, hsettle⟩ :=
      settle_error t idempotentProvider row error clock
    rw [hsettle]
    rcases t.updateFailure_cases row.id state text next (Chrono.rfc3339 clock) with
      ⟨old, hid, hstate, hreplaces⟩ | hrows
    · refine .of_replaces hreplaces (.settled (hclaims _) hstate (fun h => ?_) rfl)
        fun _ _ _ => hclaims _
      rw [hexact old hreplaces.1 hid]
      exact shouldRetry_attempts (hwaiting h)
    · exact .of_rows hrows fun _ _ => hclaims _

variable {s s' : System}

/-- What each step of the system does to the rows. -/
theorem WorkerStep.rowSteps (h : WorkerStep serverKind s event s') (hexact : Exact s) :
    RowSteps event s.table s'.table := by
  cases h with
  | enqueue t process loginAccounts id operationKind actingAccountAcct payloadJson now =>
    cases henqueue : t.enqueueOn loginAccounts id operationKind actingAccountAcct payloadJson
      now with
    | none =>
      simp only [Table.apply, henqueue, Option.map_none, Option.getD_none]
      exact .of_rows rfl fun _ _ => rfl
    | some enqueued =>
      obtain ⟨row, t'⟩ := enqueued
      obtain ⟨rfl, hrows, hid, -⟩ := enqueueOn_eq_some henqueue
      simp only [Table.apply, henqueue, Option.map_some, Option.getD_some]
      intro new hnew
      rw [hrows, List.mem_append, List.mem_singleton] at hnew
      rcases hnew with hnew | rfl
      · exact .inl ⟨new, hnew, rfl, .kept rfl rfl⟩
      · exact .inr ⟨fun row hrow hsame => hid (List.mem_map.2 ⟨row, hrow, hsame⟩), rfl, rfl, rfl⟩
  | retry t process id now =>
    refine updateIn_rowSteps (fun _ => rfl) fun old hid hstate => ?_
    exact .requeued rfl (.inl (beq_iff_eq.2 hid.symm)) hstate rfl rfl
  | cancel t process id now =>
    exact updateIn_rowSteps (fun _ => rfl) fun old hid hstate => .cancelled rfl hstate rfl rfl
  | recoverInterrupted t deliveries now persisted =>
    cases persisted
    · exact .of_rows rfl fun _ _ => rfl
    · intro new hnew
      rcases mem_update.1 hnew with ⟨old, hold, hstate, rfl⟩ | ⟨hnew, -⟩
      · exact .inl ⟨old, hold, rfl, .settled rfl (beq_iff_eq.1 hstate) (fun h => by cases h) rfl⟩
      · exact .inl ⟨new, hnew, rfl, .kept rfl rfl⟩
  | resume t row rows deliveries signedIn now persisted =>
    cases persisted
    · exact .of_rows rfl fun _ _ => rfl
    · simp only [if_true, Outbox.resume]
      split_ifs
      · refine updateIn_rowSteps (fun _ => rfl) fun old hid hstate => ?_
        exact .requeued rfl (.inr (beq_iff_eq.2 hid.symm)) hstate rfl rfl
      · exact .of_rows rfl fun _ _ => rfl
  | claim t deliveries row now room due claimed =>
    rcases t.claimNext_cases now with ⟨old, hdue, -, hrow, hreplaces⟩ | ⟨-, hnone⟩
    · rw [hrow] at claimed
      cases claimed
      refine .of_replaces hreplaces
        (.claimed (beq_iff_eq.2 rfl) (isDue_iff.1 hdue).1 rfl rfl) fun other hother hne => ?_
      exact beq_eq_false_iff_ne.2 fun hsame => hne (t.id_inj hother hreplaces.1 hsame.symm)
    · rw [hnone] at claimed
      cases claimed
  | settle t before after row idempotentProvider result clock persisted =>
    cases persisted
    · exact .of_rows rfl fun _ _ => rfl
    · exact settle_rowSteps (fun _ => rfl)
        (hexact ⟨row, .ended idempotentProvider result⟩ (by simp [System.deliveries]))
  | _ => exact .of_rows rfl fun _ _ => rfl

/-- The deliveries after a step were there before it, or there is one of the row it claimed. -/
theorem WorkerStep.deliveries (h : WorkerStep serverKind s event s') : ∀ d ∈ s'.deliveries,
      (∃ d' ∈ s.deliveries, d'.row = d.row) ∨ d.row ∈ s'.table.rows := by
  cases h with
  | claim t deliveries row now room due claimed =>
    intro d hd
    rcases List.mem_append.1 hd with hd | hd
    · exact .inl ⟨d, hd, rfl⟩
    · obtain ⟨old, -, -, -, -, -, hreplaces⟩ := claim_sends claimed
      rw [List.mem_singleton.1 hd]
      exact .inr ((hreplaces.2 row).2 (.inl rfl))
  | lookUp | fail | handOver | answer | edit =>
    intro d hd
    simp only [System.deliveries, Option.elim_some, List.mem_append, List.mem_cons] at hd ⊢
    rcases hd with hd | rfl | hd
    · exact .inl ⟨d, .inl hd, rfl⟩
    · exact .inl ⟨_, .inr (.inl rfl), rfl⟩
    · exact .inl ⟨d, .inr (.inr hd), rfl⟩
  | settle =>
    intro d hd
    simp only [System.deliveries, Option.elim_some, List.mem_append, List.mem_cons] at hd ⊢
    exact .inl ⟨d, hd.imp_right .inr, rfl⟩
  | start | stop | crash => exact fun d hd => absurd hd List.not_mem_nil
  | _ =>
    intro d hd
    unfold System.deliveries at hd ⊢
    exact .inl ⟨d, hd, rfl⟩

theorem Exact.step (h : Exact s) (hsound : Sound serverKind s)
    (hstep : WorkerStep serverKind s event s') : Exact s' := by
  intro d hd row hrow hid
  rcases hstep.deliveries d hd with ⟨d', hd', hsame⟩ | hmem
  · rw [← hsame] at hid ⊢
    obtain ⟨sent, hsent, hsentId, hsending, -⟩ := hsound.sends d' hd'
    rcases hstep.rowSteps h row hrow with ⟨old, hold, holdId, hmove⟩ | ⟨hnew, -⟩
    · have hattempts := h d' hd' old hold (holdId.symm.trans hid)
      obtain rfl := s.table.id_inj hsent hold (hsentId.trans (hid.symm.trans holdId))
      cases hmove with
      | kept _ same => rw [same, hattempts]
      | claimed _ waiting =>
        rw [hsending] at waiting
        cases waiting
      | requeued _ _ _ _ attempts => rw [attempts, hattempts]
      | settled _ _ _ attempts => rw [attempts, hattempts]
      | cancelled _ _ _ attempts => rw [attempts, hattempts]
    · exact absurd (hsentId.trans hid.symm) (hnew sent hsent)
  · rw [s'.table.id_inj hrow hmem hid]

/-! ### One row over time -/

omit [Chrono] in
theorem Persist.get (h : Persist t t') (hrow : t.get id = some row) :
    ∃ row', t'.get id = some row' := by
  obtain ⟨hmem, hid⟩ := get_eq_some.1 hrow
  obtain ⟨row', hrow', hid', -⟩ := h row hmem
  exact ⟨row', get_eq_some.2 ⟨hrow', hid'.trans hid⟩⟩

theorem WorkerStep.claimed (h : WorkerStep serverKind s event s')
    (hclaims : event.claims id = true) : ∃ row, s'.table.get id = some row := by
  cases h with
  | claim t deliveries row now room due claimed =>
    obtain ⟨old, -, -, -, -, -, hreplaces⟩ := claim_sends claimed
    exact ⟨row, get_eq_some.2 ⟨(hreplaces.2 row).2 (.inl rfl), beq_iff_eq.1 hclaims⟩⟩
  | _ => cases hclaims

/-- A row takes one of its steps, or it is not there before. -/
theorem WorkerStep.get (h : WorkerStep serverKind s event s') (hexact : Exact s) (id : Str) :
    (∃ old new, s.table.get id = some old ∧ s'.table.get id = some new ∧ old.id = id ∧
      RowStep event old new) ∨
    s.table.get id = none ∧ event.claims id = false ∧
      ∀ new, s'.table.get id = some new → new.state = .queued ∧ new.attempts = 0 := by
  cases hnew : s'.table.get id with
  | none =>
    right
    refine ⟨?_, ?_, nofun⟩
    · cases hold : s.table.get id with
      | none => rfl
      | some old =>
        obtain ⟨row', hrow'⟩ := h.persist.get hold
        rw [hnew] at hrow'
        cases hrow'
    · rw [← Bool.not_eq_true]
      intro hclaims
      obtain ⟨row, hrow⟩ := h.claimed hclaims
      rw [hnew] at hrow
      cases hrow
  | some new =>
    obtain ⟨hmem, rfl⟩ := get_eq_some.1 hnew
    rcases h.rowSteps hexact new hmem with ⟨old, hold, hid, hmove⟩ | ⟨hfresh, hfacts, hattempts, hc⟩
    · exact .inl ⟨old, new, get_eq_some.2 ⟨hold, hid.symm⟩, rfl, hid.symm, hmove⟩
    · refine .inr ⟨?_, hc, fun new' hnew' => ?_⟩
      · cases hold : s.table.get new.id with
        | none => rfl
        | some old =>
          obtain ⟨hmem', hid⟩ := get_eq_some.1 hold
          exact absurd hid (hfresh old hmem')
      · cases hnew'
        exact ⟨hfacts, hattempts⟩

/-- The attempts of the row of an id, if there is one. -/
def attemptsOf (t : Table) (id : Str) : ℕ := (t.get id).elim 0 (·.attempts)

/-- Only a claim counts, and each does. -/
theorem WorkerStep.attemptsOf (h : WorkerStep serverKind s event s') (hexact : Exact s) (id : Str) :
    attemptsOf s'.table id = attemptsOf s.table id + (event.claims id).toNat := by
  unfold Outbox.attemptsOf
  rcases h.get hexact id with ⟨old, new, hold, hnew, rfl, hmove⟩ | ⟨hold, hclaims, hnew⟩
  · rw [hold, hnew, Option.elim_some, Option.elim_some]
    cases hmove with
    | kept claims same => rw [claims, same]; rfl
    | claimed claims _ _ attempts => rw [claims, attempts]; rfl
    | requeued claims _ _ _ attempts => rw [claims, attempts]; rfl
    | settled claims _ _ attempts => rw [claims, attempts]; rfl
    | cancelled claims _ _ attempts => rw [claims, attempts]; rfl
  · rw [hold, hclaims]
    cases hget : s'.table.get id with
    | none => rfl
    | some new => exact (hnew new hget).2

/-! ### What is left -/

/-- How often a row may be claimed before the user or a startup lets it. -/
def ComposeOutboxRow.budget (row : ComposeOutboxRow) : ℕ :=
  if row.state.waiting then max 1 (MAX_AUTOMATIC_ATTEMPTS - row.attempts)
  else MAX_AUTOMATIC_ATTEMPTS - row.attempts

omit [Chrono] in
theorem budget_le (row : ComposeOutboxRow) : row.budget ≤ MAX_AUTOMATIC_ATTEMPTS := by
  unfold ComposeOutboxRow.budget MAX_AUTOMATIC_ATTEMPTS
  split_ifs <;> omega

omit [Chrono] in
/-- A claim is paid for by the budget, which only the user and a startup add to, by one. -/
theorem RowStep.budget {old new : ComposeOutboxRow} (h : RowStep event old new) :
    (event.claims old.id).toNat + new.budget ≤
      old.budget + (event.resumes old.id).toNat + (event.retries old.id).toNat := by
  unfold ComposeOutboxRow.budget
  cases h with
  | kept claims same =>
    rw [claims, same, Bool.toNat_false]
    omega
  | claimed claims waiting sending attempts =>
    have hsending : ¬ new.state.waiting = true := by
      rw [sending]
      exact Bool.false_ne_true
    rw [claims, if_neg hsending, if_pos waiting, attempts, Bool.toNat_true]
    omega
  | requeued claims again retryable queued attempts =>
    have hold : ¬ old.state.waiting = true := by
      intro hwaiting
      cases hstate : old.state <;> rw [hstate] at retryable hwaiting <;> simp_all [RowState.waiting,
        RowState.retryable]
    have hone : 1 ≤ (event.resumes old.id).toNat + (event.retries old.id).toNat := by
      rcases again with again | again
      · rw [again, Bool.toNat_true]
        omega
      · rw [again, Bool.toNat_true]
        omega
    rw [claims, if_neg hold, attempts, Bool.toNat_false]
    split_ifs <;> omega
  | settled claims sending waits attempts =>
    have hold : ¬ old.state.waiting = true := by
      rw [sending]
      exact Bool.false_ne_true
    rw [claims, if_neg hold, attempts, Bool.toNat_false]
    split_ifs with hwaiting
    · have := waits hwaiting
      omega
    · omega
  | cancelled claims _ cancelled attempts =>
    have hnew : ¬ new.state.waiting = true := by
      rw [cancelled]
      exact Bool.false_ne_true
    rw [claims, if_neg hnew, attempts, Bool.toNat_false]
    split_ifs <;> omega

/-- The budget of an id; a row that is not there yet has all of it. -/
def budgetOf (t : Table) (id : Str) : ℕ :=
  (t.get id).elim MAX_AUTOMATIC_ATTEMPTS ComposeOutboxRow.budget

omit [Chrono] in
theorem budgetOf_le (t : Table) (id : Str) : budgetOf t id ≤ MAX_AUTOMATIC_ATTEMPTS := by
  unfold budgetOf
  cases t.get id with
  | none => exact le_refl _
  | some row => exact budget_le row

theorem WorkerStep.budgetOf (h : WorkerStep serverKind s event s') (hexact : Exact s) (id : Str) :
    (event.claims id).toNat + budgetOf s'.table id ≤
      budgetOf s.table id + (event.resumes id).toNat + (event.retries id).toNat := by
  rcases h.get hexact id with ⟨old, new, hold, hnew, rfl, hmove⟩ | ⟨hold, hclaims, -⟩
  · unfold Outbox.budgetOf
    rw [hold, hnew]
    exact hmove.budget
  · have hle := budgetOf_le s'.table id
    have hall : Outbox.budgetOf s.table id = MAX_AUTOMATIC_ATTEMPTS := by
      rw [Outbox.budgetOf, hold]
      rfl
    rw [hclaims, hall, Bool.toNat_false]
    omega

/-! ### Recoveries at startup -/

/-- Is the worker recovering the rows of the last process? -/
def System.recovering (s : System) : Bool :=
  match s.process with
  | some ⟨.starting, _⟩ | some ⟨.recovered, _⟩ | some ⟨.resuming _, _⟩ => true
  | _ => false

/-- May the recovery under way still resume the row? -/
def System.mayResume (s : System) (id : Str) : Bool :=
  match s.process with
  | some ⟨.starting, _⟩ | some ⟨.recovered, _⟩ => true
  | some ⟨.resuming rows, _⟩ => (rows.map (·.id)).contains id
  | _ => false

/-- The recoveries at startup during a run: those that begin, and the one that is under way. -/
def recoveries (s : System) (events : List Event) : ℕ :=
  s.recovering.toNat + events.countP Event.starts

omit [Chrono] in
theorem mayResume_le (s : System) (id : Str) : (s.mayResume id).toNat ≤ s.recovering.toNat := by
  obtain ⟨t, _ | ⟨phase, deliveries⟩⟩ := s
  · exact le_refl _
  · cases phase with
    | resuming rows => exact Bool.toNat_le _
    | _ => exact le_refl _

/-- A recovery has each row once. -/
def Listed (s : System) : Prop :=
  ∀ rows deliveries, s.process = some ⟨.resuming rows, deliveries⟩ → (rows.map (·.id)).Nodup

omit [Chrono] in
theorem nodup_list (t : Table) : ((t.list.filter recoverable).map (·.id)).Nodup := by
  have hsub : (t.list.filter recoverable).Sublist (t.rows.mergeSort _) :=
    List.filter_sublist.trans (List.take_sublist _ _)
  refine List.Nodup.sublist (hsub.map _) ?_
  exact ((List.mergeSort_perm _ _).map _).nodup_iff.2 t.ids

theorem Listed.step (h : Listed s) (hstep : WorkerStep serverKind s event s') : Listed s' := by
  intro rows' deliveries' hprocess
  cases hstep with
  | enqueue | retry | cancel =>
    exact h rows' deliveries' hprocess
  | list t deliveries read =>
    cases hprocess
    cases read
    · exact List.nodup_nil
    · exact nodup_list t
  | resume t row rows deliveries signedIn now persisted =>
    cases hprocess
    exact (List.nodup_cons.1 (h _ _ rfl)).2
  | _ => cases hprocess

/-- A recovery resumes each row once. -/
theorem Listed.mayResume (h : Listed s) (hstep : WorkerStep serverKind s event s') (id : Str) :
    (event.resumes id).toNat + (s'.mayResume id).toNat ≤
      (s.mayResume id).toNat + event.starts.toNat := by
  cases hstep with
  | start | recoverInterrupted => exact le_refl _
  | list t deliveries read =>
    show 0 + _ ≤ 1 + 0
    rw [Nat.zero_add]
    exact Bool.toNat_le _
  | resume t row rows deliveries signedIn now persisted =>
    have hnew := (List.nodup_cons.1 (h (row :: rows) deliveries rfl)).1
    show (row.id == id).toNat + ((rows.map (·.id)).contains id).toNat ≤
      (((row :: rows).map (·.id)).contains id).toNat + 0
    by_cases hid : row.id = id
    · subst hid
      have hfalse : (rows.map (·.id)).contains row.id = false := by simpa using hnew
      rw [hfalse]
      simp
    · have hne : (row.id == id) = false := beq_eq_false_iff_ne.2 hid
      have hne' : (id == row.id) = false := beq_eq_false_iff_ne.2 fun heq => hid heq.symm
      rw [hne, List.map_cons, List.contains_cons, hne', Bool.false_or, Bool.toNat_false]
      omega
  | stop | crash | work => exact Nat.zero_le _
  | _ => exact (Nat.zero_add _).le

/-! ### Runs -/

/-- What holds in every state that is reached. -/
structure Kept (serverKind : Str → ServerKind) (s : System) : Prop where
  sound : Sound serverKind s
  exact : Exact s
  listed : Listed s

omit [Chrono] in
theorem Kept.init : Kept serverKind .init where
  sound := .init
  exact := by simp [Exact, System.deliveries, System.init]
  listed := by simp [Listed, System.init]

theorem Kept.step (h : Kept serverKind s) (hstep : WorkerStep serverKind s event s') :
    Kept serverKind s' :=
  ⟨h.sound.step hstep, h.exact.step h.sound hstep, h.listed.step hstep⟩

variable {events : List Event}

theorem Kept.of_run (h : Kept serverKind s) (hrun : Run (WorkerStep serverKind) s events s') :
    Kept serverKind s' :=
  hrun.invariant (I := Kept serverKind) h fun h hstep => h.step hstep

theorem attemptsOf_of_run (h : Kept serverKind s) (hrun : Run (WorkerStep serverKind) s events s')
    (id : Str) : attemptsOf s'.table id = attemptsOf s.table id + claims id events := by
  induction hrun with
  | nil => rfl
  | @snoc t u events event run last ih =>
    rw [last.attemptsOf (h.of_run run).exact, ih, claims, claims, List.countP_append,
      List.countP_singleton, Nat.add_assoc]
    cases event.claims id <;> rfl

/-- A run claims a row no more often than the budget, the user and the recoveries let it. -/
theorem claims_le (h : Kept serverKind s) (hrun : Run (WorkerStep serverKind) s events s')
    (id : Str) : claims id events + budgetOf s'.table id + (s'.mayResume id).toNat ≤
      budgetOf s.table id + (s.mayResume id).toNat + events.countP Event.starts +
        retries id events := by
  induction hrun with
  | nil => exact le_of_eq (by simp [claims, retries])
  | @snoc t u events event run last ih =>
    have hkept := h.of_run run
    have hbudget := last.budgetOf hkept.exact id
    have hresume := hkept.listed.mayResume last id
    have hcount : ∀ p : Event → Bool,
        (events ++ [event]).countP p = events.countP p + (p event).toNat := by
      intro p
      rw [List.countP_append, List.countP_singleton]
      cases p event <;> rfl
    have hrec := ih
    simp only [claims, retries, hcount] at hrec ⊢
    omega

/-- A row that has succeeded is left alone. -/
theorem succeeded_of_run (h : Kept serverKind s) (hrun : Run (WorkerStep serverKind) s events s')
    (hrow : row ∈ s.table.rows) (hstate : row.state = .succeeded) : row ∈ s'.table.rows := by
  induction hrun with
  | nil => exact hrow
  | @snoc t u events event run last ih =>
    have hget : t.table.get row.id = some row := get_eq_some.2 ⟨ih, rfl⟩
    rcases last.get (h.of_run run).exact row.id with ⟨old, new, hold, hnew, -, hmove⟩ | ⟨hold, -⟩
    · rw [hget] at hold
      cases hold
      have hsame : new = row := by
        cases hmove with
        | kept _ same => exact same
        | claimed _ waiting =>
          rw [hstate] at waiting
          cases waiting
        | requeued _ _ retryable =>
          rw [hstate] at retryable
          cases retryable
        | settled _ sending =>
          rw [hstate] at sending
          cases sending
        | cancelled _ cancellable =>
          rw [hstate] at cancellable
          cases cancellable
      rw [← hsame]
      exact (get_eq_some.1 hnew).1
    · rw [hget] at hold
      cases hold

/-- What the runs up to a state and from it add up to. -/
structure Accounts (serverKind : Str → ServerKind) (events : List Event) (s : System) : Prop where
  /-- The attempts of a row are its claims. -/
  attempts : ∀ row ∈ s.table.rows, row.attempts = claims row.id events
  /-- A row that has succeeded stays as it is. -/
  succeeded : ∀ events' s', Run (WorkerStep serverKind) s events' s' →
    ∀ row ∈ s.table.rows, row.state = .succeeded → row ∈ s'.table.rows
  /-- A row that is not in delivery is not settled. -/
  unsent : ∀ id, (∀ row ∈ s.table.rows, row.id = id → row.state ≠ .sending) →
    (∀ statusId serverDomain now,
      (s.table.markSucceeded id statusId serverDomain now).2.rows = s.table.rows) ∧
    ∀ state error nextAttemptAt now,
      (s.table.updateFailure id state error nextAttemptAt now).2.rows = s.table.rows
  /-- Without the user's retry, a row is claimed no more often than the limit and once for each
  recovery at startup. -/
  bounded : ∀ events' s', Run (WorkerStep serverKind) s events' s' → ∀ id, retries id events' = 0 →
    claims id events' ≤ MAX_AUTOMATIC_ATTEMPTS + recoveries s events'

theorem accounts_of_run (events : List Event) (s : System)
    (hrun : Run (WorkerStep serverKind) .init events s) : Accounts serverKind events s := by
  have hkept := Kept.init.of_run hrun
  refine ⟨fun row hrow => ?_, fun events' s' hrun' row hrow hstate => ?_, fun id hid => ⟨?_, ?_⟩,
    fun events' s' hrun' id hretries => ?_⟩
  · have hattempts := attemptsOf_of_run .init hrun row.id
    have hget : s.table.get row.id = some row := get_eq_some.2 ⟨hrow, rfl⟩
    rw [attemptsOf, hget] at hattempts
    exact hattempts.trans (Nat.zero_add _)
  · exact succeeded_of_run hkept hrun' hrow hstate
  · intro statusId serverDomain now
    rcases s.table.markSucceeded_cases id statusId serverDomain now with
      ⟨old, hold, hstate, hreplaces⟩ | hrows
    · exact absurd hstate (hid old hreplaces.1 hold)
    · exact hrows
  · intro state error nextAttemptAt now
    rcases s.table.updateFailure_cases id state error nextAttemptAt now with
      ⟨old, hold, hstate, hreplaces⟩ | hrows
    · exact absurd hstate (hid old hreplaces.1 hold)
    · exact hrows
  · have hle := claims_le hkept hrun' id
    have hbudget := budgetOf_le s.table id
    have hresume := mayResume_le s id
    unfold recoveries
    omega

end

section

attribute [local instance] plainChrono

/-- A post that times out is claimed once. -/
theorem accounts_of_run_timeout : ∃ s, Run (WorkerStep fun _ => .misskey) .init sampleEvents s ∧
    Accounts (fun _ => .misskey) sampleEvents s := by
  obtain ⟨s, hrun⟩ : ∃ s, Run (WorkerStep fun _ => .misskey) .init sampleEvents s := by
    refine ⟨_, run_cons.2 ⟨_, .start _, run_cons.2 ⟨_, .recoverInterrupted _ _ _ true,
      run_cons.2 ⟨_, .list _ _ false, run_cons.2 ⟨_, .work _ _,
      run_cons.2 ⟨_, .enqueue _ _ _ _ _ _ _ _, run_cons.2 ⟨_,
        .claim _ _ sampleRow _ (by decide) (by decide) (by decide),
      run_cons.2 ⟨_, .lookUp _ [] [] sampleRow true, run_cons.2 ⟨_,
        .handOver _ [] [] sampleRow _ true rfl,
      run_cons.2 ⟨_, .answer _ [] [] sampleRow _ true _ (by rintro _ ⟨⟩ ⟨⟩), run_cons.2 ⟨_,
        .settle _ [] [] sampleRow _ _ 3 true, .nil _⟩⟩⟩⟩⟩⟩⟩⟩⟩⟩⟩
  exact ⟨s, hrun, accounts_of_run sampleEvents s hrun⟩

end

end Awayuki.Outbox
