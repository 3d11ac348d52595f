import Awayuki.Outbox.Table
import Awayuki.Library.Runs

/-!
# Compose outbox: serial delivery

`claim_next` passes over a row while an older row of its actor is pending.  So one actor has at
most one row in delivery, as long as no row becomes pending that is older than a row in delivery:
a retried row keeps its creation time, and the clock may go back between two rows.

* `Action`, `Table.apply`: everything that happens to the table;
* `Serial`: a row in delivery is the oldest pending one of its actor;
* `Ordered`: the actions that keep that order.
-/

namespace Awayuki.Outbox

open Runs

/-! ### Startup recovery -/

variable {a b : ComposeOutboxRow}

/-- A row that `recover_interrupted` has stopped. -/
def recoverable (row : ComposeOutboxRow) : Bool :=
  row.state == .uncertain && row.lastError == some "errors.delivery_uncertain".toList

/-- Resumes one row, when its account's provider is known to be idempotent. -/
def resume (retryIsSafe : Str → Bool) (now : Str) (t : Table) (row : ComposeOutboxRow) : Table :=
  if retryIsSafe row.actingAccountAcct then (t.retry row.id now).2 else t

def recoverIdempotentInterruptedItems (retryIsSafe : Str → Bool) (now : Str) (t : Table) : Table :=
  (t.list.filter recoverable).foldl (resume retryIsSafe now) t

/-! ### Actions -/

inductive Action
  | enqueue (loginAccounts : List Str) (id : Str) (operationKind : OperationKind)
      (actingAccountAcct payloadJson now : Str)
  | claimNext (now : Str)
  | markSucceeded (id statusId serverDomain now : Str)
  | markRetrying (id error nextAttemptAt now : Str)
  | markFailed (id error now : Str)
  | markUncertain (id error now : Str)
  | retry (id now : Str)
  | cancel (id now : Str)
  | recoverInterrupted (now : Str)
  | startup (retryIsSafe : Str → Bool) (now : Str)

def Table.apply (t : Table) : Action → Table
  | .enqueue loginAccounts id operationKind actingAccountAcct payloadJson now =>
    ((t.enqueueOn loginAccounts id operationKind actingAccountAcct payloadJson now).map (·.2)).getD t
  | .claimNext now => (t.claimNext now).2
  | .markSucceeded id statusId serverDomain now => (t.markSucceeded id statusId serverDomain now).2
  | .markRetrying id error nextAttemptAt now => (t.markRetrying id error nextAttemptAt now).2
  | .markFailed id error now => (t.markFailed id error now).2
  | .markUncertain id error now => (t.markUncertain id error now).2
  | .retry id now => (t.retry id now).2
  | .cancel id now => (t.cancel id now).2
  | .recoverInterrupted now => t.recoverInterrupted now
  | .startup retryIsSafe now =>
    recoverIdempotentInterruptedItems retryIsSafe now (t.recoverInterrupted now)

/-- One action on the table. -/
def Step (t : Table) (action : Action) (t' : Table) : Prop := t' = t.apply action

/-! ### The order of delivery -/

/-- A row in delivery is older than every other pending row of its actor. -/
def Serial (t : Table) : Prop :=
  ∀ a ∈ t.rows, a.state = .sending → ∀ b ∈ t.rows, b.actingAccountAcct = a.actingAccountAcct →
    b.state.pending = true → b = a ∨ older a b = true

/-- No row is in delivery. -/
def Idle (t : Table) : Prop := ∀ row ∈ t.rows, row.state ≠ .sending

variable {t : Table}

theorem Idle.serial (h : Idle t) : Serial t :=
  fun a ha hsending => absurd hsending (h a ha)

theorem older_asymm (h : older a b = true) : older b a = false := by
  rw [← Bool.not_eq_true, older_iff]
  exact lt_asymm (older_iff.1 h)

/-- In a table in that order an actor has at most one row in delivery. -/
theorem Serial.unique (h : Serial t) (ha : a ∈ t.rows) (hb : b ∈ t.rows) (hsa : a.state = .sending)
    (hsb : b.state = .sending) (hactor : a.actingAccountAcct = b.actingAccountAcct) : a = b := by
  rcases h a ha hsa b hb hactor.symm (by rw [hsb]; rfl) with hab | hab
  · exact hab.symm
  rcases h b hb hsb a ha hactor (by rw [hsa]; rfl) with hba | hba
  · exact hba
  · rw [older_asymm hab] at hba
    cases hba

/-- Every row after an action was there before, at the same place in the order, and is no more
pending or in delivery than it was. -/
def Calms (t t' : Table) : Prop :=
  ∀ new ∈ t'.rows, ∃ old ∈ t.rows, new.rowid = old.rowid ∧ new.createdAt = old.createdAt ∧
    new.actingAccountAcct = old.actingAccountAcct ∧
    (new.state.pending = true → old.state.pending = true) ∧
    (new.state = .sending → old.state = .sending)

theorem older_congr {a' b' : ComposeOutboxRow} (ha : a'.rowid = a.rowid)
    (ha' : a'.createdAt = a.createdAt) (hb : b'.rowid = b.rowid)
    (hb' : b'.createdAt = b.createdAt) : older a' b' = older a b := by
  rw [older, older, ha, ha', hb, hb']

variable {t' : Table}

theorem Calms.of_rows (h : t'.rows = t.rows) : Calms t t' :=
  fun new hnew => ⟨new, h ▸ hnew, rfl, rfl, rfl, id, id⟩

theorem Calms.of_replaces {old : ComposeOutboxRow} {change : Table.Change}
    (h : Table.Replaces t t' old (change.apply old))
    (hpending : (change.apply old).state.pending = true → old.state.pending = true)
    (hsending : (change.apply old).state = .sending → old.state = .sending) : Calms t t' := by
  intro new hnew
  rcases (h.2 new).1 hnew with rfl | ⟨hmem, -⟩
  · exact ⟨old, h.1, change.rowid old, change.createdAt old, change.actingAccountAcct old, hpending,
      hsending⟩
  · exact ⟨new, hmem, rfl, rfl, rfl, id, id⟩

theorem Serial.calms (h : Serial t) (hcalms : Calms t t') : Serial t' := by
  intro a ha hsending b hb hactor hpending
  obtain ⟨a₀, ha₀, harowid, hacreated, haactor, -, hasending⟩ := hcalms a ha
  obtain ⟨b₀, hb₀, hbrowid, hbcreated, hbactor, hbpending, -⟩ := hcalms b hb
  rw [older_congr harowid hacreated hbrowid hbcreated]
  refine (h a₀ ha₀ (hasending hsending) b₀ hb₀ ?_ (hbpending hpending)).imp_left ?_
  · rw [← hbactor, ← haactor, hactor]
  · rintro rfl
    exact t'.rowid_inj hb ha (hbrowid.trans harowid.symm)

/-! ### What each action does to the order -/

theorem Serial.claimNext (h : Serial t) (now : Str) : Serial (t.claimNext now).2 := by
  rcases t.claimNext_cases now with ⟨old, hdue, -, -, hold, hrows⟩ | ⟨-, hnone⟩
  swap
  · rw [hnone]
    exact h
  obtain ⟨hwaiting, -, holder⟩ := Table.isDue_iff.1 hdue
  have hpending : old.state.pending = true := by
    cases hstate : old.state <;> simp_all [RowState.waiting, RowState.pending]
  -- the claimed row stands where the candidate stood, and nothing pending is older
  have hfirst : ∀ row ∈ t.rows, row.actingAccountAcct = old.actingAccountAcct →
      row.state.pending = true → row ≠ old → older old row = true := by
    intro row hrow hactor hrowPending hne
    rcases t.older_total hrow hold hne with hlt | hlt
    · rw [holder row hrow hactor hlt] at hrowPending
      cases hrowPending
    · exact hlt
  intro a ha hsending b hb hactor hbpending
  rcases (hrows a).1 ha with rfl | ⟨ha, hane⟩ <;> rcases (hrows b).1 hb with rfl | ⟨hb, hbne⟩
  · exact .inl rfl
  · exact .inr (hfirst b hb hactor hbpending hbne)
  · right
    rcases h a ha hsending old hold hactor hpending with heq | hlt
    · exact absurd heq.symm hane
    · exact hlt
  · exact h a ha hsending b hb hactor hbpending

theorem Serial.enqueue (h : Serial t) {loginAccounts : List Str} {id : Str}
    {operationKind : OperationKind} {actingAccountAcct payloadJson now : Str}
    (hclock : ∀ row ∈ t.rows, row.actingAccountAcct = actingAccountAcct → row.state = .sending →
      row.createdAt ≤ now) :
    Serial (t.apply (.enqueue loginAccounts id operationKind actingAccountAcct payloadJson now)) := by
  cases henqueue : t.enqueueOn loginAccounts id operationKind actingAccountAcct payloadJson now with
  | none =>
    simp only [Table.apply, henqueue, Option.map_none, Option.getD_none]
    exact h
  | some enqueued =>
    obtain ⟨row, t'⟩ := enqueued
    obtain ⟨rfl, hrows, -, -⟩ := Table.enqueueOn_eq_some henqueue
    simp only [Table.apply, henqueue, Option.map_some, Option.getD_some]
    intro a ha hsending b hb hactor hpending
    rw [hrows, List.mem_append, List.mem_singleton] at ha hb
    rcases ha with ha | rfl
    swap
    · cases hsending
    rcases hb with hb | rfl
    · exact h a ha hsending b hb hactor hpending
    · right
      rw [older_iff, ComposeOutboxRow.key, ComposeOutboxRow.key, Prod.Lex.toLex_lt_toLex]
      rcases (hclock a ha hactor.symm hsending).lt_or_eq with hlt | heq
      · exact .inl hlt
      · exact .inr ⟨heq, Table.rowid_lt_nextRowid ha⟩

theorem Serial.retry (h : Serial t) {id now : Str}
    (horder : ∀ old ∈ t.rows, old.id = id → old.state.retryable = true → ∀ row ∈ t.rows,
      row.actingAccountAcct = old.actingAccountAcct → row.state = .sending →
      older row old = true) : Serial (t.retry id now).2 := by
  rcases t.updateIn_cases id RowState.retryable (Table.requeue now) with
    ⟨old, hid, hstate, hold, hrows⟩ | hnone
  swap
  · rw [Table.retry, hnone]
    exact h
  intro a ha hsending b hb hactor hpending
  rcases (hrows a).1 ha with rfl | ⟨ha, -⟩
  · cases hsending
  rcases (hrows b).1 hb with rfl | ⟨hb, -⟩
  · exact .inr (horder old hold hid hstate a ha hactor.symm hsending)
  · exact h a ha hsending b hb hactor hpending

theorem idle_recoverInterrupted (t : Table) (now : Str) : Idle (t.recoverInterrupted now) := by
  intro row hrow hsending
  rcases Table.mem_update.1 hrow with ⟨old, -, -, rfl⟩ | ⟨-, hstate⟩
  · cases hsending
  · simp [hsending] at hstate

theorem Idle.retry (h : Idle t) (id now : Str) : Idle (t.retry id now).2 := by
  rcases t.updateIn_cases id RowState.retryable (Table.requeue now) with
    ⟨old, -, -, -, hrows⟩ | hnone
  · intro row hrow
    rcases (hrows row).1 hrow with rfl | ⟨hmem, -⟩
    · exact nofun
    · exact h row hmem
  · rw [Table.retry, hnone]
    exact h

/-- After the recovery at startup no row is in delivery. -/
theorem idle_startup (t : Table) (retryIsSafe : Str → Bool) (now : Str) :
    Idle (t.apply (.startup retryIsSafe now)) := by
  have hloop : ∀ (rows : List ComposeOutboxRow) {t : Table}, Idle t →
      Idle (rows.foldl (resume retryIsSafe now) t) := by
    intro rows
    induction rows with
    | nil => exact fun h => h
    | cons row rows ih =>
      intro t h
      refine ih ?_
      unfold resume
      split_ifs
      · exact h.retry row.id now
      · exact h
  exact hloop _ (idle_recoverInterrupted t now)

/-! ### Runs -/

/-- The action makes no row pending that is older than a row of its actor in delivery: a new row
is not created before it, and a row that is retried was not. -/
def Ordered (t : Table) : Action → Prop
  | .enqueue _ _ _ actingAccountAcct _ now => ∀ row ∈ t.rows,
      row.actingAccountAcct = actingAccountAcct → row.state = .sending → row.createdAt ≤ now
  | .retry id _ => ∀ old ∈ t.rows, old.id = id → old.state.retryable = true → ∀ row ∈ t.rows,
      row.actingAccountAcct = old.actingAccountAcct → row.state = .sending → older row old = true
  | _ => True

instance (t : Table) : (action : Action) → Decidable (Ordered t action)
  | .enqueue _ _ _ actingAccountAcct _ now => inferInstanceAs (Decidable (∀ row ∈ t.rows,
      row.actingAccountAcct = actingAccountAcct → row.state = .sending → row.createdAt ≤ now))
  | .retry id _ => inferInstanceAs (Decidable (∀ old ∈ t.rows, old.id = id →
      old.state.retryable = true → ∀ row ∈ t.rows,
      row.actingAccountAcct = old.actingAccountAcct → row.state = .sending →
      older row old = true))
  | .claimNext _ | .markSucceeded .. | .markRetrying .. | .markFailed .. | .markUncertain ..
  | .cancel .. | .recoverInterrupted _ | .startup .. => isTrue trivial

/-- An ordered action keeps the order of delivery. -/
theorem Serial.apply (h : Serial t) {action : Action} (hordered : Ordered t action) :
    Serial (t.apply action) := by
  cases action with
  | enqueue => exact h.enqueue hordered
  | claimNext now => exact h.claimNext now
  | markSucceeded id statusId serverDomain now =>
    rcases t.markSucceeded_cases id statusId serverDomain now with ⟨old, -, -, hreplaces⟩ | hrows
    · exact h.calms (.of_replaces hreplaces nofun nofun)
    · exact h.calms (.of_rows hrows)
  | markRetrying id error nextAttemptAt now =>
    rcases t.updateFailure_cases id .retrying error nextAttemptAt now with
      ⟨old, -, hstate, hreplaces⟩ | hrows
    · exact h.calms (.of_replaces hreplaces (fun _ => by rw [hstate]; rfl) nofun)
    · exact h.calms (.of_rows hrows)
  | markFailed id error now =>
    rcases t.updateFailure_cases id .failed error now now with ⟨old, -, -, hreplaces⟩ | hrows
    · exact h.calms (.of_replaces hreplaces nofun nofun)
    · exact h.calms (.of_rows hrows)
  | markUncertain id error now =>
    rcases t.updateFailure_cases id .uncertain error now now with ⟨old, -, -, hreplaces⟩ | hrows
    · exact h.calms (.of_replaces hreplaces nofun nofun)
    · exact h.calms (.of_rows hrows)
  | retry id now => exact h.retry hordered
  | cancel id now =>
    rcases t.updateIn_cases id RowState.cancellable (Table.withdraw now) with
      ⟨old, -, -, hreplaces⟩ | hnone
    · exact h.calms (.of_replaces hreplaces nofun nofun)
    · exact h.calms (.of_rows (congrArg Table.rows hnone))
  | recoverInterrupted now => exact (idle_recoverInterrupted t now).serial
  | startup retryIsSafe now => exact (idle_startup t retryIsSafe now).serial

/-- One ordered action on the table. -/
def OrderedStep (t : Table) (action : Action) (t' : Table) : Prop :=
  Ordered t action ∧ Step t action t'

theorem serial_of_run {actions : List Action} (h : Run OrderedStep .empty actions t) :
    Serial t := by
  refine h.invariant (I := Serial) (fun a ha => nomatch ha) ?_
  rintro t action t' hserial ⟨hordered, rfl⟩
  exact hserial.apply hordered

/-- In every state of a run of ordered actions, an actor has at most one row in delivery. -/
theorem sending_unique (actions : List Action) (t : Table)
    (h : Run OrderedStep .empty actions t) :
    ∀ a ∈ t.rows, ∀ b ∈ t.rows, a.state = .sending → b.state = .sending →
      a.actingAccountAcct = b.actingAccountAcct → a = b :=
  fun _ ha _ hb hsa hsb hactor => (serial_of_run h).unique ha hb hsa hsb hactor

/-- Two posts of one account, claimed in order. -/
theorem sending_unique_twoPosts :
    let actions : List Action := [.enqueue ["alice".toList] "1" .post "alice" "" "09:00",
      .enqueue ["alice".toList] "2" .post "alice" "" "09:01", .claimNext "09:02",
      .claimNext "09:03"]
    ∀ a ∈ (actions.foldl Table.apply .empty).rows, ∀ b ∈ (actions.foldl Table.apply .empty).rows,
      a.state = .sending → b.state = .sending → a.actingAccountAcct = b.actingAccountAcct → a = b :=
  sending_unique [.enqueue ["alice".toList] "1" .post "alice" "" "09:00",
    .enqueue ["alice".toList] "2" .post "alice" "" "09:01", .claimNext "09:02",
    .claimNext "09:03"] _ <|
    run_cons.2 ⟨_, ⟨by decide, rfl⟩, run_cons.2 ⟨_, ⟨by decide, rfl⟩,
      run_cons.2 ⟨_, ⟨by decide, rfl⟩, run_cons.2 ⟨_, ⟨by decide, rfl⟩, .nil _⟩⟩⟩⟩

/-- A post fails, the next one is claimed, the user retries the first, and it is claimed as
well. -/
theorem not_sending_unique : ∃ actions t, Run Step .empty actions t ∧
    ∃ a ∈ t.rows, ∃ b ∈ t.rows, a.state = .sending ∧ b.state = .sending ∧
      a.actingAccountAcct = b.actingAccountAcct ∧ a ≠ b := by
  refine ⟨[.enqueue ["alice".toList] "1" .post "alice" "" "09:00", .claimNext "09:01",
    .markFailed "1" "errors.timeout" "09:02",
    .enqueue ["alice".toList] "2" .post "alice" "" "09:03", .claimNext "09:04",
    .retry "1" "09:05", .claimNext "09:06"], _,
    .snoc (.snoc (.snoc (.snoc (.snoc (.snoc (.snoc (.nil _) rfl) rfl) rfl) rfl) rfl) rfl) rfl, ?_⟩
  decide

end Awayuki.Outbox
