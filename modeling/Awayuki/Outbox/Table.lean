import Awayuki.Text
import Awayuki.Library.Keyed
import Mathlib.Data.List.MinMax
import Mathlib.Data.List.Sort
import Mathlib.Data.Prod.Lex

/-!
# Compose outbox: the table

The table `compose_outbox` and the queries of `db/queries/compose_outbox.rs`, one function each.
Timestamps are texts, compared as SQLite compares them.

* `Table`: rows in the order of their rowids, with unique ids;
* `Table.update`: an `UPDATE … WHERE`, the only way in which rows change;
* `claimNext` takes the oldest row that is due and has no older pending row of its actor.
-/

namespace Awayuki.Outbox

inductive OperationKind
  | post | edit
  deriving DecidableEq, Repr

inductive RowState
  | queued | sending | retrying | failed | uncertain | succeeded | cancelled
  deriving DecidableEq, Repr

structure ComposeOutboxRow where
  rowid : ℕ
  id : Str
  operationKind : OperationKind
  actingAccountAcct : Str
  payloadJson : Str
  state : RowState
  attempts : ℕ
  lastError : Option Str
  nextAttemptAt : Str
  createdAt : Str
  updatedAt : Str
  completedAt : Option Str
  resultStatusId : Option Str
  resultServerDomain : Option Str
  deriving DecidableEq, Repr

/-- `state IN ('queued', 'sending', 'retrying')`. -/
def RowState.pending (state : RowState) : Bool :=
  state == .queued || state == .sending || state == .retrying

/-- `state IN ('queued', 'retrying')`. -/
def RowState.waiting (state : RowState) : Bool := state == .queued || state == .retrying

/-- `state IN ('failed', 'uncertain', 'cancelled')`. -/
def RowState.retryable (state : RowState) : Bool :=
  state == .failed || state == .uncertain || state == .cancelled

/-- `state IN ('queued', 'retrying', 'failed', 'uncertain')`. -/
def RowState.cancellable (state : RowState) : Bool :=
  state == .queued || state == .retrying || state == .failed || state == .uncertain

/-! ### Order of the rows -/

/-- The order of `ORDER BY created_at ASC, rowid ASC`. -/
def ComposeOutboxRow.key (row : ComposeOutboxRow) : Str ×ₗ ℕ := toLex (row.createdAt, row.rowid)

/-- Is the first row older than the second? -/
def older (a b : ComposeOutboxRow) : Bool :=
  a.createdAt < b.createdAt || a.createdAt == b.createdAt && a.rowid < b.rowid

variable {a b : ComposeOutboxRow}

theorem older_iff : older a b = true ↔ a.key < b.key := by
  simp [older, ComposeOutboxRow.key, Prod.Lex.toLex_lt_toLex]

/-! ### The table -/

structure Table where
  rows : List ComposeOutboxRow
  rowids : rows.Pairwise fun a b => a.rowid < b.rowid
  ids : (rows.map (·.id)).Nodup

def Table.empty : Table := ⟨[], .nil, .nil⟩

namespace Table

variable {id now : Str}

theorem rowid_inj (t : Table) (ha : a ∈ t.rows) (hb : b ∈ t.rows) (h : a.rowid = b.rowid) : a = b :=
  have hrowids : (t.rows.map (·.rowid)).Nodup :=
    List.Pairwise.map _ (fun _ _ hlt => Nat.ne_of_lt hlt) t.rowids
  Keyed.ext_of_nodup hrowids ha hb h

theorem id_inj (t : Table) (ha : a ∈ t.rows) (hb : b ∈ t.rows) (h : a.id = b.id) : a = b :=
  Keyed.ext_of_nodup t.ids ha hb h

/-- Of two rows one is older. -/
theorem older_total (t : Table) (ha : a ∈ t.rows) (hb : b ∈ t.rows) (h : a ≠ b) :
    older a b = true ∨ older b a = true := by
  rw [older_iff, older_iff]
  refine lt_or_gt_of_ne fun hkey => h (t.rowid_inj ha hb ?_)
  exact congrArg (fun key => (ofLex key).2) hkey

def get (t : Table) (id : Str) : Option ComposeOutboxRow := Keyed.lookup (·.id) t.rows id

variable {t : Table} {row : ComposeOutboxRow}

theorem get_eq_some : t.get id = some row ↔ row ∈ t.rows ∧ row.id = id :=
  Keyed.lookup_eq_some t.ids

/-- A change that an `UPDATE` makes to a row: not to its rowid, id, operation, actor, payload or
creation time. -/
structure Change where
  apply : ComposeOutboxRow → ComposeOutboxRow
  rowid : ∀ row, (apply row).rowid = row.rowid := by intro _; rfl
  id : ∀ row, (apply row).id = row.id := by intro _; rfl
  operationKind : ∀ row, (apply row).operationKind = row.operationKind := by intro _; rfl
  actingAccountAcct : ∀ row, (apply row).actingAccountAcct = row.actingAccountAcct := by
    intro _; rfl
  payloadJson : ∀ row, (apply row).payloadJson = row.payloadJson := by intro _; rfl
  createdAt : ∀ row, (apply row).createdAt = row.createdAt := by intro _; rfl

/-- `UPDATE compose_outbox SET … WHERE …`. -/
def update (t : Table) (selects : ComposeOutboxRow → Bool) (change : Change) : Table where
  rows := t.rows.map fun row => if selects row then change.apply row else row
  rowids := by
    refine List.Pairwise.map _ (fun a b hlt => ?_) t.rowids
    split_ifs <;> simpa only [change.rowid] using hlt
  ids := by
    have hid : (fun row => (if selects row then change.apply row else row).id) = (·.id) := by
      funext row
      split_ifs
      · exact change.id row
      · rfl
    simpa only [List.map_map, Function.comp_def, hid] using t.ids

/-- The number of rows that an `UPDATE` changes. -/
def changed (t : Table) (selects : ComposeOutboxRow → Bool) : ℕ := (t.rows.filter selects).length

/-- `WHERE id = ? AND state IN (…)`. -/
def selectId (id : Str) (states : RowState → Bool) (row : ComposeOutboxRow) : Bool :=
  row.id == id && states row.state

variable {selects : ComposeOutboxRow → Bool}

theorem mem_update {change : Change} : row ∈ (t.update selects change).rows ↔
      (∃ old ∈ t.rows, selects old = true ∧ row = change.apply old) ∨
        row ∈ t.rows ∧ selects row = false := by
  simp only [update, List.mem_map]
  constructor
  · rintro ⟨old, hmem, rfl⟩
    by_cases h : selects old = true
    · exact .inl ⟨old, hmem, h, if_pos h⟩
    · rw [if_neg h]
      exact .inr ⟨hmem, by simpa using h⟩
  · rintro (⟨old, hmem, h, rfl⟩ | ⟨hmem, h⟩)
    · exact ⟨old, hmem, if_pos h⟩
    · exact ⟨row, hmem, by simp [h]⟩

/-! ### Queries -/

/-- The rowid that SQLite gives to the next row: one more than the largest. -/
def nextRowid (t : Table) : ℕ := (t.rows.map (·.rowid)).foldr max 0 + 1

theorem rowid_lt_nextRowid (h : row ∈ t.rows) : row.rowid < t.nextRowid := by
  have hle : ∀ rowids : List ℕ, ∀ n ∈ rowids, n ≤ rowids.foldr max 0 := by
    intro rowids n hn
    induction rowids with
    | nil => cases hn
    | cons m rowids ih =>
      rw [List.foldr_cons]
      rcases List.mem_cons.1 hn with rfl | hn
      · exact le_max_left _ _
      · exact (ih hn).trans (le_max_right _ _)
  exact Nat.lt_succ_of_le (hle _ _ (List.mem_map_of_mem h))

/-- The row of `enqueue_on`. -/
def newRow (rowid : ℕ) (id : Str) (operationKind : OperationKind)
    (actingAccountAcct payloadJson now : Str) : ComposeOutboxRow where
  rowid := rowid
  id := id
  operationKind := operationKind
  actingAccountAcct := actingAccountAcct
  payloadJson := payloadJson
  state := .queued
  attempts := 0
  lastError := none
  nextAttemptAt := now
  createdAt := now
  updatedAt := now
  completedAt := none
  resultStatusId := none
  resultServerDomain := none

/-- Appends a row with the next rowid and an id that is new. -/
def insert (t : Table) (row : ComposeOutboxRow) (hrowid : row.rowid = t.nextRowid)
    (hid : row.id ∉ t.rows.map (·.id)) : Table where
  rows := t.rows ++ [row]
  rowids := by
    refine List.pairwise_append.2 ⟨t.rowids, List.pairwise_singleton _ _, fun a ha b hb => ?_⟩
    rw [List.mem_singleton.1 hb, hrowid]
    exact rowid_lt_nextRowid ha
  ids := by
    rw [List.map_append, List.map_singleton]
    exact t.ids.append (List.nodup_singleton _) (by simpa using hid)

/-- `enqueue_on`: the `INSERT` fails for an id that is there already and for an actor who is not a
login account. -/
def enqueueOn (t : Table) (loginAccounts : List Str) (id : Str) (operationKind : OperationKind)
    (actingAccountAcct payloadJson now : Str) : Option (ComposeOutboxRow × Table) :=
  let row := newRow t.nextRowid id operationKind actingAccountAcct payloadJson now
  if h : id ∉ t.rows.map (·.id) then
    if actingAccountAcct ∈ loginAccounts then some (row, t.insert row rfl h) else none
  else none

/-- The rank of a state in `list`. -/
def listRank : RowState → ℕ
  | .sending => 0
  | .queued => 1
  | .retrying => 2
  | .failed => 3
  | .uncertain => 3
  | _ => 4

/-- `list`: the first hundred rows by state, the latest first. -/
def list (t : Table) : List ComposeOutboxRow :=
  (t.rows.mergeSort fun a b =>
    listRank a.state < listRank b.state ||
      listRank a.state == listRank b.state && b.createdAt ≤ a.createdAt).take 100

def interrupt (now : Str) : Change where
  apply row :=
    { row with
      state := .uncertain
      lastError := some "errors.delivery_uncertain"
      updatedAt := now }

def recoverInterrupted (t : Table) (now : Str) : Table :=
  t.update (fun row => row.state == .sending) (interrupt now)

/-- The condition that `has_due` and `claim_next` share: waiting, due, and without an older
pending row of the same actor. -/
def isDue (t : Table) (now : Str) (candidate : ComposeOutboxRow) : Bool :=
  candidate.state.waiting && candidate.nextAttemptAt ≤ now &&
    !t.rows.any fun row =>
      row.actingAccountAcct == candidate.actingAccountAcct && older row candidate &&
        row.state.pending

def hasDue (t : Table) (now : Str) : Bool := t.rows.any (t.isDue now)

/-- The candidate of `claim_next`: the oldest. -/
def nextDue (t : Table) (now : Str) : Option ComposeOutboxRow :=
  (t.rows.filter (t.isDue now)).argmin ComposeOutboxRow.key

def claim (now : Str) : Change where
  apply row := { row with state := .sending, attempts := row.attempts + 1, updatedAt := now }

/-- `claim_next`: the claimed row as it is after the claim. -/
def claimNext (t : Table) (now : Str) : Option ComposeOutboxRow × Table :=
  match t.nextDue now with
  | none => (none, t)
  | some candidate =>
    let selects := selectId candidate.id RowState.waiting
    if t.changed selects = 0 then (none, t)
    else
      let claimed := t.update selects (claim now)
      (claimed.rows.find? (selectId candidate.id (· == .sending)), claimed)

def succeed (statusId serverDomain now : Str) : Change where
  apply row :=
    { row with
      state := .succeeded
      lastError := none
      completedAt := some now
      resultStatusId := some statusId
      resultServerDomain := some serverDomain
      updatedAt := now }

def markSucceeded (t : Table) (id statusId serverDomain now : Str) :
    Option ComposeOutboxRow × Table :=
  let marked := t.update (selectId id (· == .sending)) (succeed statusId serverDomain now)
  (marked.get id, marked)

def fail (state : RowState) (error nextAttemptAt now : Str) : Change where
  apply row :=
    { row with
      state := state
      lastError := some error
      nextAttemptAt := nextAttemptAt
      updatedAt := now }

def updateFailure (t : Table) (id : Str) (state : RowState) (error nextAttemptAt now : Str) :
    Option ComposeOutboxRow × Table :=
  let marked := t.update (selectId id (· == .sending)) (fail state error nextAttemptAt now)
  (marked.get id, marked)

def markRetrying (t : Table) (id error nextAttemptAt now : Str) :
    Option ComposeOutboxRow × Table :=
  t.updateFailure id .retrying error nextAttemptAt now

def markFailed (t : Table) (id error now : Str) : Option ComposeOutboxRow × Table :=
  t.updateFailure id .failed error now now

def markUncertain (t : Table) (id error now : Str) : Option ComposeOutboxRow × Table :=
  t.updateFailure id .uncertain error now now

def requeue (now : Str) : Change where
  apply row :=
    { row with
      state := .queued
      lastError := none
      nextAttemptAt := now
      completedAt := none
      updatedAt := now }

/-- The user's changes to a row: `None` when the row is not in one of the states. -/
def updateIn (t : Table) (id : Str) (states : RowState → Bool) (change : Change) :
    Option ComposeOutboxRow × Table :=
  let selects := selectId id states
  if t.changed selects = 0 then (none, t)
  else
    let updated := t.update selects change
    (updated.get id, updated)

def retry (t : Table) (id now : Str) : Option ComposeOutboxRow × Table :=
  t.updateIn id RowState.retryable (requeue now)

def withdraw (now : Str) : Change where
  apply row := { row with state := .cancelled, completedAt := some now, updatedAt := now }

def cancel (t : Table) (id now : Str) : Option ComposeOutboxRow × Table :=
  t.updateIn id RowState.cancellable (withdraw now)

/-! ### What the queries do to the rows -/

/-- The rows after an update of one row: all others are unchanged. -/
def Replaces (t t' : Table) (old new : ComposeOutboxRow) : Prop :=
  old ∈ t.rows ∧ ∀ row, row ∈ t'.rows ↔ row = new ∨ row ∈ t.rows ∧ row ≠ old

theorem selectId_iff {states : RowState → Bool} :
    selectId id states row = true ↔ row.id = id ∧ states row.state = true := by
  simp [selectId]

theorem changed_eq_zero : t.changed selects = 0 ↔ ∀ row ∈ t.rows, selects row = false := by
  simp [changed, List.filter_eq_nil_iff]

/-- An update by id changes one row, or none. -/
theorem update_selectId (t : Table) (id : Str) (states : RowState → Bool) (change : Change) :
    (∃ old, old.id = id ∧ states old.state = true ∧
      Replaces t (t.update (selectId id states) change) old (change.apply old)) ∨
    t.changed (selectId id states) = 0 ∧ (t.update (selectId id states) change).rows = t.rows := by
  by_cases h : t.changed (selectId id states) = 0
  · refine .inr ⟨h, ?_⟩
    rw [changed_eq_zero] at h
    exact (List.map_congr_left fun row hmem => if_neg (by simp [h row hmem])).trans
      (List.map_id _)
  · left
    rw [changed_eq_zero] at h
    obtain ⟨old, hmem, hold⟩ : ∃ old ∈ t.rows, selectId id states old = true := by
      by_contra hnone
      exact h fun row hmem => by simpa using fun hrow => hnone ⟨row, hmem, hrow⟩
    obtain ⟨rfl, hstate⟩ := selectId_iff.1 hold
    refine ⟨old, rfl, hstate, hmem, fun row => ?_⟩
    rw [mem_update]
    constructor
    · rintro (⟨row', hmem', hrow', rfl⟩ | ⟨hmem', hrow'⟩)
      · rw [t.id_inj hmem' hmem (selectId_iff.1 hrow').1]
        exact .inl rfl
      · refine .inr ⟨hmem', ?_⟩
        rintro rfl
        exact Bool.false_ne_true (hrow'.symm.trans hold)
    · rintro (rfl | ⟨hmem', hne⟩)
      · exact .inl ⟨old, hmem, selectId_iff.2 ⟨rfl, hstate⟩, rfl⟩
      · refine .inr ⟨hmem', ?_⟩
        rw [← Bool.not_eq_true, selectId_iff]
        exact fun hsel => hne (t.id_inj hmem' hmem hsel.1)

/-- What a successful `enqueue_on` does. -/
theorem enqueueOn_eq_some {t' : Table} {loginAccounts : List Str} {operationKind : OperationKind}
    {actingAccountAcct payloadJson : Str}
    (h : t.enqueueOn loginAccounts id operationKind actingAccountAcct payloadJson now =
      some (row, t')) :
    row = newRow t.nextRowid id operationKind actingAccountAcct payloadJson now ∧
      t'.rows = t.rows ++ [row] ∧ id ∉ t.rows.map (·.id) ∧ actingAccountAcct ∈ loginAccounts := by
  simp only [enqueueOn] at h
  split at h
  case isFalse => cases h
  case isTrue hid =>
    split_ifs at h with hactor
    cases h
    exact ⟨rfl, rfl, hid, hactor⟩

theorem mem_of_mem_list (h : row ∈ t.list) : row ∈ t.rows :=
  List.mem_mergeSort.1 (List.mem_of_mem_take h)

theorem changed_ne_zero (hmem : row ∈ t.rows) (h : selects row = true) : t.changed selects ≠ 0 := by
  intro hzero
  rw [changed_eq_zero.1 hzero row hmem] at h
  cases h

theorem find_selectId {states : RowState → Bool} (hmem : row ∈ t.rows)
    (h : states row.state = true) : t.rows.find? (selectId row.id states) = some row := by
  have hsome : (t.rows.find? (selectId row.id states)).isSome :=
    List.find?_isSome.2 ⟨row, hmem, selectId_iff.2 ⟨rfl, h⟩⟩
  obtain ⟨found, hfound⟩ := Option.isSome_iff_exists.1 hsome
  rw [hfound, t.id_inj (List.mem_of_find?_eq_some hfound) hmem
    (selectId_iff.1 (List.find?_some hfound)).1]

theorem markSucceeded_cases (t : Table) (id statusId serverDomain now : Str) :
    (∃ old, old.id = id ∧ old.state = .sending ∧
      Replaces t (t.markSucceeded id statusId serverDomain now).2 old
        ((succeed statusId serverDomain now).apply old)) ∨
    (t.markSucceeded id statusId serverDomain now).2.rows = t.rows := by
  rcases t.update_selectId id (· == .sending) (succeed statusId serverDomain now) with h | h
  · obtain ⟨old, hid, hstate, hreplaces⟩ := h
    exact .inl ⟨old, hid, by simpa using hstate, hreplaces⟩
  · exact .inr h.2

theorem updateFailure_cases (t : Table) (id : Str) (state : RowState)
    (error nextAttemptAt now : Str) :
    (∃ old, old.id = id ∧ old.state = .sending ∧
      Replaces t (t.updateFailure id state error nextAttemptAt now).2 old
        ((fail state error nextAttemptAt now).apply old)) ∨
    (t.updateFailure id state error nextAttemptAt now).2.rows = t.rows := by
  rcases t.update_selectId id (· == .sending) (fail state error nextAttemptAt now) with h | h
  · obtain ⟨old, hid, hstate, hreplaces⟩ := h
    exact .inl ⟨old, hid, by simpa using hstate, hreplaces⟩
  · exact .inr h.2

theorem updateIn_cases (t : Table) (id : Str) (states : RowState → Bool) (change : Change) :
    (∃ old, old.id = id ∧ states old.state = true ∧
      Replaces t (t.updateIn id states change).2 old (change.apply old)) ∨
    (t.updateIn id states change).2 = t := by
  rcases t.update_selectId id states change with ⟨old, hid, hstate, hreplaces⟩ | ⟨hzero, -⟩
  · have hchanged := changed_ne_zero hreplaces.1 (selectId_iff.2 ⟨hid, hstate⟩)
    exact .inl ⟨old, hid, hstate, by rwa [updateIn, if_neg hchanged]⟩
  · exact .inr (by rw [updateIn, if_pos hzero])

theorem isDue_iff {candidate : ComposeOutboxRow} :
    t.isDue now candidate = true ↔ candidate.state.waiting = true ∧ candidate.nextAttemptAt ≤ now ∧
      ∀ row ∈ t.rows, row.actingAccountAcct = candidate.actingAccountAcct →
        older row candidate = true → row.state.pending = false := by
  simp [isDue, and_assoc]

/-- A claim takes the oldest due row, and there is none only when nothing is due. -/
theorem claimNext_cases (t : Table) (now : Str) :
    (∃ old, t.isDue now old = true ∧
      (∀ row ∈ t.rows, t.isDue now row = true → old.key ≤ row.key) ∧
      (t.claimNext now).1 = some ((claim now).apply old) ∧
      Replaces t (t.claimNext now).2 old ((claim now).apply old)) ∨
    t.hasDue now = false ∧ t.claimNext now = (none, t) := by
  unfold claimNext
  cases hnext : t.nextDue now with
  | none =>
    refine .inr ⟨?_, rfl⟩
    have hnil := List.argmin_eq_none.1 hnext
    simpa [hasDue, List.filter_eq_nil_iff] using hnil
  | some candidate =>
    obtain ⟨hmem, hdue⟩ := List.mem_filter.1 (List.argmin_mem hnext)
    have hwaiting := (isDue_iff.1 hdue).1
    have hchanged := changed_ne_zero hmem (selectId_iff.2 ⟨rfl, hwaiting⟩)
    rcases t.update_selectId candidate.id RowState.waiting (claim now) with h | ⟨hzero, -⟩
    · obtain ⟨old, hid, -, hreplaces⟩ := h
      obtain rfl := t.id_inj hreplaces.1 hmem hid
      refine .inl ⟨old, hdue, fun row hrow hrowDue => ?_, ?_, ?_⟩
      · exact List.le_of_mem_argmin (List.mem_filter.2 ⟨hrow, hrowDue⟩) hnext
      · simp only [if_neg hchanged]
        have hclaimed := (hreplaces.2 ((claim now).apply old)).2 (.inl rfl)
        exact find_selectId hclaimed rfl
      · simpa only [if_neg hchanged] using hreplaces
    · exact absurd hzero hchanged

/-- `has_due` says whether `claim_next` will claim a row. -/
theorem hasDue_iff_claimNext : t.hasDue now = true ↔ (t.claimNext now).1.isSome = true := by
  rcases t.claimNext_cases now with ⟨old, hdue, -, hclaim, hreplaces⟩ | ⟨hnone, hclaim⟩
  · simpa [hclaim, hasDue] using ⟨old, hreplaces.1, hdue⟩
  · simp [hclaim, hnone]

end Table

end Awayuki.Outbox
