import Mathlib.Data.List.Sort
import Mathlib.Data.Prod.Lex
import Awayuki.Text
import Awayuki.Library.RowTable

/-!
# The table of the login accounts

The three operations of `db/queries/settings.rs` that change which account is active, over the
tables `login_accounts` and `column_configs`.

* `LoginDb`: the tables, with the unique indexes and the foreign key that SQLite keeps;
* `setActiveAccount`, `upsertAndActivateLoginAccount`, `removeLoginAccountAndReassign`;
* `perform`: an operation as a transaction, which rolls back when it fails;
* `intended_iff`: when a sequence of operations leaves exactly the intended account active.
-/

namespace Awayuki.Accounts

open RowTable

variable {answer : Option Str}

/-- `DbLoginAccount`: a row of `login_accounts`. -/
structure LoginAccount where
  acct : Str
  serverDomain : Str
  accountId : Str
  displayName : Str
  avatar : Str
  isActive : Bool
  accessToken : Str
  serverKind : Str
  appPassword : Option Str
  deriving DecidableEq, Repr

inductive IndexKey
  | acct (acct : Str)
  | active
  deriving DecidableEq

/-- The primary key and `idx_login_accounts_single_active`. -/
def loginAccountKeys (row : LoginAccount) : List IndexKey :=
  .acct row.acct :: if row.isActive then [.active] else []

/-- A row of `column_configs` and its account, if it has one. -/
structure ColumnConfig where
  id : Str
  accountAcct : Option Str
  deriving DecidableEq, Repr

/-- `account_acct TEXT REFERENCES login_accounts(acct)`. -/
def References (rows : List LoginAccount) (columns : List ColumnConfig) : Prop :=
  ∀ column ∈ columns, ∀ acct ∈ column.accountAcct, ∃ row ∈ rows, row.acct = acct

instance (rows : List LoginAccount) (columns : List ColumnConfig) :
    Decidable (References rows columns) :=
  inferInstanceAs (Decidable (∀ column ∈ columns, ∀ acct ∈ column.accountAcct, _))

structure LoginDb where
  accounts : Table loginAccountKeys
  columns : List ColumnConfig
  references : References accounts.rows columns

inductive SqlError
  | rowNotFound | constraint
  deriving DecidableEq, Repr

namespace LoginDb

def knows (db : LoginDb) (acct : Str) : Bool := db.accounts.rows.any (·.acct = acct)

/-- The accounts marked active. -/
def activeAccounts (db : LoginDb) : List Str :=
  (db.accounts.rows.filter (·.isActive)).map (·.acct)

/-! ### Statements -/

/-- The foreign key is checked at the end of a statement. -/
def checked (accounts : Table loginAccountKeys) (columns : List ColumnConfig) :
    Except SqlError LoginDb :=
  if h : References accounts.rows columns then .ok ⟨accounts, columns, h⟩ else .error .constraint

def updateAccounts (db : LoginDb) (change : LoginAccount → LoginAccount) :
    Except SqlError LoginDb :=
  match db.accounts.update change with
  | some accounts => checked accounts db.columns
  | none => .error .constraint

/-- `UPDATE login_accounts SET is_active = 0`. -/
def deactivateAll (row : LoginAccount) : LoginAccount := { row with isActive := false }

/-- `UPDATE login_accounts SET is_active = 1 WHERE acct = ?`. -/
def activate (acct : Str) (row : LoginAccount) : LoginAccount :=
  if row.acct = acct then { row with isActive := true } else row

/-- `UPDATE login_accounts SET is_active = (acct = ?)`. -/
def activateOnly (acct : Str) (row : LoginAccount) : LoginAccount :=
  { row with isActive := row.acct = acct }

/-- The `DO UPDATE` of the conflict clause, which leaves `is_active` as it is. -/
def refresh (account row : LoginAccount) : LoginAccount :=
  if row.acct = account.acct then
    { row with
      serverDomain := account.serverDomain
      accountId := account.accountId
      displayName := account.displayName
      avatar := account.avatar
      accessToken := account.accessToken
      serverKind := account.serverKind
      appPassword := account.appPassword.orElse fun _ => row.appPassword }
  else row

/-- `INSERT INTO login_accounts … VALUES (…, 0, …) ON CONFLICT(acct) DO UPDATE`. -/
def upsert (db : LoginDb) (account : LoginAccount) : Except SqlError LoginDb :=
  if db.knows account.acct then db.updateAccounts (refresh account)
  else
    match db.accounts.insert { account with isActive := false } with
    | some accounts => checked accounts db.columns
    | none => .error .constraint

/-- `SELECT acct FROM login_accounts WHERE acct != ? ORDER BY is_active DESC, acct LIMIT 1`. -/
def fallback (db : LoginDb) (acct : Str) : Option Str :=
  let order (row : LoginAccount) : Bool ×ₗ Str := toLex (!row.isActive, row.acct)
  (((db.accounts.rows.filter (·.acct ≠ acct)).insertionSort (order · ≤ order ·)).head?).map (·.acct)

/-- `UPDATE column_configs SET account_acct = ? WHERE account_acct = ?`. -/
def reassign (fallback acct : Str) (column : ColumnConfig) : ColumnConfig :=
  if column.accountAcct = some acct then { column with accountAcct := some fallback } else column

section Names

variable (acct : Str) (account row : LoginAccount)

@[simp] theorem acct_deactivateAll : (deactivateAll row).acct = row.acct := rfl

@[simp] theorem acct_activateOnly : (activateOnly acct row).acct = row.acct := rfl

@[simp] theorem acct_activate : (activate acct row).acct = row.acct := by
  unfold activate
  split_ifs <;> rfl

@[simp] theorem acct_refresh : (refresh account row).acct = row.acct := by
  unfold refresh
  split_ifs <;> rfl

@[simp] theorem isActive_refresh : (refresh account row).isActive = row.isActive := by
  unfold refresh
  split_ifs <;> rfl

/-- The two statements together do what the single one does. -/
@[simp] theorem activate_deactivateAll : activate acct (deactivateAll row) = activateOnly acct row := by
  unfold activate deactivateAll activateOnly
  split_ifs with h <;> simp_all

end Names

/-- The columns of an account that is removed go to its successor; without one they are deleted. -/
def columnsWithout (db : LoginDb) (acct : Str) : List ColumnConfig :=
  match db.fallback acct with
  | some fallback => db.columns.map (reassign fallback acct)
  | none => db.columns.filter (·.accountAcct ≠ some acct)

/-! ### Operations -/

def setActiveAccount (db : LoginDb) (acct : Str) : Except SqlError LoginDb :=
  if db.knows acct then do
    let db ← db.updateAccounts deactivateAll
    db.updateAccounts (activate acct)
  else .error .rowNotFound

def upsertAndActivateLoginAccount (db : LoginDb) (account : LoginAccount) :
    Except SqlError LoginDb := do
  let db ← db.upsert account
  db.updateAccounts (activateOnly account.acct)

def removeLoginAccountAndReassign (db : LoginDb) (acct : Str) :
    Except SqlError (Option Str × LoginDb) :=
  if db.knows acct then do
    let fallback := db.fallback acct
    let db ← checked db.accounts (db.columnsWithout acct)
    let db ← checked (db.accounts.delete (·.acct = acct)) db.columns
    let db ← db.updateAccounts deactivateAll
    match fallback with
    | some fallback => do
      let db ← db.updateAccounts (activate fallback)
      return (some fallback, db)
    | none => return (none, db)
  else .error .rowNotFound

end LoginDb

inductive AccountOp
  | setActive (acct : Str)
  | login (account : LoginAccount)
  | remove (acct : Str)

/-- A transaction that is not committed is rolled back. -/
def transaction {α : Type} (db : LoginDb) :
    Except SqlError (α × LoginDb) → Except SqlError α × LoginDb
  | .ok (answer, db') => (.ok answer, db')
  | .error error => (.error error, db)

/-- An operation; the answer of a removal is the account that is active instead. -/
def LoginDb.perform (db : LoginDb) : AccountOp → Except SqlError (Option Str) × LoginDb
  | .setActive acct => transaction db ((db.setActiveAccount acct).map (none, ·))
  | .login account => transaction db ((db.upsertAndActivateLoginAccount account).map (none, ·))
  | .remove acct => transaction db (db.removeLoginAccountAndReassign acct)

def LoginDb.run (db : LoginDb) (ops : List AccountOp) : LoginDb :=
  ops.foldl (fun db op => (db.perform op).2) db

/-- What an operation with a valid account should do: an operation that names an account needs one
that exists. -/
structure Intended (db : LoginDb) (op : AccountOp) : Prop where
  setActive : ∀ acct, op = .setActive acct → db.knows acct = true →
    (db.perform op).1 = .ok none ∧ (db.perform op).2.activeAccounts = [acct]
  login : ∀ account, op = .login account →
    (db.perform op).1 = .ok none ∧ (db.perform op).2.activeAccounts = [account.acct]
  remove : ∀ acct, op = .remove acct → db.knows acct = true →
    ∃ fallback, (db.perform op).1 = .ok fallback ∧
      (db.perform op).2.activeAccounts = fallback.toList ∧
      (db.perform op).2.knows acct = false ∧
      ∀ column ∈ (db.perform op).2.columns, column.accountAcct ≠ some acct
  rollback : ∀ error, (db.perform op).1 = .error error → (db.perform op).2 = db

/-- No account that is active has its row after that of the account that logs in. -/
def InOrder (db : LoginDb) (op : AccountOp) : Prop :=
  ∀ account, op = .login account → ∀ before row after, db.accounts.rows = before ++ row :: after →
    row.acct = account.acct → ∀ other ∈ after, other.isActive = false

/-! ### When a statement goes through -/

namespace LoginDb

variable {db db' : LoginDb} {acct : Str} {account : LoginAccount}
  {change : LoginAccount → LoginAccount} {name : Str}

theorem knows_iff : db.knows acct = true ↔ ∃ row ∈ db.accounts.rows, row.acct = acct := by
  simp [knows]

theorem mem_activeAccounts :
    acct ∈ db.activeAccounts ↔ ∃ row ∈ db.accounts.rows, row.isActive = true ∧ row.acct = acct := by
  simp [activeAccounts, and_assoc]

theorem apart_iff {a b : LoginAccount} :
    Apart loginAccountKeys a b ↔ a.acct ≠ b.acct ∧ (a.isActive = true → b.isActive = false) := by
  cases ha : a.isActive <;> cases hb : b.isActive <;> simp [Apart, loginAccountKeys, ha, hb]

theorem acct_ne_of_split {before after : List LoginAccount} {row other : LoginAccount}
    (heq : db.accounts.rows = before ++ row :: after) (hother : other ∈ before ++ after) :
    row.acct ≠ other.acct := by
  have hapart := db.accounts.apart
  rw [heq, List.pairwise_middle Apart.symm, List.pairwise_cons] at hapart
  exact (apart_iff.1 (hapart.1 other hother)).1

theorem eq_of_acct {row other : LoginAccount} (hrow : row ∈ db.accounts.rows)
    (hother : other ∈ db.accounts.rows) (hacct : row.acct = other.acct) : row = other := by
  obtain ⟨before, after, heq⟩ := List.append_of_mem hrow
  by_contra hne
  rw [heq, List.mem_append, List.mem_cons] at hother
  refine acct_ne_of_split heq (List.mem_append.2 ?_) hacct
  tauto

/-- An update that keeps the names goes through when no new row is active beside another one, new
before it or old after it. -/
theorem clear_iff (hacct : ∀ row, (change row).acct = row.acct) :
    Clear loginAccountKeys change [] db.accounts.rows ↔
      ∀ before row after, db.accounts.rows = before ++ row :: after →
        (change row).isActive = true → ∀ other ∈ before.map change ++ after,
          other.isActive = false := by
  constructor
  · intro h before row after heq hactive other hother
    exact (apart_iff.1 (h before row after heq other hother)).2 hactive
  · intro h before row after heq other hother
    refine apart_iff.2 ⟨?_, fun hactive => h before row after heq hactive other hother⟩
    rw [hacct]
    rw [List.nil_append, List.mem_append, List.mem_map] at hother
    rcases hother with ⟨old, hold, rfl⟩ | hother
    · rw [hacct]
      exact acct_ne_of_split heq (List.mem_append_left _ hold)
    · exact acct_ne_of_split heq (List.mem_append_right _ hother)

variable {rows : List LoginAccount}

theorem References.map {columns : List ColumnConfig} (h : References rows columns)
    (hacct : ∀ row, (change row).acct = row.acct) : References (rows.map change) columns := by
  intro column hcolumn acct hmem
  obtain ⟨row, hrow, rfl⟩ := h column hcolumn acct hmem
  exact ⟨change row, List.mem_map_of_mem hrow, hacct row⟩

theorem updateAccounts_ok (hacct : ∀ row, (change row).acct = row.acct)
    (hclear : Clear loginAccountKeys change [] db.accounts.rows) :
    ∃ db', db.updateAccounts change = .ok db' ∧
      db'.accounts.rows = db.accounts.rows.map change ∧ db'.columns = db.columns := by
  obtain ⟨accounts, haccounts, hrows⟩ := Table.exists_update hclear
  have href : References accounts.rows db.columns := hrows ▸ References.map db.references hacct
  refine ⟨⟨accounts, db.columns, href⟩, ?_, hrows, rfl⟩
  simp [updateAccounts, haccounts, checked, href]

theorem updateAccounts_error (hclear : ¬ Clear loginAccountKeys change [] db.accounts.rows) :
    db.updateAccounts change = .error .constraint := by
  have hnone : db.accounts.update change = none := by
    refine Option.eq_none_iff_forall_not_mem.2 fun accounts haccounts => ?_
    exact hclear (Table.update_eq_some.1 haccounts).1
  simp [updateAccounts, hnone]

/-- Taking the mark from every account goes through. -/
theorem deactivateAll_ok (db : LoginDb) : ∃ db', db.updateAccounts deactivateAll = .ok db' ∧
    db'.accounts.rows = db.accounts.rows.map deactivateAll ∧ db'.columns = db.columns := by
  refine updateAccounts_ok acct_deactivateAll ((clear_iff acct_deactivateAll).2 ?_)
  intro before row after heq hactive
  simp [deactivateAll] at hactive

/-- Marking one account goes through when none is marked. -/
theorem activate_ok (hnone : ∀ row ∈ db.accounts.rows, row.isActive = false) (acct : Str) :
    ∃ db', db.updateAccounts (activate acct) = .ok db' ∧
      db'.accounts.rows = db.accounts.rows.map (activate acct) ∧ db'.columns = db.columns := by
  refine updateAccounts_ok (acct_activate acct) ((clear_iff (acct_activate acct)).2 ?_)
  intro before row after heq hactive other hother
  have hrow : row.acct = acct := by
    by_contra hne
    simp [activate, hne, hnone row (by simp [heq])] at hactive
  rcases List.mem_append.1 hother with hother | hother
  · obtain ⟨old, hold, rfl⟩ := List.mem_map.1 hother
    have hne : old.acct ≠ acct := fun h =>
      acct_ne_of_split heq (List.mem_append_left _ hold) (hrow.trans h.symm)
    simp [activate, hne, hnone old (by simp [heq, hold])]
  · exact hnone other (by simp [heq, hother])

/-- Marking one account and unmarking the others in one statement goes through when the account
that was marked has its row before. -/
theorem clear_activateOnly :
    Clear loginAccountKeys (activateOnly acct) [] db.accounts.rows ↔
      ∀ before row after, db.accounts.rows = before ++ row :: after → row.acct = acct →
        ∀ other ∈ after, other.isActive = false := by
  rw [clear_iff (acct_activateOnly acct)]
  constructor
  · intro h before row after heq hrow other hother
    exact h before row after heq (by simp [activateOnly, hrow]) other (by simp [hother])
  · intro h before row after heq hactive other hother
    have hrow : row.acct = acct := by simpa [activateOnly] using hactive
    rcases List.mem_append.1 hother with hother | hother
    · obtain ⟨old, hold, rfl⟩ := List.mem_map.1 hother
      have hne : old.acct ≠ acct := fun hold' =>
        acct_ne_of_split heq (List.mem_append_left _ hold) (hrow.trans hold'.symm)
      simp [activateOnly, hne]
    · exact h before row after heq hrow other hother

/-! ### What the operations leave -/

/-- The partial index keeps at most one account active. -/
theorem activeAccounts_eq (h : acct ∈ db.activeAccounts) : db.activeAccounts = [acct] := by
  have hapart : (db.accounts.rows.filter (·.isActive)).Pairwise (Apart loginAccountKeys) :=
    db.accounts.apart.filter _
  have hactive : ∀ row ∈ db.accounts.rows.filter (·.isActive), row.isActive = true :=
    fun row hrow => (List.mem_filter.1 hrow).2
  unfold activeAccounts at h ⊢
  match hrows : db.accounts.rows.filter (·.isActive) with
  | [] => simp [hrows] at h
  | [row] =>
    rw [hrows] at h ⊢
    simpa [eq_comm] using h
  | a :: b :: rows =>
    rw [hrows] at hapart hactive
    have hboth := (apart_iff.1 ((List.pairwise_cons.1 hapart).1 b (by simp))).2
      (hactive a (by simp))
    rw [hactive b (by simp)] at hboth
    cases hboth

theorem activeAccounts_activateOnly (hrows : db.accounts.rows = rows.map (activateOnly acct))
    (h : ∃ row ∈ rows, row.acct = acct) : db.activeAccounts = [acct] := by
  obtain ⟨row, hrow, hacct⟩ := h
  refine activeAccounts_eq (mem_activeAccounts.2 ⟨activateOnly acct row, ?_, ?_, hacct⟩)
  · rw [hrows]
    exact List.mem_map_of_mem hrow
  · simp [activateOnly, hacct]

theorem activeAccounts_eq_nil (h : ∀ row ∈ db.accounts.rows, row.isActive = false) :
    db.activeAccounts = [] := by
  rw [activeAccounts, List.map_eq_nil_iff, List.filter_eq_nil_iff]
  exact fun row hrow => by simp [h row hrow]

/-- Unmarking all accounts and marking one goes through. -/
theorem deactivate_activate_ok (db : LoginDb) (acct : Str) :
    ∃ db₁ db₂, db.updateAccounts deactivateAll = .ok db₁ ∧
      db₁.updateAccounts (activate acct) = .ok db₂ ∧
      db₂.accounts.rows = db.accounts.rows.map (activateOnly acct) ∧ db₂.columns = db.columns := by
  obtain ⟨db₁, h₁, hrows₁, hcolumns₁⟩ := deactivateAll_ok db
  have hnone : ∀ row ∈ db₁.accounts.rows, row.isActive = false := by
    intro row hrow
    rw [hrows₁, List.mem_map] at hrow
    obtain ⟨row, -, rfl⟩ := hrow
    rfl
  obtain ⟨db₂, h₂, hrows₂, hcolumns₂⟩ := activate_ok hnone acct
  refine ⟨db₁, db₂, h₁, h₂, ?_, hcolumns₂.trans hcolumns₁⟩
  rw [hrows₂, hrows₁, List.map_map]
  exact List.map_congr_left fun row _ => activate_deactivateAll acct row

theorem setActiveAccount_ok (h : db.knows acct = true) :
    ∃ db', db.setActiveAccount acct = .ok db' ∧
      db'.accounts.rows = db.accounts.rows.map (activateOnly acct) ∧ db'.columns = db.columns := by
  obtain ⟨db₁, db₂, h₁, h₂, hrows, hcolumns⟩ := deactivate_activate_ok db acct
  refine ⟨db₂, ?_, hrows, hcolumns⟩
  rw [setActiveAccount, if_pos h, h₁]
  exact h₂

/-- A known account keeps its row and its mark, a new one gets the last row. -/
def upsertedRows (db : LoginDb) (account : LoginAccount) : List LoginAccount :=
  if db.knows account.acct then db.accounts.rows.map (refresh account)
  else db.accounts.rows ++ [{ account with isActive := false }]

theorem upsert_ok (db : LoginDb) (account : LoginAccount) : ∃ db', db.upsert account = .ok db' ∧
    db'.columns = db.columns ∧ db'.accounts.rows = db.upsertedRows account := by
  unfold upsert upsertedRows
  split_ifs with hknows
  · have hclear : Clear loginAccountKeys (refresh account) [] db.accounts.rows := by
      refine Table.clear_of_subset fun row _ k hk => ?_
      simpa [loginAccountKeys] using hk
    obtain ⟨db', h, hrows, hcolumns⟩ := updateAccounts_ok (acct_refresh account) hclear
    exact ⟨db', h, hcolumns, hrows⟩
  · have hfree : ∀ other ∈ db.accounts.rows,
        Apart loginAccountKeys other { account with isActive := false } := by
      intro other hother
      refine apart_iff.2 ⟨fun hacct => hknows ?_, fun _ => rfl⟩
      exact knows_iff.2 ⟨other, hother, hacct⟩
    obtain ⟨accounts, haccounts⟩ := Table.exists_insert hfree
    have hrows := Table.rows_insert haccounts
    have href : References accounts.rows db.columns := by
      intro column hcolumn acct hacct
      obtain ⟨row, hrow, heq⟩ := db.references column hcolumn acct hacct
      exact ⟨row, by simp [hrows, hrow], heq⟩
    refine ⟨⟨accounts, db.columns, href⟩, ?_, rfl, hrows⟩
    simp [haccounts, checked, href]

/-- The single statement of a login goes through exactly when the rows are in order. -/
theorem clear_upsert (hrows : db'.accounts.rows = db.upsertedRows account) :
    Clear loginAccountKeys (activateOnly account.acct) [] db'.accounts.rows ↔
      InOrder db (.login account) := by
  rw [clear_activateOnly, hrows, upsertedRows]
  split_ifs with hknows
  · constructor
    · rintro h _ ⟨⟩ before row after heq hacct other hother
      have hmap : db.accounts.rows.map (refresh account) = before.map (refresh account) ++
          refresh account row :: after.map (refresh account) := by simp [heq]
      have hinactive := h _ _ _ hmap (by simpa using hacct) (refresh account other)
        (List.mem_map_of_mem hother)
      simpa using hinactive
    · intro h before row after heq hacct other hother
      obtain ⟨before', rest, hsplit, rfl, hrest⟩ := List.map_eq_append_iff.1 heq
      obtain ⟨row', after', rfl, rfl, rfl⟩ := List.map_eq_cons_iff.1 hrest
      obtain ⟨other', hother', rfl⟩ := List.mem_map.1 hother
      have hinactive := h account rfl before' row' after' hsplit (by simpa using hacct) other' hother'
      simpa using hinactive
  · have hne : ∀ row ∈ db.accounts.rows, row.acct ≠ account.acct := fun row hrow hacct =>
      hknows (knows_iff.2 ⟨row, hrow, hacct⟩)
    constructor
    · rintro - _ ⟨⟩ before row after heq hacct
      exact absurd hacct (hne row (by simp [heq]))
    · intro _ before row after heq hacct other hother
      -- Only the last row is that of the account.
      rcases List.append_eq_append_iff.1 heq with ⟨suffix, rfl, hlast⟩ | ⟨suffix, hrows, hlast⟩
      · rcases List.singleton_eq_append_iff.1 hlast with ⟨-, hlast⟩ | ⟨-, hlast⟩
        · obtain ⟨-, rfl⟩ := List.cons.inj hlast
          simp at hother
        · cases hlast
      · cases suffix with
        | nil =>
          obtain ⟨-, rfl⟩ := List.cons.inj hlast
          simp at hother
        | cons first suffix =>
          obtain ⟨rfl, -⟩ := List.cons.inj hlast
          exact absurd hacct (hne row (by simp [hrows]))

theorem knows_of_map (hacct : ∀ row, (change row).acct = row.acct)
    (hrows : db.accounts.rows = rows.map change) :
    db.knows name = true ↔ ∃ row ∈ rows, row.acct = name := by
  rw [knows_iff, hrows]
  simp [hacct]

theorem knows_upsertedRows : (∃ row ∈ db.upsertedRows account, row.acct = name) ↔
      db.knows name = true ∨ name = account.acct := by
  unfold upsertedRows
  split_ifs with hknows
  · have hmap : (∃ row ∈ db.accounts.rows.map (refresh account), row.acct = name) ↔
        db.knows name = true := by
      rw [knows_iff]
      simp
    rw [hmap, iff_self_or]
    rintro rfl
    exact hknows
  · simp only [List.mem_append, List.mem_singleton, or_and_right, exists_or, exists_eq_left]
    rw [← knows_iff, @eq_comm _ account.acct]

theorem upsertAndActivate_ok (h : InOrder db (.login account)) :
    ∃ db', db.upsertAndActivateLoginAccount account = .ok db' ∧
      db'.accounts.rows = (db.upsertedRows account).map (activateOnly account.acct) := by
  obtain ⟨db₁, hdb₁, -, hrows₁⟩ := upsert_ok db account
  obtain ⟨db₂, hdb₂, hrows₂, -⟩ :=
    updateAccounts_ok (acct_activateOnly account.acct) ((clear_upsert hrows₁).2 h)
  refine ⟨db₂, ?_, hrows₁ ▸ hrows₂⟩
  rw [upsertAndActivateLoginAccount, hdb₁]
  exact hdb₂

theorem upsertAndActivate_error (h : ¬ InOrder db (.login account)) :
    db.upsertAndActivateLoginAccount account = .error .constraint := by
  obtain ⟨db₁, hdb₁, -, hrows₁⟩ := upsert_ok db account
  rw [upsertAndActivateLoginAccount, hdb₁]
  exact updateAccounts_error fun hclear => h ((clear_upsert hrows₁).1 hclear)

/-- The account that takes over is another one that is known. -/
theorem of_fallback (h : db.fallback acct = some name) :
    name ≠ acct ∧ ∃ row ∈ db.accounts.rows, row.acct = name := by
  obtain ⟨row, hrow, rfl⟩ := Option.map_eq_some_iff.1 h
  have hmem := List.mem_of_mem_head? hrow
  rw [List.mem_insertionSort, List.mem_filter, decide_eq_true_eq] at hmem
  exact ⟨hmem.2, row, hmem.1, rfl⟩

/-- No account takes over when no other one is known. -/
theorem of_fallback_none (h : db.fallback acct = none) :
    ∀ row ∈ db.accounts.rows, row.acct = acct := by
  intro row hrow
  by_contra hne
  have hnil := List.head?_eq_none_iff.1 (Option.map_eq_none_iff.1 h)
  have hmem : row ∈ db.accounts.rows.filter (·.acct ≠ acct) :=
    List.mem_filter.2 ⟨hrow, decide_eq_true hne⟩
  rw [← List.mem_insertionSort fun a b : LoginAccount =>
    toLex (!a.isActive, a.acct) ≤ toLex (!b.isActive, b.acct), hnil] at hmem
  cases hmem

theorem checked_ok {accounts : Table loginAccountKeys} {columns : List ColumnConfig}
    (h : References accounts.rows columns) : checked accounts columns = .ok ⟨accounts, columns, h⟩ :=
  dif_pos h

theorem of_mem_columnsWithout {column : ColumnConfig} (h : column ∈ db.columnsWithout acct) :
    column.accountAcct ≠ some acct ∧
      ∀ name ∈ column.accountAcct, ∃ row ∈ db.accounts.rows, row.acct = name := by
  unfold columnsWithout at h
  split at h
  next name hname =>
    obtain ⟨hne, hrow⟩ := of_fallback hname
    obtain ⟨old, hold, rfl⟩ := List.mem_map.1 h
    unfold reassign
    split_ifs with hacct
    · refine ⟨fun heq => hne (Option.some.inj heq), ?_⟩
      rintro _ ⟨⟩
      exact hrow
    · exact ⟨hacct, db.references old hold⟩
  next =>
    obtain ⟨hold, hacct⟩ := List.mem_filter.1 h
    exact ⟨by simpa using hacct, db.references column hold⟩

theorem remove_ok (h : db.knows acct = true) : ∃ db',
    db.removeLoginAccountAndReassign acct = .ok (db.fallback acct, db') ∧
      db'.columns = db.columnsWithout acct ∧ db'.accounts.rows =
        (db.accounts.rows.filter fun row => !decide (row.acct = acct)).map (match db.fallback acct with
          | some name => activateOnly name
          | none => deactivateAll) := by
  have hcolumns : References db.accounts.rows (db.columnsWithout acct) :=
    fun column hcolumn => (of_mem_columnsWithout hcolumn).2
  have hrows : References (db.accounts.delete (·.acct = acct)).rows (db.columnsWithout acct) := by
    intro column hcolumn name hname
    obtain ⟨hne, hknown⟩ := of_mem_columnsWithout hcolumn
    obtain ⟨row, hrow, rfl⟩ := hknown name hname
    refine ⟨row, List.mem_filter.2 ⟨hrow, ?_⟩, rfl⟩
    simpa using fun heq : row.acct = acct => hne (heq ▸ hname)
  let db₀ : LoginDb := ⟨db.accounts.delete (·.acct = acct), db.columnsWithout acct, hrows⟩
  have hdelete : checked (db.accounts.delete (·.acct = acct)) (db.columnsWithout acct) = .ok db₀ :=
    checked_ok hrows
  rw [removeLoginAccountAndReassign, if_pos h, checked_ok hcolumns]
  cases hname : db.fallback acct with
  | none =>
    obtain ⟨db₁, hdb₁, hrows₁, hcolumns₁⟩ := deactivateAll_ok db₀
    refine ⟨db₁, ?_, hcolumns₁, hrows₁⟩
    simp only [bind, Except.bind, hdelete, hdb₁]
    rfl
  | some name =>
    obtain ⟨db₁, db₂, hdb₁, hdb₂, hrows₂, hcolumns₂⟩ := deactivate_activate_ok db₀ name
    refine ⟨db₂, ?_, hcolumns₂, hrows₂⟩
    simp only [bind, Except.bind, hdelete, hdb₁, hdb₂]
    rfl

end LoginDb

/-! ### Intended accounts -/

open LoginDb

variable {db : LoginDb}

theorem transaction_ok {α : Type} {result : Except SqlError (α × LoginDb)} {answer : α}
    {db' : LoginDb} (h : result = .ok (answer, db')) :
    transaction db result = (.ok answer, db') := by
  rw [h]
  rfl

theorem perform_eq {op : AccountOp} (h : (db.perform op).1 = .ok answer) :
    db.perform op = (.ok answer, (db.perform op).2) := Prod.ext h rfl

theorem perform_setActive {acct : Str} (h : db.knows acct = true) :
    ∃ db', db.perform (.setActive acct) = (.ok none, db') ∧ db'.activeAccounts = [acct] ∧
      ∀ name, db'.knows name = db.knows name := by
  obtain ⟨db', hdb', hrows, -⟩ := setActiveAccount_ok h
  refine ⟨db', ?_, activeAccounts_activateOnly hrows (knows_iff.1 h), fun name => ?_⟩
  · exact transaction_ok (by rw [hdb']; rfl)
  · rw [Bool.eq_iff_iff, knows_of_map (acct_activateOnly acct) hrows, knows_iff]

theorem perform_setActive_error {acct : Str} (h : db.knows acct = false) :
    db.perform (.setActive acct) = (.error .rowNotFound, db) := by
  simp [LoginDb.perform, setActiveAccount, h, transaction, Except.map]

theorem perform_login {account : LoginAccount} (h : InOrder db (.login account)) :
    ∃ db', db.perform (.login account) = (.ok none, db') ∧
      db'.accounts.rows = (db.upsertedRows account).map (activateOnly account.acct) := by
  obtain ⟨db', hdb', hrows⟩ := upsertAndActivate_ok h
  exact ⟨db', transaction_ok (by rw [hdb']; rfl), hrows⟩

theorem perform_login_error {account : LoginAccount} (h : ¬ InOrder db (.login account)) :
    db.perform (.login account) = (.error .constraint, db) := by
  rw [LoginDb.perform, upsertAndActivate_error h]
  rfl

theorem perform_remove {acct : Str} (h : db.knows acct = true) :
    ∃ db', db.perform (.remove acct) = (.ok (db.fallback acct), db') ∧
      db'.activeAccounts = (db.fallback acct).toList ∧
      (∀ name, db'.knows name = true ↔ db.knows name = true ∧ name ≠ acct) ∧
      ∀ column ∈ db'.columns, column.accountAcct ≠ some acct := by
  obtain ⟨db', hdb', hcolumns, hrows⟩ := remove_ok h
  refine ⟨db', transaction_ok hdb', ?_, ?_, ?_⟩
  · cases hname : db.fallback acct with
    | none =>
      refine activeAccounts_eq_nil fun row hrow => ?_
      rw [hrows, hname, List.mem_map] at hrow
      obtain ⟨row, -, rfl⟩ := hrow
      rfl
    | some name =>
      obtain ⟨hne, row, hrow, hacct⟩ := of_fallback hname
      rw [hname] at hrows
      refine activeAccounts_activateOnly hrows ⟨row, List.mem_filter.2 ⟨hrow, ?_⟩, hacct⟩
      simpa [hacct] using hne
  · intro name
    have hnames : ∀ change : LoginAccount → LoginAccount, (∀ row, (change row).acct = row.acct) →
        db'.accounts.rows =
          (db.accounts.rows.filter fun row => !decide (row.acct = acct)).map change →
        (db'.knows name = true ↔ db.knows name = true ∧ name ≠ acct) := by
      intro change hacct hrows
      rw [knows_of_map hacct hrows, knows_iff]
      constructor
      · rintro ⟨row, hrow, rfl⟩
        obtain ⟨hrow, hne⟩ := List.mem_filter.1 hrow
        exact ⟨⟨row, hrow, rfl⟩, by simpa using hne⟩
      · rintro ⟨⟨row, hrow, rfl⟩, hne⟩
        exact ⟨row, List.mem_filter.2 ⟨hrow, by simpa using hne⟩, rfl⟩
    cases hname : db.fallback acct with
    | none => exact hnames _ acct_deactivateAll (by simpa only [hname] using hrows)
    | some other => exact hnames _ (acct_activateOnly other) (by simpa only [hname] using hrows)
  · intro column hcolumn
    rw [hcolumns] at hcolumn
    exact (of_mem_columnsWithout hcolumn).1

theorem perform_remove_error {acct : Str} (h : db.knows acct = false) :
    db.perform (.remove acct) = (.error .rowNotFound, db) := by
  simp [LoginDb.perform, removeLoginAccountAndReassign, h, transaction]

/-- What a login that succeeds has done. -/
theorem of_perform_login {account : LoginAccount} {db' : LoginDb}
    (h : db.perform (.login account) = (.ok answer, db')) :
    db'.accounts.rows = (db.upsertedRows account).map (activateOnly account.acct) ∧
      db'.activeAccounts = [account.acct] ∧
      ∀ name, db'.knows name = true ↔ db.knows name = true ∨ name = account.acct := by
  by_cases horder : InOrder db (.login account)
  · obtain ⟨db₁, hdb₁, hrows⟩ := perform_login horder
    rw [hdb₁] at h
    cases h
    refine ⟨hrows, activeAccounts_activateOnly hrows (knows_upsertedRows.2 (.inr rfl)), ?_⟩
    intro name
    rw [knows_of_map (acct_activateOnly account.acct) hrows, knows_upsertedRows]
  · rw [perform_login_error horder] at h
    cases h

/-- What a removal that succeeds has done. -/
theorem of_perform_remove {acct : Str} {db' : LoginDb}
    (h : db.perform (.remove acct) = (.ok answer, db')) :
    answer = db.fallback acct ∧ db'.activeAccounts = (db.fallback acct).toList ∧
      ∀ name, db'.knows name = true ↔ db.knows name = true ∧ name ≠ acct := by
  cases hknows : db.knows acct with
  | true =>
    obtain ⟨db₁, hdb₁, hactive, hnames, -⟩ := perform_remove hknows
    rw [hdb₁] at h
    cases h
    exact ⟨rfl, hactive, hnames⟩
  | false =>
    rw [perform_remove_error hknows] at h
    cases h

/-- What a switch that succeeds has done. -/
theorem of_perform_setActive {acct : Str} {db' : LoginDb}
    (h : db.perform (.setActive acct) = (.ok answer, db')) :
    db'.activeAccounts = [acct] ∧ ∀ name, db'.knows name = db.knows name := by
  cases hknows : db.knows acct with
  | true =>
    obtain ⟨db₁, hdb₁, hspec⟩ := perform_setActive hknows
    rw [hdb₁] at h
    cases h
    exact hspec
  | false =>
    rw [perform_setActive_error hknows] at h
    cases h

theorem perform_error {op : AccountOp} {error : SqlError} (h : (db.perform op).1 = .error error) :
    (db.perform op).2 = db := by
  have hrollback : ∀ {α : Type} (result : Except SqlError (α × LoginDb)),
      (transaction db result).1 = .error error → (transaction db result).2 = db := by
    rintro α (e | ⟨answer, db'⟩) h
    · rfl
    · cases h
  cases op with
  | setActive acct => exact hrollback _ h
  | login account => exact hrollback _ h
  | remove acct => exact hrollback _ h

/-- One operation does what it should exactly when a login finds the rows in order. -/
theorem intended_iff_inOrder (db : LoginDb) (op : AccountOp) : Intended db op ↔ InOrder db op := by
  constructor
  · intro h
    cases op with
    | setActive acct => exact nofun
    | remove acct => exact nofun
    | login account =>
      by_contra horder
      have hlogin := (h.login account rfl).1
      rw [perform_login_error horder] at hlogin
      cases hlogin
  · intro h
    constructor
    case setActive =>
      rintro acct rfl hknows
      obtain ⟨db', hdb', hactive, -⟩ := perform_setActive hknows
      rw [hdb']
      exact ⟨rfl, hactive⟩
    case login =>
      rintro account rfl
      obtain ⟨db', hdb', -⟩ := perform_login h
      obtain ⟨-, hactive, -⟩ := of_perform_login hdb'
      rw [hdb']
      exact ⟨rfl, hactive⟩
    case remove =>
      rintro acct rfl hknows
      obtain ⟨db', hdb', hactive, hnames, hcolumns⟩ := perform_remove hknows
      rw [hdb']
      exact ⟨_, rfl, hactive, Bool.eq_false_iff.2 fun h => ((hnames acct).1 h).2 rfl, hcolumns⟩
    case rollback => exact fun error herror => perform_error herror

/-- Does every operation of a sequence meet the condition where it is performed? -/
def Throughout (P : LoginDb → AccountOp → Prop) (db : LoginDb) (ops : List AccountOp) : Prop :=
  ∀ before op after, ops = before ++ op :: after → P (db.run before) op

/-- A sequence of operations leaves exactly the intended account active after each of them exactly
when every login finds the rows in order. -/
theorem throughout_intended_iff (db : LoginDb) (ops : List AccountOp) :
    Throughout Intended db ops ↔ Throughout InOrder db ops := by
  unfold Throughout
  simp only [intended_iff_inOrder]

/-- An account to log in with. -/
def sampleAccount (acct : Str) : LoginAccount := ⟨acct, [], [], [], [], true, [], [], none⟩

def emptyDb : LoginDb := ⟨⟨[], .nil⟩, [], nofun⟩

/-- The first of two accounts cannot log in again. -/
theorem not_throughout_intended : ¬ ∀ db ops, Throughout Intended db ops := by
  intro h
  have hlogin := (h emptyDb (["a", "b", "a"].map fun acct => .login (sampleAccount acct))
    (["a", "b"].map fun acct => .login (sampleAccount acct)) (.login (sampleAccount "a")) []
    rfl).login (sampleAccount "a") rfl
  revert hlogin
  decide +kernel

end Awayuki.Accounts
