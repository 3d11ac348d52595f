import Awayuki.Library.Runs
import Awayuki.Accounts.LoginTable

/-!
# Stored credentials

`auth/credential_store.rs`: logins, logouts and token rotations of any number of clients.  A client
persists rotated tokens through its sink, whose authority is the generation of the account that
it read when it was created.

* `Store`: the table, the generations, and the clients with and without a sink;
* `Step`: the steps of the store, of which only the creation of a sink takes no lock;
* `Ledger`: whose token an account should have, by what has happened;
* `kept_of_timely`: the table has these tokens while no sink is created too late, and a sink that
  is created too late overwrites one.
-/

namespace Awayuki.Accounts

open RowTable

variable {answer : Option Str} {account : LoginAccount} {client : ℕ} {event : StoreEvent}

/-- `UPDATE login_accounts SET access_token = ?, app_password = COALESCE(?, app_password)`. -/
def rotated (acct token : Str) (appPassword : Option Str) (row : LoginAccount) : LoginAccount :=
  if row.acct = acct then
    { row with accessToken := token, appPassword := appPassword.orElse fun _ => row.appPassword }
  else row

/-- `update_login_credentials`. -/
def LoginDb.updateLoginCredentials (db : LoginDb) (acct token : Str) (appPassword : Option Str) :
    Except SqlError LoginDb :=
  if db.knows acct then db.updateAccounts (rotated acct token appPassword)
  else .error .rowNotFound

/-- The stored access token of an account. -/
def LoginDb.accessToken (db : LoginDb) (acct : Str) : Option Str :=
  (db.accounts.rows.find? (·.acct = acct)).map (·.accessToken)

inductive CredentialError
  | database (error : SqlError)
  | staleLoginGeneration
  deriving DecidableEq, Repr

/-- `AccountCredentialSink`, with the client that it was made for. -/
structure Sink where
  client : ℕ
  acct : Str
  expectedGeneration : ℕ
  deriving DecidableEq, Repr

/-- The store; the lock of its operations is held between a write and the advance of the
generation by a login, which has a client, or a logout. -/
structure Store where
  db : LoginDb
  generation : Str → ℕ
  operation : Option (Option ℕ × Str)
  /-- the logins that are persisted and have no sink, as clients and accounts -/
  waiting : List (ℕ × Str)
  sinks : List Sink
  /-- the number of clients so far -/
  drawn : ℕ

/-- `update_for_account_generation`. -/
def Store.updateForAccountGeneration (s : Store) (sink : Sink) (token : Str)
    (appPassword : Option Str) : Except CredentialError LoginDb :=
  if s.generation sink.acct ≠ sink.expectedGeneration then .error .staleLoginGeneration
  else (s.db.updateLoginCredentials sink.acct token appPassword).mapError .database

inductive StoreEvent
  | login (client : ℕ) (account : LoginAccount)
  | logout (acct : Str)
  | advance
  | createSink (client : ℕ) (acct : Str)
  | rotate (client : ℕ) (acct token : Str)

/-- The steps; one that fails in the database leaves the store as it is. -/
inductive StoreStep : Store → StoreEvent → Store → Prop
  | login (s : Store) {account : LoginAccount} {answer : Option Str} {db' : LoginDb}
    (hfree : s.operation = none) (hwrite : s.db.perform (.login account) = (.ok answer, db')) :
    StoreStep s (.login s.drawn account)
      { s with db := db', operation := some (some s.drawn, account.acct), drawn := s.drawn + 1 }
  | logout (s : Store) {acct : Str} {answer : Option Str} {db' : LoginDb}
    (hfree : s.operation = none) (hwrite : s.db.perform (.remove acct) = (.ok answer, db')) :
    StoreStep s (.logout acct) { s with db := db', operation := some (none, acct) }
  | advance (s : Store) {client : Option ℕ} {acct : Str}
    (hoperation : s.operation = some (client, acct)) :
    StoreStep s .advance
      { s with
        generation := Function.update s.generation acct (s.generation acct + 1)
        operation := none
        waiting := (client.map (·, acct)).toList ++ s.waiting }
  | createSink (s : Store) {client : ℕ} {acct : Str} (hwaiting : (client, acct) ∈ s.waiting) :
    StoreStep s (.createSink client acct)
      { s with
        waiting := s.waiting.erase (client, acct)
        sinks := ⟨client, acct, s.generation acct⟩ :: s.sinks }
  | rotate (s : Store) {sink : Sink} (hsink : sink ∈ s.sinks) (hfree : s.operation = none)
    (token : Str) (appPassword : Option Str) {db' : LoginDb}
    (hwrite : s.updateForAccountGeneration sink token appPassword = .ok db') :
    StoreStep s (.rotate sink.client sink.acct token) { s with db := db' }
  | reject (s : Store) {sink : Sink} (hsink : sink ∈ s.sinks) (hfree : s.operation = none)
    (token : Str) (appPassword : Option Str) {error : CredentialError}
    (hwrite : s.updateForAccountGeneration sink token appPassword = .error error) :
    StoreStep s (.rotate sink.client sink.acct token) s

/-! ### Whose token an account should have -/

/-- The owner of the row of each account, if it has one, and the owner's last token.  A row from an
earlier process may have no owner. -/
abbrev Ledger := Str → Option (Option ℕ × Str)

def Ledger.after (ledger : Ledger) : StoreEvent → Ledger
  | .login client account =>
    Function.update ledger account.acct (some (some client, account.accessToken))
  | .logout acct => Function.update ledger acct none
  | .rotate client acct token =>
    if (ledger acct).any (·.1 = some client) then
      Function.update ledger acct (some (some client, token))
    else ledger
  | .advance | .createSink .. => ledger

/-- The table has the tokens that it should have. -/
def Kept (s : Store) (ledger : Ledger) : Prop :=
  ∀ acct, s.db.accessToken acct = (ledger acct).map (·.2)

/-- A sink is created in time: the row of its account, if there is one, is still that of its client,
or an operation on the account is about to advance the generation. -/
def Timely (s : Store) (ledger : Ledger) : StoreEvent → Prop
  | .createSink client acct => (∃ other, s.operation = some (other, acct)) ∨
      ∀ row ∈ ledger acct, row.1 = some client
  | _ => True

/-! ### Tokens in the table -/

namespace LoginDb

variable {db db' : LoginDb} {acct token : Str}

theorem accessToken_eq_some : db.accessToken acct = some token ↔
    ∃ row ∈ db.accounts.rows, row.acct = acct ∧ row.accessToken = token := by
  unfold accessToken
  rw [Option.map_eq_some_iff]
  constructor
  · rintro ⟨row, hrow, rfl⟩
    exact ⟨row, List.mem_of_find?_eq_some hrow, by simpa using List.find?_some hrow, rfl⟩
  · rintro ⟨row, hrow, rfl, rfl⟩
    have hsome : (db.accounts.rows.find? (·.acct = row.acct)).isSome = true :=
      List.find?_isSome.2 ⟨row, hrow, by simp⟩
    obtain ⟨other, hother⟩ := Option.isSome_iff_exists.1 hsome
    refine ⟨other, hother, ?_⟩
    have hacct : other.acct = row.acct := by simpa using List.find?_some hother
    rw [eq_of_acct (List.mem_of_find?_eq_some hother) hrow hacct]

theorem knows_of_accessToken (h : db.accessToken acct = some token) : db.knows acct = true := by
  obtain ⟨row, hrow, hacct, -⟩ := accessToken_eq_some.1 h
  exact knows_iff.2 ⟨row, hrow, hacct⟩

/-- The tokens of rows that are changed. -/
theorem accessToken_of_map {rows : List LoginAccount} {change : LoginAccount → LoginAccount}
    (hacct : ∀ row, (change row).acct = row.acct) (hrows : db'.accounts.rows = rows.map change)
    {name : Str} : db'.accessToken name = some token ↔
      ∃ row ∈ rows, row.acct = name ∧ (change row).accessToken = token := by
  rw [accessToken_eq_some, hrows]
  simp [hacct]

/-- A login stores its token and leaves those of the others. -/
theorem accessToken_login (h : db.perform (.login account) = (.ok answer, db')) (name : Str) :
    db'.accessToken name =
      if name = account.acct then some account.accessToken else db.accessToken name := by
  obtain ⟨hrows, -⟩ := of_perform_login h
  have hmem : ∀ token, db'.accessToken name = some token ↔
      ∃ row ∈ db.upsertedRows account, row.acct = name ∧ row.accessToken = token := by
    intro token
    exact accessToken_of_map (acct_activateOnly account.acct) hrows
  -- What the rows of one account have in common, before and after.
  have hrow : ∀ row ∈ db.upsertedRows account, row.acct = account.acct →
      row.accessToken = account.accessToken := by
    intro row hrow hacct
    unfold upsertedRows at hrow
    split_ifs at hrow with hknows
    · obtain ⟨old, -, rfl⟩ := List.mem_map.1 hrow
      rw [acct_refresh] at hacct
      simp [refresh, hacct]
    · rcases List.mem_append.1 hrow with hrow | hrow
      · exact absurd (knows_iff.2 ⟨row, hrow, hacct⟩) hknows
      · obtain rfl := List.mem_singleton.1 hrow
        rfl
  split_ifs with hname
  · subst hname
    obtain ⟨row, hold, hacct⟩ : ∃ row ∈ db.upsertedRows account, row.acct = account.acct :=
      knows_upsertedRows.2 (.inr rfl)
    rw [hmem]
    exact ⟨row, hold, hacct, hrow row hold hacct⟩
  · refine Option.ext fun token => ?_
    rw [hmem, accessToken_eq_some]
    unfold upsertedRows
    split_ifs with hknows
    · have hsame : ∀ row : LoginAccount, row.acct = name → refresh account row = row :=
        fun row hacct => if_neg (hacct ▸ hname)
      constructor
      · rintro ⟨_, hmap, hacct, htoken⟩
        obtain ⟨old, hold, rfl⟩ := List.mem_map.1 hmap
        rw [acct_refresh] at hacct
        rw [hsame old hacct] at htoken
        exact ⟨old, hold, hacct, htoken⟩
      · rintro ⟨old, hold, hacct, htoken⟩
        exact ⟨old, List.mem_map.2 ⟨old, hold, hsame old hacct⟩, hacct, htoken⟩
    · simp only [List.mem_append, List.mem_singleton, or_and_right, exists_or, exists_eq_left]
      refine or_iff_left fun hnew => hname hnew.1.symm

/-- A removal leaves the tokens of the others. -/
theorem accessToken_remove (h : db.perform (.remove acct) = (.ok answer, db')) (name : Str) :
    db'.accessToken name = if name = acct then none else db.accessToken name := by
  cases hknows : db.knows acct with
  | false =>
    rw [perform_remove_error hknows] at h
    cases h
  | true =>
    obtain ⟨db₁, hdb₁, -, hrows⟩ := remove_ok hknows
    rw [LoginDb.perform, transaction_ok hdb₁] at h
    cases h
    have hmem : ∀ token, db'.accessToken name = some token ↔
        ∃ row ∈ db.accounts.rows.filter fun row => !decide (row.acct = acct),
          row.acct = name ∧ row.accessToken = token := by
      intro token
      cases hfallback : db.fallback acct with
      | none =>
        rw [hfallback] at hrows
        exact accessToken_of_map acct_deactivateAll hrows
      | some other =>
        rw [hfallback] at hrows
        exact accessToken_of_map (acct_activateOnly other) hrows
    refine Option.ext fun token => ?_
    rw [hmem]
    split_ifs with hname
    · subst hname
      simp only [iff_false]
      rintro ⟨row, hrow, hacct, -⟩
      simp [hacct] at hrow
    · rw [accessToken_eq_some]
      constructor
      · rintro ⟨row, hrow, hspec⟩
        exact ⟨row, (List.mem_filter.1 hrow).1, hspec⟩
      · rintro ⟨row, hrow, hacct, htoken⟩
        exact ⟨row, List.mem_filter.2 ⟨hrow, by simpa [hacct] using hname⟩, hacct, htoken⟩

theorem acct_rotated (appPassword : Option Str) (row : LoginAccount) :
    (rotated acct token appPassword row).acct = row.acct := by
  unfold rotated
  split_ifs <;> rfl

/-- A rotation of an account with a row stores its token and leaves those of the others. -/
theorem updateLoginCredentials_ok (hknows : db.knows acct = true) (token : Str)
    (appPassword : Option Str) : ∃ db', db.updateLoginCredentials acct token appPassword = .ok db' ∧
      ∀ name, db'.accessToken name = if name = acct then some token else db.accessToken name := by
  have hclear : Clear loginAccountKeys (rotated acct token appPassword) [] db.accounts.rows := by
    refine Table.clear_of_subset fun row _ k hk => ?_
    unfold rotated at hk
    split_ifs at hk
    · exact hk
    · exact hk
  obtain ⟨db', hdb', hrows, -⟩ := updateAccounts_ok (acct_rotated appPassword) hclear
  refine ⟨db', by rw [updateLoginCredentials, if_pos hknows, hdb'], fun name => ?_⟩
  refine Option.ext fun token' => ?_
  rw [accessToken_of_map (acct_rotated appPassword) hrows]
  split_ifs with hname
  · subst hname
    obtain ⟨row, hrow, hacct⟩ := knows_iff.1 hknows
    constructor
    · rintro ⟨row, hrow, hacct, rfl⟩
      simp [rotated, hacct]
    · rintro ⟨⟩
      exact ⟨row, hrow, hacct, by simp [rotated, hacct]⟩
  · rw [accessToken_eq_some]
    have hsame : ∀ row : LoginAccount, row.acct = name →
        rotated acct token appPassword row = row := fun row hacct => if_neg (hacct ▸ hname)
    constructor
    · rintro ⟨row, hrow, hacct, htoken⟩
      exact ⟨row, hrow, hacct, by rwa [hsame row hacct] at htoken⟩
    · rintro ⟨row, hrow, hacct, htoken⟩
      exact ⟨row, hrow, hacct, by rwa [hsame row hacct]⟩

end LoginDb

/-! ### Owners -/

/-- Between two steps: a sink with the current generation belongs to the owner of the row, unless
an operation on the account is about to advance the generation, and the owner's sink has it. -/
structure Owned (s : Store) (ledger : Ledger) : Prop where
  kept : Kept s ledger
  past : ∀ sink ∈ s.sinks, sink.expectedGeneration ≤ s.generation sink.acct
  current : ∀ sink ∈ s.sinks, sink.expectedGeneration = s.generation sink.acct →
    (∀ other, s.operation ≠ some (other, sink.acct)) →
      ∀ row ∈ ledger sink.acct, row.1 = some sink.client
  owner : ∀ sink ∈ s.sinks, ∀ row ∈ ledger sink.acct, row.1 = some sink.client →
    sink.expectedGeneration = s.generation sink.acct
  operation : ∀ other acct, s.operation = some (other, acct) →
    (∀ row ∈ ledger acct, row.1 = other ∧ other ≠ none) ∧
      ∀ client ∈ other, client < s.drawn ∧ (∀ sink ∈ s.sinks, sink.client ≠ client)
  drawn : ∀ sink ∈ s.sinks, sink.client < s.drawn
  waiting : ∀ entry ∈ s.waiting, entry.1 < s.drawn ∧
    ∀ other acct, s.operation = some (other, acct) → other ≠ some entry.1

/-- The store of a process that has restored clients: each has the sink of its row. -/
structure Restored (s : Store) (ledger : Ledger) : Prop where
  kept : Kept s ledger
  idle : s.operation = none
  waiting : s.waiting = []
  sinks : ∀ sink ∈ s.sinks, sink.client < s.drawn ∧
    sink.expectedGeneration = s.generation sink.acct ∧
      ∀ row ∈ ledger sink.acct, row.1 = some sink.client

theorem Restored.owned {s : Store} {ledger : Ledger} (h : Restored s ledger) : Owned s ledger where
  kept := h.kept
  past := fun sink hsink => (h.sinks sink hsink).2.1.le
  current := fun sink hsink _ _ => (h.sinks sink hsink).2.2
  owner := fun sink hsink _ _ _ => (h.sinks sink hsink).2.1
  operation := by simp [h.idle]
  drawn := fun sink hsink => (h.sinks sink hsink).1
  waiting := by simp [h.waiting]

variable {sink : Sink} {s' : Store}

namespace Owned

variable {s : Store} {ledger : Ledger} {appPassword : Option Str}

theorem knows_iff (h : Owned s ledger) {acct : Str} :
    s.db.knows acct = true ↔ ∃ row, ledger acct = some row := by
  have hkept := h.kept acct
  constructor
  · intro hknows
    obtain ⟨row, hrow, hacct⟩ := LoginDb.knows_iff.1 hknows
    have htoken := LoginDb.accessToken_eq_some.2 ⟨row, hrow, hacct, rfl⟩
    rw [hkept] at htoken
    obtain ⟨entry, hentry, -⟩ := Option.map_eq_some_iff.1 htoken
    exact ⟨entry, hentry⟩
  · rintro ⟨row, hrow⟩
    rw [hrow] at hkept
    exact LoginDb.knows_of_accessToken hkept

theorem login (h : Owned s ledger) {db' : LoginDb} (hfree : s.operation = none)
    (hwrite : s.db.perform (.login account) = (.ok answer, db')) :
    Owned { s with db := db', operation := some (some s.drawn, account.acct), drawn := s.drawn + 1 }
      (ledger.after (.login s.drawn account)) where
  kept := by
    intro acct
    rw [LoginDb.accessToken_login hwrite, Ledger.after, Function.update_apply]
    split_ifs
    · rfl
    · exact h.kept acct
  past := h.past
  current := by
    intro sink hsink hgeneration hnone row hrow
    rw [Ledger.after, Function.update_apply] at hrow
    split_ifs at hrow with hacct
    · exact absurd (congrArg (fun acct => some (some s.drawn, acct)) hacct.symm) (hnone _)
    · exact h.current sink hsink hgeneration (by simp [hfree]) row hrow
  owner := by
    intro sink hsink row hrow howner
    rw [Ledger.after, Function.update_apply] at hrow
    split_ifs at hrow with hacct
    · cases hrow
      have hlt := h.drawn sink hsink
      rw [← Option.some.inj howner] at hlt
      exact absurd hlt (lt_irrefl _)
    · exact h.owner sink hsink row hrow howner
  operation := by
    rintro _ _ ⟨⟩
    refine ⟨fun row hrow => ?_, ?_⟩
    · rw [Ledger.after, Function.update_self] at hrow
      cases hrow
      exact ⟨rfl, nofun⟩
    · rintro _ ⟨⟩
      exact ⟨Nat.lt_succ_self _, fun sink hsink => (h.drawn sink hsink).ne⟩
  drawn := fun sink hsink => (h.drawn sink hsink).trans (Nat.lt_succ_self _)
  waiting := by
    intro entry hentry
    have hlt := (h.waiting entry hentry).1
    refine ⟨hlt.trans (Nat.lt_succ_self _), ?_⟩
    rintro _ _ ⟨⟩ heq
    exact hlt.ne' (Option.some.inj heq)

theorem logout (h : Owned s ledger) {acct : Str} {db' : LoginDb} (hfree : s.operation = none)
    (hwrite : s.db.perform (.remove acct) = (.ok answer, db')) :
    Owned { s with db := db', operation := some (none, acct) } (ledger.after (.logout acct)) where
  kept := by
    intro name
    rw [LoginDb.accessToken_remove hwrite, Ledger.after, Function.update_apply]
    split_ifs
    · rfl
    · exact h.kept name
  past := h.past
  current := by
    intro sink hsink hgeneration hnone row hrow
    rw [Ledger.after, Function.update_apply] at hrow
    split_ifs at hrow
    · cases hrow
    · exact h.current sink hsink hgeneration (by simp [hfree]) row hrow
  owner := by
    intro sink hsink row hrow howner
    rw [Ledger.after, Function.update_apply] at hrow
    split_ifs at hrow
    · cases hrow
    · exact h.owner sink hsink row hrow howner
  operation := by
    rintro _ _ ⟨⟩
    exact ⟨by simp [Ledger.after], nofun⟩
  drawn := h.drawn
  waiting := by
    intro entry hentry
    refine ⟨(h.waiting entry hentry).1, ?_⟩
    rintro _ _ ⟨⟩
    exact nofun

/-- Only sinks of other owners are left behind when a generation is advanced. -/
theorem advance (h : Owned s ledger) {client : Option ℕ} {acct : Str}
    (hoperation : s.operation = some (client, acct)) :
    Owned { s with
      generation := Function.update s.generation acct (s.generation acct + 1)
      operation := none
      waiting := (client.map (·, acct)).toList ++ s.waiting } ledger := by
  have hle : ∀ name, s.generation name ≤
      Function.update s.generation acct (s.generation acct + 1) name := by
    intro name
    rw [Function.update_apply]
    split_ifs with hname
    · rw [hname]
      omega
    · exact le_rfl
  obtain ⟨hrow, hclient⟩ := h.operation client acct hoperation
  constructor
  case kept => exact h.kept
  case past => exact fun sink hsink => (h.past sink hsink).trans (hle sink.acct)
  case current =>
    intro sink hsink hgeneration _
    have hpast := h.past sink hsink
    simp only [Function.update_apply] at hgeneration
    split_ifs at hgeneration with hacct
    · rw [hacct] at hpast
      omega
    · refine h.current sink hsink hgeneration fun other hother => hacct ?_
      rw [hoperation] at hother
      cases hother
      rfl
  case owner =>
    intro sink hsink row hmem howner
    simp only [Function.update_apply]
    split_ifs with hacct
    · obtain ⟨heq, -⟩ := hrow row (hacct ▸ hmem)
      exact absurd rfl ((hclient sink.client (heq ▸ howner)).2 sink hsink)
    · exact h.owner sink hsink row hmem howner
  case operation => exact nofun
  case drawn => exact h.drawn
  case waiting =>
    intro entry hentry
    refine ⟨?_, nofun⟩
    rcases List.mem_append.1 hentry with hentry | hentry
    · obtain ⟨client', hclient', rfl⟩ := Option.map_eq_some_iff.1 (Option.mem_toList.1 hentry)
      exact (hclient client' hclient').1
    · exact (h.waiting entry hentry).1

theorem createSink (h : Owned s ledger) {acct : Str} (hwaiting : (client, acct) ∈ s.waiting)
    (htimely : Timely s ledger (.createSink client acct)) : Owned { s with
      waiting := s.waiting.erase (client, acct)
      sinks := ⟨client, acct, s.generation acct⟩ :: s.sinks } ledger := by
  obtain ⟨hdrawn, hfresh⟩ := h.waiting _ hwaiting
  constructor
  case kept => exact h.kept
  case past => exact List.forall_mem_cons.2 ⟨le_rfl, h.past⟩
  case current =>
    refine List.forall_mem_cons.2 ⟨fun _ hnone => ?_, h.current⟩
    rcases htimely with ⟨other, hother⟩ | howned
    · exact absurd hother (hnone other)
    · exact howned
  case owner => exact List.forall_mem_cons.2 ⟨fun _ _ _ => rfl, h.owner⟩
  case operation =>
    intro other name hoperation
    obtain ⟨hrow, hclient⟩ := h.operation other name hoperation
    refine ⟨hrow, fun client' hmem => ⟨(hclient client' hmem).1, ?_⟩⟩
    refine List.forall_mem_cons.2 ⟨?_, (hclient client' hmem).2⟩
    rintro rfl
    exact hfresh other name hoperation hmem
  case drawn => exact List.forall_mem_cons.2 ⟨hdrawn, h.drawn⟩
  case waiting => exact fun entry hentry => h.waiting entry (List.mem_of_mem_erase hentry)

/-- A rotation that is accepted is one by the owner. -/
theorem rotate (h : Owned s ledger) (hsink : sink ∈ s.sinks) (hfree : s.operation = none)
    {token : Str} {db' : LoginDb}
    (hwrite : s.updateForAccountGeneration sink token appPassword = .ok db') :
    Owned { s with db := db' } (ledger.after (.rotate sink.client sink.acct token)) := by
  unfold Store.updateForAccountGeneration at hwrite
  split_ifs at hwrite with hstale
  have hgeneration := (not_not.1 hstale).symm
  have hupdate : s.db.updateLoginCredentials sink.acct token appPassword = .ok db' := by
    cases hresult : s.db.updateLoginCredentials sink.acct token appPassword with
    | ok db₁ =>
      rw [hresult] at hwrite
      cases hwrite
      rfl
    | error error =>
      rw [hresult] at hwrite
      cases hwrite
  have hknows : s.db.knows sink.acct = true := by
    unfold LoginDb.updateLoginCredentials at hupdate
    split_ifs at hupdate with hknows
    exact hknows
  obtain ⟨db₁, hdb₁, htokens⟩ := LoginDb.updateLoginCredentials_ok hknows token appPassword
  rw [hupdate] at hdb₁
  cases hdb₁
  obtain ⟨⟨holder, old⟩, hrow⟩ := h.knows_iff.1 hknows
  have howner : holder = some sink.client :=
    h.current sink hsink hgeneration (by simp [hfree]) _ hrow
  subst howner
  have hafter : ledger.after (.rotate sink.client sink.acct token) =
      Function.update ledger sink.acct (some (some sink.client, token)) := by
    simp [Ledger.after, hrow]
  rw [hafter]
  have hsame : ∀ name, ∀ row ∈ Function.update ledger sink.acct (some (some sink.client, token)) name,
      ∃ row' ∈ ledger name, row'.1 = row.1 := by
    intro name row hmem
    rw [Function.update_apply] at hmem
    split_ifs at hmem with hname
    · cases hmem
      exact ⟨(some sink.client, old), hname ▸ hrow, rfl⟩
    · exact ⟨row, hmem, rfl⟩
  constructor
  case kept =>
    intro name
    rw [htokens, Function.update_apply]
    split_ifs
    · rfl
    · exact h.kept name
  case past => exact h.past
  case current =>
    intro other hother hcurrent hnone row hmem
    obtain ⟨row', hmem', heq⟩ := hsame _ row hmem
    exact heq ▸ h.current other hother hcurrent hnone row' hmem'
  case owner =>
    intro other hother row hmem hrow'
    obtain ⟨row', hmem', heq⟩ := hsame _ row hmem
    exact h.owner other hother row' hmem' (heq.trans hrow')
  case operation => simp [hfree]
  case drawn => exact h.drawn
  case waiting => exact h.waiting

/-- A rotation that is rejected is not one by the owner. -/
theorem reject (h : Owned s ledger) (hsink : sink ∈ s.sinks) {token : Str} {error : CredentialError}
    (hwrite : s.updateForAccountGeneration sink token appPassword = .error error) :
    ledger.after (.rotate sink.client sink.acct token) = ledger := by
  refine if_neg fun hany => ?_
  obtain ⟨row, hrow, howner⟩ := (Option.any_eq_true _ _).1 hany
  have hgeneration := h.owner sink hsink row hrow (of_decide_eq_true howner)
  have hknows : s.db.knows sink.acct = true := h.knows_iff.2 ⟨row, hrow⟩
  obtain ⟨db', hdb', -⟩ := LoginDb.updateLoginCredentials_ok hknows token appPassword
  rw [Store.updateForAccountGeneration, if_neg (not_not.2 hgeneration.symm), hdb'] at hwrite
  cases hwrite

/-- One step that creates no sink too late. -/
theorem step (h : Owned s ledger) (hstep : StoreStep s event s') (htimely : Timely s ledger event) :
    Owned s' (ledger.after event) := by
  cases hstep with
  | login hfree hwrite => exact h.login hfree hwrite
  | logout hfree hwrite => exact h.logout hfree hwrite
  | advance hoperation => exact h.advance hoperation
  | createSink hwaiting => exact h.createSink hwaiting htimely
  | rotate hsink hfree token appPassword hwrite => exact h.rotate hsink hfree hwrite
  | reject hsink hfree token appPassword hwrite =>
    rw [h.reject hsink hwrite]
    exact h

end Owned

/-! ### Runs -/

/-- A step of the store, with the ledger. -/
def Audited (before : Store × Ledger) (event : StoreEvent) (after : Store × Ledger) : Prop :=
  StoreStep before.1 event after.1 ∧ after.2 = before.2.after event

theorem StoreStep.audited {s : Store} (h : StoreStep s event s') (ledger : Ledger) :
    Audited (s, ledger) event (s', ledger.after event) := ⟨h, rfl⟩

/-- A step that creates no sink too late. -/
def TimelyStep (before : Store × Ledger) (event : StoreEvent) (after : Store × Ledger) : Prop :=
  Audited before event after ∧ Timely before.1 before.2 event

theorem owned_of_timely {start state : Store × Ledger} {events : List StoreEvent}
    (hstart : Restored start.1 start.2) (hrun : Runs.Run TimelyStep start events state) :
    Owned state.1 state.2 := by
  refine hrun.invariant (I := fun state => Owned state.1 state.2) hstart.owned ?_
  rintro before event ⟨s', ledger'⟩ h ⟨⟨hstep, rfl⟩, htimely⟩
  exact h.step hstep htimely

/-- A current sink overwrites the row of another client. -/
theorem overwrites_of_current {s : Store} {ledger : Ledger} (hkept : Kept s ledger)
    (hsink : sink ∈ s.sinks) (hfree : s.operation = none)
    (hgeneration : s.generation sink.acct = sink.expectedGeneration) {row : Option ℕ × Str}
    (hrow : ledger sink.acct = some row) (hother : row.1 ≠ some sink.client) :
    ∃ token s', StoreStep s (.rotate sink.client sink.acct token) s' ∧
      ¬ Kept s' (ledger.after (.rotate sink.client sink.acct token)) := by
  have hstored : s.db.accessToken sink.acct = some row.2 := by rw [hkept, hrow, Option.map_some]
  have hknows := LoginDb.knows_of_accessToken hstored
  obtain ⟨db', hdb', htokens⟩ := LoginDb.updateLoginCredentials_ok hknows ('x' :: row.2) none
  have hwrite : s.updateForAccountGeneration sink ('x' :: row.2) none = .ok db' := by
    rw [Store.updateForAccountGeneration, if_neg (not_not.2 hgeneration), hdb']
    rfl
  refine ⟨'x' :: row.2, _, .rotate s hsink hfree _ none hwrite, fun h => ?_⟩
  have hafter : ledger.after (.rotate sink.client sink.acct ('x' :: row.2)) = ledger := by
    simp [Ledger.after, hrow, hother]
  have htoken := h sink.acct
  rw [hafter, hrow] at htoken
  simp [htokens] at htoken

/-- A sink that is created too late overwrites the row of another client with its next rotation. -/
theorem overwrites_of_late {s : Store} {ledger : Ledger} (hkept : Kept s ledger) {acct : Str}
    (hwaiting : (client, acct) ∈ s.waiting) (hlate : ¬ Timely s ledger (.createSink client acct)) :
    ∃ events state, Runs.Run Audited (s, ledger) (.createSink client acct :: events) state ∧
      ¬ Kept state.1 state.2 := by
  obtain ⟨hnone, howned⟩ := not_or.1 hlate
  obtain ⟨row, hrow, hother⟩ : ∃ row, ledger acct = some row ∧ row.1 ≠ some client := by
    by_contra hall
    exact howned fun row hrow => by_contra fun hne => hall ⟨row, hrow, hne⟩
  let sink : Sink := ⟨client, acct, s.generation acct⟩
  let s₁ : Store :=
    { s with waiting := s.waiting.erase (client, acct), sinks := sink :: s.sinks }
  have hcreate : Audited (s, ledger) (.createSink client acct) (s₁, ledger) :=
    ⟨.createSink s hwaiting, rfl⟩
  have hsink : sink ∈ s₁.sinks := List.mem_cons_self
  cases hoperation : s.operation with
  | none =>
    obtain ⟨token, s', hrotate, hbad⟩ :=
      overwrites_of_current (s := s₁) hkept hsink hoperation rfl hrow hother
    have hrun : Runs.Run Audited (s, ledger) [.createSink client acct, .rotate client acct token]
        (s', _) := .snoc (.snoc (.nil _) hcreate) ⟨hrotate, rfl⟩
    exact ⟨_, _, hrun, hbad⟩
  | some operation =>
    obtain ⟨other, name⟩ := operation
    have hne : acct ≠ name := by
      rintro rfl
      exact hnone ⟨other, hoperation⟩
    -- The operation on the other account ends first.
    let s₂ : Store :=
      { s₁ with
        generation := Function.update s₁.generation name (s₁.generation name + 1)
        operation := none
        waiting := (other.map (·, name)).toList ++ s₁.waiting }
    have hadvance : Audited (s₁, ledger) .advance (s₂, ledger) := ⟨.advance s₁ hoperation, rfl⟩
    have hgeneration : s₂.generation sink.acct = sink.expectedGeneration :=
      Function.update_of_ne hne _ _
    obtain ⟨token, s', hrotate, hbad⟩ :=
      overwrites_of_current (s := s₂) hkept hsink rfl hgeneration hrow hother
    have hrun : Runs.Run Audited (s, ledger)
        [.createSink client acct, .advance, .rotate client acct token] (s', _) :=
      .snoc (.snoc (.snoc (.nil _) hcreate) hadvance) ⟨hrotate, rfl⟩
    exact ⟨_, _, hrun, hbad⟩

/-- A store without accounts. -/
def emptyStore : Store := ⟨emptyDb, fun _ => 0, none, [], [], 0⟩

def emptyLedger : Ledger := fun _ => none

theorem restored_emptyStore : Restored emptyStore emptyLedger where
  kept := fun _ => rfl
  idle := rfl
  waiting := rfl
  sinks := nofun

/-- An account with a token. -/
def accountWith (token : Str) : LoginAccount := { sampleAccount "a" with accessToken := token }

/-- The steps of a login with a token that is persisted, up to its sink. -/
theorem audited_login {s : Store} (ledger : Ledger) (token : Str) (hfree : s.operation = none)
    (hwrite : (s.db.perform (.login (accountWith token))).1 = .ok none) :
    ∃ s', Runs.Run Audited (s, ledger) [.login s.drawn (accountWith token), .advance]
        (s', ledger.after (.login s.drawn (accountWith token))) ∧
      s'.db = (s.db.perform (.login (accountWith token))).2 ∧ s'.operation = none ∧
      s'.waiting = (s.drawn, "a".toList) :: s.waiting ∧ s'.drawn = s.drawn + 1 := by
  have hlogin := (StoreStep.login s hfree (perform_eq hwrite)).audited ledger
  have hadvance := (StoreStep.advance { s with
    db := (s.db.perform (.login (accountWith token))).2
    operation := some (some s.drawn, "a".toList)
    drawn := s.drawn + 1 } rfl).audited (ledger.after (.login s.drawn (accountWith token)))
  exact ⟨_, .snoc (.snoc (.nil _) hlogin) hadvance, rfl, rfl, rfl, rfl⟩

end Awayuki.Accounts
