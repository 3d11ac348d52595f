import Awayuki.Library.Runs
import Awayuki.Accounts.LoginTable

/-!
# The active account in memory and in the database

`persist_login_session` of `application/desktop.rs`, `switch_active_account` and `logout_account` of
`application/account.rs`, any number of them at once.  A switch holds the lock of the sessions
across its database write; a login and a logout write first and take the lock later.

* `SessionManager`: the sessions of `auth/session.rs`;
* `Task`: how far an operation has come, `Step`: its next step;
* `Consistent`: what holds between the steps while no write comes between the write of a login or
  logout and its change of the sessions;
* `agree_of_undisturbed`: then memory and database agree whenever no operation is in progress.
-/

namespace Awayuki.Accounts

/-! ### Sessions -/

/-- The accounts that have a session and the active one of them. -/
structure SessionManager where
  sessions : Finset Str
  activeAcct : Option Str
  active_mem : ∀ acct ∈ activeAcct, acct ∈ sessions

namespace SessionManager

def addSession (m : SessionManager) (acct : Str) : SessionManager where
  sessions := insert acct m.sessions
  activeAcct := m.activeAcct.or (some acct)
  active_mem := by
    intro name hname
    cases hactive : m.activeAcct with
    | none =>
      rw [hactive] at hname
      cases hname
      exact Finset.mem_insert_self _ _
    | some other =>
      rw [hactive] at hname
      cases hname
      exact Finset.mem_insert_of_mem (m.active_mem _ hactive)

def setActive (m : SessionManager) (acct : Str) : Bool × SessionManager :=
  if h : acct ∈ m.sessions then
    (true, { m with
      activeAcct := some acct
      active_mem := by
        rintro _ ⟨⟩
        exact h })
  else (false, m)

/-- The session that comes first in the map is active next, whichever that is. -/
def removeSession (m : SessionManager) (acct : Str)
    (next : Option { name // name ∈ m.sessions.erase acct }) : SessionManager where
  sessions := m.sessions.erase acct
  activeAcct := if m.activeAcct = some acct then next.map (·.1) else m.activeAcct
  active_mem := by
    intro name hname
    split_ifs at hname with hactive
    · obtain ⟨key, -, rfl⟩ := Option.map_eq_some_iff.1 hname
      exact key.2
    · refine Finset.mem_erase.2 ⟨?_, m.active_mem name hname⟩
      rintro rfl
      exact hactive hname

theorem setActive_of_mem {m : SessionManager} {acct : Str} (h : acct ∈ m.sessions) :
    (m.setActive acct).2.activeAcct = some acct ∧ (m.setActive acct).2.sessions = m.sessions := by
  simp [setActive, h]

end SessionManager

/-! ### Operations in progress -/

/-- An operation, by the step that it takes next. -/
inductive Task
  /-- a login before its database write -/
  | login (account : LoginAccount)
  /-- a login that is written, before its session is added -/
  | loggedIn (acct : Str)
  /-- a logout before its database write -/
  | logout (acct : Str)
  /-- a logout that is written, with the account that takes over -/
  | loggedOut (acct : Str) (fallback : Option Str)
  /-- a switch that waits for the lock -/
  | switch (acct : Str)
  /-- a switch that has the lock, before its database write -/
  | switchLocked (acct : Str)
  /-- a switch that has the lock and is written -/
  | switched (acct : Str)
  deriving DecidableEq

namespace Task

def starts : Task → Bool
  | .login _ | .logout _ | .switch _ => true
  | _ => false

def holdsLock : Task → Bool
  | .switchLocked _ | .switched _ => true
  | _ => false

/-- Is it a login or logout between its database write and its change of the sessions? -/
def isOpen : Task → Bool
  | .loggedIn _ | .loggedOut .. => true
  | _ => false

/-- The transaction that comes next. -/
def transaction? : Task → Option AccountOp
  | .login account => some (.login account)
  | .logout acct => some (.remove acct)
  | .switchLocked acct => some (.setActive acct)
  | _ => none

/-- The operation after its transaction. -/
def written (answer : Option Str) : Task → Task
  | .login account => .loggedIn account.acct
  | .logout acct => .loggedOut acct answer
  | .switchLocked acct => .switched acct
  | task => task

/-- A transaction, a request or the saving of the profile can fail, a change of the sessions
cannot. -/
def mayFail : Task → Bool
  | .loggedOut .. | .switched _ => false
  | _ => true

end Task

structure Runtime where
  db : LoginDb
  sessions : SessionManager
  locked : Bool
  tasks : List Task

inductive Event
  | begin (task : Task)
  | write (task : Task)
  | fail (task : Task)
  | lock (acct : Str)
  | change (task : Task)

/-- One step of one operation.  The lock of the credential store is held for a transaction only,
so it does not restrict the order. -/
inductive Step : Runtime → Event → Runtime → Prop
  | begin (r : Runtime) (task : Task) (h : task.starts = true) :
    Step r (.begin task) { r with tasks := r.tasks ++ [task] }
  | write (r : Runtime) {before after : List Task} {task : Task} {op : AccountOp}
    {answer : Option Str} {db' : LoginDb} (htasks : r.tasks = before ++ task :: after)
    (hop : task.transaction? = some op) (hwrite : r.db.perform op = (.ok answer, db')) :
    Step r (.write task) { r with db := db', tasks := before ++ task.written answer :: after }
  /-- an error is returned, and a lock that is held is released -/
  | fail (r : Runtime) {before after : List Task} {task : Task}
    (htasks : r.tasks = before ++ task :: after) (h : task.mayFail = true) :
    Step r (.fail task)
      { r with locked := r.locked && !task.holdsLock, tasks := before ++ after }
  | lock (r : Runtime) {before after : List Task} {acct : Str}
    (htasks : r.tasks = before ++ .switch acct :: after) (hfree : r.locked = false)
    (hsession : acct ∈ r.sessions.sessions) :
    Step r (.lock acct)
      { r with locked := true, tasks := before ++ .switchLocked acct :: after }
  | switched (r : Runtime) {before after : List Task} {acct : Str}
    (htasks : r.tasks = before ++ .switched acct :: after) :
    Step r (.change (.switched acct))
      { r with
        sessions := (r.sessions.setActive acct).2
        locked := false
        tasks := before ++ after }
  | loggedIn (r : Runtime) {before after : List Task} {acct : Str}
    (htasks : r.tasks = before ++ .loggedIn acct :: after) (hfree : r.locked = false) :
    Step r (.change (.loggedIn acct))
      { r with
        sessions := ((r.sessions.addSession acct).setActive acct).2
        tasks := before ++ after }
  | loggedOut (r : Runtime) {before after : List Task} {acct : Str} {fallback : Option Str}
    (htasks : r.tasks = before ++ .loggedOut acct fallback :: after) (hfree : r.locked = false)
    (next : Option { name // name ∈ r.sessions.sessions.erase acct })
    (hnext : next = none → r.sessions.sessions.erase acct = ∅) :
    Step r (.change (.loggedOut acct fallback))
      { r with
        sessions := match fallback with
          | some name => ((r.sessions.removeSession acct next).setActive name).2
          | none => r.sessions.removeSession acct next
        tasks := before ++ after }

/-- Memory and database agree on the active account, and every session has a row. -/
def Agree (r : Runtime) : Prop :=
  r.db.activeAccounts = r.sessions.activeAcct.toList ∧
    ∀ acct ∈ r.sessions.sessions, r.db.knows acct = true

/-- No database write comes between the write of a login or logout and its change of the sessions,
a login does not fail there, and an account that takes over has a session. -/
def Undisturbed (r : Runtime) : Event → Prop
  | .write task => (∀ other ∈ r.tasks, other.isOpen = false) ∧
      ∀ acct, task = .logout acct → ∀ fallback ∈ r.db.fallback acct, fallback ∈ r.sessions.sessions
  | .fail task => task.isOpen = false
  | _ => True

/-! ### What holds between the steps -/

/-- What the transaction of an operation left, as long as no other one has written since. -/
def Informed (r : Runtime) : Task → Prop
  | .login _ | .logout _ | .switch _ => True
  | .switchLocked acct => acct ∈ r.sessions.sessions
  | .switched acct => acct ∈ r.sessions.sessions ∧
      ((∀ task ∈ r.tasks, task.isOpen = false) → r.db.activeAccounts = [acct])
  | .loggedIn acct => r.db.activeAccounts = [acct]
  | .loggedOut acct fallback => r.db.activeAccounts = fallback.toList ∧
      (∀ name ∈ fallback, name ∈ r.sessions.sessions ∧ name ≠ acct) ∧
      (fallback = none → ∀ name ∈ r.sessions.sessions, name = acct)

/-- The state between two steps: one operation at most holds the lock, and one login or logout at
most is open. -/
structure Consistent (r : Runtime) : Prop where
  holders : r.tasks.countP Task.holdsLock = r.locked.toNat
  windows : r.tasks.countP Task.isOpen ≤ 1
  informed : ∀ task ∈ r.tasks, Informed r task
  settled : (∀ task ∈ r.tasks, task.isOpen = false) → (∀ acct, .switched acct ∉ r.tasks) →
    r.db.activeAccounts = r.sessions.activeAcct.toList
  rows : ∀ acct ∈ r.sessions.sessions, r.db.knows acct = true ∨
    ∃ fallback, .loggedOut acct fallback ∈ r.tasks

theorem Consistent.agree {r : Runtime} (h : Consistent r) (htasks : r.tasks = []) : Agree r := by
  refine ⟨h.settled (by simp [htasks]) (by simp [htasks]), fun acct hacct => ?_⟩
  rcases h.rows acct hacct with hknows | ⟨fallback, hmem⟩
  · exact hknows
  · simp [htasks] at hmem

theorem Agree.consistent {r : Runtime} (h : Agree r) (htasks : r.tasks = [])
    (hlocked : r.locked = false) : Consistent r := by
  constructor <;> simp [htasks, hlocked, h.1]
  exact h.2

section Tasks

variable {tasks before after : List Task} {task other new : Task} {p : Task → Bool}

theorem mem_of_replaced (h : other ∈ before ++ new :: after) :
    other = new ∨ other ∈ before ++ after := by
  simp only [List.mem_append, List.mem_cons] at h ⊢
  tauto

theorem mem_of_removed (htasks : tasks = before ++ task :: after) (h : other ∈ before ++ after) :
    other ∈ tasks := by
  rw [htasks]
  simp only [List.mem_append, List.mem_cons] at h ⊢
  tauto

theorem mem_removed_of_ne (htasks : tasks = before ++ task :: after) (h : other ∈ tasks)
    (hne : other ≠ task) : other ∈ before ++ after := by
  rw [htasks] at h
  simp only [List.mem_append, List.mem_cons] at h ⊢
  tauto

theorem countP_replaced (htasks : tasks = before ++ task :: after) :
    (before ++ new :: after).countP p + (p task).toNat = tasks.countP p + (p new).toNat := by
  rw [htasks]
  simp only [List.countP_append, List.countP_cons]
  cases p task <;> cases p new <;> simp <;> omega

theorem countP_removed (htasks : tasks = before ++ task :: after) :
    (before ++ after).countP p + (p task).toNat = tasks.countP p := by
  rw [htasks]
  simp only [List.countP_append, List.countP_cons]
  cases p task <;> simp
  omega

/-- Where one task at most has a property, no other one has it. -/
theorem eq_false_of_removed (htasks : tasks = before ++ task :: after) (htask : p task = true)
    (hcount : tasks.countP p ≤ 1) (h : other ∈ before ++ after) : p other = false := by
  have hsum := countP_removed (p := p) htasks
  rw [htask] at hsum
  have hzero : (before ++ after).countP p = 0 := by
    rw [Bool.toNat_true] at hsum
    omega
  exact Bool.eq_false_iff.2 (List.countP_eq_zero.1 hzero other h)

end Tasks

/-! ### Steps -/

section Steps

variable {r r' : Runtime} {before after : List Task} {task new : Task} {acct : Str}

theorem Consistent.none_open (h : Consistent r) (htasks : r.tasks = before ++ task :: after)
    (htask : task.isOpen = true) : ∀ other ∈ before ++ after, other.isOpen = false :=
  fun _ => eq_false_of_removed htasks htask h.windows

/-- The only holder of the lock has the lock. -/
theorem Consistent.none_holds (h : Consistent r) (htasks : r.tasks = before ++ task :: after)
    (htask : task.holdsLock = true) : ∀ other ∈ before ++ after, other.holdsLock = false := by
  refine fun _ => eq_false_of_removed htasks htask ?_
  rw [h.holders]
  exact Bool.toNat_le r.locked

theorem Consistent.free (h : Consistent r) (hfree : r.locked = false) :
    ∀ task ∈ r.tasks, task.holdsLock = false := by
  have hzero := h.holders
  rw [hfree, Bool.toNat_false, List.countP_eq_zero] at hzero
  exact fun task htask => Bool.eq_false_iff.2 (hzero task htask)

theorem Consistent.begin (h : Consistent r) (hstarts : task.starts = true) :
    Consistent { r with tasks := r.tasks ++ [task] } := by
  have hnew : task.holdsLock = false ∧ task.isOpen = false := by
    cases task <;> simp_all [Task.starts, Task.holdsLock, Task.isOpen]
  have hopen : (∀ other ∈ r.tasks ++ [task], other.isOpen = false) →
      ∀ other ∈ r.tasks, other.isOpen = false :=
    fun hall other hother => hall other (List.mem_append_left _ hother)
  constructor
  case holders =>
    have hholders := h.holders
    simp [hnew.1, hholders]
  case windows =>
    have hwindows := h.windows
    simpa [hnew.2] using hwindows
  case informed =>
    intro other hother
    rcases List.mem_append.1 hother with hother | hother
    · have hinformed := h.informed other hother
      cases other with
      | switched acct => exact ⟨hinformed.1, fun hall => hinformed.2 (hopen hall)⟩
      | login _ | logout _ | switch _ | switchLocked _ | loggedIn _ | loggedOut _ _ =>
        exact hinformed
    · obtain rfl := List.mem_singleton.1 hother
      cases other <;> trivial
  case settled =>
    intro hall hnone
    exact h.settled (hopen hall) fun name hname => hnone name (List.mem_append_left _ hname)
  case rows =>
    intro name hname
    rcases h.rows name hname with hknows | ⟨fallback, hfallback⟩
    · exact .inl hknows
    · exact .inr ⟨fallback, List.mem_append_left _ hfallback⟩

/-- A transaction that commits while no login or logout is open. -/
theorem Consistent.write (h : Consistent r) {db' : LoginDb}
    (htasks : r.tasks = before ++ task :: after)
    (hnone : ∀ other ∈ r.tasks, other.isOpen = false)
    (hlock : new.holdsLock = task.holdsLock)
    (hinformed : Informed { r with db := db', tasks := before ++ new :: after } new)
    (hnew : new.isOpen = true ∨ ∃ acct, new = .switched acct)
    (hrows : ∀ acct ∈ r.sessions.sessions, db'.knows acct = true ∨
      ∃ fallback, new = .loggedOut acct fallback) :
    Consistent { r with db := db', tasks := before ++ new :: after } := by
  have hmem : new ∈ before ++ new :: after := by simp
  constructor
  case holders =>
    have hcount : (before ++ new :: after).countP Task.holdsLock + task.holdsLock.toNat =
        r.tasks.countP Task.holdsLock + new.holdsLock.toNat := countP_replaced htasks
    rw [hlock] at hcount
    show (before ++ new :: after).countP Task.holdsLock = r.locked.toNat
    rw [← h.holders]
    omega
  case windows =>
    have hcount : (before ++ new :: after).countP Task.isOpen + task.isOpen.toNat =
        r.tasks.countP Task.isOpen + new.isOpen.toNat := countP_replaced htasks
    have hzero : r.tasks.countP Task.isOpen = 0 :=
      List.countP_eq_zero.2 fun t ht => by simp [hnone t ht]
    have hle := Bool.toNat_le (Task.isOpen new)
    show (before ++ new :: after).countP Task.isOpen ≤ 1
    omega
  case informed =>
    intro other hother
    rcases mem_of_replaced hother with rfl | hold
    · exact hinformed
    have hbefore := h.informed other (mem_of_removed htasks hold)
    have hclosed := hnone other (mem_of_removed htasks hold)
    cases other with
    | login _ | logout _ | switch _ | switchLocked _ => exact hbefore
    | loggedIn _ | loggedOut _ _ => cases hclosed
    | switched acct =>
      refine ⟨hbefore.1, fun hall => ?_⟩
      rcases hnew with hopen | ⟨acct', rfl⟩
      · rw [hall new hmem] at hopen
        cases hopen
      · have hfree := h.none_holds htasks hlock.symm _ hold
        cases hfree
  case settled =>
    intro hall hswitched
    rcases hnew with hopen | ⟨acct, rfl⟩
    · rw [hall new hmem] at hopen
      cases hopen
    · exact absurd hmem (hswitched acct)
  case rows =>
    intro name hname
    rcases hrows name hname with hknows | ⟨fallback, rfl⟩
    · exact .inl hknows
    · exact .inr ⟨fallback, hmem⟩

/-- A write of an operation, whichever it is. -/
theorem Consistent.step_write (h : Consistent r) {op : AccountOp} {answer : Option Str}
    {db' : LoginDb} (htasks : r.tasks = before ++ task :: after) (hop : task.transaction? = some op)
    (hwrite : r.db.perform op = (.ok answer, db')) (hundisturbed : Undisturbed r (.write task)) :
    Consistent { r with db := db', tasks := before ++ task.written answer :: after } := by
  obtain ⟨hnone, hfallback⟩ := hundisturbed
  have hold : ∀ name ∈ r.sessions.sessions, r.db.knows name = true := by
    intro name hname
    rcases h.rows name hname with hknows | ⟨fallback, hmem⟩
    · exact hknows
    · cases hnone _ hmem
  cases task with
  | switch _ | loggedIn _ | loggedOut _ _ | switched _ => cases hop
  | login account =>
    cases hop
    obtain ⟨-, hactive, hknows⟩ := of_perform_login hwrite
    exact h.write htasks hnone rfl hactive (.inl rfl)
      fun name hname => .inl ((hknows name).2 (.inl (hold name hname)))
  | switchLocked acct =>
    cases hop
    obtain ⟨hactive, hknows⟩ := of_perform_setActive hwrite
    have hsession := h.informed (.switchLocked acct) (by simp [htasks])
    exact h.write htasks hnone rfl ⟨hsession, fun _ => hactive⟩ (.inr ⟨acct, rfl⟩)
      fun name hname => .inl ((hknows name).trans (hold name hname))
  | logout acct =>
    cases hop
    obtain ⟨rfl, hactive, hknows⟩ := of_perform_remove hwrite
    refine h.write htasks hnone rfl ⟨hactive, ?_, ?_⟩ (.inl rfl) ?_
    · exact fun name hname => ⟨hfallback acct rfl name hname, (LoginDb.of_fallback hname).1⟩
    · intro hlast name hname
      obtain ⟨row, hrow, rfl⟩ := LoginDb.knows_iff.1 (hold name hname)
      exact LoginDb.of_fallback_none hlast row hrow
    · intro name hname
      by_cases heq : name = acct
      · subst heq
        exact .inr ⟨_, rfl⟩
      · exact .inl ((hknows name).2 ⟨hold name hname, heq⟩)

theorem Consistent.step_fail (h : Consistent r) (htasks : r.tasks = before ++ task :: after)
    (hfail : task.mayFail = true) (hclosed : task.isOpen = false) :
    Consistent { r with locked := r.locked && !task.holdsLock, tasks := before ++ after } := by
  have hopen : (∀ other ∈ before ++ after, other.isOpen = false) →
      ∀ other ∈ r.tasks, other.isOpen = false := by
    intro hall other hother
    by_cases heq : other = task
    · rw [heq, hclosed]
    · exact hall other (mem_removed_of_ne htasks hother heq)
  constructor
  case holders =>
    have hcount := countP_removed (p := Task.holdsLock) htasks
    show (before ++ after).countP Task.holdsLock = (r.locked && !task.holdsLock).toNat
    rw [h.holders] at hcount
    cases hholds : task.holdsLock with
    | false => simpa [hholds] using hcount
    | true =>
      have hle := Bool.toNat_le r.locked
      rw [hholds, Bool.toNat_true] at hcount
      simp only [Bool.not_true, Bool.and_false, Bool.toNat_false]
      omega
  case windows =>
    have hcount := countP_removed (p := Task.isOpen) htasks
    have hle := h.windows
    show (before ++ after).countP Task.isOpen ≤ 1
    omega
  case informed =>
    intro other hother
    have hinformed := h.informed other (mem_of_removed htasks hother)
    cases other with
    | switched acct => exact ⟨hinformed.1, fun hall => hinformed.2 (hopen hall)⟩
    | login _ | logout _ | switch _ | switchLocked _ | loggedIn _ | loggedOut _ _ => exact hinformed
  case settled =>
    intro hall hnone
    refine h.settled (hopen hall) fun name hname => hnone name ?_
    refine mem_removed_of_ne htasks hname ?_
    rintro rfl
    cases hfail
  case rows =>
    intro name hname
    rcases h.rows name hname with hknows | ⟨fallback, hmem⟩
    · exact .inl hknows
    · refine .inr ⟨fallback, mem_removed_of_ne htasks hmem ?_⟩
      rintro rfl
      cases hclosed

theorem Consistent.step_lock (h : Consistent r) (htasks : r.tasks = before ++ .switch acct :: after)
    (hfree : r.locked = false) (hsession : acct ∈ r.sessions.sessions) :
    Consistent { r with locked := true, tasks := before ++ .switchLocked acct :: after } := by
  have hnone := h.free hfree
  have hkept : ∀ other ∈ r.tasks, other ≠ .switch acct →
      other ∈ before ++ .switchLocked acct :: after := by
    intro other hother hne
    have hmem := mem_removed_of_ne htasks hother hne
    simp only [List.mem_append, List.mem_cons] at hmem ⊢
    tauto
  have hopen : (∀ other ∈ before ++ .switchLocked acct :: after, other.isOpen = false) →
      ∀ other ∈ r.tasks, other.isOpen = false := by
    intro hall other hother
    by_cases heq : other = .switch acct
    · rw [heq]
      rfl
    · exact hall other (hkept other hother heq)
  constructor
  case holders =>
    have hcount : (before ++ .switchLocked acct :: after).countP Task.holdsLock + 0 =
        r.tasks.countP Task.holdsLock + 1 := countP_replaced htasks
    rw [h.holders, hfree] at hcount
    exact hcount
  case windows =>
    have hcount : (before ++ .switchLocked acct :: after).countP Task.isOpen + 0 =
        r.tasks.countP Task.isOpen + 0 := countP_replaced htasks
    exact hcount.trans_le h.windows
  case informed =>
    intro other hother
    rcases mem_of_replaced hother with rfl | hother
    · exact hsession
    have hinformed := h.informed other (mem_of_removed htasks hother)
    cases other with
    | switched acct => cases hnone _ (mem_of_removed htasks hother)
    | login _ | logout _ | switch _ | switchLocked _ | loggedIn _ | loggedOut _ _ => exact hinformed
  case settled =>
    intro hall hswitched
    exact h.settled (hopen hall) fun name hname => hswitched name (hkept _ hname nofun)
  case rows =>
    intro name hname
    rcases h.rows name hname with hknows | ⟨fallback, hmem⟩
    · exact .inl hknows
    · exact .inr ⟨fallback, hkept _ hmem nofun⟩

/-- A switch makes the account active that it has written, before any other change. -/
theorem Consistent.step_switched (h : Consistent r)
    (htasks : r.tasks = before ++ .switched acct :: after) :
    Consistent { r with
      sessions := (r.sessions.setActive acct).2
      locked := false
      tasks := before ++ after } := by
  have hmem : .switched acct ∈ r.tasks := by simp [htasks]
  obtain ⟨hsession, hwritten⟩ := h.informed _ hmem
  obtain ⟨hactive, hsessions⟩ := SessionManager.setActive_of_mem hsession
  have hnone := h.none_holds htasks rfl
  constructor
  case holders => exact List.countP_eq_zero.2 fun other hother => by simp [hnone other hother]
  case windows =>
    have hcount := countP_removed (p := Task.isOpen) htasks
    exact hcount.trans_le h.windows
  case informed =>
    intro other hother
    have hinformed := h.informed other (mem_of_removed htasks hother)
    cases other with
    | switched name => cases hnone _ hother
    | login _ | logout _ | switch _ | loggedIn _ => exact hinformed
    | switchLocked _ | loggedOut _ _ =>
      simp only [Informed, hsessions]
      exact hinformed
  case settled =>
    intro hall _
    rw [hactive]
    refine hwritten fun other hother => ?_
    by_cases heq : other = .switched acct
    · rw [heq]
      rfl
    · exact hall other (mem_removed_of_ne htasks hother heq)
  case rows =>
    intro name hname
    rw [hsessions] at hname
    rcases h.rows name hname with hknows | ⟨fallback, hmem⟩
    · exact .inl hknows
    · exact .inr ⟨fallback, mem_removed_of_ne htasks hmem nofun⟩

/-- A login or logout that makes the change it has written leaves nothing open. -/
theorem Consistent.change (h : Consistent r) (htasks : r.tasks = before ++ task :: after)
    (htask : task.isOpen = true) (hfree : r.locked = false) {sessions : SessionManager}
    (hactive : r.db.activeAccounts = sessions.activeAcct.toList)
    (hrows : ∀ name ∈ sessions.sessions, r.db.knows name = true) :
    Consistent { r with sessions, tasks := before ++ after } := by
  have hclosed := h.none_open htasks htask
  have hnone : ∀ other ∈ before ++ after, other.holdsLock = false :=
    fun other hother => h.free hfree other (mem_of_removed htasks hother)
  constructor
  case holders =>
    show (before ++ after).countP Task.holdsLock = r.locked.toNat
    rw [hfree]
    exact List.countP_eq_zero.2 fun other hother => by simp [hnone other hother]
  case windows =>
    have hcount := countP_removed (p := Task.isOpen) htasks
    have hle := h.windows
    show (before ++ after).countP Task.isOpen ≤ 1
    omega
  case informed =>
    intro other hother
    cases other with
    | login _ | logout _ | switch _ => trivial
    | switchLocked _ | switched _ => cases hnone _ hother
    | loggedIn _ | loggedOut _ _ => cases hclosed _ hother
  case settled => exact fun _ _ => hactive
  case rows => exact fun name hname => .inl (hrows name hname)

theorem Consistent.step_loggedIn (h : Consistent r)
    (htasks : r.tasks = before ++ .loggedIn acct :: after) (hfree : r.locked = false) :
    Consistent { r with
      sessions := ((r.sessions.addSession acct).setActive acct).2
      tasks := before ++ after } := by
  have hwritten : r.db.activeAccounts = [acct] := h.informed (.loggedIn acct) (by simp [htasks])
  have hadded : acct ∈ (r.sessions.addSession acct).sessions := Finset.mem_insert_self _ _
  obtain ⟨hactive, hsessions⟩ := SessionManager.setActive_of_mem hadded
  refine h.change htasks rfl hfree (by rw [hactive, hwritten]; rfl) fun name hname => ?_
  rw [hsessions] at hname
  rcases Finset.mem_insert.1 hname with rfl | hname
  · have hmem : name ∈ r.db.activeAccounts := by simp [hwritten]
    obtain ⟨row, hrow, -, hacct⟩ := LoginDb.mem_activeAccounts.1 hmem
    exact LoginDb.knows_iff.2 ⟨row, hrow, hacct⟩
  · rcases h.rows name hname with hknows | ⟨fallback, hmem⟩
    · exact hknows
    · cases h.none_open htasks rfl _ (mem_removed_of_ne htasks hmem nofun)

theorem Consistent.step_loggedOut (h : Consistent r) {fallback : Option Str}
    (htasks : r.tasks = before ++ .loggedOut acct fallback :: after) (hfree : r.locked = false)
    (next : Option { name // name ∈ r.sessions.sessions.erase acct }) :
    Consistent { r with
      sessions := match fallback with
        | some name => ((r.sessions.removeSession acct next).setActive name).2
        | none => r.sessions.removeSession acct next
      tasks := before ++ after } := by
  obtain ⟨hwritten, hother, hlast⟩ : Informed r (.loggedOut acct fallback) :=
    h.informed _ (by simp [htasks])
  have hknown : ∀ name ∈ r.sessions.sessions.erase acct, r.db.knows name = true := by
    intro name hname
    obtain ⟨hne, hname⟩ := Finset.mem_erase.1 hname
    rcases h.rows name hname with hknows | ⟨fallback', hmem⟩
    · exact hknows
    · have hremoved := mem_removed_of_ne htasks hmem fun heq => by
        cases heq
        exact hne rfl
      cases h.none_open htasks rfl _ hremoved
  cases fallback with
  | some name =>
    obtain ⟨hsession, hne⟩ := hother name rfl
    have hkept : name ∈ (r.sessions.removeSession acct next).sessions :=
      Finset.mem_erase.2 ⟨hne, hsession⟩
    obtain ⟨hactive, hsessions⟩ := SessionManager.setActive_of_mem hkept
    refine h.change htasks rfl hfree (by rw [hactive, hwritten]) fun name hname => ?_
    rw [hsessions] at hname
    exact hknown name hname
  | none =>
    refine h.change htasks rfl hfree ?_ hknown
    have hempty : r.sessions.sessions.erase acct = ∅ := by
      refine Finset.eq_empty_iff_forall_notMem.2 fun name hname => ?_
      obtain ⟨hne, hname⟩ := Finset.mem_erase.1 hname
      exact hne (hlast rfl name hname)
    have hnone : (r.sessions.removeSession acct next).activeAcct = none := by
      refine Option.eq_none_iff_forall_not_mem.2 fun name hname => ?_
      have hmem : name ∈ r.sessions.sessions.erase acct :=
        (r.sessions.removeSession acct next).active_mem name hname
      rw [hempty] at hmem
      simp at hmem
    rw [hnone, hwritten]

/-- One step that is not disturbed keeps the state consistent. -/
theorem Consistent.step (h : Consistent r) {event : Event} (hstep : Step r event r')
    (hundisturbed : Undisturbed r event) : Consistent r' := by
  cases hstep with
  | begin task hstarts => exact h.begin hstarts
  | write htasks hop hwrite => exact h.step_write htasks hop hwrite hundisturbed
  | fail htasks hfail => exact h.step_fail htasks hfail hundisturbed
  | lock htasks hfree hsession => exact h.step_lock htasks hfree hsession
  | switched htasks => exact h.step_switched htasks
  | loggedIn htasks hfree => exact h.step_loggedIn htasks hfree
  | loggedOut htasks hfree next _ => exact h.step_loggedOut htasks hfree next

end Steps

/-- The steps of the operations that are not disturbed. -/
def UndisturbedStep (r : Runtime) (event : Event) (r' : Runtime) : Prop :=
  Undisturbed r event ∧ Step r event r'

/-- The runtime before any login. -/
def emptyRuntime : Runtime := ⟨emptyDb, ⟨∅, none, nofun⟩, false, []⟩

theorem agree_emptyRuntime : Agree emptyRuntime := ⟨by decide +kernel, by simp [emptyRuntime]⟩

end Awayuki.Accounts
