import Awayuki.Kq.Paging
import Awayuki.Library.Descending
import Awayuki.Yq.Evaluation
import Awayuki.Yq.Prefilter

/-!
# YQ: paging

`services/yq_timeline.rs`: `query_statuses` reads the rows that the SQL condition of a query
accepts in pages, each after the last row of the one before, and evaluates the query on them.

* `Snapshot`, `accountCache`, `readPage`: what is read of the database;
* `scanRows`, `scanPages`, `queryStatuses`: one page, the loop and the query;
* `outcome`: what is still to come of a scan, which no step changes;
* `evaluated_rows_of_query`: a query returns what the evaluator accepts between its positions.

A row is known as in KQ, and so are the cursors.
-/

namespace Awayuki.Yq

open Kq (TimelineCursor QueryRequest isBetween)

variable {s : StatusRow} {cursor : Option TimelineCursor}

def FILTER_PAGE_SIZE : ℕ := 250

/-- The rows of a database that nobody writes to. -/
structure Snapshot where
  statuses : List StatusRow
  accounts : List DbAccount
  statuses_nodup : (statuses.map fun s => orderKey s.toDbStatus).Nodup
  accounts_nodup : (accounts.map DbAccount.key).Nodup

/-- Where the time of a query may be up, or the query be cancelled. -/
inductive Checkpoint
  | start
  | page
  | rows
  | accounts
  | status
  | deadline

/-- The variables of the loop. -/
structure QueryScan where
  cursor : Option TimelineCursor
  matchedBeforePage : ℕ
  results : List StatusRow
  scannedCount : ℕ
  evaluationCache : EvaluationCache
  stoppedAtSince : Bool

/-- What a scan is asked for. -/
structure ScanTask where
  requestedLimit : ℕ
  matchesToSkip : ℕ
  maxScannedRows : ℕ
  stopKey : Option EntityKey
  /-- Is the query stopped at a checkpoint, after so many rows? -/
  interrupted : Checkpoint → ℕ → Bool

section

variable (snapshot : Snapshot)

/-- `resolve_cursor` -/
def resolveCursor (status : Option EntityKey) : Option TimelineCursor :=
  status.bind fun key =>
    (snapshot.statuses.find? fun s => s.key = key).map fun s => .of s.toDbStatus

/-- The rows of a page. -/
def readPage (query : Expression) (stopCursor cursor : Option TimelineCursor) (pageLimit : ℕ) :
    List StatusRow :=
  (Descending.descending (fun s : StatusRow => orderKey s.toDbStatus)
    (snapshot.statuses.filter fun s =>
      ((buildSqlPrefilter query).all fun predicate => Accepts snapshot.accounts s predicate) &&
        isBetween stopCursor cursor s.toDbStatus)).take pageLimit

/-- The accounts of the rows of a page above that of the stop key. -/
def accountCache (stopKey : Option EntityKey) (rows : List StatusRow) (key : EntityKey) :
    Option DbAccount :=
  let keys := (rows.takeWhile fun s => stopKey ≠ some s.key).map (·.authorKey)
  Keyed.lookup DbAccount.key (snapshot.accounts.filter (·.key ∈ keys)) key

/-- The rows strictly between the positions of a request, the newest first. -/
def between (request : QueryRequest) : List StatusRow :=
  (Descending.descending (fun s : StatusRow => orderKey s.toDbStatus) snapshot.statuses).filter
    fun s => isBetween (resolveCursor snapshot request.stopAt)
      (resolveCursor snapshot request.startAfter) s.toDbStatus

variable [SerdeJson] (yq : YqCrate) (newRegex : Str → Option Kq.Regex) (query : Expression)

/-- The rows of one page; `none` is an error. -/
def scanRows (task : ScanTask) (account : EntityKey → Option DbAccount) :
    List StatusRow → QueryScan → Option QueryScan
  | [], scan => some scan
  | status :: rows, scan =>
    if scan.scannedCount % 64 = 0 ∧ task.interrupted .status scan.scannedCount then none
    else if task.stopKey = some status.key then some { scan with stoppedAtSince := true }
    else
      let scan := { scan with scannedCount := scan.scannedCount + 1 }
      if scan.scannedCount % 64 = 0 ∧ task.interrupted .deadline scan.scannedCount then none
      else
        let (matched, evaluationCache) :=
          yq.matchesWith newRegex scan.evaluationCache query status (account status.authorKey)
        let scan := { scan with evaluationCache }
        if matched = false then scanRows task account rows scan
        else if scan.matchedBeforePage < task.matchesToSkip then
          scanRows task account rows
            { scan with matchedBeforePage := scan.matchedBeforePage + 1 }
        else
          let scan := { scan with results := scan.results ++ [status] }
          if task.requestedLimit ≤ scan.results.length then some scan
          else scanRows task account rows scan

/-- The loop, with the rounds that it has left; `none` is an error. -/
def scanPages (task : ScanTask) (stopCursor : Option TimelineCursor) :
    ℕ → QueryScan → Option QueryScan
  | 0, _ => none
  | rounds + 1, scan =>
    if scan.results.length < task.requestedLimit then
      if task.interrupted .page scan.scannedCount then none
      else if task.maxScannedRows ≤ scan.scannedCount then none
      else
        let pageLimit := min (task.maxScannedRows - scan.scannedCount) FILTER_PAGE_SIZE
        let rows := readPage snapshot query stopCursor scan.cursor pageLimit
        if task.interrupted .rows scan.scannedCount then none
        else
          match rows.getLast? with
          | none => some scan
          | some last =>
            let reachedEnd := decide (rows.length < pageLimit)
            let scan := { scan with cursor := some (.of last.toDbStatus) }
            if task.interrupted .accounts scan.scannedCount then none
            else
              match scanRows yq newRegex query task (accountCache snapshot task.stopKey rows)
                rows scan with
              | none => none
              | some scan =>
                if reachedEnd || scan.stoppedAtSince then some scan
                else scanPages task stopCursor rounds scan
    else some scan

/-- `query_statuses` with a budget of rows; `none` is an error. -/
def queryStatuses (maxScannedRows : ℕ) (interrupted : Checkpoint → ℕ → Bool)
    (request : QueryRequest) : Option (List StatusRow) :=
  if interrupted .start 0 then none
  else if request.limit.toNat = 0 then some []
  else
    let stopCursor := resolveCursor snapshot request.stopAt
    let cursor := resolveCursor snapshot request.startAfter
    let task : ScanTask :=
      { requestedLimit := request.limit.toNat
        matchesToSkip := if cursor.isSome then 0 else request.offset.toNat
        maxScannedRows
        stopKey := if stopCursor.isSome then none else request.stopAt
        interrupted }
    (scanPages snapshot yq newRegex query task stopCursor (maxScannedRows + 1)
      ⟨cursor, 0, [], 0, [], false⟩).map (·.results)

/-! ### What it returns -/

/-- Those of them that a new evaluation of the query accepts. -/
def matchingRows (request : QueryRequest) : List StatusRow :=
  (between snapshot request).filter fun s =>
    yq.freshMatches newRegex query s (Keyed.lookup DbAccount.key snapshot.accounts s.authorKey)

/-- The page of a request; after a start position nothing is skipped. -/
def requestedPage (request : QueryRequest) : List StatusRow :=
  ((matchingRows snapshot yq newRegex query request).drop
    (if (resolveCursor snapshot request.startAfter).isSome then 0
    else request.offset.toNat)).take request.limit.toNat

end

/-! ### What is read -/

variable {snapshot : Snapshot} {query : Expression} {stopCursor : Option TimelineCursor}
  {request : QueryRequest}

/-- What the SQL condition and the stop cursor leave. -/
def accepted (snapshot : Snapshot) (query : Expression) (stopCursor : Option TimelineCursor)
    (s : StatusRow) : Bool :=
  ((buildSqlPrefilter query).all fun predicate => Accepts snapshot.accounts s predicate) &&
    stopCursor.all (·.isBelow s.toDbStatus)

/-- The rows that are left after a cursor. -/
def left (snapshot : Snapshot) (query : Expression) (stopCursor cursor : Option TimelineCursor) :
    List StatusRow :=
  (Descending.descending (fun s : StatusRow => orderKey s.toDbStatus) snapshot.statuses).filter
    fun s => accepted snapshot query stopCursor s &&
      (cursor.map TimelineCursor.orderKey).all fun limit => orderKey s.toDbStatus < limit

theorem all_isAbove : cursor.all (·.isAbove s.toDbStatus) =
      (cursor.map TimelineCursor.orderKey).all fun limit => orderKey s.toDbStatus < limit := by
  cases cursor with
  | none => rfl
  | some cursor =>
    rw [Option.map_some, Option.all_some, Option.all_some, Bool.eq_iff_iff, decide_eq_true_eq]
    exact TimelineCursor.isAbove_iff

theorem readPage_eq (cursor : Option TimelineCursor) (n : ℕ) :
    readPage snapshot query stopCursor cursor n =
      (left snapshot query stopCursor cursor).take n := by
  unfold readPage left
  rw [Descending.descending_filter snapshot.statuses_nodup]
  refine congrArg (List.take n) (List.filter_congr fun s _ => ?_)
  rw [isBetween, accepted, ← all_isAbove, Bool.and_assoc]

theorem advances_left : Cursor.Advances
    (fun s : StatusRow => some (TimelineCursor.of s.toDbStatus))
    (left snapshot query stopCursor) :=
  @Descending.advances_below _ _ _ (fun s : StatusRow => orderKey s.toDbStatus) _ _
    (fun s => some (TimelineCursor.of s.toDbStatus)) (fun c => c.map TimelineCursor.orderKey)
    (fun _ => rfl) (accepted snapshot query stopCursor)
    (Descending.pairwise_descending snapshot.statuses_nodup)

theorem mem_statuses_of_mem_left (h : s ∈ left snapshot query stopCursor cursor) :
    s ∈ snapshot.statuses :=
  Descending.mem_descending.1 (List.mem_of_mem_filter h)

/-- The accounts of a page are those of its rows. -/
theorem accountCache_eq {stopKey : Option EntityKey} {rows : List StatusRow}
    (hstop : ∀ s ∈ rows, stopKey ≠ some s.key) (hs : s ∈ rows) :
    accountCache snapshot stopKey rows s.authorKey =
      Keyed.lookup DbAccount.key snapshot.accounts s.authorKey := by
  unfold accountCache Keyed.lookup
  have hall : (rows.takeWhile fun s => stopKey ≠ some s.key) = rows :=
    List.takeWhile_eq_self_iff.2 fun s hs => decide_eq_true (hstop s hs)
  have hmem : s.authorKey ∈ rows.map (·.authorKey) := List.mem_map_of_mem hs
  dsimp only
  rw [hall, List.find?_filter]
  refine congrArg (List.find? · snapshot.accounts) (funext fun a => ?_)
  rw [Bool.eq_iff_iff]
  simp only [decide_eq_true_eq]
  exact ⟨And.right, fun heq => ⟨heq ▸ hmem, heq⟩⟩

/-- No row has a stop key that is looked for. -/
theorem ne_stopKey (hs : s ∈ snapshot.statuses) :
    (if (resolveCursor snapshot request.stopAt).isSome then none else request.stopAt) ≠
      some s.key := by
  intro hkey
  split_ifs at hkey with hnone
  refine hnone ?_
  rw [resolveCursor, hkey, Option.bind_some, Option.isSome_map, List.find?_isSome]
  exact ⟨s, hs, decide_eq_true rfl⟩

/-! ### What is still to come -/

section Scan

variable {newRegex : Str → Option Kq.Regex} {task : ScanTask} {scan scan' : QueryScan}
  {rows later : List StatusRow} {accepts : StatusRow → Bool}

/-- What the scan returns in the end, when these rows are left. -/
def outcome (task : ScanTask) (accepts : StatusRow → Bool) (scan : QueryScan)
    (left : List StatusRow) : List StatusRow :=
  (scan.results ++ (left.filter accepts).drop (task.matchesToSkip - scan.matchedBeforePage)).take
    task.requestedLimit

theorem outcome_of_length (h : scan.results.length = task.requestedLimit) :
    outcome task accepts scan later = scan.results := by
  unfold outcome
  exact List.take_left' h

theorem outcome_nil (h : scan.results.length ≤ task.requestedLimit) :
    outcome task accepts scan [] = scan.results := by
  unfold outcome
  rw [List.filter_nil, List.drop_nil, List.append_nil, List.take_of_length_le h]

/-- A scan on its way: it has room for more, its cache is right, and it has not been stopped. -/
structure OnTheWay (newRegex : Str → Option Kq.Regex) (task : ScanTask) (scan : QueryScan) :
    Prop where
  results : scan.results.length ≤ task.requestedLimit
  faithful : Asked.Faithful newRegex scan.evaluationCache
  notStopped : scan.stoppedAtSince = false

variable [SerdeJson] {yq : YqCrate} {account : EntityKey → Option DbAccount}

/-- The rows of a page do not change what comes in the end. -/
theorem scanRows_outcome
    (haccepts : ∀ s ∈ rows, yq.freshMatches newRegex query s (account s.authorKey) = accepts s)
    (hstop : ∀ s ∈ rows, task.stopKey ≠ some s.key) (hscan : OnTheWay newRegex task scan)
    (hroom : scan.results.length < task.requestedLimit)
    (h : scanRows yq newRegex query task account rows scan = some scan') :
    outcome task accepts scan' later = outcome task accepts scan (rows ++ later) ∧
      OnTheWay newRegex task scan' ∧ scan'.cursor = scan.cursor ∧
      (rows ≠ [] → scan.scannedCount < scan'.scannedCount) := by
  induction rows generalizing scan with
  | nil =>
    cases h
    exact ⟨rfl, hscan, rfl, fun hne => absurd rfl hne⟩
  | cons status rows ih =>
    obtain ⟨hrow, hrest⟩ := List.forall_mem_cons.1 haccepts
    obtain ⟨hnot, hstop⟩ := List.forall_mem_cons.1 hstop
    obtain ⟨hmatched, hcache⟩ := yq.matchesWith_eq newRegex hscan.faithful query status
      (account status.authorKey)
    rw [hrow] at hmatched
    unfold scanRows at h
    split at h
    · cases h
    dsimp only at h
    split at h
    · cases h
    generalize hnext : yq.matchesWith newRegex scan.evaluationCache query status
      (account status.authorKey) = next at h hmatched hcache
    obtain ⟨matched, cache⟩ := next
    dsimp only at h hmatched hcache
    -- the rest of the page, when the row leaves what comes in the end as it is
    have hgo : ∀ next : QueryScan,
        scanRows yq newRegex query task account rows next = some scan' →
        next.results.length < task.requestedLimit → next.cursor = scan.cursor →
        next.scannedCount = scan.scannedCount + 1 → next.evaluationCache = cache →
        next.stoppedAtSince = scan.stoppedAtSince →
        outcome task accepts next (rows ++ later) =
          outcome task accepts scan (status :: rows ++ later) →
        outcome task accepts scan' later = outcome task accepts scan (status :: rows ++ later) ∧
          OnTheWay newRegex task scan' ∧ scan'.cursor = scan.cursor ∧
          (status :: rows ≠ [] → scan.scannedCount < scan'.scannedCount) := by
      intro next hrun hroom' hcursor hcount hkept hstopped heq
      have hway : OnTheWay newRegex task next :=
        ⟨hroom'.le, hkept ▸ hcache, hstopped.trans hscan.notStopped⟩
      obtain ⟨houtcome, hway', hcursor', hmore⟩ := ih hrest hstop hway hroom' hrun
      refine ⟨houtcome.trans heq, hway', hcursor'.trans hcursor, fun _ => ?_⟩
      by_cases hnil : rows = []
      · subst hnil
        cases hrun
        omega
      · have hlt := hmore hnil
        omega
    by_cases hmatches : accepts status = true
    · rw [hmatched, hmatches, if_neg (by decide)] at h
      split at h
      · -- a match that is skipped
        next hskip =>
        refine hgo _ h hroom rfl rfl rfl rfl ?_
        have hsucc : task.matchesToSkip - scan.matchedBeforePage =
            task.matchesToSkip - (scan.matchedBeforePage + 1) + 1 := by omega
        simp only [outcome, List.cons_append, List.filter_cons_of_pos hmatches, hsucc,
          List.drop_succ_cons]
      next hskip =>
      have hzero : task.matchesToSkip - scan.matchedBeforePage = 0 := by omega
      have hpush : outcome task accepts { scan with results := scan.results ++ [status] }
          (rows ++ later) = outcome task accepts scan (status :: rows ++ later) := by
        simp only [outcome, List.cons_append, List.filter_cons_of_pos hmatches, hzero,
          List.drop_zero, List.append_assoc, List.nil_append]
      have hlength : (scan.results ++ [status]).length = scan.results.length + 1 := by
        rw [List.length_append, List.length_singleton]
      split at h
      · next henough =>
        cases h
        have hfull : (scan.results ++ [status]).length = task.requestedLimit := by
          rw [hlength] at henough ⊢
          omega
        refine ⟨?_, ⟨hfull.le, hcache, hscan.notStopped⟩, rfl, fun _ => Nat.lt_succ_self _⟩
        rw [← hpush]
        exact (outcome_of_length hfull).trans (outcome_of_length hfull).symm
      · next henough => exact hgo _ h (not_le.1 henough) rfl rfl rfl rfl hpush
    · rw [Bool.not_eq_true] at hmatches
      rw [hmatched, hmatches, if_pos rfl] at h
      refine hgo _ h hroom rfl rfl rfl rfl ?_
      simp [outcome, hmatches]

/-! ### The loop -/

variable {rounds : ℕ}

/-- The loop returns what was to come. -/
theorem scanPages_outcome
    (haccepts : ∀ s ∈ snapshot.statuses, yq.freshMatches newRegex query s
      (Keyed.lookup DbAccount.key snapshot.accounts s.authorKey) = accepts s)
    (hstop : ∀ s ∈ snapshot.statuses, task.stopKey ≠ some s.key)
    (hscan : OnTheWay newRegex task scan)
    (h : scanPages snapshot yq newRegex query task stopCursor rounds scan = some scan') :
    scan'.results = outcome task accepts scan (left snapshot query stopCursor scan.cursor) := by
  induction rounds generalizing scan with
  | zero => cases h
  | succ rounds ih =>
    unfold scanPages at h
    split at h
    case isFalse henough =>
      cases h
      have hresults := hscan.results
      exact (outcome_of_length (by omega)).symm
    case isTrue hroom =>
    split at h
    · cases h
    split at h
    · cases h
    next hbudget =>
    dsimp only at h
    rw [readPage_eq] at h
    have hpositive : 0 < FILTER_PAGE_SIZE := by decide
    generalize hn : min (task.maxScannedRows - scan.scannedCount) FILTER_PAGE_SIZE = n at h
    split at h
    · cases h
    have hmem : ∀ s ∈ (left snapshot query stopCursor scan.cursor).take n,
        s ∈ snapshot.statuses := fun s hs => mem_statuses_of_mem_left (List.mem_of_mem_take hs)
    cases hlast : ((left snapshot query stopCursor scan.cursor).take n).getLast? with
    | none =>
      rw [hlast] at h
      cases h
      rw [List.getLast?_eq_none_iff, List.take_eq_nil_iff] at hlast
      rw [hlast.resolve_left (by omega), outcome_nil hscan.results]
    | some last =>
      rw [hlast] at h
      dsimp only at h
      split at h
      · cases h
      split at h
      · cases h
      next next hnext =>
      have hpage : ∀ s ∈ (left snapshot query stopCursor scan.cursor).take n,
          yq.freshMatches newRegex query s (accountCache snapshot task.stopKey
            ((left snapshot query stopCursor scan.cursor).take n) s.authorKey) = accepts s := by
        intro s hs
        rw [accountCache_eq (fun s hs => hstop s (hmem s hs)) hs]
        exact haccepts s (hmem s hs)
      have hread : OnTheWay newRegex task
          { scan with cursor := some (.of last.toDbStatus) } :=
        ⟨hscan.results, hscan.faithful, hscan.notStopped⟩
      obtain ⟨houtcome, hway, hcursor, -⟩ := @scanRows_outcome _ _ _ _ _ _
        ((left snapshot query stopCursor scan.cursor).drop n) _ _ _ _ hpage
        (fun s hs => hstop s (hmem s hs)) hread hroom hnext
      rw [List.take_append_drop] at houtcome
      split at h
      · -- a page that is not full is the last
        next hend =>
        cases h
        rw [hway.notStopped, Bool.or_false, decide_eq_true_eq, List.length_take] at hend
        rw [List.drop_eq_nil_of_le (by omega), outcome_nil hway.results] at houtcome
        exact houtcome
      · rw [ih hway h, hcursor, advances_left.left_next hlast]
        exact houtcome

end Scan

/-! ### Queries -/

/-- A query that returns, returns exactly what the evaluator accepts with a new cache, whatever
its budget and wherever its pages end. -/
theorem evaluated_rows_of_query [SerdeJson] (snapshot : Snapshot)
    (hnul : ∀ s ∈ snapshot.statuses, '\x00' ∉ s.content) (yq : YqCrate)
    (newRegex : Str → Option Kq.Regex) (semantics : YqSemantics (yq.freshEvaluate newRegex))
    (query : Expression) (maxScannedRows : ℕ) (interrupted : Checkpoint → ℕ → Bool)
    (request : QueryRequest) {page : List StatusRow}
    (h : queryStatuses snapshot yq newRegex query maxScannedRows interrupted request =
      some page) : page = requestedPage snapshot yq newRegex query request := by
  unfold queryStatuses at h
  split_ifs at h with hstart hlimit
  · cases h
    unfold requestedPage
    rw [hlimit, List.take_zero]
  · dsimp only at h
    obtain ⟨scan, hscan, rfl⟩ := Option.map_eq_some_iff.1 h
    rw [scanPages_outcome (fun _ _ => rfl) (fun s hs => ne_stopKey hs)
      ⟨Nat.zero_le _, Asked.faithful_nil newRegex, rfl⟩ hscan]
    unfold outcome requestedPage matchingRows between left
    dsimp only
    rw [List.nil_append, Nat.sub_zero, List.filter_filter, List.filter_filter]
    have haccount : ∀ (s : StatusRow), s ∈ snapshot.statuses →
        yq.freshMatches newRegex query s
          (Keyed.lookup DbAccount.key snapshot.accounts s.authorKey) = true →
        (buildSqlPrefilter query).all (fun predicate => Accepts snapshot.accounts s predicate) =
          true := by
      intro s hs hmatches
      rw [Option.all_eq_true]
      intro predicate hpredicate
      exact decide_eq_true (sql_prefilter_superset (yq.freshEvaluate newRegex) semantics
        { Database.ofStatuses [] List.nodup_nil with
          accounts := snapshot.accounts, accounts_nodup := snapshot.accounts_nodup }
        query s (hnul s hs) hmatches predicate hpredicate)
    refine congrArg (List.take _) (congrArg (List.drop _) (List.filter_congr fun s hs => ?_))
    have hs := Descending.mem_descending.1 hs
    rw [isBetween, all_isAbove, accepted, Bool.eq_iff_iff]
    simp only [Bool.and_eq_true]
    constructor
    · rintro ⟨hmatches, ⟨-, hstop⟩, hcursor⟩
      exact ⟨hmatches, hstop, hcursor⟩
    · rintro ⟨hmatches, hstop, hcursor⟩
      exact ⟨hmatches, ⟨haccount s hs hmatches, hstop⟩, hcursor⟩

/-! ### A sample query -/

mutual

/-- Variables, constants and `regex`. -/
def regexEvaluate (provider : VariableProvider) : Expression → Evaluation
  | .symbol name => .ret (provider name)
  | .string value => .ret (some (.string value))
  | .integer value => .ret (some (.integer value))
  | .list (.symbol name :: args) =>
    if name = "regex" then regexFunction (regexEvaluateAll provider args) else .ret none
  | _ => .ret none

def regexEvaluateAll (provider : VariableProvider) : List Expression → List Evaluation
  | [] => []
  | e :: es => regexEvaluate provider e :: regexEvaluateAll provider es

end

theorem regexEvaluateAll_eq (provider : VariableProvider) (es : List Expression) :
    regexEvaluateAll provider es = es.map (regexEvaluate provider) := by
  induction es with
  | nil => rfl
  | cons e es ih => rw [regexEvaluateAll, ih, List.map_cons]

def regexCrate : YqCrate where
  evaluate := regexEvaluate
  regex provider args := by rw [regexEvaluate, if_pos rfl, regexEvaluateAll_eq]

/-- A pattern matches what has it in it. -/
def containing (pattern : Str) : Option Kq.Regex := some ⟨fun s => s.contains pattern⟩

theorem not_holds_list {provider : VariableProvider} {operator : String} {args : List Expression}
    (h : operator ≠ "regex") :
    ¬ Holds (regexCrate.freshEvaluate containing) provider (.list (.symbol operator :: args)) := by
  rintro ⟨value, hvalue, -⟩
  have hnone : regexEvaluate provider (.list (.symbol operator :: args)) = .ret none := by
    rw [regexEvaluate, if_neg h]
  change ((regexEvaluate provider _).cached containing []).1 = some value at hvalue
  rw [hnone] at hvalue
  cases hvalue

theorem regexCrate_semantics : YqSemantics (regexCrate.freshEvaluate containing) where
  symbol h := by
    change ((regexEvaluate _ _).cached containing []).1 = _
    rw [regexEvaluate]
    exact h
  missing h _ _ := by
    change ((regexEvaluate _ _).cached containing []).1 = _
    rw [regexEvaluate]
    exact h
  string {provider value} := by
    change ((regexEvaluate provider (.string value)).cached containing []).1 = _
    rw [regexEvaluate]
    rfl
  integer {provider value} := by
    change ((regexEvaluate provider (.integer value)).cached containing []).1 = _
    rw [regexEvaluate]
    rfl
  and := by
    rintro provider operator args hoperator h
    refine absurd h (not_holds_list ?_)
    rintro rfl
    revert hoperator
    decide
  or := by
    rintro provider operator args hoperator h
    refine absurd h (not_holds_list ?_)
    rintro rfl
    revert hoperator
    decide
  equals := by
    rintro provider operator a b hoperator h
    refine absurd h (not_holds_list ?_)
    rintro rfl
    revert hoperator
    decide
  contains := by
    rintro provider operator a b haystack needle hoperator h
    refine absurd h (not_holds_list ?_)
    rintro rfl
    revert hoperator
    decide

def samplePost (id : String) (createdAt content : String) : StatusRow :=
  { DbStatus.plain id "alpha.example" "10" with
    createdAt := createdAt.toList, content := content.toList }

def sampleSnapshot : Snapshot where
  statuses := [samplePost "1" "2024-01-01" "<p>cat</p>", samplePost "2" "2024-01-02" "<p>dog</p>",
    samplePost "3" "2024-01-03" "<p>two cats</p>", samplePost "4" "2024-01-04" "<p>a cat</p>"]
  accounts := []
  statuses_nodup := by decide +kernel
  accounts_nodup := List.nodup_nil

/-- `(regex text "cat")` -/
def catQuery : Expression :=
  .list [.symbol "regex", .symbol "text", .string "cat".toList]

/-- The two newest posts about cats but one. -/
def catRequest : QueryRequest := { limit := 2, offset := 1, stopAt := none, startAfter := none }

section

attribute [local instance] rejectingJson

theorem isSome_cats : (queryStatuses sampleSnapshot regexCrate containing catQuery 100
    (fun _ _ => false) catRequest).isSome = true := by decide +kernel

def catPage : List StatusRow := (queryStatuses sampleSnapshot regexCrate containing catQuery 100
  (fun _ _ => false) catRequest).get isSome_cats

theorem queryStatuses_eq_cats : catPage.length = 2 ∧
    catPage = requestedPage sampleSnapshot regexCrate containing catQuery catRequest :=
  ⟨by decide +kernel, evaluated_rows_of_query sampleSnapshot (by decide +kernel) regexCrate containing
    regexCrate_semantics catQuery 100 (fun _ _ => false) catRequest
    (Option.some_get isSome_cats).symm⟩

end

end Awayuki.Yq
