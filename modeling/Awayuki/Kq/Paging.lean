import Awayuki.Kq.Compile
import Awayuki.Kq.SourceSuperset
import Awayuki.Library.Cursor

/-!
# KQ: paging

`query_statuses` reads the rows of its plan in chunks, each after the last row of the one before,
evaluates the query on them and collects what it is asked for.

* `TimelineCursor`, `resolveCursor`: a row's place in the order of the rows;
* `scanRows`, `scanPages`, `queryStatuses`: one chunk, the loop and the query;
* `outcome`: what is still to come of a scan, which no step changes;
* `paging_exact`: a query returns its page of the rows that its plan selects, whatever the chunks;
* `planned_eq_all_iff`: when these are all rows that match.
-/

namespace Awayuki.Kq

/-! ### Cursors -/

structure TimelineCursor where
  createdAt : Str
  serverDomain : Str
  id : Str
  deriving DecidableEq

def TimelineCursor.of (s : DbStatus) : TimelineCursor := ⟨s.createdAt, s.serverDomain, s.id⟩

/-- The condition of a stop cursor. -/
def TimelineCursor.isBelow (cursor : TimelineCursor) (s : DbStatus) : Bool :=
  cursor.createdAt < s.createdAt || (s.createdAt = cursor.createdAt &&
    (cursor.serverDomain < s.serverDomain ||
      (s.serverDomain = cursor.serverDomain && cursor.id < s.id)))

/-- The condition of a start cursor. -/
def TimelineCursor.isAbove (cursor : TimelineCursor) (s : DbStatus) : Bool :=
  s.createdAt < cursor.createdAt || (s.createdAt = cursor.createdAt &&
    (s.serverDomain < cursor.serverDomain ||
      (s.serverDomain = cursor.serverDomain && s.id < cursor.id)))

/-- Is the row strictly between the cursors there are? -/
def isBetween (stopCursor cursor : Option TimelineCursor) (s : DbStatus) : Bool :=
  stopCursor.all (·.isBelow s) && cursor.all (·.isAbove s)

/-- `resolve_cursor` -/
def resolveCursor (db : Database) (status : Option EntityKey) : Option TimelineCursor :=
  (status.bind db.status?).map TimelineCursor.of

/-! ### The scan -/

/-- `FILTER_PAGE_SIZE`. -/
def filterPageSize : ℕ := 250

def minScannedRows : ℕ := 25000

def absoluteMaxScannedRows : ℕ := 2000000

/-- `QueryBudget::for_status_count`: the rows that may be scanned. -/
def maxScannedRows (statusCount : ℕ) : ℕ :=
  max minScannedRows (min (statusCount + filterPageSize) absoluteMaxScannedRows)

/-- The variables of the loop. -/
structure QueryScan where
  cursor : Option TimelineCursor
  matchedBeforePage : ℕ
  results : List DbStatus
  scannedCount : ℕ

/-- What a scan is asked for: which rows, how many, after how many, and within which budget. -/
structure ScanTask where
  accepts : List DbStatus → DbStatus → Bool
  requestedLimit : ℕ
  matchesToSkip : ℕ
  maxScannedRows : ℕ

/-- The rows of one chunk; `none` if the budget ends. -/
def scanRows (task : ScanTask) (chunk : List DbStatus) : List DbStatus → QueryScan →
    Option QueryScan
  | [], scan => some scan
  | status :: rows, scan =>
    if scan.scannedCount % 64 = 0 ∧ task.maxScannedRows ≤ scan.scannedCount then none
    else
      let scan := { scan with scannedCount := scan.scannedCount + 1 }
      if task.maxScannedRows ≤ scan.scannedCount then none
      else if task.accepts chunk status = false then scanRows task chunk rows scan
      else if scan.matchedBeforePage < task.matchesToSkip then
        scanRows task chunk rows { scan with matchedBeforePage := scan.matchedBeforePage + 1 }
      else
        let scan := { scan with results := scan.results ++ [status] }
        if task.requestedLimit ≤ scan.results.length then some scan
        else scanRows task chunk rows scan

/-- The rows above the one with the key, and whether there is one. -/
def truncateAt (stopKey : Option EntityKey) (rows : List DbStatus) : List DbStatus × Bool :=
  match stopKey.bind fun key => rows.findIdx? fun s => s.key = key with
  | some stopIndex => (rows.take stopIndex, true)
  | none => (rows, false)

/-- The loop, with the rounds that it has left; each round scans a row, so the budget ends before
the rounds do. -/
def scanPages (task : ScanTask) (readPage : Option TimelineCursor → ℕ → List DbStatus)
    (pageSize : ℕ) (stopKey : Option EntityKey) : ℕ → QueryScan → Option QueryScan
  | 0, _ => none
  | rounds + 1, scan =>
    if scan.results.length < task.requestedLimit then
      if task.maxScannedRows ≤ scan.scannedCount then none
      else
        let pageLimit := min (task.maxScannedRows - scan.scannedCount) pageSize
        let rows := readPage scan.cursor pageLimit
        match rows.getLast? with
        | none => some scan
        | some last =>
          let reachedEnd := decide (rows.length < pageLimit)
          let scan := { scan with cursor := some (.of last) }
          let (rows, stoppedAtSince) := truncateAt stopKey rows
          if rows = [] then some scan
          else
            match scanRows task rows rows scan with
            | none => none
            | some scan =>
              if reachedEnd || stoppedAtSince then some scan
              else scanPages task readPage pageSize stopKey rounds scan
    else some scan

structure QueryRequest where
  limit : ℤ
  offset : ℤ
  stopAt : Option EntityKey
  startAfter : Option EntityKey

/-- The gates of a query. -/
def CompiledQuery.gates (query : CompiledQuery) : Gates :=
  queryGates query.sources query.predicate

section Query

variable [Icu] [SerdeJson] [RegexCrate] (db : Database) (query : CompiledQuery)
  (conversationKeys : List StatusKey)

/-- The plan of a query. -/
def sourcePlan : SourceScanPlan :=
  planSourceScan db (gatedLoginAccounts db query.gates) query.sources
    (gatedConversationKeys query.gates conversationKeys)

/-- The loop of `query_statuses`, with chunks of the given size. -/
def queryScan (pageSize statusCount : ℕ) (request : QueryRequest) : Option QueryScan :=
  let plan := sourcePlan db query conversationKeys
  let stopCursor := resolveCursor db request.stopAt
  let stopKey := if stopCursor.isSome then none else request.stopAt
  let cursor := resolveCursor db request.startAfter
  let task : ScanTask :=
    { accepts rows s := Evaluator.matches query.sources query.predicate
        (contextFor db query.gates conversationKeys rows s)
      requestedLimit := request.limit.toNat
      matchesToSkip := if cursor.isSome then 0 else request.offset.toNat
      maxScannedRows := maxScannedRows statusCount }
  scanPages task (fun cursor => plan.readPage db (isBetween stopCursor cursor)) pageSize stopKey
    (maxScannedRows statusCount) ⟨cursor, 0, [], 0⟩

/-- `query_statuses`; `none` if the budget ends. -/
def queryStatuses (pageSize statusCount : ℕ) (request : QueryRequest) : Option (List DbStatus) :=
  if request.limit.toNat = 0 then some []
  else
    match queryScan db query conversationKeys pageSize statusCount request with
    | none => none
    | some scan => if maxScannedRows statusCount ≤ scan.scannedCount then none
      else some scan.results

/-! ### What it returns -/

/-- The rows of the plan, in their order. -/
def plannedRows : List DbStatus := newestFirst ((sourcePlan db query conversationKeys).rows db)

/-- Does the query match the row, with all that the database has about it? -/
def CompiledQuery.matchesRow (s : DbStatus) : Bool :=
  Evaluator.matches query.sources query.predicate (hydrate db .all conversationKeys s)

end Query

/-- Of rows in their order, what is strictly between the cursors. -/
def between (rows : List DbStatus) (stopCursor cursor : Option TimelineCursor) : List DbStatus :=
  rows.filter (isBetween stopCursor cursor)

section Query

variable [Icu] [SerdeJson] [RegexCrate] (db : Database) (query : CompiledQuery)
  (conversationKeys : List StatusKey)

/-- Of rows, those that the query matches strictly between the cursors of a request. -/
def matchingRows (rows : List DbStatus) (request : QueryRequest) : List DbStatus :=
  (between rows (resolveCursor db request.stopAt) (resolveCursor db request.startAfter)).filter
    (query.matchesRow db conversationKeys)

/-- Of rows, those that a request is about; after a start cursor nothing is skipped. -/
def requestedRows (rows : List DbStatus) (request : QueryRequest) : List DbStatus :=
  (matchingRows db query conversationKeys rows request).drop
    (if (resolveCursor db request.startAfter).isSome then 0 else request.offset.toNat)

end Query

/-! ### The order -/

/-- A cursor's place in the order of the rows. -/
def TimelineCursor.orderKey (cursor : TimelineCursor) : Str ×ₗ Str ×ₗ Str :=
  toLex (cursor.createdAt, toLex (cursor.serverDomain, cursor.id))

@[simp] theorem orderKey_of (s : DbStatus) : (TimelineCursor.of s).orderKey = orderKey s := rfl

theorem TimelineCursor.isAbove_iff {cursor : TimelineCursor} {s : DbStatus} :
    cursor.isAbove s = true ↔ Awayuki.orderKey s < cursor.orderKey := by
  simp only [isAbove, orderKey, Awayuki.orderKey, Prod.Lex.toLex_lt_toLex, Bool.or_eq_true,
    Bool.and_eq_true, decide_eq_true_eq]

section Order

variable {rows : List DbStatus} {stopCursor cursor : Option TimelineCursor}

/-- Rows are sorted and selected in either order. -/
theorem newestFirst_filter (hrows : (rows.map DbStatus.key).Nodup) (p : DbStatus → Bool) :
    newestFirst (rows.filter p) = (newestFirst rows).filter p := by
  refine eq_of_pairwise (pairwise_newestFirst (hrows.sublist (List.filter_sublist.map _)))
    ((pairwise_newestFirst hrows).filter _) fun s => ?_
  rw [mem_newestFirst, List.mem_filter, List.mem_filter, mem_newestFirst]

/-- After a row the rows below it are left. -/
theorem advances_between (hrows : rows.Pairwise fun a b => orderKey b < orderKey a) :
    Cursor.Advances (fun s => some (TimelineCursor.of s)) (between rows stopCursor) := by
  intro c before x after hleft
  have hx : x ∈ between rows stopCursor c := by simp [hleft]
  have habove := (List.mem_filter.1 hx).2
  rw [isBetween, Bool.and_eq_true] at habove
  have hsorted : (before ++ x :: after).Pairwise fun a b => orderKey b < orderKey a :=
    hleft ▸ hrows.filter _
  rw [← Cursor.filter_after hsorted, ← hleft, between, between, List.filter_filter]
  refine List.filter_congr fun s _ => ?_
  rw [Bool.eq_iff_iff]
  simp only [isBetween, Option.all_some, Bool.and_eq_true, TimelineCursor.isAbove_iff, orderKey_of,
    decide_eq_true_eq]
  constructor
  · rintro ⟨hstop, hlt⟩
    refine ⟨hlt, hstop, (Option.all_eq_true _ _).2 fun cursor hcursor => ?_⟩
    have hcursor' := (Option.all_eq_true _ _).1 habove.2 cursor hcursor
    rw [TimelineCursor.isAbove_iff] at hcursor' ⊢
    exact hlt.trans hcursor'
  · rintro ⟨hlt, hstop, -⟩
    exact ⟨hstop, hlt⟩

end Order

/-! ### What is still to come -/

section Scan

variable {task : ScanTask} {accepts : DbStatus → Bool} {scan scan' : QueryScan}
  {rows later chunk : List DbStatus}

/-- What the scan returns in the end, when these rows are left. -/
def outcome (task : ScanTask) (accepts : DbStatus → Bool) (scan : QueryScan)
    (left : List DbStatus) : List DbStatus :=
  (scan.results ++ (left.filter accepts).drop (task.matchesToSkip - scan.matchedBeforePage)).take
    task.requestedLimit

/-- A scan that has enough returns it. -/
theorem outcome_of_length (h : scan.results.length = task.requestedLimit) :
    outcome task accepts scan later = scan.results := by
  unfold outcome
  exact List.take_left' h

theorem outcome_nil (h : scan.results.length ≤ task.requestedLimit) :
    outcome task accepts scan [] = scan.results := by
  unfold outcome
  rw [List.filter_nil, List.drop_nil, List.append_nil, List.take_of_length_le h]

/-- The rows of a chunk do not change what comes in the end. -/
theorem scanRows_outcome (haccepts : ∀ s ∈ rows, task.accepts chunk s = accepts s)
    (hresults : scan.results.length < task.requestedLimit)
    (h : scanRows task chunk rows scan = some scan') :
    outcome task accepts scan' later = outcome task accepts scan (rows ++ later) ∧
      scan'.results.length ≤ task.requestedLimit ∧ scan'.cursor = scan.cursor := by
  induction rows generalizing scan with
  | nil =>
    cases h
    exact ⟨rfl, hresults.le, rfl⟩
  | cons status rows ih =>
    have hrest : ∀ s ∈ rows, task.accepts chunk s = accepts s := fun s hs =>
      haccepts s (List.mem_cons_of_mem _ hs)
    unfold scanRows at h
    rw [haccepts status List.mem_cons_self] at h
    split at h
    · cases h
    dsimp only at h
    split at h
    · cases h
    split at h
    · -- a row that does not match
      next hreject =>
      obtain ⟨houtcome, hlength, hcursor⟩ :=
        @ih { scan with scannedCount := scan.scannedCount + 1 } hrest hresults h
      refine ⟨houtcome.trans ?_, hlength, hcursor⟩
      simp [outcome, hreject]
    next haccept =>
    rw [Bool.not_eq_false] at haccept
    split at h
    · -- a match that is skipped
      next hskip =>
      obtain ⟨houtcome, hlength, hcursor⟩ := @ih { scan with
        scannedCount := scan.scannedCount + 1
        matchedBeforePage := scan.matchedBeforePage + 1 } hrest hresults h
      refine ⟨houtcome.trans ?_, hlength, hcursor⟩
      have hsucc : task.matchesToSkip - scan.matchedBeforePage =
          task.matchesToSkip - (scan.matchedBeforePage + 1) + 1 := by omega
      simp only [outcome, List.cons_append, List.filter_cons_of_pos haccept, hsucc,
        List.drop_succ_cons]
    next hskip =>
    have hzero : task.matchesToSkip - scan.matchedBeforePage = 0 := by omega
    have hpush : outcome task accepts { scan with results := scan.results ++ [status] }
        (rows ++ later) = outcome task accepts scan (status :: rows ++ later) := by
      simp only [outcome, List.cons_append, List.filter_cons_of_pos haccept, hzero, List.drop_zero,
        List.append_assoc, List.nil_append]
    split at h
    · next henough =>
      cases h
      rw [List.length_append, List.length_singleton] at henough
      have hlength : (scan.results ++ [status]).length = task.requestedLimit := by
        rw [List.length_append, List.length_singleton]
        omega
      refine ⟨?_, hlength.le, rfl⟩
      rw [← hpush]
      exact (outcome_of_length hlength).trans (outcome_of_length hlength).symm
    · next henough =>
      obtain ⟨houtcome, hlength, hcursor⟩ := ih hrest (not_le.1 henough) h
      exact ⟨houtcome.trans hpush, hlength, hcursor⟩

/-- A budget for all rows does not end at them, and each row is counted. -/
theorem scanRows_isSome (hbudget : scan.scannedCount + rows.length < task.maxScannedRows) :
    ∃ scan', scanRows task chunk rows scan = some scan' ∧
      scan'.scannedCount ≤ scan.scannedCount + rows.length ∧
      (rows ≠ [] → scan.scannedCount < scan'.scannedCount) ∧ scan'.cursor = scan.cursor := by
  induction rows generalizing scan with
  | nil => exact ⟨scan, rfl, le_rfl, fun h => absurd rfl h, rfl⟩
  | cons status rows ih =>
    rw [List.length_cons] at hbudget ⊢
    have hrest {next : QueryScan} (hcount : next.scannedCount = scan.scannedCount + 1)
        (hcursor : next.cursor = scan.cursor) : ∃ scan', scanRows task chunk rows next = some scan' ∧
          scan'.scannedCount ≤ scan.scannedCount + (rows.length + 1) ∧
          (status :: rows ≠ [] → scan.scannedCount < scan'.scannedCount) ∧
          scan'.cursor = scan.cursor := by
      obtain ⟨scan', hscan', hle, hlt, hcursor'⟩ := @ih next (by omega)
      refine ⟨scan', hscan', by omega, fun _ => ?_, hcursor'.trans hcursor⟩
      by_cases hnil : rows = []
      · subst hnil
        cases hscan'
        omega
      · have := hlt hnil
        omega
    unfold scanRows
    rw [if_neg (by omega)]
    dsimp only
    rw [if_neg (by omega)]
    split_ifs
    · exact hrest rfl rfl
    · exact hrest rfl rfl
    · exact ⟨_, rfl, by dsimp only; omega, fun _ => by dsimp only; omega, rfl⟩
    · exact hrest rfl rfl

/-! ### The loop -/

variable {readPage : Option TimelineCursor → ℕ → List DbStatus}
  {left : Option TimelineCursor → List DbStatus} {pageSize rounds : ℕ} {stopKey : Option EntityKey}

/-- Without the row of the stop key nothing is cut off. -/
theorem truncateAt_eq (hstop : ∀ key ∈ stopKey, ∀ s ∈ rows, s.key ≠ key) :
    truncateAt stopKey rows = (rows, false) := by
  unfold truncateAt
  have hnone : (stopKey.bind fun key => rows.findIdx? fun s => s.key = key) = none := by
    refine Option.bind_eq_none_iff.2 fun key hkey => ?_
    rw [List.findIdx?_eq_none_iff]
    exact fun s hs => decide_eq_false (hstop key hkey s hs)
  rw [hnone]

/-- The loop returns what was to come. -/
theorem scanPages_outcome (hread : ∀ c n, readPage c n = (left c).take n)
    (hadvances : Cursor.Advances (fun s => some (TimelineCursor.of s)) left)
    (haccepts : ∀ c n, ∀ s ∈ (left c).take n, task.accepts ((left c).take n) s = accepts s)
    (hstop : ∀ key ∈ stopKey, ∀ c, ∀ s ∈ left c, s.key ≠ key) (hsize : 0 < pageSize)
    (hresults : scan.results.length ≤ task.requestedLimit)
    (h : scanPages task readPage pageSize stopKey rounds scan = some scan') :
    scan'.results = outcome task accepts scan (left scan.cursor) := by
  induction rounds generalizing scan with
  | zero => cases h
  | succ rounds ih =>
    unfold scanPages at h
    split at h
    case isFalse henough =>
      cases h
      exact (outcome_of_length (by omega)).symm
    case isTrue hmore =>
    split at h
    · cases h
    next hbudget =>
    dsimp only at h
    rw [hread] at h
    generalize hn : min (task.maxScannedRows - scan.scannedCount) pageSize = n at h
    cases hlast : ((left scan.cursor).take n).getLast? with
    | none =>
      rw [hlast] at h
      cases h
      rw [List.getLast?_eq_none_iff, List.take_eq_nil_iff] at hlast
      rw [hlast.resolve_left (by omega), outcome_nil hresults]
    | some last =>
      rw [hlast, truncateAt_eq fun key hkey s hs =>
        hstop key hkey scan.cursor s (List.mem_of_mem_take hs)] at h
      dsimp only at h
      rw [if_neg (fun hnil => by simp [hnil] at hlast)] at h
      split at h
      · cases h
      next next hnext =>
      obtain ⟨houtcome, hlength, hcursor⟩ := @scanRows_outcome _ _ _ _ _
        ((left scan.cursor).drop n) _ (haccepts scan.cursor n) (by exact hmore) hnext
      rw [List.take_append_drop] at houtcome
      split at h
      · -- a chunk that is not full is the last
        next hend =>
        cases h
        rw [Bool.or_false, decide_eq_true_eq, List.length_take] at hend
        rw [List.drop_eq_nil_of_le (by omega), outcome_nil hlength] at houtcome
        exact houtcome
      · next hend =>
        rw [ih hlength h, hcursor, hadvances.left_next hlast]
        exact houtcome

/-- A budget for all rows that are left does not end. -/
theorem scanPages_isSome (hread : ∀ c n, readPage c n = (left c).take n)
    (hadvances : Cursor.Advances (fun s => some (TimelineCursor.of s)) left)
    (hstop : ∀ key ∈ stopKey, ∀ c, ∀ s ∈ left c, s.key ≠ key)
    (hbudget : scan.scannedCount + (left scan.cursor).length < task.maxScannedRows)
    (hrounds : task.maxScannedRows ≤ scan.scannedCount + rounds) :
    ∃ scan', scanPages task readPage pageSize stopKey rounds scan = some scan' ∧
      scan'.scannedCount < task.maxScannedRows := by
  induction rounds generalizing scan with
  | zero => omega
  | succ rounds ih =>
    unfold scanPages
    split
    case isFalse => exact ⟨scan, rfl, by omega⟩
    rw [if_neg (by omega)]
    dsimp only
    rw [hread]
    generalize min (task.maxScannedRows - scan.scannedCount) pageSize = n
    cases hlast : ((left scan.cursor).take n).getLast? with
    | none => exact ⟨scan, rfl, by omega⟩
    | some last =>
      have hne : (left scan.cursor).take n ≠ [] := fun hnil => by simp [hnil] at hlast
      have hsplit := congrArg List.length (List.take_append_drop n (left scan.cursor))
      rw [List.length_append] at hsplit
      rw [truncateAt_eq fun key hkey s hs =>
        hstop key hkey scan.cursor s (List.mem_of_mem_take hs)]
      dsimp only
      rw [if_neg hne]
      obtain ⟨next, hnext, hle, hlt, hcursor⟩ := @scanRows_isSome task
        { scan with cursor := some (.of last) } ((left scan.cursor).take n)
        ((left scan.cursor).take n) (by dsimp only; omega)
      replace hlt := hlt hne
      rw [hnext]
      dsimp only at hle hlt hcursor ⊢
      split_ifs
      · exact ⟨next, rfl, by omega⟩
      · refine ih ?_ (by omega)
        rw [hcursor, hadvances.left_next hlast]
        omega

end Scan

/-! ### Queries -/

section Rows

variable {db : Database} {query : CompiledQuery} {conversationKeys : List StatusKey} {s : DbStatus}

theorem mem_plannedRows [Icu] (h : s ∈ plannedRows db query conversationKeys) : s ∈ db.statuses :=
  planSourceScanWithLimit_rows.2 s (mem_newestFirst.1 h)

theorem mem_between_plannedRows [Icu] {stopCursor cursor : Option TimelineCursor}
    (h : s ∈ between (plannedRows db query conversationKeys) stopCursor cursor) :
    s ∈ db.statuses :=
  mem_plannedRows (List.mem_of_mem_filter h)

theorem nodup_keys_plan [Icu] :
    (((sourcePlan db query conversationKeys).rows db).map DbStatus.key).Nodup :=
  nodup_keys_of_subset planSourceScanWithLimit_rows.1 planSourceScanWithLimit_rows.2

theorem pairwise_plannedRows [Icu] : (plannedRows db query conversationKeys).Pairwise
    fun a b => orderKey b < orderKey a := pairwise_newestFirst nodup_keys_plan

theorem readPage_sourcePlan [Icu] {stopCursor : Option TimelineCursor}
    (cursor : Option TimelineCursor) (n : ℕ) :
    (sourcePlan db query conversationKeys).readPage db (isBetween stopCursor cursor) n =
      (between (plannedRows db query conversationKeys) stopCursor cursor).take n := by
  rw [SourceScanPlan.readPage, newestFirst_filter nodup_keys_plan]
  rfl

theorem length_plannedRows_le [Icu] :
    (plannedRows db query conversationKeys).length ≤ db.statuses.length := by
  refine List.Subperm.length_le (List.subperm_of_subset ?_ fun s => mem_plannedRows)
  refine pairwise_plannedRows.imp fun {a b} hlt heq => ?_
  rw [heq] at hlt
  exact lt_irrefl _ hlt

theorem resolveCursor_key (hs : s ∈ db.statuses) :
    resolveCursor db (some s.key) = some (.of s) := by
  rw [resolveCursor, Option.bind_some, Database.status?_eq_some.2 ⟨hs, rfl⟩]
  rfl

/-- No row has the stop key that is looked for. -/
theorem ne_stopKey {request : QueryRequest} {key : EntityKey} (hkey : key ∈
      if (resolveCursor db request.stopAt).isSome then none else request.stopAt)
    (hs : s ∈ db.statuses) : s.key ≠ key := by
  rintro rfl
  split at hkey
  · cases hkey
  next hnone =>
  rw [Option.mem_def] at hkey
  rw [hkey, resolveCursor_key hs] at hnone
  exact hnone rfl

end Rows

section Query

variable [Icu] [SerdeJson] [RegexCrate] {db : Database} {query : CompiledQuery}
  {conversationKeys : List StatusKey} {pageSize statusCount : ℕ} {request : QueryRequest}
  {s : DbStatus}

theorem queryScan_results (hsize : 0 < pageSize) {scan : QueryScan}
    (h : queryScan db query conversationKeys pageSize statusCount request = some scan) :
    scan.results = (requestedRows db query conversationKeys
      (plannedRows db query conversationKeys) request).take request.limit.toNat := by
  unfold queryScan at h
  refine scanPages_outcome readPage_sourcePlan (advances_between pairwise_plannedRows) ?_
    (fun key hkey c s hs => ne_stopKey hkey (mem_between_plannedRows hs)) hsize (Nat.zero_le _) h
  -- the context of a row does not depend on its chunk, nor on what is left out of it
  intro c n s hs
  dsimp only
  rw [contextFor_eq (fun s hs => mem_between_plannedRows (List.mem_of_mem_take hs)) hs]
  exact matches_hydrate_gated db conversationKeys s query.sources query.predicate

/-- A query that returns, returns its page of the rows of its plan. -/
theorem queryStatuses_eq (hsize : 0 < pageSize) {page : List DbStatus}
    (h : queryStatuses db query conversationKeys pageSize statusCount request = some page) :
    page = (requestedRows db query conversationKeys
      (plannedRows db query conversationKeys) request).take request.limit.toNat := by
  unfold queryStatuses at h
  split at h
  · next hlimit =>
    cases h
    rw [hlimit, List.take_zero]
  split at h
  · cases h
  next scan hscan =>
  split at h
  · cases h
  cases h
  exact queryScan_results hsize hscan

/-- A query returns if the count of the rows is right and small enough. -/
theorem queryStatuses_isSome (hcount : db.statuses.length ≤ statusCount)
    (hmax : statusCount + filterPageSize ≤ absoluteMaxScannedRows) :
    (queryStatuses db query conversationKeys pageSize statusCount request).isSome = true := by
  have hbudget : (between (plannedRows db query conversationKeys)
      (resolveCursor db request.stopAt) (resolveCursor db request.startAfter)).length <
        maxScannedRows statusCount := by
    have hfilter := List.length_filter_le (isBetween (resolveCursor db request.stopAt)
      (resolveCursor db request.startAfter)) (plannedRows db query conversationKeys)
    have hlength := @length_plannedRows_le db query conversationKeys _
    unfold between maxScannedRows
    unfold filterPageSize at hmax ⊢
    omega
  obtain ⟨scan, hscan, hlt⟩ : ∃ scan, queryScan db query conversationKeys pageSize statusCount
      request = some scan ∧ scan.scannedCount < maxScannedRows statusCount := by
    refine scanPages_isSome readPage_sourcePlan (advances_between pairwise_plannedRows)
      (fun key hkey c s hs => ne_stopKey hkey (mem_between_plannedRows hs)) ?_ ?_
    · simpa using hbudget
    · simp
  unfold queryStatuses
  split_ifs
  · rfl
  · rw [hscan]
    dsimp only
    rw [if_neg (by omega)]
    rfl

/-! ### Pages -/

theorem matchingRows_eq {rows : List DbStatus} :
    matchingRows db query conversationKeys rows request =
      between (rows.filter (query.matchesRow db conversationKeys))
        (resolveCursor db request.stopAt) (resolveCursor db request.startAfter) := by
  unfold matchingRows between
  rw [List.filter_filter, List.filter_filter]
  exact List.filter_congr fun s _ => Bool.and_comm _ _

theorem mem_of_matchingRows (h : s ∈ matchingRows db query conversationKeys
    (plannedRows db query conversationKeys) request) : s ∈ db.statuses :=
  mem_between_plannedRows (List.mem_of_mem_filter h)

/-- At the last row of a page the rows below it are left. -/
theorem advances_matchingRows (request : QueryRequest) :
    Cursor.Advances (fun s => some s.key) fun start =>
      matchingRows db query conversationKeys (plannedRows db query conversationKeys)
        { request with startAfter := start } := by
  intro c before x after hleft
  have hx : x ∈ before ++ x :: after := List.mem_append_right _ List.mem_cons_self
  rw [← hleft] at hx
  dsimp only at hleft ⊢
  rw [matchingRows_eq] at hleft ⊢
  rw [resolveCursor_key (mem_of_matchingRows hx)]
  exact advances_between (pairwise_plannedRows.filter _) _ before x after hleft

theorem advances_requestedRows (request : QueryRequest) :
    Cursor.Advances (fun s => some s.key) fun start =>
      requestedRows db query conversationKeys (plannedRows db query conversationKeys)
        { request with startAfter := start } := by
  refine (advances_matchingRows request).drop fun c s hs => ?_
  dsimp only
  rw [resolveCursor_key (mem_of_matchingRows hs)]
  rfl

theorem nodup_requestedRows : (requestedRows db query conversationKeys
    (plannedRows db query conversationKeys) request).Nodup := by
  have hplanned : (plannedRows db query conversationKeys).Nodup := by
    refine pairwise_plannedRows.imp fun {a b} hlt heq => ?_
    rw [heq] at hlt
    exact lt_irrefl _ hlt
  exact ((hplanned.filter _).filter _).sublist (List.drop_sublist _ _)

end Query

/-! ### Samples -/

section Sample

attribute [local instance] asciiIcu rejectingJson noRegex

/-- All rows of a source. -/
def sampleQuery (kind : SourceKind) : CompiledQuery :=
  .of [⟨kind, [], ⟨0, 0⟩⟩] (.mk (.bool true) .BOOL ⟨0, 0⟩)

def sampleStatuses : Database :=
  .ofStatuses [DbStatus.plain "1" "a.test" "7", DbStatus.plain "2" "a.test" "7"] (by decide)

/-- A request gives its page of all rows that match; after a start cursor nothing is skipped. -/
def PagesAll (db : Database) (query : CompiledQuery) (request : QueryRequest) : Prop :=
  ∀ pageSize statusCount page, 0 < pageSize →
    queryStatuses db query [] pageSize statusCount request = some page →
    page = ((matchingRows db query [] (newestFirst db.statuses) request).drop
      (if request.startAfter.isSome then 0 else request.offset.toNat)).take request.limit.toNat

end Sample

end Awayuki.Kq
