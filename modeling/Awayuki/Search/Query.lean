import Awayuki.Db.Order
import Awayuki.Kq.PlainText
import Awayuki.Search.Indexer
import Awayuki.Search.Segments

/-!
# Search: the query

`query_statuses` of `db/queries/search.rs`, one definition for each table expression of its SQL.

* `SearchDb`: the rows of statuses and accounts with the search index over them;
* `pendingStatusRows`, `pendingAccountRows`, `recentIndexRows` and the gap windows: what is read
  besides the full-text tables;
* `searchCandidate`: the candidates of one term;
* `queryStatuses`: the statuses that are candidates of every term.

Where the SQL limits rows without an order, the rows are limited in the order of their table.
-/

namespace Awayuki.Search

/-! ### The database -/

def statusFields (s : DbStatus) : StatusFields := ⟨s.content, s.spoilerText⟩

def accountFields (a : DbAccount) : AccountFields := ⟨a.acct, a.displayName⟩

structure SearchDb (G : Type) where
  statuses : List DbStatus
  accounts : List DbAccount
  index : Db G
  statuses_nodup : (statuses.map DbStatus.key).Nodup
  accounts_nodup : (accounts.map DbAccount.key).Nodup
  /-- `FOREIGN KEY (account_id, server_domain) REFERENCES accounts(id, server_domain)`. -/
  status_account : ∀ s ∈ statuses, ∃ a ∈ accounts, a.key = s.authorKey
  /-- The index has the searched columns of the same rows. -/
  status_rows : ∀ key, index.statuses.rows.get (toLex key) =
    (Keyed.lookup DbStatus.key statuses key).map statusFields
  account_rows : ∀ key, index.accounts.rows.get (toLex key) =
    (Keyed.lookup DbAccount.key accounts key).map accountFields

def candidateCountCap : ℕ := 10000

def pendingStatusScanLimit : ℕ := 256

def pendingAccountScanLimit : ℕ := 256

def statusGapScanLimit : ℕ := 256

def accountGapScanLimit : ℕ := 256

def recentIndexScanLimit : ℕ := 10000

def maxQueryBytes : ℕ := 4096

def maxQueryTerms : ℕ := 8

namespace SearchDb

variable {G : Type} (db : SearchDb G)

def status (key : EntityKey) : Option DbStatus := Keyed.lookup DbStatus.key db.statuses key

def account (key : EntityKey) : Option DbAccount := Keyed.lookup DbAccount.key db.accounts key

/-- `ON statuses.account_id = … AND statuses.server_domain = …`. -/
def statusesOf (accounts : List EntityKey) : List EntityKey :=
  accounts.flatMap fun account =>
    (db.statuses.filter fun s => s.authorKey = account).map DbStatus.key

/-! ### Rows that are read besides the full-text tables -/

/-- The rows that are queued for indexing, those queued last first. -/
def pendingRows {F D R : Type} (index : Index F D G) (row : EntityKey → Option R) (limit : ℕ) :
    List R :=
  let queued := index.queue.entries.filter fun e => e.2.action = .upsert
  let sorted := queued.insertionSort fun a b => QueueEntry.order b ≤ QueueEntry.order a
  (sorted.filterMap fun e => row (ofLex e.1)).take limit

def pendingStatusRows : List DbStatus :=
  pendingRows db.index.statuses db.status pendingStatusScanLimit

def pendingAccountRows : List DbAccount :=
  pendingRows db.index.accounts db.account pendingAccountScanLimit

def isPendingStatus (key : EntityKey) : Bool :=
  (db.pendingStatusRows.map DbStatus.key).contains key

def isPendingAccount (key : EntityKey) : Bool :=
  (db.pendingAccountRows.map DbAccount.key).contains key

structure RecentIndexRow where
  status : DbStatus
  statusTokenText : Str
  accountTokenText : Str

def recentIndexRows : List RecentIndexRow :=
  ((newestFirst db.statuses).take recentIndexScanLimit).map fun s =>
    let document := (db.index.statuses.content.get (toLex s.key)).filter fun document =>
      document.textScopeVersion = statusTextScopeVersion
    { status := s
      statusTokenText := (document.map StatusContent.tokenText).getD []
      accountTokenText := (db.index.accounts.content.get (toLex s.authorKey)).getD [] }

def recentStatusWindow : List DbStatus := (newestFirst db.statuses).take statusGapScanLimit

def unindexedStatusRows : List DbStatus :=
  db.recentStatusWindow.filter fun s =>
    !((db.index.statuses.content.get (toLex s.key)).any fun document =>
        document.textScopeVersion = statusTextScopeVersion)
      && !db.isPendingStatus s.key

def accountGapWindow : List DbAccount :=
  let below := db.accounts.filter fun a => db.index.accounts.backfill.below (toLex a.key)
  (below.insertionSort fun a b => toLex b.key ≤ toLex a.key).take accountGapScanLimit

def unindexedAccountRows : List DbAccount :=
  db.accountGapWindow.filter fun a =>
    !(db.index.accounts.content.get (toLex a.key)).isSome && !db.isPendingAccount a.key

end SearchDb

/-! ### Terms -/

structure IndexedTerm where
  matchQuery : List Str
  queryTokenText : Str
  searchTerm : Str
  contiguous : Bool

section Terms

variable (icu : Segmenter)

def indexedTerm (term : Str) (matchQuery : List Str) : IndexedTerm where
  matchQuery := matchQuery
  queryTokenText := indexText icu [term]
  searchTerm := term
  contiguous := requiresContiguousMatch icu term

def normalizeTerms (query : Str) : List Str := query.splitWhitespace

/-- The loop over the terms: a term without tokens ends the search, and a term whose expression
has been seen is passed over. -/
def candidateTerms (seenMatchQueries : List (List Str)) : List Str → Option (List IndexedTerm)
  | [] => some []
  | term :: terms =>
    match matchExpression icu term with
    | none => none
    | some matchQuery =>
      if matchQuery ∈ seenMatchQueries then candidateTerms seenMatchQueries terms
      else
        (candidateTerms (matchQuery :: seenMatchQueries) terms).map
          (indexedTerm icu term matchQuery :: ·)

end Terms

/-! ### The candidates of a term -/

namespace SearchDb

variable {G : Type} (icu : Segmenter) (db : SearchDb G)

/-- `… FROM …_search_icu_fts JOIN …_search_icu_content … MATCH ? AND … NOT IN …`. -/
def indexedKeys {F D : Type} (index : Index F D G) (matchQuery : List Str)
    (pending : EntityKey → Bool) : List EntityKey :=
  let documents := index.content.entries.filter fun e =>
    (index.postings.get e.1).any (ftsMatch matchQuery) && !pending (ofLex e.1)
  (documents.map fun e => ofLex e.1).take candidateCountCap

def indexedStatusCandidate (term : IndexedTerm) : List EntityKey :=
  indexedKeys db.index.statuses term.matchQuery db.isPendingStatus

def indexedAccountKeys (term : IndexedTerm) : List EntityKey :=
  indexedKeys db.index.accounts term.matchQuery db.isPendingAccount

def indexedAccountCandidate (term : IndexedTerm) : List EntityKey :=
  (db.statusesOf (db.indexedAccountKeys term)).take candidateCountCap

/-- `awayuki_icu_match(?, content, spoiler_text) = 1`. -/
def statusIcuTerm (term : IndexedTerm) (s : DbStatus) : Bool :=
  matchesFields icu term.searchTerm [s.content, s.spoilerText]

/-- `awayuki_icu_match(?, acct, display_name) = 1`. -/
def accountIcuTerm (term : IndexedTerm) (a : DbAccount) : Bool :=
  matchesFields icu term.searchTerm [a.acct, a.displayName]

def pendingStatusCandidate (term : IndexedTerm) : List EntityKey :=
  (db.pendingStatusRows.filter (statusIcuTerm icu term)).map DbStatus.key

def pendingAccountCandidate (term : IndexedTerm) : List EntityKey :=
  let accounts := db.pendingAccountRows.filter (accountIcuTerm icu term)
  (db.statusesOf (accounts.map DbAccount.key)).take candidateCountCap

def recentIndexCandidate (term : IndexedTerm) : List EntityKey :=
  let rows := db.recentIndexRows.filter fun row =>
    matchesIndexText term.queryTokenText [row.statusTokenText, row.accountTokenText]
      && !db.isPendingStatus row.status.key && !db.isPendingAccount row.status.authorKey
  rows.map fun row => row.status.key

def unindexedStatusCandidate (term : IndexedTerm) : List EntityKey :=
  (db.unindexedStatusRows.filter (statusIcuTerm icu term)).map DbStatus.key

def unindexedAccountCandidate (term : IndexedTerm) : List EntityKey :=
  let accounts := db.unindexedAccountRows.filter (accountIcuTerm icu term)
  (db.statusesOf (accounts.map DbAccount.key)).take candidateCountCap

/-- What the candidates of a term are taken from. -/
def candidateSources (term : IndexedTerm) : List EntityKey :=
  db.indexedStatusCandidate term ++ db.indexedAccountCandidate term
    ++ db.pendingStatusCandidate icu term ++ db.pendingAccountCandidate icu term
    ++ db.recentIndexCandidate term
    ++ (if db.index.statuses.backfill.completed then [] else db.unindexedStatusCandidate icu term)
    ++ (if db.index.accounts.backfill.completed then [] else db.unindexedAccountCandidate icu term)

/-- The fields of `awayuki_icu_contains`; SQL's null is read as an empty text. -/
def containsFields (s : DbStatus) : List Str :=
  let account := db.account s.authorKey
  [Kq.htmlToPlainText s.content, s.spoilerText, (account.map DbAccount.acct).getD [],
    (account.map DbAccount.displayName).getD []]

def searchCandidate (term : IndexedTerm) : List EntityKey :=
  let candidates := db.statuses.filter fun s =>
    (db.candidateSources icu term).contains s.key
      && (!term.contiguous || containsTerm icu term.searchTerm (db.containsFields s))
  ((newestFirst candidates).take candidateCountCap).map DbStatus.key

/-- `capped_candidate_count` -/
def cappedCandidateCount (term : IndexedTerm) : ℕ :=
  let count (postings : OrderedMap Key Str) : ℕ :=
    (postings.entries.filter fun e => ftsMatch term.matchQuery e.2).length
  let ftsCount := min candidateCountCap (count db.index.statuses.postings)
  if candidateCountCap ≤ ftsCount then candidateCountCap
  else ftsCount + min (candidateCountCap - ftsCount) (count db.index.accounts.postings)

end SearchDb

/-! ### The query -/

structure StatusDisplayFilter where
  excludeBoosts : Bool
  excludeMedia : Bool
  includeMedia : Bool
  deriving DecidableEq

structure SearchQuery where
  query : Str
  limit : ℤ
  offset : ℤ
  displayFilter : StatusDisplayFilter
  startAfter : Option EntityKey

/-- `media_attachments_json IS NOT NULL AND media_attachments_json != '[]'`. -/
def hasMedia (s : DbStatus) : Bool := s.mediaAttachmentsJson.any (· ≠ "[]".toList)

namespace SearchDb

variable {G : Type} (icu : Segmenter) (db : SearchDb G)

/-- `display_filter_sql` -/
def displayFilter (filter : StatusDisplayFilter) (s : DbStatus) : Bool :=
  let media := hasMedia s || db.statuses.any fun original =>
    some original.key = s.reblogKey && hasMedia original
  (!filter.excludeBoosts || s.reblogOfId = none) && (!filter.excludeMedia || !media)
    && (!filter.includeMedia || media)

/-- `resolve_cursor` -/
def resolveCursor (startAfter : Option EntityKey) : Option DbStatus := startAfter.bind db.status

/-- The condition of a cursor. -/
def isAfter (cursor : Option DbStatus) (s : DbStatus) : Bool :=
  match cursor with
  | none => true
  | some cursor =>
    s.createdAt < cursor.createdAt || (s.createdAt = cursor.createdAt &&
      (s.serverDomain < cursor.serverDomain ||
        (s.serverDomain = cursor.serverDomain && s.id < cursor.id)))

/-- `LIMIT ? OFFSET ?`; after a cursor nothing is skipped. -/
def page (cursor : Option DbStatus) (limit offset : ℤ) (rows : List DbStatus) : List DbStatus :=
  (rows.drop (if cursor.isSome then 0 else offset.toNat)).take limit.toNat

def queryStatusesOnConnection (request : SearchQuery) : Except Str (List DbStatus) :=
  let terms := normalizeTerms request.query
  if terms.isEmpty then .ok []
  else if maxQueryTerms < terms.length then .error "search query has too many terms"
  else
    let cursor := db.resolveCursor request.startAfter
    match candidateTerms icu [] terms with
    | none => .ok []
    | some candidates =>
      let indexedTerms := candidates.insertionSort fun a b =>
        db.cappedCandidateCount a ≤ db.cappedCandidateCount b
      let rows := db.statuses.filter fun s =>
        (indexedTerms.all fun term => (db.searchCandidate icu term).contains s.key)
          && db.displayFilter request.displayFilter s && isAfter cursor s
      .ok (page cursor request.limit request.offset (newestFirst rows))

/-- `query_statuses`, of a search that is not cancelled. -/
def queryStatuses (request : SearchQuery) : Except Str (List DbStatus) :=
  if maxQueryBytes < request.query.len then .error "search query exceeds input budget"
  else if request.query.splitWhitespace.isEmpty then .ok []
  else db.queryStatusesOnConnection icu request

end SearchDb

end Awayuki.Search
