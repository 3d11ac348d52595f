import Awayuki.Search.Query

/-!
# Search: exactness

What a search finds once its indexes have settled.

* `Finds`: what a term of a query asks of a post;
* `mem_searchCandidate`: what the candidates of a term are;
* `Scattered`, `Stray`: the posts that are returned though a term does not find them;
* `Exact`: a search returns what its terms find.
-/

namespace Awayuki.Search

/-- An index whose documents are those of its rows, but for the keys that are queued. -/
structure Index.Settled {F D G : Type} (schema : Schema F D) (indexText : List Str → Str)
    (limit : ℕ) (s : Index F D G) : Prop where
  covered : s.Covered schema indexText
  completed : s.backfill.completed = true
  queued : (s.queue.entries.filter fun e => e.2.action = .upsert).length ≤ limit

namespace SearchDb

section Specification

variable {G : Type} (icu : Segmenter) (db : SearchDb G)

structure Settled : Prop where
  statuses : db.index.statuses.Settled statusSchema (indexText icu) pendingStatusScanLimit
  accounts : db.index.accounts.Settled accountSchema (indexText icu) pendingAccountScanLimit

/-- No table expression of the term reaches its limit. -/
structure FewCandidates (term : IndexedTerm) : Prop where
  indexedStatus : (db.indexedStatusCandidate term).length < candidateCountCap
  indexedAccountKeys : (db.indexedAccountKeys term).length < candidateCountCap
  indexedAccount : (db.indexedAccountCandidate term).length < candidateCountCap
  pendingAccount : (db.pendingAccountCandidate icu term).length < candidateCountCap
  search : (db.searchCandidate icu term).length < candidateCountCap

/-- Every segment of the term begins a word of the fields. -/
def PrefixMatch (term : Str) (fields : List Str) : Prop :=
  tokenize icu term ≠ [] ∧ ∀ query ∈ tokenize icu term, Begins icu fields query

/-- The folded term stands in one of the folded fields. -/
def WrittenOut (term : Str) (fields : List Str) : Prop :=
  icu.normalizeAndFold term ≠ [] ∧
    ∃ field ∈ fields, icu.normalizeAndFold term <:+: icu.normalizeAndFold field

def postFields (s : DbStatus) : List Str := [s.content, s.spoilerText]

def authorFields (s : DbStatus) : List Str :=
  match db.account s.authorKey with
  | some account => [account.acct, account.displayName]
  | none => []

/-- A term of several segments is written out in the post, as it is read, or by its author. -/
def Contiguous (term : Str) (s : DbStatus) : Prop :=
  1 < (tokenize icu term).length →
    WrittenOut icu term ([Kq.htmlToPlainText s.content, s.spoilerText] ++ db.authorFields s)

/-- The term finds the post. -/
structure Finds (term : Str) (s : DbStatus) : Prop where
  begins : PrefixMatch icu term (postFields s) ∨ PrefixMatch icu term (db.authorFields s)
  contiguous : db.Contiguous icu term s

/-- The post comes after the one at which the search is continued. -/
def After (startAfter : Option EntityKey) (s : DbStatus) : Prop :=
  ∀ cursor ∈ db.statuses, startAfter = some cursor.key → orderKey s < orderKey cursor

/-- The posts that a search is about. -/
structure Shown (filter : StatusDisplayFilter) (startAfter : Option EntityKey) (s : DbStatus) :
    Prop where
  row : s ∈ db.statuses
  filter : db.displayFilter filter s = true
  after : db.After startAfter s

/-- A search returns the posts that all its terms find, the newest first, in pages. -/
def Exact (query : Str) (filter : StatusDisplayFilter) (startAfter : Option EntityKey) : Prop :=
  ∃ rows : List DbStatus, rows.Pairwise (fun a b => orderKey b < orderKey a) ∧
    (∀ s, s ∈ rows ↔
      db.Shown filter startAfter s ∧ ∀ term ∈ query.splitWhitespace, db.Finds icu term s) ∧
    ∀ limit offset, db.queryStatuses icu ⟨query, limit, offset, filter, startAfter⟩ =
      .ok (page (db.resolveCursor startAfter) limit offset rows)

/-- The segments of the term begin words of the post or of its author's names, but not all of the
one or all of the other, and the post is one of the newest. -/
structure Scattered (term : Str) (s : DbStatus) : Prop where
  newest : s ∈ (newestFirst db.statuses).take recentIndexScanLimit
  indexed : db.index.statuses.queue.get (toLex s.key) = none
  authorIndexed : db.index.accounts.queue.get (toLex s.authorKey) = none
  nonempty : tokenize icu term ≠ []
  begins : ∀ query ∈ tokenize icu term,
    Begins icu (postFields s) query ∨ Begins icu (db.authorFields s) query
  split : ¬ PrefixMatch icu term (postFields s) ∧ ¬ PrefixMatch icu term (db.authorFields s)

/-- The terms that are searched for: the first with each expression. -/
def searchedTerms (query : Str) : List Str :=
  Keyed.firsts (matchExpression icu) query.splitWhitespace

/-- The searched terms come upon the post. -/
def Found (query : Str) (s : DbStatus) : Prop :=
  ∀ term ∈ searchedTerms icu query,
    (PrefixMatch icu term (postFields s) ∨ PrefixMatch icu term (db.authorFields s) ∨
      db.Scattered icu term s) ∧ db.Contiguous icu term s

/-- A post that the searched terms come upon, though one of them only by its scattered segments, or
though a term that was passed over is not written out in it. -/
structure Stray (query : Str) (s : DbStatus) : Prop where
  found : db.Found icu query s
  strays : (∃ term ∈ searchedTerms icu query, db.Scattered icu term s) ∨
    ∃ term ∈ query.splitWhitespace, ¬ db.Contiguous icu term s

/-- No table expression of any term of the query reaches its limit. -/
def FewCandidatesPerTerm (query : Str) : Prop :=
  ∀ term ∈ query.splitWhitespace, ∀ matchQuery, matchExpression icu term = some matchQuery →
    db.FewCandidates icu (indexedTerm icu term matchQuery)

/-- The query is within its budgets. -/
def WithinBudget (query : Str) : Prop :=
  query.len ≤ maxQueryBytes ∧ query.splitWhitespace.length ≤ maxQueryTerms

end Specification

/-! ### Rows that are queued -/

section Queued

variable {F D G R : Type} {schema : Schema F D} {icu : Segmenter} {index : Index F D G}
  {key : R → EntityKey} {rows : List R} {fields : R → F} {limit : ℕ} {r : R}

/-- What is limited to fewer rows than the limit is all there is. -/
theorem take_eq_self {α : Type} {l : List α} {n : ℕ} (h : (l.take n).length < n) :
    l.take n = l := by
  rw [List.length_take] at h
  exact List.take_of_length_le (by omega)

/-- A row that is queued is queued for indexing. -/
theorem queued_upsert (hindex : index.Settled schema (indexText icu) limit)
    (hrows : ∀ k, index.rows.get (toLex k) = (Keyed.lookup key rows k).map fields)
    (hnodup : (rows.map key).Nodup) (hr : r ∈ rows) {entry : QueueEntry G}
    (hentry : index.queue.get (toLex (key r)) = some entry) : entry.action = .upsert := by
  cases haction : entry.action with
  | upsert => rfl
  | delete =>
    have hnone := hindex.covered.deleted hentry haction
    rw [hrows, (Keyed.lookup_eq_some hnodup).2 ⟨hr, rfl⟩] at hnone
    cases hnone

theorem mem_pendingRows (hindex : index.Settled schema (indexText icu) limit)
    (hrows : ∀ k, index.rows.get (toLex k) = (Keyed.lookup key rows k).map fields)
    (hnodup : (rows.map key).Nodup) :
    r ∈ pendingRows index (Keyed.lookup key rows) limit ↔
      r ∈ rows ∧ (index.queue.get (toLex (key r))).isSome := by
  have hall : pendingRows index (Keyed.lookup key rows) limit =
      ((index.queue.entries.filter fun e => e.2.action = .upsert).insertionSort
        fun a b => QueueEntry.order b ≤ QueueEntry.order a).filterMap
          fun e => Keyed.lookup key rows (ofLex e.1) := by
    refine List.take_of_length_le ((List.length_filterMap_le _ _).trans ?_)
    rw [List.length_insertionSort]
    exact hindex.queued
  rw [hall, List.mem_filterMap]
  constructor
  · rintro ⟨e, he, hlookup⟩
    obtain ⟨hr, hkey⟩ := (Keyed.lookup_eq_some hnodup).1 hlookup
    have he' := (List.mem_filter.1 ((List.mem_insertionSort _).1 he)).1
    refine ⟨hr, ?_⟩
    rw [hkey, toLex_ofLex, OrderedMap.get_eq_some.2 he']
    rfl
  · rintro ⟨hr, hqueued⟩
    obtain ⟨entry, hentry⟩ := Option.isSome_iff_exists.1 hqueued
    refine ⟨(toLex (key r), entry), (List.mem_insertionSort _).2 (List.mem_filter.2
      ⟨OrderedMap.get_eq_some.1 hentry, ?_⟩), (Keyed.lookup_eq_some hnodup).2 ⟨hr, rfl⟩⟩
    simpa using queued_upsert hindex hrows hnodup hr hentry

theorem pendingKeys_contains (hindex : index.Settled schema (indexText icu) limit)
    (hrows : ∀ k, index.rows.get (toLex k) = (Keyed.lookup key rows k).map fields)
    (hnodup : (rows.map key).Nodup) (hr : r ∈ rows) :
    ((pendingRows index (Keyed.lookup key rows) limit).map key).contains (key r) =
      (index.queue.get (toLex (key r))).isSome := by
  rw [Bool.eq_iff_iff, List.contains_iff_mem, List.mem_map]
  constructor
  · rintro ⟨r', hr', hkey⟩
    rw [← hkey]
    exact ((mem_pendingRows hindex hrows hnodup).1 hr').2
  · exact fun hqueued => ⟨r, (mem_pendingRows hindex hrows hnodup).2 ⟨hr, hqueued⟩, rfl⟩

/-- A row that is not queued has its document. -/
theorem content_of_not_queued (hindex : index.Settled schema (indexText icu) limit)
    (hrows : ∀ k, index.rows.get (toLex k) = (Keyed.lookup key rows k).map fields)
    (hnodup : (rows.map key).Nodup) (hr : r ∈ rows)
    (hqueue : index.queue.get (toLex (key r)) = none) :
    index.content.get (toLex (key r)) =
      some (schema.content (indexText icu (schema.fields (fields r)))) := by
  rcases hindex.covered.covered hqueue with hcurrent | hpending
  · rw [hcurrent, hrows, (Keyed.lookup_eq_some hnodup).2 ⟨hr, rfl⟩]
    rfl
  · have hopen := hpending.1
    rw [hindex.completed] at hopen
    cases hopen

/-- The full-text table finds the rows whose fields match and that are not queued. -/
theorem mem_indexedKeys (hindex : index.Settled schema (indexText icu) limit)
    (hrows : ∀ k, index.rows.get (toLex k) = (Keyed.lookup key rows k).map fields)
    (hnodup : (rows.map key).Nodup) (hr : r ∈ rows) {pending : EntityKey → Bool}
    (hpending : pending (key r) = (index.queue.get (toLex (key r))).isSome)
    (hposting : ∀ text, schema.posting (schema.content text) = some text)
    {term : Str} {matchQuery : List Str} (hterm : matchExpression icu term = some matchQuery)
    (hfew : (indexedKeys index matchQuery pending).length < candidateCountCap) :
    key r ∈ indexedKeys index matchQuery pending ↔
      index.queue.get (toLex (key r)) = none ∧
        matchesFields icu term (schema.fields (fields r)) = true := by
  have hall := take_eq_self hfew
  rw [indexedKeys, hall, List.mem_map]
  have hposted : index.queue.get (toLex (key r)) = none →
      index.postings.get (toLex (key r)) = some (indexText icu (schema.fields (fields r))) := by
    intro hqueue
    rw [hindex.covered.posted, content_of_not_queued hindex hrows hnodup hr hqueue]
    exact hposting _
  constructor
  · rintro ⟨e, he, hkey⟩
    obtain ⟨-, hmatch⟩ := List.mem_filter.1 he
    obtain ⟨hmatch, hnot⟩ := Bool.and_eq_true_iff.1 hmatch
    have hqueue : index.queue.get (toLex (key r)) = none := by
      rw [hkey, hpending] at hnot
      simpa using hnot
    have hkey' : e.1 = toLex (key r) := by rw [← hkey, toLex_ofLex]
    rw [hkey', hposted hqueue, Option.any_some, ftsMatch_indexText icu hterm] at hmatch
    exact ⟨hqueue, hmatch⟩
  · rintro ⟨hqueue, hmatch⟩
    have hcontent := content_of_not_queued hindex hrows hnodup hr hqueue
    refine ⟨_, List.mem_filter.2 ⟨OrderedMap.get_eq_some.1 hcontent, ?_⟩, ofLex_toLex _⟩
    rw [hposted hqueue, Option.any_some, ftsMatch_indexText icu hterm, hmatch, ofLex_toLex,
      hpending, hqueue]
    rfl

end Queued

/-! ### The candidates of a term -/

section Candidates

variable {G : Type} {icu : Segmenter} {db : SearchDb G} {s : DbStatus}

theorem prefixMatch_iff {term : Str} {fields : List Str} :
    PrefixMatch icu term fields ↔ matchesFields icu term fields = true :=
  (matchesFields_iff icu).symm

theorem isPendingStatus_iff (hdb : db.Settled icu) (hs : s ∈ db.statuses) :
    db.isPendingStatus s.key = (db.index.statuses.queue.get (toLex s.key)).isSome :=
  pendingKeys_contains hdb.statuses db.status_rows db.statuses_nodup hs

theorem isPendingAccount_iff (hdb : db.Settled icu) {account : DbAccount}
    (haccount : account ∈ db.accounts) :
    db.isPendingAccount account.key =
      (db.index.accounts.queue.get (toLex account.key)).isSome :=
  pendingKeys_contains hdb.accounts db.account_rows db.accounts_nodup haccount

/-- Every post has its author. -/
theorem exists_author (hs : s ∈ db.statuses) : ∃ account ∈ db.accounts,
    account.key = s.authorKey ∧ db.authorFields s = [account.acct, account.displayName] ∧
      db.account s.authorKey = some account := by
  obtain ⟨account, haccount, hkey⟩ := db.status_account s hs
  have hlookup : db.account s.authorKey = some account :=
    (Keyed.lookup_eq_some db.accounts_nodup).2 ⟨haccount, hkey⟩
  exact ⟨account, haccount, hkey, by rw [authorFields, hlookup], hlookup⟩

theorem mem_statusesOf (hs : s ∈ db.statuses) {accounts : List EntityKey} :
    s.key ∈ db.statusesOf accounts ↔ s.authorKey ∈ accounts := by
  rw [statusesOf, List.mem_flatMap]
  constructor
  · rintro ⟨account, haccount, hmem⟩
    obtain ⟨s', hs', hkey⟩ := List.mem_map.1 hmem
    obtain ⟨hs', hauthor⟩ := List.mem_filter.1 hs'
    obtain rfl := Keyed.ext_of_nodup db.statuses_nodup hs' hs hkey
    rwa [of_decide_eq_true hauthor]
  · intro haccount
    exact ⟨_, haccount, List.mem_map.2 ⟨s, List.mem_filter.2 ⟨hs, by simp⟩, rfl⟩⟩

variable {term : Str} {matchQuery : List Str}

theorem mem_indexedStatusCandidate (hdb : db.Settled icu) (hs : s ∈ db.statuses)
    (hterm : matchExpression icu term = some matchQuery)
    (hfew : db.FewCandidates icu (indexedTerm icu term matchQuery)) :
    s.key ∈ db.indexedStatusCandidate (indexedTerm icu term matchQuery) ↔
      db.index.statuses.queue.get (toLex s.key) = none ∧ PrefixMatch icu term (postFields s) := by
  rw [prefixMatch_iff]
  exact mem_indexedKeys hdb.statuses db.status_rows db.statuses_nodup hs
    (isPendingStatus_iff hdb hs) (fun _ => rfl) hterm hfew.indexedStatus

theorem mem_indexedAccountCandidate (hdb : db.Settled icu) (hs : s ∈ db.statuses)
    (hterm : matchExpression icu term = some matchQuery)
    (hfew : db.FewCandidates icu (indexedTerm icu term matchQuery)) :
    s.key ∈ db.indexedAccountCandidate (indexedTerm icu term matchQuery) ↔
      db.index.accounts.queue.get (toLex s.authorKey) = none ∧
        PrefixMatch icu term (db.authorFields s) := by
  obtain ⟨account, haccount, hkey, hfields, -⟩ := exists_author hs
  rw [indexedAccountCandidate, take_eq_self hfew.indexedAccount, mem_statusesOf hs,
    prefixMatch_iff, hfields, ← hkey]
  exact mem_indexedKeys hdb.accounts db.account_rows db.accounts_nodup haccount
    (isPendingAccount_iff hdb haccount) (fun _ => rfl) hterm hfew.indexedAccountKeys

theorem mem_pendingStatusCandidate (hdb : db.Settled icu) (hs : s ∈ db.statuses) :
    s.key ∈ db.pendingStatusCandidate icu (indexedTerm icu term matchQuery) ↔
      (db.index.statuses.queue.get (toLex s.key)).isSome ∧
        PrefixMatch icu term (postFields s) := by
  rw [prefixMatch_iff, pendingStatusCandidate, List.mem_map]
  constructor
  · rintro ⟨s', hs', hkey⟩
    obtain ⟨hpending, hmatch⟩ := List.mem_filter.1 hs'
    obtain ⟨hs', hqueued⟩ :=
      (mem_pendingRows hdb.statuses db.status_rows db.statuses_nodup).1 hpending
    obtain rfl := Keyed.ext_of_nodup db.statuses_nodup hs' hs hkey
    exact ⟨hqueued, hmatch⟩
  · rintro ⟨hqueued, hmatch⟩
    exact ⟨s, List.mem_filter.2
      ⟨(mem_pendingRows hdb.statuses db.status_rows db.statuses_nodup).2 ⟨hs, hqueued⟩, hmatch⟩,
      rfl⟩

theorem mem_pendingAccountCandidate (hdb : db.Settled icu) (hs : s ∈ db.statuses)
    (hfew : db.FewCandidates icu (indexedTerm icu term matchQuery)) :
    s.key ∈ db.pendingAccountCandidate icu (indexedTerm icu term matchQuery) ↔
      (db.index.accounts.queue.get (toLex s.authorKey)).isSome ∧
        PrefixMatch icu term (db.authorFields s) := by
  obtain ⟨account, haccount, hkey, hfields, -⟩ := exists_author hs
  rw [pendingAccountCandidate, take_eq_self hfew.pendingAccount, mem_statusesOf hs,
    prefixMatch_iff, hfields, ← hkey, List.mem_map]
  constructor
  · rintro ⟨account', haccount', hkey'⟩
    obtain ⟨hpending, hmatch⟩ := List.mem_filter.1 haccount'
    obtain ⟨haccount', hqueued⟩ :=
      (mem_pendingRows hdb.accounts db.account_rows db.accounts_nodup).1 hpending
    obtain rfl := Keyed.ext_of_nodup db.accounts_nodup haccount' haccount hkey'
    exact ⟨hqueued, hmatch⟩
  · rintro ⟨hqueued, hmatch⟩
    exact ⟨account, List.mem_filter.2
      ⟨(mem_pendingRows hdb.accounts db.account_rows db.accounts_nodup).2 ⟨haccount, hqueued⟩,
        hmatch⟩, rfl⟩

/-- The window of the newest posts finds those whose segments stand in the post or with its
author. -/
theorem mem_recentIndexCandidate (hdb : db.Settled icu) (hs : s ∈ db.statuses)
    (hterm : matchExpression icu term = some matchQuery) :
    s.key ∈ db.recentIndexCandidate (indexedTerm icu term matchQuery) ↔
      s ∈ (newestFirst db.statuses).take recentIndexScanLimit ∧
        db.index.statuses.queue.get (toLex s.key) = none ∧
        db.index.accounts.queue.get (toLex s.authorKey) = none ∧
        ∀ query ∈ tokenize icu term,
          Begins icu (postFields s) query ∨ Begins icu (db.authorFields s) query := by
  obtain ⟨account, haccount, hkey, hfields, -⟩ := exists_author hs
  have hne := (matchExpression_eq_some icu hterm).2
  have hstatus := isPendingStatus_iff hdb hs
  have haccount' := isPendingAccount_iff hdb haccount
  rw [hkey] at haccount'
  -- the texts of a row that is not queued, nor its author
  have htexts : db.index.statuses.queue.get (toLex s.key) = none →
      db.index.accounts.queue.get (toLex s.authorKey) = none →
      (((db.index.statuses.content.get (toLex s.key)).filter fun document =>
        document.textScopeVersion = statusTextScopeVersion).map StatusContent.tokenText).getD [] =
          indexText icu (postFields s) ∧
      (db.index.accounts.content.get (toLex s.authorKey)).getD [] =
        indexText icu (db.authorFields s) := by
    intro hqueue hqueue'
    rw [← hkey] at hqueue' ⊢
    rw [content_of_not_queued hdb.statuses db.status_rows db.statuses_nodup hs hqueue,
      content_of_not_queued hdb.accounts db.account_rows db.accounts_nodup haccount hqueue',
      hfields]
    exact ⟨rfl, rfl⟩
  rw [recentIndexCandidate, recentIndexRows, List.mem_map]
  constructor
  · rintro ⟨row, hrow, hkeys⟩
    obtain ⟨hrow, hmatch⟩ := List.mem_filter.1 hrow
    obtain ⟨s', hs', rfl⟩ := List.mem_map.1 hrow
    have hrows := mem_newestFirst.1 (List.mem_of_mem_take hs')
    obtain rfl := Keyed.ext_of_nodup db.statuses_nodup hrows hs hkeys
    simp only [Bool.and_eq_true, Bool.not_eq_true', hstatus, haccount', Option.isSome_eq_false_iff,
      Option.isNone_iff_eq_none] at hmatch
    obtain ⟨⟨hmatch, hqueue⟩, hqueue'⟩ := hmatch
    obtain ⟨htext, htext'⟩ := htexts hqueue hqueue'
    rw [htext, htext'] at hmatch
    exact ⟨hs', hqueue, hqueue', (matchesIndexText_indexText icu hne _ _).1 hmatch⟩
  · rintro ⟨hnewest, hqueue, hqueue', hbegins⟩
    refine ⟨_, List.mem_filter.2 ⟨List.mem_map.2 ⟨s, hnewest, rfl⟩, ?_⟩, rfl⟩
    obtain ⟨htext, htext'⟩ := htexts hqueue hqueue'
    simp only [htext, htext', hstatus, haccount', hqueue, hqueue', Option.isSome_none,
      Bool.not_false, Bool.and_true]
    exact (matchesIndexText_indexText icu hne _ _).2 hbegins

/-- What is found without regard to contiguity. -/
theorem mem_candidateSources (hdb : db.Settled icu) (hs : s ∈ db.statuses)
    (hterm : matchExpression icu term = some matchQuery)
    (hfew : db.FewCandidates icu (indexedTerm icu term matchQuery)) :
    s.key ∈ db.candidateSources icu (indexedTerm icu term matchQuery) ↔
      PrefixMatch icu term (postFields s) ∨ PrefixMatch icu term (db.authorFields s) ∨
        db.Scattered icu term s := by
  rw [candidateSources, hdb.statuses.completed, hdb.accounts.completed, if_pos rfl, if_pos rfl,
    List.append_nil, List.append_nil]
  simp only [List.mem_append, mem_indexedStatusCandidate hdb hs hterm hfew,
    mem_indexedAccountCandidate hdb hs hterm hfew, mem_pendingStatusCandidate hdb hs,
    mem_pendingAccountCandidate hdb hs hfew, mem_recentIndexCandidate hdb hs hterm]
  constructor
  · rintro ((((⟨-, h⟩ | ⟨-, h⟩) | ⟨-, h⟩) | ⟨-, h⟩) | ⟨hnewest, hqueue, hqueue', hbegins⟩)
    · exact .inl h
    · exact .inr (.inl h)
    · exact .inl h
    · exact .inr (.inl h)
    · by_cases hpost : PrefixMatch icu term (postFields s)
      · exact .inl hpost
      · by_cases hauthor : PrefixMatch icu term (db.authorFields s)
        · exact .inr (.inl hauthor)
        · exact .inr (.inr ⟨hnewest, hqueue, hqueue', (matchExpression_eq_some icu hterm).2,
            hbegins, hpost, hauthor⟩)
  · rintro (h | h | h)
    · cases hqueue : db.index.statuses.queue.get (toLex s.key) with
      | none => exact .inl (.inl (.inl (.inl ⟨rfl, h⟩)))
      | some _ => exact .inl (.inl (.inr ⟨rfl, h⟩))
    · cases hqueue : db.index.accounts.queue.get (toLex s.authorKey) with
      | none => exact .inl (.inl (.inl (.inr ⟨rfl, h⟩)))
      | some _ => exact .inl (.inr ⟨rfl, h⟩)
    · exact .inr ⟨h.newest, h.indexed, h.authorIndexed, h.begins⟩

theorem containsTerm_iff {fields : List Str} :
    containsTerm icu term fields = true ↔ WrittenOut icu term fields := by
  simp [containsTerm, WrittenOut, Str.contains]

theorem containsFields_eq (hs : s ∈ db.statuses) :
    db.containsFields s = [Kq.htmlToPlainText s.content, s.spoilerText] ++ db.authorFields s := by
  obtain ⟨account, -, -, hfields, hlookup⟩ := exists_author hs
  rw [containsFields, hfields, hlookup]
  rfl

theorem mem_searchCandidate (hdb : db.Settled icu) (hs : s ∈ db.statuses)
    (hterm : matchExpression icu term = some matchQuery)
    (hfew : db.FewCandidates icu (indexedTerm icu term matchQuery)) :
    s.key ∈ db.searchCandidate icu (indexedTerm icu term matchQuery) ↔
      (PrefixMatch icu term (postFields s) ∨ PrefixMatch icu term (db.authorFields s) ∨
        db.Scattered icu term s) ∧ db.Contiguous icu term s := by
  have hcontiguous : (!requiresContiguousMatch icu term ||
      containsTerm icu term (db.containsFields s)) = true ↔ db.Contiguous icu term s := by
    rw [containsFields_eq hs, Bool.or_eq_true, containsTerm_iff, Bool.not_eq_true', Contiguous,
      requiresContiguousMatch, decide_eq_false_iff_not]
    exact imp_iff_not_or.symm
  have hall := hfew.search
  rw [searchCandidate, List.length_map] at hall
  rw [searchCandidate, take_eq_self hall, ← mem_candidateSources hdb hs hterm hfew, ← hcontiguous,
    List.mem_map]
  constructor
  · rintro ⟨s', hs', hkey⟩
    obtain ⟨hs', hmatch⟩ := List.mem_filter.1 (mem_newestFirst.1 hs')
    obtain rfl := Keyed.ext_of_nodup db.statuses_nodup hs' hs hkey
    simpa [indexedTerm] using hmatch
  · intro hmatch
    refine ⟨s, mem_newestFirst.2 (List.mem_filter.2 ⟨hs, ?_⟩), rfl⟩
    simpa [indexedTerm] using hmatch

end Candidates

/-! ### Terms that are passed over -/

section Terms

variable {icu : Segmenter} {terms : List Str}

theorem candidateTerms_eq_none {seen : List (List Str)}
    (h : ∃ term ∈ terms, matchExpression icu term = none) :
    candidateTerms icu seen terms = none := by
  induction terms generalizing seen with
  | nil => simp at h
  | cons term terms ih =>
    cases hterm : matchExpression icu term with
    | none => simp only [candidateTerms, hterm]
    | some matchQuery =>
      have hrest : ∃ term ∈ terms, matchExpression icu term = none := by
        obtain ⟨term', hmem, hnone⟩ := h
        rcases List.mem_cons.1 hmem with rfl | hmem
        · rw [hnone] at hterm
          cases hterm
        · exact ⟨term', hmem, hnone⟩
      simp only [candidateTerms, hterm, ih hrest, Option.map_none, ite_self]

/-- The loop keeps the first term of each expression that has not been seen. -/
theorem candidateTerms_eq_some {seen : List (List Str)}
    (h : ∀ term ∈ terms, matchExpression icu term ≠ none) :
    candidateTerms icu seen terms =
      some ((Keyed.firsts (matchExpression icu)
        (terms.filter fun term => ∀ matchQuery ∈ seen, matchExpression icu term ≠ some matchQuery)
          ).map fun term => indexedTerm icu term ((matchExpression icu term).getD [])) := by
  induction terms generalizing seen with
  | nil => rfl
  | cons term terms ih =>
    have hrest := fun term' hmem => h term' (List.mem_cons_of_mem _ hmem)
    obtain ⟨matchQuery, hterm⟩ := Option.ne_none_iff_exists'.1 (h term List.mem_cons_self)
    by_cases hseen : matchQuery ∈ seen
    · rw [List.filter_cons_of_neg (by simpa [hterm] using hseen), ← ih hrest]
      simp only [candidateTerms, hterm, if_pos hseen]
    · have hkept : ∀ matchQuery ∈ seen, matchExpression icu term ≠ some matchQuery := by
        intro other hother heq
        rw [hterm] at heq
        exact hseen (Option.some.inj heq ▸ hother)
      rw [List.filter_cons_of_pos (by simpa using hkept), Keyed.firsts_cons, List.filter_filter,
        List.map_cons, hterm]
      simp only [candidateTerms, hterm, if_neg hseen, ih hrest, Option.map_some, Option.getD_some,
        List.mem_cons, forall_eq_or_imp, Bool.decide_and, ne_eq]

/-- Terms with one expression have the same segments. -/
theorem mem_tokenize_congr {term term' : Str}
    (h : matchExpression icu term = matchExpression icu term') {query : Str} :
    query ∈ tokenize icu term ↔ query ∈ tokenize icu term' := by
  cases hterm : matchExpression icu term with
  | none =>
    rw [(matchExpression_eq_none icu).1 hterm, (matchExpression_eq_none icu).1 (h ▸ hterm)]
  | some matchQuery =>
    have htokens := (matchExpression_eq_some icu hterm).1
    have htokens' := (matchExpression_eq_some icu (h.symm.trans hterm)).1
    have hfirsts : Keyed.firsts id (tokenize icu term) = Keyed.firsts id (tokenize icu term') :=
      List.map_injective_iff.2 encodeFtsToken_injective (htokens.symm.trans htokens')
    rw [← Keyed.mem_firsts_id, hfirsts, Keyed.mem_firsts_id]

theorem prefixMatch_congr {term term' : Str} {fields : List Str}
    (h : matchExpression icu term = matchExpression icu term')
    (hmatch : PrefixMatch icu term fields) : PrefixMatch icu term' fields := by
  refine ⟨fun hnil => hmatch.1 (List.eq_nil_iff_forall_not_mem.2 fun query hquery => ?_),
    fun query hquery => hmatch.2 query ((mem_tokenize_congr h).2 hquery)⟩
  have hquery' := (mem_tokenize_congr h).1 hquery
  rw [hnil] at hquery'
  exact List.not_mem_nil hquery'

end Terms

/-! ### The rows of a search -/

section Rows

variable {G : Type} {icu : Segmenter} {db : SearchDb G} {s : DbStatus}

theorem isAfter_some {cursor : DbStatus} :
    isAfter (some cursor) s = true ↔ orderKey s < orderKey cursor := by
  simp only [isAfter, orderKey, Prod.Lex.toLex_lt_toLex, Bool.or_eq_true, Bool.and_eq_true,
    decide_eq_true_eq]

theorem isAfter_iff {startAfter : Option EntityKey} :
    isAfter (db.resolveCursor startAfter) s = true ↔ db.After startAfter s := by
  cases hcursor : db.resolveCursor startAfter with
  | none =>
    refine iff_of_true rfl fun cursor hmem heq => ?_
    rw [heq] at hcursor
    have hlookup : db.status cursor.key = some cursor :=
      (Keyed.lookup_eq_some db.statuses_nodup).2 ⟨hmem, rfl⟩
    rw [resolveCursor, Option.bind_some, hlookup] at hcursor
    cases hcursor
  | some cursor =>
    rw [isAfter_some]
    obtain ⟨key, rfl, hlookup⟩ := Option.bind_eq_some_iff.1 hcursor
    obtain ⟨hmem, rfl⟩ := (Keyed.lookup_eq_some db.statuses_nodup).1 hlookup
    constructor
    · intro hlt other hother heq
      rwa [← Keyed.ext_of_nodup db.statuses_nodup hmem hother (Option.some.inj heq)]
    · exact fun hafter => hafter cursor hmem rfl

/-- All pages together are the rows. -/
theorem eq_of_pages {cursor : Option DbStatus} {rows rows' : List DbStatus}
    (h : ∀ limit offset, page cursor limit offset rows = page cursor limit offset rows') :
    rows = rows' := by
  have hpage := h (max rows.length rows'.length : ℕ) 0
  simp only [page, Int.toNat_natCast, Int.toNat_zero, ite_self, List.drop_zero] at hpage
  rwa [List.take_of_length_le (le_max_left _ _), List.take_of_length_le (le_max_right _ _)] at hpage

end Rows

/-! ### What a search returns -/

section Search

variable {G : Type} {icu : Segmenter} {db : SearchDb G} {query : Str} {s : DbStatus}

/-- A term without segments is not found. -/
theorem not_found_of_tokenless
    (h : ∃ term ∈ query.splitWhitespace, matchExpression icu term = none) :
    ¬ db.Found icu query s := by
  obtain ⟨term, hterm, hnone⟩ := h
  obtain ⟨term', hterm', heq⟩ : ∃ term' ∈ searchedTerms icu query,
      matchExpression icu term' = matchExpression icu term := Keyed.exists_mem_firsts hterm
  have hnil := (matchExpression_eq_none icu).1 (heq.trans hnone)
  intro hfound
  rcases (hfound term' hterm').1 with h | h | h
  · exact h.1 hnil
  · exact h.1 hnil
  · exact h.nonempty hnil

theorem found_of_finds (h : ∀ term ∈ query.splitWhitespace, db.Finds icu term s) :
    db.Found icu query s := by
  intro term hterm
  have hfinds := h term (Keyed.mem_of_mem_firsts hterm)
  exact ⟨hfinds.begins.elim .inl fun h => .inr (.inl h), hfinds.contiguous⟩

/-- What the searched terms come upon is a stray, or all terms find it. -/
theorem stray_iff (hfound : db.Found icu query s) :
    db.Stray icu query s ↔ ¬ ∀ term ∈ query.splitWhitespace, db.Finds icu term s := by
  constructor
  · intro hstray hfinds
    rcases hstray.strays with ⟨term, hterm, hscattered⟩ | ⟨term, hterm, hcontiguous⟩
    · exact (hfinds term (Keyed.mem_of_mem_firsts hterm)).begins.elim hscattered.split.1
        hscattered.split.2
    · exact hcontiguous (hfinds term hterm).contiguous
  · intro hnot
    by_contra hstray
    refine hnot fun term hterm => ⟨?_, by_contra fun hcontiguous =>
      hstray ⟨hfound, .inr ⟨term, hterm, hcontiguous⟩⟩⟩
    -- the term is matched as the first term with its expression is
    obtain ⟨term', hterm', heq⟩ : ∃ term' ∈ searchedTerms icu query,
        matchExpression icu term' = matchExpression icu term := Keyed.exists_mem_firsts hterm
    rcases (hfound term' hterm').1 with h | h | h
    · exact .inl (prefixMatch_congr heq h)
    · exact .inr (prefixMatch_congr heq h)
    · exact absurd ⟨hfound, .inl ⟨term', hterm', h⟩⟩ hstray

variable {filter : StatusDisplayFilter} {startAfter : Option EntityKey}

/-- A search within its budgets asks for the rows that every term comes upon. -/
theorem queryStatuses_candidates (hbudget : WithinBudget query)
    (hne : query.splitWhitespace ≠ []) (limit offset : ℤ) :
    db.queryStatuses icu ⟨query, limit, offset, filter, startAfter⟩ =
      match candidateTerms icu [] query.splitWhitespace with
      | none => .ok []
      | some candidates => .ok (page (db.resolveCursor startAfter) limit offset (newestFirst
          (db.statuses.filter fun s => ((candidates.insertionSort fun a b =>
            db.cappedCandidateCount a ≤ db.cappedCandidateCount b).all fun term =>
              (db.searchCandidate icu term).contains s.key)
            && db.displayFilter filter s && isAfter (db.resolveCursor startAfter) s))) := by
  have hterms : ¬ query.splitWhitespace.isEmpty = true := by simpa using hne
  rw [queryStatuses, if_neg hbudget.1.not_gt, if_neg hterms]
  exact (if_neg hterms).trans (if_neg hbudget.2.not_gt)

/-- A search within its budgets returns what its searched terms come upon. -/
theorem queryStatuses_eq (hdb : db.Settled icu) (hfew : db.FewCandidatesPerTerm icu query)
    (hbudget : WithinBudget query) (hne : query.splitWhitespace ≠ []) :
    ∃ rows : List DbStatus, rows.Pairwise (fun a b => orderKey b < orderKey a) ∧
      (∀ s, s ∈ rows ↔ db.Shown filter startAfter s ∧ db.Found icu query s) ∧
      ∀ limit offset, db.queryStatuses icu ⟨query, limit, offset, filter, startAfter⟩ =
        .ok (page (db.resolveCursor startAfter) limit offset rows) := by
  have hquery := @queryStatuses_candidates G icu db query filter startAfter hbudget hne
  by_cases hnone : ∃ term ∈ query.splitWhitespace, matchExpression icu term = none
  · refine ⟨[], List.Pairwise.nil, fun s => iff_of_false List.not_mem_nil fun h =>
      not_found_of_tokenless hnone h.2, fun limit offset => ?_⟩
    rw [hquery, candidateTerms_eq_none hnone, page, List.drop_nil, List.take_nil]
  · push Not at hnone
    simp only [candidateTerms_eq_some hnone] at hquery
    refine ⟨_, pairwise_newestFirst (db.statuses_nodup.sublist (List.filter_sublist.map _)),
      fun s => ?_, hquery⟩
    rw [mem_newestFirst, List.mem_filter]
    simp only [Bool.and_eq_true, isAfter_iff, List.all_eq_true, List.mem_insertionSort,
      List.contains_iff_mem, List.forall_mem_map]
    have hterms : s ∈ db.statuses → ∀ term ∈ searchedTerms icu query,
        (s.key ∈ db.searchCandidate icu
          (indexedTerm icu term ((matchExpression icu term).getD [])) ↔
        (PrefixMatch icu term (postFields s) ∨ PrefixMatch icu term (db.authorFields s) ∨
          db.Scattered icu term s) ∧ db.Contiguous icu term s) := by
      intro hs term hterm
      have hmem := Keyed.mem_of_mem_firsts hterm
      obtain ⟨matchQuery, hmatch⟩ := Option.ne_none_iff_exists'.1 (hnone term hmem)
      rw [hmatch, Option.getD_some]
      exact mem_searchCandidate hdb hs hmatch (hfew term hmem matchQuery hmatch)
    constructor
    · rintro ⟨hs, ⟨hcandidates, hfilter⟩, hafter⟩
      refine ⟨⟨hs, hfilter, hafter⟩, fun term hterm => (hterms hs term hterm).1 ?_⟩
      exact hcandidates term (by simpa [searchedTerms] using hterm)
    · rintro ⟨hshown, hfound⟩
      refine ⟨hshown.row, ⟨fun term hterm => ?_, hshown.filter⟩, hshown.after⟩
      have hterm' : term ∈ searchedTerms icu query := by simpa [searchedTerms] using hterm
      exact (hterms hshown.row term hterm').2 (hfound term hterm')

/-- Over indexes that have settled, a search returns what its terms find, exactly if it is within
its budgets, has a term where there is a post to show, and no post to show is a stray. -/
theorem exact_iff (hdb : db.Settled icu) (hfew : db.FewCandidatesPerTerm icu query) :
    db.Exact icu query filter startAfter ↔
      WithinBudget query ∧
        (query.splitWhitespace = [] → ∀ s, ¬ db.Shown filter startAfter s) ∧
        ∀ s, db.Shown filter startAfter s → ¬ db.Stray icu query s := by
  constructor
  · rintro ⟨rows, -, hrows, hpages⟩
    have hlen : query.len ≤ maxQueryBytes := by
      by_contra hlong
      have hpage := hpages 0 0
      rw [queryStatuses, if_pos (by simpa using hlong)] at hpage
      cases hpage
    by_cases hnil : query.splitWhitespace = []
    · have hempty : rows = [] := by
        refine (@eq_of_pages (db.resolveCursor startAfter) [] rows fun limit offset => ?_).symm
        have hpage := hpages limit offset
        rw [queryStatuses, if_neg hlen.not_gt, hnil, if_pos List.isEmpty_nil] at hpage
        rw [← Except.ok.inj hpage, page, List.drop_nil, List.take_nil]
      have hnone : ∀ s, ¬ db.Shown filter startAfter s := by
        intro s hshown
        have hmem := (hrows s).2 ⟨hshown, by simp [hnil]⟩
        rw [hempty] at hmem
        exact List.not_mem_nil hmem
      exact ⟨⟨hlen, by simp [hnil]⟩, fun _ => hnone, fun s hshown => absurd hshown (hnone s)⟩
    · have hterms : query.splitWhitespace.length ≤ maxQueryTerms := by
        by_contra hmany
        have hne : ¬ query.splitWhitespace.isEmpty = true := by simpa using hnil
        have herror : db.queryStatuses icu ⟨query, 0, 0, filter, startAfter⟩ =
            .error "search query has too many terms" := by
          rw [queryStatuses, if_neg hlen.not_gt, if_neg hne]
          exact (if_neg hne).trans (if_pos (not_le.1 hmany))
        rw [hpages] at herror
        cases herror
      obtain ⟨rows', -, hrows', hpages'⟩ := @queryStatuses_eq _ _ _ _ filter startAfter hdb hfew
        ⟨hlen, hterms⟩ hnil
      have heq : rows = rows' := eq_of_pages fun limit offset =>
        Except.ok.inj ((hpages limit offset).symm.trans (hpages' limit offset))
      refine ⟨⟨hlen, hterms⟩, fun h => absurd h hnil, fun s hshown hstray => ?_⟩
      have hmem := (hrows' s).2 ⟨hshown, hstray.found⟩
      rw [← heq] at hmem
      exact (stray_iff hstray.found).1 hstray ((hrows s).1 hmem).2
  · rintro ⟨hbudget, hblank, hstrays⟩
    by_cases hnil : query.splitWhitespace = []
    · refine ⟨[], List.Pairwise.nil, fun s => iff_of_false List.not_mem_nil fun h =>
        hblank hnil s h.1, fun limit offset => ?_⟩
      rw [queryStatuses, if_neg hbudget.1.not_gt, hnil, if_pos List.isEmpty_nil, page,
        List.drop_nil, List.take_nil]
    · obtain ⟨rows, hsorted, hrows, hpages⟩ := @queryStatuses_eq _ _ _ _ filter startAfter hdb hfew
        hbudget hnil
      refine ⟨rows, hsorted, fun s => (hrows s).trans (and_congr_right fun hshown => ?_), hpages⟩
      constructor
      · intro hfound
        by_contra hnot
        exact hstrays s hshown ((stray_iff hfound).2 hnot)
      · exact found_of_finds

end Search

/-! ### A sample -/

section Sample

theorem lookup_eq_get {R F : Type} {key : R → EntityKey} {fields : R → F} {rows : List R}
    (hnodup : ((rows.map fun r => (toLex (key r), fields r)).map Prod.fst).Nodup)
    (k : EntityKey) :
    (OrderedMap.mk (rows.map fun r => (toLex (key r), fields r)) hnodup : OrderedMap Key F).get
      (toLex k) = (Keyed.lookup key rows k).map fields := by
  rw [OrderedMap.get, Keyed.lookup, List.find?_map, Option.map_map]
  rfl

theorem nodup_fst_of_key {R F : Type} {key : R → EntityKey} (fields : R → F) {rows : List R}
    (hnodup : (rows.map key).Nodup) :
    ((rows.map fun r => (toLex (key r), fields r)).map Prod.fst).Nodup := by
  rw [List.map_map]
  simpa [Function.comp_def] using List.Nodup.map toLex.injective hnodup

/-- An index of the rows in which nothing is queued. -/
def indexOf {F D R : Type} (schema : Schema F D) (indexText : List Str → Str) (key : R → EntityKey)
    (fields : R → F) (rows : List R) (hnodup : (rows.map key).Nodup) : Index F D ℕ :=
  let table : OrderedMap Key F :=
    ⟨rows.map fun r => (toLex (key r), fields r), nodup_fst_of_key fields hnodup⟩
  { rows := table
    cacheCounter := rows.length
    queue := .empty
    content := table.map fun fields => schema.content (indexText (schema.fields fields))
    postings := table.map fun fields => indexText (schema.fields fields)
    backfill := ⟨none, rows.length, rows.length, true⟩ }

theorem indexOf_settled {F D R : Type} {schema : Schema F D} {icu : Segmenter} {key : R → EntityKey}
    {fields : R → F} {rows : List R} (hnodup : (rows.map key).Nodup) {limit : ℕ}
    (hposting : ∀ text, schema.posting (schema.content text) = some text) :
    (indexOf schema (indexText icu) key fields rows hnodup).Settled schema (indexText icu)
      limit where
  covered :=
    { deleted := fun h => by simp [indexOf] at h
      covered := fun _ => .inl (OrderedMap.get_map _ _ _)
      posted := fun k => by
        simp only [indexOf, OrderedMap.get_map, Option.bind_map, Function.comp_def, hposting]
        exact (Option.map_eq_bind ..).trans rfl }
  completed := rfl
  queued := Nat.zero_le _

/-- The posts and their authors, indexed. -/
def indexed (icu : Segmenter) (statuses : List DbStatus) (accounts : List DbAccount)
    (hstatuses : (statuses.map DbStatus.key).Nodup) (haccounts : (accounts.map DbAccount.key).Nodup)
    (hauthor : ∀ s ∈ statuses, ∃ a ∈ accounts, a.key = s.authorKey) : SearchDb ℕ where
  statuses := statuses
  accounts := accounts
  index :=
    { statuses := indexOf statusSchema (indexText icu) DbStatus.key statusFields statuses hstatuses
      accounts :=
        indexOf accountSchema (indexText icu) DbAccount.key accountFields accounts haccounts
      drawn := 0 }
  statuses_nodup := hstatuses
  accounts_nodup := haccounts
  status_account := hauthor
  status_rows := lookup_eq_get _
  account_rows := lookup_eq_get _

theorem indexed_settled {icu : Segmenter} {statuses : List DbStatus} {accounts : List DbAccount}
    {hstatuses : (statuses.map DbStatus.key).Nodup} {haccounts : (accounts.map DbAccount.key).Nodup}
    {hauthor : ∀ s ∈ statuses, ∃ a ∈ accounts, a.key = s.authorKey} :
    (indexed icu statuses accounts hstatuses haccounts hauthor).Settled icu :=
  ⟨indexOf_settled hstatuses fun _ => rfl, indexOf_settled haccounts fun _ => rfl⟩

/-- Words of letters and digits, and every other character by itself. -/
def asciiSegments : Str → List Str
  | [] => []
  | c :: text =>
    match asciiSegments text with
    | (d :: word) :: segments =>
      if c.isAlphanum && d.isAlphanum then (c :: d :: word) :: segments
      else [c] :: (d :: word) :: segments
    | segments => [c] :: segments

/-- What ICU does with ASCII texts of words, spaces and hyphens. -/
def asciiSegmenter : Segmenter where
  normalizeAndFold := Str.toAsciiLowercase
  segments := asciiSegments

def samplePost : DbStatus :=
  { DbStatus.plain "1" "example.com" "7" with content := "ha-ha".toList }

def sampleAuthor : DbAccount where
  id := "7"
  serverDomain := "example.com"
  username := "alice"
  acct := "alice"
  displayName := "Alice"
  note := []
  locked := false
  bot := false
  followersCount := 0
  followingCount := 0
  statusesCount := 1

def sampleDb : SearchDb ℕ :=
  indexed asciiSegmenter [samplePost] [sampleAuthor] (by decide) (by decide) (by decide)

instance {G : Type} (icu : Segmenter) (db : SearchDb G) (term : IndexedTerm) :
    Decidable (db.FewCandidates icu term) :=
  decidable_of_iff
    ((db.indexedStatusCandidate term).length < candidateCountCap ∧
      (db.indexedAccountKeys term).length < candidateCountCap ∧
      (db.indexedAccountCandidate term).length < candidateCountCap ∧
      (db.pendingAccountCandidate icu term).length < candidateCountCap ∧
      (db.searchCandidate icu term).length < candidateCountCap)
    ⟨fun ⟨h, h', h'', h''', h''''⟩ => ⟨h, h', h'', h''', h''''⟩,
      fun ⟨h, h', h'', h''', h''''⟩ => ⟨h, h', h'', h''', h''''⟩⟩

instance {G : Type} (icu : Segmenter) (db : SearchDb G) (query : Str) :
    Decidable (db.FewCandidatesPerTerm icu query) :=
  decidable_of_iff (∀ term ∈ query.splitWhitespace, ∀ matchQuery ∈ matchExpression icu term,
    db.FewCandidates icu (indexedTerm icu term matchQuery)) Iff.rfl

/-- The second term is passed over, as its segments are those of the first. -/
theorem not_exact : sampleDb.Settled asciiSegmenter ∧
    sampleDb.FewCandidatesPerTerm asciiSegmenter "ha-ha ha-ha-ha" ∧
    ¬ sampleDb.Exact asciiSegmenter "ha-ha ha-ha-ha" ⟨false, false, false⟩ none := by
  refine ⟨indexed_settled, by decide +kernel, ?_⟩
  rintro ⟨rows, -, hrows, hpages⟩
  have hquery : sampleDb.queryStatuses asciiSegmenter
      ⟨"ha-ha ha-ha-ha", 1, 0, ⟨false, false, false⟩, none⟩ = .ok [samplePost] := by
    decide +kernel
  rw [hpages] at hquery
  have hmem : samplePost ∈ rows := List.mem_of_mem_drop (List.mem_of_mem_take (by
    rw [show (rows.drop _).take _ = [samplePost] from Except.ok.inj hquery]
    exact List.mem_singleton_self _))
  have hfinds := ((hrows samplePost).1 hmem).2 "ha-ha-ha" (by decide +kernel)
  obtain ⟨-, hwritten⟩ := hfinds.contiguous (by decide +kernel)
  revert hwritten
  decide +kernel

theorem exact_iff_sample : sampleDb.Settled asciiSegmenter ∧
    sampleDb.FewCandidatesPerTerm asciiSegmenter "alice ha-ha" ∧
    (sampleDb.Exact asciiSegmenter "alice ha-ha" ⟨false, false, false⟩ none ↔
      WithinBudget "alice ha-ha" ∧
        (Str.splitWhitespace "alice ha-ha" = [] →
          ∀ s, ¬ sampleDb.Shown ⟨false, false, false⟩ none s) ∧
        ∀ s, sampleDb.Shown ⟨false, false, false⟩ none s →
          ¬ sampleDb.Stray asciiSegmenter "alice ha-ha" s) :=
  have hfew : sampleDb.FewCandidatesPerTerm asciiSegmenter "alice ha-ha" := by decide +kernel
  ⟨indexed_settled, hfew, exact_iff indexed_settled hfew⟩

end Sample

end SearchDb

end Awayuki.Search
