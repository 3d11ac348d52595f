import Awayuki.Hydration.Unified
import Awayuki.Library.Ranked

/-!
# Pages of a unified timeline

The query of a page looks at the latest entries only, eight for every row up to the end of the
page, and at the entries that the preferred account has of their posts.

* `IsTimeline`: the list that pages are to be slices of;
* `Seen`: an entry that the query of a page has;
* `queryAggregateStatusRefs_eq`: a page is a slice of the list of the entries seen;
* `pagesExactly_iff`: exactly when all pages are slices of the timeline;
* `settled_iff_of_addressed`: that is so if the posts of a page have entries before the cut, when the
  rows of `status_identities` have addresses.
-/

namespace Awayuki.Hydration

def Candidate.ref (c : Candidate) : TimelineStatusRef where
  statusId := c.statusId
  serverDomain := c.serverDomain
  sourceAcct := some c.sourceAcct

namespace Db

variable {db : Db} {timelineType : Str} {acct : Option Str} {filter : AggregateFilter}
  {a b c : Candidate} {K n : ℕ}

/-! ### The timeline -/

variable {status : DbStatus} {y : Str} {limit offset : ℤ}

/-- `UNIQUE(timeline_type, server_domain, status_id, account_acct)` -/
def entryKey (e : TimelineEntry) : Str × EntityKey × Str :=
  (e.timelineType, e.statusKey, e.accountAcct)

section

variable (db timelineType acct filter)

/-- The entries of a timeline without the cut. -/
def allCandidates : List Candidate :=
  db.recentCandidates timelineType acct filter (db.entriesOf timelineType filter).length

/-- The posts of a timeline: each is represented by its best entry, and they are in the order of
their newest entries, then of the servers and ids of those that represent them. -/
structure IsTimeline (rows : List Candidate) : Prop where
  mem_iff : ∀ c, c ∈ rows ↔
    Ranked.Best Candidate.canonicalUri candidateOrder (db.allCandidates timelineType acct filter) c
  nodup : (rows.map Candidate.canonicalUri).Nodup
  pairwise : rows.Pairwise fun a b =>
    rowOrder (db.allCandidates timelineType acct filter) b <
      rowOrder (db.allCandidates timelineType acct filter) a

/-- The list of the entries seen, with all entries in the order. -/
def listing (candidates : List Candidate) : List Candidate :=
  Ranked.shown Candidate.canonicalUri candidateOrder
    (rowOrder (db.allCandidates timelineType acct filter)) candidates

def unifiedTimeline : List Candidate :=
  db.listing timelineType acct filter (db.allCandidates timelineType acct filter)

/-- The unique indexes of the tables. -/
structure Unique : Prop where
  entries : (db.timelineEntries.map entryKey).Nodup
  identities : (db.statusIdentities.map StatusIdentityRow.key).Nodup

end

/-! ### The entries -/

/-- A candidate is an entry with its status. -/
theorem mem_recentCandidates (h : c ∈ db.recentCandidates timelineType acct filter K) :
    ∃ entry status, (entry, status) ∈ db.entriesOf timelineType filter ∧
      c = { serverDomain := entry.serverDomain
            statusId := entry.statusId
            sourceAcct := entry.accountAcct
            accountRank := if some entry.accountAcct = acct then 1 else 0
            latestPosition := entry.positionAt
            canonicalUri := db.canonicalUri status } := by
  obtain ⟨⟨entry, status⟩, hentry, rfl⟩ := List.mem_map.1 h
  exact ⟨entry, status, (List.mem_insertionSort _).1 (List.mem_of_mem_take hentry), rfl⟩

theorem mem_entriesOf {entry : TimelineEntry}
    (h : (entry, status) ∈ db.entriesOf timelineType filter) :
    entry ∈ db.timelineEntries ∧ entry.timelineType = timelineType ∧
      db.status? entry.statusKey = some status := by
  obtain ⟨entry', hentry, hstatus⟩ := List.mem_filterMap.1 h
  obtain ⟨hmem, htype⟩ := List.mem_filter.1 hentry
  obtain ⟨status', hget, hadmitted⟩ := Option.bind_eq_some_iff.1 hstatus
  split_ifs at hadmitted
  cases hadmitted
  exact ⟨hmem, of_decide_eq_true htype, hget⟩

theorem recentCandidates_eq_take :
    db.recentCandidates timelineType acct filter K =
      (db.allCandidates timelineType acct filter).take K := by
  unfold allCandidates recentCandidates
  rw [List.take_of_length_le (List.length_insertionSort _ _).le, List.map_take]

theorem recent_subset :
    db.recentCandidates timelineType acct filter K ⊆ db.allCandidates timelineType acct filter := by
  rw [recentCandidates_eq_take]
  exact List.take_subset K _

/-- An entry has the address of its status. -/
theorem uri_of_mem (h : c ∈ db.allCandidates timelineType acct filter) :
    (db.status? (c.statusId, c.serverDomain)).map db.canonicalUri = some c.canonicalUri := by
  obtain ⟨entry, status, hentry, rfl⟩ := mem_recentCandidates h
  have hstatus : db.status? (entry.statusId, entry.serverDomain) = some status :=
    (mem_entriesOf hentry).2.2
  rw [hstatus, Option.map_some]

theorem uri_eq (ha : a ∈ db.allCandidates timelineType acct filter)
    (hb : b ∈ db.allCandidates timelineType acct filter) (hserver : a.serverDomain = b.serverDomain)
    (hid : a.statusId = b.statusId) : a.canonicalUri = b.canonicalUri := by
  have huri := uri_of_mem ha
  rw [hserver, hid, uri_of_mem hb] at huri
  exact (Option.some.inj huri).symm

/-- The ranks tell entries apart. -/
theorem candidateOrder_inj (ha : a ∈ db.allCandidates timelineType acct filter)
    (hb : b ∈ db.allCandidates timelineType acct filter)
    (h : candidateOrder a = candidateOrder b) : a = b := by
  obtain ⟨hrank, h⟩ := Prod.mk.inj (toLex.injective h)
  obtain ⟨hposition, h⟩ := Prod.mk.inj (toLex.injective h)
  obtain ⟨hserver, h⟩ := Prod.mk.inj (toLex.injective h)
  obtain ⟨hid, hacct⟩ := Prod.mk.inj (toLex.injective h)
  have huri := uri_eq ha hb hserver hid
  cases a
  cases b
  simp_all only

variable {candidates : List Candidate}

/-- Rows of the same place are of the same post. -/
theorem uri_of_rowOrder (ha : a ∈ db.allCandidates timelineType acct filter)
    (hb : b ∈ db.allCandidates timelineType acct filter)
    (h : rowOrder candidates a = rowOrder candidates b) : a.canonicalUri = b.canonicalUri := by
  obtain ⟨-, h⟩ := Prod.mk.inj (toLex.injective h)
  obtain ⟨hserver, hid⟩ := Prod.mk.inj (toLex.injective h)
  exact uri_eq ha hb hserver hid

theorem ref_inj (hunique : db.Unique) (ha : a ∈ db.allCandidates timelineType acct filter)
    (hb : b ∈ db.allCandidates timelineType acct filter) (h : a.ref = b.ref) : a = b := by
  obtain ⟨entry, status, hentry, rfl⟩ := mem_recentCandidates ha
  obtain ⟨entry', status', hentry', rfl⟩ := mem_recentCandidates hb
  obtain ⟨hid, hserver, hacct⟩ := TimelineStatusRef.mk.inj h
  obtain ⟨hmem, htype, hstatus⟩ := mem_entriesOf hentry
  obtain ⟨hmem', htype', hstatus'⟩ := mem_entriesOf hentry'
  have hsame := Keyed.ext_of_nodup hunique.entries hmem hmem' (Prod.ext (htype.trans htype'.symm)
    (Prod.ext (Prod.ext hid hserver) (Option.some.inj hacct)))
  subst hsame
  rw [Option.some.inj (hstatus.symm.trans hstatus')]

theorem isTimeline_unifiedTimeline :
    db.IsTimeline timelineType acct filter (db.unifiedTimeline timelineType acct filter) where
  mem_iff _ := Ranked.mem_shown fun _ ha _ hb h => candidateOrder_inj ha hb h
  nodup := Ranked.nodup_shown
  pairwise := Ranked.pairwise_shown fun _ ha _ hb h => uri_of_rowOrder ha hb h

/-- There is one such list. -/
theorem IsTimeline.eq {rows rows' : List Candidate}
    (h : db.IsTimeline timelineType acct filter rows)
    (h' : db.IsTimeline timelineType acct filter rows') : rows = rows' := by
  have hperm : rows.Perm rows' :=
    (List.perm_ext_iff_of_nodup h.nodup.of_map h'.nodup.of_map).2 fun c =>
      (h.mem_iff c).trans (h'.mem_iff c).symm
  exact Ranked.eq_of_subset h.pairwise h'.pairwise hperm.subset hperm.length_eq.ge

/-! ### What a page has seen -/

section

variable (db timelineType acct filter)

/-- The row of an entry's status in `status_identities` has the address of its post. -/
def Addressed (c : Candidate) : Prop :=
  ∃ identity ∈ db.statusIdentities,
    identity.key = (c.statusId, c.serverDomain) ∧ identity.canonicalUri = c.canonicalUri

/-- The entry is among the first, or is the preferred account's of a post that is. -/
def Seen (K : ℕ) (c : Candidate) : Prop :=
  c ∈ db.recentCandidates timelineType acct filter K ∨
    c ∈ db.allCandidates timelineType acct filter ∧ some c.sourceAcct = acct ∧ db.Addressed c ∧
      c.canonicalUri ∈
        (db.recentCandidates timelineType acct filter K).map Candidate.canonicalUri

def seenCandidates (K : ℕ) : List Candidate :=
  db.recentCandidates timelineType acct filter K ++
    db.preferredCandidates timelineType acct filter
      (db.recentCandidates timelineType acct filter K)

end

theorem canonicalUri_ne_nil (status : DbStatus) : db.canonicalUri status ≠ [] := by
  unfold canonicalUri
  dsimp only
  cases htruthy : Timeline.truthy ((Keyed.lookup StatusIdentityRow.key db.statusIdentities
      status.key).map StatusIdentityRow.canonicalUri) with
  | some uri =>
    obtain ⟨-, hne⟩ := Option.filter_eq_some_iff.1 htruthy
    exact of_decide_eq_true hne
  | none =>
    rw [Option.getD_none]
    split_ifs with huri
    · exact huri
    · exact List.append_ne_nil_of_left_ne_nil
        (List.append_ne_nil_of_right_ne_nil _ (List.cons_ne_nil _ _)) _

/-- The address of a row of `status_identities` is the status's, if it has one. -/
theorem canonicalUri_of_identity (hunique : db.Unique) {key : EntityKey}
    (hstatus : db.status? key = some status) {identity : StatusIdentityRow}
    (hidentity : identity ∈ db.statusIdentities) (hkey : identity.key = key)
    (huri : identity.canonicalUri ≠ []) : db.canonicalUri status = identity.canonicalUri := by
  have hlookup : Keyed.lookup StatusIdentityRow.key db.statusIdentities status.key =
      some identity :=
    (Keyed.lookup_eq_some hunique.identities).2
      ⟨hidentity, hkey.trans (Keyed.key_of_lookup hstatus).symm⟩
  have htruthy : Timeline.truthy (some identity.canonicalUri) = some identity.canonicalUri :=
    Option.filter_eq_some_iff.2 ⟨rfl, decide_eq_true huri⟩
  unfold canonicalUri
  dsimp only
  rw [hlookup, Option.map_some, htruthy, Option.getD_some]

theorem mem_preferred_iff (hunique : db.Unique) :
    c ∈ db.preferredCandidates timelineType acct filter
        (db.recentCandidates timelineType acct filter K) ↔
      c ∈ db.allCandidates timelineType acct filter ∧ some c.sourceAcct = acct ∧ db.Addressed c ∧
        c.canonicalUri ∈
          (db.recentCandidates timelineType acct filter K).map Candidate.canonicalUri := by
  constructor
  · intro h
    obtain ⟨wanted, hwanted, h⟩ := List.mem_flatMap.1 h
    obtain ⟨identity, hidentity, h⟩ := List.mem_flatMap.1 h
    obtain ⟨⟨entry, status⟩, hentry, rfl⟩ := List.mem_map.1 h
    obtain ⟨hmem, huri⟩ := List.mem_filter.1 hidentity
    have huri := of_decide_eq_true huri
    obtain ⟨hentry, hown⟩ := List.mem_filter.1 hentry
    obtain ⟨hkey, hacct⟩ := of_decide_eq_true hown
    have hwanted := Keyed.mem_firsts_id.1 hwanted
    have hstatus := (mem_entriesOf hentry).2.2
    have hne : identity.canonicalUri ≠ [] := by
      obtain ⟨recent, hrecent, hrecenturi⟩ := List.mem_map.1 hwanted
      obtain ⟨entry', status', -, hcandidate⟩ := mem_recentCandidates hrecent
      rw [huri, ← hrecenturi, hcandidate]
      exact canonicalUri_ne_nil status'
    refine ⟨?_, hacct, ⟨identity, hmem, hkey.symm, huri⟩, hwanted⟩
    have hcanonical := canonicalUri_of_identity hunique hstatus hmem hkey.symm hne
    rw [huri] at hcanonical
    unfold allCandidates recentCandidates
    rw [List.take_of_length_le (List.length_insertionSort _ _).le]
    refine List.mem_map.2 ⟨(entry, status), (List.mem_insertionSort _).2 hentry, ?_⟩
    dsimp only
    rw [if_pos hacct, hcanonical]
  · rintro ⟨hall, hacct, ⟨identity, hidentity, hkey, huri⟩, hwanted⟩
    obtain ⟨entry, status, hentry, rfl⟩ := mem_recentCandidates hall
    have hown : acct = some entry.accountAcct := hacct.symm
    subst hown
    have hmem := mem_preferredCandidates hwanted hidentity huri hentry hkey rfl
    rw [if_pos rfl]
    exact hmem

theorem mem_seenCandidates (hunique : db.Unique) :
    c ∈ db.seenCandidates timelineType acct filter K ↔ db.Seen timelineType acct filter K c := by
  rw [seenCandidates, List.mem_append, mem_preferred_iff hunique]
  rfl

theorem seen_subset (hunique : db.Unique) :
    db.seenCandidates timelineType acct filter K ⊆ db.allCandidates timelineType acct filter := by
  intro c hc
  rcases (mem_seenCandidates hunique).1 hc with hrecent | ⟨hall, -⟩
  · exact recent_subset hrecent
  · exact hall

/-- A larger cut sees more. -/
theorem Seen.mono {K' : ℕ} (hK : K ≤ K') (h : db.Seen timelineType acct filter K c) :
    db.Seen timelineType acct filter K' c := by
  have hsub : db.recentCandidates timelineType acct filter K ⊆
      db.recentCandidates timelineType acct filter K' := by
    rw [recentCandidates_eq_take, recentCandidates_eq_take]
    exact (List.take_sublist_take_left hK).subset
  rcases h with hrecent | ⟨hall, hacct, haddressed, hwanted⟩
  · exact .inl (hsub hrecent)
  · exact .inr ⟨hall, hacct, haddressed, List.map_subset _ hsub hwanted⟩

/-! ### The newest entry of a post -/

theorem foldl_max_le_iff {l : List Str} {x : Str} : l.foldl max x ≤ y ↔ x ≤ y ∧ ∀ z ∈ l, z ≤ y := by
  induction l generalizing x with
  | nil => exact (and_iff_left (List.forall_mem_nil _)).symm
  | cons z l ih => rw [List.foldl_cons, ih, max_le_iff, List.forall_mem_cons, and_assoc]

theorem le_canonicalLatestPosition (hc : c ∈ candidates) :
    c.latestPosition ≤ canonicalLatestPosition candidates c.canonicalUri := by
  refine (foldl_max_le_iff.1 le_rfl).2 _ (List.mem_map_of_mem (List.mem_filter.2 ⟨hc, ?_⟩))
  exact decide_eq_true rfl

theorem canonicalLatestPosition_le_iff {uri : Str} : canonicalLatestPosition candidates uri ≤ y ↔
      ∀ c ∈ candidates, c.canonicalUri = uri → c.latestPosition ≤ y := by
  unfold canonicalLatestPosition
  rw [foldl_max_le_iff]
  constructor
  · rintro ⟨-, h⟩ c hc huri
    exact h _ (List.mem_map_of_mem (List.mem_filter.2 ⟨hc, decide_eq_true huri⟩))
  · refine fun h => ⟨not_lt.1 (List.not_lt_nil y), fun z hz => ?_⟩
    obtain ⟨c, hc, rfl⟩ := List.mem_map.1 hz
    obtain ⟨hc, huri⟩ := List.mem_filter.1 hc
    exact h c hc (of_decide_eq_true huri)

/-- What entries are ordered by, latest first. -/
def entryPlace (c : Candidate) : Str ×ₗ Str ×ₗ Str ×ₗ Str :=
  toLex (c.latestPosition, toLex (c.serverDomain, toLex (c.statusId, c.sourceAcct)))

theorem pairwise_allCandidates :
    (db.allCandidates timelineType acct filter).Pairwise fun a b =>
      entryPlace b ≤ entryPlace a := by
  unfold allCandidates recentCandidates
  rw [List.pairwise_map]
  refine (Ranked.pairwise_rank (fun e : TimelineEntry × DbStatus => entryOrder e.1)
    (db.entriesOf timelineType filter)).sublist (List.take_sublist _ _) |>.imp fun {a b} h => ?_
  exact h

/-- An entry after the cut is not later than one before it. -/
theorem entryPlace_le (hrecent : a ∈ db.recentCandidates timelineType acct filter K)
    (hb : b ∈ db.allCandidates timelineType acct filter)
    (hnot : b ∉ db.recentCandidates timelineType acct filter K) : entryPlace b ≤ entryPlace a := by
  have hsplit : (db.allCandidates timelineType acct filter).Pairwise fun a b =>
    entryPlace b ≤ entryPlace a := pairwise_allCandidates
  rw [recentCandidates_eq_take] at hrecent hnot
  rw [← List.take_append_drop K (db.allCandidates timelineType acct filter)] at hb hsplit
  exact (List.pairwise_append.1 hsplit).2.2 a hrecent b ((List.mem_append.1 hb).resolve_left hnot)

/-- The newest entry of a post is seen, if any of its entries is. -/
theorem canonicalLatestPosition_seen (hunique : db.Unique)
    (hc : c ∈ db.seenCandidates timelineType acct filter K) :
    canonicalLatestPosition (db.seenCandidates timelineType acct filter K) c.canonicalUri =
      canonicalLatestPosition (db.allCandidates timelineType acct filter) c.canonicalUri := by
  have hseen := (mem_seenCandidates hunique).1 hc
  refine le_antisymm (canonicalLatestPosition_le_iff.2 fun d hd huri => ?_)
    (canonicalLatestPosition_le_iff.2 fun d hd huri => ?_)
  · exact huri ▸ le_canonicalLatestPosition (seen_subset hunique hd)
  · obtain ⟨recent, hrecent, hrecenturi⟩ :
        ∃ recent ∈ db.recentCandidates timelineType acct filter K,
          recent.canonicalUri = c.canonicalUri := by
      rcases hseen with hrecent | ⟨-, -, -, hwanted⟩
      · exact ⟨c, hrecent, rfl⟩
      · exact List.mem_map.1 hwanted
    have hle : recent.latestPosition ≤
        canonicalLatestPosition (db.seenCandidates timelineType acct filter K) c.canonicalUri :=
      hrecenturi ▸ le_canonicalLatestPosition (List.mem_append_left _ hrecent)
    by_cases hcut : d ∈ db.recentCandidates timelineType acct filter K
    · exact huri ▸ le_canonicalLatestPosition (List.mem_append_left _ hcut)
    · exact (Prod.Lex.monotone_fst _ _ (entryPlace_le hrecent hd hcut)).trans hle

/-! ### A page -/

/-- How many entries are looked at for the rows up to the end of a page. -/
def candidateLimit (rows : ℕ) : ℕ := min (max (rows * 8) 128) 8192

theorem candidateLimit_mono {m n : ℕ} (h : m ≤ n) : candidateLimit m ≤ candidateLimit n := by
  unfold candidateLimit
  omega

/-- A page is a slice of the list of what was seen. -/
theorem queryAggregateStatusRefs_eq (hunique : db.Unique) (hlimit : limit ≤ 500) :
    db.queryAggregateStatusRefs timelineType acct limit offset filter =
      (((db.listing timelineType acct filter (db.seenCandidates timelineType acct filter
        (candidateLimit (limit.toNat + offset.toNat)))).drop offset.toNat).take limit.toNat).map
          Candidate.ref := by
  have hpage : (min (max limit 0) 500).toNat = limit.toNat := by omega
  have hoffset : (max offset 0).toNat = offset.toNat := by omega
  unfold queryAggregateStatusRefs
  dsimp only
  rw [hpage, hoffset]
  change ((((Ranked.shown Candidate.canonicalUri candidateOrder
    (rowOrder (db.seenCandidates timelineType acct filter
      (candidateLimit (limit.toNat + offset.toNat))))
    (db.seenCandidates timelineType acct filter
      (candidateLimit (limit.toNat + offset.toNat)))).drop offset.toNat).take limit.toNat).map
        Candidate.ref) = _
  rw [Ranked.shown_congr (fun c hc => ?_) fun a ha b hb h =>
    uri_of_rowOrder (seen_subset hunique ha) (seen_subset hunique hb) h]
  · rfl
  · unfold rowOrder
    rw [canonicalLatestPosition_seen hunique hc]

/-! ### All pages -/

section

variable (db timelineType acct filter)

/-- Pages are slices of the timeline. -/
structure PagesExactly (rows : List Candidate) : Prop where
  timeline : db.IsTimeline timelineType acct filter rows
  page : ∀ limit offset : ℤ, limit ≤ 500 → limit.toNat + offset.toNat ≤ 1024 →
    db.queryAggregateStatusRefs timelineType acct limit offset filter =
      ((rows.drop offset.toNat).take limit.toNat).map Candidate.ref

/-- The entries that represent the first `n` posts are seen, and of no other post an entry is seen
that puts it before one of them. -/
structure Settled (n : ℕ) : Prop where
  seen : ∀ c ∈ (db.unifiedTimeline timelineType acct filter).take n,
    db.Seen timelineType acct filter (candidateLimit n) c
  last : ∀ b, Ranked.Best Candidate.canonicalUri candidateOrder
      (db.seenCandidates timelineType acct filter (candidateLimit n)) b →
    b ∉ (db.unifiedTimeline timelineType acct filter).take n →
      ∀ c ∈ (db.unifiedTimeline timelineType acct filter).take n,
        rowOrder (db.allCandidates timelineType acct filter) b <
          rowOrder (db.allCandidates timelineType acct filter) c

/-- What the page that ends with row `n` lists. -/
def pageListing (n : ℕ) : List Candidate :=
  db.listing timelineType acct filter (db.seenCandidates timelineType acct filter
    (candidateLimit n))

end

theorem mem_pageListing (hunique : db.Unique) :
    c ∈ db.pageListing timelineType acct filter n ↔
      Ranked.Best Candidate.canonicalUri candidateOrder
        (db.seenCandidates timelineType acct filter (candidateLimit n)) c :=
  Ranked.mem_shown fun _ ha _ hb h =>
    candidateOrder_inj (seen_subset hunique ha) (seen_subset hunique hb) h

theorem pairwise_pageListing (hunique : db.Unique) :
    (db.pageListing timelineType acct filter n).Pairwise fun a b =>
      rowOrder (db.allCandidates timelineType acct filter) b <
        rowOrder (db.allCandidates timelineType acct filter) a :=
  Ranked.pairwise_shown fun _ ha _ hb h =>
    uri_of_rowOrder (seen_subset hunique ha) (seen_subset hunique hb) h

theorem length_pageListing_le (hunique : db.Unique) :
    (db.pageListing timelineType acct filter n).length ≤
      (db.unifiedTimeline timelineType acct filter).length :=
  Ranked.length_shown_le (seen_subset hunique)

theorem rowOrder_lt_of_mem_take (hb : b ∈ db.unifiedTimeline timelineType acct filter)
    (hnot : b ∉ (db.unifiedTimeline timelineType acct filter).take n)
    (hc : c ∈ (db.unifiedTimeline timelineType acct filter).take n) :
    rowOrder (db.allCandidates timelineType acct filter) b <
      rowOrder (db.allCandidates timelineType acct filter) c := by
  have htimeline : db.IsTimeline timelineType acct filter
      (db.unifiedTimeline timelineType acct filter) := isTimeline_unifiedTimeline
  have hsplit := htimeline.pairwise
  rw [← List.take_append_drop n (db.unifiedTimeline timelineType acct filter)] at hb hsplit
  exact (List.pairwise_append.1 hsplit).2.2 c hc b ((List.mem_append.1 hb).resolve_left hnot)

/-- A row of the timeline is listed if it is seen. -/
theorem mem_pageListing_of_seen (hunique : db.Unique)
    (hc : c ∈ db.unifiedTimeline timelineType acct filter)
    (hseen : db.Seen timelineType acct filter (candidateLimit n) c) :
    c ∈ db.pageListing timelineType acct filter n :=
  Ranked.mem_shown_of_subset (fun _ ha _ hb h => candidateOrder_inj ha hb h) (seen_subset hunique)
    hc ((mem_seenCandidates hunique).2 hseen)

theorem seen_of_mem_pageListing (hunique : db.Unique)
    (hc : c ∈ db.pageListing timelineType acct filter n) :
    db.Seen timelineType acct filter (candidateLimit n) c :=
  (mem_seenCandidates hunique).1 (Ranked.best_of_mem_shown hc).mem

theorem settled_iff (hunique : db.Unique) :
    db.Settled timelineType acct filter n ↔
      (db.unifiedTimeline timelineType acct filter).take n =
        (db.pageListing timelineType acct filter n).take n := by
  rw [Ranked.take_eq_iff isTimeline_unifiedTimeline.pairwise (pairwise_pageListing hunique)
    (length_pageListing_le hunique)]
  constructor
  · rintro ⟨hseen, hlast⟩
    refine ⟨fun c hc => mem_pageListing_of_seen hunique (List.mem_of_mem_take hc) (hseen c hc),
      fun b hb => hlast b ((mem_pageListing hunique).1 hb)⟩
  · rintro ⟨hmem, hlast⟩
    exact ⟨fun c hc => seen_of_mem_pageListing hunique (hmem c hc),
      fun b hb => hlast b ((mem_pageListing hunique).2 hb)⟩

/-- A page is right if the posts up to its end are settled. -/
theorem page_of_settled (hunique : db.Unique) (hlimit : limit ≤ 500)
    (h : db.Settled timelineType acct filter (limit.toNat + offset.toNat)) :
    db.queryAggregateStatusRefs timelineType acct limit offset filter =
      (((db.unifiedTimeline timelineType acct filter).drop offset.toNat).take limit.toNat).map
        Candidate.ref := by
  have htake := congrArg (List.drop offset.toNat) ((settled_iff hunique).1 h)
  rw [List.drop_take, List.drop_take, Nat.add_sub_cancel] at htake
  rw [queryAggregateStatusRefs_eq hunique hlimit, htake]
  rfl

/-- Pages of one row settle the posts one after another. -/
theorem settled_of_pages (hunique : db.Unique)
    (h : ∀ m < n, db.queryAggregateStatusRefs timelineType acct 1 m filter =
      (((db.unifiedTimeline timelineType acct filter).drop m).take 1).map Candidate.ref) :
    db.Settled timelineType acct filter n := by
  induction n with
  | zero => exact (settled_iff hunique).2 rfl
  | succ n ih =>
    have hbefore := (settled_iff hunique).1 (ih fun m hm => h m (hm.trans (Nat.lt_succ_self n)))
    refine (settled_iff hunique).2 (Ranked.take_succ_eq isTimeline_unifiedTimeline.pairwise
      (pairwise_pageListing hunique) (length_pageListing_le hunique) (fun c hc => ?_) ?_)
    · -- what was seen for the rows before is still seen
      have hmem : c ∈ db.pageListing timelineType acct filter n :=
        List.mem_of_mem_take (hbefore ▸ hc)
      exact mem_pageListing_of_seen hunique (List.mem_of_mem_take hc)
        ((seen_of_mem_pageListing hunique hmem).mono (candidateLimit_mono (Nat.le_succ n)))
    · have hpage := h n (Nat.lt_succ_self n)
      rw [queryAggregateStatusRefs_eq hunique (by norm_num), Int.toNat_natCast, Int.toNat_one,
        Nat.add_comm 1 n, List.take_one, List.take_one, List.head?_drop, List.head?_drop,
        ← Option.toList_map, ← Option.toList_map] at hpage
      have hrefs : (db.pageListing timelineType acct filter (n + 1))[n]?.map Candidate.ref =
          (db.unifiedTimeline timelineType acct filter)[n]?.map Candidate.ref := by
        have hheads := congrArg List.head? hpage
        rwa [Option.head?_toList, Option.head?_toList] at hheads
      cases hlisted : (db.pageListing timelineType acct filter (n + 1))[n]? with
      | none =>
        rw [hlisted, Option.map_none] at hrefs
        exact Option.map_eq_none_iff.1 hrefs.symm
      | some b =>
        rw [hlisted, Option.map_some] at hrefs
        obtain ⟨c, hc, href⟩ := Option.map_eq_some_iff.1 hrefs.symm
        have hbest := Ranked.best_of_mem_shown (List.mem_of_getElem? hlisted)
        have hb := seen_subset hunique hbest.mem
        have hall := (Ranked.best_of_mem_shown (List.mem_of_getElem? hc)).mem
        rw [hc, ref_inj hunique hall hb href]

/-- **Every page is a slice of the timeline exactly when** for every end of a page the entries that
represent the posts before it are seen, and none that puts another post before one of them. -/
theorem pagesExactly_iff (hunique : db.Unique) :
    (∃ rows, db.PagesExactly timelineType acct filter rows) ↔
      ∀ n ≤ 1024, db.Settled timelineType acct filter n := by
  constructor
  · rintro ⟨rows, htimeline, hpage⟩ n hn
    rw [htimeline.eq isTimeline_unifiedTimeline] at hpage
    refine settled_of_pages hunique fun m hm => ?_
    have hsum : (1 : ℤ).toNat + (m : ℤ).toNat ≤ 1024 := by
      rw [Int.toNat_one, Int.toNat_natCast]
      omega
    have hslice := hpage 1 m (by norm_num) hsum
    rwa [Int.toNat_one, Int.toNat_natCast] at hslice
  · exact fun h => ⟨_, isTimeline_unifiedTimeline, fun limit offset hlimit hsum =>
      page_of_settled hunique hlimit (h _ hsum)⟩

/-! ### When entries have their addresses -/

/-- The best entry of a post is seen, if any of its entries is among the first. -/
theorem seen_of_best (haddressed : db.Addressed c)
    (hbest : Ranked.Best Candidate.canonicalUri candidateOrder
      (db.allCandidates timelineType acct filter) c)
    (hrecent : c.canonicalUri ∈
      (db.recentCandidates timelineType acct filter K).map Candidate.canonicalUri) :
    db.Seen timelineType acct filter K c := by
  by_cases hacct : some c.sourceAcct = acct
  · exact .inr ⟨hbest.mem, hacct, haddressed, hrecent⟩
  · left
    by_contra hcut
    obtain ⟨r, hr, huri⟩ := List.mem_map.1 hrecent
    -- the post has no entry of the preferred account, so its best entry is its newest one
    have hrank : c.accountRank = 0 := by
      obtain ⟨entry, status, -, rfl⟩ := mem_recentCandidates hbest.mem
      exact if_neg hacct
    have hle := Prod.Lex.toLex_le_toLex.1 (hbest.le r (recent_subset hr) huri)
    rw [hrank] at hle
    rcases hle with hlt | ⟨hzero, hle⟩
    · exact absurd hlt (Nat.not_lt_zero _)
    · have hplace : entryPlace r = entryPlace c :=
        le_antisymm hle (entryPlace_le hr hbest.mem hcut)
      have hsame : candidateOrder r = candidateOrder c :=
        congrArg₂ (fun rank place => toLex (rank, place)) (hzero.trans hrank.symm) hplace
      exact hcut (candidateOrder_inj (recent_subset hr) hbest.mem hsame ▸ hr)

/-- With their addresses, the entries that represent posts are seen if any are. -/
theorem settled_iff_of_addressed (hunique : db.Unique)
    (haddressed : ∀ c ∈ db.allCandidates timelineType acct filter, db.Addressed c) :
    db.Settled timelineType acct filter n ↔
      ∀ c ∈ (db.unifiedTimeline timelineType acct filter).take n,
        c.canonicalUri ∈ (db.recentCandidates timelineType acct filter
          (candidateLimit n)).map Candidate.canonicalUri := by
  have huri {c : Candidate} (h : db.Seen timelineType acct filter (candidateLimit n) c) :
      c.canonicalUri ∈ (db.recentCandidates timelineType acct filter
        (candidateLimit n)).map Candidate.canonicalUri := by
    rcases h with hrecent | ⟨-, -, -, hwanted⟩
    · exact List.mem_map_of_mem hrecent
    · exact hwanted
  have hseen {c : Candidate} (hbest : Ranked.Best Candidate.canonicalUri candidateOrder
      (db.allCandidates timelineType acct filter) c) := seen_of_best (K := candidateLimit n)
        (haddressed c hbest.mem) hbest
  constructor
  · exact fun h c hc => huri (h.seen c hc)
  · intro h
    refine ⟨fun c hc => hseen (Ranked.best_of_mem_shown (List.mem_of_mem_take hc)) (h c hc),
      fun b hb hnot c hc => rowOrder_lt_of_mem_take ?_ hnot hc⟩
    -- the entry that represents the post is seen too, and no other one is better
    have hball := seen_subset hunique hb.mem
    obtain ⟨d, hd, hgroup⟩ : ∃ d ∈ db.unifiedTimeline timelineType acct filter,
        d.canonicalUri = b.canonicalUri := Ranked.exists_mem_shown hball
    have hdbest := Ranked.best_of_mem_shown hd
    have hdseen := hseen hdbest (hgroup ▸ huri ((mem_seenCandidates hunique).1 hb.mem))
    have hle := hb.le d ((mem_seenCandidates hunique).2 hdseen) hgroup
    have heq := le_antisymm (hdbest.le b hball hgroup.symm) hle
    exact candidateOrder_inj hball hdbest.mem heq ▸ hd

/-! ### Two databases -/

deriving instance DecidableEq for TimelineStatusRef

/-- With few entries everything is seen. -/
theorem settled_of_length_le (hunique : db.Unique)
    (h : (db.entriesOf timelineType filter).length ≤ 128) :
    db.Settled timelineType acct filter n := by
  have hrecent {c : Candidate} (hc : c ∈ db.allCandidates timelineType acct filter) :
      c ∈ db.recentCandidates timelineType acct filter (candidateLimit n) := by
    have hlength : (db.allCandidates timelineType acct filter).length ≤ candidateLimit n := by
      unfold allCandidates recentCandidates candidateLimit
      rw [List.length_map, List.length_take, List.length_insertionSort]
      omega
    rwa [recentCandidates_eq_take, List.take_of_length_le hlength]
  have hsame : db.seenCandidates timelineType acct filter (candidateLimit n) ⊆
      db.allCandidates timelineType acct filter := seen_subset hunique
  refine ⟨fun c hc => .inl (hrecent (Ranked.best_of_mem_shown (List.mem_of_mem_take hc)).mem),
    fun b hb hnot c hc => ?_⟩
  have hbest : b ∈ db.unifiedTimeline timelineType acct filter :=
    (isTimeline_unifiedTimeline.mem_iff b).2 ⟨hsame hb.mem, fun d hd =>
      hb.le d (List.mem_append_left _ (hrecent hd))⟩
  exact rowOrder_lt_of_mem_take hbest hnot hc

def plainStatus (serverDomain id uri : Str) : DbStatus where
  id := id
  serverDomain := serverDomain
  uri := uri
  url := none
  createdAt := []
  accountId := []
  content := []
  visibility := []
  sensitive := false
  spoilerText := []
  reblogsCount := 0
  favouritesCount := 0
  repliesCount := 0
  inReplyToId := none
  inReplyToAccountId := none
  reblogOfId := none
  language := none
  favourited := none
  reblogged := none
  bookmarked := none
  pollJson := none
  applicationJson := none
  emojisJson := none
  mediaAttachmentsJson := none
  quoteId := none
  quoteOriginalUrl := none

/-- The tables after accounts have received statuses at a time. -/
def ofReceived (received : List (DbStatus × String × List String)) : Db where
  cache := { Cache.empty with statuses := received.map Prod.fst }
  updatedAt := fun _ => []
  statusIdentities := received.map fun (status, _) =>
    ⟨status.id, status.serverDomain, .activityPub, status.uri⟩
  timelineEntries := received.flatMap fun (status, position, accounts) =>
    accounts.map fun account =>
      { timelineType := "home".toList
        serverDomain := status.serverDomain
        statusId := status.id
        accountAcct := account.toList
        positionAt := position.toList }
  notifications := []

/-- Two accounts have received a post, and one another. -/
def sharedDb : Db :=
  ofReceived [(plainStatus "a".toList "1".toList "u".toList, "2", ["me", "you"]),
    (plainStatus "a".toList "2".toList "v".toList, "2", ["you"])]

theorem pagesExactly_sharedDb :
    ∃ rows, sharedDb.PagesExactly "home".toList (some "me".toList) {} rows :=
  (pagesExactly_iff ⟨by decide, by decide⟩).2 fun _ _ =>
    settled_of_length_le ⟨by decide, by decide⟩ (by decide +kernel)

/-- The row of the post that both have is the preferred account's. -/
theorem source_of_received_sharedDb :
    ∃ uri, sharedDb.IsUriOf ("1".toList, "a".toList) uri ∧
      ∀ entry status, (entry, status) ∈ sharedDb.entriesOf "home".toList {} →
        entry.accountAcct = "me".toList → ∀ identity ∈ sharedDb.statusIdentities,
          identity.key = entry.statusKey → identity.canonicalUri = uri →
            some "me".toList = some "me".toList :=
  source_of_received (show (⟨"1".toList, "a".toList, some "me".toList⟩ : TimelineStatusRef) ∈
    sharedDb.queryAggregateStatusRefs "home".toList (some "me".toList) 2 0 {} by decide +kernel)

theorem settled_iff_sharedDb :
    sharedDb.Settled "home".toList (some "me".toList) {} 2 ↔
      ∀ c ∈ (sharedDb.unifiedTimeline "home".toList (some "me".toList) {}).take 2,
        c.canonicalUri ∈ (sharedDb.recentCandidates "home".toList (some "me".toList) {}
          (candidateLimit 2)).map Candidate.canonicalUri :=
  settled_iff_of_addressed ⟨by decide, by decide⟩ (by unfold Addressed; decide +kernel)

/-- Sixteen posts that eight accounts have received at one time. -/
def crowd : List DbStatus :=
  ["p", "o", "n", "m", "l", "k", "j", "i", "h", "g", "f", "e", "d", "c", "b", "a"].map fun id =>
    plainStatus "b".toList id.toList id.toList

/-- A post with the same time, which the preferred account has received before from another server.
-/
def crowdedDb : Db :=
  ofReceived (crowd.map (·, "2", ["8", "7", "6", "5", "4", "3", "2", "1"]) ++
    [(plainStatus "a".toList "1".toList "u".toList, "2", ["1"]),
     (plainStatus "c".toList "1".toList "u".toList, "1", ["me"])])

/-- The crowd hides a post that comes before it. -/
theorem not_pagesExactly_crowdedDb :
    crowdedDb.Unique ∧
      (∀ status ∈ crowdedDb.cache.statuses, ∃ identity ∈ crowdedDb.statusIdentities,
        identity.key = status.key) ∧
      (∀ c ∈ crowdedDb.allCandidates "home".toList (some "me".toList) {},
        (crowdedDb.allCandidates "home".toList (some "me".toList) {}).countP
          (·.canonicalUri = c.canonicalUri) ≤ 8) ∧
      ¬∃ rows, crowdedDb.PagesExactly "home".toList (some "me".toList) {} rows := by
  refine ⟨⟨by decide +kernel, by decide +kernel⟩, by decide +kernel, by decide +kernel, ?_⟩
  rintro ⟨rows, htimeline, hpage⟩
  have hfirst : (crowdedDb.queryAggregateStatusRefs "home".toList (some "me".toList) 1 0 {}).map
      TimelineStatusRef.serverDomain = ["b".toList] := by decide +kernel
  have htrue : ((crowdedDb.unifiedTimeline "home".toList (some "me".toList) {}).take 1).map
      Candidate.serverDomain = ["c".toList] := by decide +kernel
  rw [hpage 1 0 (by norm_num) (by norm_num), htimeline.eq isTimeline_unifiedTimeline,
    List.map_map] at hfirst
  exact absurd (hfirst.symm.trans htrue) (by decide)

end Db

end Awayuki.Hydration
