import Awayuki.Timeline.Gaps
import Awayuki.Timeline.Status

/-!
# Loading more of a timeline

A column that pages through its provider asks for what is below its oldest status.
`load_more_api_timeline` reads pages until it has found enough that the display filter accepts,
ten at most, and hands out the first of what it has found; the column decides from what is new to
it whether there is more.

* `loadMorePages`, `loadMoreApiTimeline`: the loop and the response;
* `Step`: more is loaded, a gap is loaded;
* `pagesRead`: the pages that the loop reads, `served_pagesRead` and `loadMorePages_cache`;
* `Older`, `Between`: what is left to load below the column, and in a gap;
* `complete_of_meets`: nothing of it is left when the column has no more and no gap.
* `reaches_of_closed`: in a chronological timeline a gap is closed at its end.
-/

namespace Awayuki.LoadMore

open Gaps (Entry TimelineGap oldest gapBeforePersisting syncPages Served
  MAX_API_PAGES_PER_LOAD_MORE)
open Runs (Run)
open Timeline (Limit normalizeTimelineLimit)

/-! ### The provider and the display filter -/

variable {gap : TimelineGap} {l : ℕ} {cache : Finset Entry} {page : List Entry}
  {o maxStatus : Entry}

/-- What the display filter reads of a status. -/
structure View where
  originalStatusId : Str
  notificationKind : Option Str
  media : List Str

structure TimelineDisplayFilter where
  enabled : Bool
  excludeBoosts : Bool
  excludeMedia : Bool
  includeMedia : Bool

def TimelineDisplayFilter.applies (filter : TimelineDisplayFilter) : Bool :=
  filter.enabled && (filter.excludeBoosts || filter.excludeMedia || filter.includeMedia)

/-- `timeline_status_matches_display_filter`. -/
def timelineStatusMatchesDisplayFilter (id : Str) (status : View)
    (displayFilter : Option TimelineDisplayFilter) : Bool :=
  match displayFilter.filter (·.applies) with
  | none => true
  | some filter =>
    let isBoost := id != status.originalStatusId || status.notificationKind.any fun kind =>
      [("reblog" : Str), ("renote" : Str), ("repost" : Str)].contains kind
    let hasMedia := !status.media.isEmpty
    if filter.excludeBoosts && isBoost then false
    else if filter.excludeMedia && hasMedia then false
    else if filter.includeMedia && !hasMedia then false
    else true

/-- The provider's timeline, the newest first, which stays as it is; the place at which what is
below an id starts; how many entries a page has at most from a place on. -/
structure Source where
  entries : List Entry
  view : Entry → View
  start : Str → ℕ
  serves : ℕ → ℕ
  nodup : (entries.map (·.id)).Nodup
  start_id : ∀ entry ∈ entries, start entry.id = entries.idxOf entry + 1
  serves_pos : ∀ place, 0 < serves place

/-- A page from a place on. -/
def Source.fetch (src : Source) (place limit : ℕ) : List Entry :=
  (src.entries.drop place).take (min (src.serves place) limit)

structure Column where
  maxStatuses : Limit
  displayFilter : Option TimelineDisplayFilter

def timelinePageLimit (column : Column) : ℕ := min 120 (normalizeTimelineLimit column.maxStatuses)

def Source.accepts (src : Source) (column : Column) (entry : Entry) : Bool :=
  timelineStatusMatchesDisplayFilter entry.id (src.view entry) column.displayFilter

/-! ### The backend -/

/-- The variables of the loop, and the rows. -/
structure Scan where
  maxId : Str
  statuses : List Entry
  hasMore : Bool
  gap : Option TimelineGap
  cache : Finset Entry

variable (src : Source) (accepts : Entry → Bool) (limit : ℕ)

/-- `page_limit`. -/
def pageLimit (limit : ℕ) : ℕ := max 1 (min limit 80)

/-- The `while` loop, with the pages that it may still read. -/
def loadMorePages : ℕ → Scan → Scan
  | 0, scan => scan
  | pages + 1, scan =>
    if scan.statuses.length < limit then
      let page := src.fetch (src.start scan.maxId) (pageLimit limit)
      let synced : Scan := { scan with
        gap := gapBeforePersisting scan.cache page
        cache := scan.cache ∪ page.toFinset }
      match page.getLast? with
      | none => { synced with hasMore := false }
      | some last => loadMorePages pages { synced with
          maxId := last.id
          statuses := scan.statuses ++ page.filter accepts }
    else scan

structure TimelinePageResponse where
  statuses : List Entry
  hasMore : Bool
  gap : Option TimelineGap

/-- `load_more_api_timeline`: the response and the rows afterwards. -/
def loadMoreApiTimeline (maxStatusId : Str) (cache : Finset Entry) :
    TimelinePageResponse × Finset Entry :=
  let scan := loadMorePages src accepts limit MAX_API_PAGES_PER_LOAD_MORE
    ⟨maxStatusId, [], true, none, cache⟩
  (⟨scan.statuses.take limit, scan.hasMore, scan.gap⟩, scan.cache)

/-! ### The pages read -/

/-- The pages from a place on, until enough is found or one is empty. -/
def pagesRead : ℕ → ℕ → ℕ → List (List Entry)
  | 0, _, _ => []
  | pages + 1, place, found =>
    if found < limit then
      let page := src.fetch place (pageLimit limit)
      page :: if page = [] then [] else
        pagesRead pages (place + page.length) (found + (page.filter accepts).length)
    else []

theorem pageLimit_pos : 0 < pageLimit limit := by
  unfold pageLimit
  omega

variable {src accepts limit} {n place found : ℕ} {pages : List (List Entry)} {e : Entry}

theorem Source.entries_nodup (src : Source) : src.entries.Nodup := src.nodup.of_map _

/-- What is below an entry of a page starts one further. -/
theorem Source.start_getElem {i : ℕ} (hi : i < (src.fetch place l).length) :
    src.start (src.fetch place l)[i].id = place + i + 1 := by
  unfold Source.fetch at hi ⊢
  rw [List.length_take, List.length_drop] at hi
  rw [List.getElem_take, List.getElem_drop, src.start_id _ (List.getElem_mem _),
    src.entries_nodup.idxOf_getElem]

/-- The next page starts where a page ends. -/
theorem Source.start_last {last : Entry} (h : (src.fetch place l).getLast? = some last) :
    src.start last.id = place + (src.fetch place l).length := by
  rw [List.getLast?_eq_getElem?] at h
  obtain ⟨hlt, hlast⟩ := List.getElem?_eq_some_iff.1 h
  have hstart := Source.start_getElem hlt
  rw [hlast] at hstart
  omega

/-- The provider has nothing from the place of an empty page on. -/
theorem Source.length_le_of_fetch (hl : 0 < l) (h : src.fetch place l = []) :
    src.entries.length ≤ place := by
  have hlength := congrArg List.length h
  unfold Source.fetch at hlength
  rw [List.length_take, List.length_drop, List.length_nil] at hlength
  have := src.serves_pos place
  omega

theorem pagesRead_zero : pagesRead src accepts limit 0 place found = [] := rfl

theorem pagesRead_of_le (hfound : ¬ found < limit) :
    pagesRead src accepts limit (n + 1) place found = [] := if_neg hfound

theorem pagesRead_succ (hfound : found < limit) :
    pagesRead src accepts limit (n + 1) place found =
      src.fetch place (pageLimit limit) :: if src.fetch place (pageLimit limit) = [] then [] else
        pagesRead src accepts limit n (place + (src.fetch place (pageLimit limit)).length)
          (found + ((src.fetch place (pageLimit limit)).filter accepts).length) :=
  if_pos hfound

/-- The pages are what is below the place, up to where the last one ends. -/
theorem flatten_pagesRead : (pagesRead src accepts limit n place found).flatten =
    (src.entries.drop place).take (pagesRead src accepts limit n place found).flatten.length := by
  induction n generalizing place found with
  | zero => simp [pagesRead_zero]
  | succ n ih =>
    by_cases hfound : found < limit
    · rw [pagesRead_succ hfound]
      split_ifs with hempty
      · simp [hempty]
      · rw [List.flatten_cons, List.length_append, List.take_add, List.drop_drop, ← ih]
        congr 1
        unfold Source.fetch
        simp
    · simp [pagesRead_of_le hfound]

/-- The loop goes on after a page that is not empty. -/
theorem nil_notMem_dropLast_pagesRead :
    [] ∉ (pagesRead src accepts limit n place found).dropLast := by
  induction n generalizing place found with
  | zero => simp [pagesRead_zero]
  | succ n ih =>
    by_cases hfound : found < limit
    · rw [pagesRead_succ hfound]
      split_ifs with hempty
      · simp
      · generalize hrest : pagesRead src accepts limit n _ _ = rest
        cases rest with
        | nil => simp
        | cons page rest =>
          rw [List.dropLast_cons_of_ne_nil (List.cons_ne_nil _ _), List.mem_cons, ← hrest]
          rintro (hpage | hmem)
          · exact hempty hpage.symm
          · exact ih hmem
    · simp [pagesRead_of_le hfound]

theorem length_pagesRead_le : (pagesRead src accepts limit n place found).length ≤ n := by
  induction n generalizing place found with
  | zero => simp [pagesRead_zero]
  | succ n ih =>
    by_cases hfound : found < limit
    · rw [pagesRead_succ hfound]
      split_ifs
      · simp
      · simpa using ih
    · simp [pagesRead_of_le hfound]

/-- A last page that is empty does not come first here. -/
theorem getLast?_cons_eq_nil {rest : List (List Entry)} (hne : page ≠ []) :
    (page :: rest).getLast? = some [] ↔ rest.getLast? = some [] := by
  rw [List.getLast?_cons]
  cases hrest : rest.getLast? <;> simp [hne]

/-- After an empty page the provider has nothing left, and not enough has been found. -/
theorem pagesRead_ended (h : (pagesRead src accepts limit n place found).getLast? = some []) :
    src.entries.length ≤ place + (pagesRead src accepts limit n place found).flatten.length ∧
      found + ((pagesRead src accepts limit n place found).flatten.filter accepts).length <
        limit := by
  induction n generalizing place found with
  | zero => simp [pagesRead_zero] at h
  | succ n ih =>
    by_cases hfound : found < limit
    · rw [pagesRead_succ hfound] at h ⊢
      split_ifs at h ⊢ with hempty
      · simpa [hempty, hfound] using Source.length_le_of_fetch (pageLimit_pos limit) hempty
      · have hlast : (pagesRead src accepts limit n
            (place + (src.fetch place (pageLimit limit)).length)
            (found + ((src.fetch place (pageLimit limit)).filter accepts).length)).getLast? =
              some [] := by
          exact (getLast?_cons_eq_nil hempty).1 h
        obtain ⟨hlength, hcount⟩ := ih hlast
        rw [List.flatten_cons, List.length_append, List.filter_append, List.length_append]
        constructor <;> omega
    · simp [pagesRead_of_le hfound] at h

/-- The loop reads pages as the sync of a column does. -/
theorem served_pagesRead (hlimit : 0 < limit) : Served src.entries place
    (pagesRead src accepts limit MAX_API_PAGES_PER_LOAD_MORE place 0) where
  window := flatten_pagesRead
  goesOn := nil_notMem_dropLast_pagesRead
  pos := by
    unfold MAX_API_PAGES_PER_LOAD_MORE
    rw [pagesRead_succ hlimit]
    exact List.cons_ne_nil _ _
  max := length_pagesRead_le

/-- What one page changes, as in `syncPages`. -/
def syncPage (synced : Finset Entry × Option TimelineGap) (page : List Entry) :
    Finset Entry × Option TimelineGap :=
  (synced.1 ∪ page.toFinset, gapBeforePersisting synced.1 page)

theorem foldl_syncPage : pages.foldl syncPage (cache, none) = syncPages cache pages := rfl

/-- The loop finds what the filter accepts of the pages; the rows and the gap are those of the sync
of the pages; there is no more after an empty page. -/
theorem loadMorePages_eq (scan : Scan) (pages : List (List Entry))
    (hpages : pages =
      pagesRead src accepts limit n (src.start scan.maxId) scan.statuses.length) :
    ∃ maxId, loadMorePages src accepts limit n scan =
      ⟨maxId, scan.statuses ++ pages.flatten.filter accepts,
        scan.hasMore && decide (pages.getLast? ≠ some []),
        (pages.foldl syncPage (scan.cache, scan.gap)).2,
        (pages.foldl syncPage (scan.cache, scan.gap)).1⟩ := by
  subst hpages
  induction n generalizing scan with
  | zero => exact ⟨scan.maxId, by simp [loadMorePages, pagesRead_zero]⟩
  | succ n ih =>
    unfold loadMorePages
    split_ifs with hfound
    · rw [pagesRead_succ hfound]
      dsimp only
      cases hlast : (src.fetch (src.start scan.maxId) (pageLimit limit)).getLast? with
      | none =>
        rw [List.getLast?_eq_none_iff] at hlast
        exact ⟨scan.maxId, by simp [hlast, syncPage]⟩
      | some last =>
        have hne : src.fetch (src.start scan.maxId) (pageLimit limit) ≠ [] := by
          rintro hnil
          simp [hnil] at hlast
        obtain ⟨maxId, hrest⟩ := ih ⟨last.id, scan.statuses ++
          (src.fetch (src.start scan.maxId) (pageLimit limit)).filter accepts, scan.hasMore,
          gapBeforePersisting scan.cache (src.fetch (src.start scan.maxId) (pageLimit limit)),
          scan.cache ∪ (src.fetch (src.start scan.maxId) (pageLimit limit)).toFinset⟩
        refine ⟨maxId, hrest.trans ?_⟩
        rw [if_neg hne, Source.start_last hlast]
        simp only [List.length_append, List.flatten_cons, List.filter_append, List.append_assoc,
          List.foldl_cons, ne_eq, getLast?_cons_eq_nil hne]
        rfl
    · exact ⟨scan.maxId, by simp [pagesRead_of_le hfound]⟩

theorem loadMoreApiTimeline_eq {maxStatusId : Str}
    (hpages : pages = pagesRead src accepts limit MAX_API_PAGES_PER_LOAD_MORE
      (src.start maxStatusId) 0) : loadMoreApiTimeline src accepts limit maxStatusId cache =
      (⟨(pages.flatten.filter accepts).take limit, decide (pages.getLast? ≠ some []),
        (syncPages cache pages).2⟩, (syncPages cache pages).1) := by
  obtain ⟨maxId, hscan⟩ := loadMorePages_eq ⟨maxStatusId, [], true, none, cache⟩ pages hpages
  unfold loadMoreApiTimeline
  rw [hscan]
  simp only [List.nil_append, Bool.true_and, foldl_syncPage]

/-! ### The column -/

/-- The rows of the column's source, the statuses that the column has, its gap (all gaps of one
source have one key) and whether there is more. -/
structure State where
  cache : Finset Entry
  timeline : Finset Entry
  gap : Option TimelineGap
  hasMore : Bool

/-- `oldest`: which of several, the order of the column tells. -/
def IsOldest (timeline : Finset Entry) (oldest : Entry) : Prop :=
  oldest ∈ timeline ∧ ∀ status ∈ timeline, oldest.createdAt ≤ status.createdAt

variable (src : Source) (column : Column)

/-- `load_more_timeline`, and what `loadMoreTimeline` makes of its response. -/
def loadMoreTimeline (s : State) (maxStatus : Entry) : State :=
  let (response, cache) := loadMoreApiTimeline src (src.accepts column) (timelinePageLimit column)
    maxStatus.id s.cache
  let displayed := response.statuses.filter (src.accepts column)
  let timeline := s.timeline ∪ displayed.toFinset
  let madeProgress := s.timeline.card < timeline.card
  { cache, timeline, gap := response.gap.or s.gap, hasMore := response.hasMore && madeProgress }

/-- `load_timeline_gap`, and what `loadTimelineGap` makes of its response. -/
def loadTimelineGap (s : State) (gap : TimelineGap) : State :=
  let (response, cache) := loadMoreApiTimeline src (src.accepts column)
    (min 80 (timelinePageLimit column)) gap.nextMaxStatusId s.cache
  let displayed := response.statuses.filter (src.accepts column)
  { s with cache, timeline := s.timeline ∪ displayed.toFinset, gap := response.gap }

/-- `loadTimeline` of a column without statuses: rows that the filter accepts. -/
def loadTimeline (s : State) (rows : List Entry) : State :=
  { s with timeline := (rows.filter (src.accepts column)).toFinset, hasMore := rows ≠ [] }

inductive Label
  | loadTimeline (rows : List Entry)
  | loadMore (maxStatus : Entry)
  | loadGap (gap : TimelineGap)

inductive Step (s : State) : Label → State → Prop
  | loadTimeline {rows : List Entry} (hgap : s.gap = none) (hmore : s.hasMore = true)
      (hempty : s.timeline = ∅) (hrows : ∀ row ∈ rows, row ∈ s.cache) :
      Step s (.loadTimeline rows) (loadTimeline src column s rows)
  | loadMore {maxStatus : Entry} (hgap : s.gap = none) (hmore : s.hasMore = true)
      (holdest : IsOldest s.timeline maxStatus) :
      Step s (.loadMore maxStatus) (loadMoreTimeline src column s maxStatus)
  | loadGap {gap : TimelineGap} (hgap : s.gap = some gap) :
      Step s (.loadGap gap) (loadTimelineGap src column s gap)

/-! ### What is left to load -/

/-- The filter accepts the status, which is older than the oldest of the column and below its
gap. -/
structure Older (s : State) (e : Entry) : Prop where
  mem : e ∈ src.entries
  accepted : src.accepts column e = true
  nonempty : s.timeline.Nonempty
  below : ∀ oldest, IsOldest s.timeline oldest → src.start oldest.id ≤ src.entries.idxOf e
  gap : ∀ gap ∈ s.gap, src.start gap.nextMaxStatusId ≤ src.entries.idxOf e

/-- The filter accepts the status, which is below the gap and above the first row there. -/
structure Between (cache : Finset Entry) (gap : TimelineGap) (e : Entry) : Prop where
  mem : e ∈ src.entries
  accepted : src.accepts column e = true
  below : src.start gap.nextMaxStatusId ≤ src.entries.idxOf e
  above : ∃ row ∈ cache, row ∈ src.entries ∧ src.start gap.nextMaxStatusId ≤ src.entries.idxOf row
  first : ∀ row ∈ cache, src.start gap.nextMaxStatusId ≤ src.entries.idxOf row →
    src.entries.idxOf e < src.entries.idxOf row

/-- A column without more and without a gap has all that was older. -/
def Complete (s t : State) : Prop :=
  t.hasMore = false → t.gap = none → ∀ e, Older src column s e → e ∈ t.timeline

/-- A gap that is closed is filled. -/
def Fills (t : State) (gap : TimelineGap) (u : State) : Prop :=
  u.gap = none → ∀ e, Between src column t.cache gap e → e ∈ u.timeline

/-- The pages that loading below an id reads. -/
def pagesBelow (limit : ℕ) (id : Str) : List (List Entry) :=
  pagesRead src (src.accepts column) limit MAX_API_PAGES_PER_LOAD_MORE (src.start id) 0

/-- What the filter accepts of pages. -/
def matched (pages : List (List Entry)) : List Entry :=
  pages.flatten.filter (src.accepts column)

/-- The pages below a gap reach a row, or there is none further down. -/
def Reaches (cache : Finset Entry) (gap : TimelineGap) (pages : List (List Entry)) : Prop :=
  (∃ row ∈ cache, row ∈ pages.flatten) ∨ ∀ row ∈ cache, row ∈ src.entries →
    src.entries.idxOf row < src.start gap.nextMaxStatusId + pages.flatten.length

/-- The provider ends in the pages, or something that is handed out is new, or nothing older is
missing; what is cut off is in the column or below the gap that the pages leave.

Loading a gap may also close it: then the pages reach its end, and what is cut off is not in the
gap. -/
def Meets (s : State) : Label → Prop
  | .loadTimeline _ => True
  | .loadMore maxStatus =>
    let limit := timelinePageLimit column
    let pages := pagesBelow src column limit maxStatus.id
    (pages.getLast? = some [] ∨ (∃ e ∈ (matched src column pages).take limit, e ∉ s.timeline) ∨
      ∀ e, Older src column s e → e ∈ s.timeline) ∧
    ∀ gap ∈ (syncPages s.cache pages).2, ∀ e ∈ (matched src column pages).drop limit,
      e ∈ s.timeline ∨ src.start gap.nextMaxStatusId ≤ src.entries.idxOf e
  | .loadGap gap =>
    let limit := min 80 (timelinePageLimit column)
    let pages := pagesBelow src column limit gap.nextMaxStatusId
    match (syncPages s.cache pages).2 with
    | some gap => ∀ e ∈ (matched src column pages).drop limit,
        e ∈ s.timeline ∨ src.start gap.nextMaxStatusId ≤ src.entries.idxOf e
    | none => (∀ e ∈ (matched src column pages).drop limit,
        Between src column s.cache gap e → e ∈ s.timeline) ∧ Reaches src s.cache gap pages

/-- The status is in the column, or older, with more to load. -/
def Keeps (s : State) (e : Entry) : Prop :=
  e ∈ s.timeline ∨ s.hasMore = true ∧ Older src column s e

variable {src column} {s t u : State} {id : Str}

/-! ### What the pages have -/

/-- What the pages below an id have, by places. -/
theorem mem_flatten_pagesBelow : e ∈ (pagesBelow src column limit id).flatten ↔
    e ∈ src.entries ∧ src.start id ≤ src.entries.idxOf e ∧
      src.entries.idxOf e < src.start id + (pagesBelow src column limit id).flatten.length := by
  rw [← Places.mem_window src.entries_nodup]
  unfold pagesBelow
  rw [← flatten_pagesRead]

theorem mem_matched : e ∈ matched src column (pagesBelow src column limit id) ↔
    e ∈ src.entries ∧ src.accepts column e = true ∧ src.start id ≤ src.entries.idxOf e ∧
      src.entries.idxOf e < src.start id + (pagesBelow src column limit id).flatten.length := by
  unfold matched
  rw [List.mem_filter, mem_flatten_pagesBelow]
  tauto

theorem pairwise_matched : (matched src column (pagesBelow src column limit id)).Pairwise
    fun a b => src.entries.idxOf a < src.entries.idxOf b := by
  have hsublist : List.Sublist (pagesBelow src column limit id).flatten src.entries := by
    unfold pagesBelow
    rw [flatten_pagesRead]
    exact (List.take_sublist _ _).trans (List.drop_sublist _ _)
  exact (Places.pairwise_idxOf src.entries_nodup).sublist (List.filter_sublist.trans hsublist)

/-- What is not handed out is cut off, or below the pages. -/
theorem mem_drop_or_below (hmem : e ∈ src.entries) (haccepted : src.accepts column e = true)
    (hbelow : src.start id ≤ src.entries.idxOf e)
    (hnot : e ∉ (matched src column (pagesBelow src column limit id)).take n) :
    e ∈ (matched src column (pagesBelow src column limit id)).drop n ∨
      src.start id + (pagesBelow src column limit id).flatten.length ≤ src.entries.idxOf e := by
  by_cases hwindow : src.entries.idxOf e <
      src.start id + (pagesBelow src column limit id).flatten.length
  · have hfound : e ∈ matched src column (pagesBelow src column limit id) :=
      mem_matched.2 ⟨hmem, haccepted, hbelow, hwindow⟩
    rw [← List.take_append_drop n (matched src column _), List.mem_append] at hfound
    exact .inl (hfound.resolve_left hnot)
  · exact .inr (by omega)

/-- What is not handed out is below all that is. -/
theorem start_le_of_mem_take (hmem : e ∈ src.entries) (haccepted : src.accepts column e = true)
    (hbelow : src.start id ≤ src.entries.idxOf e)
    (hnot : e ∉ (matched src column (pagesBelow src column limit id)).take n)
    (ho : o ∈ (matched src column (pagesBelow src column limit id)).take n) :
    src.start o.id ≤ src.entries.idxOf e := by
  obtain ⟨hentry, -, -, hwindow⟩ := mem_matched.1 (List.mem_of_mem_take ho)
  have hlt : src.entries.idxOf o < src.entries.idxOf e := by
    rcases mem_drop_or_below hmem haccepted hbelow hnot with hdrop | hend
    · have hpairwise : (matched src column (pagesBelow src column limit id)).Pairwise
          fun a b => src.entries.idxOf a < src.entries.idxOf b := pairwise_matched
      rw [← List.take_append_drop n (matched src column _), List.pairwise_append] at hpairwise
      exact hpairwise.2.2 o ho e hdrop
    · omega
  rw [src.start_id o hentry]
  omega

/-- A gap that the pages leave is in the pages. -/
theorem start_gap_le (h : (syncPages cache (pagesBelow src column limit id)).2 = some gap) :
    src.start gap.nextMaxStatusId ≤
      src.start id + (pagesBelow src column limit id).flatten.length := by
  obtain ⟨entry, hentry, rfl⟩ := Gaps.syncPages_some h
  obtain ⟨hmem, -, hlt⟩ := mem_flatten_pagesBelow.1 hentry
  dsimp only
  rw [src.start_id entry hmem]
  omega

/-- When the provider ends in the pages, all is handed out. -/
theorem mem_take_of_ended (hmem : e ∈ src.entries) (haccepted : src.accepts column e = true)
    (hbelow : src.start id ≤ src.entries.idxOf e)
    (hlast : (pagesBelow src column limit id).getLast? = some []) :
    e ∈ (matched src column (pagesBelow src column limit id)).take limit := by
  obtain ⟨hlength, hcount⟩ := pagesRead_ended hlast
  have hlt := List.idxOf_lt_length_iff.2 hmem
  have hfound : e ∈ matched src column (pagesBelow src column limit id) :=
    mem_matched.2 ⟨hmem, haccepted, hbelow, hlt.trans_le hlength⟩
  rwa [List.take_of_length_le]
  unfold matched pagesBelow
  omega

/-! ### Steps -/

theorem filter_matched_take : ((matched src column pages).take n).filter (src.accepts column) =
    (matched src column pages).take n := by
  refine List.filter_eq_self.2 fun e he => ?_
  exact (List.mem_filter.1 (List.mem_of_mem_take he)).2

theorem loadMoreTimeline_eq (hpages :
      pages = pagesBelow src column (timelinePageLimit column) maxStatus.id) :
    loadMoreTimeline src column s maxStatus =
      ⟨(syncPages s.cache pages).1,
        s.timeline ∪ ((matched src column pages).take (timelinePageLimit column)).toFinset,
        (syncPages s.cache pages).2.or s.gap,
        decide (pages.getLast? ≠ some []) && decide (s.timeline.card < (s.timeline ∪
          ((matched src column pages).take (timelinePageLimit column)).toFinset).card)⟩ := by
  unfold loadMoreTimeline
  rw [loadMoreApiTimeline_eq hpages]
  dsimp only
  rw [← matched, filter_matched_take]

theorem loadTimelineGap_eq (hpages :
      pages = pagesBelow src column (min 80 (timelinePageLimit column)) gap.nextMaxStatusId) :
    loadTimelineGap src column s gap =
      ⟨(syncPages s.cache pages).1, s.timeline ∪
        ((matched src column pages).take (min 80 (timelinePageLimit column))).toFinset,
        (syncPages s.cache pages).2, s.hasMore⟩ := by
  unfold loadTimelineGap
  rw [loadMoreApiTimeline_eq hpages]
  dsimp only
  rw [← matched, filter_matched_take]

/-- What is older and not handed out is below the oldest of the column afterwards. -/
theorem Older.below_loaded (h : Older src column s e) (hbelow : src.start id ≤ src.entries.idxOf e)
    (hnot : e ∉ (matched src column (pagesBelow src column limit id)).take n)
    (ho : IsOldest (s.timeline ∪
      ((matched src column (pagesBelow src column limit id)).take n).toFinset) o) :
    src.start o.id ≤ src.entries.idxOf e := by
  obtain ⟨hmem, hleast⟩ := ho
  rw [Finset.mem_union, List.mem_toFinset] at hmem
  rcases hmem with hmem | hmem
  · exact h.below o ⟨hmem, fun status hstatus => hleast status (Finset.mem_union_left _ hstatus)⟩
  · exact start_le_of_mem_take h.mem h.accepted hbelow hnot hmem

/-- What one load of more keeps of what is older. -/
theorem Older.loadMore (h : Older src column s e) (holdest : IsOldest s.timeline maxStatus)
    (hgap : s.gap = none) (hmeets : Meets src column s (.loadMore maxStatus)) :
    Keeps src column (loadMoreTimeline src column s maxStatus) e := by
  obtain ⟨hprogress, hcut⟩ := hmeets
  rw [loadMoreTimeline_eq rfl]
  set pages := pagesBelow src column (timelinePageLimit column) maxStatus.id with hpages
  set handed := (matched src column pages).take (timelinePageLimit column) with hhanded
  have hbelow := h.below maxStatus holdest
  by_cases htimeline : e ∈ s.timeline
  · exact .inl (Finset.mem_union_left _ htimeline)
  by_cases hhand : e ∈ handed
  · exact .inl (Finset.mem_union_right _ (List.mem_toFinset.2 hhand))
  have hgoes : pages.getLast? ≠ some [] := fun hlast =>
    hhand (mem_take_of_ended h.mem h.accepted hbelow hlast)
  have hgrows : s.timeline.card < (s.timeline ∪ handed.toFinset).card := by
    rcases hprogress with hlast | ⟨new, hnew, hfresh⟩ | hnone
    · exact absurd hlast hgoes
    · refine Finset.card_lt_card ⟨Finset.subset_union_left, fun hsubset => hfresh (hsubset ?_)⟩
      exact Finset.mem_union_right _ (List.mem_toFinset.2 hnew)
    · exact absurd (hnone e h) htimeline
  refine .inr ⟨by simp [hgoes, hgrows], h.mem, h.accepted,
    h.nonempty.mono Finset.subset_union_left, fun o ho => h.below_loaded hbelow hhand ho, ?_⟩
  intro gap hfound
  rw [hgap, Option.or_none] at hfound
  rcases mem_drop_or_below h.mem h.accepted hbelow hhand with hdrop | hend
  · exact (hcut gap hfound e hdrop).resolve_left htimeline
  · exact (start_gap_le hfound).trans hend

/-- What one load of the gap keeps of what is older. -/
theorem Older.loadGap (h : Older src column s e) (hmore : s.hasMore = true)
    (hgap : s.gap = some gap) (hmeets : Meets src column s (.loadGap gap)) :
    Keeps src column (loadTimelineGap src column s gap) e := by
  rw [loadTimelineGap_eq rfl]
  unfold Meets at hmeets
  dsimp only at hmeets
  set pages := pagesBelow src column (min 80 (timelinePageLimit column)) gap.nextMaxStatusId
    with hpages
  set handed := (matched src column pages).take (min 80 (timelinePageLimit column)) with hhanded
  have hbelow := h.gap gap hgap
  by_cases htimeline : e ∈ s.timeline
  · exact .inl (Finset.mem_union_left _ htimeline)
  by_cases hhand : e ∈ handed
  · exact .inl (Finset.mem_union_right _ (List.mem_toFinset.2 hhand))
  refine .inr ⟨hmore, h.mem, h.accepted, h.nonempty.mono Finset.subset_union_left,
    fun o ho => h.below_loaded hbelow hhand ho, fun left hleft => ?_⟩
  rw [Option.mem_def] at hleft
  dsimp only at hleft
  rw [hleft] at hmeets
  rcases mem_drop_or_below h.mem h.accepted hbelow hhand with hdrop | hend
  · exact (hmeets e hdrop).resolve_left htimeline
  · exact (start_gap_le hleft).trans hend

theorem keeps_step {label : Label} (h : Keeps src column s e)
    (hstep : Step src column s label t) (hmeets : Meets src column s label) :
    Keeps src column t e := by
  rcases h with htimeline | ⟨hmore, holder⟩
  · -- no step takes a status out of the column
    refine .inl ?_
    cases hstep with
    | loadTimeline _ _ hempty => simp [hempty] at htimeline
    | loadMore => exact Finset.mem_union_left _ htimeline
    | loadGap => exact Finset.mem_union_left _ htimeline
  · cases hstep with
    | loadTimeline _ _ hempty =>
      have hnonempty := holder.nonempty
      simp [hempty] at hnonempty
    | loadMore hgap _ holdest => exact holder.loadMore holdest hgap hmeets
    | loadGap hgap => exact holder.loadGap hmore hgap hmeets

/-- A gap that is closed is filled. -/
theorem fills_loadTimelineGap (hmeets : Meets src column s (.loadGap gap)) :
    Fills src column s gap (loadTimelineGap src column s gap) := by
  intro hclosed e hbetween
  rw [loadTimelineGap_eq rfl] at hclosed ⊢
  unfold Meets at hmeets
  dsimp only at hmeets hclosed ⊢
  rw [hclosed] at hmeets
  obtain ⟨hcut, hreaches⟩ := hmeets
  rw [Finset.mem_union, List.mem_toFinset, or_iff_not_imp_right]
  intro hnot
  rcases mem_drop_or_below hbetween.mem hbetween.accepted hbetween.below hnot with hdrop | hend
  · exact hcut e hdrop hbetween
  · -- the first row below the gap is in the pages
    exfalso
    obtain ⟨row, hrow, hwindow⟩ : ∃ row ∈ s.cache,
        src.start gap.nextMaxStatusId ≤ src.entries.idxOf row ∧ src.entries.idxOf row <
          src.start gap.nextMaxStatusId + (pagesBelow src column
            (min 80 (timelinePageLimit column)) gap.nextMaxStatusId).flatten.length := by
      rcases hreaches with ⟨row, hrow, hpage⟩ | hnone
      · exact ⟨row, hrow, (mem_flatten_pagesBelow.1 hpage).2⟩
      · obtain ⟨row, hrow, hmem, hle⟩ := hbetween.above
        exact ⟨row, hrow, hle, hnone row hrow hmem⟩
    have := hbetween.first row hrow hwindow.1
    omega

theorem exists_oldest (h : page ≠ []) : ∃ b, oldest page = some b := by
  cases page with
  | nil => exact absurd rfl h
  | cons entry page =>
    unfold oldest
    cases oldest page with
    | none => exact ⟨entry, rfl⟩
    | some other =>
      dsimp only
      split_ifs
      · exact ⟨other, rfl⟩
      · exact ⟨entry, rfl⟩

/-- The rows are entries of the provider, each older than all that is above it. -/
def Chronological (src : Source) (cache : Finset Entry) : Prop :=
  ∀ row ∈ cache, row ∈ src.entries ∧ ∀ entry ∈ src.entries,
    src.entries.idxOf entry < src.entries.idxOf row → row.createdAt < entry.createdAt

/-- In a chronological timeline a gap is closed only at its end. -/
theorem reaches_of_closed (hchronological : Chronological src s.cache) (hlimit : 0 < limit)
    (hpages : pages = pagesBelow src column limit gap.nextMaxStatusId)
    (hclosed : (syncPages s.cache pages).2 = none) : Reaches src s.cache gap pages := by
  have hserved : Served src.entries (src.start gap.nextMaxStatusId) pages :=
    hpages ▸ served_pagesRead hlimit
  have hmem {e : Entry} : e ∈ pages.flatten ↔ e ∈ src.entries ∧
      src.start gap.nextMaxStatusId ≤ src.entries.idxOf e ∧ src.entries.idxOf e <
        src.start gap.nextMaxStatusId + pages.flatten.length := by
    rw [hpages]
    exact mem_flatten_pagesBelow
  rcases List.eq_nil_or_concat pages with hnil | ⟨pre, page, hlast⟩
  · exact absurd hnil hserved.pos
  rw [List.concat_eq_append] at hlast
  by_cases hpage : page = []
  · have hended : (pagesBelow src column limit gap.nextMaxStatusId).getLast? = some [] := by
      rw [← hpages, hlast, hpage, List.getLast?_concat]
    have hlength := (pagesRead_ended hended).1
    rw [← pagesBelow, ← hpages] at hlength
    exact .inr fun row _ hrow => (List.idxOf_lt_length_iff.2 hrow).trans_le hlength
  obtain ⟨b, hb⟩ := exists_oldest hpage
  have hbpage : b ∈ pages.flatten := by
    rw [hlast, List.flatten_append, List.mem_append]
    exact .inr (by simpa using Gaps.mem_of_oldest hb)
  rw [hlast, Gaps.syncPages_snoc, Gaps.syncPages_fst] at hclosed
  unfold gapBeforePersisting at hclosed
  rw [hb] at hclosed
  replace hclosed : ite _ _ _ = none := hclosed
  split_ifs at hclosed with htest
  rcases htest with ⟨entry, hentry, hid, -⟩ | hnone
  · have hsplit : pages.flatten = pre.flatten ++ page := by simp [hlast]
    have heq (hsource : entry ∈ src.entries) : entry = b :=
      List.inj_on_of_nodup_map src.nodup hsource (hmem.1 hbpage).1 hid
    rcases Finset.mem_union.1 hentry with hrow | hpre
    · exact .inl ⟨entry, hrow, heq (hchronological entry hrow).1 ▸ hbpage⟩
    · -- the pages have no entry twice
      rw [List.mem_toFinset] at hpre
      have hflat : entry ∈ pages.flatten := hsplit ▸ List.mem_append_left _ hpre
      have hnodup : pages.flatten.Nodup := by
        rw [hserved.window]
        exact src.entries_nodup.sublist ((List.take_sublist _ _).trans (List.drop_sublist _ _))
      rw [hsplit, List.nodup_append] at hnodup
      exact absurd (heq (hmem.1 hflat).1) (hnodup.2.2 entry hpre b (Gaps.mem_of_oldest hb))
  · -- a row below the pages would be older than the oldest of the last page
    refine .inr fun row hrow hsource => ?_
    by_contra hnot
    refine hnone ⟨row, Finset.mem_union_left _ hrow, (hchronological row hrow).2 b ?_ ?_⟩
    · exact (hmem.1 hbpage).1
    · have := (hmem.1 hbpage).2.2
      omega

/-- In a chronological timeline a gap that is closed is filled, unless the page is cut off. -/
theorem fills_of_chronological {gap : TimelineGap} (hchronological : Chronological src s.cache)
    (hfits : (matched src column (pagesBelow src column (min 80 (timelinePageLimit column))
      gap.nextMaxStatusId)).length ≤ min 80 (timelinePageLimit column)) :
    Fills src column s gap (loadTimelineGap src column s gap) := by
  have hlimit : 0 < min 80 (timelinePageLimit column) :=
    lt_min (by decide) (lt_min (by decide) (Timeline.normalizeTimelineLimit_pos _))
  refine fills_loadTimelineGap ?_
  have hdrop := List.drop_eq_nil_of_le hfits
  unfold Meets
  dsimp only
  cases hclosed : (syncPages s.cache (pagesBelow src column (min 80 (timelinePageLimit column))
      gap.nextMaxStatusId)).2 with
  | some _ => simp [hdrop]
  | none =>
    dsimp only
    rw [hdrop]
    refine ⟨fun e he => absurd he List.not_mem_nil, ?_⟩
    exact reaches_of_closed hchronological hlimit rfl hclosed

/-! ### Runs -/

/-- In a run whose steps meet the condition nothing older is lost, and a gap that is closed is
filled. -/
theorem complete_of_meets {labels : List Label} (hmore : s.hasMore = true)
    (hrun : Run (fun s label t => Step src column s label t ∧ Meets src column s label) s labels t) :
    Complete src column s t ∧ ∀ gap u, Step src column t (.loadGap gap) u →
      Meets src column t (.loadGap gap) → Fills src column t gap u := by
  constructor
  · intro hended _ e holder
    have hkeeps : Keeps src column t e :=
      hrun.invariant (.inr ⟨hmore, holder⟩) fun h hstep => keeps_step h hstep.1 hstep.2
    rcases hkeeps with htimeline | ⟨hmore, -⟩
    · exact htimeline
    · rw [hended] at hmore
      cases hmore
  · rintro gap u hstep hmeets
    cases hstep
    exact fills_loadTimelineGap hmeets

/-- Entries of which some are boosts. -/
def sampleSource (entries boosts : List ℕ)
    (hnodup : ((entries.map Gaps.sampleEntry).map (·.id)).Nodup)
    (hstart : ∀ entry ∈ entries.map Gaps.sampleEntry,
      ((entries.map Gaps.sampleEntry).map (·.id)).idxOf entry.id + 1 =
        (entries.map Gaps.sampleEntry).idxOf entry + 1) : Source where
  entries := entries.map Gaps.sampleEntry
  view entry := ⟨if (boosts.map Gaps.sampleEntry).contains entry then [] else entry.id, none, []⟩
  start id := ((entries.map Gaps.sampleEntry).map (·.id)).idxOf id + 1
  serves _ := 80
  nodup := hnodup
  start_id := hstart
  serves_pos _ := by decide

/-- One status at a time, without boosts. -/
def sampleColumn : Column := ⟨some 1, some ⟨true, true, false, false⟩⟩

def sampleState (n : ℕ) : State := ⟨{Gaps.sampleEntry n}, {Gaps.sampleEntry n}, none, true⟩

/-- The second load finds the end of the timeline. -/
theorem complete_of_meets_sample : let src := sampleSource [2, 1] [] (by decide) (by decide)
    let loaded := loadMoreTimeline src sampleColumn (sampleState 2) (Gaps.sampleEntry 2)
    let ended := loadMoreTimeline src sampleColumn loaded (Gaps.sampleEntry 1)
    ended.hasMore = false ∧ Complete src sampleColumn (sampleState 2) ended := by
  intro src loaded ended
  have hfirst : Step src sampleColumn (sampleState 2) (.loadMore (Gaps.sampleEntry 2)) loaded :=
    .loadMore rfl rfl ⟨by decide, by decide⟩
  have hsecond : Step src sampleColumn loaded (.loadMore (Gaps.sampleEntry 1)) ended :=
    .loadMore (by decide) (by decide) ⟨by decide, by decide⟩
  refine ⟨by decide, (complete_of_meets rfl (Runs.run_cons.2 ⟨loaded, ⟨hfirst, ?_⟩,
    Runs.run_cons.2 ⟨ended, ⟨hsecond, ?_⟩, .nil _⟩⟩)).1⟩
  · refine ⟨.inr (.inl ⟨Gaps.sampleEntry 1, by decide, by decide⟩), fun gap hgap => ?_⟩
    have hnone : (syncPages (sampleState 2).cache (pagesBelow src sampleColumn
        (timelinePageLimit sampleColumn) (Gaps.sampleEntry 2).id)).2 = none := by decide
    simp [hnone] at hgap
  · refine ⟨.inl (by decide), fun gap hgap => ?_⟩
    have hnone : (syncPages loaded.cache (pagesBelow src sampleColumn
        (timelinePageLimit sampleColumn) (Gaps.sampleEntry 1).id)).2 = none := by decide
    simp [hnone] at hgap

/-- Below the third entry, down to the first. -/
theorem fills_of_chronological_sample :
    let src := sampleSource [3, 2, 1] [] (by decide) (by decide)
    let column : Column := ⟨some 2, none⟩
    let s : State := ⟨{Gaps.sampleEntry 3, Gaps.sampleEntry 1}, {Gaps.sampleEntry 3}, none, true⟩
    let gap : TimelineGap := ⟨"3", 3, "3"⟩
    Fills src column s gap (loadTimelineGap src column s gap) := by
  intro src column s gap
  exact fills_of_chronological (by unfold Chronological; decide) (by decide)

/-- Ten pages of boosts, and the column has no more. -/
theorem not_complete : ¬ ∀ src column s t labels, s.hasMore = true →
    Run (Step src column) s labels t → Complete src column s t ∧
      ∀ gap u, Step src column t (.loadGap gap) u → Fills src column t gap u := by
  intro h
  let src := sampleSource [12, 11, 10, 9, 8, 7, 6, 5, 4, 3, 2, 1]
    [11, 10, 9, 8, 7, 6, 5, 4, 3, 2] (by decide) (by decide)
  let s := sampleState 12
  have hstep : Step src sampleColumn s (.loadMore (Gaps.sampleEntry 12))
      (loadMoreTimeline src sampleColumn s (Gaps.sampleEntry 12)) :=
    .loadMore rfl rfl ⟨by decide, by decide⟩
  have hcomplete := (h src sampleColumn s _ _ rfl (.snoc (.nil s) hstep)).1
  have holder : Older src sampleColumn s (Gaps.sampleEntry 1) := by
    refine ⟨by decide, by decide, ⟨Gaps.sampleEntry 12, by decide⟩, fun o ho => ?_, by decide⟩
    obtain rfl := Finset.mem_singleton.1 ho.1
    decide
  exact absurd (hcomplete (by decide) (by decide) _ holder) (by decide)

end Awayuki.LoadMore
