import Awayuki.Library.Places
import Awayuki.Library.Runs
import Awayuki.Text

/-!
# Gaps of a cached timeline

A page of a chronological timeline is saved below what is newer and may leave entries missing
above what is older.  `sync_timeline_with_control` looks for that before it saves the page, and
the column keeps the gap for the user to load.

* `gapBeforePersisting`, `syncPages`: what the sync of a page finds;
* `Step`: entries appear, the column is refreshed, more is loaded, a gap is loaded;
* `NoSilentHole`: what is missing below a page is below a gap of the column;
* `no_silent_hole`: so it stays as long as no page sync overlooks what it leaves missing.
-/

namespace Awayuki.Gaps

open Places (Below Missing Hole)
open Runs (Run)

/-- An entry of the provider's timeline, and its row; positions are times. -/
structure Entry where
  id : Str
  uri : Str
  createdAt : ℤ
  deriving DecidableEq

structure TimelineGap where
  boundaryStatusId : Str
  boundaryPosition : ℤ
  nextMaxStatusId : Str
  deriving DecidableEq

/-- `min_by_key`, the first of several. -/
def oldest : List Entry → Option Entry
  | [] => none
  | entry :: page =>
    match oldest page with
    | none => some entry
    | some other => if other.createdAt < entry.createdAt then some other else some entry

variable {b : Entry} {page : List Entry}

theorem mem_of_oldest (h : oldest page = some b) : b ∈ page := by
  induction page generalizing b with
  | nil => cases h
  | cons entry page ih =>
    unfold oldest at h
    cases hrest : oldest page with
    | none =>
      rw [hrest] at h
      cases h
      exact List.mem_cons_self
    | some other =>
      rw [hrest] at h
      replace h : ite _ _ _ = some b := h
      split_ifs at h
      · cases h
        exact List.mem_cons_of_mem _ (ih hrest)
      · cases h
        exact List.mem_cons_self

/-- `timeline_gap_before_persisting`. -/
def gapBeforePersisting (cache : Finset Entry) (statuses : List Entry) : Option TimelineGap :=
  match oldest statuses with
  | none => none
  | some oldest =>
    if (∃ entry ∈ cache, entry.id = oldest.id ∧ entry.uri = oldest.uri) ∨
        ¬ ∃ entry ∈ cache, entry.createdAt < oldest.createdAt then none
    else some ⟨oldest.id, oldest.createdAt, oldest.id⟩

/-- Page after page, with the gap of the last. -/
def syncPages (cache : Finset Entry) (pages : List (List Entry)) :
    Finset Entry × Option TimelineGap :=
  pages.foldl (fun synced page =>
    (synced.1 ∪ page.toFinset, gapBeforePersisting synced.1 page)) (cache, none)

@[simp] theorem syncPages_nil (cache : Finset Entry) : syncPages cache [] = (cache, none) := rfl

theorem syncPages_snoc (cache : Finset Entry) (pages : List (List Entry)) (page : List Entry) :
    syncPages cache (pages ++ [page]) = ((syncPages cache pages).1 ∪ page.toFinset,
      gapBeforePersisting (syncPages cache pages).1 page) := by
  unfold syncPages
  rw [List.foldl_append]
  rfl

theorem syncPages_fst (cache : Finset Entry) (pages : List (List Entry)) :
    (syncPages cache pages).1 = cache ∪ pages.flatten.toFinset := by
  induction pages using List.reverseRecOn with
  | nil => simp
  | append_singleton pages page ih =>
    rw [syncPages_snoc, ih]
    simp [Finset.union_assoc]

variable {gap : TimelineGap}

/-- A gap is at the oldest entry of its page. -/
theorem gapBeforePersisting_some {cache : Finset Entry}
    (h : gapBeforePersisting cache page = some gap) :
    ∃ entry ∈ page, gap = ⟨entry.id, entry.createdAt, entry.id⟩ := by
  unfold gapBeforePersisting at h
  cases holdest : oldest page with
  | none => simp [holdest] at h
  | some entry =>
    rw [holdest] at h
    replace h : ite _ _ _ = some gap := h
    split_ifs at h with htest
    exact ⟨entry, mem_of_oldest holdest, (Option.some_inj.1 h).symm⟩

theorem syncPages_some {cache : Finset Entry} {pages : List (List Entry)}
    (h : (syncPages cache pages).2 = some gap) :
    ∃ entry ∈ pages.flatten, gap = ⟨entry.id, entry.createdAt, entry.id⟩ := by
  rcases List.eq_nil_or_concat pages with rfl | ⟨pages, page, rfl⟩
  · cases h
  · rw [List.concat_eq_append, syncPages_snoc] at h
    obtain ⟨entry, hentry, hgap⟩ := gapBeforePersisting_some h
    exact ⟨entry, by simp [hentry], hgap⟩

/-! ### The column and its source -/

/-- The provider's entries, the newest first, the cached ones, and the gap of the column, which is
at a cached entry: all gaps of one timeline and account have one key. -/
structure State where
  provider : List Entry
  cache : Finset Entry
  gap : Option TimelineGap
  nodup : (provider.map (·.id)).Nodup
  cached : ∀ entry ∈ cache, entry ∈ provider
  bounded : ∀ found ∈ gap, ∃ entry ∈ cache, found = ⟨entry.id, entry.createdAt, entry.id⟩

inductive Label
  | appear (entry : Entry) (streamed : Bool)
  | refresh (page : List Entry)
  | loadMore (maxStatus : Entry) (pages : List (List Entry))
  | loadGap (pages : List (List Entry))

def Label.pages : Label → List (List Entry)
  | .appear _ _ => []
  | .refresh page => [page]
  | .loadMore _ pages | .loadGap pages => pages

def MAX_API_PAGES_PER_LOAD_MORE : ℕ := 10

/-- Pages that the provider serves one after the other, from a place of its timeline on; the loop
goes on after a page that is not empty. -/
structure Served (provider : List Entry) (place : ℕ) (pages : List (List Entry)) : Prop where
  window : pages.flatten = (provider.drop place).take pages.flatten.length
  goesOn : [] ∉ pages.dropLast
  pos : pages ≠ []
  max : pages.length ≤ MAX_API_PAGES_PER_LOAD_MORE

inductive Step : State → Label → State → Prop
  | appear {s t : State} {entry : Entry} {streamed : Bool}
      (hprovider : t.provider = entry :: s.provider)
      (hcache : t.cache = if streamed then insert entry s.cache else s.cache)
      (hgap : t.gap = s.gap) : Step s (.appear entry streamed) t
  | refresh {s t : State} {page : List Entry} (hserved : Served s.provider 0 [page])
      (hprovider : t.provider = s.provider) (hcache : t.cache = (syncPages s.cache [page]).1)
      (hgap : t.gap = (syncPages s.cache [page]).2) : Step s (.refresh page) t
  | loadMore {s t : State} {maxStatus : Entry} {pages : List (List Entry)} (hnone : s.gap = none)
      (hmax : maxStatus ∈ s.cache)
      (hserved : Served s.provider (s.provider.idxOf maxStatus + 1) pages)
      (hprovider : t.provider = s.provider) (hcache : t.cache = (syncPages s.cache pages).1)
      (hgap : t.gap = (syncPages s.cache pages).2.or s.gap) : Step s (.loadMore maxStatus pages) t
  | loadGap {s t : State} {gap : TimelineGap} {boundary : Entry} {pages : List (List Entry)}
      (hsome : s.gap = some gap) (hboundary : boundary ∈ s.provider)
      (hid : boundary.id = gap.nextMaxStatusId)
      (hserved : Served s.provider (s.provider.idxOf boundary + 1) pages)
      (hprovider : t.provider = s.provider) (hcache : t.cache = (syncPages s.cache pages).1)
      (hgap : t.gap = (syncPages s.cache pages).2) : Step s (.loadGap pages) t

/-! ### Holes -/

/-- The oldest entries of the pages so far. -/
def boundaries (labels : List Label) : List Entry := (labels.flatMap Label.pages).filterMap oldest

/-- What is missing below the oldest entry of a page, and above a cached entry, is below a gap of
the column. -/
def NoSilentHole (labels : List Label) (s : State) : Prop :=
  ∀ b ∈ boundaries labels, ∀ m, Missing s.provider s.cache b m →
    ∃ gap top, s.gap = some gap ∧ top.id = gap.boundaryStatusId ∧ Below s.provider top m

/-- A page sync that finds no gap although, once it has saved its pages, entries are missing below
the oldest entry of a page. -/
def Overlooks (labels : List Label) (s : State) : Label → Prop
  | .appear _ _ => False
  | label => (syncPages s.cache label.pages).2 = none ∧
      ∃ b ∈ boundaries (labels ++ [label]),
        Hole s.provider (s.cache ∪ label.pages.flatten.toFinset) b

variable {s t : State} {labels : List Label} {label : Label}

theorem State.provider_nodup (s : State) : s.provider.Nodup := s.nodup.of_map _

theorem State.eq_of_id (s : State) {a : Entry} (ha : a ∈ s.provider) (hb : b ∈ s.provider)
    (h : a.id = b.id) : a = b := List.inj_on_of_nodup_map s.nodup ha hb h

theorem boundaries_snoc : boundaries (labels ++ [label]) =
    boundaries labels ++ label.pages.filterMap oldest := by
  simp [boundaries]

/-- The oldest entries of pages are in the window of the pages. -/
theorem mem_flatten_of_oldest {pages : List (List Entry)} (h : b ∈ pages.filterMap oldest) :
    b ∈ pages.flatten := by
  obtain ⟨page, hpage, hb⟩ := List.mem_filterMap.1 h
  exact List.mem_flatten.2 ⟨page, hpage, mem_of_oldest hb⟩

/-- A page sync, with the entry below which its pages are. -/
theorem noSilentHole_sync {place : ℕ} (top : Entry) {pages : List (List Entry)}
    (hs : NoSilentHole labels s)
    (hpages : label.pages = pages) (hserved : Served s.provider place pages)
    (htop : place = 0 ∨ top ∈ s.cache ∧ top ∈ s.provider ∧ place = s.provider.idxOf top + 1)
    (hgap : place ≠ 0 → ∀ gap, s.gap = some gap → top.id = gap.boundaryStatusId)
    (hprovider : t.provider = s.provider) (hcache : t.cache = (syncPages s.cache pages).1)
    (hnew : t.gap = (syncPages s.cache pages).2) :
    NoSilentHole (labels ++ [label]) t ↔ ¬ ((syncPages s.cache pages).2 = none ∧
      ∃ b ∈ boundaries (labels ++ [label]),
        Hole s.provider (s.cache ∪ pages.flatten.toFinset) b) := by
  have hplace {e : Entry} (he : e ∈ pages.flatten) : e ∈ s.provider ∧
      place ≤ s.provider.idxOf e ∧ s.provider.idxOf e < place + pages.flatten.length := by
    rw [hserved.window] at he
    exact (Places.mem_window s.provider_nodup).1 he
  unfold NoSilentHole
  rw [hprovider, hcache, syncPages_fst, hnew]
  cases hfound : (syncPages s.cache pages).2 with
  | none => simp [Hole]
  | some gap =>
    refine iff_of_true (fun b hbound m hmissing => ?_) nofun
    obtain ⟨entry, hentry, rfl⟩ := syncPages_some hfound
    refine ⟨_, entry, rfl, rfl, hmissing.1.1, ?_⟩
    have hmissing' := hmissing
    rw [hserved.window] at hmissing'
    rcases Places.missing_window s.provider_nodup htop hmissing' with hbelow | ⟨hat, hm, hold⟩
    · exact (hplace hentry).2.2.trans_le hbelow
    · -- what was missing above the pages was known, and lay below the entry above the pages
      exfalso
      rw [boundaries_snoc] at hbound
      rcases List.mem_append.1 hbound with hbound | hbound
      · obtain ⟨gap, top', hsome, hid, hbelow⟩ := hs b hbound m hold
        obtain rfl : top' = top := s.eq_of_id hbelow.mem_left (htop.resolve_left (by omega)).2.1
          (hid.trans (hgap (by omega) gap hsome).symm)
        have := hbelow.2
        omega
      · rw [hpages] at hbound
        have hwindow := (hplace (mem_flatten_of_oldest hbound)).2.1
        have := hold.1.2
        omega

/-- What a step does to the holes. -/
theorem noSilentHole_step (hb : ∀ b ∈ boundaries labels, b ∈ s.provider)
    (hs : NoSilentHole labels s) (h : Step s label t) :
    NoSilentHole (labels ++ [label]) t ↔ ¬ Overlooks labels s label := by
  cases h with
  | appear hprovider hcache hgap =>
    rename_i entry streamed
    refine iff_of_true (fun b hbound m hmissing => ?_) id
    rw [boundaries_snoc] at hbound
    replace hbound : b ∈ boundaries labels := by simpa [Label.pages] using hbound
    have hnew : entry ∉ s.provider := by
      have hnodup := t.provider_nodup
      rw [hprovider] at hnodup
      exact (List.nodup_cons.1 hnodup).1
    have hmissing' : Missing s.provider s.cache b m := by
      rw [← Places.missing_cons hnew (hb b hbound)]
      rw [hprovider, hcache] at hmissing
      split_ifs at hmissing
      · exact (Places.missing_insert_head (List.mem_cons_of_mem _ (hb b hbound))).1 hmissing
      · exact hmissing
    obtain ⟨gap, top, hsome, hid, hbelow⟩ := hs b hbound m hmissing'
    refine ⟨gap, top, hgap.trans hsome, hid, ?_⟩
    rw [hprovider]
    exact (Places.below_cons hnew hbelow.mem_left).2 hbelow
  | refresh hserved hprovider hcache hgap =>
    exact noSilentHole_sync ⟨[], [], 0⟩ hs rfl hserved (.inl rfl) (fun h => absurd rfl h) hprovider
      hcache hgap
  | loadMore hnone hmax hserved hprovider hcache hgap =>
    rename_i maxStatus pages
    refine noSilentHole_sync maxStatus hs rfl hserved (.inr ⟨hmax, s.cached _ hmax, rfl⟩)
      (fun _ gap hsome => ?_) hprovider hcache ?_
    · rw [hnone] at hsome
      cases hsome
    · rw [hgap, hnone, Option.or_none]
      rfl
  | loadGap hsome hboundary hid hserved hprovider hcache hgap =>
    rename_i gap boundary pages
    obtain ⟨entry, hentry, rfl⟩ := s.bounded gap hsome
    obtain rfl : boundary = entry := s.eq_of_id hboundary (s.cached _ hentry) hid
    refine noSilentHole_sync boundary hs rfl hserved (.inr ⟨hentry, hboundary, rfl⟩)
      (fun _ gap hsome' => ?_) hprovider hcache hgap
    rw [hsome] at hsome'
    cases hsome'
    rfl

/-! ### Runs -/

/-- The oldest entries of pages are entries of the provider. -/
theorem mem_provider_of_boundaries (hrun : Run Step s labels t) :
    ∀ b ∈ boundaries labels, b ∈ t.provider := by
  induction hrun with
  | nil => exact fun b hb => absurd hb List.not_mem_nil
  | @snoc t u labels label run last ih =>
    intro b hbound
    rw [boundaries_snoc] at hbound
    have hserved {place : ℕ} (h : Served t.provider place label.pages)
        (hb : b ∈ label.pages.filterMap oldest) : b ∈ t.provider := by
      have hmem := mem_flatten_of_oldest hb
      rw [h.window] at hmem
      exact List.mem_of_mem_drop (List.mem_of_mem_take hmem)
    rcases List.mem_append.1 hbound with hbound | hbound
    · have hmem := ih b hbound
      cases last with
      | appear hprovider =>
        rw [hprovider]
        exact List.mem_cons_of_mem _ hmem
      | refresh _ hprovider => rwa [hprovider]
      | loadMore _ _ _ hprovider => rwa [hprovider]
      | loadGap _ _ _ _ hprovider => rwa [hprovider]
    · cases last with
      | appear => cases hbound
      | refresh h hprovider => exact hprovider ▸ hserved h hbound
      | loadMore _ _ h hprovider => exact hprovider ▸ hserved h hbound
      | loadGap _ _ _ h hprovider => exact hprovider ▸ hserved h hbound

theorem noSilentHole_nil : NoSilentHole [] s := fun _ hb => absurd hb List.not_mem_nil

/-- Four entries; the first was read before the others appeared, the last with a gap below it. -/
def sampleEntry (n : ℕ) : Entry := ⟨(toString n).toList, (toString n).toList, n⟩

def sampleState (provider cached : List ℕ) (gap : Option ℕ)
    (hnodup : ((provider.map sampleEntry).map (·.id)).Nodup) (hcached : cached ⊆ provider)
    (hgap : ∀ n ∈ gap, n ∈ cached) : State where
  provider := provider.map sampleEntry
  cache := (cached.map sampleEntry).toFinset
  gap := gap.map fun n => ⟨(sampleEntry n).id, n, (sampleEntry n).id⟩
  nodup := hnodup
  cached := by
    intro entry hentry
    rw [List.mem_toFinset, List.mem_map] at hentry
    obtain ⟨n, hn, rfl⟩ := hentry
    exact List.mem_map_of_mem (hcached hn)
  bounded := by
    intro found hfound
    obtain ⟨n, hn, rfl⟩ := Option.map_eq_some_iff.1 hfound
    exact ⟨sampleEntry n, List.mem_toFinset.2 (List.mem_map_of_mem (hgap n hn)), rfl⟩

end Awayuki.Gaps
