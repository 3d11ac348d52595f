import Mathlib.Data.PNat.Basic
import Awayuki.Library.Cursor
import Awayuki.Library.Guarded
import Awayuki.Outbox.Delivery

/-!
# Continuation cursors

Timelines and collections are asked for page by page.  `load_more_api_timeline` and the loading of
gaps go on below the id of a status; `run_collection_phase` goes on at the `next_max_id` that the
adapter gives with a page.

* `Listing`: what a provider has, and the ways in which it is continued;
* `timelineStep`, `collectionStep`: one request for a page;
* `Enumerates`: the pages are the entries in their order, none left out and none twice;
* `enumerates_iff`: exactly if every request is made where the provider goes on from there.
-/

namespace Awayuki.Paging

open Outbox (ServerKind)
open Guarded (Throughout)

variable {ι : Type}

/-! ### Providers -/

/-- An entry has an id of its own besides that of its status.  Bluesky returns bookmarks of posts
that are blocked or not found without the post. -/
structure Entry (ι : Type) where
  entryId : ι
  statusId : ι
  createdAt : ℤ
  resolved : Bool
  deriving DecidableEq

inductive Listed
  | timeline | collection
  deriving DecidableEq

/-- A provider goes on below an id, or at a cursor that it returned with the page before. -/
inductive Protocol
  | below | returned
  deriving DecidableEq

/-- How a listing is continued. -/
def protocol : ServerKind → Listed → Protocol
  | .misskey, _ => .below
  | .mastodon, .timeline | .paon, .timeline => .below
  | .mastodon, .collection | .paon, .collection => .returned
  | .bluesky, _ => .returned

/-- The ids by which a listing is ordered. -/
def Entry.key : Listed → Entry ι → ι
  | .timeline, entry => entry.statusId
  | .collection, entry => entry.entryId

/-- What a provider lists, newest first, and the cursors that it returns with pages, by the places
where they end. -/
structure Listing (kind : ServerKind) (listed : Listed) (ι : Type) [LinearOrder ι] where
  entries : List (Entry ι)
  cursor : ℕ → Option ι
  nodup : entries.Nodup
  statuses_nodup : listed = .collection → (entries.map Entry.statusId).Nodup
  descending : protocol kind listed = .below →
    entries.Pairwise fun a b => b.key listed < a.key listed
  cursor_isSome : ∀ place < entries.length, (cursor place).isSome = true
  cursor_inj : ∀ {p q c}, cursor p = some c → cursor q = some c → p = q

inductive Phase
  | going | ended | failed
  deriving DecidableEq

/-- The pages so far, where the last one ended, and the cursor that came with it. -/
structure Progress (ι : Type) where
  pages : List (List (Entry ι))
  place : ℕ
  returned : Option ι
  phase : Phase
  deriving DecidableEq

def Progress.start : Progress ι := ⟨[], 0, none, .going⟩

def Progress.served (p : Progress ι) : List (Entry ι) := p.pages.flatten

def Progress.lastPage (p : Progress ι) : List (Entry ι) := p.pages.getLast?.getD []

variable [LinearOrder ι] {kind : ServerKind} {listed : Listed}

/-- What the provider has for a request. -/
def Listing.left (l : Listing kind listed ι) (p : Progress ι) :
    Option ι → Option (List (Entry ι))
  | none => some l.entries
  | some cursor =>
    match protocol kind listed with
    | .below => some (l.entries.filter fun entry => entry.key listed < cursor)
    | .returned => if p.returned = some cursor then some (l.entries.drop p.place) else none

/-- It answers with a page of that. -/
def Listing.answered (l : Listing kind listed ι) (p : Progress ι) (left : List (Entry ι))
    (size : ℕ+) (phase : Phase) : Progress ι :=
  let page := left.take size
  let place := l.entries.length - left.length + page.length
  ⟨p.pages ++ [page], place, l.cursor place, phase⟩

/-! ### Timelines -/

/-- What a column shows of what was loaded, in its order. -/
structure Column (ι : Type) where
  shown : List (Entry ι) → List (Entry ι)
  subset : ∀ entries, shown entries ⊆ entries

/-- A page is asked for in the loop of `load_more_api_timeline`, for the gap below the page before,
or because the user wants more than the column shows. -/
inductive Turn (ι : Type)
  | page (size : ℕ+)
  | gap (size : ℕ+)
  | more (column : Column ι) (size : ℕ+)

def Turn.size : Turn ι → ℕ+
  | .page size => size
  | .gap size => size
  | .more _ size => size

/-- The status below which it is to go on.  `timeline_gap_before_persisting` and `oldest` of the
store go by the times of the statuses. -/
def Turn.status (p : Progress ι) : Turn ι → Option (Entry ι)
  | .page _ => p.lastPage.getLast?
  | .gap _ => p.lastPage.minOn? Entry.createdAt
  | .more column _ => (column.shown p.served).minOn? Entry.createdAt

/-- All adapters send the id of that status: as `max_id`, as `untilId`, as `cursor`. -/
def Turn.maxId (p : Progress ι) (turn : Turn ι) : Option ι := (turn.status p).map Entry.statusId

/-- A timeline has no more after an empty page. -/
def Listing.timelineStep (l : Listing kind .timeline ι) (p : Progress ι) (turn : Turn ι) :
    Progress ι :=
  match p.phase with
  | .going =>
    match l.left p (turn.maxId p) with
    | none => { p with phase := .failed }
    | some left =>
      l.answered p left turn.size (if left.take turn.size = [] then .ended else .going)
  | _ => p

/-- `MAX_API_PAGES_PER_LOAD_MORE`. -/
def maxApiPagesPerLoadMore : ℕ := 10

/-- The loop of `load_more_api_timeline` asks for pages until it has found enough. -/
def Listing.loadMorePages (l : Listing kind .timeline ι) (limit : ℕ) (size : ℕ+)
    (filter : Entry ι → Bool) : ℕ → Turn ι → ℕ → Progress ι → Progress ι
  | 0, _, _, p => p
  | pages + 1, turn, found, p =>
    if found < limit ∧ p.phase = .going then
      let next := l.timelineStep p turn
      l.loadMorePages limit size filter pages (.page size) (found + next.lastPage.countP filter)
        next
    else p

/-! ### Collections -/

structure PaginatedResponse (ι : Type) where
  data : List (Entry ι)
  nextMaxId : Option ι

/-- `get_bookmarks` and `get_favourites` of the adapters, of a page and the cursor that came with
it.  Misskey is sent the id of the last note. -/
def getCollection (kind : ServerKind) (page : List (Entry ι)) (returned : Option ι) :
    PaginatedResponse ι :=
  match kind with
  | .mastodon | .paon => ⟨page, returned⟩
  | .misskey => ⟨page, page.getLast?.map Entry.statusId⟩
  | .bluesky => ⟨page.filter Entry.resolved, returned⟩

/-- A full reconciliation in `run_collection_phase`, with the cursor of its checkpoint. -/
structure Sync (ι : Type) where
  progress : Progress ι
  cursor : Option ι
  seenCursors : List ι

def Sync.start : Sync ι := ⟨.start, none, []⟩

/-- The next page of a reconciliation, in the same run or resumed in a later one. -/
structure PageRequest where
  size : ℕ+
  resumed : Bool

def PageRequest.seen (r : PageRequest) (s : Sync ι) : List ι :=
  if r.resumed = true then s.cursor.toList else s.seenCursors

/-- One turn of the loop. -/
def Listing.collectionStep (l : Listing kind .collection ι) (s : Sync ι) (r : PageRequest) :
    Sync ι :=
  match s.progress.phase with
  | .going =>
    match l.left s.progress s.cursor with
    | none => { s with progress := { s.progress with phase := .failed } }
    | some left =>
      let next := l.answered s.progress left r.size
      let response := getCollection kind (left.take r.size) (next .going).returned
      if response.data = [] then ⟨next .ended, response.nextMaxId, r.seen s⟩
      else
        match response.nextMaxId with
        | none => ⟨next .ended, none, r.seen s⟩
        | some cursor =>
          if cursor ∈ r.seen s then ⟨next .failed, some cursor, r.seen s⟩
          else ⟨next .going, some cursor, cursor :: r.seen s⟩
  | _ => s

/-! ### What the pages are -/

/-- No request is refused, the pages are the first entries in their order, and all of them once
the run has ended. -/
def Enumerates (l : Listing kind listed ι) (p : Progress ι) : Prop :=
  p.phase ≠ .failed ∧ p.served <+: l.entries ∧ (p.phase = .ended → p.served = l.entries)

/-- A timeline goes on below the id of the last status.  That is the oldest of a page or of a
column if times descend as ids do.  A cursor of Bluesky is not the id of a status. -/
def Turn.Continues (kind : ServerKind) (p : Progress ι) (turn : Turn ι) : Prop :=
  p.phase = .going → p.pages ≠ [] →
    match protocol kind .timeline, turn with
    | .below, .page _ => True
    | .below, turn => turn.status p = p.lastPage.getLast?
    | .returned, turn => ∃ cursor, turn.maxId p = some cursor ∧ p.returned = some cursor

/-- The favourites of Misskey go on below the id of the last note if that separates their ids.  A
page of Bluesky bookmarks has a post unless it is the last. -/
def Listing.Continues (l : Listing kind .collection ι) (s : Sync ι) (r : PageRequest) : Prop :=
  s.progress.phase = .going →
    match kind with
    | .mastodon | .paon => True
    | .misskey => ∀ last ∈ s.progress.served.getLast?,
        (∀ entry ∈ l.entries.take s.progress.place, last.statusId ≤ entry.entryId) ∧
          ∀ entry ∈ l.entries.drop s.progress.place, entry.entryId < last.statusId
    | .bluesky => l.entries.length ≤ s.progress.place + r.size ∨
        ∃ entry ∈ (l.entries.drop s.progress.place).take r.size, entry.resolved = true

/-! ### Requests -/

variable {entry : Entry ι}

section Requests

variable {l : Listing kind listed ι} {p : Progress ι} {left : List (Entry ι)} {size : ℕ+}
  {phase : Phase}

/-- What has been served is the beginning of the listing, and the provider stands where it ends. -/
structure Good (l : Listing kind listed ι) (p : Progress ι) : Prop where
  served : p.served = l.entries.take p.place
  place_le : p.place ≤ l.entries.length
  returned : p.pages ≠ [] → p.returned = l.cursor p.place
  nonempty : p.phase = .going → ∀ page ∈ p.pages, page ≠ []
  ended : p.phase = .ended → l.entries.length ≤ p.place
  sound : p.phase ≠ .failed

@[simp] theorem served_answered :
    (l.answered p left size phase).served = p.served ++ left.take size := by
  unfold Listing.answered Progress.served
  rw [List.flatten_append, List.flatten_singleton]

theorem Good.start : Good l .start where
  served := rfl
  place_le := Nat.zero_le _
  returned := fun h => absurd rfl h
  nonempty := fun _ _ hpage => by cases hpage
  ended := fun h => by cases h
  sound := fun h => by cases h

theorem Good.enumerates (h : Good l p) : Enumerates l p := by
  refine ⟨h.sound, ?_, fun hended => ?_⟩
  · rw [h.served]
    exact List.take_prefix _ _
  · rw [h.served, List.take_of_length_le (h.ended hended)]

theorem Good.place_of_nil (h : Good l p) (hpages : p.pages = []) : p.place = 0 := by
  have hserved := congrArg List.length h.served
  rw [List.length_take_of_le h.place_le] at hserved
  simp only [Progress.served, hpages, List.flatten_nil, List.length_nil] at hserved
  exact hserved.symm

theorem Good.getLast?_served (h : Good l p) (hgoing : p.phase = .going) (hpages : p.pages ≠ []) :
    p.served.getLast? = p.lastPage.getLast? := by
  obtain ⟨before, page, heq⟩ := (List.eq_nil_or_concat p.pages).resolve_left hpages
  rw [List.concat_eq_append] at heq
  have hpage : page ≠ [] := h.nonempty hgoing page (by simp [heq])
  rw [Progress.served, Progress.lastPage, heq, List.flatten_append, List.flatten_singleton,
    List.getLast?_append_of_ne_nil _ hpage, List.getLast?_concat, Option.getD_some]

theorem left_suffix {cursor : Option ι} (hleft : l.left p cursor = some left) :
    left <:+ l.entries := by
  unfold Listing.left at hleft
  cases cursor with
  | none =>
    cases hleft
    exact List.suffix_rfl
  | some cursor =>
    dsimp only at hleft
    split at hleft
    · next hprotocol =>
      cases hleft
      exact Cursor.filter_suffix (l.descending hprotocol) cursor
    · split_ifs at hleft
      cases hleft
      exact List.drop_suffix _ _

theorem place_answered (h : p.place ≤ l.entries.length) (size : ℕ+) (phase : Phase) :
    (l.answered p (l.entries.drop p.place) size phase).place =
      min (p.place + size) l.entries.length := by
  change l.entries.length - (l.entries.drop p.place).length +
    ((l.entries.drop p.place).take size).length = _
  rw [List.length_take, List.length_drop]
  omega

/-- A page from where the last one ended. -/
theorem Good.answered (h : Good l p) (hgoing : p.phase = .going)
    (hnonempty : phase = .going → (l.entries.drop p.place).take size ≠ [])
    (hended : phase = .ended → l.entries.length ≤ p.place + size) (hsound : phase ≠ .failed) :
    Good l (l.answered p (l.entries.drop p.place) size phase) where
  served := by
    rw [served_answered, h.served, ← List.take_add, place_answered h.place_le _ _]
    exact List.take_eq_take_iff.2 (by omega)
  place_le := by
    rw [place_answered h.place_le _ _]
    exact min_le_right _ _
  returned := fun _ => rfl
  nonempty := by
    intro hphase page hpage
    rcases List.mem_append.1 hpage with hpage | hpage
    · exact h.nonempty hgoing page hpage
    · rw [List.mem_singleton.1 hpage]
      exact hnonempty hphase
  ended := by
    intro hphase
    rw [place_answered h.place_le _ _]
    exact le_min (hended hphase) le_rfl
  sound := hsound

/-- A page from elsewhere is seen to be wrong. -/
theorem Good.left_eq (h : Good l p) {cursor : Option ι} (hleft : l.left p cursor = some left)
    (hempty : left.take size = [] → phase = .ended)
    (hanswered : Enumerates l (l.answered p left size phase)) :
    left = l.entries.drop p.place := by
  obtain ⟨-, hbegin, hend⟩ := hanswered
  rw [served_answered, h.served] at hbegin hend
  refine (Cursor.continues_iff l.nodup (left_suffix hleft) size.pos h.place_le).1
    ⟨hbegin, fun hnil => ?_⟩
  have hserved := hend (hempty hnil)
  rwa [hnil, List.append_nil] at hserved

theorem enumerates_of_answered (hgoing : p.phase = .going)
    (h : Enumerates l (l.answered p left size phase)) : Enumerates l p := by
  refine ⟨?_, ?_, ?_⟩
  · rw [hgoing]
    exact fun hfailed => by cases hfailed
  · have hbegin := h.2.1
    rw [served_answered] at hbegin
    exact (List.prefix_append _ _).trans hbegin
  · rw [hgoing]
    exact fun hended => by cases hended

/-- Below an entry that has been served is what has not, if it was the last. -/
theorem Good.left_below_iff (h : Good l p) (hprotocol : protocol kind listed = .below)
    (hentry : entry ∈ p.served) :
    l.left p (some (entry.key listed)) = some (l.entries.drop p.place) ↔
      p.served.getLast? = some entry := by
  obtain ⟨before, after, hsplit⟩ := List.append_of_mem hentry
  have hentries : l.entries = before ++ entry :: (after ++ l.entries.drop p.place) := by
    calc l.entries = p.served ++ l.entries.drop p.place := by
          rw [h.served, List.take_append_drop]
      _ = before ++ entry :: (after ++ l.entries.drop p.place) := by
          rw [hsplit, List.append_assoc, List.cons_append]
  have hleft : l.left p (some (entry.key listed)) = some (after ++ l.entries.drop p.place) := by
    have hdescending := l.descending hprotocol
    rw [hentries] at hdescending
    unfold Listing.left
    dsimp only
    rw [hprotocol]
    dsimp only
    conv_lhs => rw [hentries]
    rw [Cursor.filter_after hdescending]
  rw [hleft, Option.some_inj, List.append_left_eq_self, hsplit]
  constructor
  · rintro rfl
    exact List.getLast?_concat
  · intro hlast
    by_contra hafter
    have hmem : entry ∈ after := by
      rw [List.append_cons, List.getLast?_append_of_ne_nil _ hafter] at hlast
      exact List.mem_of_getLast? hlast
    have hnodup := l.nodup
    rw [hentries] at hnodup
    have hnotin := (List.nodup_cons.1 (List.nodup_append.1 hnodup).2.1).1
    exact hnotin (List.mem_append_left _ hmem)

theorem Good.served_ne_nil (h : Good l p) (hgoing : p.phase = .going) (hpages : p.pages ≠ []) :
    p.served ≠ [] := by
  obtain ⟨page, hpage⟩ := List.exists_mem_of_ne_nil _ hpages
  intro hnil
  exact h.nonempty hgoing page hpage (List.flatten_eq_nil_iff.1 hnil page hpage)

/-- Once something has been served, a request without a cursor starts again. -/
theorem Good.left_none (h : Good l p) (hgoing : p.phase = .going) (hpages : p.pages ≠ []) :
    l.left p none ≠ some (l.entries.drop p.place) := by
  intro hleft
  have hplace := h.place_le
  have hpos : 0 < p.place := by
    have hlength := List.length_pos_iff.2 (h.served_ne_nil hgoing hpages)
    rw [h.served, List.length_take_of_le hplace] at hlength
    exact hlength
  have hlength := congrArg List.length (Option.some_inj.1 hleft)
  rw [List.length_drop] at hlength
  omega

theorem left_returned (hprotocol : protocol kind listed = .returned) (cursor : ι) :
    l.left p (some cursor) =
      if p.returned = some cursor then some (l.entries.drop p.place) else none := by
  unfold Listing.left
  dsimp only
  rw [hprotocol]

end Requests

/-! ### Runs of timelines -/

section Timelines

variable {l : Listing kind .timeline ι} {p : Progress ι} {turn : Turn ι}

omit [LinearOrder ι] in
theorem mem_served_of_status (h : turn.status p = some entry) : entry ∈ p.served := by
  have hlast : ∀ entry ∈ p.lastPage, entry ∈ p.served := by
    intro entry hentry
    unfold Progress.lastPage at hentry
    cases hpage : p.pages.getLast? with
    | none =>
      rw [hpage] at hentry
      cases hentry
    | some page =>
      rw [hpage] at hentry
      exact List.mem_flatten.2 ⟨page, List.mem_of_getLast? hpage, hentry⟩
  cases turn with
  | page size => exact hlast entry (List.mem_of_getLast? h)
  | gap size => exact hlast entry (List.minOn?_mem h)
  | more column size => exact column.subset _ (List.minOn?_mem h)

omit [LinearOrder ι] in
theorem maxId_of_nil (hpages : p.pages = []) : turn.maxId p = none := by
  unfold Turn.maxId
  cases hstatus : turn.status p with
  | none => rfl
  | some entry =>
    have hmem := mem_served_of_status hstatus
    rw [Progress.served, hpages] at hmem
    cases hmem

/-- The provider goes on from where the last page ended. -/
theorem Good.left_maxId (h : Good l p) (hgoing : p.phase = .going) :
    l.left p (turn.maxId p) = some (l.entries.drop p.place) ↔ turn.Continues kind p := by
  by_cases hpages : p.pages = []
  · rw [maxId_of_nil hpages, h.place_of_nil hpages, List.drop_zero]
    exact iff_of_true rfl fun _ hne => absurd hpages hne
  have hcontinues : turn.Continues kind p ↔
      match protocol kind .timeline, turn with
      | .below, .page _ => True
      | .below, turn => turn.status p = p.lastPage.getLast?
      | .returned, turn => ∃ cursor, turn.maxId p = some cursor ∧ p.returned = some cursor :=
    ⟨fun h => h hgoing hpages, fun h _ _ => h⟩
  have hlast := h.getLast?_served hgoing hpages
  rw [hcontinues]
  cases hprotocol : protocol kind .timeline with
  | below =>
    have hstatus : l.left p (turn.maxId p) = some (l.entries.drop p.place) ↔
        turn.status p = p.lastPage.getLast? := by
      unfold Turn.maxId
      cases hstatus : turn.status p with
      | none =>
        refine iff_of_false (h.left_none hgoing hpages) fun hnone => ?_
        rw [← hlast, eq_comm, List.getLast?_eq_none_iff] at hnone
        exact h.served_ne_nil hgoing hpages hnone
      | some entry =>
        rw [← hlast]
        exact (h.left_below_iff hprotocol (mem_served_of_status hstatus)).trans eq_comm
    cases turn with
    | page size => exact iff_of_true (hstatus.2 rfl) trivial
    | gap size => exact hstatus
    | more column size => exact hstatus
  | returned =>
    dsimp only
    cases hmax : turn.maxId p with
    | none =>
      refine iff_of_false (h.left_none hgoing hpages) ?_
      rintro ⟨cursor, hcursor, -⟩
      cases hcursor
    | some cursor =>
      rw [left_returned hprotocol]
      split_ifs with hreturned
      · exact iff_of_true rfl ⟨cursor, rfl, hreturned⟩
      · refine iff_of_false (fun h => by cases h) ?_
        rintro ⟨_, hcursor, hother⟩
        rw [← hcursor] at hother
        exact hreturned hother

theorem timelineStep_of_not_going (h : p.phase ≠ .going) : l.timelineStep p turn = p := by
  unfold Listing.timelineStep
  cases hphase : p.phase with
  | going => exact absurd hphase h
  | ended => rfl
  | failed => rfl

theorem timelineStep_of_left (hgoing : p.phase = .going) {left : List (Entry ι)}
    (hleft : l.left p (turn.maxId p) = some left) :
    l.timelineStep p turn =
      l.answered p left turn.size (if left.take turn.size = [] then .ended else .going) := by
  unfold Listing.timelineStep
  rw [hgoing]
  dsimp only
  rw [hleft]

theorem timelineStep_of_refused (hgoing : p.phase = .going)
    (hleft : l.left p (turn.maxId p) = none) :
    (l.timelineStep p turn).phase = .failed := by
  unfold Listing.timelineStep
  rw [hgoing]
  dsimp only
  rw [hleft]

theorem enumerates_of_timelineStep (h : Enumerates l (l.timelineStep p turn)) :
    Enumerates l p := by
  by_cases hgoing : p.phase = .going
  · cases hleft : l.left p (turn.maxId p) with
    | none => exact absurd (timelineStep_of_refused hgoing hleft) h.1
    | some left =>
      rw [timelineStep_of_left hgoing hleft] at h
      exact enumerates_of_answered hgoing h
  · rwa [timelineStep_of_not_going hgoing] at h

theorem Good.timelineStep (h : Good l p) (hcontinues : turn.Continues kind p) :
    Good l (l.timelineStep p turn) := by
  by_cases hgoing : p.phase = .going
  · rw [timelineStep_of_left hgoing ((h.left_maxId hgoing).2 hcontinues)]
    refine h.answered hgoing (fun hphase hnil => ?_) (fun hphase => ?_) fun hphase => ?_
    · rw [if_pos hnil] at hphase
      cases hphase
    · split_ifs at hphase with hnil
      rcases List.take_eq_nil_iff.1 hnil with hzero | hnil
      · exact absurd hzero turn.size.ne_zero
      · exact (List.drop_eq_nil_iff.1 hnil).trans (Nat.le_add_right _ _)
    · split_ifs at hphase
  · rwa [timelineStep_of_not_going hgoing]

theorem Good.continues (h : Good l p) (hstep : Enumerates l (l.timelineStep p turn)) :
    turn.Continues kind p := by
  intro hgoing
  refine (h.left_maxId hgoing).1 ?_ hgoing
  cases hleft : l.left p (turn.maxId p) with
  | none => exact absurd (timelineStep_of_refused hgoing hleft) hstep.1
  | some left =>
    rw [timelineStep_of_left hgoing hleft] at hstep
    rw [h.left_eq hleft (fun hnil => if_pos hnil) hstep]

/-- The loop of `load_more_api_timeline` is a run of requests, of which all but the first are for
the page after the last. -/
theorem loadMorePages_eq (limit : ℕ) (size : ℕ+) (filter : Entry ι → Bool) (pages : ℕ)
    (first : Turn ι) (found : ℕ) :
    ∃ n ≤ pages, l.loadMorePages limit size filter pages first found p =
      ((first :: List.replicate n (.page size)).take n).foldl l.timelineStep p := by
  induction pages generalizing first found p with
  | zero => exact ⟨0, le_rfl, rfl⟩
  | succ pages ih =>
    unfold Listing.loadMorePages
    split_ifs with hmore
    · obtain ⟨n, hn, heq⟩ :=
        ih (.page size) (found + (l.timelineStep p first).lastPage.countP filter)
      refine ⟨n + 1, Nat.succ_le_succ hn, heq.trans ?_⟩
      rw [List.take_succ_cons, List.foldl_cons, ← List.replicate_succ]
    · exact ⟨0, Nat.zero_le _, rfl⟩

variable {turns : List (Turn ι)}

theorem Good.foldl_timelineStep (h : Good l p)
    (hturns : Throughout l.timelineStep (Turn.Continues kind) p turns) :
    Good l (turns.foldl l.timelineStep p) := by
  induction turns generalizing p with
  | nil => exact h
  | cons turn turns ih => exact ih (h.timelineStep hturns.1) hturns.2

/-- A provider that goes on below an id answers the loop of `load_more_api_timeline` with its next
entries, whatever the limit, the size of the pages and the display filter. -/
theorem loadMorePages_enumerates (hprotocol : protocol kind .timeline = .below)
    (hturns : Throughout l.timelineStep (Turn.Continues kind) .start turns) {first : Turn ι}
    (hfirst : first.Continues kind (turns.foldl l.timelineStep .start)) (limit : ℕ) (size : ℕ+)
    (filter : Entry ι → Bool) :
    Enumerates l (l.loadMorePages limit size filter maxApiPagesPerLoadMore first 0
      (turns.foldl l.timelineStep .start)) := by
  have hgood : Good l (turns.foldl l.timelineStep .start) := Good.start.foldl_timelineStep hturns
  have hpages (n : ℕ) (p : Progress ι) : Throughout l.timelineStep (Turn.Continues kind) p
      (List.replicate n (.page size)) := by
    induction n generalizing p with
    | zero => trivial
    | succ n ih =>
      refine ⟨fun _ _ => ?_, ih _⟩
      rw [hprotocol]
      trivial
  obtain ⟨n, -, heq⟩ := loadMorePages_eq (l := l) limit size filter maxApiPagesPerLoadMore first 0
  rw [heq]
  refine (hgood.foldl_timelineStep ?_).enumerates
  cases n with
  | zero => trivial
  | succ n =>
    rw [List.take_succ_cons, List.take_replicate]
    exact ⟨hfirst, hpages _ _⟩

end Timelines

/-! ### Runs of reconciliations -/

/-- The cursors at which what was served so far has been continued. -/
def Passed (l : Listing kind .collection ι) (p : Progress ι) (cursor : ι) : Prop :=
  match kind with
  | .misskey => ∃ entry ∈ p.served, entry.statusId = cursor
  | _ => ∃ place ≤ p.place, l.cursor place = some cursor

structure GoodSync (l : Listing kind .collection ι) (s : Sync ι) : Prop where
  progress : Good l s.progress
  first : s.progress.pages = [] → s.cursor = none
  next : s.progress.phase = .going → s.progress.pages ≠ [] → s.cursor.isSome = true ∧
    s.cursor = (getCollection kind s.progress.served s.progress.returned).nextMaxId
  passed : ∀ cursor ∈ s.seenCursors, Passed l s.progress cursor

section Collections

variable {l : Listing kind .collection ι} {s : Sync ι} {r : PageRequest} {cursor : ι}

theorem GoodSync.start : GoodSync l .start where
  progress := .start
  first := fun _ => rfl
  next := fun _ h => absurd rfl h
  passed := fun _ h => by cases h

theorem Good.passed {p : Progress ι} (h : Good l p) (hpages : p.pages ≠ [])
    (hcursor : (getCollection kind p.served p.returned).nextMaxId = some cursor) :
    Passed l p cursor := by
  have hreturned := h.returned hpages
  unfold Passed
  unfold getCollection at hcursor
  cases kind with
  | misskey =>
    obtain ⟨entry, hentry, heq⟩ := Option.map_eq_some_iff.1 hcursor
    exact ⟨entry, List.mem_of_getLast? hentry, heq⟩
  | mastodon => exact ⟨p.place, le_rfl, hreturned.symm.trans hcursor⟩
  | paon => exact ⟨p.place, le_rfl, hreturned.symm.trans hcursor⟩
  | bluesky => exact ⟨p.place, le_rfl, hreturned.symm.trans hcursor⟩

theorem GoodSync.passed_seen (h : GoodSync l s) (hgoing : s.progress.phase = .going) :
    ∀ cursor ∈ r.seen s, Passed l s.progress cursor := by
  intro cursor hcursor
  unfold PageRequest.seen at hcursor
  split_ifs at hcursor
  · rw [Option.mem_toList] at hcursor
    have hpages : s.progress.pages ≠ [] := by
      intro hnil
      rw [h.first hnil] at hcursor
      cases hcursor
    exact h.progress.passed hpages ((h.next hgoing hpages).2.symm.trans hcursor)
  · exact h.passed cursor hcursor

/-- The provider goes on from where the last page ended. -/
theorem GoodSync.left_cursor (h : GoodSync l s) (hgoing : s.progress.phase = .going) :
    l.left s.progress s.cursor = some (l.entries.drop s.progress.place) ↔
      (kind = .misskey → ∀ last ∈ s.progress.served.getLast?,
        (∀ entry ∈ l.entries.take s.progress.place, last.statusId ≤ entry.entryId) ∧
          ∀ entry ∈ l.entries.drop s.progress.place, entry.entryId < last.statusId) := by
  by_cases hpages : s.progress.pages = []
  · rw [h.first hpages, h.progress.place_of_nil hpages, List.drop_zero]
    refine iff_of_true rfl fun _ last hlast => ?_
    rw [Progress.served, hpages] at hlast
    cases hlast
  obtain ⟨hsome, hcursor⟩ := h.next hgoing hpages
  obtain ⟨cursor, heq⟩ := Option.isSome_iff_exists.1 hsome
  have hreturned : protocol kind .collection = .returned → kind ≠ .misskey →
      s.progress.returned = some cursor →
      l.left s.progress (some cursor) = some (l.entries.drop s.progress.place) := by
    intro hprotocol _ hreturned
    rw [left_returned hprotocol, if_pos hreturned]
  rw [heq] at hcursor ⊢
  unfold getCollection at hcursor
  cases kind with
  | misskey =>
    obtain ⟨last, hlast, hstatus⟩ := Option.map_eq_some_iff.1 hcursor.symm
    change some (l.entries.filter fun entry => entry.entryId < cursor) = _ ↔ _
    rw [Option.some_inj, Cursor.filter_eq_drop_iff, hlast, ← hstatus]
    simp
  | mastodon => exact iff_of_true (hreturned rfl (by decide) hcursor.symm) fun h => by cases h
  | paon => exact iff_of_true (hreturned rfl (by decide) hcursor.symm) fun h => by cases h
  | bluesky => exact iff_of_true (hreturned rfl (by decide) hcursor.symm) fun h => by cases h

theorem collectionStep_of_not_going (h : s.progress.phase ≠ .going) :
    l.collectionStep s r = s := by
  unfold Listing.collectionStep
  cases hphase : s.progress.phase with
  | going => exact absurd hphase h
  | ended => rfl
  | failed => rfl

theorem collectionStep_of_refused (hgoing : s.progress.phase = .going)
    (hleft : l.left s.progress s.cursor = none) :
    (l.collectionStep s r).progress.phase = .failed := by
  unfold Listing.collectionStep
  rw [hgoing]
  dsimp only
  rw [hleft]

omit [LinearOrder ι] in
theorem data_of_nil (returned : Option ι) : (getCollection kind [] returned).data = [] := by
  cases kind <;> rfl

/-- The page is saved whatever becomes of its cursor. -/
theorem collectionStep_of_left (hgoing : s.progress.phase = .going) {left : List (Entry ι)}
    (hleft : l.left s.progress s.cursor = some left) :
    ∃ phase, (l.collectionStep s r).progress = l.answered s.progress left r.size phase ∧
      ((getCollection kind (left.take r.size)
        (l.answered s.progress left r.size .going).returned).data = [] → phase = .ended) := by
  unfold Listing.collectionStep
  rw [hgoing]
  dsimp only
  rw [hleft]
  dsimp only
  split_ifs with hdata
  · exact ⟨.ended, rfl, fun _ => rfl⟩
  · split
    · exact ⟨.ended, rfl, fun _ => rfl⟩
    · split_ifs
      · exact ⟨.failed, rfl, fun h => absurd h hdata⟩
      · exact ⟨.going, rfl, fun h => absurd h hdata⟩

theorem enumerates_of_collectionStep (h : Enumerates l (l.collectionStep s r).progress) :
    Enumerates l s.progress := by
  by_cases hgoing : s.progress.phase = .going
  · cases hleft : l.left s.progress s.cursor with
    | none => exact absurd (collectionStep_of_refused hgoing hleft) h.1
    | some left =>
      obtain ⟨phase, heq, -⟩ := collectionStep_of_left (r := r) hgoing hleft
      rw [heq] at h
      exact enumerates_of_answered hgoing h
  · rwa [collectionStep_of_not_going hgoing] at h

/-- A page that has no post in it is the last. -/
def LastIfEmpty (l : Listing kind .collection ι) (p : Progress ι) (size : ℕ+) : Prop :=
  (getCollection kind ((l.entries.drop p.place).take size)
    (l.answered p (l.entries.drop p.place) size .going).returned).data = [] →
    l.entries.length ≤ p.place + size

theorem GoodSync.continues_iff (h : GoodSync l s) (hgoing : s.progress.phase = .going) :
    l.Continues s r ↔
      l.left s.progress s.cursor = some (l.entries.drop s.progress.place) ∧
        LastIfEmpty l s.progress r.size := by
  have hcontinues : ∀ {P : Prop}, (s.progress.phase = .going → P) ↔ P :=
    ⟨fun h => h hgoing, fun h _ => h⟩
  have hnil : (l.entries.drop s.progress.place).take r.size = [] →
      l.entries.length ≤ s.progress.place + r.size := by
    intro hnil
    rcases List.take_eq_nil_iff.1 hnil with hzero | hnil
    · exact absurd hzero r.size.ne_zero
    · exact (List.drop_eq_nil_iff.1 hnil).trans (Nat.le_add_right _ _)
  unfold Listing.Continues
  rw [h.left_cursor hgoing, hcontinues]
  cases kind with
  | mastodon => exact iff_of_true trivial ⟨fun h => (by cases h), hnil⟩
  | paon => exact iff_of_true trivial ⟨fun h => (by cases h), hnil⟩
  | misskey => exact ⟨fun h => ⟨fun _ => h, hnil⟩, fun h => h.1 rfl⟩
  | bluesky =>
    have hdata : LastIfEmpty l s.progress r.size ↔
        ((∀ entry ∈ (l.entries.drop s.progress.place).take r.size, ¬ entry.resolved = true) →
          l.entries.length ≤ s.progress.place + r.size) := by
      unfold LastIfEmpty getCollection
      rw [List.filter_eq_nil_iff]
    constructor
    · intro hcontinues
      refine ⟨fun h => (by cases h), hdata.2 fun hnone => ?_⟩
      rcases hcontinues with hlast | ⟨entry, hentry, hresolved⟩
      · exact hlast
      · exact absurd hresolved (hnone entry hentry)
    · rintro ⟨-, hlast⟩
      by_cases hany : ∃ entry ∈ (l.entries.drop s.progress.place).take r.size, entry.resolved = true
      · exact Or.inr hany
      · exact Or.inl (hdata.1 hlast fun entry hentry hresolved => hany ⟨entry, hentry, hresolved⟩)

theorem GoodSync.continues (h : GoodSync l s)
    (hstep : Enumerates l (l.collectionStep s r).progress) : l.Continues s r := by
  by_cases hgoing : s.progress.phase = .going
  · rw [h.continues_iff hgoing]
    cases hleft : l.left s.progress s.cursor with
    | none => exact absurd (collectionStep_of_refused hgoing hleft) hstep.1
    | some left =>
      obtain ⟨phase, heq, hended⟩ := collectionStep_of_left (r := r) hgoing hleft
      rw [heq] at hstep
      have hempty : left.take r.size = [] → phase = .ended := by
        intro hnil
        refine hended ?_
        rw [hnil]
        exact data_of_nil _
      obtain rfl := h.progress.left_eq hleft hempty hstep
      refine ⟨rfl, fun hdata => ?_⟩
      have hserved := hstep.2.2 (hended hdata)
      rw [served_answered, h.progress.served, ← List.take_add] at hserved
      exact (List.take_eq_self_iff _).1 hserved
  · exact fun h => absurd h hgoing

/-- A cursor is passed as long as the run goes on. -/
theorem Passed.answered (h : Passed l s.progress cursor) (hgood : Good l s.progress)
    {phase : Phase} :
    Passed l (l.answered s.progress (l.entries.drop s.progress.place) r.size phase) cursor := by
  unfold Passed at h ⊢
  rw [served_answered, place_answered hgood.place_le _ _]
  have hplace := hgood.place_le
  have hother : (∃ place ≤ s.progress.place, l.cursor place = some cursor) →
      ∃ place ≤ min (s.progress.place + r.size) l.entries.length, l.cursor place = some cursor := by
    rintro ⟨place, hle, hcursor⟩
    exact ⟨place, by omega, hcursor⟩
  cases kind with
  | misskey =>
    obtain ⟨entry, hentry, heq⟩ := h
    exact ⟨entry, List.mem_append_left _ hentry, heq⟩
  | mastodon => exact hother h
  | paon => exact hother h
  | bluesky => exact hother h

/-- The cursor of a new page has not been passed before. -/
theorem Good.not_passed (h : Good l s.progress)
    (hdata : (l.entries.drop s.progress.place).take r.size ≠ [])
    (hcursor : (getCollection kind ((l.entries.drop s.progress.place).take r.size)
      (l.answered s.progress (l.entries.drop s.progress.place) r.size .going).returned).nextMaxId =
        some cursor) : ¬ Passed l s.progress cursor := by
  have hplace : s.progress.place < min (s.progress.place + r.size) l.entries.length := by
    have hpos := List.length_pos_iff.2 hdata
    rw [List.length_take, List.length_drop] at hpos
    omega
  have hother : l.cursor (min (s.progress.place + r.size) l.entries.length) = some cursor →
      ¬ ∃ place ≤ s.progress.place, l.cursor place = some cursor := by
    rintro hnew ⟨place, hle, hold⟩
    have hsame := l.cursor_inj hold hnew
    omega
  unfold Passed
  unfold getCollection at hcursor
  rw [← place_answered h.place_le r.size .going] at hother
  cases kind with
  | misskey =>
    rintro ⟨entry, hentry, heq⟩
    obtain ⟨last, hlast, hstatus⟩ := Option.map_eq_some_iff.1 hcursor
    have hafter := List.mem_of_mem_take (List.mem_of_getLast? hlast)
    have hnodup := l.statuses_nodup rfl
    rw [h.served] at hentry
    rw [← List.take_append_drop s.progress.place l.entries, List.map_append,
      List.nodup_append] at hnodup
    exact hnodup.2.2 _ (List.mem_map_of_mem hentry) _ (List.mem_map_of_mem hafter)
      (heq.trans hstatus.symm)
  | mastodon => exact hother hcursor
  | paon => exact hother hcursor
  | bluesky => exact hother hcursor

omit [LinearOrder ι] in
theorem nextMaxId_append (page page' : List (Entry ι)) (returned : Option ι) (hpage : page' ≠ []) :
    (getCollection kind (page ++ page') returned).nextMaxId =
      (getCollection kind page' returned).nextMaxId := by
  unfold getCollection
  cases kind with
  | misskey =>
    dsimp only
    rw [List.getLast?_append_of_ne_nil _ hpage]
  | mastodon => rfl
  | paon => rfl
  | bluesky => rfl

/-- Without a cursor for the next page, the page was the last. -/
theorem Good.last_of_nextMaxId (h : Good l s.progress)
    (hpage : (l.entries.drop s.progress.place).take r.size ≠ [])
    (hcursor : (getCollection kind ((l.entries.drop s.progress.place).take r.size)
      (l.answered s.progress (l.entries.drop s.progress.place) r.size .going).returned).nextMaxId =
        none) : l.entries.length ≤ s.progress.place + r.size := by
  by_contra hlt
  have hplace := place_answered h.place_le r.size .going
  have hsome := l.cursor_isSome (l.answered s.progress (l.entries.drop s.progress.place) r.size
    .going).place (by rw [hplace]; omega)
  have hother : (l.answered s.progress (l.entries.drop s.progress.place) r.size
      .going).returned ≠ none := Option.isSome_iff_ne_none.1 hsome
  unfold getCollection at hcursor
  cases kind with
  | misskey => exact hpage (List.getLast?_eq_none_iff.1 (Option.map_eq_none_iff.1 hcursor))
  | mastodon => exact hother hcursor
  | paon => exact hother hcursor
  | bluesky => exact hother hcursor

theorem GoodSync.collectionStep (h : GoodSync l s) (hcontinues : l.Continues s r) :
    GoodSync l (l.collectionStep s r) := by
  by_cases hgoing : s.progress.phase = .going
  · obtain ⟨hleft, hlast⟩ := (h.continues_iff hgoing).1 hcontinues
    have hpassed : ∀ phase, ∀ cursor ∈ r.seen s, Passed l
        (l.answered s.progress (l.entries.drop s.progress.place) r.size phase) cursor :=
      fun phase cursor hcursor => (h.passed_seen hgoing cursor hcursor).answered h.progress
    have hpages : ∀ phase, (l.answered s.progress (l.entries.drop s.progress.place) r.size
        phase).pages ≠ [] := fun _ => List.append_ne_nil_of_right_ne_nil _ (List.cons_ne_nil _ _)
    have hended : l.entries.length ≤ s.progress.place + r.size → ∀ cursor,
        GoodSync l ⟨l.answered s.progress (l.entries.drop s.progress.place) r.size .ended, cursor,
          r.seen s⟩ := fun hlength cursor =>
      { progress := h.progress.answered hgoing (fun h => by cases h) (fun _ => hlength)
          fun h => by cases h
        first := fun hnil => absurd hnil (hpages .ended)
        next := fun hphase => by cases hphase
        passed := hpassed .ended }
    unfold Listing.collectionStep
    rw [hgoing]
    dsimp only
    rw [hleft]
    dsimp only
    split_ifs with hdata
    · exact hended (hlast hdata) _
    · have hpage : (l.entries.drop s.progress.place).take r.size ≠ [] := by
        intro hnil
        rw [hnil] at hdata
        exact hdata (data_of_nil _)
      split
      · next hnext => exact hended (h.progress.last_of_nextMaxId hpage hnext) none
      · next cursor hnext =>
        split_ifs with hseen
        · exact absurd (h.passed_seen hgoing cursor hseen) (h.progress.not_passed hpage hnext)
        · have hgood : Good l (l.answered s.progress (l.entries.drop s.progress.place) r.size
              .going) := h.progress.answered hgoing (fun _ => hpage) (fun h => by cases h)
            fun h => by cases h
          have hcursor : (getCollection kind (l.answered s.progress
              (l.entries.drop s.progress.place) r.size .going).served (l.answered s.progress
              (l.entries.drop s.progress.place) r.size .going).returned).nextMaxId =
                some cursor := by
            rw [served_answered, nextMaxId_append _ _ _ hpage]
            exact hnext
          exact
            { progress := hgood
              first := fun hnil => absurd hnil (hpages .going)
              next := fun _ _ => ⟨rfl, hcursor.symm⟩
              passed := fun other hother => by
                rcases List.mem_cons.1 hother with rfl | hother
                · exact hgood.passed (hpages .going) hcursor
                · exact hpassed .going other hother }
  · rwa [collectionStep_of_not_going hgoing]

end Collections

/-! ### The pages of a listing -/

theorem enumerates_iff (kind : ServerKind) :
    (∀ (l : Listing kind .timeline ι) (turns : List (Turn ι)),
      Enumerates l (turns.foldl l.timelineStep .start) ↔
        Throughout l.timelineStep (Turn.Continues kind) .start turns) ∧
    ∀ (l : Listing kind .collection ι) (requests : List PageRequest),
      Enumerates l (requests.foldl l.collectionStep .start).progress ↔
        Throughout l.collectionStep l.Continues .start requests := by
  constructor
  · intro l turns
    exact Guarded.holds_foldl_iff (Enumerates l) (fun _ h => h.enumerates)
      (fun _ _ => enumerates_of_timelineStep) (fun _ _ h => h.timelineStep)
      (fun _ _ h => h.continues) Good.start turns
  · intro l requests
    exact Guarded.holds_foldl_iff (fun s => Enumerates l s.progress)
      (fun _ h => h.progress.enumerates) (fun _ _ => enumerates_of_collectionStep)
      (fun _ _ h => h.collectionStep) (fun _ _ h => h.continues) GoodSync.start requests

/-- Two favourites of notes that are older than both. -/
def twoFavourites : Listing .misskey .collection ℕ where
  entries := [⟨30, 5, 5, true⟩, ⟨20, 8, 8, true⟩]
  cursor := some
  nodup := by decide
  statuses_nodup := fun _ => by decide
  descending := fun _ => by decide
  cursor_isSome := fun _ _ => rfl
  cursor_inj := fun hp hq => Option.some_inj.1 (hp.trans hq.symm)

def threeNotes : Listing .misskey .timeline ℕ where
  entries := [⟨3, 3, 3, true⟩, ⟨2, 2, 2, true⟩, ⟨1, 1, 1, true⟩]
  cursor := some
  nodup := by decide
  statuses_nodup := fun h => by cases h
  descending := fun _ => by decide
  cursor_isSome := fun _ _ => rfl
  cursor_inj := fun hp hq => Option.some_inj.1 (hp.trans hq.symm)

/-- After a page of one note, a call for two. -/
theorem loadMorePages_enumerates_threeNotes :
    Enumerates threeNotes (threeNotes.loadMorePages 2 1 (fun _ => true) maxApiPagesPerLoadMore
      (.page 1) 0 (([.page 1] : List (Turn ℕ)).foldl threeNotes.timelineStep .start)) :=
  loadMorePages_enumerates rfl (show Throughout threeNotes.timelineStep (Turn.Continues .misskey)
    .start [.page 1] from ⟨fun _ h => absurd rfl h, trivial⟩) (fun _ _ => trivial) 2 1 _

/-- The second page is asked for below the note of the first, and has nothing. -/
theorem not_enumerates : ¬ ∀ (kind : ServerKind),
    (∀ (l : Listing kind .timeline ℕ) (turns : List (Turn ℕ)),
      Enumerates l (turns.foldl l.timelineStep .start)) ∧
    ∀ (l : Listing kind .collection ℕ) (requests : List PageRequest),
      Enumerates l (requests.foldl l.collectionStep .start).progress := by
  intro h
  have hall := ((h .misskey).2 twoFavourites [⟨1, false⟩, ⟨1, false⟩]).2.2 (by decide)
  exact absurd hall (by decide)

end Awayuki.Paging
