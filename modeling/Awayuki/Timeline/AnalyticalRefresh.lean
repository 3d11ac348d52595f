import Awayuki.Text
import Awayuki.Library.OrderedMap
import Awayuki.Library.Runs

/-!
# Refreshing analytical columns

What a stream event changes in a column of Custom SQL, YQ or KQ cannot be told from the event:
`AnalyticalTimelineRefreshCoordinator` marks the column dirty and reads it again later, one column
after the other.  A mark has a version, so that a refresh does not take off a mark that came while
it ran.

* `invalidate`, `activate`, `cancel`, `reset`, `schedule`, `run`, `resume`: the methods;
* `step`: what happens between two awaits, and the refresh that it starts;
* `Allowed`: the mark goes with `cancel` or `reset`, or after a refresh that saw everything;
* `renewed`: how often a column was marked since it was cancelled during its refresh;
* `allowed_throughout_iff`: marks are lost exactly where that number is the old version.
-/

namespace Awayuki.AnalyticalRefresh

open Runs

/-! ### State -/

variable {mark : Option ℕ}

structure ColumnSummary where
  id : Str
  paneIndex : ℤ
  position : ℤ
  deriving DecidableEq, Repr

structure DirtyColumn where
  column : ColumnSummary
  version : ℕ
  deriving DecidableEq, Repr

/-- Where the work of a run is: at a refresh, with the candidates after it, or at its end, before
the callback of `finally`. -/
inductive Running
  | refreshing (current : DirtyColumn) (rest : List DirtyColumn)
  | finishing

structure Coordinator where
  dirty : OrderedMap Str DirtyColumn
  urgent : Finset Str
  failedVersions : Str → Option ℕ
  timerDueAt : Option ℤ
  running : Option Running
  nextAutomaticRefreshAt : ℤ

structure Options where
  initialDelayMs : ℤ
  cooldownMs : ℤ

/-- What the clock and the store answer while something happens. -/
structure Env where
  now : ℤ
  canAutoRefresh : ColumnSummary → Bool

namespace Coordinator

def initial : Coordinator := ⟨.empty, ∅, fun _ => none, none, none, 0⟩

/-! ### Methods -/

section Methods

variable (options : Options) (env : Env) (s : Coordinator)

def schedule (urgent : Bool) : Coordinator :=
  if s.running.isSome then s
  else
    let delay := if urgent then 0
      else max options.initialDelayMs (max 0 (s.nextAutomaticRefreshAt - env.now))
    let dueAt := env.now + delay
    if s.timerDueAt.any (· ≤ dueAt) then s else { s with timerDueAt := some dueAt }

def invalidate (column : ColumnSummary) : Coordinator :=
  let version := ((s.dirty.get column.id).map (·.version)).getD 0 + 1
  let s := { s with
    dirty := s.dirty.set column.id ⟨column, version⟩
    failedVersions := Function.update s.failedVersions column.id none }
  if env.canAutoRefresh column then s.schedule options env false else s

def activate (column : ColumnSummary) : Coordinator :=
  match s.dirty.get column.id with
  | none => s
  | some current =>
    schedule options env
      { s with
        dirty := s.dirty.set column.id { current with column := column }
        failedVersions := Function.update s.failedVersions column.id none
        urgent := insert column.id s.urgent }
      true

def cancel (columnId : Str) : Coordinator :=
  { s with
    dirty := s.dirty.delete columnId
    urgent := s.urgent.erase columnId
    failedVersions := Function.update s.failedVersions columnId none }

def reset : Coordinator :=
  { s with
    timerDueAt := none
    dirty := .empty
    urgent := ∅
    failedVersions := fun _ => none
    nextAutomaticRefreshAt := 0 }

/-- May the column be refreshed without being asked for? -/
def eligible (dirty : DirtyColumn) : Bool :=
  env.canAutoRefresh dirty.column && s.failedVersions dirty.column.id != some dirty.version

/-- The comparison of the sort: urgent columns first, then by their place. -/
def notAfter (left right : DirtyColumn) : Bool :=
  let urgency (dirty : DirtyColumn) : ℤ := if dirty.column.id ∈ s.urgent then 1 else 0
  let order := urgency right - urgency left
  if order ≠ 0 then order ≤ 0
  else if left.column.paneIndex ≠ right.column.paneIndex then
    left.column.paneIndex ≤ right.column.paneIndex
  else left.column.position ≤ right.column.position

def candidates : List DirtyColumn :=
  ((s.dirty.entries.map Prod.snd).filter fun dirty =>
    dirty.column.id ∈ s.urgent || s.eligible env dirty).insertionSort
      fun left right => s.notAfter left right

/-- The loop of the work, up to the next refresh or to its end. -/
def work (s : Coordinator) : List DirtyColumn → Coordinator
  | [] =>
    { s with
      nextAutomaticRefreshAt := env.now + options.cooldownMs
      running := some .finishing }
  | candidate :: rest =>
    match s.dirty.get candidate.column.id with
    | none => work s rest
    | some current =>
      let isUrgent := candidate.column.id ∈ s.urgent
      let s := { s with urgent := s.urgent.erase candidate.column.id }
      if !isUrgent && !env.canAutoRefresh current.column then work s rest
      else { s with running := some (.refreshing current rest) }

def run : Coordinator :=
  if s.running.isSome then s
  else if (s.candidates env).isEmpty then s
  else s.work options env (s.candidates env)

/-- Is the mark still the one that the refresh started with? -/
def sameVersion (current : DirtyColumn) : Bool :=
  (s.dirty.get current.column.id).map (·.version) == some current.version

/-- After the refresh of a column, which may have failed. -/
def settle (current : DirtyColumn) (success : Bool) : Coordinator :=
  if s.sameVersion current then
    if success then
      { s with
        dirty := s.dirty.delete current.column.id
        failedVersions := Function.update s.failedVersions current.column.id none }
    else
      { s with
        failedVersions :=
          Function.update s.failedVersions current.column.id (some current.version) }
  else s

/-- The callback of `finally`. -/
def finish : Coordinator :=
  let s := { s with running := none }
  if s.urgent.Nonempty then s.schedule options env true
  else if (s.dirty.entries.map Prod.snd).any (s.eligible env) then s.schedule options env false
  else s

end Methods

end Coordinator

/-! ### Steps -/

inductive Label
  | invalidate (column : ColumnSummary)
  | activate (column : ColumnSummary)
  | cancel (columnId : Str)
  | reset
  | timer
  | refreshed (success : Bool)
  | finish

/-- The column that is being refreshed. -/
def Coordinator.refreshing (s : Coordinator) : Option DirtyColumn :=
  match s.running with
  | some (.refreshing current _) => some current
  | _ => none

/-- What happens, what the environment answers, and the refresh that is started. -/
structure Event where
  label : Label
  env : Env
  started : Option DirtyColumn

def step (options : Options) (s : Coordinator) (label : Label) (env : Env) :
    Option (Coordinator × Option DirtyColumn) :=
  match label with
  | .invalidate column => some (s.invalidate options env column, none)
  | .activate column => some (s.activate options env column, none)
  | .cancel columnId => some (s.cancel columnId, none)
  | .reset => some (s.reset, none)
  | .timer =>
    if s.timerDueAt.isSome then
      let next := ({ s with timerDueAt := none } : Coordinator).run options env
      some (next, if s.running.isSome then none else next.refreshing)
    else none
  | .refreshed success =>
    match s.running with
    | some (.refreshing current rest) =>
      let next := (s.settle current success).work options env rest
      some (next, next.refreshing)
    | _ => none
  | .finish =>
    match s.running with
    | some .finishing => some (s.finish options env, none)
    | _ => none

def Step (options : Options) (s : Coordinator) (event : Event) (t : Coordinator) : Prop :=
  step options s event.label event.env = some (t, event.started)

/-! ### What is allowed -/

section Marks

variable (c : Str)

def Event.invalidates (event : Event) : Bool :=
  match event.label with
  | .invalidate column => column.id = c
  | _ => false

def Event.removes (event : Event) : Bool :=
  match event.label with
  | .cancel columnId => columnId = c
  | .reset => true
  | _ => false

def Event.starts (event : Event) : Bool := event.started.any (·.column.id = c)

/-- The version of the mark of a column. -/
def Coordinator.version (s : Coordinator) : Option ℕ := (s.dirty.get c).map (·.version)

/-- Has the column been invalidated since its last refresh was started? -/
def Unseen (events : List Event) : Prop :=
  Outstanding (Event.invalidates c) (Event.starts c) events = true

/-- The invalidations of the column since it was cancelled or reset, if that was after the start
of its refresh. -/
def renew (count : Option ℕ) (event : Event) : Option ℕ :=
  if event.removes c then some 0
  else if event.invalidates c then count.map (· + 1)
  else if event.starts c then none
  else count

def renewed (events : List Event) : Option ℕ := events.foldl (renew c) none

end Marks

/-- After the events, a step takes a column out of the dirty ones by `cancel` or `reset`, or by
the success of a refresh that was started after the last invalidation of the column. -/
def Allowed (before : List Event) (s : Coordinator) (event : Event) (t : Coordinator) : Prop :=
  ∀ c, (s.version c).isSome → t.version c = none →
    event.removes c ∨
      (∃ current, event.label = .refreshed true ∧ s.refreshing = some current ∧
        current.column.id = c) ∧ ¬ Unseen c before

/-- When a refresh succeeds, the column has not been invalidated as often since it was cancelled
as it had been when the refresh was started. -/
def Unambiguous (before : List Event) (s : Coordinator) (event : Event) : Prop :=
  event.label = .refreshed true → ∀ current, s.refreshing = some current →
    renewed current.column.id before ≠ some current.version

/-! ### What the methods leave -/

namespace Coordinator

variable {options : Options} {env : Env} {s : Coordinator}

@[simp] theorem schedule_dirty (urgent : Bool) :
    (s.schedule options env urgent).dirty = s.dirty := by
  unfold schedule
  dsimp only
  split_ifs <;> rfl

@[simp] theorem schedule_running (urgent : Bool) :
    (s.schedule options env urgent).running = s.running := by
  unfold schedule
  dsimp only
  split_ifs <;> rfl

theorem refreshing_congr {t : Coordinator} (h : t.running = s.running) :
    t.refreshing = s.refreshing := by
  rw [refreshing, refreshing, h]

theorem version_congr {t : Coordinator} (h : t.dirty = s.dirty) (c : Str) :
    t.version c = s.version c := by
  rw [version, version, h]

theorem work_dirty (candidates : List DirtyColumn) :
    (s.work options env candidates).dirty = s.dirty := by
  induction candidates generalizing s with
  | nil => rfl
  | cons candidate rest ih =>
    unfold work
    split
    · exact ih
    · dsimp only
      split
      · exact ih
      · rfl

/-- A refresh starts with the mark of its column as it is. -/
theorem refreshing_work {candidates : List DirtyColumn} {current : DirtyColumn}
    (h : (s.work options env candidates).refreshing = some current) :
    ∃ c, s.dirty.get c = some current := by
  induction candidates generalizing s with
  | nil => simp [work, refreshing] at h
  | cons candidate rest ih =>
    unfold work at h
    split at h
    · exact ih h
    · next dirty hget =>
      dsimp only at h
      split at h
      · have hstarted := ih h
        exact hstarted
      · cases h
        exact ⟨_, hget⟩

theorem settle_dirty (current : DirtyColumn) (success : Bool) :
    (s.settle current success).dirty =
      if s.sameVersion current && success then s.dirty.delete current.column.id
      else s.dirty := by
  unfold settle
  cases s.sameVersion current <;> cases success <;> rfl

theorem sameVersion_iff {current : DirtyColumn} :
    s.sameVersion current = true ↔ s.version current.column.id = some current.version :=
  beq_iff_eq

theorem version_delete (dirty : OrderedMap Str DirtyColumn) (c c' : Str) :
    ((dirty.delete c).get c').map DirtyColumn.version =
      if c' = c then none else (dirty.get c').map DirtyColumn.version := by
  rw [OrderedMap.get_delete]
  split <;> rfl

end Coordinator

/-! ### One step -/

/-- What a step does to the marks and to the refresh that runs. -/
inductive Changed (s : Coordinator) (event : Event) (t : Coordinator) : Prop
  | invalidated (column : ColumnSummary) (hlabel : event.label = .invalidate column)
    (hdirty : t.dirty = s.dirty.set column.id ⟨column, (s.version column.id).getD 0 + 1⟩)
    (hrefreshing : t.refreshing = s.refreshing) (hstarted : event.started = none)
  | activated (column : ColumnSummary) (hlabel : event.label = .activate column)
    (hdirty : t.dirty = s.dirty ∨ ∃ current, s.dirty.get column.id = some current ∧
      t.dirty = s.dirty.set column.id { current with column := column })
    (hrefreshing : t.refreshing = s.refreshing) (hstarted : event.started = none)
  | cancelled (columnId : Str) (hlabel : event.label = .cancel columnId)
    (hdirty : t.dirty = s.dirty.delete columnId) (hrefreshing : t.refreshing = s.refreshing)
    (hstarted : event.started = none)
  | wasReset (hlabel : event.label = .reset) (hdirty : t.dirty = .empty)
    (hrefreshing : t.refreshing = s.refreshing) (hstarted : event.started = none)
  | idle (hlabel : event.label = .timer ∨ event.label = .finish) (hdirty : t.dirty = s.dirty)
    (hrefreshing : t.refreshing = s.refreshing) (hstarted : event.started = none)
  | ran (hlabel : event.label = .timer) (hdirty : t.dirty = s.dirty)
    (hidle : s.refreshing = none) (hstarted : event.started = t.refreshing)
    (hmark : ∀ current, t.refreshing = some current → ∃ c, t.dirty.get c = some current)
  | refreshed (success : Bool) (current : DirtyColumn) (hlabel : event.label = .refreshed success)
    (hcurrent : s.refreshing = some current)
    (hdirty : t.dirty = if s.sameVersion current && success
      then s.dirty.delete current.column.id else s.dirty)
    (hstarted : event.started = t.refreshing)
    (hmark : ∀ current, t.refreshing = some current → ∃ c, t.dirty.get c = some current)

theorem changed_of_step {options : Options} {s t : Coordinator} {event : Event}
    (h : Step options s event t) : Changed s event t := by
  obtain ⟨label, env, started⟩ := event
  unfold Step step at h
  dsimp only at h
  cases label with
  | invalidate column =>
    obtain ⟨rfl, rfl⟩ := Prod.mk.inj (Option.some.inj h)
    refine .invalidated column rfl ?_ ?_ rfl
    · unfold Coordinator.invalidate
      dsimp only
      split
      · rw [Coordinator.schedule_dirty]
        rfl
      · rfl
    · refine Coordinator.refreshing_congr ?_
      unfold Coordinator.invalidate
      dsimp only
      split
      · rw [Coordinator.schedule_running]
      · rfl
  | activate column =>
    obtain ⟨rfl, rfl⟩ := Prod.mk.inj (Option.some.inj h)
    cases hget : s.dirty.get column.id with
    | none =>
      have hsame : s.activate options env column = s := by
        unfold Coordinator.activate
        rw [hget]
      exact .activated column rfl (.inl (by rw [hsame])) (by rw [hsame]) rfl
    | some current =>
      refine .activated column rfl (.inr ⟨current, hget, ?_⟩) ?_ rfl
      · unfold Coordinator.activate
        rw [hget]
        exact Coordinator.schedule_dirty true
      · refine Coordinator.refreshing_congr ?_
        unfold Coordinator.activate
        rw [hget]
        exact Coordinator.schedule_running true
  | cancel columnId =>
    obtain ⟨rfl, rfl⟩ := Prod.mk.inj (Option.some.inj h)
    exact .cancelled columnId rfl rfl rfl rfl
  | reset =>
    obtain ⟨rfl, rfl⟩ := Prod.mk.inj (Option.some.inj h)
    exact .wasReset rfl rfl rfl rfl
  | timer =>
    dsimp only at h
    split at h
    · obtain ⟨rfl, rfl⟩ := Prod.mk.inj (Option.some.inj h)
      unfold Coordinator.run
      dsimp only
      split
      · exact .idle (.inl rfl) rfl rfl rfl
      · next hrunning =>
        have hnone : s.running = none := by simpa using hrunning
        split
        · refine .idle (.inl rfl) rfl rfl ?_
          simp only [Coordinator.refreshing, hnone]
        · refine .ran rfl (Coordinator.work_dirty _) (by rw [Coordinator.refreshing, hnone])
            rfl fun current hcurrent => ?_
          rw [Coordinator.work_dirty]
          exact Coordinator.refreshing_work hcurrent
    · cases h
  | refreshed success =>
    dsimp only at h
    split at h
    · next current rest hrunning =>
      obtain ⟨rfl, rfl⟩ := Prod.mk.inj (Option.some.inj h)
      refine .refreshed success current rfl (by rw [Coordinator.refreshing, hrunning]) ?_ rfl
        fun current' hcurrent' => ?_
      · rw [Coordinator.work_dirty, Coordinator.settle_dirty]
      · rw [Coordinator.work_dirty]
        exact Coordinator.refreshing_work hcurrent'
    · cases h
  | finish =>
    dsimp only at h
    split at h
    · next hrunning =>
      obtain ⟨rfl, rfl⟩ := Prod.mk.inj (Option.some.inj h)
      have hdirty : (s.finish options env).dirty = s.dirty := by
        unfold Coordinator.finish
        dsimp only
        split
        · rw [Coordinator.schedule_dirty]
        · split
          · rw [Coordinator.schedule_dirty]
          · rfl
      have hstopped : (s.finish options env).running = none := by
        unfold Coordinator.finish
        dsimp only
        split
        · rw [Coordinator.schedule_running]
        · split
          · rw [Coordinator.schedule_running]
          · rfl
      refine .idle (.inr rfl) hdirty ?_ rfl
      rw [Coordinator.refreshing, Coordinator.refreshing, hstopped, hrunning]
    · cases h

/-! ### The refresh that runs -/

theorem renewed_append_singleton (c : Str) (events : List Event) (event : Event) :
    renewed c (events ++ [event]) = renew c (renewed c events) event := by
  simp [renewed]

theorem unseen_append_singleton {c : Str} {events : List Event} {event : Event} :
    Unseen c (events ++ [event]) ↔
      event.invalidates c = true ∨ event.starts c = false ∧ Unseen c events := by
  rw [Unseen, outstanding_snoc]
  cases event.invalidates c <;> cases event.starts c <;> simp [Unseen]

/-- What is known of the mark of a column whose refresh runs since a mark of the given version. -/
structure Watched (c : Str) (version : ℕ) (events : List Event) (mark : Option ℕ) : Prop where
  kept : renewed c events = none →
    ∃ v, mark = some v ∧ version ≤ v ∧ (v = version ↔ ¬ Unseen c events)
  removed : renewed c events = some 0 → mark = none
  marked : ∀ n, renewed c events = some (n + 1) → mark = some (n + 1) ∧ Unseen c events

/-- The marks have versions from one on and are filed under the ids of their columns, and the
refresh that runs is watched. -/
structure Inv (events : List Event) (s : Coordinator) : Prop where
  filed : ∀ c dirty, s.dirty.get c = some dirty → dirty.column.id = c ∧ 1 ≤ dirty.version
  watched : ∀ current, s.refreshing = some current → 1 ≤ current.version ∧
    Watched current.column.id current.version events (s.version current.column.id)

/-- An event that neither marks nor removes the column nor starts its refresh. -/
theorem Watched.frame {c : Str} {version : ℕ} {events : List Event} {event : Event}
    (h : Watched c version events mark) (hremoves : event.removes c = false)
    (hinvalidates : event.invalidates c = false) (hstarts : event.starts c = false) :
    Watched c version (events ++ [event]) mark := by
  have hrenewed : renewed c (events ++ [event]) =
      renewed c events := by
    rw [renewed_append_singleton, renew, hremoves, hinvalidates, hstarts]
    rfl
  have hunseen : Unseen c (events ++ [event]) ↔ Unseen c events := by
    rw [unseen_append_singleton, hinvalidates, hstarts]
    simp
  refine ⟨fun hnone => ?_, fun hzero => ?_, fun n hn => ?_⟩
  · rw [hunseen]
    exact h.kept (hrenewed ▸ hnone)
  · exact h.removed (hrenewed ▸ hzero)
  · rw [hunseen]
    exact h.marked n (hrenewed ▸ hn)

theorem Watched.removes {c : Str} {version : ℕ} {events : List Event} {event : Event}
    (hremoves : event.removes c = true) : Watched c version (events ++ [event]) none := by
  have hrenewed : renewed c (events ++ [event]) = some 0 := by
    rw [renewed_append_singleton, renew, if_pos hremoves]
  refine ⟨fun hnone => ?_, fun _ => rfl, fun n hn => ?_⟩
  · rw [hrenewed] at hnone
    cases hnone
  · rw [hrenewed] at hn
    cases hn

theorem Watched.invalidates {c : Str} {version : ℕ} {events : List Event} {event : Event}
    (h : Watched c version events mark) (hinvalidates : event.invalidates c = true)
    (hremoves : event.removes c = false) :
    Watched c version (events ++ [event]) (some (mark.getD 0 + 1)) := by
  have hrenewed : renewed c (events ++ [event]) =
      (renewed c events).map (· + 1) := by
    rw [renewed_append_singleton, renew, hremoves, if_pos hinvalidates]
    rfl
  have hunseen : Unseen c (events ++ [event]) := unseen_append_singleton.2 (.inl hinvalidates)
  refine ⟨fun hnone => ?_, fun hzero => ?_, fun n hn => ⟨?_, hunseen⟩⟩
  · obtain ⟨v, rfl, hle, -⟩ := h.kept (Option.map_eq_none_iff.1 (hrenewed ▸ hnone))
    refine ⟨v + 1, rfl, by omega, fun heq => ?_, fun hnot => absurd hunseen hnot⟩
    omega
  · rw [hrenewed] at hzero
    obtain ⟨k, -, hk⟩ := Option.map_eq_some_iff.1 hzero
    omega
  · rw [hrenewed] at hn
    obtain ⟨k, hk, heq⟩ := Option.map_eq_some_iff.1 hn
    obtain rfl : k = n := by omega
    cases k with
    | zero => rw [h.removed hk]; rfl
    | succ k => rw [(h.marked k hk).1]; rfl

/-- At its start a refresh has seen every invalidation. -/
theorem Watched.starts {c : Str} {version : ℕ} {events : List Event} {event : Event}
    (hstarts : event.starts c = true) (hremoves : event.removes c = false)
    (hinvalidates : event.invalidates c = false) :
    Watched c version (events ++ [event]) (some version) := by
  have hrenewed : renewed c (events ++ [event]) = none := by
    rw [renewed_append_singleton, renew, hremoves, hinvalidates, hstarts]
    rfl
  have hunseen : ¬ Unseen c (events ++ [event]) := by
    rw [unseen_append_singleton, hinvalidates, hstarts]
    simp
  refine ⟨fun _ => ⟨version, rfl, le_rfl, fun _ => hunseen, fun _ => rfl⟩, fun hzero => ?_,
    fun n hn => ?_⟩
  · rw [hrenewed] at hzero
    cases hzero
  · rw [hrenewed] at hn
    cases hn

theorem inv_initial : Inv [] .initial where
  filed c dirty h := by simp [Coordinator.initial] at h
  watched current h := by cases h

section Steps

variable {events : List Event} {s t : Coordinator} {event : Event}

theorem filed_set {dirty : OrderedMap Str DirtyColumn} (mark : DirtyColumn)
    (h : ∀ c d, dirty.get c = some d → d.column.id = c ∧ 1 ≤ d.version) (hmark : 1 ≤ mark.version) :
    ∀ c d, (dirty.set mark.column.id mark).get c = some d → d.column.id = c ∧ 1 ≤ d.version := by
  intro c d hget
  rw [OrderedMap.get_set] at hget
  split at hget
  · next hc =>
    cases hget
    exact ⟨hc.symm, hmark⟩
  · exact h c d hget

/-- Activating a column does not touch its version. -/
theorem version_activated {column : ColumnSummary}
    (hdirty : t.dirty = s.dirty ∨ ∃ current, s.dirty.get column.id = some current ∧
      t.dirty = s.dirty.set column.id { current with column := column }) (c : Str) :
    t.version c = s.version c := by
  rcases hdirty with hdirty | ⟨current, hget, hdirty⟩
  · exact Coordinator.version_congr hdirty c
  · rw [Coordinator.version, Coordinator.version, hdirty, OrderedMap.get_set]
    split
    · next hc =>
      rw [hc, hget]
      rfl
    · rfl

/-- A refresh that has just been started is watched. -/
theorem watched_of_started
    (hfiled : ∀ c d, t.dirty.get c = some d → d.column.id = c ∧ 1 ≤ d.version)
    (hstarted : event.started = t.refreshing)
    (hmark : ∀ current, t.refreshing = some current → ∃ c, t.dirty.get c = some current)
    (hremoves : ∀ c, event.removes c = false) (hinvalidates : ∀ c, event.invalidates c = false)
    {current : DirtyColumn} (hcurrent : t.refreshing = some current) :
    1 ≤ current.version ∧ Watched current.column.id current.version (events ++ [event])
      (t.version current.column.id) := by
  obtain ⟨c, hget⟩ := hmark current hcurrent
  obtain ⟨rfl, hpos⟩ := hfiled c current hget
  have hversion : t.version current.column.id = some current.version := by
    rw [Coordinator.version, hget]
    rfl
  refine ⟨hpos, ?_⟩
  rw [hversion]
  refine Watched.starts ?_ (hremoves _) (hinvalidates _)
  rw [Event.starts, hstarted, hcurrent]
  exact decide_eq_true rfl

theorem Inv.step (h : Inv events s) (hchanged : Changed s event t) : Inv (events ++ [event]) t := by
  cases hchanged with
  | invalidated column hlabel hdirty hrefreshing hstarted =>
    have hremoves (c : Str) : event.removes c = false := by rw [Event.removes, hlabel]
    have hstarts (c : Str) : event.starts c = false := by rw [Event.starts, hstarted]; rfl
    refine ⟨?_, fun current hcurrent => ?_⟩
    · rw [hdirty]
      exact filed_set ⟨column, _⟩ h.filed (Nat.le_add_left 1 _)
    · obtain ⟨hpos, hwatched⟩ := h.watched current (hrefreshing ▸ hcurrent)
      refine ⟨hpos, ?_⟩
      rw [Coordinator.version, hdirty, OrderedMap.get_set]
      split
      · next hcolumn =>
        have hinvalidates : event.invalidates current.column.id = true := by
          rw [Event.invalidates, hlabel]
          exact decide_eq_true hcolumn.symm
        rw [← hcolumn]
        exact hwatched.invalidates hinvalidates (hremoves _)
      · next hcolumn =>
        have hinvalidates : event.invalidates current.column.id = false := by
          rw [Event.invalidates, hlabel]
          exact decide_eq_false (Ne.symm hcolumn)
        exact hwatched.frame (hremoves _) hinvalidates (hstarts _)
  | activated column hlabel hdirty hrefreshing hstarted =>
    have hremoves (c : Str) : event.removes c = false := by rw [Event.removes, hlabel]
    have hinvalidates (c : Str) : event.invalidates c = false := by rw [Event.invalidates, hlabel]
    have hstarts (c : Str) : event.starts c = false := by rw [Event.starts, hstarted]; rfl
    have hversion := version_activated hdirty
    refine ⟨?_, fun current hcurrent => ?_⟩
    · rcases hdirty with hdirty | ⟨current, hget, hdirty⟩
      · rw [hdirty]
        exact h.filed
      · rw [hdirty]
        exact filed_set { current with column := column } h.filed (h.filed _ _ hget).2
    · obtain ⟨hpos, hwatched⟩ := h.watched current (hrefreshing ▸ hcurrent)
      rw [hversion]
      exact ⟨hpos, hwatched.frame (hremoves _) (hinvalidates _) (hstarts _)⟩
  | cancelled columnId hlabel hdirty hrefreshing hstarted =>
    have hinvalidates (c : Str) : event.invalidates c = false := by rw [Event.invalidates, hlabel]
    have hstarts (c : Str) : event.starts c = false := by rw [Event.starts, hstarted]; rfl
    refine ⟨fun c dirty hget => ?_, fun current hcurrent => ?_⟩
    · rw [hdirty, OrderedMap.get_delete] at hget
      split at hget
      · cases hget
      · exact h.filed c dirty hget
    · obtain ⟨hpos, hwatched⟩ := h.watched current (hrefreshing ▸ hcurrent)
      refine ⟨hpos, ?_⟩
      rw [Coordinator.version, hdirty, Coordinator.version_delete]
      split
      · next hcolumn =>
        refine Watched.removes ?_
        rw [Event.removes, hlabel]
        exact decide_eq_true hcolumn.symm
      · next hcolumn =>
        have hremoves : event.removes current.column.id = false := by
          rw [Event.removes, hlabel]
          exact decide_eq_false (Ne.symm hcolumn)
        exact hwatched.frame hremoves (hinvalidates _) (hstarts _)
  | wasReset hlabel hdirty hrefreshing hstarted =>
    refine ⟨fun c dirty hget => ?_, fun current hcurrent => ?_⟩
    · rw [hdirty, OrderedMap.get_empty] at hget
      cases hget
    · refine ⟨(h.watched current (hrefreshing ▸ hcurrent)).1, ?_⟩
      rw [Coordinator.version, hdirty, OrderedMap.get_empty]
      exact Watched.removes (by rw [Event.removes, hlabel])
  | idle hlabel hdirty hrefreshing hstarted =>
    have hremoves (c : Str) : event.removes c = false := by
      rcases hlabel with hlabel | hlabel <;> rw [Event.removes, hlabel]
    have hinvalidates (c : Str) : event.invalidates c = false := by
      rcases hlabel with hlabel | hlabel <;> rw [Event.invalidates, hlabel]
    have hstarts (c : Str) : event.starts c = false := by rw [Event.starts, hstarted]; rfl
    refine ⟨hdirty ▸ h.filed, fun current hcurrent => ?_⟩
    obtain ⟨hpos, hwatched⟩ := h.watched current (hrefreshing ▸ hcurrent)
    rw [Coordinator.version_congr hdirty]
    exact ⟨hpos, hwatched.frame (hremoves _) (hinvalidates _) (hstarts _)⟩
  | ran hlabel hdirty hidle hstarted hmark =>
    have hremoves (c : Str) : event.removes c = false := by rw [Event.removes, hlabel]
    have hinvalidates (c : Str) : event.invalidates c = false := by rw [Event.invalidates, hlabel]
    have hfiled := hdirty ▸ h.filed
    exact ⟨hfiled, fun current hcurrent =>
      watched_of_started hfiled hstarted hmark hremoves hinvalidates hcurrent⟩
  | refreshed success current hlabel hcurrent hdirty hstarted hmark =>
    have hremoves (c : Str) : event.removes c = false := by rw [Event.removes, hlabel]
    have hinvalidates (c : Str) : event.invalidates c = false := by rw [Event.invalidates, hlabel]
    have hfiled : ∀ c d, t.dirty.get c = some d → d.column.id = c ∧ 1 ≤ d.version := by
      intro c d hget
      rw [hdirty] at hget
      split at hget
      · rw [OrderedMap.get_delete] at hget
        split at hget
        · cases hget
        · exact h.filed c d hget
      · exact h.filed c d hget
    exact ⟨hfiled, fun current hcurrent =>
      watched_of_started hfiled hstarted hmark hremoves hinvalidates hcurrent⟩

/-- A mark that goes with a success is the one that the refresh started with, or one that was made
after a cancellation. -/
theorem Watched.unseen_iff {c : Str} {version : ℕ} (h : Watched c version events mark)
    (hmark : mark = some version) : Unseen c events ↔ renewed c events = some version := by
  cases hrenewed : renewed c events with
  | none =>
    obtain ⟨v, hv, -, hiff⟩ := h.kept hrenewed
    have hsame : v = version := by
      rw [hmark] at hv
      exact (Option.some.inj hv).symm
    exact ⟨fun hunseen => absurd hunseen (hiff.1 hsame), fun hnone => by cases hnone⟩
  | some n =>
    cases n with
    | zero =>
      rw [h.removed hrenewed] at hmark
      cases hmark
    | succ n =>
      obtain ⟨hn, hunseen⟩ := h.marked n hrenewed
      rw [hmark] at hn
      exact ⟨fun _ => hn.symm, fun _ => hunseen⟩

/-- The mark of the new state when a refresh has not failed. -/
theorem Watched.mark_of_count {c : Str} {version : ℕ} (h : Watched c version events mark)
    (hpos : 1 ≤ version) (hrenewed : renewed c events = some version) :
    mark = some version ∧ Unseen c events := by
  obtain ⟨n, rfl⟩ : ∃ n, version = n + 1 := ⟨version - 1, by omega⟩
  exact h.marked n hrenewed

theorem Inv.allowed_iff (h : Inv events s) (hchanged : Changed s event t) :
    Allowed events s event t ↔ Unambiguous events s event := by
  constructor
  · intro hallowed hlabel current hcurrent hrenewed
    obtain ⟨hpos, hwatched⟩ := h.watched current hcurrent
    obtain ⟨hmark, hunseen⟩ := hwatched.mark_of_count hpos hrenewed
    have hgone : t.version current.column.id = none := by
      cases hchanged with
      | refreshed success current' hlabel' hcurrent' hdirty _ _ =>
        rw [hlabel] at hlabel'
        cases hlabel'
        rw [hcurrent] at hcurrent'
        cases hcurrent'
        rw [Coordinator.version, hdirty, Coordinator.sameVersion_iff.2 hmark]
        rw [Bool.and_self, if_pos rfl, Coordinator.version_delete, if_pos rfl]
      | invalidated column hlabel' => rw [hlabel] at hlabel'; cases hlabel'
      | activated column hlabel' => rw [hlabel] at hlabel'; cases hlabel'
      | cancelled columnId hlabel' => rw [hlabel] at hlabel'; cases hlabel'
      | wasReset hlabel' => rw [hlabel] at hlabel'; cases hlabel'
      | idle hlabel' =>
        rw [hlabel] at hlabel'
        rcases hlabel' with hlabel' | hlabel' <;> cases hlabel'
      | ran hlabel' => rw [hlabel] at hlabel'; cases hlabel'
    rcases hallowed current.column.id (by rw [hmark]; rfl) hgone with hremoves | ⟨-, hseen⟩
    · rw [Event.removes, hlabel] at hremoves
      cases hremoves
    · exact hseen hunseen
  · intro hunambiguous c hdirty hgone
    have hkept (hsame : t.version c = s.version c) : False := by
      rw [hsame] at hgone
      rw [hgone] at hdirty
      cases hdirty
    cases hchanged with
    | invalidated column hlabel ht _ _ =>
      rw [Coordinator.version, ht, OrderedMap.get_set] at hgone
      split at hgone
      · cases hgone
      · rw [Coordinator.version, hgone] at hdirty
        cases hdirty
    | activated column hlabel ht _ _ => exact (hkept (version_activated ht c)).elim
    | cancelled columnId hlabel ht _ _ =>
      rw [Coordinator.version, ht, Coordinator.version_delete] at hgone
      split at hgone
      · next hc =>
        left
        rw [Event.removes, hlabel]
        exact decide_eq_true hc.symm
      · rw [Coordinator.version, hgone] at hdirty
        cases hdirty
    | wasReset hlabel ht _ _ => exact .inl (by rw [Event.removes, hlabel])
    | idle hlabel ht _ _ => exact (hkept (Coordinator.version_congr ht c)).elim
    | ran hlabel ht _ _ _ => exact (hkept (Coordinator.version_congr ht c)).elim
    | refreshed success current hlabel hcurrent ht _ _ =>
      rw [Coordinator.version, ht] at hgone
      split at hgone
      · next hdone =>
        obtain ⟨hsame, rfl⟩ := Bool.and_eq_true_iff.1 hdone
        rw [Coordinator.version_delete] at hgone
        split at hgone
        · next hc =>
          -- the mark is the one of the start of the refresh, or a new one with its version
          subst hc
          obtain ⟨hpos, hwatched⟩ := h.watched current hcurrent
          have hmark := Coordinator.sameVersion_iff.1 hsame
          refine .inr ⟨⟨current, hlabel, hcurrent, rfl⟩, fun hunseen => ?_⟩
          exact hunambiguous hlabel current hcurrent ((hwatched.unseen_iff hmark).1 hunseen)
        · rw [Coordinator.version, hgone] at hdirty
          cases hdirty
      · rw [Coordinator.version, hgone] at hdirty
        cases hdirty

end Steps

/-! ### Runs -/

/-- In a run of the events, every step keeps the marks that it may not take off. -/
def AllowedThroughout (options : Options) (events : List Event) : Prop :=
  ∀ before event after s t, events = before ++ event :: after →
    Run (Step options) .initial before s → Step options s event t → Allowed before s event t

def UnambiguousThroughout (options : Options) (events : List Event) : Prop :=
  ∀ before event after s t, events = before ++ event :: after →
    Run (Step options) .initial before s → Step options s event t → Unambiguous before s event

/-- Over any run, marks go as they may if and only if no refresh succeeds when its column has been
marked, since it was cancelled or reset during the refresh, as often as it had been before. -/
theorem allowedThroughout_iff (options : Options) (events : List Event) :
    AllowedThroughout options events ↔ UnambiguousThroughout options events := by
  have hpoint {before : List Event} {event : Event} {s t : Coordinator}
      (hrun : Run (Step options) .initial before s) (hstep : Step options s event t) :
      Allowed before s event t ↔ Unambiguous before s event := by
    have hinv : Inv before s := hrun.history inv_initial fun h hstep =>
      h.step (changed_of_step hstep)
    exact hinv.allowed_iff (changed_of_step hstep)
  constructor
  · exact fun h before event after s t heq hrun hstep =>
      (hpoint hrun hstep).1 (h before event after s t heq hrun hstep)
  · exact fun h before event after s t heq hrun hstep =>
      (hpoint hrun hstep).2 (h before event after s t heq hrun hstep)

def sampleColumn : ColumnSummary := ⟨"kq", 0, 0⟩

def sampleOptions : Options := ⟨2000, 30000⟩

def sampleEnv : Env := ⟨0, fun _ => true⟩

/-- The column is cancelled and marked again while it is being refreshed. -/
def sampleEvents : List Event :=
  [⟨.invalidate sampleColumn, sampleEnv, none⟩, ⟨.timer, sampleEnv, some ⟨sampleColumn, 1⟩⟩,
    ⟨.cancel "kq", sampleEnv, none⟩, ⟨.invalidate sampleColumn, sampleEnv, none⟩]

theorem run_sampleEvents : ∃ s, Run (Step sampleOptions) .initial sampleEvents s ∧
    s.version "kq" = some 1 ∧ s.running = some (.refreshing ⟨sampleColumn, 1⟩ []) := by
  refine ⟨_, (((Run.nil _).snoc rfl).snoc rfl).snoc rfl |>.snoc rfl, ?_, ?_⟩ <;> rfl

theorem not_allowedThroughout :
    ¬ ∀ (options : Options) (events : List Event), AllowedThroughout options events := by
  intro h
  obtain ⟨s, hrun, hmark, hrunning⟩ := run_sampleEvents
  have hstep : Step sampleOptions s ⟨.refreshed true, sampleEnv, none⟩
      ((s.settle ⟨sampleColumn, 1⟩ true).work sampleOptions sampleEnv []) := by
    unfold Step step
    rw [hrunning]
    rfl
  have hgone : ((s.settle ⟨sampleColumn, 1⟩ true).work sampleOptions sampleEnv []).version
      "kq" = none := by
    have hsame : s.sameVersion ⟨sampleColumn, 1⟩ = true := Coordinator.sameVersion_iff.2 hmark
    rw [Coordinator.version, Coordinator.work_dirty, Coordinator.settle_dirty, hsame]
    rw [Bool.and_self, if_pos rfl, Coordinator.version_delete]
    exact if_pos rfl
  rcases h sampleOptions (sampleEvents ++ [⟨.refreshed true, sampleEnv, none⟩]) sampleEvents _ []
    s _ rfl hrun hstep "kq" (by rw [hmark]; rfl) hgone with hremoves | ⟨-, hseen⟩
  · cases hremoves
  · exact hseen (show Outstanding _ _ sampleEvents = true by decide)

end Awayuki.AnalyticalRefresh
