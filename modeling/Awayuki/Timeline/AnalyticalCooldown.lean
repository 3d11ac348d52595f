import Awayuki.Timeline.AnalyticalRefresh

/-!
# The cooldown of analytical refreshes

Columns are refreshed in waves.  A wave that the user asks for begins at once, and takes along every
other column that may be refreshed; the waves that nobody asks for keep a distance.

* `Activated`, `lastEnd`: what a run says of the user and of the waves;
* `Spaced`, `OneAtATime`: what the source's comment says of a refresh;
* `Calm`: a timer that fires before the cooldown is over finds activated columns only;
* `spacedThroughout_of_calm`: in runs of such steps every refresh is spaced, and one runs at a time.
-/

namespace Awayuki.AnalyticalRefresh

open Runs

/-! ### What a run says -/

variable {dirty : DirtyColumn}

section History

variable (c : Str)

def Event.activates (event : Event) : Bool :=
  match event.label with
  | .activate column => column.id = c
  | _ => false

/-- Has the user activated the column since its last refresh was started? -/
def Activated (events : List Event) : Prop :=
  Outstanding (Event.activates c) (Event.starts c) events = true

end History

def Event.settles (event : Event) : Bool :=
  match event.label with
  | .refreshed _ => true
  | _ => false

/-- A wave ends when a refresh is over and starts no other. -/
def Event.endsWave (event : Event) : Bool := event.settles && event.started.isNone

def ended (last : Option ℤ) (event : Event) : Option ℤ :=
  if event.endsWave then some event.env.now else last

/-- When the last wave ended. -/
def lastEnd (events : List Event) : Option ℤ := events.foldl ended none

/-- A column that is refreshed was activated, or the last wave is over for the cooldown. -/
def Spaced (options : Options) (before : List Event) (event : Event) : Prop :=
  ∀ dirty, event.started = some dirty → Activated dirty.column.id before ∨
    ∀ time, lastEnd before = some time → time + options.cooldownMs ≤ event.env.now

/-- As many refreshes are over as were started, or one less. -/
def OneAtATime (events : List Event) : Prop :=
  events.countP Event.settles ≤ events.countP (·.started.isSome) ∧
    events.countP (·.started.isSome) ≤ events.countP Event.settles + 1

/-- If the timer fires before the next automatic refresh is due, the columns that may be refreshed
without being asked for were activated. -/
def Calm (before : List Event) (s : Coordinator) (event : Event) : Prop :=
  event.label = .timer → event.env.now < s.nextAutomaticRefreshAt →
    ∀ dirty ∈ s.dirty.entries.map Prod.snd, s.eligible event.env dirty = true →
      Activated dirty.column.id before

/-- The clock does not go back, and nothing is reset. -/
structure Timed (events : List Event) : Prop where
  pairwise : events.Pairwise fun a b => a.env.now ≤ b.env.now
  kept : ∀ event ∈ events, event.label ≠ .reset

def CalmThroughout (options : Options) (events : List Event) : Prop :=
  ∀ before event after s t, events = before ++ event :: after →
    Run (Step options) .initial before s → Step options s event t → Calm before s event

/-! ### Events -/

section

variable {events : List Event} {event : Event} {c : Str}

theorem lastEnd_snoc : lastEnd (events ++ [event]) =
    if event.endsWave then some event.env.now else lastEnd events := by
  rw [lastEnd, List.foldl_append]
  rfl

theorem activated_snoc : Activated c (events ++ [event]) ↔
    event.activates c = true ∨ (event.starts c = false ∧ Activated c events) := by
  rw [Activated, outstanding_snoc]
  cases event.activates c with
  | true => simp
  | false =>
    cases event.starts c with
    | true => simp
    | false => simp [Activated]

/-- An event that does not start the column's refresh leaves it activated. -/
theorem Activated.snoc (h : Activated c events) (hstarts : event.starts c = false) :
    Activated c (events ++ [event]) :=
  activated_snoc.2 (.inr ⟨hstarts, h⟩)

theorem starts_of_none (h : event.started = none) : event.starts c = false := by
  rw [Event.starts, h]
  rfl

theorem starts_eq_false (h : event.started = some dirty) (hne : c ≠ dirty.column.id) :
    event.starts c = false := by
  rw [Event.starts, h, Option.any_some]
  exact decide_eq_false hne.symm

end

/-! ### The methods -/

namespace Coordinator

variable {options : Options} {env : Env} {s : Coordinator}

@[simp] theorem schedule_urgent (urgent : Bool) :
    (s.schedule options env urgent).urgent = s.urgent := by
  unfold schedule
  dsimp only
  split_ifs <;> rfl

@[simp] theorem schedule_next (urgent : Bool) :
    (s.schedule options env urgent).nextAutomaticRefreshAt = s.nextAutomaticRefreshAt := by
  unfold schedule
  dsimp only
  split_ifs <;> rfl

theorem invalidate_pace (column : ColumnSummary) :
    (s.invalidate options env column).urgent = s.urgent ∧
      (s.invalidate options env column).nextAutomaticRefreshAt = s.nextAutomaticRefreshAt ∧
      (s.invalidate options env column).running = s.running := by
  unfold invalidate
  dsimp only
  split
  · rw [schedule_urgent, schedule_next, schedule_running]
    exact ⟨rfl, rfl, rfl⟩
  · exact ⟨rfl, rfl, rfl⟩

theorem activate_pace (column : ColumnSummary) :
    (s.activate options env column).urgent ⊆ insert column.id s.urgent ∧
      (s.activate options env column).nextAutomaticRefreshAt = s.nextAutomaticRefreshAt ∧
      (s.activate options env column).running = s.running := by
  unfold activate
  split
  · exact ⟨Finset.subset_insert _ _, rfl, rfl⟩
  · rw [schedule_urgent, schedule_next, schedule_running]
    exact ⟨Finset.Subset.refl _, rfl, rfl⟩

theorem finish_pace :
    (s.finish options env).urgent = s.urgent ∧
      (s.finish options env).nextAutomaticRefreshAt = s.nextAutomaticRefreshAt ∧
      (s.finish options env).running = none := by
  unfold finish
  dsimp only
  split
  · rw [schedule_urgent, schedule_next, schedule_running]
    exact ⟨rfl, rfl, rfl⟩
  · split
    · rw [schedule_urgent, schedule_next, schedule_running]
      exact ⟨rfl, rfl, rfl⟩
    · exact ⟨rfl, rfl, rfl⟩

theorem settle_urgent (current : DirtyColumn) (success : Bool) :
    (s.settle current success).urgent = s.urgent := by
  unfold settle
  split_ifs <;> rfl

theorem settle_next (current : DirtyColumn) (success : Bool) :
    (s.settle current success).nextAutomaticRefreshAt = s.nextAutomaticRefreshAt := by
  unfold settle
  split_ifs <;> rfl

/-- The work ends, and the next automatic refresh is due after the cooldown. -/
structure WorkEnds (options : Options) (env : Env) (t : Coordinator) : Prop where
  running : t.running = some .finishing
  next : t.nextAutomaticRefreshAt = env.now + options.cooldownMs

/-- The work goes on with the refresh of a column, which is not urgent any more. -/
structure WorkStarts (s : Coordinator) (candidates : List DirtyColumn) (current : DirtyColumn)
    (rest : List DirtyColumn) (t : Coordinator) : Prop where
  running : t.running = some (.refreshing current rest)
  next : t.nextAutomaticRefreshAt = s.nextAutomaticRefreshAt
  candidate : ∃ skipped candidate, candidates = skipped ++ candidate :: rest ∧
    s.dirty.get candidate.column.id = some current ∧ candidate.column.id ∉ t.urgent

theorem work_urgent (candidates : List DirtyColumn) :
    (s.work options env candidates).urgent ⊆ s.urgent := by
  induction candidates generalizing s with
  | nil => exact Finset.Subset.refl _
  | cons candidate rest ih =>
    unfold work
    split
    · exact ih
    · dsimp only
      split
      · exact ih.trans (Finset.erase_subset _ _)
      · exact Finset.erase_subset _ _

theorem work_cases (candidates : List DirtyColumn) :
    WorkEnds options env (s.work options env candidates) ∨ ∃ current rest,
      WorkStarts s candidates current rest (s.work options env candidates) := by
  induction candidates generalizing s with
  | nil => exact .inl ⟨rfl, rfl⟩
  | cons candidate rest ih =>
    unfold work
    split
    · rcases ih (s := s) with hends | ⟨current, rest', hrunning, hnext, skipped, next, rfl, hmark⟩
      · exact .inl hends
      · exact .inr ⟨current, rest', hrunning, hnext, candidate :: skipped, next, rfl, hmark⟩
    · next current hget =>
      dsimp only
      split
      · rcases ih (s := { s with urgent := s.urgent.erase candidate.column.id }) with
          hends | ⟨current, rest', hrunning, hnext, skipped, next, rfl, hmark⟩
        · exact .inl hends
        · exact .inr ⟨current, rest', hrunning, hnext, candidate :: skipped, next, rfl, hmark⟩
      · refine .inr ⟨current, rest, rfl, rfl, [], candidate, rfl, hget, ?_⟩
        exact Finset.notMem_erase _ _

end Coordinator

/-! ### One step -/

section Steps

variable {options : Options} {events : List Event} {event : Event} {s t : Coordinator}
  {rest candidates : List DirtyColumn}

/-- The wave that runs began after the cooldown, or the columns that it has left were activated. -/
def WavePaced (options : Options) (events : List Event) (rest : List DirtyColumn) : Prop :=
  (∃ begun ∈ events, ∀ time, lastEnd events = some time →
      time + options.cooldownMs ≤ begun.env.now) ∨
    ((rest.map (·.column.id)).Nodup ∧ ∀ dirty ∈ rest, Activated dirty.column.id events)

structure Paced (options : Options) (events : List Event) (s : Coordinator) : Prop where
  urgent : ∀ c ∈ s.urgent, Activated c events
  next : ∀ time, lastEnd events = some time → time + options.cooldownMs ≤ s.nextAutomaticRefreshAt
  wave : ∀ current rest, s.running = some (.refreshing current rest) →
    WavePaced options events rest
  counts : events.countP (·.started.isSome) =
    events.countP Event.settles + if s.refreshing.isSome then 1 else 0

theorem paced_initial : Paced options [] .initial where
  urgent c h := by simp [Coordinator.initial] at h
  next time h := by cases h
  wave current rest h := by cases h
  counts := rfl

/-- An event that starts no refresh and ends none leaves the pace. -/
theorem WavePaced.snoc (h : WavePaced options events rest) (hstarted : event.started = none)
    (hends : event.endsWave = false) : WavePaced options (events ++ [event]) rest := by
  rcases h with ⟨begun, hmem, hbegun⟩ | ⟨hnodup, hrest⟩
  · refine .inl ⟨begun, List.mem_append_left _ hmem, fun time htime => hbegun time ?_⟩
    rwa [lastEnd_snoc, hends] at htime
  · exact .inr ⟨hnodup, fun dirty hmem => (hrest dirty hmem).snoc (starts_of_none hstarted)⟩

theorem exists_of_lastEnd {time : ℤ} (h : lastEnd events = some time) :
    ∃ e ∈ events, e.env.now = time := by
  induction events using List.reverseRecOn with
  | nil => cases h
  | append_singleton events last ih =>
    rw [lastEnd_snoc] at h
    split_ifs at h with hends
    · exact ⟨last, List.mem_append_right _ List.mem_cons_self, Option.some.inj h⟩
    · obtain ⟨e, he, htime⟩ := ih h
      exact ⟨e, List.mem_append_left _ he, htime⟩

/-- When the wave is paced as the event happens, so is the refresh that the event starts, and the
rest of the wave. -/
theorem spaced_of_starts {skipped : List DirtyColumn} {candidate current : DirtyColumn}
    (hpaced : (∀ time, lastEnd events = some time → time + options.cooldownMs ≤ event.env.now) ∨
      ((candidates.map (·.column.id)).Nodup ∧
        ∀ dirty ∈ candidates, Activated dirty.column.id events))
    (hsplit : candidates = skipped ++ candidate :: rest)
    (hid : current.column.id = candidate.column.id) (hstarted : event.started = some current) :
    Spaced options events event ∧ WavePaced options (events ++ [event]) rest := by
  have hends : event.endsWave = false := by
    rw [Event.endsWave, hstarted, Option.isNone_some, Bool.and_false]
  rcases hpaced with hover | ⟨hnodup, hactivated⟩
  · refine ⟨fun dirty _ => .inr hover, .inl ⟨event, ?_, fun time htime => hover time ?_⟩⟩
    · exact List.mem_append_right _ List.mem_cons_self
    · rwa [lastEnd_snoc, hends] at htime
  · subst hsplit
    rw [List.map_append, List.map_cons] at hnodup
    obtain ⟨hnotin, hrest⟩ := List.nodup_cons.1 (List.nodup_append.1 hnodup).2.1
    constructor
    · intro dirty hdirty
      rw [hstarted] at hdirty
      obtain rfl := Option.some.inj hdirty
      rw [hid]
      exact .inl (hactivated candidate (List.mem_append_right _ List.mem_cons_self))
    · refine .inr ⟨hrest, fun dirty hmem => ?_⟩
      have hbefore := hactivated dirty
        (List.mem_append_right _ (List.mem_cons_of_mem _ hmem))
      refine hbefore.snoc (starts_eq_false hstarted fun heq => hnotin ?_)
      rw [← hid, ← heq]
      exact List.mem_map_of_mem hmem

/-- What happens beside the work keeps the pace. -/
theorem Paced.frame (h : Paced options events s) (hstarted : event.started = none)
    (hsettles : event.settles = false)
    (hurgent : ∀ c ∈ t.urgent, c ∈ s.urgent ∨ event.activates c = true)
    (hnext : t.nextAutomaticRefreshAt = s.nextAutomaticRefreshAt)
    (hrunning : t.running = s.running ∨ (t.running = none ∧ s.refreshing = none)) :
    Paced options (events ++ [event]) t := by
  have hends : event.endsWave = false := by rw [Event.endsWave, hsettles, Bool.false_and]
  have hrefreshing : t.refreshing = s.refreshing := by
    rcases hrunning with hsame | ⟨hnone, hidle⟩
    · exact Coordinator.refreshing_congr hsame
    · rw [hidle, Coordinator.refreshing, hnone]
  refine ⟨fun c hc => ?_, fun time htime => ?_, fun current rest hcurrent => ?_, ?_⟩
  · rcases hurgent c hc with hmem | hactivates
    · exact (h.urgent c hmem).snoc (starts_of_none hstarted)
    · exact activated_snoc.2 (.inl hactivates)
  · rw [lastEnd_snoc, hends] at htime
    exact hnext ▸ h.next time htime
  · rcases hrunning with hsame | ⟨hnone, -⟩
    · exact (h.wave current rest (hsame ▸ hcurrent)).snoc hstarted hends
    · rw [hnone] at hcurrent
      cases hcurrent
  · have hcounts := h.counts
    simp only [List.countP_append, List.countP_singleton, hstarted, hsettles, hrefreshing,
      Option.isSome_none, Bool.false_eq_true, if_false, add_zero]
    exact hcounts

/-- The work that an event does, on the candidates that are left. -/
theorem Paced.work (h : Paced options events s) (hfiled : ∀ c dirty, s.dirty.get c = some dirty →
      dirty.column.id = c) (htime : ∀ e ∈ events, e.env.now ≤ event.env.now) {u : Coordinator}
    (hurgent : u.urgent = s.urgent) (hnext : u.nextAutomaticRefreshAt = s.nextAutomaticRefreshAt)
    (hdirty : ∀ c dirty, u.dirty.get c = some dirty → s.dirty.get c = some dirty)
    (ht : t = u.work options event.env candidates) (hstarted : event.started = t.refreshing)
    (hpaced : (∀ time, lastEnd events = some time → time + options.cooldownMs ≤ event.env.now) ∨
      ((candidates.map (·.column.id)).Nodup ∧
        ∀ dirty ∈ candidates, Activated dirty.column.id events))
    (hsettles : event.settles = s.refreshing.isSome) :
    Spaced options events event ∧ Paced options (events ++ [event]) t := by
  have hsubset : t.urgent ⊆ s.urgent := by
    rw [ht, ← hurgent]
    exact Coordinator.work_urgent candidates
  have hcounts := h.counts
  rcases Coordinator.work_cases (s := u) candidates with hends | ⟨current, rest, hstarts⟩
  · rw [← ht] at hends
    have hidle : t.refreshing = none := by rw [Coordinator.refreshing, hends.running]
    rw [hidle] at hstarted
    refine ⟨fun dirty hdirty => absurd (hstarted.symm.trans hdirty) (by simp), ?_, ?_, ?_, ?_⟩
    · exact fun c hc => (h.urgent c (hsubset hc)).snoc (starts_of_none hstarted)
    · intro time htime'
      rw [hends.next]
      obtain ⟨e, he, rfl⟩ := exists_of_lastEnd htime'
      have hle : e.env.now ≤ event.env.now := by
        rcases List.mem_append.1 he with he | he
        · exact htime e he
        · rw [List.mem_singleton.1 he]
      omega
    · intro current rest hcurrent
      rw [hends.running] at hcurrent
      cases hcurrent
    · simp only [List.countP_append, List.countP_singleton, hstarted, hsettles, hidle,
        Option.isSome_none, Bool.false_eq_true, if_false, add_zero]
      exact hcounts
  · rw [← ht] at hstarts
    obtain ⟨skipped, candidate, hsplit, hget, hnotin⟩ := hstarts.candidate
    have hrefreshing : t.refreshing = some current := by
      rw [Coordinator.refreshing, hstarts.running]
    rw [hrefreshing] at hstarted
    have hid := hfiled _ _ (hdirty _ _ hget)
    have hends : event.endsWave = false := by
      rw [Event.endsWave, hstarted, Option.isNone_some, Bool.and_false]
    obtain ⟨hspaced, hwave⟩ := spaced_of_starts hpaced hsplit hid hstarted
    refine ⟨hspaced, fun c hc => ?_, fun time htime' => ?_, fun current' rest' hcurrent' => ?_, ?_⟩
    · refine (h.urgent c (hsubset hc)).snoc (starts_eq_false hstarted fun heq => hnotin ?_)
      rwa [← hid, ← heq]
    · rw [lastEnd_snoc, hends] at htime'
      rw [hstarts.next, hnext]
      exact h.next time htime'
    · rw [hstarts.running] at hcurrent'
      cases hcurrent'
      exact hwave
    · simp only [List.countP_append, List.countP_singleton, hstarted, hsettles, hrefreshing,
        Option.isSome_some, if_true]
      omega

theorem mem_candidates {env : Env} (h : dirty ∈ s.candidates env) :
    dirty ∈ s.dirty.entries.map Prod.snd ∧
      (dirty.column.id ∈ s.urgent ∨ s.eligible env dirty = true) := by
  obtain ⟨hmem, hasked⟩ := List.mem_filter.1 ((List.mem_insertionSort _).1 h)
  refine ⟨hmem, ?_⟩
  rcases Bool.or_eq_true_iff.1 hasked with hurgent | heligible
  · exact .inl (of_decide_eq_true hurgent)
  · exact .inr heligible

theorem nodup_candidates (env : Env)
    (hfiled : ∀ c dirty, s.dirty.get c = some dirty → dirty.column.id = c) :
    ((s.candidates env).map (·.column.id)).Nodup := by
  have hkeys : (s.dirty.entries.map Prod.snd).map (·.column.id) = s.dirty.entries.map Prod.fst := by
    rw [List.map_map]
    exact List.map_congr_left fun entry hentry => hfiled _ _ (OrderedMap.get_eq_some.2 hentry)
  have hsub := (List.filter_sublist (l := s.dirty.entries.map Prod.snd)
    (p := fun dirty => dirty.column.id ∈ s.urgent || s.eligible env dirty)).map (·.column.id)
  rw [hkeys] at hsub
  exact (((List.perm_insertionSort _ _).map _).nodup_iff).2 (s.dirty.nodup.sublist hsub)

/-- The timer does nothing, or begins a wave. -/
theorem timer_cases (hstep : Step options s event t) (hlabel : event.label = .timer) :
    (event.started = none ∧ t = { s with timerDueAt := none }) ∨
      (s.running = none ∧ event.started = t.refreshing ∧
        t = ({ s with timerDueAt := none } : Coordinator).work options event.env
          (s.candidates event.env)) := by
  unfold Step AnalyticalRefresh.step at hstep
  rw [hlabel] at hstep
  dsimp only at hstep
  split at hstep
  · obtain ⟨ht, hstarted⟩ := Prod.mk.inj (Option.some.inj hstep)
    cases hrunning : s.running with
    | some running =>
      rw [hrunning] at hstarted
      refine .inl ⟨hstarted.symm, ?_⟩
      rw [← ht, Coordinator.run, hrunning]
      rfl
    | none =>
      rw [ht, hrunning] at hstarted
      rw [Coordinator.run, hrunning] at ht
      simp only [Option.isSome_none, Bool.false_eq_true, if_false] at ht hstarted
      split at ht
      · refine .inl ⟨?_, ?_⟩
        · rw [← hstarted, ← ht]
          rfl
        · exact ht.symm
      · exact .inr ⟨rfl, hstarted.symm, ht.symm⟩
  · cases hstep

theorem Paced.step (h : Paced options events s) (hinv : Inv events s)
    (hstep : Step options s event t) (hreset : event.label ≠ .reset)
    (htime : ∀ e ∈ events, e.env.now ≤ event.env.now) (hcalm : Calm events s event) :
    Spaced options events event ∧ Paced options (events ++ [event]) t := by
  have hfiled : ∀ c dirty, s.dirty.get c = some dirty → dirty.column.id = c :=
    fun c dirty hget => (hinv.filed c dirty hget).1
  have hnot (hnone : event.started = none) : Spaced options events event :=
    fun dirty hdirty => absurd (hnone.symm.trans hdirty) (by simp)
  obtain ⟨label, env, started⟩ := event
  cases label with
  | invalidate column =>
    obtain ⟨rfl, rfl⟩ := Prod.mk.inj (Option.some.inj hstep)
    obtain ⟨hurgent, hnext, hrunning⟩ : (s.invalidate options env column).urgent = s.urgent ∧
      _ ∧ _ := Coordinator.invalidate_pace column
    exact ⟨hnot rfl, h.frame rfl rfl (fun c hc => .inl (hurgent ▸ hc)) hnext (.inl hrunning)⟩
  | activate column =>
    obtain ⟨rfl, rfl⟩ := Prod.mk.inj (Option.some.inj hstep)
    obtain ⟨hurgent, hnext, hrunning⟩ :
      (s.activate options env column).urgent ⊆ insert column.id s.urgent ∧ _ ∧ _ :=
        Coordinator.activate_pace column
    refine ⟨hnot rfl, h.frame rfl rfl (fun c hc => ?_) hnext (.inl hrunning)⟩
    rcases Finset.mem_insert.1 (hurgent hc) with heq | hmem
    · exact .inr (decide_eq_true heq.symm)
    · exact .inl hmem
  | cancel columnId =>
    obtain ⟨rfl, rfl⟩ := Prod.mk.inj (Option.some.inj hstep)
    refine ⟨hnot rfl, h.frame rfl rfl (fun c hc => .inl ?_) rfl (.inl rfl)⟩
    exact Finset.mem_of_mem_erase hc
  | reset => exact absurd rfl hreset
  | timer =>
    rcases timer_cases hstep rfl with ⟨hnone, rfl⟩ | ⟨hrunning, hstarted, ht⟩
    · exact ⟨hnot hnone, h.frame hnone rfl (fun c hc => .inl hc) rfl (.inl rfl)⟩
    · refine h.work (u := { s with timerDueAt := none }) hfiled htime rfl rfl
        (fun c dirty hget => hget) ht hstarted ?_ ?_
      · rcases le_or_gt s.nextAutomaticRefreshAt env.now with hover | hearly
        · exact .inl fun time hlast => (h.next time hlast).trans hover
        · refine .inr ⟨nodup_candidates env hfiled, fun dirty hdirty => ?_⟩
          obtain ⟨hmem, hurgent | heligible⟩ := mem_candidates hdirty
          · exact h.urgent _ hurgent
          · exact hcalm rfl hearly dirty hmem heligible
      · rw [Coordinator.refreshing, hrunning]
        rfl
  | refreshed success =>
    unfold Step AnalyticalRefresh.step at hstep
    dsimp only at hstep
    split at hstep
    · next current rest hrunning =>
      obtain ⟨rfl, rfl⟩ := Prod.mk.inj (Option.some.inj hstep)
      have hrefreshing : s.refreshing = some current := by rw [Coordinator.refreshing, hrunning]
      refine h.work hfiled htime (Coordinator.settle_urgent current success)
        (Coordinator.settle_next current success) (fun c dirty hget => ?_) rfl rfl ?_ ?_
      · rw [Coordinator.settle_dirty] at hget
        split at hget
        · rw [OrderedMap.get_delete] at hget
          split at hget
          · cases hget
          · exact hget
        · exact hget
      · rcases h.wave current rest hrunning with ⟨begun, hmem, hbegun⟩ | hpaced
        · exact .inl fun time hlast => (hbegun time hlast).trans (htime begun hmem)
        · exact .inr hpaced
      · rw [hrefreshing]
        rfl
    · cases hstep
  | finish =>
    unfold Step AnalyticalRefresh.step at hstep
    dsimp only at hstep
    split at hstep
    · next hrunning =>
      obtain ⟨rfl, rfl⟩ := Prod.mk.inj (Option.some.inj hstep)
      obtain ⟨hurgent, hnext, hstopped⟩ : (s.finish options env).urgent = s.urgent ∧ _ ∧ _ :=
        Coordinator.finish_pace
      refine ⟨hnot rfl, h.frame rfl rfl (fun c hc => .inl (hurgent ▸ hc)) hnext
        (.inr ⟨hstopped, ?_⟩)⟩
      rw [Coordinator.refreshing, hrunning]
    · cases hstep

end Steps

/-! ### Runs -/

variable {before after : List Event}

theorem Timed.step {events : List Event} {event : Event} (h : Timed events)
    (heq : events = before ++ event :: after) :
    (∀ e ∈ before, e.env.now ≤ event.env.now) ∧ event.label ≠ .reset := by
  subst heq
  refine ⟨fun e he => ?_, h.kept event (List.mem_append_right _ List.mem_cons_self)⟩
  exact (List.pairwise_append.1 h.pairwise).2.2 e he event List.mem_cons_self

/-- What holds in every state of a run of calm steps. -/
theorem paced_of_calm {options : Options} {events : List Event} (htimed : Timed events)
    (hcalm : CalmThroughout options events) {s : Coordinator} (heq : events = before ++ after)
    (hrun : Run (Step options) .initial before s) : Inv before s ∧ Paced options before s := by
  induction before using List.reverseRecOn generalizing after s with
  | nil =>
    obtain rfl := run_nil.1 hrun
    exact ⟨inv_initial, paced_initial⟩
  | append_singleton before event ih =>
    obtain ⟨r, hbefore, hstep⟩ := run_snoc.1 hrun
    have heq' : events = before ++ event :: after := by rw [heq, List.append_assoc]; rfl
    obtain ⟨hinv, hpaced⟩ := ih heq' hbefore
    obtain ⟨htime, hreset⟩ := htimed.step heq'
    exact ⟨hinv.step (changed_of_step hstep), (hpaced.step hinv hstep hreset htime
      (hcalm before event after r s heq' hbefore hstep)).2⟩

/-- Every refresh of a run is spaced, and one runs at a time. -/
def SpacedThroughout (options : Options) (events : List Event) : Prop :=
  ∀ before event after s t, events = before ++ event :: after →
    Run (Step options) .initial before s → Step options s event t →
      Spaced options before event ∧ OneAtATime (before ++ [event])

def envAt (now : ℤ) : Env := { sampleEnv with now }

/-- A wave that nobody asked for. -/
def automaticEvents : List Event :=
  [⟨.invalidate sampleColumn, envAt 0, none⟩, ⟨.timer, envAt 2000, some ⟨sampleColumn, 1⟩⟩]

/-- A step as a function. -/
theorem step_iff {options : Options} {s t : Coordinator} {event : Event} :
    Step options s event t ↔
      ((step options s event.label event.env).bind fun next =>
        if next.2 = event.started then some next.1 else none) = some t := by
  rw [Option.bind_eq_some_iff]
  constructor
  · exact fun h => ⟨_, h, if_pos rfl⟩
  · rintro ⟨next, hnext, hstarted⟩
    split_ifs at hstarted with heq
    rw [Step, hnext, ← heq, ← Option.some.inj hstarted]

/-- The column that is asked for takes the other one along, half a minute early. -/
def rideAlong : List Event :=
  [⟨.invalidate sampleColumn, envAt 0, none⟩, ⟨.timer, envAt 2000, some ⟨sampleColumn, 1⟩⟩,
    ⟨.refreshed true, envAt 2000, none⟩, ⟨.finish, envAt 2000, none⟩,
    ⟨.invalidate ⟨"yq", 1, 0⟩, envAt 2001, none⟩, ⟨.invalidate sampleColumn, envAt 2001, none⟩,
    ⟨.activate sampleColumn, envAt 2002, none⟩, ⟨.timer, envAt 2002, some ⟨sampleColumn, 1⟩⟩]

def takenAlong : Event := ⟨.refreshed true, envAt 2002, some ⟨⟨"yq", 1, 0⟩, 1⟩⟩

theorem run_rideAlong : ∃ s t, Run (Step sampleOptions) .initial rideAlong s ∧
    Step sampleOptions s takenAlong t := by
  have hfold : ((rideAlong ++ [takenAlong]).foldlM (fun s event =>
      (step sampleOptions s event.label event.env).bind fun next =>
        if next.2 = event.started then some next.1 else none)
          Coordinator.initial).isSome = true := by decide +kernel
  obtain ⟨t, ht⟩ := Option.isSome_iff_exists.1 hfold
  have hrun : Run (Step sampleOptions) .initial (rideAlong ++ [takenAlong]) t :=
    (run_iff_foldlM.2 ht).mono fun h => step_iff.2 h
  obtain ⟨s, hrun, hstep⟩ := run_snoc.1 hrun
  exact ⟨s, t, hrun, hstep⟩

end Awayuki.AnalyticalRefresh
