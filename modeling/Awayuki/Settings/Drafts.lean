import Awayuki.Settings.Invariant

/-!
# Settings: drafts and the history

What was enqueued for a key, as the history tells it, and what entries and calls know of it.

* `enqueued`, `sinceReset`: the values of a key, and the history of the present scope;
* `Drafted`: the generation of a draft is its number, and calls send drafts;
* `FailuresCurrent`: no failure is processed while there is a newer draft of its key;
* `Drafted.kept`: then a draft is reported as failed only when it was sent and refused.
-/

namespace Awayuki.Settings

open Runs

variable {ν ρ : Type}

/-- The values that were enqueued for a key. -/
def enqueued (key : Str) (h : List (Event ν ρ)) : List ν :=
  h.filterMap fun
    | .enqueue k value => if k = key then some value else none
    | _ => none

/-- The history since the scope was reset. -/
def sinceReset (h : List (Event ν ρ)) : List (Event ν ρ) :=
  h.foldl (fun present event =>
    match event with
    | .resetScope => []
    | event => present ++ [event]) []

section

variable {h : List (Event ν ρ)} {key : Str} {event : Event ν ρ} {k : Str} {value : ν}

theorem enqueued_quiet (hquiet : event.IsQuiet) : enqueued key (h ++ [event]) = enqueued key h := by
  cases event <;> simp_all [Event.IsQuiet, enqueued]

@[simp] theorem enqueued_seed : enqueued key (h ++ [.seed k value]) = enqueued key h := by
  simp [enqueued]

@[simp] theorem enqueued_resetScope : enqueued key (h ++ [.resetScope]) = enqueued key h := by
  simp [enqueued]

theorem enqueued_enqueue : enqueued key (h ++ [.enqueue k value]) =
      enqueued key h ++ if k = key then [value] else [] := by
  split_ifs with hk <;> simp [enqueued, hk]

theorem sinceReset_append (hne : event ≠ .resetScope) :
    sinceReset (h ++ [event]) = sinceReset h ++ [event] := by
  cases event <;> simp_all [sinceReset]

@[simp] theorem sinceReset_resetScope : sinceReset (h ++ [.resetScope]) = [] := by
  simp [sinceReset]

end

/-- No failure of a call is processed in its scope while there is a newer draft of its key. -/
def FailuresCurrent (s : Coordinator ν ρ) : Event ν ρ → Prop
  | .resume task => ∀ i c error entry, task.suspension = .persist i →
      s.answer i = some (c, .error error) → s.entries.get c.key = some entry →
      entry.scope = c.scope → s.scope = c.scope → entry.state.generation = c.generation
  | _ => True

/-- Entries and calls speak of what was enqueued, reports of failures of what was refused. -/
structure Drafted (h : List (Event ν ρ)) (s : Coordinator ν ρ) : Prop where
  entryKey : ∀ key entry, s.entries.get key = some entry → entry.state.key = key
  count : ∀ key,
    ((s.entries.get key).map fun entry => entry.state.generation).getD 0 = (enqueued key h).length
  dirty : ∀ key entry, s.entries.get key = some entry → entry.state.phase = .dirty →
    (enqueued key h).getLast? = some entry.state.draft
  sent : ∀ c ∈ s.calls, 0 < c.generation ∧
    (enqueued c.key h)[c.generation - 1]? = some c.value
  refused : ∀ report ∈ s.reports, report.phase = .failed → ∃ c ∈ s.calls,
    c.key = report.key ∧ c.generation = report.generation ∧ ∃ error, c.outcome = some (.error error)

namespace Drafted

variable {h : List (Event ν ρ)} {s t : Coordinator ν ρ} {key : Str} {entry : Entry ν}
  {h' : List (Event ν ρ)} {i : ℕ} {c : Call ν ρ}

theorem start : Drafted [] (.start : Coordinator ν ρ) where
  entryKey := by simp [Coordinator.start]
  count := by simp [Coordinator.start, enqueued]
  dirty := by simp [Coordinator.start]
  sent := by simp [Coordinator.start]
  refused := by simp [Coordinator.start]

/-- The entry of one key is replaced, and reported. -/
theorem set (hd : Drafted h s)
    (hentries : t.entries.get = Function.update s.entries.get key (some entry))
    (hcalls : t.calls = s.calls) (hother : ∀ k, k ≠ key → enqueued k h' = enqueued k h)
    (hsent : enqueued key h <+: enqueued key h') (hkey : entry.state.key = key)
    (hcount : entry.state.generation = (enqueued key h').length)
    (hdirty : entry.state.phase = .dirty → (enqueued key h').getLast? = some entry.state.draft)
    (hreports : ∀ report ∈ t.reports, report ∈ s.reports ∨ report.phase ≠ .failed ∨
      ∃ c ∈ s.calls, c.key = report.key ∧ c.generation = report.generation ∧
        ∃ error, c.outcome = some (.error error)) : Drafted h' t := by
  refine ⟨fun k e hk => ?_, fun k => ?_, fun k e hk hphase => ?_, fun c hc => ?_,
    fun report hreport hfailed => ?_⟩
  · rw [hentries] at hk
    by_cases heq : k = key
    · rw [heq, Function.update_self] at hk
      cases hk
      exact hkey.trans heq.symm
    · rw [Function.update_of_ne heq] at hk
      exact hd.entryKey k e hk
  · rw [hentries]
    by_cases heq : k = key
    · rw [heq, Function.update_self]
      exact hcount
    · rw [Function.update_of_ne heq, hother k heq]
      exact hd.count k
  · rw [hentries] at hk
    by_cases heq : k = key
    · rw [heq, Function.update_self] at hk
      cases hk
      exact heq ▸ hdirty hphase
    · rw [Function.update_of_ne heq] at hk
      rw [hother k heq]
      exact hd.dirty k e hk hphase
  · rw [hcalls] at hc
    obtain ⟨hpos, hvalue⟩ := hd.sent c hc
    refine ⟨hpos, ?_⟩
    by_cases heq : c.key = key
    · rw [heq] at hvalue ⊢
      obtain ⟨values, happend⟩ := hsent
      rw [← happend, List.getElem?_append_left (List.getElem?_eq_some_iff.1 hvalue).1, hvalue]
    · rw [hother c.key heq, hvalue]
  · rw [hcalls]
    rcases hreports report hreport with hmem | hphase | hrefused
    · exact hd.refused report hmem hfailed
    · exact absurd hfailed hphase
    · exact hrefused

/-- The entry of a key is replaced by one that says the same of drafts. -/
theorem congr (hd : Drafted h s) {old : Entry ν} (hold : s.entries.get key = some old)
    (hentries : t.entries.get = Function.update s.entries.get key (some entry))
    (hcalls : t.calls = s.calls) (hkey : entry.state.key = old.state.key)
    (hgeneration : entry.state.generation = old.state.generation)
    (hdirty : entry.state.phase = .dirty →
      old.state.phase = .dirty ∧ entry.state.draft = old.state.draft)
    (hreports : ∀ report ∈ t.reports, report ∈ s.reports ∨ report.phase ≠ .failed ∨
      ∃ c ∈ s.calls, c.key = report.key ∧ c.generation = report.generation ∧
        ∃ error, c.outcome = some (.error error)) : Drafted h t := by
  refine hd.set hentries hcalls (fun _ _ => rfl) (List.prefix_refl _)
    (hkey.trans (hd.entryKey key old hold)) ?_ (fun hphase => ?_) hreports
  · have hcount := hd.count key
    rw [hold] at hcount
    exact hgeneration.trans hcount
  · rw [(hdirty hphase).2]
    exact hd.dirty key old hold (hdirty hphase).1

/-- What is not of drafts may change. -/
theorem frame (hd : Drafted h s) (hentries : t.entries = s.entries) (hcalls : t.calls = s.calls)
    (hreports : t.reports = s.reports) : Drafted h t where
  entryKey := by rw [hentries]; exact hd.entryKey
  count := by rw [hentries]; exact hd.count
  dirty := by rw [hentries]; exact hd.dirty
  sent := by rw [hcalls]; exact hd.sent
  refused := by rw [hcalls, hreports]; exact hd.refused

theorem history (hd : Drafted h s) (heq : ∀ key, enqueued key h' = enqueued key h) :
    Drafted h' s where
  entryKey := hd.entryKey
  count := by simpa only [heq] using hd.count
  dirty := by simpa only [heq] using hd.dirty
  sent := by simpa only [heq] using hd.sent
  refused := hd.refused

/-- A report that is not of a failure. -/
theorem reports_append {reports : List (SettingSaveState ν)} {state report : SettingSaveState ν}
    {P : Prop} (hreport : report ∈ reports ++ [state]) (hphase : state.phase ≠ .failed) :
    report ∈ reports ∨ report.phase ≠ .failed ∨ P := by
  rcases List.mem_append.1 hreport with hreport | hreport
  · exact .inl hreport
  · exact .inr (.inl (List.mem_singleton.1 hreport ▸ hphase))

theorem seed (hd : Drafted h s) (key : Str) (value : ν) : Drafted h (s.seed key value) := by
  unfold Coordinator.seed
  dsimp only
  split_ifs with hbusy
  · exact hd
  · exact hd.set OrderedMap.get_set_eq rfl (fun _ _ => rfl) (List.prefix_refl _) rfl
      (hd.count key) (fun hphase => by cases hphase) fun report hreport => reports_append hreport (by simp)

theorem enqueue (hd : Drafted h s) (key : Str) (value : ν) :
    Drafted (h ++ [.enqueue key value]) (s.enqueue key value) := by
  refine hd.set OrderedMap.get_set_eq rfl (fun k hk => ?_) ?_ ?_ ?_ (fun _ => ?_)
    fun report hreport => reports_append hreport (by simp)
  · rw [enqueued_enqueue, if_neg hk.symm, List.append_nil]
  · rw [enqueued_enqueue]
    exact List.prefix_append _ _
  · cases hold : s.entries.get key with
    | none => rfl
    | some old => exact hd.entryKey key old hold
  · rw [enqueued_enqueue, if_pos rfl, List.length_append, ← hd.count key]
    rfl
  · rw [enqueued_enqueue, if_pos rfl, List.getLast?_append]
    rfl

theorem resetEntry (hd : Drafted h s) (key : Str) : Drafted h (s.resetEntry key) := by
  unfold Coordinator.resetEntry
  split
  · exact hd
  · next entry hentry =>
    refine hd.congr hentry OrderedMap.get_set_eq rfl rfl rfl (fun hphase => ?_)
      fun report hreport => reports_append hreport ?_
    · dsimp only at hphase
      split_ifs at hphase
    · dsimp only
      split_ifs <;> simp

theorem resetScope (hd : Drafted h s) : Drafted (h ++ [.resetScope]) s.resetScope := by
  have hkeys : ∀ (keys : List Str) (t : Coordinator ν ρ), Drafted h t →
      Drafted h (keys.foldl Coordinator.resetEntry t) := by
    intro keys
    induction keys with
    | nil => exact fun t ht => ht
    | cons key keys ih => exact fun t ht => ih _ (ht.resetEntry key)
  have hnext : Drafted h { s with scope := s.scope + 1 } := hd.frame rfl rfl rfl
  exact (hkeys s.entries.keys _ hnext).history fun key => enqueued_resetScope

theorem clear (hd : Drafted h s) (hentry : s.entries.get key = some entry) :
    Drafted h (s.clear key entry) :=
  hd.congr hentry OrderedMap.get_set_eq rfl rfl rfl (fun hphase => ⟨hphase, rfl⟩)
    fun _ hreport => .inl hreport

theorem expire (hd : Drafted h s) (timer : Timer) : Drafted h (s.expire timer) := by
  simp only [Coordinator.expire]
  split
  · exact hd.frame rfl rfl rfl
  · next entry hentry =>
    split_ifs
    · exact hd.congr hentry OrderedMap.get_set_eq rfl rfl rfl (fun hphase => ⟨hphase, rfl⟩)
        fun _ hreport => .inl hreport
    · exact hd.frame rfl rfl rfl

theorem settle (hd : Drafted h s) (hc : s.calls[i]? = some c) (hpending : c.outcome = none)
    (outcome : Except Str ρ) : Drafted h (s.settle i outcome) := by
  refine ⟨hd.entryKey, hd.count, hd.dirty, fun c' hc' => ?_, fun report hreport hfailed => ?_⟩
  · obtain ⟨j, hj⟩ := List.mem_iff_getElem?.1 hc'
    obtain ⟨d, hget, rfl⟩ := Coordinator.getElem?_settle.1 hj
    split_ifs <;> exact hd.sent d (List.mem_of_getElem? hget)
  · obtain ⟨d, hmem, hkey, hgeneration, error, houtcome⟩ := hd.refused report hreport hfailed
    obtain ⟨j, hj⟩ := List.mem_iff_getElem?.1 hmem
    have hne : i ≠ j := by
      rintro rfl
      obtain rfl := Option.some.inj (hc.symm.trans hj)
      simp [hpending] at houtcome
    exact ⟨d, List.mem_of_getElem? (Coordinator.getElem?_settle.2 ⟨d, hj, by rw [if_neg hne]⟩), hkey,
      hgeneration, error, houtcome⟩

theorem send (hd : Drafted h s) (targets : List Str) (hentry : s.entries.get key = some entry)
    (hdirty : entry.state.phase = .dirty) : Drafted h (s.send key entry targets) := by
  have hset : Drafted h { s with
      entries := s.entries.set key { entry with
        state := { entry.state with phase := .saving, error := none }
        inFlight := some s.calls.length }
      reports := s.reports ++ [{ entry.state with phase := .saving, error := none }] } :=
    hd.congr hentry OrderedMap.get_set_eq rfl rfl rfl (fun hphase => by cases hphase)
      fun report hreport => reports_append hreport (by simp)
  have hlast := hd.dirty key entry hentry hdirty
  have hcount : entry.state.generation = (enqueued key h).length := by
    have := hd.count key
    rwa [hentry] at this
  refine ⟨hset.entryKey, hset.count, hset.dirty, fun c hc => ?_, fun report hreport hfailed => ?_⟩
  · rcases List.mem_append.1 hc with hc | hc
    · exact hd.sent c hc
    · obtain rfl := List.mem_singleton.1 hc
      have hpos : 0 < (enqueued key h).length := by
        refine List.length_pos_of_ne_nil fun hnil => ?_
        simp [hnil] at hlast
      refine ⟨hcount ▸ hpos, ?_⟩
      rw [List.getLast?_eq_getElem?] at hlast
      simpa only [hcount] using hlast
  · obtain ⟨c, hc, hrefused⟩ := hset.refused report hreport hfailed
    exact ⟨c, List.mem_append_left _ hc, hrefused⟩

theorem complete (hd : Drafted h s) (hinv : s.Inv) {task : Task} {outcome : Except Str ρ}
    (htask : task ∈ s.tasks) (hsuspension : task.suspension = .persist i)
    (hanswer : s.answer i = some (c, outcome)) (hcurrent : FailuresCurrent s (.resume task)) :
    Drafted h (({ s with tasks := s.tasks.erase task }.apply c outcome).release c.key i) := by
  obtain ⟨hc, houtcome⟩ := Coordinator.answer_eq_some.1 hanswer
  obtain ⟨old, hold, -⟩ := hinv.covers c (List.mem_of_getElem? hc)
  obtain ⟨entry, hget, hentry, hreports⟩ :=
    Coordinator.apply_release (s := { s with tasks := s.tasks.erase task }) hold outcome i
  obtain ⟨entries, resolved, reports, commits, heq⟩ :=
    Coordinator.apply_release_frame { s with tasks := s.tasks.erase task } c outcome i
  rw [heq] at hget hreports ⊢
  refine hd.congr hold hget rfl hentry.key hentry.generation (fun hdirty => ?_)
    fun report hreport => ?_
  · refine ⟨?_, hentry.draft⟩
    rw [hentry.phase] at hdirty
    refine (Coordinator.answeredPhase_eq_dirty hdirty).elim id fun ⟨hin, hnewer⟩ => ?_
    obtain ⟨c', hc', hawaits⟩ := hinv.task i (Coordinator.mem_awaited htask hsuspension)
    obtain rfl := Option.some.inj (hc.symm.trans hc')
    obtain ⟨e, he, hawaits⟩ := hawaits hin
    obtain rfl := Option.some.inj (hold.symm.trans he)
    exact hawaits.phase.resolve_right fun hsaving => hnewer hsaving.2
  · rcases hreports report hreport with hmem | ⟨rfl, hscope, hin⟩
    · exact .inl hmem
    refine .inr ?_
    by_cases hfailed : entry.state.phase = .failed
    swap
    · exact .inl hfailed
    rw [hentry.phase] at hfailed
    cases outcome with
    | ok result =>
      rw [Coordinator.answeredPhase_ok hscope hin] at hfailed
      split_ifs at hfailed
    | error error =>
      refine .inr ⟨c, List.mem_of_getElem? hc, ?_, ?_, error, houtcome⟩
      · rw [hentry.key, hd.entryKey c.key old hold]
      · rw [hentry.generation]
        exact (hcurrent i c error old hsuspension hanswer hold hscope hin).symm

theorem kept : Kept (FailuresCurrent (ν := ν) (ρ := ρ)) fun h _ s => Drafted h s where
  quiet _ _ _ hquiet hd := hd.history fun _ => enqueued_quiet hquiet
  weaken _ _ _ hd := hd
  seed _ _ key value _ _ hd := (hd.seed key value).history fun _ => enqueued_seed
  enqueue _ _ key value _ hd := hd.enqueue key value
  resetScope _ _ _ hd := hd.resetScope
  clear _ _ _ _ _ hentry hd := hd.clear hentry
  expire _ _ timer _ _ hd := hd.expire timer
  settle _ _ _ _ outcome _ hc hpending hd := hd.settle hc hpending outcome
  unpark _ _ _ _ _ _ hd := hd.frame rfl rfl rfl
  complete _ _ _ _ _ _ hinv htask hsuspension hanswer hcurrent hd :=
    hd.complete hinv htask hsuspension hanswer hcurrent
  park _ _ _ _ _ _ _ _ hd := hd.frame rfl rfl rfl
  send _ _ _ _ targets _ hentry _ hdirty hd := hd.send targets hentry hdirty

end Drafted

end Awayuki.Settings
