import Awayuki.Settings.Invariant

/-!
# Settings: writes are serialized

Calls of `persist` for one key are made one after the other, newer drafts after older ones, if no
seed replaces the entry of a key while a call for it is in flight.

* `SeedsIdle`: the condition on a step;
* `Serialized`: what holds then;
* `persist_serialized`: it holds of every run whose steps meet the condition;
* `not_persist_serialized`: it does not hold of every run.
-/

namespace Awayuki.Settings

open Runs

variable {ν ρ : Type}

/-- A seed replaces an entry only when no call for its key is in flight. -/
def SeedsIdle (s : Coordinator ν ρ) : Event ν ρ → Prop
  | .seed key _ => ∀ c ∈ s.calls, c.key = key → c.outcome = none →
      ∃ entry, s.entries.get key = some entry ∧ entry.state.phase ∈ [.dirty, .saving]
  | _ => True

/-- The generation of a call for the key. -/
def Call.generationOf (key : Str) (c : Call ν ρ) : Option ℕ :=
  if c.key = key then some c.generation else none

/-- The generations of a key in the order in which their calls were answered. -/
def Coordinator.answered (s : Coordinator ν ρ) (key : Str) : List ℕ :=
  s.settled.filterMap fun i => (s.calls[i]?).bind (Call.generationOf key)

structure Serialized (s : Coordinator ν ρ) : Prop where
  flight : ∀ (i : ℕ) (c : Call ν ρ), s.calls[i]? = some c → c.outcome = none →
    ∃ entry, s.entries.get c.key = some entry ∧ entry.inFlight = some i
  newest : ∀ (i j : ℕ) (c d : Call ν ρ), s.calls[i]? = some c → c.outcome = none → s.calls[j]? = some d →
    d.key = c.key → j ≠ i → d.generation < c.generation
  settled : ∀ i ∈ s.settled, ∃ c, s.calls[i]? = some c ∧ c.outcome ≠ none
  ordered : ∀ key, (s.answered key).Pairwise (· < ·)

namespace Serialized

variable {s t : Coordinator ν ρ} {key : Str} {entry : Entry ν} {i : ℕ}

/-- Entries may change as long as they know the calls in flight. -/
theorem congr (h : Serialized s) (hcalls : t.calls = s.calls) (hsettled : t.settled = s.settled)
    (hflight : ∀ (i : ℕ) (c : Call ν ρ) entry, s.calls[i]? = some c → c.outcome = none →
      s.entries.get c.key = some entry → entry.inFlight = some i →
      ∃ entry', t.entries.get c.key = some entry' ∧ entry'.inFlight = some i) :
    Serialized t := by
  refine ⟨fun i c hc hpending => ?_, by rw [hcalls]; exact h.newest,
    by rw [hcalls, hsettled]; exact h.settled,
    by unfold Coordinator.answered; rw [hcalls, hsettled]; exact h.ordered⟩
  rw [hcalls] at hc
  obtain ⟨entry, hentry, hi⟩ := h.flight i c hc hpending
  exact hflight i c entry hc hpending hentry hi

/-- The entry of one key is replaced. -/
theorem set (h : Serialized s) (hcalls : t.calls = s.calls) (hsettled : t.settled = s.settled)
    (hentries : t.entries = s.entries.set key entry)
    (hflight : ∀ (i : ℕ) (c : Call ν ρ) old, s.calls[i]? = some c → c.outcome = none → c.key = key →
      s.entries.get key = some old → old.inFlight = some i → entry.inFlight = some i) :
    Serialized t := by
  refine h.congr hcalls hsettled fun i c old hc hpending hold hi => ?_
  rw [hentries, OrderedMap.get_set]
  by_cases hkey : c.key = key
  · exact ⟨entry, if_pos hkey, hflight i c old hc hpending hkey (hkey ▸ hold) hi⟩
  · exact ⟨old, (if_neg hkey).trans hold, hi⟩

theorem seed (h : Serialized s) (key : Str) (value : ν) (hidle : SeedsIdle s (.seed key value)) :
    Serialized (s.seed key value) := by
  unfold Coordinator.seed
  dsimp only
  split_ifs with hbusy
  · exact h
  refine h.set rfl rfl rfl fun i c old hc hpending hkey hold hi => ?_
  obtain ⟨entry, hentry, hphase⟩ := hidle c (List.mem_of_getElem? hc) hkey hpending
  rw [hentry] at hbusy
  exact absurd (by simpa using hphase) hbusy

theorem enqueue (h : Serialized s) (key : Str) (value : ν) : Serialized (s.enqueue key value) := by
  refine h.set rfl rfl rfl fun i c old _ _ _ hold hi => ?_
  simpa [hold] using hi

theorem resetEntry (h : Serialized s) (key : Str) : Serialized (s.resetEntry key) := by
  unfold Coordinator.resetEntry
  split
  · exact h
  · next entry hentry =>
    refine h.set rfl rfl rfl fun i c old _ _ _ hold hi => ?_
    exact Option.some.inj (hold.symm.trans hentry) ▸ hi

theorem resetScope (h : Serialized s) : Serialized s.resetScope := by
  unfold Coordinator.resetScope
  generalize s.entries.keys = keys
  have hnext : Serialized { s with scope := s.scope + 1 } :=
    h.congr rfl rfl fun _ _ entry _ _ hentry hi => ⟨entry, hentry, hi⟩
  generalize ({ s with scope := s.scope + 1 } : Coordinator ν ρ) = t at hnext
  induction keys generalizing t with
  | nil => exact hnext
  | cons key keys ih => exact ih _ (hnext.resetEntry key)

theorem clear (h : Serialized s) (hentry : s.entries.get key = some entry) :
    Serialized (s.clear key entry) :=
  h.set rfl rfl rfl fun _ _ _ _ _ _ hold hi => Option.some.inj (hold.symm.trans hentry) ▸ hi

theorem expire (h : Serialized s) (timer : Timer) : Serialized (s.expire timer) := by
  have hframe : ∀ timers, Serialized { s with timers } := fun timers =>
    h.congr rfl rfl fun _ _ entry _ _ hentry hi => ⟨entry, hentry, hi⟩
  simp only [Coordinator.expire]
  split
  · exact hframe _
  · next entry hentry =>
    split_ifs
    · exact h.set rfl rfl rfl fun _ _ _ _ _ _ hold hi =>
        Option.some.inj (hold.symm.trans hentry) ▸ hi
    · exact hframe _

variable {c : Call ν ρ}

theorem answered_settle {outcome : Except Str ρ} (hc : s.calls[i]? = some c) (key : Str) :
    (s.settle i outcome).answered key =
      s.answered key ++ if c.key = key then [c.generation] else [] := by
  have hsame : ∀ j : ℕ, ((s.settle i outcome).calls[j]?).bind (Call.generationOf key) =
      (s.calls[j]?).bind (Call.generationOf key) := by
    intro j
    simp only [Coordinator.settle, List.getElem?_modify]
    cases s.calls[j]? with
    | none => rfl
    | some d => by_cases hij : i = j <;> simp [hij, Call.answered, Call.generationOf]
  unfold Coordinator.answered
  simp only [hsame]
  change List.filterMap _ (s.settled ++ [i]) = _
  rw [List.filterMap_append]
  split_ifs with hkey <;> simp [hc, hkey, Call.generationOf]

theorem settle (h : Serialized s) (hc : s.calls[i]? = some c) (hpending : c.outcome = none)
    (outcome : Except Str ρ) : Serialized (s.settle i outcome) := by
  have hget : ∀ {j c'}, (s.settle i outcome).calls[j]? = some c' → ∃ d, s.calls[j]? = some d ∧
      c'.key = d.key ∧ c'.generation = d.generation ∧ (c'.outcome = none → i ≠ j ∧ d = c') := by
    intro j c' hc'
    obtain ⟨d, hd, rfl⟩ := Coordinator.getElem?_settle.1 hc'
    refine ⟨d, hd, ?_⟩
    split_ifs with hij
    · exact ⟨rfl, rfl, nofun⟩
    · exact ⟨rfl, rfl, fun _ => ⟨hij, rfl⟩⟩
  refine ⟨fun j c' hc' hpending' => ?_, fun j k c' d' hc' hpending' hd' hkey hne => ?_,
    fun j hj => ?_, fun key => ?_⟩
  · obtain ⟨d, hd, -, -, houtcome⟩ := hget hc'
    obtain ⟨-, rfl⟩ := houtcome hpending'
    exact h.flight j d hd hpending'
  · obtain ⟨c₀, hc₀, -, -, houtcome⟩ := hget hc'
    obtain ⟨-, rfl⟩ := houtcome hpending'
    obtain ⟨d, hd, hdkey, hdgeneration, -⟩ := hget hd'
    rw [hdgeneration]
    exact h.newest j k c₀ d hc₀ hpending' hd (hdkey ▸ hkey) hne
  · have hanswered : ∃ c', (s.settle i outcome).calls[i]? = some c' ∧ c'.outcome ≠ none :=
      ⟨c.answered outcome, Coordinator.getElem?_settle.2 ⟨c, hc, by rw [if_pos rfl]⟩, nofun⟩
    rcases List.mem_append.1 hj with hj | hj
    · obtain ⟨d, hd, houtcome⟩ := h.settled j hj
      by_cases hij : i = j
      · exact hij ▸ hanswered
      · exact ⟨d, Coordinator.getElem?_settle.2 ⟨d, hd, by rw [if_neg hij]⟩, houtcome⟩
    · exact List.mem_singleton.1 hj ▸ hanswered
  · rw [answered_settle hc]
    refine List.pairwise_append.2 ⟨h.ordered key, ?_, fun g hg g' hg' => ?_⟩
    · split_ifs <;> simp
    · split_ifs at hg' with hkey
      · obtain rfl := List.mem_singleton.1 hg'
        -- all that was answered for the key is older than what was in flight
        obtain ⟨j, hj, hgeneration⟩ := List.mem_filterMap.1 hg
        obtain ⟨d, hd, houtcome⟩ := h.settled j hj
        simp only [hd, Option.bind_some, Call.generationOf] at hgeneration
        split_ifs at hgeneration with hdkey
        obtain rfl := Option.some.inj hgeneration
        refine h.newest i j c d hc hpending hd (hdkey.trans hkey.symm) ?_
        rintro rfl
        exact houtcome (Option.some.inj (hc.symm.trans hd) ▸ hpending)
      · cases hg'

theorem send (h : Serialized s) (hinv : s.Inv) (targets : List Str)
    (hentry : s.entries.get key = some entry) (hnone : entry.inFlight = none)
    (hdirty : entry.state.phase = .dirty) : Serialized (s.send key entry targets) := by
  have hidle : ∀ (i : ℕ) (c : Call ν ρ), s.calls[i]? = some c → c.outcome = none → c.key ≠ key := by
    rintro i c hc hpending rfl
    obtain ⟨e, he, hi⟩ := h.flight i c hc hpending
    obtain rfl := Option.some.inj (hentry.symm.trans he)
    simp [hnone] at hi
  refine ⟨fun i c hc hpending => ?_, fun i j c d hc hpending hd hkey hne => ?_, fun i hi => ?_,
    fun k => ?_⟩
  · rcases Coordinator.getElem?_send hc with hc | ⟨rfl, rfl⟩
    · obtain ⟨e, he, hi⟩ := h.flight i c hc hpending
      refine ⟨e, ?_, hi⟩
      change (s.entries.set key _).get c.key = some e
      rw [OrderedMap.get_set_of_ne (hidle i c hc hpending), he]
    · exact ⟨_, OrderedMap.get_set_self, rfl⟩
  · rcases Coordinator.getElem?_send hc with hc | ⟨rfl, rfl⟩
    · rcases Coordinator.getElem?_send hd with hd | ⟨rfl, rfl⟩
      · exact h.newest i j c d hc hpending hd hkey hne
      · exact absurd hkey.symm (hidle i c hc hpending)
    · rcases Coordinator.getElem?_send hd with hd | ⟨rfl, rfl⟩
      · -- the draft is dirty, so newer than what has been sent
        obtain ⟨e, he, hcovers⟩ := hinv.covers d (List.mem_of_getElem? hd)
        rw [hkey] at he
        obtain rfl := Option.some.inj (hentry.symm.trans he)
        exact hcovers.lt hdirty
      · exact absurd rfl hne
  · obtain ⟨c, hc, houtcome⟩ := h.settled i hi
    exact ⟨c, (List.getElem?_append_left (List.getElem?_eq_some_iff.1 hc).1).trans hc, houtcome⟩
  · have hsame : (s.send key entry targets).answered k = s.answered k := by
      refine List.filterMap_congr fun i hi => ?_
      obtain ⟨c, hc, -⟩ := h.settled i hi
      have hlt := (List.getElem?_eq_some_iff.1 hc).1
      simp only [Coordinator.send, Coordinator.park, List.getElem?_append_left hlt]
    rw [hsame]
    exact h.ordered k

theorem complete (h : Serialized s) (hinv : s.Inv) {task : Task} {outcome : Except Str ρ}
    (hanswer : s.answer i = some (c, outcome)) :
    Serialized (({ s with tasks := s.tasks.erase task }.apply c outcome).release c.key i) := by
  obtain ⟨hc, houtcome⟩ := Coordinator.answer_eq_some.1 hanswer
  obtain ⟨old, hold, -⟩ := hinv.covers c (List.mem_of_getElem? hc)
  obtain ⟨entry, hget, hentry, -⟩ :=
    Coordinator.apply_release (s := { s with tasks := s.tasks.erase task }) hold outcome i
  obtain ⟨entries, resolved, reports, commits, heq⟩ :=
    Coordinator.apply_release_frame { s with tasks := s.tasks.erase task } c outcome i
  rw [heq] at hget ⊢
  refine h.congr rfl rfl fun j d e hd hpending he hj => ?_
  rw [show entries.get = _ from hget]
  by_cases hkey : d.key = c.key
  · rw [hkey] at he ⊢
    obtain rfl := Option.some.inj (hold.symm.trans he)
    refine ⟨entry, Function.update_self .., hentry.inFlight.trans ?_⟩
    have hne : j ≠ i := by
      rintro rfl
      obtain rfl := Option.some.inj (hc.symm.trans hd)
      simp [houtcome] at hpending
    rw [hj, if_neg (by simpa using hne)]
  · exact ⟨e, by rw [Function.update_of_ne hkey]; exact he, hj⟩

end Serialized

theorem Serialized.kept : Kept (SeedsIdle (ν := ν) (ρ := ρ)) fun _ _ s => Serialized s where
  quiet _ _ _ _ h := h
  weaken _ _ _ h := h
  seed _ _ key value _ hidle h := h.seed key value hidle
  enqueue _ _ key value _ h := h.enqueue key value
  resetScope _ _ _ h := h.resetScope
  clear _ _ _ _ _ hentry h := h.clear hentry
  expire _ _ timer _ _ h := h.expire timer
  settle _ _ _ _ outcome _ hc hpending h := h.settle hc hpending outcome
  unpark _ _ _ _ _ _ h := h.congr rfl rfl fun _ _ entry _ _ hentry hi => ⟨entry, hentry, hi⟩
  complete _ _ _ _ _ _ hinv _ _ hanswer _ h := h.complete hinv hanswer
  park _ _ _ _ _ _ _ _ h := h.congr rfl rfl fun _ _ entry _ _ hentry hi => ⟨entry, hentry, hi⟩
  send _ _ _ _ targets hinv hentry hnone hdirty h := h.send hinv targets hentry hnone hdirty

theorem Serialized.start : Serialized (.start : Coordinator ν ρ) where
  flight := by simp [Coordinator.start]
  newest := by simp [Coordinator.start]
  settled := by simp [Coordinator.start]
  ordered := by simp [Coordinator.start, Coordinator.answered]

/-- If no seed replaces an entry while a call is in flight, at most one call for a key is in flight,
and the calls are answered in the order of their drafts. -/
theorem persist_serialized {events : List (Event ν ρ)} {s : Coordinator ν ρ}
    (h : Run (fun s event t => step s event = some t ∧ SeedsIdle s event) .start events s) :
    (∀ (i j : ℕ) (c d : Call ν ρ), s.calls[i]? = some c → s.calls[j]? = some d →
      c.outcome = none → d.outcome = none → c.key = d.key → i = j) ∧
    ∀ key, (s.answered key).Pairwise (· < ·) := by
  obtain ⟨-, hserialized⟩ := Serialized.kept.run .start h
  refine ⟨fun i j c d hc hd hpending hpending' hkey => ?_, hserialized.ordered⟩
  obtain ⟨entry, hentry, hi⟩ := hserialized.flight i c hc hpending
  obtain ⟨entry', hentry', hj⟩ := hserialized.flight j d hd hpending'
  rw [hkey] at hentry
  obtain rfl := Option.some.inj (hentry.symm.trans hentry')
  exact Option.some.inj (hi.symm.trans hj)

/-- Two drafts of a key, the second enqueued while the first is written. -/
theorem persist_serialized_twice :
    ∃ events, ∃ s : Coordinator ℕ ℕ,
      Run (fun s event t => step s event = some t ∧ SeedsIdle s event) .start events s ∧
      s.answered ['k'] = [1, 2] ∧ (s.answered ['k']).Pairwise (· < ·) := by
  have hrun : ∃ s : Coordinator ℕ ℕ,
      Run (fun s event t => step s event = some t ∧ SeedsIdle s event) .start
        [.seed ['k'] 0, .enqueue ['k'] 1, .flush (some ['k']), .enqueue ['k'] 2,
          .settle 0 (.ok 1), .resume ⟨.persist 0, []⟩, .settle 1 (.ok 2)] s ∧
      s.answered ['k'] = [1, 2] := by
    refine ⟨_, run_cons.2 ⟨_, ⟨rfl, by simp [SeedsIdle, Coordinator.start]⟩,
      run_cons.2 ⟨_, ⟨rfl, trivial⟩, run_cons.2 ⟨_, ⟨rfl, trivial⟩, run_cons.2 ⟨_, ⟨rfl, trivial⟩,
      run_cons.2 ⟨_, ⟨rfl, trivial⟩, run_cons.2 ⟨_, ⟨rfl, trivial⟩, run_cons.2 ⟨_, ⟨rfl, trivial⟩,
      .nil _⟩⟩⟩⟩⟩⟩⟩, by decide⟩
  obtain ⟨s, hrun, hanswered⟩ := hrun
  exact ⟨_, s, hrun, hanswered, (persist_serialized hrun).2 _⟩

/-- A draft is being written when its scope is reset, the setting is loaded again and edited: two
calls for the key are in flight. -/
theorem not_persist_serialized :
    ¬ ∀ events, ∀ s : Coordinator ℕ ℕ,
      Run (fun s event t => step s event = some t) .start events s →
      (∀ (i j : ℕ) (c d : Call ℕ ℕ), s.calls[i]? = some c → s.calls[j]? = some d →
        c.outcome = none → d.outcome = none → c.key = d.key → i = j) ∧
      ∀ key, (s.answered key).Pairwise (· < ·) := by
  intro hall
  have hrun : ∃ s : Coordinator ℕ ℕ, ([.enqueue ['k'] 1, .flush (some ['k']), .resetScope,
      .seed ['k'] 0, .enqueue ['k'] 2, .flush (some ['k'])] : List (Event ℕ ℕ)).foldlM step .start =
        some s := ⟨_, rfl⟩
  obtain ⟨s, hrun⟩ := hrun
  have hone := (hall _ s (run_iff_foldlM.2 hrun)).1 0 1
  obtain rfl := Option.some.inj hrun
  exact absurd (hone _ _ rfl rfl rfl rfl rfl) (by decide)

end Awayuki.Settings
