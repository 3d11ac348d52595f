import Awayuki.Settings.Coordinator

/-!
# Settings: what holds of the coordinator

Entries, calls and suspended functions fit together, whatever happens.

* `Suspension.call?`, `awaited`: the calls whose own `drain` is still to go on;
* `Inv`: an entry knows a call only while it is awaited, and calls of the scope are known;
* `Inv.step`: every step keeps it.
-/

namespace Awayuki.Settings

open Runs

variable {ν ρ : Type} {c : Call ν ρ} {i : ℕ} {task : Task}

/-- The call that a `drain` made. -/
def Suspension.call? : Suspension → Option ℕ
  | .persist call => some call
  | _ => none

/-- The calls whose own `drain` waits for them. -/
def awaited (tasks : List Task) : List ℕ := tasks.filterMap fun task => task.suspension.call?

theorem awaited_append_single (tasks : List Task) (suspension : Suspension) (targets : List Str) :
    awaited (tasks ++ [⟨suspension, targets⟩]) = awaited tasks ++ suspension.call?.toList := by
  cases h : suspension.call? <;> simp [awaited, h]

/-- An entry that is worked on in its scope, with the call that is made for it. -/
structure Entry.Awaits (entry : Entry ν) (scope i : ℕ) (c : Call ν ρ) : Prop where
  scope : entry.scope = scope
  inFlight : entry.inFlight = some i
  phase : entry.state.phase = .dirty ∨
    entry.state.phase = .saving ∧ entry.state.generation = c.generation

/-- Calls have been made for what was enqueued, and not for the draft that is still dirty. -/
structure Entry.Covers (entry : Entry ν) (c : Call ν ρ) : Prop where
  le : c.generation ≤ entry.state.generation
  lt : entry.state.phase = .dirty → c.generation < entry.state.generation

structure Inv (entries : Str → Option (Entry ν)) (scope : ℕ) (calls : List (Call ν ρ))
    (awaited : List ℕ) : Prop where
  unique : awaited.Nodup
  callScope : ∀ c ∈ calls, c.scope ≤ scope
  entryScope : ∀ key entry, entries key = some entry → entry.scope ≤ scope
  pending : ∀ i c, calls[i]? = some c → c.outcome = none → i ∈ awaited
  inFlight : ∀ key entry i, entries key = some entry → entry.inFlight = some i →
    i ∈ awaited ∧ ∃ c, calls[i]? = some c ∧ c.key = key
  task : ∀ i ∈ awaited, ∃ c, calls[i]? = some c ∧
    (c.scope = scope → ∃ entry, entries c.key = some entry ∧ entry.Awaits scope i c)
  covers : ∀ c ∈ calls, ∃ entry, entries c.key = some entry ∧ entry.Covers c

/-- The invariant of a coordinator. -/
abbrev Coordinator.Inv (s : Coordinator ν ρ) : Prop :=
  Settings.Inv s.entries.get s.scope s.calls (awaited s.tasks)

variable {old : Entry ν}

namespace Inv

variable {entries : Str → Option (Entry ν)} {scope : ℕ} {calls : List (Call ν ρ)}
  {tasks : List ℕ} {key : Str} {entry : Entry ν}

/-- An entry is replaced by one that does as well for the calls that were made. -/
theorem update (h : Inv entries scope calls tasks) (hscope : entry.scope ≤ scope)
    (hflight : ∀ i, entry.inFlight = some i →
      ∃ old, entries key = some old ∧ old.inFlight = some i)
    (htask : ∀ i c old, calls[i]? = some c → c.scope = scope → entries key = some old →
      old.Awaits scope i c → entry.Awaits scope i c)
    (hcovers : ∀ c ∈ calls, ∀ old, entries key = some old → old.Covers c → entry.Covers c) :
    Inv (Function.update entries key (some entry)) scope calls tasks := by
  refine ⟨h.unique, h.callScope, fun k e hk => ?_, h.pending, fun k e i hk hi => ?_,
    fun i hi => ?_, fun c hc => ?_⟩
  · by_cases heq : k = key
    · subst heq
      rw [Function.update_self] at hk
      cases hk
      exact hscope
    · rw [Function.update_of_ne heq] at hk
      exact h.entryScope k e hk
  · by_cases heq : k = key
    · subst heq
      rw [Function.update_self] at hk
      cases hk
      obtain ⟨old, hold, hi⟩ := hflight i hi
      exact h.inFlight k old i hold hi
    · rw [Function.update_of_ne heq] at hk
      exact h.inFlight k e i hk hi
  · obtain ⟨c, hc, hentry⟩ := h.task i hi
    refine ⟨c, hc, fun heq => ?_⟩
    obtain ⟨old, hold, hawaits⟩ := hentry heq
    by_cases hkey : c.key = key
    · exact ⟨entry, by rw [hkey, Function.update_self],
        htask i c old hc heq (hkey ▸ hold) hawaits⟩
    · exact ⟨old, by rw [Function.update_of_ne hkey, hold], hawaits⟩
  · obtain ⟨old, hold, hcover⟩ := h.covers c hc
    by_cases hkey : c.key = key
    · exact ⟨entry, by rw [hkey, Function.update_self], hcovers c hc old (hkey ▸ hold) hcover⟩
    · exact ⟨old, by rw [Function.update_of_ne hkey, hold], hcover⟩

/-- The order of the suspended functions does not matter. -/
theorem perm {tasks' : List ℕ} (h : Inv entries scope calls tasks) (hperm : tasks.Perm tasks') :
    Inv entries scope calls tasks' where
  unique := hperm.nodup_iff.1 h.unique
  callScope := h.callScope
  entryScope := h.entryScope
  pending i c hc hpending := hperm.mem_iff.1 (h.pending i c hc hpending)
  inFlight key entry i hk hi := (h.inFlight key entry i hk hi).imp_left hperm.mem_iff.1
  task i hi := h.task i (hperm.mem_iff.2 hi)
  covers := h.covers

/-- What the invariant does not read of an entry may change. -/
theorem congr_entry (h : Inv entries scope calls tasks) (hold : entries key = some old)
    (hscope : entry.scope = old.scope) (hflight : entry.inFlight = old.inFlight)
    (hphase : entry.state.phase = old.state.phase)
    (hgeneration : entry.state.generation = old.state.generation) :
    Inv (Function.update entries key (some entry)) scope calls tasks := by
  refine h.update (hscope ▸ h.entryScope key old hold) (fun i hi => ⟨old, hold, hflight ▸ hi⟩)
    (fun i c old' _ _ hold' hawaits => ?_) fun c _ old' hold' hcovers => ?_
  · obtain rfl := Option.some.inj (hold.symm.trans hold')
    exact ⟨hscope.trans hawaits.scope, hflight.trans hawaits.inFlight, by
      rw [hphase, hgeneration]
      exact hawaits.phase⟩
  · obtain rfl := Option.some.inj (hold.symm.trans hold')
    exact ⟨hgeneration ▸ hcovers.le, hphase ▸ hgeneration ▸ hcovers.lt⟩

/-- In a new scope no call is of the scope. -/
theorem next_scope (h : Inv entries scope calls tasks) : Inv entries (scope + 1) calls tasks := by
  refine ⟨h.unique, fun c hc => (h.callScope c hc).trans (Nat.le_succ _),
    fun key entry hentry => (h.entryScope key entry hentry).trans (Nat.le_succ _), h.pending,
    h.inFlight, fun i hi => ?_, h.covers⟩
  obtain ⟨c, hc, -⟩ := h.task i hi
  refine ⟨c, hc, fun heq => absurd (h.callScope c (List.mem_of_getElem? hc)) ?_⟩
  omega

/-- A call is made for an entry that has none. -/
theorem send (h : Inv entries scope calls tasks) (hold : entries key = some old)
    (hnone : old.inFlight = none) (hkey : c.key = key)
    (hgeneration : c.generation = old.state.generation) (hscope : c.scope = old.scope)
    (hentry : entry.scope = old.scope) (hflight : entry.inFlight = some calls.length)
    (hphase : entry.state.phase = .saving)
    (hentryGeneration : entry.state.generation = old.state.generation) :
    Inv (Function.update entries key (some entry)) scope (calls ++ [c])
      (tasks ++ [calls.length]) := by
  have hlt : ∀ i ∈ tasks, i < calls.length := fun i hi => by
    obtain ⟨c, hc, -⟩ := h.task i hi
    exact (List.getElem?_eq_some_iff.1 hc).1
  have hcalls : ∀ {i c'}, calls[i]? = some c' → (calls ++ [c])[i]? = some c' := fun hc' => by
    rw [List.getElem?_append_left (List.getElem?_eq_some_iff.1 hc').1, hc']
  refine ⟨?_, fun c' hc' => ?_, fun k e hk => ?_, fun i c' hc' hpending => ?_,
    fun k e i hk hi => ?_, fun i hi => ?_, fun c' hc' => ?_⟩
  · refine List.nodup_append.2 ⟨h.unique, List.nodup_singleton _, fun i hi j hj => ?_⟩
    rw [List.mem_singleton] at hj
    exact hj ▸ (hlt i hi).ne
  · rcases List.mem_append.1 hc' with hc' | hc'
    · exact h.callScope c' hc'
    · rw [List.mem_singleton] at hc'
      rw [hc', hscope]
      exact h.entryScope key old hold
  · by_cases heq : k = key
    · subst heq
      rw [Function.update_self] at hk
      cases hk
      exact hentry ▸ h.entryScope k old hold
    · rw [Function.update_of_ne heq] at hk
      exact h.entryScope k e hk
  · rcases Nat.lt_or_ge i calls.length with hi | hi
    · rw [List.getElem?_append_left hi] at hc'
      exact List.mem_append_left _ (h.pending i c' hc' hpending)
    · have hlast : i = calls.length := by
        have := (List.getElem?_eq_some_iff.1 hc').1
        simp only [List.length_append, List.length_singleton] at this
        omega
      simp [hlast]
  · by_cases heq : k = key
    · subst heq
      rw [Function.update_self] at hk
      cases hk
      obtain rfl : calls.length = i := Option.some.inj (hflight.symm.trans hi)
      exact ⟨by simp, c, by simp, hkey⟩
    · rw [Function.update_of_ne heq] at hk
      obtain ⟨hmem, c', hc', hkey'⟩ := h.inFlight k e i hk hi
      exact ⟨List.mem_append_left _ hmem, c', hcalls hc', hkey'⟩
  · rcases List.mem_append.1 hi with hi | hi
    · obtain ⟨c', hc', htask⟩ := h.task i hi
      refine ⟨c', hcalls hc', fun heq => ?_⟩
      obtain ⟨e, he, hawaits⟩ := htask heq
      -- the entry of the key awaits no call yet
      have hne : c'.key ≠ key := by
        rintro rfl
        obtain rfl := Option.some.inj (hold.symm.trans he)
        simp [hawaits.inFlight] at hnone
      exact ⟨e, by rw [Function.update_of_ne hne, he], hawaits⟩
    · rw [List.mem_singleton] at hi
      subst hi
      refine ⟨c, by simp, fun heq => ⟨entry, by rw [hkey, Function.update_self], ?_⟩⟩
      exact ⟨hentry.trans (hscope.symm.trans heq), hflight,
        .inr ⟨hphase, hentryGeneration.trans hgeneration.symm⟩⟩
  · rcases List.mem_append.1 hc' with hc' | hc'
    · obtain ⟨e, he, hcovers⟩ := h.covers c' hc'
      by_cases hne : c'.key = key
      · rw [hne] at he
        obtain rfl := Option.some.inj (hold.symm.trans he)
        refine ⟨entry, by rw [hne, Function.update_self], hentryGeneration ▸ hcovers.le, ?_⟩
        simp [hphase]
      · exact ⟨e, by rw [Function.update_of_ne hne, he], hcovers⟩
    · rw [List.mem_singleton] at hc'
      subst hc'
      refine ⟨entry, by rw [hkey, Function.update_self], ?_, by simp [hphase]⟩
      rw [hgeneration, hentryGeneration]

/-- A call that is answered stays what it was. -/
theorem settle (h : Inv entries scope calls tasks) (i : ℕ) (outcome : Except Str ρ) :
    Inv entries scope (calls.modify i (Call.answered outcome)) tasks := by
  have hmem : ∀ c' ∈ calls.modify i (Call.answered outcome),
      ∃ c ∈ calls, c'.key = c.key ∧ c'.scope = c.scope ∧ c'.generation = c.generation := by
    intro c' hc'
    obtain ⟨j, hj⟩ := List.mem_iff_getElem?.1 hc'
    rw [List.getElem?_modify] at hj
    obtain ⟨c, hc, rfl⟩ := Option.map_eq_some_iff.1 hj
    refine ⟨c, List.mem_of_getElem? hc, ?_⟩
    split_ifs <;> exact ⟨rfl, rfl, rfl⟩
  have hget : ∀ {j : ℕ} {c : Call ν ρ}, calls[j]? = some c →
      ∃ c' : Call ν ρ, (calls.modify i (Call.answered outcome))[j]? = some c' ∧
        c'.key = c.key ∧ c'.scope = c.scope ∧ c'.generation = c.generation := by
    intro j c hc
    rw [List.getElem?_modify, hc]
    by_cases hij : i = j
    · exact ⟨c.answered outcome, by simp [hij], rfl, rfl, rfl⟩
    · exact ⟨c, by simp [hij], rfl, rfl, rfl⟩
  refine ⟨h.unique, fun c' hc' => ?_, h.entryScope, fun j c' hc' hpending => ?_,
    fun k e j hk hj => ?_, fun j hj => ?_, fun c' hc' => ?_⟩
  · obtain ⟨c, hc, -, hscope, -⟩ := hmem c' hc'
    exact hscope ▸ h.callScope c hc
  · rw [List.getElem?_modify] at hc'
    obtain ⟨c, hc, rfl⟩ := Option.map_eq_some_iff.1 hc'
    split_ifs at hpending
    · cases hpending
    · exact h.pending j c hc hpending
  · obtain ⟨hmem', c, hc, hkey⟩ := h.inFlight k e j hk hj
    obtain ⟨c', hc', hkey', -⟩ := hget hc
    exact ⟨hmem', c', hc', hkey'.trans hkey⟩
  · obtain ⟨c, hc, htask⟩ := h.task j hj
    obtain ⟨c', hc', hkey, hscope, hgeneration⟩ := hget hc
    refine ⟨c', hc', fun heq => ?_⟩
    obtain ⟨e, he, hawaits⟩ := htask (hscope ▸ heq)
    exact ⟨e, hkey ▸ he, hawaits.scope, hawaits.inFlight, hgeneration ▸ hawaits.phase⟩
  · obtain ⟨c, hc, hkey, -, hgeneration⟩ := hmem c' hc'
    obtain ⟨e, he, hcovers⟩ := h.covers c hc
    exact ⟨e, hkey ▸ he, hgeneration ▸ hcovers.le, hgeneration ▸ hcovers.lt⟩

/-- A `drain` goes on with the answer to its call, which is no longer in flight. -/
theorem complete (h : Inv entries scope calls tasks) {rest : List ℕ}
    (hperm : tasks.Perm (i :: rest)) (hc : calls[i]? = some c) (hanswered : c.outcome ≠ none)
    (hold : entries c.key = some old) (hentry : entry.scope = old.scope)
    (hflight : entry.inFlight = if old.inFlight = some i then none else old.inFlight)
    (hgeneration : entry.state.generation = old.state.generation)
    (hphase : entry.state.phase = .dirty → old.state.phase = .dirty)
    (hstale : c.scope ≠ scope → entry.state.phase = old.state.phase) :
    Inv (Function.update entries c.key (some entry)) scope calls rest := by
  have hunique := hperm.nodup_iff.1 h.unique
  have hmem : ∀ {j}, j ∈ tasks ↔ j = i ∨ j ∈ rest := fun {j} => hperm.mem_iff.trans List.mem_cons
  refine ⟨(List.nodup_cons.1 hunique).2, h.callScope, fun k e hk => ?_,
    fun j c' hc' hpending => ?_, fun k e j hk hj => ?_, fun j hj => ?_, fun c' hc' => ?_⟩
  · by_cases heq : k = c.key
    · rw [heq, Function.update_self] at hk
      cases hk
      exact hentry ▸ h.entryScope c.key old hold
    · rw [Function.update_of_ne heq] at hk
      exact h.entryScope k e hk
  · rcases hmem.1 (h.pending j c' hc' hpending) with rfl | hj
    · obtain rfl := Option.some.inj (hc.symm.trans hc')
      exact absurd hpending hanswered
    · exact hj
  · by_cases heq : k = c.key
    · rw [heq, Function.update_self] at hk
      cases hk
      rw [hflight] at hj
      split_ifs at hj with hsame
      obtain ⟨hj', c', hc', hkey⟩ := h.inFlight c.key old j hold hj
      refine ⟨(hmem.1 hj').resolve_left ?_, c', hc', hkey.trans heq.symm⟩
      rintro rfl
      exact hsame hj
    · rw [Function.update_of_ne heq] at hk
      obtain ⟨hj', c', hc', hkey⟩ := h.inFlight k e j hk hj
      refine ⟨(hmem.1 hj').resolve_left ?_, c', hc', hkey⟩
      rintro rfl
      obtain rfl := Option.some.inj (hc.symm.trans hc')
      exact heq hkey.symm
  · have hne : j ≠ i := by
      rintro rfl
      exact (List.nodup_cons.1 hunique).1 hj
    obtain ⟨c', hc', htask⟩ := h.task j (hmem.2 (.inr hj))
    refine ⟨c', hc', fun heq => ?_⟩
    obtain ⟨e, he, hawaits⟩ := htask heq
    by_cases hkey : c'.key = c.key
    · rw [hkey] at he
      obtain rfl := Option.some.inj (hold.symm.trans he)
      -- another call is in flight, so this one is of an older scope
      have hother : old.inFlight ≠ some i := by
        rw [hawaits.inFlight]
        exact fun hi => hne (Option.some.inj hi)
      have hscope : c.scope ≠ scope := by
        intro hscope
        obtain ⟨c'', hc'', htask'⟩ := h.task i (hmem.2 (.inl rfl))
        obtain rfl := Option.some.inj (hc.symm.trans hc'')
        obtain ⟨e, he', hawaits'⟩ := htask' hscope
        obtain rfl := Option.some.inj (hold.symm.trans he')
        exact hother hawaits'.inFlight
      refine ⟨entry, by rw [hkey, Function.update_self], hentry.trans hawaits.scope, ?_, ?_⟩
      · rw [hflight, if_neg hother, hawaits.inFlight]
      · rw [hstale hscope, hgeneration]
        exact hawaits.phase
    · exact ⟨e, by rw [Function.update_of_ne hkey, he], hawaits⟩
  · obtain ⟨e, he, hcovers⟩ := h.covers c' hc'
    by_cases hkey : c'.key = c.key
    · rw [hkey] at he
      obtain rfl := Option.some.inj (hold.symm.trans he)
      exact ⟨entry, by rw [hkey, Function.update_self], hgeneration ▸ hcovers.le,
        fun hdirty => hgeneration ▸ hcovers.lt (hphase hdirty)⟩
    · exact ⟨e, by rw [Function.update_of_ne hkey, he], hcovers⟩

end Inv

/-! ### The methods -/

namespace Coordinator

variable {s : Coordinator ν ρ} {key : Str} {targets : List Str} {outcome : Except Str ρ}
  {call : Call ν ρ}

theorem Inv.start : (start : Coordinator ν ρ).Inv where
  unique := List.nodup_nil
  callScope := by simp [Coordinator.start]
  entryScope := by simp [Coordinator.start]
  pending := by simp [Coordinator.start]
  inFlight := by simp [Coordinator.start]
  task := by simp [Coordinator.start, awaited]
  covers := by simp [Coordinator.start]

theorem Inv.seed (h : s.Inv) (key : Str) (value : ν) : (s.seed key value).Inv := by
  unfold Coordinator.seed
  dsimp only
  split_ifs with hbusy
  · exact h
  simp only [Option.any_eq_true, not_exists, not_and] at hbusy
  change Settings.Inv (OrderedMap.get _) s.scope s.calls (awaited s.tasks)
  rw [OrderedMap.get_set_eq]
  refine Settings.Inv.update h le_rfl (by simp) (fun i c old _ _ hold hawaits => ?_)
    fun c _ old hold hcovers => ?_
  · refine absurd ?_ (hbusy old hold)
    rcases hawaits.phase with hphase | ⟨hphase, -⟩ <;> simp [hphase]
  · exact ⟨by simpa [hold] using hcovers.le, by simp⟩

theorem Inv.enqueue (h : s.Inv) (key : Str) (value : ν) : (s.enqueue key value).Inv := by
  simp only [Coordinator.Inv, Coordinator.enqueue, Coordinator.clearTimeout]
  rw [OrderedMap.get_set_eq]
  cases hget : s.entries.get key with
  | none =>
    refine Settings.Inv.update h le_rfl (by simp) (fun i c old _ _ hold _ => ?_)
      fun c _ old hold _ => ?_
    · exact absurd (hget.symm.trans hold) (by simp)
    · exact absurd (hget.symm.trans hold) (by simp)
  | some old =>
    refine Settings.Inv.update h le_rfl (fun i hi => ⟨old, hget, hi⟩)
      (fun i c old' _ _ hold hawaits => ?_) fun c _ old' hold hcovers => ?_
    · obtain rfl := Option.some.inj (hget.symm.trans hold)
      exact ⟨rfl, hawaits.inFlight, .inl rfl⟩
    · obtain rfl := Option.some.inj (hget.symm.trans hold)
      exact ⟨hcovers.le.trans (Nat.le_succ _), fun _ => Nat.lt_succ_of_le hcovers.le⟩

theorem Inv.park (h : s.Inv) {suspension : Suspension} (hnone : suspension.call? = none) :
    (s.park suspension targets).Inv := by
  change Settings.Inv s.entries.get s.scope s.calls (awaited (s.tasks ++ _))
  rw [awaited_append_single, hnone, Option.toList_none, List.append_nil]
  exact h

theorem Inv.send (h : s.Inv) {entry : Entry ν} (hentry : s.entries.get key = some entry)
    (hnone : entry.inFlight = none) : (s.send key entry targets).Inv := by
  simp only [Coordinator.Inv, Coordinator.send, Coordinator.park]
  rw [awaited_append_single, OrderedMap.get_set_eq]
  exact Settings.Inv.send h hentry hnone rfl rfl rfl rfl rfl rfl rfl

theorem Inv.setTimer (h : s.Inv) {entry : Entry ν} (hentry : s.entries.get key = some entry)
    (timer : Option ℕ) (timers : List Timer) :
    Inv { s with timers, entries := s.entries.set key { entry with timer } } := by
  change Settings.Inv (OrderedMap.get _) s.scope s.calls (awaited s.tasks)
  rw [OrderedMap.get_set_eq]
  exact h.congr_entry hentry rfl rfl rfl rfl

theorem Inv.expire (h : s.Inv) (timer : Timer) : (s.expire timer).Inv := by
  simp only [Coordinator.expire]
  split
  · exact h
  · next entry hentry =>
    split_ifs
    · exact h.setTimer hentry _ _
    · exact h

/-- When no call is of the scope, entries may be given up. -/
theorem Inv.resetEntry (h : s.Inv) (hold : ∀ c ∈ s.calls, c.scope < s.scope) (key : Str) :
    (s.resetEntry key).Inv ∧ (s.resetEntry key).calls = s.calls ∧
      (s.resetEntry key).scope = s.scope := by
  unfold Coordinator.resetEntry
  split
  · exact ⟨h, rfl, rfl⟩
  · next entry hentry =>
    refine ⟨?_, rfl, rfl⟩
    change Settings.Inv (OrderedMap.get _) s.scope s.calls (awaited s.tasks)
    rw [OrderedMap.get_set_eq]
    refine Settings.Inv.update h (h.entryScope key entry hentry) (fun i hi => ⟨entry, hentry, hi⟩)
      (fun i c _ hc hscope _ _ => ?_) fun c _ old hget hcovers => ?_
    · exact absurd hscope (hold c (List.mem_of_getElem? hc)).ne
    · obtain rfl := Option.some.inj (hentry.symm.trans hget)
      refine ⟨hcovers.le, fun hdirty => ?_⟩
      dsimp only at hdirty
      split_ifs at hdirty

theorem Inv.resetScope (h : s.Inv) : s.resetScope.Inv := by
  have hkeys : ∀ (keys : List Str) (t : Coordinator ν ρ), t.Inv →
      (∀ c ∈ t.calls, c.scope < t.scope) → (keys.foldl Coordinator.resetEntry t).Inv := by
    intro keys
    induction keys with
    | nil => exact fun t ht _ => ht
    | cons key keys ih =>
      intro t ht hold
      obtain ⟨ht', hcalls, hscope⟩ := ht.resetEntry hold key
      exact ih _ ht' (hcalls ▸ hscope ▸ hold)
  exact hkeys _ _ (Settings.Inv.next_scope h) fun c hc => Nat.lt_succ_of_le (h.callScope c hc)

/-- A reset goes on in the next scope; calls and tasks stay. -/
theorem resetScope_frame (s : Coordinator ν ρ) :
    s.resetScope.scope = s.scope + 1 ∧ s.resetScope.calls = s.calls ∧
      s.resetScope.tasks = s.tasks ∧ s.resetScope.settled = s.settled := by
  have hkeys : ∀ (keys : List Str) (t : Coordinator ν ρ),
      (keys.foldl Coordinator.resetEntry t).scope = t.scope ∧
      (keys.foldl Coordinator.resetEntry t).calls = t.calls ∧
      (keys.foldl Coordinator.resetEntry t).tasks = t.tasks ∧
      (keys.foldl Coordinator.resetEntry t).settled = t.settled := by
    intro keys
    induction keys with
    | nil => exact fun t => ⟨rfl, rfl, rfl, rfl⟩
    | cons key keys ih =>
      intro t
      obtain ⟨hscope, hcalls, htasks, hsettled⟩ := ih (t.resetEntry key)
      rw [List.foldl_cons, hscope, hcalls, htasks, hsettled]
      unfold Coordinator.resetEntry
      split <;> exact ⟨rfl, rfl, rfl, rfl⟩
  exact hkeys s.entries.keys _

/-- The phase of an entry after the answer to a call. -/
def answeredPhase (scope : ℕ) (entry : Entry ν) (call : Call ν ρ) (outcome : Except Str ρ) :
    SettingSavePhase :=
  if entry.scope ≠ call.scope ∨ scope ≠ call.scope then entry.state.phase
  else
    match outcome with
    | .ok _ => if entry.state.generation = call.generation then .saved else .dirty
    | .error _ => .failed

theorem answeredPhase_ok {scope : ℕ} {entry : Entry ν} {result : ρ}
    (hentry : entry.scope = call.scope) (hscope : scope = call.scope) :
    answeredPhase scope entry call (.ok result) =
      if entry.state.generation = call.generation then .saved else .dirty :=
  if_neg (by simp [hentry, hscope])

theorem answeredPhase_error {scope : ℕ} {entry : Entry ν} {error : Str}
    (hentry : entry.scope = call.scope) (hscope : scope = call.scope) :
    answeredPhase scope entry call (.error error) = .failed :=
  if_neg (by simp [hentry, hscope])

/-- A newer draft makes the entry dirty. -/
theorem answeredPhase_eq_dirty {scope : ℕ} {entry : Entry ν}
    (h : answeredPhase scope entry call outcome = .dirty) : entry.state.phase = .dirty ∨
      call.scope = scope ∧ entry.state.generation ≠ call.generation := by
  unfold answeredPhase at h
  by_cases hscope : entry.scope ≠ call.scope ∨ scope ≠ call.scope
  · rw [if_pos hscope] at h
    exact .inl h
  · rw [if_neg hscope] at h
    push Not at hscope
    cases outcome with
    | ok result => exact .inr ⟨hscope.2.symm, fun heq => by simp [heq] at h⟩
    | error error => cases h

/-- An entry after the answer to a call, but for what is only told. -/
structure Answered (current i : ℕ) (old : Entry ν) (call : Call ν ρ) (outcome : Except Str ρ)
    (entry : Entry ν) : Prop where
  scope : entry.scope = old.scope
  inFlight : entry.inFlight = if old.inFlight = some i then none else old.inFlight
  timer : entry.timer = old.timer
  key : entry.state.key = old.state.key
  generation : entry.state.generation = old.state.generation
  draft : entry.state.draft = old.state.draft
  phase : entry.state.phase = answeredPhase current old call outcome

/-- What the answer to a call does to its entry, and what is reported of that. -/
theorem apply_release (hold : s.entries.get c.key = some old) (outcome : Except Str ρ) (i : ℕ) :
    ∃ entry, ((s.apply c outcome).release c.key i).entries.get =
        Function.update s.entries.get c.key (some entry) ∧
      Answered s.scope i old c outcome entry ∧
      ∀ report ∈ ((s.apply c outcome).release c.key i).reports, report ∈ s.reports ∨
        report = entry.state ∧ old.scope = c.scope ∧ s.scope = c.scope := by
  have hrelease : ∀ (t : Coordinator ν ρ) (entry : Entry ν),
      t.entries.get = Function.update s.entries.get c.key (some entry) →
      (t.release c.key i).entries.get = Function.update s.entries.get c.key (some { entry with
        inFlight := if entry.inFlight = some i then none else entry.inFlight }) := by
    intro t entry ht
    have hentry : t.entries.get c.key = some entry := by rw [ht, Function.update_self]
    unfold Coordinator.release
    simp only [hentry]
    split_ifs with hi
    · simp only [OrderedMap.get_set_eq, ht, Function.update_idem]
    · exact ht
  have hreports : ∀ t : Coordinator ν ρ, (t.release c.key i).reports = t.reports := by
    intro t
    unfold Coordinator.release
    split
    · rfl
    · split_ifs <;> rfl
  by_cases hscope : old.scope ≠ c.scope ∨ s.scope ≠ c.scope
  · simp only [Coordinator.apply, hold, if_pos hscope]
    refine ⟨_, hrelease s old (by rw [← hold, Function.update_eq_self]),
      ⟨rfl, rfl, rfl, rfl, rfl, rfl, ?_⟩, fun report hreport => .inl ?_⟩
    · simp only [answeredPhase, if_pos hscope]
    · exact hreports s ▸ hreport
  · have hreported : ∀ (t : Coordinator ν ρ) (state : SettingSaveState ν),
        t.reports = s.reports ++ [state] → ∀ report ∈ (t.release c.key i).reports,
          report ∈ s.reports ∨ report = state ∧ old.scope = c.scope ∧ s.scope = c.scope := by
      intro t state ht report hreport
      rw [hreports, ht] at hreport
      push Not at hscope
      exact (List.mem_append.1 hreport).imp_right fun h => ⟨List.mem_singleton.1 h, hscope⟩
    cases outcome with
    | ok result =>
      by_cases hlatest : old.state.generation = c.generation
      · simp only [Coordinator.apply, hold, if_neg hscope, if_pos hlatest]
        refine ⟨_, hrelease _ _ OrderedMap.get_set_eq, ⟨rfl, rfl, rfl, rfl, rfl, rfl, ?_⟩,
          hreported _ _ rfl⟩
        simp only [answeredPhase, if_neg hscope, if_pos hlatest, resolveWaiters]
      · simp only [Coordinator.apply, hold, if_neg hscope, if_neg hlatest]
        refine ⟨_, hrelease _ _ OrderedMap.get_set_eq, ⟨rfl, rfl, rfl, rfl, rfl, rfl, ?_⟩,
          hreported _ _ rfl⟩
        simp only [answeredPhase, if_neg hscope, if_neg hlatest, resolveWaiters]
    | error error =>
      simp only [Coordinator.apply, hold, if_neg hscope]
      refine ⟨_, hrelease _ _ OrderedMap.get_set_eq, ⟨rfl, rfl, rfl, rfl, rfl, rfl, ?_⟩,
        hreported _ _ rfl⟩
      simp only [answeredPhase, if_neg hscope, resolveWaiters]

/-- The answer to a call changes entries, and tells of it. -/
theorem apply_release_frame (s : Coordinator ν ρ) (c : Call ν ρ) (outcome : Except Str ρ) (i : ℕ) :
    ∃ entries resolved reports commits,
      (s.apply c outcome).release c.key i = { s with entries, resolved, reports, commits } := by
  obtain ⟨entries, resolved, reports, commits, heq⟩ : ∃ entries resolved reports commits,
      s.apply c outcome = { s with entries, resolved, reports, commits } := by
    unfold Coordinator.apply
    cases outcome <;> split <;> try split_ifs
    all_goals exact ⟨_, _, _, _, rfl⟩
  rw [heq]
  unfold Coordinator.release
  split
  · exact ⟨_, _, _, _, rfl⟩
  · split_ifs <;> exact ⟨_, _, _, _, rfl⟩

theorem awaited_erase {tasks : List Task} (h : task ∈ tasks) :
    (awaited tasks).Perm (task.suspension.call?.toList ++ awaited (tasks.erase task)) := by
  have hperm := (List.perm_cons_erase h).filterMap fun task => task.suspension.call?
  cases hcall : task.suspension.call? <;> simpa [awaited, hcall] using hperm

theorem mem_awaited (htask : task ∈ s.tasks) (hsuspension : task.suspension = .persist i) :
    i ∈ awaited s.tasks :=
  List.mem_filterMap.2 ⟨task, htask, by rw [hsuspension]; rfl⟩

theorem answer_eq_some :
    s.answer i = some (c, outcome) ↔ s.calls[i]? = some c ∧ c.outcome = some outcome := by
  unfold Coordinator.answer
  cases h : s.calls[i]? with
  | none => simp
  | some c' =>
    simp only [Option.bind_some, Option.map_eq_some_iff, Prod.mk.injEq, Option.some.injEq]
    constructor
    · rintro ⟨outcome', heq, rfl, rfl⟩
      exact ⟨rfl, heq⟩
    · rintro ⟨rfl, heq⟩
      exact ⟨outcome, heq, rfl, rfl⟩

/-- The calls after one of them is answered. -/
theorem getElem?_settle {j : ℕ} : (s.settle i outcome).calls[j]? = some c ↔
      ∃ d, s.calls[j]? = some d ∧ c = if i = j then d.answered outcome else d := by
  rw [Coordinator.settle, List.getElem?_modify]
  constructor
  · intro h
    obtain ⟨d, hd, rfl⟩ := Option.map_eq_some_iff.1 h
    exact ⟨d, hd, rfl⟩
  · rintro ⟨d, hd, rfl⟩
    rw [hd]
    rfl

/-- The calls after one is made. -/
theorem getElem?_send {entry : Entry ν} (hc : (s.send key entry targets).calls[i]? = some c) :
    s.calls[i]? = some c ∨ i = s.calls.length ∧
      c = ⟨key, entry.state.draft, entry.state.generation, entry.scope, none⟩ := by
  rcases Nat.lt_trichotomy i s.calls.length with hi | rfl | hi
  · exact .inl ((List.getElem?_append_left hi).symm.trans hc)
  · refine .inr ⟨rfl, ?_⟩
    simpa [Coordinator.send, Coordinator.park] using hc.symm
  · have := (List.getElem?_eq_some_iff.1 hc).1
    simp only [Coordinator.send, Coordinator.park, List.length_append,
      List.length_singleton] at this
    omega

/-- What is left of a task that waited for its call and goes on. -/
theorem Inv.complete (h : s.Inv) (htask : task ∈ s.tasks)
    (hsuspension : task.suspension = .persist i) (hanswer : s.answer i = some (c, outcome)) :
    (({ s with tasks := s.tasks.erase task }.apply c outcome).release c.key i).Inv := by
  obtain ⟨hc, houtcome⟩ := answer_eq_some.1 hanswer
  have hperm := awaited_erase htask
  rw [hsuspension] at hperm
  obtain ⟨old, hold, -⟩ := h.covers c (List.mem_of_getElem? hc)
  obtain ⟨entry, hget, hentry, -⟩ :=
    apply_release (s := { s with tasks := s.tasks.erase task }) hold outcome i
  obtain ⟨entries, resolved, reports, commits, heq⟩ :=
    apply_release_frame { s with tasks := s.tasks.erase task } c outcome i
  have hscope : c.scope = s.scope → old.Awaits s.scope i c := by
    intro heq
    obtain ⟨c', hc', hawaits⟩ := h.task i (hperm.mem_iff.2 List.mem_cons_self)
    obtain rfl := Option.some.inj (hc.symm.trans hc')
    obtain ⟨e, he, hawaits⟩ := hawaits heq
    exact Option.some.inj (hold.symm.trans he) ▸ hawaits
  rw [heq] at hget ⊢
  change Settings.Inv entries.get s.scope s.calls (awaited (s.tasks.erase task))
  rw [show entries.get = _ from hget]
  refine Settings.Inv.complete h hperm hc (by simp [houtcome]) hold hentry.scope hentry.inFlight
    hentry.generation (fun hdirty => ?_) fun hstale => ?_
  · rw [hentry.phase] at hdirty
    refine (answeredPhase_eq_dirty hdirty).elim id fun ⟨hin, hnewer⟩ => ?_
    -- an older generation has been answered: the entry is dirty already
    exact (hscope hin).phase.resolve_right fun hsaving => hnewer hsaving.2
  · rw [hentry.phase]
    exact if_pos (.inr (Ne.symm hstale))

theorem Inv.unpark (h : s.Inv) (htask : task ∈ s.tasks) (hnone : task.suspension.call? = none) :
    Inv { s with tasks := s.tasks.erase task } := by
  have hperm := awaited_erase htask
  rw [hnone] at hperm
  exact Settings.Inv.perm h hperm

end Coordinator

/-! ### Steps -/

/-- What happens without a method of the caller that says what to write. -/
def Event.IsQuiet : Event ν ρ → Prop
  | .flush _ | .fire _ | .settle _ _ | .resume _ => True
  | _ => False

open Coordinator in
/-- What is to be shown of an invariant, which speaks of the history and may be broken for a key
while that is drained. -/
structure Kept (ok : Coordinator ν ρ → Event ν ρ → Prop)
    (I : List (Event ν ρ) → Option Str → Coordinator ν ρ → Prop) : Prop where
  quiet : ∀ h event s, event.IsQuiet → I h none s → I (h ++ [event]) none s
  weaken : ∀ h s key, I h none s → I h (some key) s
  seed : ∀ h s key value, s.Inv → ok s (.seed key value) → I h none s →
    I (h ++ [.seed key value]) none (s.seed key value)
  enqueue : ∀ h s key value, s.Inv → I h none s →
    I (h ++ [.enqueue key value]) none (s.enqueue key value)
  resetScope : ∀ h s, s.Inv → I h none s → I (h ++ [.resetScope]) none s.resetScope
  clear : ∀ h s key entry, s.Inv → s.entries.get key = some entry → I h none s →
    I h (some key) (s.clear key entry)
  expire : ∀ h s timer, s.Inv → timer ∈ s.timers → I h none s →
    I h (some timer.key) (s.expire timer)
  settle : ∀ h s i c outcome, s.Inv → s.calls[i]? = some c → c.outcome = none → I h none s →
    I h none (s.settle i outcome)
  unpark : ∀ h s task, s.Inv → task ∈ s.tasks → task.suspension.call? = none → I h none s →
    I h none { s with tasks := s.tasks.erase task }
  complete : ∀ h s task i c outcome, s.Inv → task ∈ s.tasks → task.suspension = .persist i →
    s.answer i = some (c, outcome) → ok s (.resume task) → I h none s →
    I h (some c.key) (({ s with tasks := s.tasks.erase task }.apply c outcome).release c.key i)
  park : ∀ h s key suspension targets, s.Inv → suspension.call? = none →
    (∀ entry, s.entries.get key = some entry → entry.state.phase = .dirty →
      entry.inFlight ≠ none) →
    I h (some key) s → I h none (s.park suspension targets)
  send : ∀ h s key entry targets, s.Inv → s.entries.get key = some entry → entry.inFlight = none →
    entry.state.phase = .dirty → I h (some key) s → I h none (s.send key entry targets)

namespace Kept

variable {ok : Coordinator ν ρ → Event ν ρ → Prop}
  {I : List (Event ν ρ) → Option Str → Coordinator ν ρ → Prop} {h : List (Event ν ρ)}
  {s : Coordinator ν ρ}

theorem drain (hkept : Kept ok I) (hinv : s.Inv) {key : Str} (hI : I h (some key) s)
    (targets : List Str) : (s.drain key targets).Inv ∧ I h none (s.drain key targets) := by
  unfold Coordinator.drain
  split
  · next hnone =>
    exact ⟨hinv.park rfl, hkept.park h s key _ targets hinv rfl (by simp [hnone]) hI⟩
  · next entry hentry =>
    split
    · next call hcall =>
      refine ⟨hinv.park rfl, hkept.park h s key _ targets hinv rfl (fun e he _ => ?_) hI⟩
      obtain rfl := Option.some.inj (hentry.symm.trans he)
      simp [hcall]
    · next hnone =>
      split_ifs with hphase
      · refine ⟨hinv.park rfl, hkept.park h s key _ targets hinv rfl (fun e he hdirty => ?_) hI⟩
        obtain rfl := Option.some.inj (hentry.symm.trans he)
        exact absurd hdirty hphase
      · exact ⟨hinv.send hentry hnone,
          hkept.send h s key entry targets hinv hentry hnone (not_not.1 hphase) hI⟩

theorem drainAgain (hkept : Kept ok I) (hinv : s.Inv) {key : Str} (hI : I h (some key) s)
    (targets : List Str) :
    (s.drainAgain key targets).Inv ∧ I h none (s.drainAgain key targets) := by
  unfold Coordinator.drainAgain
  split_ifs with hdirty
  · exact hkept.drain hinv hI targets
  · refine ⟨hinv.park rfl, hkept.park h s key _ targets hinv rfl (fun e he hphase => ?_) hI⟩
    simp [he, hphase] at hdirty

theorem flushTargets (hkept : Kept ok I) (hinv : s.Inv) (hI : I h none s) (targets : List Str) :
    (s.flushTargets targets).Inv ∧ I h none (s.flushTargets targets) := by
  induction targets with
  | nil => exact ⟨hinv, hI⟩
  | cons target targets ih =>
    unfold Coordinator.flushTargets
    split
    · exact ih
    · next entry hentry =>
      exact hkept.drain (hinv.setTimer hentry _ _) (hkept.clear h s target entry hinv hentry hI)
        targets

theorem resume (hkept : Kept ok I) (hinv : s.Inv) (hI : I h none s) {t : Coordinator ν ρ}
    (hok : ok s (.resume task)) (htask : task ∈ s.tasks)
    (hresume : { s with tasks  := s.tasks.erase task }.resume task = some t) :
    t.Inv ∧ I h none t := by
  unfold Coordinator.resume at hresume
  split at hresume
  · next heq =>
    obtain rfl := Option.some.inj hresume
    have hnone : task.suspension.call? = none := by rw [heq]; rfl
    exact hkept.flushTargets (hinv.unpark htask hnone)
      (hkept.unpark h s task hinv htask hnone hI) _
  · next key call heq =>
    obtain ⟨_, -, rfl⟩ := Option.map_eq_some_iff.1 hresume
    have hnone : task.suspension.call? = none := by rw [heq]; rfl
    exact hkept.drainAgain (hinv.unpark htask hnone)
      (hkept.weaken h _ key (hkept.unpark h s task hinv htask hnone hI)) _
  · next call heq =>
    obtain ⟨⟨c, outcome⟩, hanswer, rfl⟩ := Option.map_eq_some_iff.1 hresume
    exact hkept.drainAgain (hinv.complete htask heq hanswer)
      (hkept.complete h s task call c outcome hinv htask heq hanswer hok hI) _

/-- Every step keeps it. -/
theorem step (hkept : Kept ok I) (hinv : s.Inv) (hI : I h none s) {event : Event ν ρ}
    {t : Coordinator ν ρ} (hok : ok s event) (hstep : step s event = some t) :
    t.Inv ∧ I (h ++ [event]) none t := by
  have hquiet := hkept.quiet h event
  cases event with
  | seed key value =>
    obtain rfl := Option.some.inj hstep
    exact ⟨hinv.seed key value, hkept.seed h s key value hinv hok hI⟩
  | enqueue key value =>
    obtain rfl := Option.some.inj hstep
    exact ⟨hinv.enqueue key value, hkept.enqueue h s key value hinv hI⟩
  | resetScope =>
    obtain rfl := Option.some.inj hstep
    exact ⟨hinv.resetScope, hkept.resetScope h s hinv hI⟩
  | flush key =>
    obtain rfl := Option.some.inj hstep
    unfold Coordinator.flush
    split <;> exact hkept.flushTargets hinv (hquiet s trivial hI) _
  | fire timer =>
    simp only [Settings.step] at hstep
    split_ifs at hstep with htimer
    obtain rfl := Option.some.inj hstep
    exact hkept.drain (hinv.expire timer)
      (hkept.expire _ s timer hinv htimer (hquiet s trivial hI)) []
  | settle call outcome =>
    simp only [Settings.step] at hstep
    split at hstep
    · next hcall =>
      obtain rfl := Option.some.inj hstep
      exact ⟨Settings.Inv.settle hinv call outcome,
        hkept.settle _ s call _ outcome hinv hcall rfl (hquiet s trivial hI)⟩
    · cases hstep
  | resume task =>
    simp only [Settings.step] at hstep
    split_ifs at hstep with htask
    exact hkept.resume hinv (hquiet s trivial hI) hok htask hstep

/-- Every run keeps it. -/
theorem run (hkept : Kept ok I) (hstart : I [] none .start) {events : List (Event ν ρ)}
    (hrun : Run (fun s event t => Settings.step s event = some t ∧ ok s event) .start events s) :
    s.Inv ∧ I events none s :=
  hrun.history (I := fun h s => s.Inv ∧ I h none s) ⟨Coordinator.Inv.start, hstart⟩
    fun hI hstep => hkept.step hI.1 hI.2 hstep.2 hstep.1

end Kept

end Awayuki.Settings
