import Awayuki.Settings.Drafts

/-!
# Settings: the newest draft is not lost

The newest draft of a key is on its way to be sent until it has been sent and answered, if no
failure of an older draft is processed while there is a newer one.

* `Timed`, `Answering`: timers belong to their entries, and the call that is awaited was answered
  last;
* `Working`: what keeps a draft going, by the phase of its entry;
* `newest_draft_attempted`: when nothing is going on any more, the last call of a key that was
  answered is the one of its newest draft;
* `not_newest_draft_attempted`: it is not so of every run.
-/

namespace Awayuki.Settings

open Runs

variable {ν ρ : Type} {i : ℕ} {c : Call ν ρ} {outcome : Except Str ρ} {targets : List Str}

/-- The calls of a key in the present scope, in the order of their answers. -/
def Coordinator.settledOf (s : Coordinator ν ρ) (key : Str) : List ℕ :=
  s.settled.filter fun i => (s.calls[i]?).any fun c => c.key = key ∧ c.scope = s.scope

/-- Nothing is going on. -/
def Coordinator.Quiescent (s : Coordinator ν ρ) : Prop := s.timers = [] ∧ s.tasks = []

/-! ### Timers -/

/-- Timers have numbers of their own, and an entry knows only timers of its key. -/
structure Timed (s : Coordinator ν ρ) : Prop where
  fresh : ∀ timer ∈ s.timers, timer.id < s.fresh
  own : ∀ key entry id, s.entries.get key = some entry → entry.timer = some id →
    id < s.fresh ∧ ∀ timer ∈ s.timers, timer.id = id → timer.key = key

namespace Timed

variable {h : List (Event ν ρ)} {s t : Coordinator ν ρ} {key : Str}

/-- Timers are taken away, and the entry of one key is replaced. -/
theorem set (ht : Timed s) {entry : Entry ν} (hfresh : s.fresh ≤ t.fresh)
    (htimers : t.timers ⊆ s.timers)
    (hentries : t.entries.get = Function.update s.entries.get key (some entry))
    (htimer : entry.timer = none ∨
      ∃ old, s.entries.get key = some old ∧ entry.timer = old.timer) : Timed t := by
  refine ⟨fun timer hmem => (ht.fresh timer (htimers hmem)).trans_le hfresh,
    fun k e id hk hid => ?_⟩
  have hown : ∃ old, s.entries.get k = some old ∧ old.timer = some id := by
    rw [hentries] at hk
    by_cases heq : k = key
    · rw [heq, Function.update_self] at hk
      cases hk
      rcases htimer with hnone | ⟨old, hold, hsame⟩
      · simp [hnone] at hid
      · exact ⟨old, heq ▸ hold, hsame ▸ hid⟩
    · rw [Function.update_of_ne heq] at hk
      exact ⟨e, hk, hid⟩
  obtain ⟨old, hold, hid⟩ := hown
  obtain ⟨hlt, hkey⟩ := ht.own k old id hold hid
  exact ⟨hlt.trans_le hfresh, fun timer hmem => hkey timer (htimers hmem)⟩

theorem frame (ht : Timed s) (hentries : t.entries = s.entries) (hfresh : t.fresh = s.fresh)
    (htimers : t.timers ⊆ s.timers) : Timed t where
  fresh timer hmem := hfresh ▸ ht.fresh timer (htimers hmem)
  own key entry id hentry hid := by
    obtain ⟨hlt, hkey⟩ := ht.own key entry id (hentries ▸ hentry) hid
    exact ⟨hfresh ▸ hlt, fun timer hmem => hkey timer (htimers hmem)⟩

theorem seed (ht : Timed s) (key : Str) (value : ν) : Timed (s.seed key value) := by
  unfold Coordinator.seed
  dsimp only
  split_ifs
  · exact ht
  · exact ht.set (Nat.le_succ _) (List.Subset.refl _) OrderedMap.get_set_eq (.inl rfl)

theorem enqueue (ht : Timed s) (key : Str) (value : ν) : Timed (s.enqueue key value) := by
  have hmem : ∀ timer ∈ (s.enqueue key value).timers, timer ∈ s.timers ∨
      timer.id = s.fresh + 2 ∧ timer.key = key := by
    intro timer hmem
    rcases List.mem_append.1 hmem with hmem | hmem
    · exact .inl (List.mem_filter.1 hmem).1
    · obtain rfl := List.mem_singleton.1 hmem
      exact .inr ⟨rfl, rfl⟩
  refine ⟨fun timer hmem' => ?_, fun k e id hk hid => ?_⟩
  · change _ < s.fresh + 3
    rcases hmem timer hmem' with hold | ⟨hid, -⟩
    · have := ht.fresh timer hold
      omega
    · omega
  · change id < s.fresh + 3 ∧ _
    change (OrderedMap.get (s.entries.set key _)) k = some e at hk
    rw [OrderedMap.get_set] at hk
    split_ifs at hk with heq
    · cases hk
      obtain rfl : s.fresh + 2 = id := Option.some.inj hid
      refine ⟨by omega, fun timer hmem' hid' => ?_⟩
      rcases hmem timer hmem' with hold | ⟨-, hkey⟩
      · have := ht.fresh timer hold
        omega
      · exact hkey.trans heq.symm
    · obtain ⟨hlt, hown⟩ := ht.own k e id hk hid
      refine ⟨by omega, fun timer hmem' hid' => ?_⟩
      rcases hmem timer hmem' with hold | ⟨hid'', -⟩
      · exact hown timer hold hid'
      · omega

theorem clear (ht : Timed s) (key : Str) (entry : Entry ν) : Timed (s.clear key entry) :=
  ht.set le_rfl List.filter_sublist.subset OrderedMap.get_set_eq (.inl rfl)

theorem resetEntry (ht : Timed s) (key : Str) : Timed (s.resetEntry key) := by
  unfold Coordinator.resetEntry
  split
  · exact ht
  · exact ht.set le_rfl List.filter_sublist.subset OrderedMap.get_set_eq (.inl rfl)

theorem resetScope (ht : Timed s) : Timed s.resetScope := by
  have hkeys : ∀ (keys : List Str) (t : Coordinator ν ρ), Timed t →
      Timed (keys.foldl Coordinator.resetEntry t) := by
    intro keys
    induction keys with
    | nil => exact fun t ht => ht
    | cons key keys ih => exact fun t ht => ih _ (ht.resetEntry key)
  have hnext : Timed { s with scope := s.scope + 1 } := ht.frame rfl rfl (List.Subset.refl _)
  exact hkeys s.entries.keys _ hnext

theorem expire (ht : Timed s) (timer : Timer) : Timed (s.expire timer) := by
  simp only [Coordinator.expire]
  split
  · exact ht.frame rfl rfl List.filter_sublist.subset
  · split_ifs
    · exact ht.set le_rfl List.filter_sublist.subset OrderedMap.get_set_eq (.inl rfl)
    · exact ht.frame rfl rfl List.filter_sublist.subset

theorem complete (ht : Timed s) (hinv : s.Inv) (task : Task)
    (hanswer : s.answer i = some (c, outcome)) :
    Timed (({ s with tasks := s.tasks.erase task }.apply c outcome).release c.key i) := by
  obtain ⟨hc, houtcome⟩ := Coordinator.answer_eq_some.1 hanswer
  obtain ⟨old, hold, -⟩ := hinv.covers c (List.mem_of_getElem? hc)
  obtain ⟨entry, hget, hentry, -⟩ :=
    Coordinator.apply_release (s := { s with tasks := s.tasks.erase task }) hold outcome i
  obtain ⟨entries, resolved, reports, commits, heq⟩ :=
    Coordinator.apply_release_frame { s with tasks := s.tasks.erase task } c outcome i
  rw [heq] at hget ⊢
  exact ht.set le_rfl (List.Subset.refl _) hget (.inr ⟨old, hold, hentry.timer⟩)

end Timed

/-! ### Answers -/

/-- What was settled has been answered, and a call that is awaited in its scope was settled last. -/
structure Answering (s : Coordinator ν ρ) : Prop where
  settled : ∀ i ∈ s.settled, ∃ c, s.calls[i]? = some c ∧ c.outcome ≠ none
  last : ∀ i ∈ awaited s.tasks, ∀ c, s.calls[i]? = some c → c.scope = s.scope → c.outcome ≠ none →
    (s.settledOf c.key).getLast? = some i

namespace Answering

variable {s t : Coordinator ν ρ} {key : Str}

theorem frame (ha : Answering s) (hscope : t.scope = s.scope) (hcalls : t.calls = s.calls)
    (hsettled : t.settled = s.settled) (htasks : awaited t.tasks ⊆ awaited s.tasks) :
    Answering t := by
  refine ⟨by rw [hsettled, hcalls]; exact ha.settled, fun i hi c hc hin houtcome => ?_⟩
  rw [hcalls] at hc
  have hlast := ha.last i (htasks hi) c hc (hscope ▸ hin) houtcome
  unfold Coordinator.settledOf at hlast ⊢
  rwa [hsettled, hcalls, hscope]

theorem settledOf_settle (hc : s.calls[i]? = some c) (key : Str) :
    (s.settle i outcome).settledOf key =
      s.settledOf key ++ if c.key = key ∧ c.scope = s.scope then [i] else [] := by
  have hsame : ∀ j : ℕ, (((s.settle i outcome).calls[j]?).any fun c : Call ν ρ =>
      c.key = key ∧ c.scope = s.scope) =
      (s.calls[j]?).any fun c : Call ν ρ => c.key = key ∧ c.scope = s.scope := by
    intro j
    simp only [Coordinator.settle, List.getElem?_modify]
    cases s.calls[j]? with
    | none => rfl
    | some d => by_cases hij : i = j <;> simp [hij, Call.answered]
  have hscope : (s.settle i outcome).scope = s.scope := rfl
  unfold Coordinator.settledOf
  simp only [hscope, hsame]
  change List.filter _ (s.settled ++ [i]) = _
  rw [List.filter_append]
  split_ifs with hkey <;> simp [hc, hkey]

/-- In its scope a call in flight is the one that its entry awaits. -/
theorem inFlight_of_pending (hinv : s.Inv) (hc : s.calls[i]? = some c) (hpending : c.outcome = none)
    (hin : c.scope = s.scope) :
    ∃ entry, s.entries.get c.key = some entry ∧ entry.Awaits s.scope i c := by
  obtain ⟨c', hc', hawaits⟩ := hinv.task i (hinv.pending i c hc hpending)
  obtain rfl := Option.some.inj (hc.symm.trans hc')
  exact hawaits hin

theorem settle (ha : Answering s) (hinv : s.Inv) (hc : s.calls[i]? = some c)
    (hpending : c.outcome = none) (outcome : Except Str ρ) : Answering (s.settle i outcome) := by
  have hanswered : ∃ c', (s.settle i outcome).calls[i]? = some c' ∧ c'.outcome ≠ none :=
    ⟨c.answered outcome, Coordinator.getElem?_settle.2 ⟨c, hc, by rw [if_pos rfl]⟩, nofun⟩
  refine ⟨fun j hj => ?_, fun j hj c' hc' hin houtcome => ?_⟩
  · rcases List.mem_append.1 hj with hj | hj
    · obtain ⟨d, hd, houtcome⟩ := ha.settled j hj
      by_cases hij : i = j
      · exact hij ▸ hanswered
      · exact ⟨d, Coordinator.getElem?_settle.2 ⟨d, hd, by rw [if_neg hij]⟩, houtcome⟩
    · exact List.mem_singleton.1 hj ▸ hanswered
  · rw [settledOf_settle hc]
    obtain ⟨d, hd, rfl⟩ := Coordinator.getElem?_settle.1 hc'
    by_cases hij : i = j
    · subst hij
      obtain rfl := Option.some.inj (hc.symm.trans hd)
      rw [if_pos rfl] at hin ⊢
      rw [if_pos ⟨rfl, hin⟩, List.getLast?_concat]
    · rw [if_neg hij] at hin houtcome ⊢
      have hlast := ha.last j hj d hd hin houtcome
      -- another call of the key would be in flight too
      have hother : ¬ (c.key = d.key ∧ c.scope = s.scope) := by
        rintro ⟨hkey, hscope⟩
        obtain ⟨e, he, hawaits⟩ := inFlight_of_pending hinv hc hpending hscope
        obtain ⟨d', hd', htask⟩ := hinv.task j hj
        obtain rfl := Option.some.inj (hd.symm.trans hd')
        obtain ⟨e', he', hawaits'⟩ := htask hin
        rw [hkey] at he
        obtain rfl := Option.some.inj (he.symm.trans he')
        exact hij (Option.some.inj (hawaits.inFlight.symm.trans hawaits'.inFlight))
      rw [if_neg hother, List.append_nil, hlast]

theorem settledOf_send (ha : Answering s) {entry : Entry ν} (k : Str) :
    (s.send key entry targets).settledOf k = s.settledOf k := by
  refine List.filter_congr fun i hi => ?_
  obtain ⟨c, hc, -⟩ := ha.settled i hi
  have hlt := (List.getElem?_eq_some_iff.1 hc).1
  simp only [Coordinator.send, Coordinator.park, List.getElem?_append_left hlt]
  rfl

theorem send (ha : Answering s) {entry : Entry ν} : Answering (s.send key entry targets) := by
  refine ⟨fun i hi => ?_, fun i hi c hc hin houtcome => ?_⟩
  · obtain ⟨c, hc, houtcome⟩ := ha.settled i hi
    exact ⟨c, (List.getElem?_append_left (List.getElem?_eq_some_iff.1 hc).1).trans hc, houtcome⟩
  · rw [ha.settledOf_send]
    rcases Coordinator.getElem?_send hc with hc | ⟨-, rfl⟩
    · have hmem : i ∈ awaited (s.tasks ++ [⟨.persist s.calls.length, targets⟩]) := hi
      rw [awaited_append_single] at hmem
      rcases List.mem_append.1 hmem with hmem | hmem
      · exact ha.last i hmem c hc hin houtcome
      · obtain rfl := List.mem_singleton.1 hmem
        simp at hc
    · exact absurd rfl houtcome

theorem resetScope (ha : Answering s) (hinv : s.Inv) : Answering s.resetScope := by
  obtain ⟨hscope, hcalls, htasks, hsettled⟩ := Coordinator.resetScope_frame s
  refine ⟨by rw [hsettled, hcalls]; exact ha.settled, fun i _ c hc hin _ => ?_⟩
  rw [hcalls] at hc
  have := hinv.callScope c (List.mem_of_getElem? hc)
  omega

theorem awaited_erase_subset (tasks : List Task) (task : Task) :
    awaited (tasks.erase task) ⊆ awaited tasks :=
  (List.erase_sublist.filterMap _).subset

theorem seed (ha : Answering s) (key : Str) (value : ν) : Answering (s.seed key value) := by
  unfold Coordinator.seed
  dsimp only
  split_ifs
  · exact ha
  · exact ha.frame rfl rfl rfl (List.Subset.refl _)

theorem expire (ha : Answering s) (timer : Timer) : Answering (s.expire timer) := by
  simp only [Coordinator.expire]
  split
  · exact ha.frame rfl rfl rfl (List.Subset.refl _)
  · split_ifs <;> exact ha.frame rfl rfl rfl (List.Subset.refl _)

theorem complete (ha : Answering s) (task : Task) (i : ℕ) (c : Call ν ρ)
    (outcome : Except Str ρ) :
    Answering (({ s with tasks := s.tasks.erase task }.apply c outcome).release c.key i) := by
  obtain ⟨entries, resolved, reports, commits, heq⟩ :=
    Coordinator.apply_release_frame { s with tasks := s.tasks.erase task } c outcome i
  rw [heq]
  exact ha.frame rfl rfl rfl (awaited_erase_subset _ _)

end Answering

/-! ### Drafts on their way -/

/-- The draft of the generation was sent in the present scope, and its call answered last. -/
def Attempted (s : Coordinator ν ρ) (key : Str) (generation : ℕ) : Prop :=
  ∃ (i : ℕ) (c : Call ν ρ), s.calls[i]? = some c ∧ c.key = key ∧ c.generation = generation ∧
    c.scope = s.scope ∧ c.outcome ≠ none ∧ (s.settledOf key).getLast? = some i

/-- What keeps the draft of an entry going, or that it was attempted. -/
def Working (hole : Option Str) (s : Coordinator ν ρ) (key : Str) (entry : Entry ν) : Prop :=
  match entry.state.phase with
  | .dirty => hole = some key ∨ (∃ timer ∈ s.timers, timer.key = key) ∨ entry.inFlight ≠ none
  | .saving => ∃ (i : ℕ) (c : Call ν ρ), entry.inFlight = some i ∧ s.calls[i]? = some c ∧
      c.scope = s.scope
  | .saved | .failed | .idle => Attempted s key entry.state.generation
  | .cancelled | .conflict => False

/-- What was enqueued in the present scope is on its way. -/
structure Active (h : List (Event ν ρ)) (hole : Option Str) (s : Coordinator ν ρ) : Prop where
  timed : Timed s
  answering : Answering s
  working : ∀ key, enqueued key (sinceReset h) ≠ [] →
    ∃ entry, s.entries.get key = some entry ∧ entry.scope = s.scope ∧ Working hole s key entry

section

variable {h : List (Event ν ρ)} {hole hole' : Option Str} {s t : Coordinator ν ρ} {key : Str}
  {entry : Entry ν}

theorem Attempted.mono {generation : ℕ} (ha : Attempted s key generation)
    (hscope : t.scope = s.scope)
    (hcalls : ∀ (i : ℕ) (c : Call ν ρ), s.calls[i]? = some c → ∃ c', t.calls[i]? = some c' ∧
      c'.key = c.key ∧ c'.generation = c.generation ∧ c'.scope = c.scope ∧
      (c.outcome ≠ none → c'.outcome ≠ none))
    (hsettled : t.settledOf key = s.settledOf key) : Attempted t key generation := by
  obtain ⟨i, c, hc, hkey, hgeneration, hin, houtcome, hlast⟩ := ha
  obtain ⟨c', hc', hkey', hgeneration', hscope', houtcome'⟩ := hcalls i c hc
  exact ⟨i, c', hc', hkey'.trans hkey, hgeneration'.trans hgeneration,
    hscope'.trans (hin.trans hscope.symm), houtcome' houtcome, hsettled ▸ hlast⟩

/-- The calls stay and may be answered, timers of the key stay: its entry still works. -/
theorem Working.mono (hw : Working hole s key entry) (hscope : t.scope = s.scope)
    (hcalls : ∀ (i : ℕ) (c : Call ν ρ), s.calls[i]? = some c → ∃ c', t.calls[i]? = some c' ∧
      c'.key = c.key ∧ c'.generation = c.generation ∧ c'.scope = c.scope ∧
      (c.outcome ≠ none → c'.outcome ≠ none))
    (hsettled : entry.state.phase ≠ .dirty → entry.state.phase ≠ .saving →
      t.settledOf key = s.settledOf key)
    (hdirty : entry.state.phase = .dirty → hole = some key ∨ (∃ timer ∈ s.timers, timer.key = key) →
      hole' = some key ∨ ∃ timer ∈ t.timers, timer.key = key) : Working hole' t key entry := by
  unfold Working at hw ⊢
  cases hphase : entry.state.phase with
  | dirty =>
    simp only [hphase] at hw ⊢
    rw [← or_assoc] at hw ⊢
    exact hw.imp_left (hdirty hphase)
  | saving =>
    simp only [hphase] at hw ⊢
    obtain ⟨i, c, hi, hc, hin⟩ := hw
    obtain ⟨c', hc', -, -, hscope', -⟩ := hcalls i c hc
    exact ⟨i, c', hi, hc', hscope'.trans (hin.trans hscope.symm)⟩
  | idle | saved | failed =>
    simp only [hphase] at hw hsettled ⊢
    exact hw.mono hscope hcalls (hsettled (by decide) (by decide))
  | cancelled | conflict =>
    simp only [hphase] at hw

/-- The calls and what was settled are the same. -/
theorem Working.frame (hw : Working hole s key entry) (hscope : t.scope = s.scope)
    (hcalls : t.calls = s.calls) (hsettled : t.settled = s.settled)
    (hdirty : entry.state.phase = .dirty → hole = some key ∨ (∃ timer ∈ s.timers, timer.key = key) →
      hole' = some key ∨ ∃ timer ∈ t.timers, timer.key = key) : Working hole' t key entry := by
  refine hw.mono hscope (fun i c hc => ⟨c, hcalls ▸ hc, rfl, rfl, rfl, id⟩) (fun _ _ => ?_) hdirty
  unfold Coordinator.settledOf
  rw [hsettled, hcalls, hscope]

theorem Working.attempted (hw : Working hole s key entry) (hdirty : entry.state.phase ≠ .dirty)
    (hsaving : entry.state.phase ≠ .saving) : Attempted s key entry.state.generation := by
  unfold Working at hw
  split at hw
  · next hphase => exact absurd hphase hdirty
  · next hphase => exact absurd hphase hsaving
  · exact hw
  · exact hw
  · exact hw
  · exact hw.elim
  · exact hw.elim

theorem Attempted.working (ha : Attempted s key entry.state.generation)
    (hphase : entry.state.phase = .saved ∨ entry.state.phase = .failed ∨
      entry.state.phase = .idle) : Working hole s key entry := by
  unfold Working
  rcases hphase with hphase | hphase | hphase <;> simpa only [hphase] using ha

/-- The timers of other keys are not cleared with the timer of an entry. -/
theorem Timed.clearTimeout (ht : Timed s) (hentry : s.entries.get key = some entry) {k : Str}
    (hk : k ≠ key) (htimer : ∃ timer ∈ s.timers, timer.key = k) :
    ∃ timer ∈ (s.clearTimeout entry.timer).timers, timer.key = k := by
  obtain ⟨timer, hmem, rfl⟩ := htimer
  refine ⟨timer, List.mem_filter.2 ⟨hmem, ?_⟩, rfl⟩
  simp only [ne_eq, decide_not, Bool.not_eq_true', decide_eq_false_iff_not]
  exact fun hid => hk ((ht.own key entry timer.id hentry hid).2 timer hmem rfl)

namespace Active

theorem history {h' : List (Event ν ρ)} (ha : Active h hole s)
    (heq : ∀ key, enqueued key (sinceReset h') = enqueued key (sinceReset h)) :
    Active h' hole s :=
  ⟨ha.timed, ha.answering, fun key hkey => ha.working key (heq key ▸ hkey)⟩

theorem weaken (ha : Active h none s) (key : Str) : Active h (some key) s :=
  ⟨ha.timed, ha.answering, fun k hk => by
    obtain ⟨entry, hentry, hscope, hw⟩ := ha.working k hk
    exact ⟨entry, hentry, hscope, hw.frame rfl rfl rfl fun _ h => h.imp_left nofun⟩⟩

theorem seed (ha : Active h none s) (key : Str) (value : ν) : Active h none (s.seed key value) := by
  refine ⟨ha.timed.seed key value, ha.answering.seed key value, fun k hk => ?_⟩
  obtain ⟨old, hold, hscope, hw⟩ := ha.working k hk
  by_cases hbusy : (s.entries.get key).any fun entry => entry.state.phase ∈ [.dirty, .saving]
  · rw [Coordinator.seed, if_pos hbusy]
    exact ⟨old, hold, hscope, hw⟩
  rw [Coordinator.seed, if_neg hbusy]
  by_cases heq : k = key
  · subst heq
    refine ⟨_, OrderedMap.get_set_self, rfl, Attempted.working ?_ (.inr (.inr rfl))⟩
    -- what was enqueued and is not busy has been attempted
    have hbusy : ¬ (old.state.phase = .dirty ∨ old.state.phase = .saving) := by
      simpa [hold] using hbusy
    have hattempted := hw.attempted (fun hp => hbusy (.inl hp)) fun hp => hbusy (.inr hp)
    simp only [hold, Option.map_some, Option.getD_some]
    exact hattempted.mono rfl (fun i c hc => ⟨c, hc, rfl, rfl, rfl, id⟩) rfl
  · exact ⟨old, (OrderedMap.get_set_of_ne heq).trans hold, hscope, hw.frame rfl rfl rfl fun _ => id⟩

theorem enqueue (ha : Active h none s) (key : Str) (value : ν) :
    Active (h ++ [.enqueue key value]) none (s.enqueue key value) := by
  refine ⟨ha.timed.enqueue key value,
    ha.answering.frame rfl rfl rfl (List.Subset.refl _), fun k hk => ?_⟩
  by_cases heq : k = key
  · subst heq
    exact ⟨_, OrderedMap.get_set_self, rfl,
      .inr (.inl ⟨_, List.mem_append_right _ (List.mem_singleton_self _), rfl⟩)⟩
  · rw [sinceReset_append (by simp), enqueued_enqueue, if_neg (Ne.symm heq), List.append_nil] at hk
    obtain ⟨old, hold, hscope, hw⟩ := ha.working k hk
    refine ⟨old, (OrderedMap.get_set_of_ne heq).trans hold, hscope,
      hw.frame rfl rfl rfl fun _ h => h.imp_right fun htimer => ?_⟩
    have hkept : ∃ timer ∈ (s.clearTimeout ((s.entries.get key).bind Entry.timer)).timers,
        timer.key = k := by
      cases hentry : s.entries.get key with
      | none =>
        obtain ⟨timer, hmem, hkey⟩ := htimer
        exact ⟨timer, List.mem_filter.2 ⟨hmem, by simp⟩, hkey⟩
      | some entry => exact ha.timed.clearTimeout hentry heq htimer
    obtain ⟨timer, hmem, hkey⟩ := hkept
    refine ⟨timer, List.mem_append_left _ ?_, hkey⟩
    cases hentry : s.entries.get key <;> simpa [hentry] using hmem

theorem resetScope (ha : Active h none s) (hinv : s.Inv) :
    Active (h ++ [.resetScope]) none s.resetScope :=
  ⟨ha.timed.resetScope, ha.answering.resetScope hinv, fun key hkey => by
    rw [sinceReset_resetScope] at hkey
    exact absurd rfl hkey⟩

theorem clear (ha : Active h none s) (hentry : s.entries.get key = some entry) :
    Active h (some key) (s.clear key entry) := by
  refine ⟨ha.timed.clear key entry, ha.answering.frame rfl rfl rfl (List.Subset.refl _),
    fun k hk => ?_⟩
  obtain ⟨old, hold, hscope, hw⟩ := ha.working k hk
  by_cases heq : k = key
  · subst heq
    obtain rfl := Option.some.inj (hentry.symm.trans hold)
    refine ⟨_, OrderedMap.get_set_self, hscope, ?_⟩
    have hw' : Working (some k) (s.clear k entry) k entry :=
      hw.frame rfl rfl rfl fun _ _ => .inl rfl
    exact hw'
  · exact ⟨old, (OrderedMap.get_set_of_ne heq).trans hold, hscope, hw.frame rfl rfl rfl fun _ h =>
      .inr (ha.timed.clearTimeout hentry heq (h.resolve_left nofun))⟩

theorem expire (ha : Active h none s) (timer : Timer) :
    Active h (some timer.key) (s.expire timer) := by
  refine ⟨ha.timed.expire timer, ha.answering.expire timer, fun k hk => ?_⟩
  obtain ⟨old, hold, hscope, hw⟩ := ha.working k hk
  have hframe : ∀ entries, Working (some timer.key)
      { s with timers := s.timers.filter fun t => t ≠ timer, entries } k old := by
    refine fun entries => hw.frame rfl rfl rfl fun _ h => ?_
    obtain ⟨t, hmem, rfl⟩ := h.resolve_left nofun
    by_cases heq : t = timer
    · exact .inl (by rw [heq])
    · exact .inr ⟨t, List.mem_filter.2 ⟨hmem, by simpa using heq⟩, rfl⟩
  simp only [Coordinator.expire]
  split
  · exact ⟨old, hold, hscope, hframe _⟩
  · next entry hentry =>
    split_ifs
    · by_cases heq : k = timer.key
      · rw [heq] at hold
        obtain rfl := Option.some.inj (hentry.symm.trans hold)
        exact ⟨_, (congrArg _ heq).trans OrderedMap.get_set_self, hscope, hframe _⟩
      · exact ⟨old, (OrderedMap.get_set_of_ne heq).trans hold, hscope, hframe _⟩
    · exact ⟨old, hold, hscope, hframe _⟩

theorem settle (ha : Active h none s) (hinv : s.Inv) (hc : s.calls[i]? = some c)
    (hpending : c.outcome = none) (outcome : Except Str ρ) :
    Active h none (s.settle i outcome) := by
  refine ⟨ha.timed.frame rfl rfl (List.Subset.refl _),
    ha.answering.settle hinv hc hpending outcome, fun k hk => ?_⟩
  obtain ⟨old, hold, hscope, hw⟩ := ha.working k hk
  refine ⟨old, hold, hscope, hw.mono rfl (fun j d hd => ?_) (fun hdirty hsaving => ?_) fun _ => id⟩
  · refine ⟨_, Coordinator.getElem?_settle.2 ⟨d, hd, rfl⟩, ?_⟩
    split_ifs
    · exact ⟨rfl, rfl, rfl, fun _ => nofun⟩
    · exact ⟨rfl, rfl, rfl, id⟩
  · -- the call that is in flight is of another key or scope
    rw [Answering.settledOf_settle hc, if_neg, List.append_nil]
    rintro ⟨rfl, hin⟩
    obtain ⟨e, he, hawaits⟩ := Answering.inFlight_of_pending hinv hc hpending hin
    obtain rfl := Option.some.inj (hold.symm.trans he)
    exact hawaits.phase.elim hdirty fun hp => hsaving hp.1

theorem park (ha : Active h (some key) s) {suspension : Suspension}
    (hnone : suspension.call? = none)
    (hbusy : ∀ entry, s.entries.get key = some entry → entry.state.phase = .dirty →
      entry.inFlight ≠ none) : Active h none (s.park suspension targets) := by
  refine ⟨ha.timed.frame rfl rfl (List.Subset.refl _), ?_, fun k hk => ?_⟩
  · refine ha.answering.frame rfl rfl rfl ?_
    change awaited (s.tasks ++ _) ⊆ _
    rw [awaited_append_single, hnone, Option.toList_none, List.append_nil]
    exact List.Subset.refl _
  obtain ⟨old, hold, hscope, hw⟩ := ha.working k hk
  refine ⟨old, hold, hscope, ?_⟩
  by_cases heq : k = key ∧ old.state.phase = .dirty
  · obtain ⟨rfl, hdirty⟩ := heq
    unfold Working
    rw [hdirty]
    exact .inr (.inr (hbusy old hold hdirty))
  · exact hw.frame rfl rfl rfl fun hdirty h => h.imp_left fun hkey =>
      absurd ⟨(Option.some.inj hkey).symm, hdirty⟩ heq

theorem send (ha : Active h (some key) s) (targets : List Str)
    (hentry : s.entries.get key = some entry) : Active h none (s.send key entry targets) := by
  refine ⟨ha.timed.set le_rfl (List.Subset.refl _) OrderedMap.get_set_eq (.inr ⟨_, hentry, rfl⟩),
    ha.answering.send, fun k hk => ?_⟩
  obtain ⟨old, hold, hscope, hw⟩ := ha.working k hk
  by_cases heq : k = key
  · subst heq
    obtain rfl := Option.some.inj (hentry.symm.trans hold)
    exact ⟨_, OrderedMap.get_set_self, hscope, _, _, rfl, List.getElem?_concat_length, hscope⟩
  · refine ⟨old, (OrderedMap.get_set_of_ne heq).trans hold, hscope,
      hw.mono rfl (fun i c hc => ⟨c, ?_, rfl, rfl, rfl, id⟩)
        (fun _ _ => ha.answering.settledOf_send k) fun _ h => .inr (h.resolve_left ?_)⟩
    · exact (List.getElem?_append_left (List.getElem?_eq_some_iff.1 hc).1).trans hc
    · exact fun hkey => heq (Option.some.inj hkey).symm

theorem complete (ha : Active h none s) (hinv : s.Inv) {task : Task} (htask : task ∈ s.tasks)
    (hsuspension : task.suspension = .persist i) (hanswer : s.answer i = some (c, outcome))
    (hcurrent : FailuresCurrent s (.resume task)) : Active h (some c.key)
      (({ s with tasks := s.tasks.erase task }.apply c outcome).release c.key i) := by
  obtain ⟨hc, houtcome⟩ := Coordinator.answer_eq_some.1 hanswer
  have htimed := ha.timed.complete hinv task hanswer
  have hanswering := ha.answering.complete task i c outcome
  obtain ⟨current, hget₀, -⟩ := hinv.covers c (List.mem_of_getElem? hc)
  obtain ⟨entry, hget, hentry, -⟩ :=
    Coordinator.apply_release (s := { s with tasks := s.tasks.erase task }) hget₀ outcome i
  obtain ⟨entries, resolved, reports, commits, heq⟩ :=
    Coordinator.apply_release_frame { s with tasks := s.tasks.erase task } c outcome i
  rw [heq] at hget htimed hanswering ⊢
  refine ⟨htimed, hanswering, fun k hk => ?_⟩
  obtain ⟨old, hold, hscope, hw⟩ := ha.working k hk
  have hentries : entries.get = Function.update s.entries.get c.key (some entry) := hget
  by_cases hkey : k = c.key
  swap
  · refine ⟨old, ?_, hscope, hw.frame rfl rfl rfl fun _ h => .inr (h.resolve_left nofun)⟩
    change entries.get k = some old
    rw [hentries, Function.update_of_ne hkey, hold]
  subst hkey
  obtain rfl := Option.some.inj (hold.symm.trans hget₀)
  refine ⟨entry, ?_, hentry.scope.trans hscope, ?_⟩
  · change entries.get c.key = some entry
    rw [hentries, Function.update_self]
  have hdirty : entry.state.phase = .dirty →
      Working (some c.key) { s with
        tasks := s.tasks.erase task, entries, resolved, reports, commits } c.key entry := by
    intro hphase
    unfold Working
    rw [hphase]
    exact .inl rfl
  by_cases hin : c.scope = s.scope
  · have hattempted : old.state.generation = c.generation → Attempted { s with
        tasks := s.tasks.erase task, entries, resolved, reports, commits } c.key
          entry.state.generation := fun hlatest =>
      ⟨i, c, hc, rfl, (hentry.generation.trans hlatest).symm, hin, by simp [houtcome],
        ha.answering.last i (Coordinator.mem_awaited htask hsuspension) c hc hin
          (by simp [houtcome])⟩
    cases outcome with
    | ok result =>
      have hphase := hentry.phase.trans
        (Coordinator.answeredPhase_ok (hscope.trans hin.symm) hin.symm)
      split_ifs at hphase with hlatest
      · exact (hattempted hlatest).working (.inl hphase)
      · exact hdirty hphase
    | error error =>
      have hphase := hentry.phase.trans
        (Coordinator.answeredPhase_error (hscope.trans hin.symm) hin.symm)
      have hlatest := hcurrent i c error old hsuspension hanswer hold (hscope.trans hin.symm)
        hin.symm
      exact (hattempted hlatest).working (.inr (.inl hphase))
  · have hphase : entry.state.phase = old.state.phase :=
      hentry.phase.trans (if_pos (.inr (Ne.symm hin)))
    by_cases hold' : old.state.phase = .dirty
    · exact hdirty (hphase.trans hold')
    -- what is in flight for the present scope is another call
    have hw' : Working none s c.key entry := by
      unfold Working at hw ⊢
      rw [hphase, hentry.generation]
      cases hp : old.state.phase with
      | dirty => exact absurd hp hold'
      | saving =>
        simp only [hp] at hw ⊢
        obtain ⟨j, d, hj, hd, hdscope⟩ := hw
        refine ⟨j, d, hentry.inFlight.trans ?_, hd, hdscope⟩
        rw [if_neg, hj]
        rw [hj]
        rintro heq
        obtain rfl := Option.some.inj heq
        exact hin (Option.some.inj (hc.symm.trans hd) ▸ hdscope)
      | idle | saved | failed => simpa only [hp] using hw
      | cancelled | conflict => simp only [hp] at hw
    exact hw'.frame rfl rfl rfl fun hp => absurd (hphase.symm.trans hp) hold'

theorem kept : Kept (FailuresCurrent (ν := ν) (ρ := ρ)) Active where
  quiet h event _ hquiet ha := ha.history fun key => by
    cases event with
    | seed | enqueue | resetScope => exact hquiet.elim
    | _ => rw [sinceReset_append (by simp), enqueued_quiet hquiet]
  weaken _ _ key ha := ha.weaken key
  seed _ _ key value _ _ ha := (ha.seed key value).history fun _ => by
    rw [sinceReset_append (by simp), enqueued_seed]
  enqueue _ _ key value _ ha := ha.enqueue key value
  resetScope _ _ hinv ha := ha.resetScope hinv
  clear _ _ _ _ _ hentry ha := ha.clear hentry
  expire _ _ timer _ _ ha := ha.expire timer
  settle _ _ _ _ outcome hinv hc hpending ha := ha.settle hinv hc hpending outcome
  unpark _ _ task _ _ _ ha :=
    ⟨ha.timed.frame rfl rfl (List.Subset.refl _),
      ha.answering.frame rfl rfl rfl (Answering.awaited_erase_subset _ task), fun key hkey => by
        obtain ⟨entry, hentry, hscope, hw⟩ := ha.working key hkey
        exact ⟨entry, hentry, hscope, hw.frame rfl rfl rfl fun _ => id⟩⟩
  complete _ _ _ _ _ _ hinv htask hsuspension hanswer hcurrent ha :=
    ha.complete hinv htask hsuspension hanswer hcurrent
  park _ _ _ _ _ _ hnone hbusy ha := ha.park hnone hbusy
  send _ _ _ _ targets _ hentry _ _ ha := ha.send targets hentry

theorem start : Active [] none (.start : Coordinator ν ρ) where
  timed := ⟨by simp [Coordinator.start], by simp [Coordinator.start]⟩
  answering := ⟨by simp [Coordinator.start], by simp [Coordinator.start, awaited]⟩
  working := by simp [sinceReset, enqueued]

end Active

end

theorem sinceReset_suffix (h : List (Event ν ρ)) : sinceReset h <:+ h := by
  induction h using List.reverseRecOn with
  | nil => exact List.suffix_rfl
  | append_singleton h event ih =>
    obtain ⟨before, hbefore⟩ := ih
    by_cases hreset : event = .resetScope
    · rw [hreset, sinceReset_resetScope]
      exact List.nil_suffix
    · rw [sinceReset_append hreset]
      exact ⟨before, by rw [← List.append_assoc, hbefore]⟩

/-- If no failure of an older draft is processed while there is a newer one: when nothing is going
on any more, the call of a key that was answered last in the present scope is the one of its newest
draft; and a draft is reported as failed only when its own call was refused. -/
theorem newest_draft_attempted {events : List (Event ν ρ)} {s : Coordinator ν ρ}
    (h : Run (fun s event t => step s event = some t ∧ FailuresCurrent s event) .start events s) :
    (s.Quiescent → ∀ key value, (enqueued key (sinceReset events)).getLast? = some value →
      ∃ (i : ℕ) (c : Call ν ρ), (s.settledOf key).getLast? = some i ∧ s.calls[i]? = some c ∧
        c.outcome ≠ none ∧ c.key = key ∧ c.value = value ∧
        c.generation = (enqueued key events).length) ∧
    ∀ report ∈ s.reports, report.phase = .failed → ∃ c ∈ s.calls, c.key = report.key ∧
      c.generation = report.generation ∧ ∃ error, c.outcome = some (.error error) := by
  obtain ⟨hinv, hactive⟩ := Active.kept.run Active.start h
  obtain ⟨-, hdrafted⟩ := Drafted.kept.run Drafted.start h
  refine ⟨fun ⟨htimers, htasks⟩ key value hvalue => ?_, hdrafted.refused⟩
  obtain ⟨entry, hentry, -, hw⟩ := hactive.working key fun hnil => by simp [hnil] at hvalue
  have hidle : entry.inFlight = none := by
    refine Option.eq_none_iff_forall_ne_some.2 fun i hi => ?_
    obtain ⟨hmem, -⟩ := hinv.inFlight key entry i hentry hi
    simp [htasks, awaited] at hmem
  obtain ⟨i, c, hc, rfl, hgeneration, -, houtcome, hlast⟩ : Attempted s key entry.state.generation := by
    refine hw.attempted (fun hphase => ?_) fun hphase => ?_
    · simp [Working, hphase, htimers, hidle] at hw
    · simp [Working, hphase, hidle] at hw
  have hcount : entry.state.generation = (enqueued c.key events).length := by
    have := hdrafted.count c.key
    rwa [hentry] at this
  obtain ⟨hpos, hsent⟩ := hdrafted.sent c (List.mem_of_getElem? hc)
  refine ⟨i, c, hlast, hc, houtcome, rfl, ?_, hgeneration.trans hcount⟩
  -- the call has the last value that was enqueued
  obtain ⟨before, hbefore⟩ := sinceReset_suffix events
  have happend : enqueued c.key (before ++ sinceReset events) = _ := List.filterMap_append
  rw [hbefore] at happend
  have hnewest : (enqueued c.key events).getLast? = some value := by
    rw [happend, List.getLast?_append]
    exact congrArg (Option.or · _) hvalue
  rw [hgeneration, hcount, ← List.getLast?_eq_getElem?, hnewest] at hsent
  exact (Option.some.inj hsent).symm

/-- A draft that comes while an older one is written, and is refused itself. -/
theorem newest_draft_attempted_refused :
    ∃ events, ∃ s : Coordinator ℕ ℕ,
      Run (fun s event t => step s event = some t ∧ FailuresCurrent s event) .start events s ∧
      s.Quiescent ∧ (enqueued ['k'] (sinceReset events)).getLast? = some 2 ∧
      ∃ (i : ℕ) (c : Call ℕ ℕ), s.calls[i]? = some c ∧ c.value = 2 ∧ c.outcome ≠ none := by
  have hrun : ∃ s : Coordinator ℕ ℕ,
      Run (fun s event t => step s event = some t ∧ FailuresCurrent s event) .start
        [.enqueue ['k'] 1, .flush (some ['k']), .enqueue ['k'] 2, .settle 0 (.ok 1),
          .fire ⟨5, ['k'], 0⟩, .resume ⟨.persist 0, []⟩, .resume ⟨.inFlight ['k'] 0, []⟩,
          .settle 1 (.error ['e']), .resume ⟨.persist 1, []⟩, .resume ⟨.returned, []⟩,
          .resume ⟨.returned, []⟩] s ∧ s.Quiescent := by
    have hcurrent : ∀ {s : Coordinator ℕ ℕ} {i : ℕ} {targets : List Str},
        (s.answer i).all (fun p => p.2.toBool ||
          (s.entries.get p.1.key).all fun entry => entry.state.generation = p.1.generation) = true →
        FailuresCurrent s (.resume ⟨.persist i, targets⟩) := by
      intro s i targets hall j c error entry hj hanswer hentry _ _
      obtain rfl : i = j := by simpa using hj
      simpa [hanswer, hentry, Except.toBool] using hall
    have hother : ∀ {s : Coordinator ℕ ℕ} {task : Task}, task.suspension.call? = none →
        FailuresCurrent s (.resume task) := by
      intro s task hnone i c error entry hi
      rw [hi] at hnone
      cases hnone
    exact ⟨_, run_cons.2 ⟨_, ⟨rfl, trivial⟩, run_cons.2 ⟨_, ⟨rfl, trivial⟩,
      run_cons.2 ⟨_, ⟨rfl, trivial⟩, run_cons.2 ⟨_, ⟨rfl, trivial⟩, run_cons.2 ⟨_, ⟨rfl, trivial⟩,
      run_cons.2 ⟨_, ⟨rfl, hcurrent rfl⟩, run_cons.2 ⟨_, ⟨rfl, hother rfl⟩,
      run_cons.2 ⟨_, ⟨rfl, trivial⟩, run_cons.2 ⟨_, ⟨rfl, hcurrent rfl⟩,
      run_cons.2 ⟨_, ⟨rfl, hother rfl⟩, run_cons.2 ⟨_, ⟨rfl, hother rfl⟩,
      .nil _⟩⟩⟩⟩⟩⟩⟩⟩⟩⟩⟩, rfl, rfl⟩
  obtain ⟨s, hrun, hquiescent⟩ := hrun
  obtain ⟨i, c, -, hc, houtcome, -, hvalue, -⟩ :=
    (newest_draft_attempted hrun).1 hquiescent ['k'] 2 (by decide)
  exact ⟨_, s, hrun, hquiescent, by decide, i, c, hc, hvalue, houtcome⟩

/-- A draft is enqueued while an older one is written, which is refused: the newer draft is never
sent, and reported as failed. -/
theorem not_newest_draft_attempted :
    ¬ ∀ events, ∀ s : Coordinator ℕ ℕ,
      Run (fun s event t => step s event = some t) .start events s →
      (s.Quiescent → ∀ key value, (enqueued key (sinceReset events)).getLast? = some value →
        ∃ (i : ℕ) (c : Call ℕ ℕ), (s.settledOf key).getLast? = some i ∧ s.calls[i]? = some c ∧
          c.outcome ≠ none ∧ c.key = key ∧ c.value = value ∧
          c.generation = (enqueued key events).length) ∧
      ∀ report ∈ s.reports, report.phase = .failed → ∃ c ∈ s.calls, c.key = report.key ∧
        c.generation = report.generation ∧ ∃ error, c.outcome = some (.error error) := by
  intro hall
  have hrun : ∃ s : Coordinator ℕ ℕ, ([.enqueue ['k'] 1, .flush (some ['k']), .enqueue ['k'] 2,
      .settle 0 (.error ['e']), .resume ⟨.persist 0, []⟩, .fire ⟨5, ['k'], 0⟩,
      .resume ⟨.returned, []⟩, .resume ⟨.returned, []⟩] : List (Event ℕ ℕ)).foldlM step .start =
        some s := ⟨_, rfl⟩
  obtain ⟨s, hrun⟩ := hrun
  have hlost := (hall _ s (run_iff_foldlM.2 hrun)).1
  obtain rfl := Option.some.inj hrun
  obtain ⟨i, c, hlast, hc, -, -, hvalue, -⟩ := hlost ⟨rfl, rfl⟩ ['k'] 2 (by decide)
  obtain rfl : 0 = i := Option.some.inj hlast
  obtain rfl := Option.some.inj hc
  exact absurd hvalue (by decide)

end Awayuki.Settings
