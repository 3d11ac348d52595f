import Awayuki.Stream.Effects

/-!
# When coalescing is faithful

Exactly when a micro-batch leaves what its events leave one at a time.

* `fate`: what the events did to a status last;
* `Harmless`: what a status must not meet in a micro-batch;
* `coalescing_faithful_iff`: a micro-batch is handled faithfully, whatever was stored and shown
  before, exactly if all statuses are harmless in it.
-/

namespace Awayuki.MicroBatch

open ProcessedEvent

variable {α : Type}

/-! ### One status through a list of events -/

variable {c : α} {s : Status α}

section Local

variable (server : Server) {timeline : Option (Str × Str)} {x : Str}

/-- What an event does to a status: `some none` when it takes it away, else what it writes. -/
def touch (x : Str) (e : ProcessedEvent α) : Option (Option α) :=
  if kills server e x then some none else (e.carried x).map some

/-- What the events did to a status last. -/
def fate (events : List (ProcessedEvent α)) (x : Str) : Option (Option α) :=
  events.reverse.findSome? (touch server x)

/-- The content that the events wrote of a status last. -/
def lastCarried (events : List (ProcessedEvent α)) (x : Str) : Option α :=
  events.reverse.findSome? (carried · x)

variable {server} {events : List (ProcessedEvent α)} {e : ProcessedEvent α}

theorem fate_append_singleton :
    fate server (events ++ [e]) x = (touch server x e).or (fate server events x) := by
  simp only [fate, List.reverse_append, List.reverse_singleton, List.singleton_append,
    List.findSome?_cons]
  cases touch server x e <;> rfl

theorem lastCarried_append_singleton :
    lastCarried (events ++ [e]) x = (e.carried x).or (lastCarried events x) := by
  simp only [lastCarried, List.reverse_append, List.reverse_singleton, List.singleton_append,
    List.findSome?_cons]
  cases e.carried x <;> rfl

theorem lastCarried_eq_none : lastCarried events x = none ↔ ∀ e ∈ events, e.carried x = none := by
  simp [lastCarried, List.findSome?_eq_none_iff]

/-- Without deletions, saves leave the last content and every timeline that was joined. -/
theorem foldl_saved (v : Option (α × Finset (Str × Str))) :
    events.foldl (saved timeline x) v = match lastCarried events x with
      | none => v
      | some c => some (c, (v.map Prod.snd).getD ∅ ∪
          if events.any (announces · x) then timeline.toFinset else ∅) := by
  induction events using List.reverseRecOn with
  | nil => rfl
  | append_singleton events e ih =>
    rw [List.foldl_append, List.foldl_cons, List.foldl_nil, ih, lastCarried_append_singleton,
      saved]
    cases hcarried : e.carried x with
    | none =>
      have hnot : e.announces x = false := by
        rw [Bool.eq_false_iff]
        intro hannounce
        have := carried_of_announces hannounce
        rw [hcarried] at this
        cases this
      simp [hnot]
    | some c =>
      cases hlast : lastCarried events x with
      | none =>
        have hnone : events.any (announces · x) = false := by
          rw [List.any_eq_false]
          intro f hf hannounce
          have := carried_of_announces hannounce
          rw [lastCarried_eq_none.1 hlast f hf] at this
          cases this
        simp [joined, List.any_append, hnone]
      | some c' =>
        simp only [Option.some_or, Option.map_some, Option.getD_some, joined, List.any_append,
          List.any_cons, List.any_nil, Bool.or_false]
        cases events.any (announces · x) <;> cases e.announces x <;> simp

theorem foldl_stepped_of_not_kills (h : events.any (kills server · x) = false)
    (v : Option (α × Finset (Str × Str))) :
    events.foldl (stepped timeline server x) v = events.foldl (saved timeline x) v := by
  induction events generalizing v with
  | nil => rfl
  | cons e events ih =>
    rw [List.any_cons, Bool.or_eq_false_iff] at h
    rw [List.foldl_cons, List.foldl_cons, ih h.2, stepped, h.1]
    rfl

theorem fate_none (h : fate server events x = none) : events.any (kills server · x) = false := by
  rw [List.any_eq_false]
  intro e he hkills
  have htouch := List.findSome?_eq_none_iff.1 h e (List.mem_reverse.2 he)
  simp [touch, hkills] at htouch

/-- What the events did last to a status decides whether it is stored. -/
theorem isSome_foldl_stepped {last : Option α} (h : fate server events x = some last)
    (v : Option (α × Finset (Str × Str))) :
    (events.foldl (stepped timeline server x) v).isSome = last.isSome := by
  induction events using List.reverseRecOn with
  | nil => cases h
  | append_singleton events e ih =>
    rw [List.foldl_append, List.foldl_cons, List.foldl_nil]
    rw [fate_append_singleton, touch] at h
    by_cases hkills : kills server e x
    · rw [if_pos hkills] at h
      rw [stepped, if_pos hkills]
      cases h
      rfl
    · rw [if_neg hkills] at h
      rw [stepped, if_neg hkills, saved]
      cases hcarried : e.carried x with
      | none =>
        rw [hcarried] at h
        exact ih h
      | some c =>
        rw [hcarried] at h
        cases h
        rfl

/-! #### What is shown -/

/-- An update of a status that is delivered as such writes the status. -/
theorem showed_eq_none_of_not_announces (h : e.announces x = false) :
    showed server x none e = none := by
  cases e <;> simp_all [showed, announces]

theorem foldl_showed_none (h : events.any (announces · x) = false) :
    events.foldl (showed server x) none = none := by
  induction events with
  | nil => rfl
  | cons e events ih =>
    rw [List.any_cons, Bool.or_eq_false_iff] at h
    rw [List.foldl_cons, showed_eq_none_of_not_announces h.1, ih h.2]

theorem showed_of_kills (h : kills server e x) (w : Option (Status α)) :
    showed server x w e = none := by
  cases e <;> simp_all [showed, kills]

theorem showed_of_not_carried (hkills : kills server e x = false) (h : e.carried x = none)
    (w : Option (Status α)) : showed server x w e = w := by
  cases e with
  | update s | statusUpdate s =>
    have hx : s.id ≠ x := by
      rintro rfl
      simp [carried, graph, Status.graph] at h
    simp [showed, hx]
  | delete id => rw [showed, hkills]; rfl
  | notification n | resync => rfl

/-- A status that is deleted and announced no more is not shown. -/
theorem foldl_showed_of_kills (hkills : events.any (kills server · x))
    (h : events.any (announces · x) = false) (w : Option (Status α)) :
    events.foldl (showed server x) w = none := by
  induction events generalizing w with
  | nil => cases hkills
  | cons e events ih =>
    rw [List.any_cons, Bool.or_eq_false_iff] at h
    rw [List.foldl_cons]
    by_cases he : kills server e x
    · rw [showed_of_kills he, foldl_showed_none h.2]
    · refine ih ?_ h.2 _
      rwa [List.any_cons, Bool.eq_false_iff.2 he, Bool.false_or] at hkills

theorem foldl_showed_of_killed (h : fate server events x = some none) (w : Option (Status α)) :
    events.foldl (showed server x) w = none := by
  induction events using List.reverseRecOn with
  | nil => cases h
  | append_singleton events e ih =>
    rw [List.foldl_append, List.foldl_cons, List.foldl_nil]
    rw [fate_append_singleton, touch] at h
    by_cases hkills : kills server e x
    · exact showed_of_kills hkills _
    · rw [if_neg hkills] at h
      cases hcarried : e.carried x with
      | none =>
        rw [hcarried] at h
        rw [ih h, showed_of_not_carried (Bool.eq_false_iff.2 hkills) hcarried]
      | some c =>
        rw [hcarried] at h
        cases h

end Local

/-! ### By identities -/

section Identities

variable {server : Server} {x y : Str}

theorem statusIdentity_inj : statusIdentity x = statusIdentity y ↔ x = y := List.append_right_inj _

/-- The events that have the identity of a status. -/
theorem eventIdentity_eq_status {e : ProcessedEvent α} :
    eventIdentity e = some (statusIdentity x) ↔
      (∃ s, s.id = x ∧ (e = update s ∨ e = statusUpdate s)) ∨ e = delete x := by
  cases e with
  | update s =>
    simp only [eventIdentity, Option.some.injEq, statusIdentity_inj, update.injEq, reduceCtorEq,
      or_false]
    constructor
    · exact fun h => ⟨s, h, rfl⟩
    · rintro ⟨t, h, rfl⟩
      exact h
  | statusUpdate s =>
    simp only [eventIdentity, Option.some.injEq, statusIdentity_inj, statusUpdate.injEq,
      reduceCtorEq, false_or, or_false]
    constructor
    · exact fun h => ⟨s, h, rfl⟩
    · rintro ⟨t, h, rfl⟩
      exact h
  | delete id => simp [eventIdentity, statusIdentity_inj]
  | notification n =>
    simp only [eventIdentity, Option.some.injEq, reduceCtorEq, or_self, and_false, exists_false,
      iff_false]
    intro h
    have hnotification : ("notification:".toList ++ n.id).head? = some 'n' := rfl
    have hstatus : (statusIdentity x).head? = some 's' := rfl
    rw [h, hstatus] at hnotification
    exact absurd hnotification (by decide)
  | resync => simp [eventIdentity]

/-- Folds over events only see those with an identity. -/
theorem foldl_identified {σ : Type} {f : σ → ProcessedEvent α → σ}
    (hf : ∀ s, f s .resync = s) (events : List (ProcessedEvent α)) (s : σ) :
    events.foldl f s = ((identified events).map Prod.snd).foldl f s := by
  induction events generalizing s with
  | nil => rfl
  | cons e events ih =>
    rw [List.foldl_cons, ih, ← List.singleton_append, identified_append, List.map_append,
      List.foldl_append]
    cases hid : eventIdentity e with
    | none =>
      cases e with
      | resync => rw [hf, identified_singleton_none hid, List.map_nil, List.foldl_nil]
      | _ => cases hid
    | some k => rw [identified_singleton_some hid, List.map_singleton, List.foldl_cons,
        List.foldl_nil]

/-- The events of a list by their identities. -/
def Keyed (l : List (Str × ProcessedEvent α)) : Prop :=
  ∀ entry ∈ l, eventIdentity entry.2 = some entry.1

theorem keyed_identified (events : List (ProcessedEvent α)) : Keyed (identified events) :=
  fun _ h => (mem_identified.1 h).2

theorem isSome_foldl_showed {events : List (ProcessedEvent α)}
    (hkills : events.any (kills server · x) = false) (w : Option (Status α)) :
    (events.foldl (showed server x) w).isSome = (w.isSome || events.any (announces · x)) := by
  induction events generalizing w with
  | nil => simp
  | cons e events ih =>
    rw [List.any_cons, Bool.or_eq_false_iff] at hkills
    rw [List.foldl_cons, ih hkills.2, List.any_cons, ← Bool.or_assoc]
    congr 1
    cases e with
    | update s => by_cases hx : s.id = x <;> simp [showed, announces, hx]
    | statusUpdate s => by_cases hx : s.id = x <;> cases w <;> simp [showed, announces, hx]
    | delete id =>
      rw [showed, hkills.1]
      simp [announces]
    | notification n | resync => simp [showed, announces]

/-- An event of another identity that does not take a status away leaves it shown as it is. -/
theorem showed_of_ne {e : ProcessedEvent α} (hkills : kills server e x = false)
    (hne : eventIdentity e ≠ some (statusIdentity x)) (w : Option (Status α)) :
    showed server x w e = w ∧ e.announces x = false := by
  rw [ne_eq, eventIdentity_eq_status] at hne
  cases e with
  | update s | statusUpdate s =>
    have hx : s.id ≠ x := fun hx => hne (.inl ⟨s, hx, by simp⟩)
    simp [showed, announces, hx]
  | delete id =>
    rw [showed, hkills]
    exact ⟨rfl, rfl⟩
  | notification n | resync => exact ⟨rfl, rfl⟩

/-- Without deletions, a status is shown as its last event has it, if it was shown or announced. -/
theorem foldl_showed_of_not_kills {l : List (Str × ProcessedEvent α)} (hl : Keyed l)
    (hkills : (l.map Prod.snd).any (kills server · x) = false) (w : Option (Status α)) :
    (l.map Prod.snd).foldl (showed server x) w =
      match OrderedMap.final l (statusIdentity x) with
      | some (update s) => some s
      | some (statusUpdate s) =>
        if w.isSome || (l.map Prod.snd).any (announces · x) then some s else none
      | _ => w := by
  induction l using List.reverseRecOn with
  | nil => rfl
  | append_singleton l entry ih =>
    have hl' : Keyed l := fun e he => hl e (List.mem_append_left _ he)
    have hentry : eventIdentity entry.2 = some entry.1 := hl entry (by simp)
    rw [List.map_append, List.any_append, Bool.or_eq_false_iff, List.map_singleton, List.any_cons,
      List.any_nil, Bool.or_false] at hkills
    have hsome := isSome_foldl_showed hkills.1 w
    rw [List.map_append, List.foldl_append, List.map_singleton, List.foldl_cons, List.foldl_nil,
      OrderedMap.final_append_singleton, List.any_append, List.any_cons, List.any_nil,
      Bool.or_false]
    by_cases hown : entry.1 = statusIdentity x
    · rw [if_pos hown]
      rw [hown, eventIdentity_eq_status] at hentry
      rcases hentry with ⟨s, hx, hs | hs⟩ | hs
      · simp [hs, showed, hx]
      · rw [hs]
        simp only [showed, hx, hsome, true_and, announces, Bool.or_false]
        split_ifs with hcase
        · rfl
        · rw [← Option.not_isSome_iff_eq_none, hsome]
          exact hcase
      · rw [hs] at hkills
        simp [kills] at hkills
    · rw [if_neg hown]
      have hne : eventIdentity entry.2 ≠ some (statusIdentity x) := by
        rw [hentry]
        exact fun h => hown (Option.some.inj h)
      obtain ⟨hsame, hnot⟩ := showed_of_ne hkills.2 hne
        ((l.map Prod.snd).foldl (showed server x) w)
      rw [hsame, hnot, Bool.or_false]
      exact ih hl' hkills.1

end Identities

/-! ### The slots of a micro-batch -/

section Slots

open OrderedMap (final firstIndex ofList)

variable {server : Server} {events : List (ProcessedEvent α)} {x k id : Str}
  {l : List (ProcessedEvent α)}

/-- The last event of each identity, at the place of the first. -/
def slots (events : List (ProcessedEvent α)) : List (ProcessedEvent α) :=
  (ofList (identified events)).entries.map Prod.snd

theorem mem_slots {e : ProcessedEvent α} :
    e ∈ slots events ↔ ∃ k, final (identified events) k = some e := by
  simp only [slots, List.mem_map, ← OrderedMap.get_ofList, OrderedMap.get_eq_some]
  constructor
  · rintro ⟨⟨k, e⟩, h, rfl⟩
    exact ⟨k, h⟩
  · rintro ⟨k, h⟩
    exact ⟨(k, e), h, rfl⟩

theorem mem_of_final_identified {e : ProcessedEvent α} (h : final (identified events) k = some e) :
    e ∈ events ∧ eventIdentity e = some k :=
  mem_identified.1 (OrderedMap.mem_of_final h)

theorem exists_final {e : ProcessedEvent α} (he : e ∈ events) (hk : eventIdentity e = some k) :
    ∃ f, final (identified events) k = some f := by
  rw [← Option.ne_none_iff_exists', ne_eq, OrderedMap.final_eq_none, not_not]
  exact List.mem_map_of_mem (mem_identified.2 ⟨he, hk⟩)

theorem keyed_entries : Keyed (ofList (identified events)).entries := fun _ h =>
  (mem_of_final_identified (OrderedMap.get_ofList.symm.trans (OrderedMap.get_eq_some.2 h))).2

/-- A deletion stays in its slot. -/
theorem final_of_delete (hterminal : Terminal events) (h : delete id ∈ events) :
    final (identified events) (statusIdentity id) = some (delete id) := by
  obtain ⟨f, hf⟩ := exists_final h rfl
  have hdelete := (hterminal _ f hf).2 ⟨delete id, h, rfl, rfl⟩
  rcases eventIdentity_eq_status.1 (mem_of_final_identified hf).2 with ⟨s, -, rfl | rfl⟩ | rfl
  · cases hdelete
  · cases hdelete
  · exact hf

theorem exists_delete_of_kills (h : l.any (kills server · x)) :
    ∃ id, delete id ∈ l ∧ (x = id ∨ server.reblogOf x = some id) := by
  obtain ⟨e, he, hkills⟩ := List.any_eq_true.1 h
  cases e with
  | delete id => exact ⟨id, he, by simpa [kills] using hkills⟩
  | _ => simp [kills] at hkills

theorem kills_of_delete (h : delete id ∈ l) (hid : x = id ∨ server.reblogOf x = some id) :
    l.any (kills server · x) :=
  List.any_eq_true.2 ⟨delete id, h, by simpa [kills] using hid⟩

theorem any_kills_slots (hterminal : Terminal events) :
    (slots events).any (kills server · x) = events.any (kills server · x) := by
  refine Bool.eq_iff_iff.2 ⟨fun h => ?_, fun h => ?_⟩
  · obtain ⟨id, hid, hkills⟩ := exists_delete_of_kills h
    obtain ⟨k, hk⟩ := mem_slots.1 hid
    exact kills_of_delete (mem_of_final_identified hk).1 hkills
  · obtain ⟨id, hid, hkills⟩ := exists_delete_of_kills h
    exact kills_of_delete (mem_slots.2 ⟨_, final_of_delete hterminal hid⟩) hkills

theorem any_announces_slots : (slots events).any (announces · x) ↔
    ∃ s, final (identified events) (statusIdentity x) = some (update s) := by
  rw [List.any_eq_true]
  constructor
  · rintro ⟨e, he, hannounces⟩
    obtain ⟨k, hk⟩ := mem_slots.1 he
    cases e with
    | update s =>
      obtain rfl : s.id = x := by simpa [announces] using hannounces
      obtain rfl : statusIdentity s.id = k := Option.some.inj (mem_of_final_identified hk).2
      exact ⟨s, hk⟩
    | _ => cases hannounces
  · rintro ⟨s, hs⟩
    have hid := (mem_of_final_identified hs).2
    refine ⟨update s, mem_slots.2 ⟨_, hs⟩, ?_⟩
    simpa [announces] using statusIdentity_inj.1 (Option.some.inj hid)

theorem lastCarried_slots : lastCarried (slots events) x = some c ↔
    ∃ k e, final (identified events) k = some e ∧ e.carried x = some c ∧
      ∀ k' e', final (identified events) k' = some e' → e'.carried x ≠ none →
        firstIndex (identified events) k' ≤ firstIndex (identified events) k := by
  rw [lastCarried, slots, ← List.map_reverse, List.findSome?_map]
  exact OrderedMap.findSome?_reverse_ofList

variable (server) in
/-- What a status must not meet in a micro-batch. -/
structure Harmless (events : List (ProcessedEvent α)) (x : Str) : Prop where
  /-- After it is deleted, no event carries it. -/
  gone : events.any (kills server · x) → fate server events x = some none
  /-- If it is not deleted, the version that came last is the one in the last slot with it. -/
  version : events.any (kills server · x) = false → ∀ c, lastCarried events x = some c →
    ∃ k e, final (identified events) k = some e ∧ e.carried x = some c ∧
      ∀ k' e', final (identified events) k' = some e' → e'.carried x ≠ none →
        firstIndex (identified events) k' ≤ firstIndex (identified events) k
  /-- If it is announced and not deleted, the last event of it announces it. -/
  announced : events.any (kills server · x) = false → events.any (announces · x) →
    ∃ s, final (identified events) (statusIdentity x) = some (update s)
  /-- If it is announced and boosts a status that is deleted, it came first. -/
  boost : ∀ y s, server.reblogOf x = some y → delete y ∈ events →
    final (identified events) (statusIdentity x) = some (update s) →
      firstIndex (identified events) (statusIdentity x) <
        firstIndex (identified events) (statusIdentity y)

/-- A harmless status is stored as one event at a time would store it. -/
theorem Harmless.saved_slots (hterminal : Terminal events) (h : Harmless server events x)
    (timeline : Option (Str × Str)) (v : Option (α × Finset (Str × Str))) :
    (if (slots events).any (kills server · x) then none
      else (slots events).foldl (saved timeline x) v) =
        events.foldl (stepped timeline server x) v := by
  rw [any_kills_slots hterminal]
  cases hkills : events.any (kills server · x) with
  | true =>
    refine (Option.not_isSome_iff_eq_none.1 ?_).symm
    simp [isSome_foldl_stepped (h.gone hkills)]
  | false =>
    rw [foldl_stepped_of_not_kills hkills, foldl_saved, foldl_saved, if_neg Bool.false_ne_true]
    have hannounces : (slots events).any (announces · x) = events.any (announces · x) := by
      refine Bool.eq_iff_iff.2 ⟨fun hslots => ?_, fun hevents => ?_⟩
      · obtain ⟨s, hs⟩ := any_announces_slots.1 hslots
        obtain ⟨hmem, hid⟩ := mem_of_final_identified hs
        refine List.any_eq_true.2 ⟨update s, hmem, ?_⟩
        simpa [announces] using statusIdentity_inj.1 (Option.some.inj hid)
      · exact any_announces_slots.2 (h.announced hkills hevents)
    rw [hannounces]
    cases hlast : lastCarried events x with
    | none =>
      have hslots : lastCarried (slots events) x = none := by
        rw [lastCarried_eq_none] at hlast ⊢
        intro e he
        obtain ⟨k, hk⟩ := mem_slots.1 he
        exact hlast e (mem_of_final_identified hk).1
      rw [hslots]
    | some c => rw [lastCarried_slots.2 (h.version hkills c hlast)]

/-- The entry of a status in the slots, once the entry that comes later is a deletion. -/
theorem foldl_showed_of_before {y : Str} (hterminal : Terminal events)
    (hreblog : server.reblogOf x = some y) (hdelete : delete y ∈ events)
    (hs : final (identified events) (statusIdentity x) = some (update s))
    (hlt : firstIndex (identified events) (statusIdentity x) <
      firstIndex (identified events) (statusIdentity y)) (w : Option (Status α)) :
    (slots events).foldl (showed server x) w = none := by
  obtain ⟨pre, mid, post, hsplit⟩ := OrderedMap.exists_split_of_lt
    (OrderedMap.get_ofList.trans hs)
    (OrderedMap.get_ofList.trans (final_of_delete hterminal hdelete)) hlt
  have hkills : kills server (delete y : ProcessedEvent α) x := by simp [kills, hreblog]
  have hpost : (post.map Prod.snd).any (announces · x) = false := by
    rw [List.any_eq_false]
    intro e he hannounces
    obtain ⟨⟨k, f⟩, hentry, rfl⟩ := List.mem_map.1 he
    have hk : eventIdentity f = some k := keyed_entries (k, f) (by rw [hsplit]; simp [hentry])
    cases f with
    | update t =>
      obtain rfl : t.id = x := by simpa [announces] using hannounces
      obtain rfl : statusIdentity t.id = k := Option.some.inj hk
      have hnodup := (ofList (identified events)).nodup
      rw [hsplit, List.append_assoc, List.map_append, List.nodup_append] at hnodup
      have hmem : statusIdentity t.id ∈ (mid ++ (statusIdentity y, delete y) :: post).map Prod.fst :=
        List.mem_map.2 ⟨(statusIdentity t.id, update t), by simp [hentry], rfl⟩
      exact absurd hmem (List.nodup_cons.1 hnodup.2.1).1
    | _ => cases hannounces
  rw [slots, hsplit, List.map_append, List.foldl_append, List.map_cons, List.foldl_cons,
    showed_of_kills hkills, foldl_showed_none hpost]

/-- A harmless status is shown as one event at a time would show it. -/
theorem Harmless.showed_slots (hterminal : Terminal events) (h : Harmless server events x)
    (w : Option (Status α)) :
    (slots events).foldl (showed server x) w = events.foldl (showed server x) w := by
  cases hkills : events.any (kills server · x) with
  | true =>
    rw [foldl_showed_of_killed (h.gone hkills)]
    by_cases hannounces : (slots events).any (announces · x)
    · obtain ⟨s, hs⟩ := any_announces_slots.1 hannounces
      obtain ⟨y, hy, rfl | hreblog⟩ := exists_delete_of_kills hkills
      · rw [final_of_delete hterminal hy] at hs
        cases hs
      · exact foldl_showed_of_before hterminal hreblog hy hs (h.boost y s hreblog hy hs) w
    · refine foldl_showed_of_kills ?_ (Bool.eq_false_iff.2 hannounces) w
      rwa [any_kills_slots hterminal]
  | false =>
    have hslots : (slots events).any (kills server · x) = false := by
      rwa [any_kills_slots hterminal]
    have hevents : ((identified events).map Prod.snd).any (kills server · x) = false := by
      rw [List.any_eq_false] at hkills ⊢
      intro e he
      obtain ⟨⟨k, f⟩, hf, rfl⟩ := List.mem_map.1 he
      exact hkills f (mem_identified.1 hf).1
    rw [foldl_identified (fun _ => rfl) events, slots,
      foldl_showed_of_not_kills keyed_entries hslots,
      foldl_showed_of_not_kills (keyed_identified events) hevents, OrderedMap.final_entries,
      OrderedMap.get_ofList]
    cases hannounces : ((identified events).map Prod.snd).any (announces · x) with
    | true =>
      obtain ⟨s, hs⟩ := h.announced hkills (by
        obtain ⟨e, he, hx⟩ := List.any_eq_true.1 hannounces
        obtain ⟨⟨k, f⟩, hf, rfl⟩ := List.mem_map.1 he
        exact List.any_eq_true.2 ⟨f, (mem_identified.1 hf).1, hx⟩)
      rw [hs]
    | false =>
      have hnone : ((ofList (identified events)).entries.map Prod.snd).any (announces · x) =
          false := by
        rw [List.any_eq_false] at hannounces ⊢
        intro e he
        obtain ⟨k, hk⟩ := mem_slots.1 he
        exact hannounces e (List.mem_map.2 ⟨_, OrderedMap.mem_of_final hk, rfl⟩)
      rw [hnone]

end Slots

/-! ### Faithful micro-batches -/

section Faithfulness

open OrderedMap (final firstIndex ofList)

variable (server : Server) (stream : Stream) (serde : Serde α) (raw : List StreamEvent)

/-- Whatever was stored and shown before, the micro-batch leaves what its events leave one at a
time. -/
def Faithful : Prop :=
  ∀ state : State α, state.1.Obeys server → Shown.Obeys server state.2 →
    handleBatch stream serde state raw = oneByOne stream serde state raw

variable {server stream serde raw}

theorem mem_of_mem_foldl_heed {events kept : List (ProcessedEvent α)} {e : ProcessedEvent α}
    (h : e ∈ events.foldl heed kept) : e ∈ kept ∨ e ∈ events := by
  induction events generalizing kept with
  | nil => exact .inl h
  | cons f events ih =>
    rcases ih h with hkept | hevents
    · rw [heed] at hkept
      split_ifs at hkept
      · exact .inl hkept
      · rcases List.mem_append.1 hkept with hkept | hf
        · exact .inl hkept
        · exact .inr (List.mem_cons.2 (.inl (List.mem_singleton.1 hf)))
    · exact .inr (List.mem_cons_of_mem _ hevents)

theorem obeys_heeded (h : ∀ e ∈ raw.filterMap (parseStreamEvent serde), e.Obeys server) :
    ∀ e ∈ heeded serde raw, e.Obeys server := fun e he =>
  (mem_of_mem_foldl_heed he).elim (fun hnil => by cases hnil) (h e)

theorem slots_heeded : (identified (receiveMicroBatch serde raw)).map Prod.snd =
    slots (heeded serde raw) := by
  rw [identified_receiveMicroBatch, slots]

theorem obeys_receiveMicroBatch
    (h : ∀ e ∈ raw.filterMap (parseStreamEvent serde), e.Obeys server) :
    ∀ e ∈ receiveMicroBatch serde raw, e.Obeys server := by
  intro e he
  cases hid : eventIdentity e with
  | none =>
    cases e with
    | resync => exact fun s hs => by cases hs
    | _ => cases hid
  | some k =>
    have hslot : e ∈ slots (heeded serde raw) := by
      rw [← slots_heeded]
      exact List.mem_map.2 ⟨_, mem_identified.2 ⟨he, hid⟩, rfl⟩
    obtain ⟨k', hk'⟩ := mem_slots.1 hslot
    exact obeys_heeded h e (mem_of_final_identified hk').1

theorem any_kills_receiveMicroBatch (x : Str) :
    (receiveMicroBatch serde raw).any (kills server · x) =
      (slots (heeded serde raw)).any (kills server · x) := by
  rw [← slots_heeded]
  refine Bool.eq_iff_iff.2 ⟨fun h => ?_, fun h => ?_⟩
  · obtain ⟨id, hid, hkills⟩ := exists_delete_of_kills h
    exact kills_of_delete (List.mem_map.2 ⟨_, mem_identified.2 ⟨hid, rfl⟩, rfl⟩) hkills
  · obtain ⟨e, he, hkills⟩ := List.any_eq_true.1 h
    obtain ⟨⟨k, f⟩, hf, rfl⟩ := List.mem_map.1 he
    exact List.any_eq_true.2 ⟨f, (mem_identified.1 hf).1, hkills⟩

variable (stream) in
/-- What a micro-batch leaves of one status. -/
theorem handleBatch_spec {state : State α} (hstore : state.1.Obeys server)
    (hshown : Shown.Obeys server state.2)
    (h : ∀ e ∈ raw.filterMap (parseStreamEvent serde), e.Obeys server) :
    (handleBatch stream serde state raw).1.Obeys server ∧
      (∀ x, (handleBatch stream serde state raw).1.entry x =
        if (slots (heeded serde raw)).any (kills server · x) then none
        else (slots (heeded serde raw)).foldl (saved stream.timeline x) (state.1.entry x)) ∧
      ∀ x, (handleBatch stream serde state raw).2 x =
        (slots (heeded serde raw)).foldl (showed server x) (state.2 x) := by
  have hobeys := obeys_receiveMicroBatch h
  obtain ⟨hafter, hentry⟩ := entry_persist hstore stream hobeys
  obtain ⟨-, hshow⟩ := shown_deliver hshown stream hobeys
  refine ⟨hafter, fun x => ?_, fun x => ?_⟩
  · rw [handleBatch, handle, hentry x, any_kills_receiveMicroBatch,
      foldl_identified (fun _ => rfl) (receiveMicroBatch serde raw), slots_heeded]
  · rw [handleBatch, handle]
    dsimp only
    rw [hshow x, foldl_identified (fun _ => rfl) (receiveMicroBatch serde raw),
      slots_heeded]

theorem faithful_of_harmless
    (h : ∀ e ∈ raw.filterMap (parseStreamEvent serde), e.Obeys server)
    (hharmless : ∀ x, Harmless server (heeded serde raw) x) :
    Faithful server stream serde raw := by
  intro state hstore hshown
  have hterminal := terminal_heeded serde raw
  obtain ⟨hafter, hentry, hshow⟩ := handleBatch_spec stream hstore hshown h
  obtain ⟨hafter', hentry', hshow'⟩ := handle_one_by_one stream hstore hshown (obeys_heeded h)
  refine Prod.ext (hafter.ext hafter' fun x => ?_) (funext fun x => ?_)
  · rw [hentry x, (hharmless x).saved_slots hterminal]
    exact (hentry' x).symm
  · rw [hshow x, (hharmless x).showed_slots hterminal]
    exact (hshow' x).symm

/-- Nothing stored and nothing shown. -/
def emptyState : State α := (⟨fun _ => none, fun _ => ∅⟩, fun _ => none)

theorem obeys_emptyState (server : Server) :
    (emptyState : State α).1.Obeys server ∧ Shown.Obeys server (emptyState : State α).2 :=
  ⟨⟨nofun, nofun, nofun, fun _ _ => rfl⟩, nofun⟩

theorem foldl_showed_of_forall_ne {events : List (ProcessedEvent α)} {x : Str}
    (h : ∀ e ∈ events, kills server e x = false ∧ eventIdentity e ≠ some (statusIdentity x))
    (w : Option (Status α)) : events.foldl (showed server x) w = w := by
  induction events with
  | nil => rfl
  | cons e events ih =>
    obtain ⟨hkills, hne⟩ := h e List.mem_cons_self
    rw [List.foldl_cons, (showed_of_ne hkills hne w).1]
    exact ih fun f hf => h f (List.mem_cons_of_mem _ hf)

/-- A boost that comes after a deletion of its original is shown nevertheless. -/
theorem foldl_showed_of_after {events : List (ProcessedEvent α)} {x y : Str}
    (hterminal : Terminal events) (hreblog : server.reblogOf x = some y)
    (hdelete : delete y ∈ events)
    (hs : final (identified events) (statusIdentity x) = some (update s))
    (hle : firstIndex (identified events) (statusIdentity y) ≤
      firstIndex (identified events) (statusIdentity x)) (w : Option (Status α)) :
    (slots events).foldl (showed server x) w = some s := by
  have hy := final_of_delete hterminal hdelete
  have hlt : firstIndex (identified events) (statusIdentity y) <
      firstIndex (identified events) (statusIdentity x) := by
    refine lt_of_le_of_ne hle fun heq => ?_
    have hkey : statusIdentity y = statusIdentity x :=
      (OrderedMap.firstIndex_inj (List.mem_map_of_mem (OrderedMap.mem_of_final hy))).1 heq
    rw [hkey, hs] at hy
    cases hy
  obtain ⟨pre, mid, post, hsplit⟩ := OrderedMap.exists_split_of_lt
    (OrderedMap.get_ofList.trans hy) (OrderedMap.get_ofList.trans hs) hlt
  have hnodup := (ofList (identified events)).nodup
  rw [hsplit, List.append_assoc, List.map_append, List.nodup_append, List.cons_append,
    List.map_cons, List.nodup_cons, List.map_append, List.map_cons, List.nodup_append,
    List.nodup_cons] at hnodup
  have hpost : ∀ e ∈ post.map Prod.snd,
      kills server e x = false ∧ eventIdentity e ≠ some (statusIdentity x) := by
    intro e he
    obtain ⟨⟨k, f⟩, hentry, rfl⟩ := List.mem_map.1 he
    have hkey : k ∈ post.map Prod.fst := List.mem_map_of_mem hentry
    have hk : eventIdentity f = some k := keyed_entries (k, f) (by rw [hsplit]; simp [hentry])
    have hne : eventIdentity f ≠ some (statusIdentity x) := by
      rw [hk]
      rintro heq
      exact hnodup.2.1.2.2.1.1 (Option.some.inj heq ▸ hkey)
    refine ⟨?_, hne⟩
    rw [Bool.eq_false_iff]
    intro hkills
    cases f with
    | delete id =>
      obtain rfl : statusIdentity id = k := Option.some.inj hk
      rcases (by simpa [kills] using hkills : x = id ∨ server.reblogOf x = some id) with rfl | hid
      · exact hne rfl
      · obtain rfl : y = id := Option.some.inj (hreblog.symm.trans hid)
        exact hnodup.2.1.1 (List.mem_append_right _ (List.mem_cons_of_mem _ hkey))
    | _ => cases hkills
  have hx : s.id = x := by
    simpa [eventIdentity, statusIdentity_inj] using (mem_of_final_identified hs).2
  rw [slots, hsplit, List.map_append, List.foldl_append, List.map_cons, List.foldl_cons,
    foldl_showed_of_forall_ne hpost, showed, if_pos hx]

theorem harmless_of_faithful
    (h : ∀ e ∈ raw.filterMap (parseStreamEvent serde), e.Obeys server)
    (hfaithful : Faithful server stream serde raw) (x : Str) :
    Harmless server (heeded serde raw) x := by
  have hterminal := terminal_heeded serde raw
  obtain ⟨hstore, hshown⟩ := @obeys_emptyState α server
  obtain ⟨-, hentry, hshow⟩ := handleBatch_spec stream hstore hshown h
  obtain ⟨-, hentry', hshow'⟩ := handle_one_by_one stream hstore hshown
    (obeys_heeded h)
  have hsame := hfaithful emptyState hstore hshown
  have hstored : (if (slots (heeded serde raw)).any (kills server · x) then none
      else (slots (heeded serde raw)).foldl (saved stream.timeline x) none) =
        (heeded serde raw).foldl (stepped stream.timeline server x) none := by
    have hx := hentry x
    rw [hsame] at hx
    exact hx.symm.trans (hentry' x)
  have hdelivered : (slots (heeded serde raw)).foldl (showed server x) none =
      (heeded serde raw).foldl (showed server x) none := by
    have hx := hshow x
    rw [hsame] at hx
    exact hx.symm.trans (hshow' x)
  generalize heeded serde raw = events at hterminal hstored hdelivered ⊢
  rw [any_kills_slots hterminal] at hstored
  have hgone : events.any (kills server · x) → fate server events x = some none := by
    intro hkills
    rw [if_pos hkills] at hstored
    cases hfate : fate server events x with
    | none =>
      rw [fate_none hfate] at hkills
      cases hkills
    | some last =>
      cases last with
      | none => rfl
      | some c =>
        have hkept := congrArg Option.isSome hstored
        rw [isSome_foldl_stepped hfate] at hkept
        cases hkept
  refine ⟨hgone, fun hkills c hlast => ?_, fun hkills hannounces => ?_,
    fun y s hreblog hdelete hs => ?_⟩
  · rw [hkills, if_neg Bool.false_ne_true, foldl_stepped_of_not_kills hkills, foldl_saved,
      foldl_saved, hlast] at hstored
    refine lastCarried_slots.1 ?_
    cases hslots : lastCarried (slots events) x with
    | none =>
      rw [hslots] at hstored
      cases hstored
    | some c' =>
      rw [hslots] at hstored
      rw [(Prod.mk.inj (Option.some.inj hstored)).1]
  · have hsome := isSome_foldl_showed hkills (none : Option (Status α))
    have hslots : (slots events).any (kills server · x) = false := by
      rwa [any_kills_slots hterminal]
    rw [← hdelivered, isSome_foldl_showed hslots, hannounces] at hsome
    exact any_announces_slots.1 (by simpa using hsome)
  · by_contra hnot
    have hkills := kills_of_delete hdelete (.inr hreblog)
    rw [foldl_showed_of_after hterminal hreblog hdelete hs (not_lt.1 hnot),
      foldl_showed_of_killed (hgone hkills)] at hdelivered
    cases hdelivered

end Faithfulness

/-- A micro-batch leaves what its events leave one at a time, whatever was stored and shown
before, exactly if every status is harmless in it. -/
theorem coalescing_faithful_iff (server : Server) (stream : Stream) (serde : Serde α)
    (raw : List StreamEvent)
    (h : ∀ e ∈ raw.filterMap (parseStreamEvent serde), e.Obeys server) :
    Faithful server stream serde raw ↔ ∀ x, Harmless server (heeded serde raw) x :=
  ⟨harmless_of_faithful h, faithful_of_harmless h⟩

/-! ### A status that is announced and then changed -/

def sampleServer : Server := ⟨fun _ => "2026-07-13T00:00:00Z", fun _ => "7", fun _ => none⟩

/-- The two versions of a post; the payloads are their numbers. -/
def sampleSerde : Serde ℕ where
  status payload :=
    if payload = "1".toList then some ⟨"x", "2026-07-13T00:00:00Z", "7", 1, none, none⟩
    else if payload = "2".toList then some ⟨"x", "2026-07-13T00:00:00Z", "7", 2, none, none⟩
    else none
  notification _ := none

def sampleStream : Stream := ⟨.user, "alpha.example", "alice@alpha.example"⟩

/-- A post is announced, and changed before the batch is handled. -/
def sampleRaw : List StreamEvent := [.update "1", .statusUpdate "2"]

theorem obeys_sampleRaw :
    ∀ e ∈ sampleRaw.filterMap (parseStreamEvent sampleSerde), e.Obeys sampleServer := by
  intro e he s hs
  have hparsed : sampleRaw.filterMap (parseStreamEvent sampleSerde) =
      [.update ⟨"x", "2026-07-13T00:00:00Z", "7", 1, none, none⟩,
        .statusUpdate ⟨"x", "2026-07-13T00:00:00Z", "7", 2, none, none⟩] := rfl
  rw [hparsed] at he
  simp only [List.mem_cons, List.not_mem_nil, or_false] at he
  rcases he with rfl | rfl <;> obtain rfl := List.mem_singleton.1 hs <;> exact ⟨rfl, rfl, rfl⟩

theorem coalescing_faithful_iff_sample :
    Faithful sampleServer sampleStream sampleSerde sampleRaw ↔
      ∀ x, Harmless sampleServer (heeded sampleSerde sampleRaw) x :=
  coalescing_faithful_iff sampleServer sampleStream sampleSerde sampleRaw obeys_sampleRaw

theorem not_coalescing_faithful :
    ¬ Faithful sampleServer sampleStream sampleSerde sampleRaw := fun h =>
  absurd (congrArg (fun state : State ℕ => state.1.timelineEntries "x")
    (h emptyState (obeys_emptyState _).1 (obeys_emptyState _).2)) (by decide)

end Awayuki.MicroBatch
