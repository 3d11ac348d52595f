import Mathlib.Data.List.ReduceOption
import Awayuki.Stream.MicroBatch

/-!
# What coalescing leaves

A coalesced micro-batch holds the last event of each identity at the place of the first, as an
ordered map does.

* `identified`: the events with their identities; those without one change nothing;
* `Tracks`: the batch while it is received, beside the events that are not ignored;
* `identified_receiveMicroBatch`: what is handed on.
-/

namespace Awayuki.MicroBatch

open ProcessedEvent CoalescedBatch

variable {α : Type}

/-- The events that have an identity, with it. -/
def identified (events : List (ProcessedEvent α)) : List (Str × ProcessedEvent α) :=
  events.filterMap fun event => (eventIdentity event).map (·, event)

@[simp] theorem identified_nil : identified ([] : List (ProcessedEvent α)) = [] := rfl

theorem identified_append (events events' : List (ProcessedEvent α)) :
    identified (events ++ events') = identified events ++ identified events' :=
  List.filterMap_append

theorem mem_identified {events : List (ProcessedEvent α)} {k : Str} {e : ProcessedEvent α} :
    (k, e) ∈ identified events ↔ e ∈ events ∧ eventIdentity e = some k := by
  simp only [identified, List.mem_filterMap, Option.map_eq_some_iff, Prod.mk.injEq]
  constructor
  · rintro ⟨e', he', k', hk', rfl, rfl⟩
    exact ⟨he', hk'⟩
  · rintro ⟨he, hk⟩
    exact ⟨e, he, k, hk, rfl, rfl⟩

theorem identified_singleton_none {e : ProcessedEvent α} (h : eventIdentity e = none) :
    identified [e] = [] := by
  simp [identified, h]

theorem identified_singleton_some {e : ProcessedEvent α} {k : Str}
    (h : eventIdentity e = some k) : identified [e] = [(k, e)] := by
  simp [identified, h]

/-- Is a status with this identity deleted by one of the events? -/
def Deletes (events : List (ProcessedEvent α)) (k : Str) : Prop :=
  ∃ d ∈ events, isDelete d ∧ eventIdentity d = some k

/-- The last event of an identity is a deletion once there has been one. -/
def Terminal (events : List (ProcessedEvent α)) : Prop :=
  ∀ k e, OrderedMap.final (identified events) k = some e → (isDelete e ↔ Deletes events k)

theorem heed_eq (kept : List (ProcessedEvent α)) (e : ProcessedEvent α) {k : Str}
    (hk : eventIdentity e = some k) [Decidable (Deletes kept k)] :
    heed kept e = if Deletes kept k ∧ ¬ isDelete e then kept else kept ++ [e] := by
  rw [heed]
  congr 1
  simp [Deletes, hk]

theorem heed_resync {kept : List (ProcessedEvent α)} {e : ProcessedEvent α}
    (hk : eventIdentity e = none) : heed kept e = kept ++ [e] := by
  have hnot : (kept.any fun earlier =>
      isDelete earlier && eventIdentity earlier == eventIdentity e) = false := by
    rw [List.any_eq_false]
    intro d _
    rw [hk]
    cases d <;> simp [isDelete, eventIdentity]
  rw [heed, hnot]
  simp

/-- The batch holds the last of the events that are not ignored, at the places of the first. -/
structure Tracks (batch : CoalescedBatch α) (kept : List (ProcessedEvent α)) : Prop where
  indices : ∀ k i, batch.identityIndices k = some i ↔
    ∃ e, batch.events[i]? = some (some e) ∧ eventIdentity e = some k
  entries : identified batch.intoEvents = (OrderedMap.ofList (identified kept)).entries
  terminal : Terminal kept

namespace Tracks

variable {batch : CoalescedBatch α} {kept : List (ProcessedEvent α)} {e : ProcessedEvent α}
  {k : Str} {i : ℕ}

theorem new : Tracks (CoalescedBatch.new : CoalescedBatch α) [] where
  indices k i := by simp [CoalescedBatch.new]
  entries := rfl
  terminal k e h := by simp [OrderedMap.final] at h

/-- The slot of an identity holds the last event of it. -/
theorem final_of_index (h : Tracks batch kept) {f : ProcessedEvent α}
    (hf : batch.events[i]? = some (some f)) (hk : eventIdentity f = some k) :
    OrderedMap.final (identified kept) k = some f := by
  have hmem : f ∈ batch.intoEvents :=
    List.mem_filterMap.2 ⟨some f, List.mem_of_getElem? hf, rfl⟩
  rw [← OrderedMap.get_ofList, OrderedMap.get_eq_some, ← h.entries]
  exact mem_identified.2 ⟨hmem, hk⟩

theorem index_eq_none (h : Tracks batch kept) (hnone : batch.identityIndices k = none) :
    k ∉ (OrderedMap.ofList (identified kept)).keys := by
  intro hkey
  rw [OrderedMap.keys, ← h.entries] at hkey
  obtain ⟨⟨k', f⟩, hmem, rfl⟩ := List.mem_map.1 hkey
  obtain ⟨hf, hk⟩ := mem_identified.1 hmem
  obtain ⟨slot, hslot, rfl⟩ := List.mem_filterMap.1 hf
  obtain ⟨j, hj⟩ := List.mem_iff_getElem?.1 hslot
  rw [(h.indices k' j).2 ⟨f, hj, hk⟩] at hnone
  cases hnone

theorem deletes_of_final (h : Tracks batch kept) {f : ProcessedEvent α}
    (hf : OrderedMap.final (identified kept) k = some f) : isDelete f ↔ Deletes kept k :=
  h.terminal k f hf

/-- An event that is kept stands for its identity. -/
theorem terminal_append (h : Terminal kept) (hk : eventIdentity e = some k)
    (hkeep : ¬ (Deletes kept k ∧ ¬ isDelete e)) : Terminal (kept ++ [e]) := by
  intro k' f hf
  rw [identified_append, identified_singleton_some hk, OrderedMap.final_append_singleton] at hf
  have hdeletes : Deletes (kept ++ [e]) k' ↔ Deletes kept k' ∨ isDelete e ∧ k = k' := by
    simp only [Deletes, List.mem_append, List.mem_singleton]
    constructor
    · rintro ⟨d, hd | rfl, hdel, hid⟩
      · exact .inl ⟨d, hd, hdel, hid⟩
      · exact .inr ⟨hdel, Option.some.inj (hk.symm.trans hid)⟩
    · rintro (⟨d, hd, hdel, hid⟩ | ⟨hdel, rfl⟩)
      · exact ⟨d, .inl hd, hdel, hid⟩
      · exact ⟨e, .inr rfl, hdel, hk⟩
  rw [hdeletes]
  split_ifs at hf with heq
  · obtain rfl := Option.some.inj hf
    subst heq
    tauto
  · rw [h k' f hf]
    tauto

theorem append (h : Tracks batch kept) (hk : eventIdentity e = some k)
    (hnone : batch.identityIndices k = none) :
    Tracks ⟨batch.events ++ [some e],
      Function.update batch.identityIndices k (some batch.events.length)⟩ (kept ++ [e]) where
  indices k' i := by
    dsimp only
    rw [Function.update_apply, List.getElem?_append]
    by_cases hi : i < batch.events.length
    · rw [if_pos hi, ← h.indices]
      by_cases hkey : k' = k
      · subst hkey
        rw [if_pos rfl, hnone]
        simp only [reduceCtorEq, iff_false, Option.some.injEq]
        omega
      · rw [if_neg hkey]
    · rw [if_neg hi]
      have hold : batch.identityIndices k' ≠ some i := by
        intro hindex
        obtain ⟨f, hf, -⟩ := (h.indices k' i).1 hindex
        exact hi (List.getElem?_eq_some_iff.1 hf).1
      by_cases hlen : i = batch.events.length
      · subst hlen
        by_cases hkey : k' = k
        · simp [hkey, hk]
        · rw [if_neg hkey]
          simp only [hold, Nat.sub_self, List.getElem?_cons_zero, Option.some.injEq, false_iff]
          rintro ⟨f, rfl, hf⟩
          exact hkey (Option.some.inj (hf.symm.trans hk))
      · have hbeyond : i - batch.events.length ≠ 0 := by omega
        obtain ⟨j, hj⟩ := Nat.exists_eq_succ_of_ne_zero hbeyond
        have hne : batch.events.length ≠ i := fun heq => hlen heq.symm
        by_cases hkey : k' = k <;> simp [hkey, hj, hold, hne]
  entries := by
    have hkey := h.index_eq_none hnone
    rw [identified_append, identified_singleton_some hk, OrderedMap.ofList_append_singleton,
      OrderedMap.entries_set_of_notMem hkey, ← h.entries, intoEvents, List.reduceOption_append,
      identified_append]
    exact congrArg _ (identified_singleton_some hk)
  terminal := by
    refine terminal_append h.terminal hk ?_
    rintro ⟨⟨d, hd, -, hid⟩, -⟩
    refine h.index_eq_none hnone (OrderedMap.mem_keys_ofList.2 ?_)
    exact List.mem_map.2 ⟨(k, d), mem_identified.2 ⟨hd, hid⟩, rfl⟩

theorem replace (h : Tracks batch kept) (hk : eventIdentity e = some k) {f : ProcessedEvent α}
    (hf : batch.events[i]? = some (some f)) (hfk : eventIdentity f = some k)
    (hkeep : ¬ (Deletes kept k ∧ ¬ isDelete e)) :
    Tracks { batch with events := batch.events.set i (some e) } (kept ++ [e]) where
  indices k' j := by
    rw [h.indices k' j]
    dsimp only
    by_cases hij : i = j
    · subst hij
      rw [List.getElem?_set_self (List.getElem?_eq_some_iff.1 hf).1, hf]
      simp [hk, hfk]
    · rw [List.getElem?_set_ne hij]
  entries := by
    have hkey : k ∈ (OrderedMap.ofList (identified kept)).keys := by
      rw [OrderedMap.mem_keys_ofList]
      exact List.mem_map.2 ⟨_, OrderedMap.mem_of_final (h.final_of_index hf hfk), rfl⟩
    have hnodup := (OrderedMap.ofList (identified kept)).nodup
    obtain ⟨hlt, hget⟩ := List.getElem?_eq_some_iff.1 hf
    have hsplit : batch.events =
        batch.events.take i ++ some f :: batch.events.drop (i + 1) := by
      rw [← hget, List.getElem_cons_drop, List.take_append_drop]
    have hset : batch.events.set i (some e) =
        batch.events.take i ++ some e :: batch.events.drop (i + 1) :=
      List.set_eq_take_append_cons_drop.trans (if_pos hlt)
    generalize batch.events.take i = pre, batch.events.drop (i + 1) = post at hsplit hset
    have hold : identified batch.intoEvents =
        identified pre.reduceOption ++ (k, f) :: identified post.reduceOption := by
      rw [intoEvents, hsplit, List.reduceOption_append, List.reduceOption_cons_of_some,
        identified_append, ← List.singleton_append, identified_append,
        identified_singleton_some hfk, List.singleton_append]
    have hnew : identified (batch.events.set i (some e)).reduceOption =
        identified pre.reduceOption ++ (k, e) :: identified post.reduceOption := by
      rw [hset, List.reduceOption_append, List.reduceOption_cons_of_some,
        identified_append, ← List.singleton_append, identified_append,
        identified_singleton_some hk, List.singleton_append]
    rw [identified_append, identified_singleton_some hk, OrderedMap.ofList_append_singleton,
      OrderedMap.entries_set_of_mem hkey, ← h.entries, hold]
    rw [← h.entries, hold, List.map_append, List.map_cons, List.nodup_append,
      List.nodup_cons] at hnodup
    have hother (l : List (Str × ProcessedEvent α)) (hl : k ∉ l.map Prod.fst) :
        (l.map fun entry => if entry.1 = k then (k, e) else entry) = l := by
      refine (List.map_congr_left fun entry hentry => ?_).trans (List.map_id l)
      rw [if_neg, id]
      rintro rfl
      exact hl (List.mem_map_of_mem hentry)
    rw [List.map_append, List.map_cons, if_pos rfl, hother, hother]
    · exact hnew
    · exact hnodup.2.1.1
    · exact fun hmem => hnodup.2.2 k hmem k List.mem_cons_self rfl
  terminal := terminal_append h.terminal hk hkeep

/-- One more event keeps the batch beside the events. -/
theorem pushEvent (h : Tracks batch kept) (e : ProcessedEvent α) :
    Tracks (batch.pushEvent e) (heed kept e) := by
  classical
  cases hk : eventIdentity e with
  | none =>
    rw [heed_resync hk, CoalescedBatch.pushEvent, hk]
    refine ⟨fun k i => ?_, ?_, ?_⟩
    · rw [h.indices, List.getElem?_append]
      by_cases hi : i < batch.events.length
      · rw [if_pos hi]
      · rw [if_neg hi, List.getElem?_eq_none (by omega)]
        simp only [reduceCtorEq, false_and, exists_false, false_iff, List.getElem?_singleton]
        rintro ⟨f, hf, hid⟩
        split_ifs at hf
        obtain rfl := Option.some.inj (Option.some.inj hf)
        rw [hk] at hid
        cases hid
    · rw [identified_append, identified_singleton_none hk, List.append_nil, ← h.entries, intoEvents,
        intoEvents, List.reduceOption_append, identified_append]
      exact List.append_right_eq_self.2 (identified_singleton_none hk)
    · intro k f hf
      rw [identified_append, identified_singleton_none hk, List.append_nil] at hf
      rw [h.terminal k f hf]
      simp only [Deletes, List.mem_append, List.mem_singleton]
      constructor
      · rintro ⟨d, hd, hdel⟩
        exact ⟨d, .inl hd, hdel⟩
      · rintro ⟨d, hd | rfl, hdel, hid⟩
        · exact ⟨d, hd, hdel, hid⟩
        · rw [hk] at hid
          cases hid
  | some k =>
    rw [heed_eq kept e hk, CoalescedBatch.pushEvent, hk]
    dsimp only
    cases hindex : batch.identityIndices k with
    | none =>
      rw [if_neg]
      · exact h.append hk hindex
      · rintro ⟨⟨d, hd, -, hid⟩, -⟩
        refine h.index_eq_none hindex (OrderedMap.mem_keys_ofList.2 ?_)
        exact List.mem_map.2 ⟨(k, d), mem_identified.2 ⟨hd, hid⟩, rfl⟩
    | some i =>
      obtain ⟨f, hf, hfk⟩ := (h.indices k i).1 hindex
      have hdeletes := h.deletes_of_final (h.final_of_index hf hfk)
      have hterminal : ((batch.events[i]?.join).any isDelete && !isDelete e) = true ↔
          Deletes kept k ∧ ¬ isDelete e := by
        rw [← hdeletes, hf]
        simp
      dsimp only
      by_cases hcase : Deletes kept k ∧ ¬ isDelete e
      · rw [if_pos hcase, if_pos (hterminal.2 hcase)]
        exact h
      · rw [if_neg hcase, if_neg (mt hterminal.1 hcase)]
        exact h.replace hk hf hfk hcase

theorem foldl (h : Tracks batch kept) (events : List (ProcessedEvent α)) :
    Tracks (events.foldl CoalescedBatch.pushEvent batch) (events.foldl heed kept) := by
  induction events generalizing batch kept with
  | nil => exact h
  | cons e events ih => exact ih (h.pushEvent e)

end Tracks

theorem foldl_push (serde : Serde α) (raw : List StreamEvent) (batch : CoalescedBatch α) :
    raw.foldl (push serde) batch =
      (raw.filterMap (parseStreamEvent serde)).foldl CoalescedBatch.pushEvent batch := by
  induction raw generalizing batch with
  | nil => rfl
  | cons event raw ih =>
    rw [List.foldl_cons, ih, push, List.filterMap_cons]
    cases parseStreamEvent serde event <;> rfl

theorem tracks_receiveMicroBatch (serde : Serde α) (raw : List StreamEvent) :
    Tracks (raw.foldl (push serde) .new) (heeded serde raw) := by
  rw [foldl_push, heeded]
  exact Tracks.new.foldl _

/-- What is handed on: the last event of each identity, at the place of the first. -/
theorem identified_receiveMicroBatch (serde : Serde α) (raw : List StreamEvent) :
    identified (receiveMicroBatch serde raw) =
      (OrderedMap.ofList (identified (heeded serde raw))).entries :=
  (tracks_receiveMicroBatch serde raw).entries

theorem terminal_heeded (serde : Serde α) (raw : List StreamEvent) :
    Terminal (heeded serde raw) :=
  (tracks_receiveMicroBatch serde raw).terminal

end Awayuki.MicroBatch
