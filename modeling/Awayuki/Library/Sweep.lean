import Awayuki.Library.OrderedMap

/-!
# Sweeps over a map

A sweep goes through keys and changes the value of each, looking at the values as they are by then.

* `revise`: one change;
* `get_sweep`: what a sweep does to one of its keys;
* `get_sweep_of_fixed`: values that every change leaves alone.
-/

namespace OrderedMap

variable {κ α : Type} [DecidableEq κ] {m : OrderedMap κ α} {k k' : κ} {a : α} {ks : List κ}
  {f : (κ → Option α) → α → α}

/-- Changes the value of a key, if it has one. -/
def revise (f : (κ → Option α) → α → α) (m : OrderedMap κ α) (k : κ) : OrderedMap κ α :=
  match m.get k with
  | none => m
  | some a => m.set k (f m.get a)

theorem get_revise : (m.revise f k).get k' =
    if k' = k then (m.get k).map (f m.get) else m.get k' := by
  unfold revise
  cases h : m.get k with
  | none =>
    show m.get k' = _
    split_ifs with hk
    · rw [hk, h]
      rfl
    · rfl
  | some a => rw [get_set, Option.map_some]

/-- Setting the value that is there changes nothing. -/
theorem set_of_get (h : m.get k = some a) : m.set k a = m := by
  have hmem : k ∈ m.entries.map Prod.fst := mem_keys_of_get h
  have hentries : (m.set k a).entries = m.entries := by
    rw [set, dif_pos hmem]
    refine (List.map_congr_left fun e he => ?_).trans (List.map_id m.entries)
    show (if e.1 = k then (k, a) else e) = e
    split_ifs with hk
    · exact List.inj_on_of_nodup_map m.nodup (get_eq_some.1 h) he hk.symm
    · rfl
  cases hset : m.set k a
  cases m
  rw [hset] at hentries
  cases hentries
  rfl

theorem get_sweep_of_not_mem (h : k ∉ ks) : (ks.foldl (revise f) m).get k = m.get k := by
  induction ks generalizing m with
  | nil => rfl
  | cons k' ks ih =>
    rw [List.mem_cons, not_or] at h
    obtain ⟨hne, hnot⟩ := h
    rw [List.foldl_cons, ih hnot, get_revise, if_neg hne]

/-- The value of a key is changed once, when those of the keys before it have been. -/
theorem get_sweep {before after : List κ} (h : (before ++ k :: after).Nodup) :
    ((before ++ k :: after).foldl (revise f) m).get k =
      (m.get k).map (f (before.foldl (revise f) m).get) := by
  obtain ⟨-, hafter, hdisjoint⟩ := List.nodup_append.1 h
  have hnot : k ∉ before := fun hmem => hdisjoint k hmem k List.mem_cons_self rfl
  rw [List.foldl_append, List.foldl_cons, get_sweep_of_not_mem (List.nodup_cons.1 hafter).1,
    get_revise, if_pos rfl, get_sweep_of_not_mem hnot]

/-- After a key has had its turn its value stays. -/
theorem get_sweep_of_mem_before {before after : List κ} (h : (before ++ after).Nodup)
    (hmem : k ∈ before) :
    ((before ++ after).foldl (revise f) m).get k = (before.foldl (revise f) m).get k := by
  obtain ⟨-, -, hdisjoint⟩ := List.nodup_append.1 h
  rw [List.foldl_append]
  exact get_sweep_of_not_mem fun hafter => hdisjoint k hmem k hafter rfl

/-- Values with a property that makes changes leave them alone, as long as the others with it are
left alone, stay throughout. -/
theorem get_sweep_of_fixed {P : α → Prop}
    (hf : ∀ get : κ → Option α, (∀ k a, m.get k = some a → P a → get k = some a) →
      ∀ a, P a → f get a = a)
    (h : m.get k = some a) (ha : P a) : (ks.foldl (revise f) m).get k = some a := by
  have hgo (m' : OrderedMap κ α) (hkept : ∀ k a, m.get k = some a → P a → m'.get k = some a) :
      (ks.foldl (revise f) m').get k = some a := by
    induction ks generalizing m' with
    | nil => exact hkept k a h ha
    | cons k' ks ih =>
      refine ih _ fun k a h ha => ?_
      rw [get_revise]
      split_ifs with hk
      · rw [← hk, hkept k a h ha, Option.map_some, hf m'.get hkept a ha]
      · exact hkept k a h ha
  exact hgo m fun _ _ h _ => h

/-- What no change touches stays. -/
theorem map_get_sweep {γ : Type} {g : α → γ} (hf : ∀ get a, g (f get a) = g a) :
    ((ks.foldl (revise f) m).get k).map g = (m.get k).map g := by
  induction ks generalizing m with
  | nil => rfl
  | cons k' ks ih =>
    rw [List.foldl_cons, ih, get_revise]
    split_ifs with hk
    · rw [hk, Option.map_map]
      exact congrArg (Option.map · _) (funext fun a => hf m.get a)
    · rfl

end OrderedMap
