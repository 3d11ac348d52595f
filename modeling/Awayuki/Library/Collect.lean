import Mathlib.Tactic

/-!
# Collecting without repetitions

Items are put into a list one after another, each unless the list has something that equals it
already.  What counts as equal is a Boolean relation `same`, which need not be transitive: then
what is in the list depends on the order of the items.

* `mem_collect`, `mem_collect_of_split`, `exists_split_of_mem_collect`: what is in the list, and
  the place at which it came in;
* `has_collect_of_mem`: each item has an equal in the list;
* `eq_of_mem_collect`: two items that came in are not equal.
-/

namespace Collect

variable {α : Type} (same : α → α → Bool)

/-- Does the list have something that equals `x`? -/
def has (values : List α) (x : α) : Bool := values.any (same · x)

def insert (values : List α) (value : α) : List α :=
  if has same values value then values else values ++ [value]

def collect (base items : List α) : List α := items.foldl (insert same) base

variable {same} {base items before after values : List α} {x y : α}

theorem has_iff : has same values x = true ↔ ∃ v ∈ values, same v x = true := by
  simp [has, List.any_eq_true]

theorem has_mono (h : values ⊆ items) (hx : has same values x = true) :
    has same items x = true := by
  obtain ⟨v, hv, hvx⟩ := has_iff.1 hx
  exact has_iff.2 ⟨v, h hv, hvx⟩

/-! ### What is in the list -/

@[simp] theorem collect_nil : collect same base [] = base := rfl

@[simp] theorem collect_append :
    collect same base (before ++ after) = collect same (collect same base before) after := by
  simp [collect, List.foldl_append]

theorem collect_concat :
    collect same base (items ++ [x]) = insert same (collect same base items) x := by
  simp [collect, List.foldl_append]

theorem subset_insert : values ⊆ insert same values x := by
  unfold insert
  split
  · exact List.Subset.refl _
  · exact List.subset_append_left _ _

theorem base_subset_collect : base ⊆ collect same base items := by
  induction items using List.reverseRecOn with
  | nil => exact List.Subset.refl _
  | append_singleton items x ih =>
    rw [collect_concat]
    exact List.Subset.trans ih subset_insert

theorem collect_subset_append :
    collect same base before ⊆ collect same base (before ++ after) := by
  rw [collect_append]
  exact base_subset_collect

/-- The place at which something came into the list: nothing there equalled it. -/
theorem exists_split_of_mem_collect (h : x ∈ collect same base items) :
    x ∈ base ∨ ∃ before after, items = before ++ x :: after ∧
      has same (collect same base before) x = false := by
  induction items using List.reverseRecOn with
  | nil => exact Or.inl h
  | append_singleton items y ih =>
    have hkeep : x ∈ collect same base items → x ∈ base ∨ ∃ before after,
        items ++ [y] = before ++ x :: after ∧ has same (collect same base before) x = false := by
      intro hx
      rcases ih hx with hx | ⟨before, after, hsplit, hnew⟩
      · exact Or.inl hx
      · exact Or.inr ⟨before, after ++ [y], by simp [hsplit], hnew⟩
    rw [collect_concat, insert] at h
    by_cases hy : has same (collect same base items) y = true
    · rw [if_pos hy] at h
      exact hkeep h
    · rw [if_neg hy, List.mem_append, List.mem_singleton] at h
      rcases h with h | rfl
      · exact hkeep h
      · exact Or.inr ⟨items, [], rfl, by simpa using hy⟩

theorem mem_collect (h : x ∈ collect same base items) : x ∈ base ∨ x ∈ items := by
  rcases exists_split_of_mem_collect h with h | ⟨before, after, rfl, -⟩
  · exact Or.inl h
  · exact Or.inr (by simp)

theorem mem_collect_of_split (h : has same (collect same base before) x = false) :
    x ∈ collect same base (before ++ x :: after) := by
  have hin : x ∈ collect same base (before ++ [x]) := by
    rw [collect_concat, insert]
    simp [h]
  have happend : before ++ x :: after = (before ++ [x]) ++ after := by simp
  rw [happend]
  exact collect_subset_append hin

/-- An item came in, or something that equals it was there before. -/
theorem mem_or_has_of_split (same : α → α → Bool) (base : List α)
    (hitems : items = before ++ x :: after) :
    x ∈ collect same base items ∨ has same (collect same base before) x = true := by
  by_cases h : has same (collect same base before) x = true
  · exact Or.inr h
  · left
    rw [hitems]
    exact mem_collect_of_split (by simpa using h)

theorem has_collect_of_mem (base : List α) (hrefl : ∀ v, same v v = true) (h : x ∈ items) :
    has same (collect same base items) x = true := by
  obtain ⟨before, after, rfl⟩ := List.append_of_mem h
  rcases mem_or_has_of_split same base rfl with hx | hx
  · exact has_iff.2 ⟨x, hx, hrefl x⟩
  · exact has_mono collect_subset_append hx

/-! ### Members that came in -/

/-- The list is the base and what came in, which has no two equal members. -/
theorem collect_eq_append (same : α → α → Bool) (base items : List α) :
    ∃ added, collect same base items = base ++ added ∧
      (∀ x ∈ added, has same base x = false) ∧ added.Pairwise fun x y => same x y = false := by
  induction items using List.reverseRecOn with
  | nil => exact ⟨[], by simp⟩
  | append_singleton items y ih =>
    obtain ⟨added, hadded, hbase, hpair⟩ := ih
    rw [collect_concat, insert]
    split
    next => exact ⟨added, hadded, hbase, hpair⟩
    next hnew =>
      rw [hadded] at hnew
      have hnone : (∀ v ∈ base, same v y = false) ∧ ∀ v ∈ added, same v y = false := by
        simpa [has, or_imp, forall_and] using hnew
      refine ⟨added ++ [y], by simp [hadded], ?_, ?_⟩
      · intro x hx
        rcases List.mem_append.1 hx with hx | hx
        · exact hbase x hx
        · rw [List.mem_singleton.1 hx]
          simpa [has] using hnone.1
      · rw [List.pairwise_append]
        refine ⟨hpair, List.pairwise_singleton _ _, fun v hv w hw => ?_⟩
        rw [List.mem_singleton.1 hw]
        exact hnone.2 v hv

/-- Two members that equal each other, and of which the base has neither, are one. -/
theorem eq_of_mem_collect (hsymm : ∀ v w, same v w = same w v)
    (hx : x ∈ collect same base items) (hy : y ∈ collect same base items)
    (hxbase : x ∉ base) (hybase : y ∉ base) (hsame : same x y = true) : x = y := by
  obtain ⟨added, hadded, -, hpair⟩ := collect_eq_append same base items
  have hxadded : x ∈ added := by
    rw [hadded, List.mem_append] at hx
    exact hx.resolve_left hxbase
  have hyadded : y ∈ added := by
    rw [hadded, List.mem_append] at hy
    exact hy.resolve_left hybase
  by_contra hne
  have hsymmetric : Std.Symm fun x y => same x y = false :=
    ⟨fun v w h => (hsymm w v).trans h⟩
  have hdiffer := hpair.forall hxadded hyadded hne
  rw [hsame] at hdiffer
  exact Bool.noConfusion hdiffer

end Collect
