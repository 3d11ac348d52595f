import Awayuki.Library.Places
import Mathlib.Data.List.Sort

/-!
# Listings

A listing sorts rows and takes the first of them.  The sort is stable: rows that compare as equal
stay in the order in which they were.

* `pairwise_mergeSort_stable`: the order of the sorted rows, ties included;
* `mem_take_iff`: a row is among the first exactly if few rows stand before it;
* `mem_take_mergeSort`: both together, counted on the rows as they were.
-/

namespace Listing

open List (Sublist)

variable {α : Type} [DecidableEq α] {le : α → α → Bool} {r : α → α → Prop} {l : List α}

/-- Rows that compare as equal stay in their order. -/
theorem pairwise_mergeSort_stable (htrans : ∀ a b c, le a b = true → le b c = true → le a c = true)
    (htotal : ∀ a b, (le a b || le b a) = true) (hl : l.Pairwise r) (hirrefl : ∀ a, ¬ r a a) :
    (l.mergeSort le).Pairwise fun a b => le a b = true ∧ (le b a = true → r a b) := by
  have hnodup : (l.mergeSort le).Nodup := by
    refine (List.mergeSort_perm l le).nodup_iff.2 (hl.imp fun hab hsame => ?_)
    exact hirrefl _ (hsame ▸ hab)
  have hplaces := Places.pairwise_idxOf hnodup
  rw [List.pairwise_iff_forall_sublist] at hplaces
  refine List.pairwise_iff_forall_sublist.2 fun {a b} hab => ?_
  refine ⟨List.pairwise_iff_forall_sublist.1 (List.pairwise_mergeSort htrans htotal l) hab,
    fun hge => ?_⟩
  have ha : a ∈ l := List.mem_mergeSort.1 (hab.subset (by simp))
  have hb : b ∈ l := List.mem_mergeSort.1 (hab.subset (by simp))
  -- were they the other way round before, they would be so still
  by_contra hnot
  have hba : Sublist [b, a] l := by
    obtain ⟨before, after, rfl⟩ := List.append_of_mem ha
    rcases List.mem_append.1 hb with hbefore | hafter
    · have hpair := (List.singleton_sublist.2 hbefore).append
        (List.singleton_sublist.2 (List.mem_cons_self (a := a) (l := after)))
      exact hpair
    · rcases List.mem_cons.1 hafter with rfl | hafter
      · exact absurd (hplaces hab) (lt_irrefl _)
      · have htail := (List.pairwise_append.1 hl).2.1
        exact absurd ((List.pairwise_cons.1 htail).1 b hafter) hnot
  have hsorted := List.pair_sublist_mergeSort htrans htotal hge hba
  exact lt_asymm (hplaces hab) (hplaces hsorted)

omit [DecidableEq α] in
/-- In a list ordered by a strict order, the first rows are those with few rows before them. -/
theorem mem_take_iff {before : α → α → Bool} (hl : l.Pairwise fun a b => before a b = true)
    (hasymm : ∀ a b, before a b = true → before b a = false) {a : α} (ha : a ∈ l) (n : ℕ) :
    a ∈ l.take n ↔ l.countP (before · a) < n := by
  have hirrefl : before a a = false := by
    cases h : before a a with
    | false => rfl
    | true => exact (hasymm a a h).symm.trans h ▸ rfl
  obtain ⟨init, rest, rfl⟩ := List.append_of_mem ha
  obtain ⟨-, hrest, hcross⟩ := List.pairwise_append.1 hl
  have hinit : init.countP (before · a) = init.length :=
    List.countP_eq_length.2 fun b hb => hcross b hb a List.mem_cons_self
  have htail : rest.countP (before · a) = 0 :=
    List.countP_eq_zero.2 fun b hb => by
      rw [hasymm a b ((List.pairwise_cons.1 hrest).1 b hb)]
      exact Bool.false_ne_true
  have hnot : a ∉ init := fun hmem => by
    rw [hcross a hmem a List.mem_cons_self] at hirrefl
    cases hirrefl
  rw [List.countP_append, List.countP_cons_of_neg (by simp [hirrefl]), hinit, htail,
    List.take_append, List.mem_append]
  constructor
  · rintro (hmem | hmem)
    · exact absurd (List.mem_of_mem_take hmem) hnot
    · by_contra hle
      rw [Nat.sub_eq_zero_of_le (by omega), List.take_zero] at hmem
      cases hmem
  · intro hlt
    right
    obtain ⟨m, hm⟩ : ∃ m, n - init.length = m + 1 := ⟨n - init.length - 1, by omega⟩
    rw [hm, List.take_succ_cons]
    exact List.mem_cons_self

/-- The first rows of a stable sort, by the number of rows that stand before them. -/
theorem mem_take_mergeSort (before : α → α → Bool)
    (htrans : ∀ a b c, le a b = true → le b c = true → le a c = true)
    (htotal : ∀ a b, (le a b || le b a) = true) (hl : l.Pairwise r) (hirrefl : ∀ a, ¬ r a a)
    (hbefore : ∀ a b, le a b = true → (le b a = true → r a b) → before a b = true)
    (hasymm : ∀ a b, before a b = true → before b a = false) {a : α} (ha : a ∈ l) (n : ℕ) :
    a ∈ (l.mergeSort le).take n ↔ l.countP (before · a) < n := by
  have hsorted := (pairwise_mergeSort_stable htrans htotal hl hirrefl).imp
    fun {a b} h => hbefore a b h.1 h.2
  rw [mem_take_iff hsorted hasymm (List.mem_mergeSort.2 ha), (List.mergeSort_perm l le).countP_eq]

end Listing
