import Mathlib.Tactic
import Mathlib.Data.List.Nodup

/-!
# Places in a list

A list without repetitions orders its elements.  Some of them are at hand; a hole is an element
that is not, between two that are.

* `Below`: is the second further down?
* `mem_window`: what a window of the list has, by places;
* `pairwise_idxOf`: places grow along the list;
* `Hole`: is something missing below an element and above one at hand?
-/

namespace Places

variable {α : Type} [DecidableEq α] {l : List α} {a b c m top : α} {held : Finset α}
  {place count : ℕ}

/-- Is the second element of the list further down than the first? -/
def Below (l : List α) (a b : α) : Prop := b ∈ l ∧ l.idxOf a < l.idxOf b

theorem Below.mem_left (h : Below l a b) : a ∈ l := by
  have hlt := List.idxOf_lt_length_iff.2 h.1
  exact List.idxOf_lt_length_iff.1 (h.2.trans hlt)

theorem below_cons (hnew : c ∉ l) (ha : a ∈ l) : Below (c :: l) a b ↔ Below l a b := by
  have hac : c ≠ a := fun h => hnew (h ▸ ha)
  unfold Below
  rw [List.mem_cons, List.idxOf_cons_ne _ hac]
  by_cases hb : c = b
  · subst hb
    simp [hnew]
  · rw [List.idxOf_cons_ne _ hb]
    constructor
    · rintro ⟨rfl | hmem, hlt⟩
      · exact absurd rfl hb
      · exact ⟨hmem, by omega⟩
    · rintro ⟨hmem, hlt⟩
      exact ⟨.inr hmem, by omega⟩

/-- Nothing is above the first element. -/
theorem not_below_head : ¬ Below (c :: l) a c := by
  rintro ⟨-, hlt⟩
  simp at hlt

/-- The elements from one place on, up to another. -/
theorem mem_window (hnodup : l.Nodup) : a ∈ (l.drop place).take count ↔
      a ∈ l ∧ place ≤ l.idxOf a ∧ l.idxOf a < place + count := by
  constructor
  · intro h
    obtain ⟨i, hi, rfl⟩ := List.mem_iff_getElem.1 h
    rw [List.length_take, List.length_drop] at hi
    rw [List.getElem_take, List.getElem_drop, hnodup.idxOf_getElem]
    exact ⟨List.getElem_mem _, by omega, by omega⟩
  · rintro ⟨hmem, hle, hlt⟩
    have hlength := List.idxOf_lt_length_iff.2 hmem
    refine List.mem_iff_getElem.2 ⟨l.idxOf a - place, ?_, ?_⟩
    · rw [List.length_take, List.length_drop]
      omega
    · rw [List.getElem_take, List.getElem_drop]
      have hplace : place + (l.idxOf a - place) = l.idxOf a := by omega
      simp only [hplace]
      exact List.getElem_idxOf hlength

theorem pairwise_idxOf (hnodup : l.Nodup) : l.Pairwise fun a b => l.idxOf a < l.idxOf b := by
  refine List.pairwise_iff_getElem.2 fun i j hi hj hij => ?_
  rwa [hnodup.idxOf_getElem, hnodup.idxOf_getElem]

/-- Is an element missing that is below this one and above one at hand? -/
def Missing (l : List α) (held : Finset α) (b m : α) : Prop :=
  Below l b m ∧ m ∉ held ∧ ∃ c ∈ held, Below l m c

def Hole (l : List α) (held : Finset α) (b : α) : Prop := ∃ m, Missing l held b m

theorem missing_cons (hnew : c ∉ l) (hb : b ∈ l) :
    Missing (c :: l) held b m ↔ Missing l held b m := by
  unfold Missing
  rw [below_cons hnew hb]
  refine and_congr_right fun hbm => and_congr_right fun _ => ?_
  refine exists_congr fun d => and_congr_right fun _ => ?_
  exact below_cons hnew hbm.1

/-- Another element on top is not below anything. -/
theorem missing_insert_head (hb : b ∈ c :: l) :
    Missing (c :: l) (insert c held) b m ↔ Missing (c :: l) held b m := by
  unfold Missing
  refine and_congr_right fun hbm => ?_
  have hmc : m ≠ c := by
    rintro rfl
    exact not_below_head hbm
  rw [Finset.mem_insert, not_or]
  constructor
  · rintro ⟨⟨-, hm⟩, d, hd, hmd⟩
    rcases Finset.mem_insert.1 hd with rfl | hd
    · exact absurd hmd not_below_head
    · exact ⟨hm, d, hd, hmd⟩
  · rintro ⟨hm, d, hd, hmd⟩
    exact ⟨⟨hmc, hm⟩, d, Finset.mem_insert_of_mem hd, hmd⟩

/-- What is missing when a window is at hand is below it, or was missing above it. -/
theorem missing_window (hnodup : l.Nodup)
    (htop : place = 0 ∨ top ∈ held ∧ top ∈ l ∧ place = l.idxOf top + 1)
    (h : Missing l (held ∪ ((l.drop place).take count).toFinset) b m) : place + count ≤ l.idxOf m ∨
      place = l.idxOf top + 1 ∧ l.idxOf m < l.idxOf top ∧ Missing l held b m := by
  obtain ⟨hbm, hm, c, hc, hmc⟩ := h
  rw [Finset.mem_union, List.mem_toFinset, not_or, mem_window hnodup] at hm
  obtain ⟨hheld, hwindow⟩ := hm
  by_cases hplace : place + count ≤ l.idxOf m
  · exact .inl hplace
  · have habove : l.idxOf m < place := by
      by_contra hnot
      exact hwindow ⟨hbm.1, by omega, by omega⟩
    rcases htop with rfl | ⟨htop, hmem, rfl⟩
    · omega
    · have hne : l.idxOf m ≠ l.idxOf top := fun heq => by
        rw [List.idxOf_inj hbm.1] at heq
        exact hheld (heq ▸ htop)
      have hlt : l.idxOf m < l.idxOf top := by omega
      exact .inr ⟨rfl, hlt, hbm, hheld, top, htop, hmem, hlt⟩

end Places
