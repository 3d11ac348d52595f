import Mathlib.Data.List.Sort
import Awayuki.Library.Cursor

/-!
# Lists that descend

Entries with different keys, sorted from the greatest to the least.

* `descending`: sorting; `pairwise_descending`, `descending_filter`;
* `advances_below`: what is below an entry that is read is what comes after it.
-/

namespace Descending

variable {α κ : Type} [LinearOrder κ] {key : α → κ} {entries : List α}

def descending (key : α → κ) (entries : List α) : List α :=
  entries.insertionSort fun a b => key b ≤ key a

theorem perm_descending : (descending key entries).Perm entries := List.perm_insertionSort _ _

theorem mem_descending {a : α} : a ∈ descending key entries ↔ a ∈ entries :=
  perm_descending.mem_iff

theorem pairwise_descending (h : (entries.map key).Nodup) :
    (descending key entries).Pairwise fun a b => key b < key a := by
  have : Std.Total fun a b : α => key b ≤ key a := ⟨fun a b => le_total _ _⟩
  have : IsTrans α fun a b => key b ≤ key a := ⟨fun a b c h h' => h'.trans h⟩
  have hsorted := List.pairwise_insertionSort (fun a b : α => key b ≤ key a) entries
  have hkeys : ((descending key entries).map key).Nodup := (perm_descending.map _).nodup_iff.2 h
  have hne : (descending key entries).Pairwise fun a b => key a ≠ key b :=
    List.pairwise_map.1 hkeys
  exact (hsorted.and hne).imp fun ⟨hle, hne⟩ => lt_of_le_of_ne hle hne.symm

/-- Entries that descend have one order. -/
theorem eq_of_pairwise {entries' : List α} (h : entries.Pairwise fun a b => key b < key a)
    (h' : entries'.Pairwise fun a b => key b < key a) (hmem : ∀ a, a ∈ entries ↔ a ∈ entries') :
    entries = entries' := by
  have hne : ∀ {a b : α}, key b < key a → a ≠ b := by
    rintro a b hlt rfl
    exact lt_irrefl _ hlt
  have hnodup : entries.Nodup := h.imp hne
  have hnodup' : entries'.Nodup := h'.imp hne
  refine ((List.perm_ext_iff_of_nodup hnodup hnodup').2 hmem).eq_of_pairwise ?_ h h'
  exact fun a b _ _ hlt hgt => absurd hlt hgt.asymm

/-- Entries are sorted and selected in either order. -/
theorem descending_filter (h : (entries.map key).Nodup) (p : α → Bool) :
    descending key (entries.filter p) = (descending key entries).filter p := by
  refine eq_of_pairwise (pairwise_descending (h.sublist (List.filter_sublist.map _)))
    ((pairwise_descending h).filter _) fun a => ?_
  rw [mem_descending, List.mem_filter, List.mem_filter, mem_descending]

/-- Below an entry that is read from what is below a bound comes what is after it. -/
theorem advances_below {γ : Type} {next : α → γ} {bound : γ → Option κ}
    (hnext : ∀ a, bound (next a) = some (key a)) (p : α → Bool)
    (h : entries.Pairwise fun a b => key b < key a) :
    Cursor.Advances next fun c =>
      entries.filter fun a => p a && (bound c).all fun limit => key a < limit := by
  intro c before x after hleft
  dsimp only at hleft ⊢
  have hx : x ∈ before ++ x :: after := List.mem_append_right _ List.mem_cons_self
  rw [← hleft] at hx
  have hbound := (List.mem_filter.1 hx).2
  rw [Bool.and_eq_true] at hbound
  have hsorted : (before ++ x :: after).Pairwise fun a b => key b < key a := hleft ▸ h.filter _
  rw [← Cursor.filter_after hsorted, ← hleft, List.filter_filter]
  refine List.filter_congr fun a _ => ?_
  rw [hnext, Bool.eq_iff_iff]
  simp only [Option.all_some, Bool.and_eq_true, decide_eq_true_eq]
  constructor
  · rintro ⟨hp, hlt⟩
    refine ⟨hlt, hp, (Option.all_eq_true _ _).2 fun limit hlimit => ?_⟩
    have hle := (Option.all_eq_true _ _).1 hbound.2 limit hlimit
    rw [decide_eq_true_eq] at hle ⊢
    exact hlt.trans hle
  · rintro ⟨hlt, hp, -⟩
    exact ⟨hp, hlt⟩

end Descending
