import Awayuki.Library.Keyed
import Mathlib.Data.List.Perm.Subperm
import Mathlib.Data.List.Sort

/-!
# Ranked groups

Rows of one group are shown as one row, the one of the highest rank; the rows that are shown are
listed by a key, the highest first.  A page may be made of the rows that were seen only.

* `shown`: the list;
* `mem_shown`, `nodup_shown`, `pairwise_shown`: the list has the best row of each group in the order
  of the keys;
* `take_eq_iff`, `take_succ_eq`: when two lists begin alike.
-/

namespace Ranked

variable {α κ R T : Type} [DecidableEq κ] [LinearOrder R] [LinearOrder T]
  {group : α → κ} {rank : α → R} {key : α → T} {rows : List α} {a b : α} {n : ℕ}

def shown (group : α → κ) (rank : α → R) (key : α → T) (rows : List α) : List α :=
  (Keyed.firsts group (rows.insertionSort fun a b => rank b ≤ rank a)).insertionSort
    fun a b => key b ≤ key a

/-- No row of its group has a higher rank. -/
structure Best (group : α → κ) (rank : α → R) (rows : List α) (a : α) : Prop where
  mem : a ∈ rows
  le : ∀ b ∈ rows, group b = group a → rank b ≤ rank a

theorem pairwise_rank (rank : α → R) (rows : List α) :
    (rows.insertionSort fun a b => rank b ≤ rank a).Pairwise fun a b => rank b ≤ rank a := by
  have : Std.Total fun a b : α => rank b ≤ rank a := ⟨fun a b => le_total _ _⟩
  have : IsTrans α fun a b => rank b ≤ rank a := ⟨fun a b c h h' => h'.trans h⟩
  exact List.pairwise_insertionSort _ _

theorem best_of_mem_shown (h : a ∈ shown group rank key rows) : Best group rank rows a := by
  have hfirst := (List.mem_insertionSort _).1 h
  refine ⟨(List.mem_insertionSort _).1 (Keyed.mem_of_mem_firsts hfirst), fun b hb hgroup => ?_⟩
  rcases Keyed.rel_of_mem_firsts (pairwise_rank rank rows) hfirst
    ((List.mem_insertionSort _).2 hb) hgroup with rfl | hle
  · exact le_rfl
  · exact hle

/-- Every group is shown. -/
theorem exists_mem_shown (hb : b ∈ rows) : ∃ a ∈ shown group rank key rows, group a = group b := by
  have hmem : b ∈ rows.insertionSort fun a b => rank b ≤ rank a := (List.mem_insertionSort _).2 hb
  obtain ⟨a, ha, hgroup⟩ : ∃ a ∈ Keyed.firsts group _, group a = group b :=
    Keyed.exists_mem_firsts hmem
  exact ⟨a, (List.mem_insertionSort _).2 ha, hgroup⟩

theorem mem_shown (hrank : ∀ a ∈ rows, ∀ b ∈ rows, rank a = rank b → a = b) :
    a ∈ shown group rank key rows ↔ Best group rank rows a := by
  refine ⟨best_of_mem_shown, fun hbest => ?_⟩
  obtain ⟨b, hb, hgroup⟩ : ∃ b ∈ shown group rank key rows, group b = group a :=
    exists_mem_shown hbest.mem
  have hbest' := best_of_mem_shown hb
  have heq : rank a = rank b :=
    le_antisymm (hbest'.le a hbest.mem hgroup.symm) (hbest.le b hbest'.mem hgroup)
  exact hrank a hbest.mem b hbest'.mem heq ▸ hb

theorem nodup_shown : ((shown group rank key rows).map group).Nodup := by
  have hperm : ((shown group rank key rows).map group).Perm
      ((Keyed.firsts group (rows.insertionSort fun a b => rank b ≤ rank a)).map group) :=
    (List.perm_insertionSort _ _).map group
  exact hperm.nodup_iff.2 Keyed.nodup_firsts

theorem pairwise_shown
    (hkey : ∀ a ∈ rows, ∀ b ∈ rows, key a = key b → group a = group b) :
    (shown group rank key rows).Pairwise fun a b => key b < key a := by
  have hgroups : (shown group rank key rows).Pairwise fun a b => group a ≠ group b :=
    List.pairwise_map.1 nodup_shown
  refine ((pairwise_rank key _).and hgroups).imp_of_mem fun {a b} ha hb h => ?_
  refine lt_of_le_of_ne h.1 fun heq => h.2 ?_
  exact hkey a (best_of_mem_shown ha).mem b (best_of_mem_shown hb).mem heq.symm

variable {rows' : List α}

/-- A row that is shown of all rows is shown of those that were seen, if it is one of them. -/
theorem mem_shown_of_subset (hrank : ∀ a ∈ rows, ∀ b ∈ rows, rank a = rank b → a = b)
    (hsub : rows' ⊆ rows) (ha : a ∈ shown group rank key rows) (hmem : a ∈ rows') :
    a ∈ shown group rank key rows' :=
  (mem_shown fun a ha b hb => hrank a (hsub ha) b (hsub hb)).2
    ⟨hmem, fun b hb => (best_of_mem_shown ha).le b (hsub hb)⟩

theorem length_shown_le (hsub : rows' ⊆ rows) :
    (shown group rank key rows').length ≤ (shown group rank key rows).length := by
  have hgroups :
      (shown group rank key rows').map group ⊆ (shown group rank key rows).map group := by
    intro k hk
    obtain ⟨b, hb, rfl⟩ := List.mem_map.1 hk
    obtain ⟨a, ha, hgroup⟩ : ∃ a ∈ shown group rank key rows, group a = group b :=
      exists_mem_shown (hsub (best_of_mem_shown hb).mem)
    exact hgroup ▸ List.mem_map_of_mem ha
  have hlength := (nodup_shown.subperm hgroups).length_le
  rwa [List.length_map, List.length_map] at hlength

/-! ### Lists that begin alike -/

variable {l l' : List α}

theorem nodup_of_pairwise (hl : l.Pairwise fun a b => key b < key a) : l.Nodup :=
  hl.imp fun h => ne_of_apply_ne key h.ne'

/-- A sorted list is the only one with its rows. -/
theorem eq_of_subset (hl : l.Pairwise fun a b => key b < key a)
    (hl' : l'.Pairwise fun a b => key b < key a) (hsub : l ⊆ l') (hlen : l'.length ≤ l.length) :
    l = l' := by
  have hperm := ((nodup_of_pairwise hl).subperm hsub).perm_of_length_le hlen
  exact hperm.eq_of_pairwise (fun a b _ _ h h' => absurd h (lt_asymm h')) hl hl'

/-- Keys that agree order the rows alike. -/
theorem shown_congr {key' : α → T} (hkeys : ∀ a ∈ rows, key a = key' a)
    (hkey : ∀ a ∈ rows, ∀ b ∈ rows, key a = key b → group a = group b) :
    shown group rank key rows = shown group rank key' rows := by
  have hkey' : ∀ a ∈ rows, ∀ b ∈ rows, key' a = key' b → group a = group b := by
    intro a ha b hb heq
    rw [← hkeys a ha, ← hkeys b hb] at heq
    exact hkey a ha b hb heq
  have hperm : (shown group rank key rows).Perm (shown group rank key' rows) :=
    (List.perm_insertionSort _ _).trans (List.perm_insertionSort _ _).symm
  have hsorted : (shown group rank key' rows).Pairwise fun a b => key b < key a := by
    refine (pairwise_shown hkey').imp_of_mem fun {a b} ha hb h => ?_
    rwa [hkeys a (best_of_mem_shown ha).mem, hkeys b (best_of_mem_shown hb).mem]
  exact eq_of_subset (pairwise_shown hkey) hsorted hperm.subset hperm.length_eq.ge

/-- Two sorted lists begin alike exactly if the second has the beginning of the first, and no other
row before its end. -/
theorem take_eq_iff (hl : l.Pairwise fun a b => key b < key a)
    (hl' : l'.Pairwise fun a b => key b < key a) (hlen : l'.length ≤ l.length) :
    l.take n = l'.take n ↔
      (∀ a ∈ l.take n, a ∈ l') ∧ ∀ b ∈ l', b ∉ l.take n → ∀ a ∈ l.take n, key b < key a := by
  have hsplit : (l'.take n ++ l'.drop n).Pairwise fun a b => key b < key a := by
    rwa [List.take_append_drop]
  obtain ⟨htake, -, hcross⟩ := List.pairwise_append.1 hsplit
  constructor
  · intro heq
    refine ⟨fun a ha => List.mem_of_mem_take (heq ▸ ha), fun b hb hnot a ha => ?_⟩
    rw [heq] at hnot ha
    have hdrop : b ∈ l'.drop n := by
      rw [← List.take_append_drop n l'] at hb
      exact (List.mem_append.1 hb).resolve_left hnot
    exact hcross a ha b hdrop
  · rintro ⟨hmem, hlast⟩
    refine eq_of_subset (hl.sublist (List.take_sublist n l)) htake (fun a ha => ?_) ?_
    · -- were the row after the beginning of the second list, that would be in the first one's
      by_contra hnot
      have hdrop : a ∈ l'.drop n := by
        have ha' := hmem a ha
        rw [← List.take_append_drop n l'] at ha'
        exact (List.mem_append.1 ha').resolve_left hnot
      have hsub : a :: l'.take n ⊆ l.take n := by
        refine List.cons_subset.2 ⟨ha, fun b hb => ?_⟩
        by_contra hb'
        have hlt := hlast b (List.mem_of_mem_take hb) hb' a ha
        exact lt_asymm hlt (hcross b hb a hdrop)
      have hnodup : (a :: l'.take n).Nodup :=
        List.nodup_cons.2 ⟨hnot, nodup_of_pairwise htake⟩
      have hlength := (hnodup.subperm hsub).length_le
      have hpos := List.length_pos_of_mem hdrop
      rw [List.length_cons, List.length_take, List.length_take] at hlength
      rw [List.length_drop] at hpos
      omega
    · rw [List.length_take, List.length_take]
      omega

/-- Lists that begin alike, and go on alike. -/
theorem take_succ_eq (hl : l.Pairwise fun a b => key b < key a)
    (hl' : l'.Pairwise fun a b => key b < key a) (hlen : l'.length ≤ l.length)
    (hmem : ∀ a ∈ l.take n, a ∈ l') (hnext : l[n]? = l'[n]?) :
    l.take (n + 1) = l'.take (n + 1) := by
  cases hrow : l[n]? with
  | none =>
    have hend := List.getElem?_eq_none_iff.1 hrow
    have hend' := List.getElem?_eq_none_iff.1 (hnext ▸ hrow)
    rw [List.take_of_length_le hend] at hmem
    rw [eq_of_subset hl hl' hmem hlen]
  | some a =>
    have hdrop (l : List α) (h : l[n]? = some a) : l.drop n = a :: l.drop (n + 1) := by
      obtain ⟨hn, ha⟩ := List.getElem?_eq_some_iff.1 h
      rw [List.drop_eq_getElem_cons hn, ha]
    have hfirst : l.take n = l'.take n := by
      refine eq_of_subset (hl.sublist (List.take_sublist n l))
        (hl'.sublist (List.take_sublist n l')) (fun b hb => ?_) ?_
      · -- the row that follows in the one list has the same rows before it in the other
        by_contra hnot
        have hafter : b ∈ l'.drop n := by
          have hb' := hmem b hb
          rw [← List.take_append_drop n l'] at hb'
          exact (List.mem_append.1 hb').resolve_left hnot
        have hlt : key a < key b := by
          have hsplit := hl
          rw [← List.take_append_drop n l, hdrop l hrow] at hsplit
          exact (List.pairwise_append.1 hsplit).2.2 b hb a List.mem_cons_self
        have hsplit := hl'.sublist (List.drop_sublist n l')
        rw [hdrop l' (hnext ▸ hrow)] at hafter hsplit
        rcases List.mem_cons.1 hafter with rfl | hafter
        · exact lt_irrefl _ hlt
        · exact lt_asymm hlt ((List.pairwise_cons.1 hsplit).1 b hafter)
      · have hn := (List.getElem?_eq_some_iff.1 hrow).1
        rw [List.length_take, List.length_take]
        omega
    rw [List.take_add_one, List.take_add_one, hfirst, hnext]

end Ranked
