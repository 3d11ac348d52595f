import Mathlib.Data.List.Sort
import Mathlib.Data.Prod.Lex
import Awayuki.Db.Models

/-!
# The order of the statuses

The order in which the queries over all statuses return rows:
`ORDER BY s.created_at DESC, s.server_domain DESC, s.id DESC`.

* `orderKey`, `newestFirst`: the order and sorting by it;
* `pairwise_newestFirst`, `newestFirst_eq`: rows with different keys have one order.
-/

namespace Awayuki

/-- What the rows are ordered by. -/
def orderKey (s : DbStatus) : Str ×ₗ Str ×ₗ Str :=
  toLex (s.createdAt, toLex (s.serverDomain, s.id))

/-- `ORDER BY s.created_at DESC, s.server_domain DESC, s.id DESC`. -/
def newestFirst (rows : List DbStatus) : List DbStatus :=
  rows.insertionSort fun a b => orderKey b ≤ orderKey a

theorem key_of_orderKey {a b : DbStatus} (h : orderKey a = orderKey b) : a.key = b.key := by
  simp only [orderKey, EmbeddingLike.apply_eq_iff_eq, Prod.mk.injEq] at h
  obtain ⟨-, hdomain, hid⟩ := h
  rw [DbStatus.key, DbStatus.key, hdomain, hid]

variable {rows rows' : List DbStatus} {s : DbStatus}

@[simp] theorem mem_newestFirst : s ∈ newestFirst rows ↔ s ∈ rows := List.mem_insertionSort _

theorem newestFirst_perm : (newestFirst rows).Perm rows := List.perm_insertionSort _ _

theorem pairwise_newestFirst (hrows : (rows.map DbStatus.key).Nodup) :
    (newestFirst rows).Pairwise fun a b => orderKey b < orderKey a := by
  have : Std.Total fun a b : DbStatus => orderKey b ≤ orderKey a := ⟨fun a b => le_total _ _⟩
  have : IsTrans DbStatus fun a b => orderKey b ≤ orderKey a := ⟨fun a b c h h' => h'.trans h⟩
  have hsorted := List.pairwise_insertionSort (fun a b : DbStatus => orderKey b ≤ orderKey a) rows
  have hkeys : ((newestFirst rows).map DbStatus.key).Nodup :=
    (newestFirst_perm.map _).nodup_iff.2 hrows
  have hne : (newestFirst rows).Pairwise fun a b => a.key ≠ b.key := List.pairwise_map.1 hkeys
  refine (hsorted.and hne).imp fun ⟨hle, hne⟩ => lt_of_le_of_ne hle fun heq => ?_
  exact hne (key_of_orderKey heq).symm

/-- Rows that are sorted have one order. -/
theorem eq_of_pairwise (hrows : rows.Pairwise fun a b => orderKey b < orderKey a)
    (hrows' : rows'.Pairwise fun a b => orderKey b < orderKey a) (h : ∀ s, s ∈ rows ↔ s ∈ rows') :
    rows = rows' := by
  have hne : ∀ {a b : DbStatus}, orderKey b < orderKey a → a ≠ b := by
    rintro a b hlt rfl
    exact lt_irrefl _ hlt
  have hnodup : rows.Nodup := hrows.imp hne
  have hnodup' : rows'.Nodup := hrows'.imp hne
  refine ((List.perm_ext_iff_of_nodup hnodup hnodup').2 h).eq_of_pairwise ?_ hrows hrows'
  exact fun a b _ _ hlt hgt => absurd hlt hgt.asymm

theorem newestFirst_eq (hrows : (rows.map DbStatus.key).Nodup) (h : rows.Perm rows') :
    newestFirst rows = newestFirst rows' :=
  eq_of_pairwise (pairwise_newestFirst hrows)
    (pairwise_newestFirst ((h.map DbStatus.key).nodup_iff.1 hrows)) fun s => by
      rw [mem_newestFirst, mem_newestFirst, h.mem_iff]

end Awayuki
