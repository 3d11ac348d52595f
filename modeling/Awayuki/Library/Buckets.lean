import Mathlib.Tactic

/-!
# Buckets

A map from keys to sets, kept as an index of a relation: the bucket of a key holds what is
related to it, and no bucket is empty.  A set is a list in the order of insertion.

* `insert`, `remove`, `erase`, `retainNonempty`: the operations on such a map;
* `Indexes`: the map is the index of a relation.
-/

variable {κ α : Type}

/-- A partial map from keys to sets. -/
abbrev Buckets (κ α : Type) : Type := κ → Option (List α)

namespace Buckets

def empty : Buckets κ α := fun _ => none

/-- The set of a key, empty when there is none. -/
def get (b : Buckets κ α) (k : κ) : List α := (b k).getD []

/-- Takes away the empty sets. -/
def retainNonempty (b : Buckets κ α) : Buckets κ α :=
  fun k => (b k).filter fun s => !s.isEmpty

variable {b : Buckets κ α} {k k' : κ} {a a' : α}

@[simp] theorem get_empty : (empty : Buckets κ α).get k = [] := rfl

@[simp] theorem get_retainNonempty : b.retainNonempty.get k = b.get k := by
  unfold get retainNonempty
  cases h : b k with
  | none => rfl
  | some s =>
    cases s with
    | nil => rfl
    | cons a s => rfl

/-! ### Indexes -/

/-- The map is the index of the relation. -/
structure Indexes (b : Buckets κ α) (R : κ → α → Prop) : Prop where
  mem : ∀ k a, a ∈ b.get k ↔ R k a
  nonempty : ∀ k s, b k = some s → s ≠ []

variable {R : κ → α → Prop}

theorem indexes_empty : (empty : Buckets κ α).Indexes fun _ _ => False :=
  ⟨by simp, nofun⟩

theorem Indexes.congr {R' : κ → α → Prop} (h : b.Indexes R) (hR : ∀ k a, R k a ↔ R' k a) :
    b.Indexes R' :=
  ⟨fun k a => (h.mem k a).trans (hR k a), h.nonempty⟩

/-- After the empty sets are taken away, only the members have to be right. -/
theorem Indexes.retainNonempty (h : ∀ k a, a ∈ b.get k ↔ R k a) : b.retainNonempty.Indexes R := by
  refine ⟨by simpa using h, fun k s hs => ?_⟩
  obtain ⟨-, hs⟩ := Option.filter_eq_some_iff.1 hs
  simpa using hs

/-! ### Operations -/

variable [DecidableEq κ]

/-- Takes away the set of a key. -/
def erase (b : Buckets κ α) (k : κ) : Buckets κ α := Function.update b k none

theorem mem_get_erase : a' ∈ (b.erase k).get k' ↔ a' ∈ b.get k' ∧ k' ≠ k := by
  by_cases h : k' = k
  · subst h
    simp [get, erase]
  · simp [get, erase, h]

theorem Indexes.erase (h : b.Indexes R) (k : κ) :
    (b.erase k).Indexes fun k' a' => R k' a' ∧ k' ≠ k := by
  refine ⟨fun k' a' => by rw [mem_get_erase, h.mem], fun k' s hs => ?_⟩
  by_cases hk : k' = k
  · subst hk
    simp [Buckets.erase] at hs
  · rw [Buckets.erase, Function.update_of_ne hk] at hs
    exact h.nonempty k' s hs

variable [DecidableEq α]

/-- Adds a member to the set of a key, which is made if it is not there. -/
def insert (b : Buckets κ α) (k : κ) (a : α) : Buckets κ α :=
  Function.update b k (some (if a ∈ b.get k then b.get k else b.get k ++ [a]))

/-- Takes a member from the set of a key, which may become empty. -/
def remove (b : Buckets κ α) (k : κ) (a : α) : Buckets κ α :=
  Function.update b k ((b k).map fun s => s.filter (· ≠ a))

theorem get_insert_self :
    (b.insert k a).get k = if a ∈ b.get k then b.get k else b.get k ++ [a] := by
  change (Function.update b k _ k).getD [] = _
  rw [Function.update_self]
  rfl

theorem mem_get_insert :
    a' ∈ (b.insert k a).get k' ↔ k' = k ∧ a' = a ∨ a' ∈ b.get k' := by
  by_cases h : k' = k
  · subst h
    rw [get_insert_self]
    split_ifs with ha
    · exact ⟨.inr, fun h => h.elim (fun heq => heq.2 ▸ ha) id⟩
    · simp [or_comm]
  · simp [get, insert, h]

theorem mem_get_remove :
    a' ∈ (b.remove k a).get k' ↔ a' ∈ b.get k' ∧ ¬ (k' = k ∧ a' = a) := by
  by_cases h : k' = k
  · subst h
    cases hb : b k' <;> simp [get, remove, hb]
  · simp [get, remove, h]

theorem Indexes.insert (h : b.Indexes R) (k : κ) (a : α) :
    (b.insert k a).Indexes fun k' a' => k' = k ∧ a' = a ∨ R k' a' := by
  refine ⟨fun k' a' => by rw [mem_get_insert, h.mem], fun k' s hs => ?_⟩
  by_cases hk : k' = k
  · subst hk
    have hmem : a ∈ (b.insert k' a).get k' := mem_get_insert.2 (.inl ⟨rfl, rfl⟩)
    rw [get, hs] at hmem
    exact List.ne_nil_of_mem hmem
  · rw [Buckets.insert, Function.update_of_ne hk] at hs
    exact h.nonempty k' s hs

end Buckets
