import Awayuki.Library.Keyed

/-!
# Sorted maps

Maps whose entries stand in the order of their keys.

* `get`, `keys`, `retain`, `adjust`, `upsert`: the operations;
* `parts`: what some of the entries have, in the order of the keys;
* `parts_adjust`, `parts_upsert`, `parts_retain`: when an operation leaves the parts alone.
-/

/-- A list of keys with their values, in ascending order of the keys. -/
structure SortedMap (κ α : Type) [LinearOrder κ] where
  entries : List (κ × α)
  sorted : entries.Pairwise fun a b => a.1 < b.1

namespace SortedMap

variable {κ α : Type} [LinearOrder κ] {f : Option α → α}

def empty : SortedMap κ α := ⟨[], .nil⟩

def keys (m : SortedMap κ α) : List κ := m.entries.map Prod.fst

theorem pairwise_keys (m : SortedMap κ α) : m.keys.Pairwise (· < ·) :=
  m.sorted.map _ fun _ _ h => h

theorem nodup_keys (m : SortedMap κ α) : m.keys.Nodup := m.pairwise_keys.imp ne_of_lt

def get (m : SortedMap κ α) (k : κ) : Option α :=
  (m.entries.find? fun e => e.1 = k).map Prod.snd

variable {m : SortedMap κ α} {k k' : κ} {a : α}

theorem get_eq_some : m.get k = some a ↔ (k, a) ∈ m.entries :=
  Keyed.map_lookup_eq_some m.nodup_keys

theorem mem_keys : k ∈ m.keys ↔ (m.get k).isSome := by
  rw [get, Option.isSome_map]
  exact List.mem_map.trans Keyed.lookup_isSome.symm

/-- The entries whose keys satisfy the test. -/
def retain (p : κ → Bool) (m : SortedMap κ α) : SortedMap κ α where
  entries := m.entries.filter fun e => p e.1
  sorted := m.sorted.filter _

/-- Changes the value of a key, if it has one. -/
def adjust (k : κ) (f : α → α) (m : SortedMap κ α) : SortedMap κ α where
  entries := m.entries.map fun e => if e.1 = k then (e.1, f e.2) else e
  sorted := by
    refine m.sorted.map _ fun a b h => ?_
    split_ifs <;> exact h

/-- Sets the value of a key, by its old value if it has one. -/
def upsertEntries (k : κ) (f : Option α → α) : List (κ × α) → List (κ × α)
  | [] => [(k, f none)]
  | e :: entries =>
    if k < e.1 then (k, f none) :: e :: entries
    else if k = e.1 then (k, f (some e.2)) :: entries
    else e :: upsertEntries k f entries

theorem key_of_mem_upsertEntries {entries : List (κ × α)} {e : κ × α}
    (h : e ∈ upsertEntries k f entries) : e.1 = k ∨ e ∈ entries := by
  induction entries with
  | nil =>
    rw [upsertEntries, List.mem_singleton] at h
    exact .inl (congrArg Prod.fst h)
  | cons first entries ih =>
    rw [upsertEntries] at h
    split_ifs at h with hlt heq
    · rcases List.mem_cons.1 h with rfl | h
      · exact .inl rfl
      · exact .inr h
    · rcases List.mem_cons.1 h with rfl | h
      · exact .inl rfl
      · exact .inr (List.mem_cons_of_mem _ h)
    · rcases List.mem_cons.1 h with rfl | h
      · exact .inr List.mem_cons_self
      · exact (ih h).imp_right (List.mem_cons_of_mem _)

theorem sorted_upsertEntries {entries : List (κ × α)} (h : entries.Pairwise fun a b => a.1 < b.1) :
    (upsertEntries k f entries).Pairwise fun a b => a.1 < b.1 := by
  induction entries with
  | nil => exact List.pairwise_singleton _ _
  | cons first entries ih =>
    obtain ⟨hfirst, hrest⟩ := List.pairwise_cons.1 h
    rw [upsertEntries]
    split_ifs with hlt heq
    · refine List.pairwise_cons.2 ⟨fun e he => ?_, h⟩
      rcases List.mem_cons.1 he with rfl | he
      · exact hlt
      · exact hlt.trans (hfirst e he)
    · refine List.pairwise_cons.2 ⟨fun e he => ?_, hrest⟩
      exact heq ▸ hfirst e he
    · refine List.pairwise_cons.2 ⟨fun e he => ?_, ih hrest⟩
      rcases key_of_mem_upsertEntries he with hkey | he
      · rw [hkey]
        exact lt_of_le_of_ne (not_lt.1 hlt) (Ne.symm heq)
      · exact hfirst e he

def upsert (k : κ) (f : Option α → α) (m : SortedMap κ α) : SortedMap κ α where
  entries := upsertEntries k f m.entries
  sorted := sorted_upsertEntries m.sorted

theorem mem_keys_upsert : k' ∈ (m.upsert k f).keys ↔ k' = k ∨ k' ∈ m.keys := by
  unfold keys upsert
  dsimp only
  induction m.entries with
  | nil => simp [upsertEntries]
  | cons first entries ih =>
    rw [upsertEntries]
    split_ifs with hlt heq
    · rw [List.map_cons, List.mem_cons]
    · rw [List.map_cons, List.map_cons, List.mem_cons, List.mem_cons, heq]
      exact ⟨.inr, fun h => h.elim .inl id⟩
    · rw [List.map_cons, List.map_cons, List.mem_cons, List.mem_cons, ih]
      tauto

/-! ### Parts that an operation leaves alone -/

section Parts

variable {β : Type} {part : κ × α → Option β}

/-- The parts that some of the entries have, in the order of the keys. -/
def parts (part : κ × α → Option β) (m : SortedMap κ α) : List β := m.entries.filterMap part

theorem parts_adjust {f : α → α} (h : ∀ a, part (k, f a) = part (k, a)) :
    (m.adjust k f).parts part = m.parts part := by
  unfold parts adjust
  rw [List.filterMap_map]
  refine List.filterMap_congr fun e _ => ?_
  rw [Function.comp_apply]
  split_ifs with hkey
  · rw [hkey, h, ← hkey]
  · rfl

theorem filterMap_upsertEntries (hnone : part (k, f none) = none)
    (hsome : ∀ a, part (k, f (some a)) = part (k, a)) (entries : List (κ × α)) :
    (upsertEntries k f entries).filterMap part = entries.filterMap part := by
  induction entries with
  | nil => simp [upsertEntries, hnone]
  | cons first entries ih =>
    rw [upsertEntries]
    split_ifs with hlt heq
    · rw [List.filterMap_cons, hnone]
    · obtain ⟨key, value⟩ := first
      obtain rfl : k = key := heq
      rw [List.filterMap_cons, hsome, ← List.filterMap_cons]
    · rw [List.filterMap_cons, List.filterMap_cons, ih]

/-- A key that is new has none, and one that is there keeps its part. -/
theorem parts_upsert (hnone : part (k, f none) = none)
    (hsome : ∀ a, part (k, f (some a)) = part (k, a)) : (m.upsert k f).parts part = m.parts part :=
  filterMap_upsertEntries hnone hsome m.entries

/-- Entries without a part may go. -/
theorem parts_retain {p : κ → Bool} (h : ∀ e ∈ m.entries, p e.1 = false → part e = none) :
    (m.retain p).parts part = m.parts part := by
  unfold parts retain
  rw [List.filterMap_filter]
  refine List.filterMap_congr fun e he => ?_
  cases hp : p e.1 with
  | true => rfl
  | false => exact (h e he hp).symm

end Parts

end SortedMap
