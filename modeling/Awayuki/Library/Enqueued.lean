import Mathlib.Data.Finset.Basic
import Mathlib.Data.List.Nodup

/-!
# Queues with a set of their members

A queue that is kept beside a set of what is in it, so that nothing is put in twice.

* `Agrees`: the queue has no duplicate and the set has its members;
* `Agrees.push`, `Agrees.pop`, `Agrees.retain`, `Agrees.erase`: the operations keep it so.
-/

namespace Enqueued

variable {κ : Type} [DecidableEq κ] {queue : List κ} {members : Finset κ} {k : κ}

/-- The set is that of the queue's members, each of which is in it once. -/
structure Agrees (queue : List κ) (members : Finset κ) : Prop where
  mem_iff : ∀ k, k ∈ members ↔ k ∈ queue
  nodup : queue.Nodup

omit [DecidableEq κ] in
theorem agrees_empty : Agrees ([] : List κ) ∅ :=
  ⟨fun k => iff_of_false (Finset.notMem_empty k) List.not_mem_nil, List.nodup_nil⟩

/-- At the end, if it is not there yet. -/
theorem Agrees.push (h : Agrees queue members) (hk : k ∉ members) :
    Agrees (queue ++ [k]) (insert k members) := by
  refine ⟨fun k' => ?_, ?_⟩
  · rw [Finset.mem_insert, List.mem_append, List.mem_singleton, h.mem_iff, or_comm]
  · rw [List.nodup_append]
    refine ⟨h.nodup, List.nodup_singleton k, ?_⟩
    rintro a ha b hb rfl
    exact hk ((h.mem_iff k).2 (List.mem_singleton.1 hb ▸ ha))

theorem Agrees.pop (h : Agrees (k :: queue) members) : Agrees queue (members.erase k) := by
  obtain ⟨hk, hqueue⟩ := List.nodup_cons.1 h.nodup
  refine ⟨fun k' => ?_, hqueue⟩
  rw [Finset.mem_erase, h.mem_iff, List.mem_cons]
  constructor
  · rintro ⟨hne, heq | hmem⟩
    · exact absurd heq hne
    · exact hmem
  · intro hmem
    exact ⟨fun heq => hk (heq ▸ hmem), Or.inr hmem⟩

/-- With fewer members, the queue keeps those that are still there. -/
theorem Agrees.retain (h : Agrees queue members) {members' : Finset κ} (hsub : members' ⊆ members) :
    Agrees (queue.filter (· ∈ members')) members' := by
  refine ⟨fun k' => ?_, h.nodup.filter _⟩
  rw [List.mem_filter, decide_eq_true_eq, ← h.mem_iff]
  exact ⟨fun hk => ⟨hsub hk, hk⟩, And.right⟩

theorem Agrees.erase (h : Agrees queue members) (k : κ) :
    Agrees (queue.filter (· ≠ k)) (members.erase k) := by
  refine ⟨fun k' => ?_, h.nodup.filter _⟩
  rw [Finset.mem_erase, List.mem_filter, h.mem_iff, decide_eq_true_eq, and_comm]

end Enqueued
