import Mathlib.Tactic
import Mathlib.Data.List.Nodup

/-!
# Marking what is linked

Keys may be stored, and what is stored under a key may link to one other key.  Marking follows the
links from a list of roots.

* `link`: `none` for a key that is not stored, `some none` for one that links nowhere;
* `mark`: the keys found, by following the chain of each root until it meets a marked key;
* `mem_mark`: they are the keys `Linked` to the roots.
-/

namespace Mark

variable {κ : Type} (link : κ → Option (Option κ))

/-- The stored keys that a chain of links between stored keys leads to from a root. -/
inductive Linked (roots : List κ) : κ → Prop
  | root {k : κ} (mem : k ∈ roots) (stored : (link k).isSome) : Linked roots k
  | next {k k' : κ} (prev : Linked roots k) (step : link k = some (some k'))
      (stored : (link k').isSome) : Linked roots k'

variable {link} {roots stored : List κ}

theorem Linked.isSome {k : κ} (h : Linked link roots k) : (link k).isSome := by
  cases h with
  | root mem stored => exact stored
  | next prev step stored => exact stored

/-- What is marked is stored, none of it twice, and its links lead to marked keys or to the one
that is visited next. -/
structure Marked (link : κ → Option (Option κ)) (roots retained : List κ)
    (pending : Option κ) : Prop where
  nodup : retained.Nodup
  linked : ∀ k ∈ retained, Linked link roots k
  closed : ∀ k ∈ retained, ∀ k', link k = some (some k') → (link k').isSome →
    k' ∈ retained ∨ pending = some k'

variable (link) [DecidableEq κ]

/-- Follows the chain of one key. -/
def visit : ℕ → List κ → κ → List κ
  | 0, retained, _ => retained
  | fuel + 1, retained, key =>
    if key ∈ retained then retained
    else
      match link key with
      | none => retained
      | some none => key :: retained
      | some (some next) => visit fuel (key :: retained) next

def mark (fuel : ℕ) (roots : List κ) : List κ := roots.foldl (visit link fuel) []

variable {link}

/-- Visiting a key marks it and settles what was pending. -/
theorem visit_marked (hstored : ∀ k, (link k).isSome → k ∈ stored) {fuel : ℕ} {retained : List κ}
    {key : κ} (h : Marked link roots retained (some key))
    (hkey : (link key).isSome → Linked link roots key)
    (hfuel : stored.length < fuel + retained.length) :
    Marked link roots (visit link fuel retained key) none ∧
      retained ⊆ visit link fuel retained key ∧
      ((link key).isSome → key ∈ visit link fuel retained key) := by
  induction fuel generalizing retained key with
  | zero =>
    -- More keys would be marked than are stored.
    have hsub : retained ⊆ stored := fun k hk => hstored k (h.linked k hk).isSome
    have := (h.nodup.subperm hsub).length_le
    omega
  | succ fuel ih =>
    unfold visit
    split_ifs with hmem
    · refine ⟨⟨h.nodup, h.linked, fun k hk k' hlink hk' => .inl ?_⟩, fun _ hk => hk, fun _ => hmem⟩
      obtain hk' | heq := h.closed k hk k' hlink hk'
      · exact hk'
      · exact Option.some.inj heq ▸ hmem
    · cases hlink : link key with
      | none =>
        refine ⟨⟨h.nodup, h.linked, fun k hk k' hstep hk' => .inl ?_⟩, fun _ hk => hk, by simp⟩
        obtain hk' | heq := h.closed k hk k' hstep hk'
        · exact hk'
        · obtain rfl := Option.some.inj heq
          simp [hlink] at hk'
      | some next =>
        have hlinked : ∀ k ∈ key :: retained, Linked link roots k := by
          intro k hk
          obtain rfl | hk := List.mem_cons.1 hk
          · exact hkey (by simp [hlink])
          · exact h.linked k hk
        have hclosed : ∀ k ∈ key :: retained, ∀ k', link k = some (some k') → (link k').isSome →
            k' ∈ key :: retained ∨ next = some k' := by
          intro k hk k' hstep hk'
          obtain rfl | hk := List.mem_cons.1 hk
          · exact .inr (Option.some.inj (hlink.symm.trans hstep))
          · obtain hmem' | heq := h.closed k hk k' hstep hk'
            · exact .inl (List.mem_cons_of_mem _ hmem')
            · exact .inl (by simp [Option.some.inj heq])
        have hmarked : Marked link roots (key :: retained) next :=
          ⟨List.nodup_cons.2 ⟨hmem, h.nodup⟩, hlinked, hclosed⟩
        cases next with
        | none => exact ⟨hmarked, List.subset_cons_self _ _, fun _ => List.mem_cons_self⟩
        | some next =>
          obtain ⟨hmarked', hsub, -⟩ := ih hmarked
            (fun hnext => .next (hkey (by simp [hlink])) hlink hnext)
            (by simp only [List.length_cons]; omega)
          exact ⟨hmarked', fun k hk => hsub (List.mem_cons_of_mem _ hk),
            fun _ => hsub List.mem_cons_self⟩

/-- Marking with fuel for all that is stored finds what is linked to the roots. -/
theorem mem_mark (hstored : ∀ k, (link k).isSome → k ∈ stored) {fuel : ℕ}
    (hfuel : stored.length < fuel) {k : κ} : k ∈ mark link fuel roots ↔ Linked link roots k := by
  -- The roots that have been visited, out of all of them.
  have hfold (todo retained : List κ) (htodo : todo ⊆ roots)
      (h : Marked link roots retained none) :
      Marked link roots (todo.foldl (visit link fuel) retained) none ∧
        retained ⊆ todo.foldl (visit link fuel) retained ∧
        ∀ k ∈ todo, (link k).isSome → k ∈ todo.foldl (visit link fuel) retained := by
    induction todo generalizing retained with
    | nil => exact ⟨h, fun _ hk => hk, by simp⟩
    | cons root todo ih =>
      have hpending : Marked link roots retained (some root) :=
        ⟨h.nodup, h.linked, fun k hk k' hstep hk' =>
          (h.closed k hk k' hstep hk').imp_right (by simp)⟩
      obtain ⟨hvisit, hsub, hroot⟩ := visit_marked hstored hpending
        (fun hsome => .root (htodo List.mem_cons_self) hsome) (by omega : _ < fuel + retained.length)
      obtain ⟨hmarked, hsub', hmem⟩ := ih _ (fun k hk => htodo (List.mem_cons_of_mem _ hk)) hvisit
      refine ⟨hmarked, fun k hk => hsub' (hsub hk), fun k hk hsome => ?_⟩
      obtain rfl | hk := List.mem_cons.1 hk
      · exact hsub' (hroot hsome)
      · exact hmem k hk hsome
  obtain ⟨hmarked, -, hroots⟩ := hfold roots [] (fun _ hk => hk)
    ⟨List.nodup_nil, by simp, by simp⟩
  constructor
  · exact hmarked.linked k
  · intro hlinked
    induction hlinked with
    | root mem stored => exact hroots _ mem stored
    | next prev step stored ih =>
      obtain hk | heq := hmarked.closed _ ih _ step stored
      · exact hk
      · cases heq

end Mark
