import Mathlib.Tactic
import Mathlib.Data.List.Nodup

/-!
# Merging two ranked lists under a cap

Two lists of keys, each key with its rank, are merged into one in which no key comes twice.  At
every step the list whose head ranks higher gives its head, the first list when they rank alike;
the merge ends when the cap is reached.

* `cappedMerge`: the keys, and whether a key was left out;
* `nodup_cappedMerge`, `mem_or_trimmed`: no key twice, and none lost unless the merge says so;
* `trimmed_eq_false`: with room for all keys none is left out.
-/

variable {κ τ : Type} [DecidableEq κ] {seen : List κ} {fuel : ℕ} {k key : κ} {I : List κ → Prop}
  {e : κ × τ}

/-- Appends a key unless it is there. -/
def pushNew (seen : List κ) (key : κ) : List κ := if key ∈ seen then seen else seen ++ [key]

theorem mem_pushNew : k ∈ pushNew seen key ↔ k ∈ seen ∨ k = key := by
  unfold pushNew
  split_ifs with h
  · constructor
    · exact Or.inl
    · rintro (hk | rfl)
      exacts [hk, h]
  · simp

theorem nodup_pushNew (h : seen.Nodup) : (pushNew seen key).Nodup := by
  unfold pushNew
  split_ifs with hmem
  · exact h
  · exact h.append (List.nodup_singleton key) (by simpa using hmem)

variable [LE τ] [DecidableLE τ]

/-- The loop: what it has seen, and what it has not taken when it ends. -/
def mergeLoop (cap : Option ℕ) :
    ℕ → List (κ × τ) → List (κ × τ) → List κ → List κ × List (κ × τ)
  | 0, first, second, seen => (seen, first ++ second)
  | fuel + 1, first, second, seen =>
    if cap.any (· ≤ seen.length) then (seen, first ++ second)
    else
      match first, second with
      | [], [] => (seen, [])
      | x :: first, [] => mergeLoop cap fuel first [] (pushNew seen x.1)
      | [], y :: second => mergeLoop cap fuel [] second (pushNew seen y.1)
      | x :: first, y :: second =>
        if y.2 ≤ x.2 then mergeLoop cap fuel first (y :: second) (pushNew seen x.1)
        else mergeLoop cap fuel (x :: first) second (pushNew seen y.1)

/-- The merged keys, and whether a key of the lists is not among them. -/
def cappedMerge (cap : Option ℕ) (first second : List (κ × τ)) : List κ × Bool :=
  let (keys, rest) := mergeLoop cap (first.length + second.length) first second []
  (keys, rest.any fun e => e.1 ∉ keys)

variable {cap : Option ℕ} {first second : List (κ × τ)}

/-- What a step of the loop preserves, the loop preserves. -/
theorem mergeLoop_invariant (hstep : ∀ seen, ∀ e ∈ first ++ second, I seen → I (pushNew seen e.1))
    (h : I seen) : I (mergeLoop cap fuel first second seen).1 := by
  fun_induction mergeLoop with
  | case1 | case2 | case3 => exact h
  | case4 fuel seen hcap x first ih =>
    exact ih (fun seen e he => hstep seen e (by simp_all)) (hstep seen x (by simp) h)
  | case5 fuel seen hcap y second ih =>
    exact ih (fun seen e he => hstep seen e (by simp_all)) (hstep seen y (by simp) h)
  | case6 fuel seen hcap x first y second hle ih =>
    refine ih (fun seen e he => hstep seen e ?_) (hstep seen x (by simp) h)
    exact List.mem_cons_of_mem _ he
  | case7 fuel seen hcap x first y second hle ih =>
    refine ih (fun seen e he => hstep seen e ?_) (hstep seen y (by simp) h)
    simp only [List.cons_append, List.mem_cons, List.mem_append] at he ⊢
    tauto

/-- A key of the lists is seen, or it is among what was not taken. -/
theorem mem_mergeLoop (he : e ∈ first ++ second) : e.1 ∈ (mergeLoop cap fuel first second seen).1 ∨
      e ∈ (mergeLoop cap fuel first second seen).2 := by
  -- Once seen, a key stays seen.
  have hkept {fuel : ℕ} {first second : List (κ × τ)} {seen : List κ} {k : κ} (h : k ∈ seen) :
      k ∈ (mergeLoop cap fuel first second seen).1 :=
    mergeLoop_invariant (I := (k ∈ ·)) (fun _ _ _ hk => mem_pushNew.2 (.inl hk)) h
  have hpushed {seen : List κ} {k : κ} : k ∈ pushNew seen k := mem_pushNew.2 (.inr rfl)
  fun_induction mergeLoop with
  | case1 | case2 => exact .inr he
  | case3 => simp at he
  | case4 fuel seen hcap x first ih =>
    simp only [List.append_nil, List.mem_cons] at he
    obtain rfl | he := he
    · exact .inl (hkept hpushed)
    · exact ih (by simpa using he)
  | case5 fuel seen hcap y second ih =>
    simp only [List.nil_append, List.mem_cons] at he
    obtain rfl | he := he
    · exact .inl (hkept hpushed)
    · exact ih he
  | case6 fuel seen hcap x first y second hle ih =>
    obtain rfl | he := List.mem_cons.1 he
    · exact .inl (hkept hpushed)
    · exact ih he
  | case7 fuel seen hcap x first y second hle ih =>
    by_cases hy : e = y
    · subst hy
      exact .inl (hkept hpushed)
    · refine ih ?_
      simp only [List.cons_append, List.mem_cons, List.mem_append] at he ⊢
      tauto

/-- With the fuel for both lists the loop ends at the cap or when it has taken everything. -/
theorem mergeLoop_rest (hfuel : first.length + second.length ≤ fuel)
    (h : (mergeLoop cap fuel first second seen).2 ≠ []) :
    ∃ c, cap = some c ∧ c ≤ (mergeLoop cap fuel first second seen).1.length := by
  fun_induction mergeLoop with
  | case1 first second seen =>
    simp only [nonpos_iff_eq_zero, Nat.add_eq_zero_iff, List.length_eq_zero_iff] at hfuel
    simp [hfuel] at h
  | case2 fuel first second seen hcap =>
    obtain ⟨c, hc, hle⟩ := (Option.any_eq_true _ _).1 hcap
    exact ⟨c, hc, of_decide_eq_true hle⟩
  | case3 => simp at h
  | case4 fuel seen hcap x first ih => exact ih (by simp at hfuel ⊢; omega) h
  | case5 fuel seen hcap y second ih => exact ih (by simp at hfuel ⊢; omega) h
  | case6 fuel seen hcap x first y second hle ih => exact ih (by simp at hfuel ⊢; omega) h
  | case7 fuel seen hcap x first y second hle ih => exact ih (by simp at hfuel ⊢; omega) h

/-- What was not taken is of the lists. -/
theorem mergeLoop_rest_subset (h : e ∈ (mergeLoop cap fuel first second seen).2) :
    e ∈ first ++ second := by
  fun_induction mergeLoop with
  | case1 | case2 => exact h
  | case3 => exact h
  | case4 fuel seen hcap x first ih => exact List.mem_cons_of_mem _ (ih h)
  | case5 fuel seen hcap y second ih => exact List.mem_cons_of_mem _ (ih h)
  | case6 fuel seen hcap x first y second hle ih => exact List.mem_cons_of_mem _ (ih h)
  | case7 fuel seen hcap x first y second hle ih =>
    have := ih h
    simp only [List.cons_append, List.mem_cons, List.mem_append] at this ⊢
    tauto

/-- What the merge preserves by appending keys of the lists, it has. -/
theorem cappedMerge_invariant (hstep : ∀ seen, ∀ e ∈ first ++ second, I seen → I (pushNew seen e.1))
    (h : I []) : I (cappedMerge cap first second).1 :=
  mergeLoop_invariant hstep h

theorem nodup_cappedMerge : (cappedMerge cap first second).1.Nodup :=
  cappedMerge_invariant (fun _ _ _ => nodup_pushNew) List.nodup_nil

theorem mem_of_mem_cappedMerge (h : k ∈ (cappedMerge cap first second).1) :
    k ∈ first.map Prod.fst ∨ k ∈ second.map Prod.fst := by
  have hsub : ∀ k ∈ (cappedMerge cap first second).1, k ∈ (first ++ second).map Prod.fst := by
    refine cappedMerge_invariant (I := fun seen => ∀ k ∈ seen, k ∈ (first ++ second).map Prod.fst)
      ?_ (by simp)
    intro seen e he hseen k hk
    obtain hk | rfl := mem_pushNew.1 hk
    · exact hseen k hk
    · exact List.mem_map_of_mem he
  simpa using hsub k h

theorem length_cappedMerge_le :
    (cappedMerge cap first second).1.length ≤ first.length + second.length := by
  have hsub : (cappedMerge cap first second).1 ⊆ (first ++ second).map Prod.fst := by
    intro k hk
    simpa using mem_of_mem_cappedMerge hk
  simpa using (nodup_cappedMerge.subperm hsub).length_le

/-- A key of the lists is among the merged ones, or the merge says that one is not. -/
theorem mem_or_trimmed (h : k ∈ first.map Prod.fst ∨ k ∈ second.map Prod.fst) :
    k ∈ (cappedMerge cap first second).1 ∨ (cappedMerge cap first second).2 = true := by
  obtain ⟨e, he, rfl⟩ : ∃ e ∈ first ++ second, e.1 = k := by
    rw [← List.mem_append, ← List.map_append] at h
    exact List.mem_map.1 h
  by_cases hk : e.1 ∈ (cappedMerge cap first second).1
  · exact .inl hk
  · refine .inr (List.any_eq_true.2 ⟨e, (mem_mergeLoop he).resolve_left hk, ?_⟩)
    exact decide_eq_true hk

/-- With room under the cap for the keys of both lists none is left out. -/
theorem trimmed_eq_false (h : ∀ c, cap = some c → first.length + second.length ≤ c) :
    (cappedMerge cap first second).2 = false := by
  rw [Bool.eq_false_iff]
  intro htrimmed
  obtain ⟨e, he, hout⟩ := List.any_eq_true.1 htrimmed
  obtain ⟨c, hc, hle⟩ := mergeLoop_rest le_rfl (List.ne_nil_of_mem he)
  have hmem : e ∈ first ++ second := mergeLoop_rest_subset he
  -- The merged keys and the one left out are keys of the lists, each once.
  have hlt : (e.1 :: (cappedMerge cap first second).1).length ≤ (first ++ second).length := by
    have hmap : ((first ++ second).map Prod.fst).length = (first ++ second).length :=
      List.length_map _
    rw [← hmap]
    refine (List.Nodup.subperm ?_ ?_).length_le
    · exact List.nodup_cons.2 ⟨of_decide_eq_true hout, nodup_cappedMerge⟩
    · intro k hk
      obtain rfl | hk := List.mem_cons.1 hk
      · exact List.mem_map_of_mem hmem
      · simpa using mem_of_mem_cappedMerge hk
  have hroom := h c hc
  simp only [List.length_cons, List.length_append] at hlt
  have hlen : c ≤ (cappedMerge cap first second).1.length := hle
  omega
