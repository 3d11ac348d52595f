import Mathlib.Tactic
import Mathlib.Data.List.Nodup

/-!
# Tables with a key

A table is a list of rows, each with a key.  `lookup` reads the row of a key; when no two rows
share a key it is a partial inverse of the key.

* `lookup_eq_some`, `lookup_of_subset`: the row of a key;
* `upsertWith`, `lookup_foldl_upsertWith`: rows that are added or merged with those of their keys;
* `firsts`: the first row of each key.
-/

namespace Keyed

variable {α κ : Type} [DecidableEq κ] (key : α → κ)

/-- The first row with the given key. -/
def lookup (rows : List α) (k : κ) : Option α := rows.find? fun r => key r = k

variable {key} {rows : List α} {k : κ} {r : α}

theorem mem_of_lookup (h : lookup key rows k = some r) : r ∈ rows := List.mem_of_find?_eq_some h

theorem key_of_lookup (h : lookup key rows k = some r) : key r = k := by
  simpa using List.find?_some h

theorem lookup_isSome : (lookup key rows k).isSome ↔ ∃ r ∈ rows, key r = k := by
  simp [lookup]

omit [DecidableEq κ] in
/-- Two rows of a table with unique keys that share a key are one row. -/
theorem ext_of_nodup (hn : (rows.map key).Nodup) {r s : α} (hr : r ∈ rows) (hs : s ∈ rows)
    (h : key r = key s) : r = s :=
  List.inj_on_of_nodup_map hn hr hs h

theorem lookup_eq_some (hn : (rows.map key).Nodup) :
    lookup key rows k = some r ↔ r ∈ rows ∧ key r = k := by
  constructor
  · exact fun h => ⟨mem_of_lookup h, key_of_lookup h⟩
  · rintro ⟨hr, rfl⟩
    have hsome : (lookup key rows (key r)).isSome := lookup_isSome.2 ⟨r, hr, rfl⟩
    obtain ⟨s, hs⟩ := Option.isSome_iff_exists.1 hsome
    rw [hs, ext_of_nodup hn (mem_of_lookup hs) hr (key_of_lookup hs)]

/-- In a list of entries without a key twice, a key has the value of its entry. -/
theorem map_lookup_eq_some {entries : List (κ × α)} {a : α} (hn : (entries.map Prod.fst).Nodup) :
    (lookup Prod.fst entries k).map Prod.snd = some a ↔ (k, a) ∈ entries := by
  rw [Option.map_eq_some_iff]
  constructor
  · rintro ⟨e, h, rfl⟩
    obtain ⟨hmem, rfl⟩ := (lookup_eq_some hn).1 h
    exact hmem
  · exact fun h => ⟨(k, a), (lookup_eq_some hn).2 ⟨h, rfl⟩, rfl⟩

/-- Rows taken from a table answer for a key as the table does, if the row of that key is taken
whenever there is one. -/
theorem lookup_of_subset (hn : (rows.map key).Nodup) {taken : List α}
    (hsub : ∀ r ∈ taken, r ∈ rows) (hk : ∀ r ∈ rows, key r = k → r ∈ taken) :
    lookup key taken k = lookup key rows k := by
  cases h : lookup key rows k with
  | some r =>
    obtain ⟨hr, rfl⟩ := (lookup_eq_some hn).1 h
    have htaken : (lookup key taken (key r)).isSome := lookup_isSome.2 ⟨r, hk r hr rfl, rfl⟩
    obtain ⟨s, hs⟩ := Option.isSome_iff_exists.1 htaken
    rw [hs, ext_of_nodup hn (hsub s (mem_of_lookup hs)) hr (key_of_lookup hs)]
  | none =>
    refine Option.eq_none_iff_forall_ne_some.2 fun s hs => ?_
    have hsome := (lookup_eq_some hn).2 ⟨hsub s (mem_of_lookup hs), key_of_lookup hs⟩
    simp [h] at hsome

/-! ### Insertion -/

variable (key) in
/-- `INSERT … ON CONFLICT DO UPDATE`: a row of the same key is merged with the new one. -/
def upsertWith (merge : α → α → α) (row : α) : List α → List α
  | [] => [row]
  | r :: rows => if key r = key row then merge r row :: rows else r :: upsertWith merge row rows

theorem lookup_cons (r : α) (rows : List α) :
    lookup key (r :: rows) k = if key r = k then some r else lookup key rows k := by
  unfold lookup
  rw [List.find?_cons]
  by_cases h : key r = k
  · rw [if_pos h, decide_eq_true h]
  · rw [if_neg h, decide_eq_false h]

theorem lookup_upsertWith {merge : α → α → α} {row : α}
    (hmerge : ∀ r, key r = key row → key (merge r row) = key row) :
    lookup key (upsertWith key merge row rows) k =
      if key row = k then some (((lookup key rows k).map (merge · row)).getD row)
      else lookup key rows k := by
  induction rows with
  | nil =>
    unfold upsertWith
    rw [lookup_cons]
    split_ifs <;> rfl
  | cons r rows ih =>
    unfold upsertWith
    by_cases hr : key r = key row
    · rw [if_pos hr, lookup_cons, lookup_cons, hmerge r hr, hr]
      by_cases hk : key row = k
      · rw [if_pos hk, if_pos hk, if_pos hk]
        rfl
      · rw [if_neg hk, if_neg hk, if_neg hk]
    · rw [if_neg hr, lookup_cons, lookup_cons, ih]
      by_cases hk : key r = k
      · have hne : key row ≠ k := fun h => hr (hk.trans h.symm)
        rw [if_pos hk, if_pos hk, if_neg hne]
      · rw [if_neg hk, if_neg hk]

theorem mem_upsertWith {merge : α → α → α} {row s : α} (h : s ∈ upsertWith key merge row rows) :
    s = row ∨ s ∈ rows ∨ ∃ r ∈ rows, key r = key row ∧ s = merge r row := by
  induction rows with
  | nil => exact Or.inl (List.mem_singleton.1 h)
  | cons r rows ih =>
    unfold upsertWith at h
    by_cases hr : key r = key row
    · rw [if_pos hr] at h
      rcases List.mem_cons.1 h with rfl | h
      · exact Or.inr (Or.inr ⟨r, List.mem_cons_self, hr, rfl⟩)
      · exact Or.inr (Or.inl (List.mem_cons_of_mem _ h))
    · rw [if_neg hr] at h
      rcases List.mem_cons.1 h with rfl | h
      · exact Or.inr (Or.inl List.mem_cons_self)
      · rcases ih h with rfl | h | ⟨t, ht, hkey, rfl⟩
        · exact Or.inl rfl
        · exact Or.inr (Or.inl (List.mem_cons_of_mem _ h))
        · exact Or.inr (Or.inr ⟨t, List.mem_cons_of_mem _ ht, hkey, rfl⟩)

theorem nodup_upsertWith {merge : α → α → α} {row : α}
    (hmerge : ∀ r, key r = key row → key (merge r row) = key row)
    (h : (rows.map key).Nodup) : ((upsertWith key merge row rows).map key).Nodup := by
  induction rows with
  | nil => exact List.nodup_singleton _
  | cons r rows ih =>
    rw [List.map_cons, List.nodup_cons] at h
    unfold upsertWith
    by_cases hr : key r = key row
    · rw [if_pos hr, List.map_cons, List.nodup_cons, hmerge r hr, ← hr]
      exact h
    · rw [if_neg hr, List.map_cons, List.nodup_cons]
      refine ⟨fun hmem => ?_, ih h.2⟩
      obtain ⟨s, hs, hkey⟩ := List.mem_map.1 hmem
      rcases mem_upsertWith hs with rfl | hs | ⟨t, -, ht, rfl⟩
      · exact hr hkey.symm
      · exact h.1 (List.mem_map.2 ⟨s, hs, hkey⟩)
      · exact hr (hkey.symm.trans (hmerge t ht))

theorem lookup_append_singleton (rows : List α) (r : α) :
    lookup key (rows ++ [r]) k =
      (lookup key rows k).or (if key r = k then some r else none) := by
  unfold lookup
  rw [List.find?_append, List.find?_singleton]
  simp only [decide_eq_true_eq]

section Batches

variable {merge : α → α → α}

/-- After a batch in which rows of one key are the same row, a key has the row of the batch. -/
theorem lookup_foldl_upsertWith
    (hmerge : ∀ r row, key r = key row → key (merge r row) = key row)
    (hidem : ∀ r ∈ rows, merge r r = r)
    (hsame : ∀ r ∈ rows, ∀ s ∈ rows, key r = key s → r = s) :
    lookup key (rows.foldl (fun table row => upsertWith key merge row table) []) k =
      lookup key rows k := by
  induction rows using List.reverseRecOn with
  | nil => rfl
  | append_singleton rows row ih =>
    have hrows : ∀ r ∈ rows, r ∈ rows ++ [row] := fun r hr => List.mem_append_left _ hr
    have hrow : row ∈ rows ++ [row] := List.mem_append_right _ (List.mem_singleton_self row)
    rw [List.foldl_concat, lookup_upsertWith (fun r => hmerge r row),
      ih (fun r hr => hidem r (hrows r hr)) fun r hr s hs => hsame r (hrows r hr) s (hrows s hs),
      lookup_append_singleton]
    by_cases hk : key row = k
    · rw [if_pos hk, if_pos hk]
      cases hlookup : lookup key rows k with
      | none => rfl
      | some r =>
        have heq : r = row := hsame r (hrows r (mem_of_lookup hlookup)) row hrow
          ((key_of_lookup hlookup).trans hk.symm)
        subst heq
        exact congrArg some (hidem r hrow)
    · rw [if_neg hk, if_neg hk, Option.or_none]

theorem nodup_foldl_upsertWith
    (hmerge : ∀ r row, key r = key row → key (merge r row) = key row)
    (batch : List α) (h : (rows.map key).Nodup) :
    ((batch.foldl (fun table row => upsertWith key merge row table) rows).map key).Nodup := by
  induction batch generalizing rows with
  | nil => exact h
  | cons row batch ih => exact ih (nodup_upsertWith (fun r => hmerge r row) h)

end Batches

/-! ### First occurrences -/

variable (key) in
/-- The first row of each key, in order. -/
def firsts : List α → List α
  | [] => []
  | r :: rows => r :: (firsts rows).filter fun s => key s ≠ key r

@[simp] theorem firsts_nil : firsts key ([] : List α) = [] := rfl

theorem mem_of_mem_firsts {rows : List α} (h : r ∈ firsts key rows) : r ∈ rows := by
  induction rows with
  | nil => exact h
  | cons s rows ih =>
    rcases List.mem_cons.1 h with rfl | h
    · exact List.mem_cons_self
    · exact List.mem_cons_of_mem _ (ih (List.mem_filter.1 h).1)

/-- Every key that occurs has a first row. -/
theorem exists_mem_firsts {rows : List α} (h : r ∈ rows) :
    ∃ s ∈ firsts key rows, key s = key r := by
  induction rows with
  | nil => simp at h
  | cons t rows ih =>
    by_cases hk : key r = key t
    · exact ⟨t, List.mem_cons_self, hk.symm⟩
    · have hr : r ∈ rows := by
        rcases List.mem_cons.1 h with rfl | h
        · exact absurd rfl hk
        · exact h
      obtain ⟨s, hs, hkey⟩ := ih hr
      refine ⟨s, List.mem_cons_of_mem _ (List.mem_filter.2 ⟨hs, ?_⟩), hkey⟩
      simpa [hkey] using hk

/-- Keys that a filter removes altogether do not affect the first rows of the others. -/
theorem filter_firsts (q : κ → Bool) (rows : List α) :
    (firsts key rows).filter (fun r => q (key r)) =
      firsts key (rows.filter fun r => q (key r)) := by
  induction rows with
  | nil => rfl
  | cons r rows ih =>
    simp only [firsts, List.filter_cons]
    split_ifs with hr
    · rw [firsts, ← ih, List.filter_filter, List.filter_filter]
      simp only [Bool.and_comm]
    · rw [← ih, List.filter_filter]
      refine List.filter_congr fun s _ => ?_
      by_cases hk : key s = key r
      · simp [hk, hr]
      · simp [hk]

theorem firsts_cons (r : α) (rows : List α) :
    firsts key (r :: rows) = r :: firsts key (rows.filter fun s => key s ≠ key r) := by
  rw [firsts]
  exact congrArg _ (filter_firsts (fun k => decide (k ≠ key r)) rows)

theorem firsts_filter_cons {p : α → Bool} {r : α} (hp : p r = true) (rows : List α) :
    firsts key ((r :: rows).filter p) =
      r :: firsts key ((rows.filter fun s => key s ≠ key r).filter p) := by
  rw [List.filter_cons_of_pos hp, firsts_cons, List.filter_filter, List.filter_filter]
  simp only [Bool.and_comm]

/-- Two selections from a table have the same first rows when each contains the other's. -/
theorem firsts_filter_congr {p q : α → Bool} (rows : List α)
    (hpq : ∀ r ∈ firsts key (rows.filter p), q r) (hqp : ∀ r ∈ firsts key (rows.filter q), p r) :
    firsts key (rows.filter p) = firsts key (rows.filter q) := by
  induction hn : rows.length using Nat.strong_induction_on generalizing rows with
  | _ n ih =>
    match rows with
    | [] => rfl
    | r :: rows =>
      by_cases hp : p r
      · -- the first row of the one selection is in the other, and is the first row there too
        have hq : q r := hpq r (by simp [firsts_filter_cons hp])
        rw [firsts_filter_cons hp] at hpq ⊢
        rw [firsts_filter_cons hq] at hqp ⊢
        refine congrArg _ (ih _ ?_ _ (fun s hs => hpq s (List.mem_cons_of_mem _ hs))
          (fun s hs => hqp s (List.mem_cons_of_mem _ hs)) rfl)
        have := List.length_filter_le (fun s => decide (key s ≠ key r)) rows
        simp only [← hn, List.length_cons]
        omega
      · have hq : ¬ q r := fun hq => hp (hqp r (by simp [firsts_filter_cons hq]))
        simp only [List.filter_cons, hp, hq, Bool.false_eq_true, if_false] at hpq hqp ⊢
        exact ih rows.length (by simp [← hn]) rows hpq hqp rfl

/-- In a sorted list the first row of a key comes before all others of the key. -/
theorem rel_of_mem_firsts {R : α → α → Prop} {rows : List α} (hrows : rows.Pairwise R) {s : α}
    (hr : r ∈ firsts key rows) (hs : s ∈ rows) (hkey : key s = key r) : s = r ∨ R r s := by
  induction rows with
  | nil => exact absurd hs List.not_mem_nil
  | cons t rows ih =>
    obtain ⟨hfirst, hrows⟩ := List.pairwise_cons.1 hrows
    rcases List.mem_cons.1 hr with rfl | hr
    · rcases List.mem_cons.1 hs with rfl | hs
      · exact .inl rfl
      · exact .inr (hfirst s hs)
    · obtain ⟨hr, hne⟩ := List.mem_filter.1 hr
      rcases List.mem_cons.1 hs with rfl | hs
      · exact absurd hkey.symm (of_decide_eq_true hne)
      · exact ih hrows hr hs

theorem firsts_eq_nil {rows : List α} : firsts key rows = [] ↔ rows = [] := by
  cases rows <;> simp [firsts]

/-- Without repetitions there are the same values. -/
theorem mem_firsts_id {l : List κ} : k ∈ firsts id l ↔ k ∈ l := by
  refine ⟨mem_of_mem_firsts, fun h => ?_⟩
  obtain ⟨k', hk', heq⟩ : ∃ k' ∈ firsts id l, k' = k := exists_mem_firsts h
  exact heq ▸ hk'

theorem nodup_firsts {rows : List α} : ((firsts key rows).map key).Nodup := by
  induction rows with
  | nil => exact List.nodup_nil
  | cons r rows ih =>
    rw [firsts, List.map_cons, List.nodup_cons]
    refine ⟨fun h => ?_, ih.sublist (List.filter_sublist.map _)⟩
    obtain ⟨s, hs, hkey⟩ := List.mem_map.1 h
    simpa [hkey] using (List.mem_filter.1 hs).2

end Keyed
