import Awayuki.Library.Keyed

/-!
# Rows that are written over

A table with a key takes a row by `upsert`, which replaces the row of the same key.  A column of
one row is then a register: it holds the last value written to it.

* `upsert`, `lookup_upsert`, `nodup_upsert`: the statement;
* `after`: a register after some writes;
* `KeepsUntilCarried`: a value stays until a write carries one;
* `keepsUntilCarried_iff`: that is a matter of each two writes in a row.
-/

/-! ### The statement -/

namespace Keyed

variable {α κ : Type} [DecidableEq κ] (key : α → κ)

/-- `INSERT … ON CONFLICT DO UPDATE`: the row replaces the row of its key, or is added. -/
def upsert (row : α) (rows : List α) : List α :=
  if (lookup key rows (key row)).isSome then
    rows.map fun r => if key r = key row then row else r
  else rows ++ [row]

variable {key}

theorem lookup_replace (row : α) (rows : List α) (k : κ) :
    lookup key (rows.map fun r => if key r = key row then row else r) k =
      if key row = k then (lookup key rows k).map fun _ => row else lookup key rows k := by
  induction rows with
  | nil => simp [lookup]
  | cons r rows ih =>
    unfold lookup at ih ⊢
    simp only [List.map_cons, List.find?_cons]
    by_cases hr : key r = key row
    · by_cases hk : key row = k
      · simp [hr, hk]
      · simpa [hr, hk] using ih
    · by_cases hk : key row = k
      · have hrk : key r ≠ k := fun h => hr (h.trans hk.symm)
        simpa [hr, hk, hrk] using ih
      · rw [if_neg hr, if_neg hk] at *
        by_cases hrk : key r = k
        · simp [hrk]
        · simpa [hrk] using ih

theorem lookup_upsert (row : α) (rows : List α) (k : κ) :
    lookup key (upsert key row rows) k = if key row = k then some row else lookup key rows k := by
  unfold upsert
  split
  · next hsome =>
    rw [lookup_replace]
    split
    · next hk =>
      obtain ⟨r, hr⟩ := Option.isSome_iff_exists.1 hsome
      rw [← hk, hr, Option.map_some]
    · rfl
  · next hnone =>
    have hnone' : lookup key rows (key row) = none := by simpa using hnone
    unfold lookup at hnone' ⊢
    rw [List.find?_append]
    by_cases hk : key row = k
    · rw [← hk, hnone']
      simp
    · simp [hk]

theorem nodup_upsert {row : α} {rows : List α} (h : (rows.map key).Nodup) :
    ((upsert key row rows).map key).Nodup := by
  unfold upsert
  split
  · -- a replaced row keeps its key
    have hkeys : (rows.map fun r => if key r = key row then row else r).map key = rows.map key := by
      rw [List.map_map]
      refine List.map_congr_left fun r _ => ?_
      simp only [Function.comp_apply]
      split
      · next hr => exact hr.symm
      · rfl
    rwa [hkeys]
  · next hnone =>
    rw [lookup_isSome] at hnone
    rw [List.map_append, List.map_singleton, List.nodup_append]
    refine ⟨h, List.nodup_singleton _, fun k hk k' hk' => ?_⟩
    obtain ⟨r, hr, rfl⟩ := List.mem_map.1 hk
    obtain rfl := List.mem_singleton.1 hk'
    exact fun heq => hnone ⟨r, hr, heq⟩

end Keyed

/-! ### One register -/

namespace Register

variable {β : Type} {value : β} {initial : Option β} {writes : List (Option β)}

/-- The register after the writes, in their order. -/
def after (initial : Option β) (writes : List (Option β)) : Option β := writes.getLastD initial

@[simp] theorem after_nil (initial : Option β) : after initial [] = initial := rfl

@[simp] theorem after_cons (initial write : Option β) (writes : List (Option β)) :
    after initial (write :: writes) = after write writes := by
  cases writes <;> rfl

theorem after_append (initial : Option β) (writes more : List (Option β)) :
    after initial (writes ++ more) = after (after initial writes) more := by
  induction writes generalizing initial with
  | nil => rfl
  | cons write writes ih => simp only [List.cons_append, after_cons, ih]

/-- Once the register holds the value, it holds it as long as no write carries one. -/
def KeepsUntilCarried (value : β) (initial : Option β) (writes : List (Option β)) : Prop :=
  ∀ before between rest, writes = before ++ between ++ rest →
    after initial before = some value → (∀ write ∈ between, write = none) →
      after initial (before ++ between) = some value

/-- No write without a value comes directly after the value. -/
def Carries (value : β) (initial : Option β) (writes : List (Option β)) : Prop :=
  (initial :: writes).IsChain fun known next => known = some value → next ≠ none

instance [DecidableEq β] (value : β) (initial : Option β) (writes : List (Option β)) :
    Decidable (Carries value initial writes) :=
  inferInstanceAs (Decidable (List.IsChain _ _))

theorem carries_cons {write : Option β} : Carries value initial (write :: writes) ↔
      (initial = some value → write ≠ none) ∧ Carries value write writes :=
  List.isChain_cons_cons

theorem keepsUntilCarried_cons {write : Option β} :
    KeepsUntilCarried value initial (write :: writes) ↔
      (initial = some value → write ≠ none) ∧ KeepsUntilCarried value write writes := by
  constructor
  · intro h
    refine ⟨fun hinitial hwrite => ?_, fun before between rest heq hbefore hbetween => ?_⟩
    · have := h [] [write] writes rfl hinitial (by simpa using hwrite)
      rw [List.nil_append, after_cons, after_nil, hwrite] at this
      cases this
    · have := h (write :: before) between rest (by rw [heq]; rfl) (by simpa using hbefore) hbetween
      simpa using this
  · rintro ⟨hfirst, hrest⟩ before between rest heq hbefore hbetween
    cases before with
    | cons first before =>
      obtain ⟨rfl, htail⟩ := List.cons.inj heq
      simpa using hrest before between rest htail (by simpa using hbefore) hbetween
    | nil =>
      cases between with
      | nil => exact hbefore
      | cons first between =>
        -- the first write of the stretch has no value, so the value is not there before it
        obtain ⟨rfl, -⟩ := List.cons.inj heq
        exact absurd (hbetween write List.mem_cons_self) (hfirst hbefore)

/-- A value stays until a write carries one if and only if no write without a value comes
directly after it. -/
theorem keepsUntilCarried_iff :
    KeepsUntilCarried value initial writes ↔ Carries value initial writes := by
  induction writes generalizing initial with
  | nil =>
    refine ⟨fun _ => List.isChain_singleton _, fun _ before between rest heq hbefore _ => ?_⟩
    obtain ⟨hnil, -⟩ := List.append_eq_nil_iff.1 heq.symm
    rw [hnil]
    exact (List.append_eq_nil_iff.1 hnil).1 ▸ hbefore
  | cons write writes ih => rw [keepsUntilCarried_cons, carries_cons, ih]

end Register
