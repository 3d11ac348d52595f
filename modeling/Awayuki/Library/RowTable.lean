import Mathlib.Tactic

/-!
# Tables with unique indexes

A table whose rows lie in the order of their row numbers and share no key of a unique index.  A
statement that updates rows takes them one after the other in that order and looks each new row
up in the indexes at once, so the rows after it still have their old keys.

* `Apart`: rows without a common key;
* `Table`: rows that are apart;
* `Table.update`, `Table.delete`, `Table.insert`: the statements;
* `update_eq_some`: when an update goes through, and what it leaves.
-/

namespace RowTable

variable {R K : Type}

/-- No unique index has one key for both rows.  A row that a partial index leaves out has no key
in it. -/
def Apart (keys : R → List K) (a b : R) : Prop := ∀ k ∈ keys a, k ∉ keys b

instance [DecidableEq K] (keys : R → List K) (a b : R) : Decidable (Apart keys a b) :=
  inferInstanceAs (Decidable (∀ k ∈ keys a, k ∉ keys b))

theorem Apart.symm {keys : R → List K} {a b : R} (h : Apart keys a b) : Apart keys b a :=
  fun k hb ha => h k ha hb

/-- A table, its rows in the order of their row numbers. -/
structure Table (keys : R → List K) where
  rows : List R
  apart : rows.Pairwise (Apart keys)

variable {keys : R → List K}

/-! ### Updating row by row -/

section Update

variable (keys) (change : R → R) {done rest rows : List R}

/-- The rows before the current one have been updated; the row that changes now must be apart
from all others, of which those after it are still as they were. -/
def updateRows [DecidableEq K] : List R → List R → Option (List R)
  | done, [] => some done
  | done, row :: rest =>
    if ∀ other ∈ done ++ rest, Apart keys (change row) other then
      updateRows (done ++ [change row]) rest
    else none

/-- Is every row, when it changes, apart from the new rows before it and the old ones after it? -/
def Clear (done rest : List R) : Prop :=
  ∀ before row after, rest = before ++ row :: after →
    ∀ other ∈ done ++ before.map change ++ after, Apart keys (change row) other

variable {keys change}

theorem clear_cons {row : R} : Clear keys change done (row :: rest) ↔
      (∀ other ∈ done ++ rest, Apart keys (change row) other) ∧
        Clear keys change (done ++ [change row]) rest := by
  constructor
  · intro h
    refine ⟨by simpa using h [] row rest rfl, fun before row' after heq other hother => ?_⟩
    subst heq
    exact h (row :: before) row' after rfl other (by simpa using hother)
  · rintro ⟨hrow, hrest⟩ before row' after heq other hother
    cases before with
    | nil =>
      obtain ⟨rfl, rfl⟩ := List.cons.inj heq
      exact hrow other (by simpa using hother)
    | cons first before =>
      obtain ⟨rfl, rfl⟩ := List.cons.inj heq
      exact hrest before row' after rfl other (by simpa using hother)

variable [DecidableEq K]

/-- An update that goes through changes every row, and it goes through when each is clear. -/
theorem updateRows_eq_some : updateRows keys change done rest = some rows ↔
      Clear keys change done rest ∧ rows = done ++ rest.map change := by
  induction rest generalizing done with
  | nil => simp [updateRows, Clear, eq_comm]
  | cons row rest ih =>
    rw [updateRows, clear_cons]
    split_ifs with hrow
    · rw [ih, and_iff_right hrow, List.append_assoc, List.map_cons, List.singleton_append]
    · exact ⟨nofun, fun h => absurd h.1.1 hrow⟩

theorem pairwise_updateRows (h : updateRows keys change done rest = some rows)
    (hpairwise : (done ++ rest).Pairwise (Apart keys)) : rows.Pairwise (Apart keys) := by
  induction rest generalizing done with
  | nil =>
    cases h
    simpa using hpairwise
  | cons row rest ih =>
    rw [updateRows] at h
    split_ifs at h with hrow
    refine ih h ?_
    have hothers : (done ++ rest).Pairwise (Apart keys) :=
      hpairwise.sublist (List.sublist_append_right [row] rest |>.append_left done)
    rw [List.append_assoc, List.singleton_append, List.pairwise_middle Apart.symm,
      List.pairwise_cons]
    exact ⟨hrow, hothers⟩

end Update

/-! ### Statements -/

namespace Table

section Statements

variable [DecidableEq K]

/-- `UPDATE`: rows that the condition of the statement leaves out are changed into themselves. -/
def update (t : Table keys) (change : R → R) : Option (Table keys) :=
  match h : updateRows keys change [] t.rows with
  | some rows => some ⟨rows, pairwise_updateRows h t.apart⟩
  | none => none

/-- `DELETE` -/
def delete (t : Table keys) (condition : R → Bool) : Table keys :=
  ⟨t.rows.filter fun row => !condition row, t.apart.filter _⟩

/-- `INSERT`: the new row gets the highest row number. -/
def insert (t : Table keys) (row : R) : Option (Table keys) :=
  if h : ∀ other ∈ t.rows, Apart keys other row then
    some ⟨t.rows ++ [row], List.pairwise_append.2 ⟨t.apart, List.pairwise_singleton _ _, by
      simpa using h⟩⟩
  else none

end Statements

variable {t t' : Table keys} {change : R → R} {row : R}

theorem ext_rows (h : t.rows = t'.rows) : t = t' := by
  cases t
  cases t'
  cases h
  rfl

@[simp] theorem rows_delete (condition : R → Bool) :
    (t.delete condition).rows = t.rows.filter fun row => !condition row := rfl

/-- A change that leaves every row without keys but its old ones goes through. -/
theorem clear_of_subset (h : ∀ row ∈ t.rows, ∀ k ∈ keys (change row), k ∈ keys row) :
    Clear keys change [] t.rows := by
  intro before row after heq other hother k hk hk'
  have hk := h row (by simp [heq]) k hk
  have hapart := t.apart
  rw [heq, List.pairwise_middle Apart.symm, List.pairwise_cons] at hapart
  rw [List.nil_append, List.mem_append, List.mem_map] at hother
  rcases hother with ⟨old, hold, rfl⟩ | hother
  · exact hapart.1 old (by simp [hold]) k hk (h old (by simp [heq, hold]) k hk')
  · exact hapart.1 other (by simp [hother]) k hk hk'

variable [DecidableEq K]

theorem update_eq_some :
    t.update change = some t' ↔ Clear keys change [] t.rows ∧ t'.rows = t.rows.map change := by
  have hrows : ∀ rows, updateRows keys change [] t.rows = some rows ↔
      Clear keys change [] t.rows ∧ rows = [] ++ t.rows.map change := fun _ => updateRows_eq_some
  unfold update
  split
  next rows h =>
    obtain ⟨hclear, heq⟩ := (hrows rows).1 h
    constructor
    · rintro ⟨⟩
      exact ⟨hclear, heq⟩
    · rintro ⟨-, heq'⟩
      exact congrArg some (ext_rows (heq.trans heq'.symm))
  next h =>
    constructor
    · rintro ⟨⟩
    · rintro ⟨hclear, heq⟩
      rw [(hrows _).2 ⟨hclear, rfl⟩] at h
      cases h

theorem exists_update (h : Clear keys change [] t.rows) :
    ∃ t', t.update change = some t' ∧ t'.rows = t.rows.map change := by
  obtain ⟨rows, hrows⟩ : ∃ rows, updateRows keys change [] t.rows = some rows :=
    ⟨_, updateRows_eq_some.2 ⟨h, rfl⟩⟩
  have heq := (updateRows_eq_some.1 hrows).2
  exact ⟨⟨rows, pairwise_updateRows hrows t.apart⟩, update_eq_some.2 ⟨h, heq⟩, heq⟩

theorem rows_insert (h : t.insert row = some t') : t'.rows = t.rows ++ [row] := by
  unfold insert at h
  split_ifs at h
  cases h
  rfl

theorem exists_insert (h : ∀ other ∈ t.rows, Apart keys other row) :
    ∃ t', t.insert row = some t' := ⟨_, dif_pos h⟩

end Table

end RowTable
