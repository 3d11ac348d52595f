import Mathlib.Tactic

/-!
# Conditions with placeholders

Conditions of a query language with three truth values, in which `NULL` is `none`, and with
placeholders that the values bound to the query fill from left to right.

* `and3`, `or3`, `not3`: the connectives of the truth values;
* `Condition`: conditions over atoms that have placeholders;
* `Filled`: a condition with a value for each of its placeholders;
* `accepts_all`, `accepts_any`: when a conjunction and a disjunction accept.
-/

namespace Sql

/-! ### Truth values -/

/-- `AND`: one that is false decides. -/
def and3 : Option Bool → Option Bool → Option Bool
  | some false, _ => some false
  | some true, b => b
  | none, some false => some false
  | none, _ => none

/-- `OR`: one that is true decides. -/
def or3 : Option Bool → Option Bool → Option Bool
  | some true, _ => some true
  | some false, b => b
  | none, some true => some true
  | none, _ => none

/-- `NOT` -/
def not3 (a : Option Bool) : Option Bool := a.map not

/-- `=` between a column that may be `NULL` and a value. -/
def eq3 {V : Type} [DecidableEq V] (column : Option V) (value : V) : Option Bool :=
  column.map fun v => decide (v = value)

@[simp] theorem and3_eq_true {a b : Option Bool} :
    and3 a b = some true ↔ a = some true ∧ b = some true := by
  rcases a with _ | a <;> rcases b with _ | b <;> try cases a
  all_goals simp [and3]
  all_goals cases b <;> simp

@[simp] theorem or3_eq_true {a b : Option Bool} :
    or3 a b = some true ↔ a = some true ∨ b = some true := by
  rcases a with _ | a <;> rcases b with _ | b <;> try cases a
  all_goals simp [or3]
  all_goals cases b <;> simp

@[simp] theorem eq3_eq_true {V : Type} [DecidableEq V] {column : Option V} {value : V} :
    eq3 column value = some true ↔ column = some value := by
  cases column <;> simp [eq3]

/-! ### Conditions -/

inductive Connective
  | and
  | or
  deriving DecidableEq

/-- The truth value of no conditions. -/
def Connective.unit : Connective → Bool
  | .and => true
  | .or => false

def Connective.apply : Connective → Option Bool → Option Bool → Option Bool
  | .and => and3
  | .or => or3

inductive Condition (α : Type)
  | atom (a : α)
  | junction (connective : Connective) (parts : List (Condition α))

namespace Condition

variable {α V : Type} (arity : α → ℕ) (holds : α → List V → Option Bool)

mutual

/-- How many values a condition takes. -/
def placeholders : Condition α → ℕ
  | .atom a => arity a
  | .junction _ parts => placeholdersAll parts

def placeholdersAll : List (Condition α) → ℕ
  | [] => 0
  | part :: parts => placeholders part + placeholdersAll parts

end

mutual

/-- The truth value of a condition whose placeholders have values. -/
def eval : Condition α → List V → Option Bool
  | .atom a, bindings => holds a bindings
  | .junction connective parts, bindings => evalAll connective parts bindings

def evalAll (connective : Connective) : List (Condition α) → List V → Option Bool
  | [], _ => some connective.unit
  | part :: parts, bindings =>
    connective.apply (eval part (bindings.take (placeholders arity part)))
      (evalAll connective parts (bindings.drop (placeholders arity part)))

end

end Condition

/-! ### Conditions and their values -/

/-- A condition with a value for each of its placeholders. -/
structure Filled {α : Type} (arity : α → ℕ) (V : Type) where
  condition : Condition α
  bindings : List V
  filled : bindings.length = condition.placeholders arity

namespace Filled

variable {α V : Type} {arity : α → ℕ} {holds : α → List V → Option Bool}

def atom (a : α) (bindings : List V) (h : bindings.length = arity a) : Filled arity V :=
  ⟨.atom a, bindings, h⟩

theorem length_flatMap_bindings (parts : List (Filled arity V)) :
    (parts.flatMap bindings).length = Condition.placeholdersAll arity (parts.map condition) := by
  induction parts with
  | nil => rfl
  | cons part parts ih =>
    rw [List.flatMap_cons, List.length_append, ih, part.filled]
    rfl

/-- Conditions joined by a connective, with their values in the same order. -/
def junction (connective : Connective) (parts : List (Filled arity V)) : Filled arity V where
  condition := .junction connective (parts.map condition)
  bindings := parts.flatMap bindings
  filled := length_flatMap_bindings parts

/-- The truth value of a condition with its values. -/
def truth (holds : α → List V → Option Bool) (c : Filled arity V) : Option Bool :=
  c.condition.eval arity holds c.bindings

/-- A row is accepted when the condition is true of it; `NULL` does not accept. -/
def Accepts (holds : α → List V → Option Bool) (c : Filled arity V) : Prop :=
  c.truth holds = some true

instance (c : Filled arity V) : Decidable (c.Accepts holds) :=
  inferInstanceAs (Decidable (_ = _))

@[simp] theorem accepts_atom {a : α} {bindings : List V} {h : bindings.length = arity a} :
    (atom a bindings h).Accepts holds ↔ holds a bindings = some true := by
  rw [Accepts, truth, atom, Condition.eval]

theorem truth_junction_nil {connective : Connective} :
    (junction connective [] : Filled arity V).truth holds = some connective.unit := rfl

/-- Every condition of a junction is evaluated with its own values. -/
theorem truth_junction_cons {connective : Connective} {part : Filled arity V}
    {parts : List (Filled arity V)} :
    (junction connective (part :: parts)).truth holds =
      connective.apply (part.truth holds) ((junction connective parts).truth holds) := by
  show Condition.evalAll arity holds connective (part.condition :: parts.map condition)
    (part.bindings ++ parts.flatMap bindings) = _
  rw [Condition.evalAll, ← part.filled, List.take_left, List.drop_left]
  rfl

theorem accepts_all {parts : List (Filled arity V)} :
    (junction .and parts).Accepts holds ↔ ∀ part ∈ parts, part.Accepts holds := by
  unfold Accepts
  induction parts with
  | nil =>
    rw [truth_junction_nil]
    simp [Connective.unit]
  | cons part parts ih =>
    rw [truth_junction_cons, List.forall_mem_cons, ← ih]
    exact and3_eq_true

theorem accepts_any {parts : List (Filled arity V)} :
    (junction .or parts).Accepts holds ↔ ∃ part ∈ parts, part.Accepts holds := by
  unfold Accepts
  induction parts with
  | nil =>
    rw [truth_junction_nil]
    simp [Connective.unit]
  | cons part parts ih =>
    rw [truth_junction_cons, List.exists_mem_cons_iff, ← ih]
    exact or3_eq_true

end Filled

end Sql
