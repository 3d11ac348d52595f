import Mathlib.Tactic

/-!
# Outcomes of fallible computations

A computation that may fail meets a pair of conditions: one for its result and one for its
failure.  The rules for sequences, so that a long computation is judged part by part.

* `Meets.bind`, `Meets.map`: one computation after another;
* `Meets.mono`: weaker conditions.
-/

namespace Outcome

universe u v

variable {ε : Type v} {α β : Type u} {P Q : α → Prop} {R : β → Prop} {E F : ε → Prop}

/-- The result satisfies `P`, or the failure `E`. -/
def Meets (E : ε → Prop) (P : α → Prop) : Except ε α → Prop
  | .ok a => P a
  | .error e => E e

@[simp] theorem meets_ok {a : α} : Meets E P (.ok a) ↔ P a := Iff.rfl

@[simp] theorem meets_error {e : ε} : Meets E P (.error e : Except ε α) ↔ E e := Iff.rfl

theorem Meets.mono {x : Except ε α} (h : Meets E P x) (hP : ∀ a, P a → Q a) : Meets E Q x := by
  cases x with
  | ok a => exact hP a h
  | error e => exact h

theorem Meets.bind {x : Except ε α} {f : α → Except ε β} (hx : Meets E P x)
    (hf : ∀ a, P a → Meets E R (f a)) : Meets E R (x >>= f) := by
  cases x with
  | ok a => exact hf a hx
  | error e => exact hx

theorem Meets.map {x : Except ε α} {f : α → β} (hx : Meets E P x)
    (hf : ∀ a, P a → R (f a)) : Meets E R (x.map f) := by
  cases x with
  | ok a => exact hf a hx
  | error e => exact hx

/-- Read off a computation: what a result and a failure of it satisfy. -/
theorem meets_iff {x : Except ε α} :
    Meets E P x ↔ (∀ a, x = .ok a → P a) ∧ ∀ e, x = .error e → E e := by
  cases x with
  | ok a => simp
  | error e => simp

end Outcome
