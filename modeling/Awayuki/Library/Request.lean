import Mathlib.Data.List.Basic

/-!
# Requests that may be lost

A request changes a state and is answered.  It may fail before it gets there, and its answer may
be lost on the way back.

* `Outcome`: what becomes of a request;
* `perform`: what it does to the state, and what its sender sees;
* `perform_state` and `perform_eq_ok`: the two seen apart.
-/

namespace Awayuki.Request

variable {σ ε α : Type*}

/-- A request fails, or has its effect unseen, or is answered. -/
inductive Outcome (ε : Type*)
  | failed (error : ε)
  | lost (error : ε)
  | answered
  deriving DecidableEq, Repr

/-- Does the request get there? -/
def Outcome.reaches : Outcome ε → Bool
  | .failed _ => false
  | .lost _ => true
  | .answered => true

/-- The sender of a request, with its outcome, sees an answer or an error. -/
def perform (outcome : Outcome ε) (operation : σ → Except ε α × σ) (s : σ) : Except ε α × σ :=
  match outcome with
  | .failed error => (.error error, s)
  | .lost error => (.error error, (operation s).2)
  | .answered => operation s

theorem perform_state (outcome : Outcome ε) (operation : σ → Except ε α × σ) (s : σ) :
    (perform outcome operation s).2 = if outcome.reaches = true then (operation s).2 else s := by
  cases outcome <;> rfl

theorem perform_eq_ok {outcome : Outcome ε} {operation : σ → Except ε α × σ} {s : σ} {a : α} :
    (perform outcome operation s).1 = .ok a ↔ outcome = .answered ∧ (operation s).1 = .ok a := by
  cases outcome with
  | failed error => exact iff_of_false (fun h => by cases h) fun h => by cases h.1
  | lost error => exact iff_of_false (fun h => by cases h) fun h => by cases h.1
  | answered => exact ⟨fun h => ⟨rfl, h⟩, fun h => h.2⟩

end Awayuki.Request
