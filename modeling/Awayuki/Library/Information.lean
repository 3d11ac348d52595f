import Mathlib.Tactic

/-!
# Missing information

Some values of a type carry no information.  A value refines another when it is equal to it or
the other carries none: the flat order of domain theory, with any number of least elements.

* `Strict`, `Strict₂`: operations without a result on missing operands;
* `Strict.refines`, `Strict₂.refines`: such operations are monotone for refinement.
-/

namespace Information

/-- A type with values that carry no information. -/
class HasMissing (α : Type) where
  Missing : α → Prop

export HasMissing (Missing)

variable {α β γ : Type} [HasMissing α] [HasMissing β] [HasMissing γ]

/-- `v'` says all that `v` says. -/
def Refines (v v' : α) : Prop := Missing v ∨ v = v'

theorem Refines.refl (v : α) : Refines v v := Or.inr rfl

theorem Refines.of_missing {v v' : α} (h : Missing v) : Refines v v' := Or.inl h

theorem Refines.of_eq {v v' : α} (h : v = v') : Refines v v' := Or.inr h

theorem Refines.eq {v v' : α} (h : Refines v v') (hv : ¬ Missing v) : v = v' :=
  h.resolve_left hv

theorem Refines.trans {u v w : α} (h₁ : Refines u v) (h₂ : Refines v w) : Refines u w := by
  rcases h₁ with h₁ | rfl
  · exact Or.inl h₁
  · exact h₂

/-- No result without the operand. -/
def Strict (f : α → β) : Prop := ∀ v, Missing v → Missing (f v)

/-- No result without both operands. -/
def Strict₂ (f : α → β → γ) : Prop := ∀ v w, Missing v ∨ Missing w → Missing (f v w)

theorem Strict.refines {f : α → β} (hf : Strict f) {v v' : α} (h : Refines v v') :
    Refines (f v) (f v') := by
  rcases h with h | rfl
  · exact .of_missing (hf v h)
  · exact .refl _

theorem Strict₂.refines {f : α → β → γ} (hf : Strict₂ f) {v v' : α} {w w' : β}
    (hv : Refines v v') (hw : Refines w w') : Refines (f v w) (f v' w') := by
  rcases hv with hv | rfl
  · exact .of_missing (hf v w (.inl hv))
  rcases hw with hw | rfl
  · exact .of_missing (hf v w (.inr hw))
  · exact .refl _

end Information
