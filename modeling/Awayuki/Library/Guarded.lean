import Mathlib.Data.List.Basic

/-!
# Runs that are right as long as every step is

A run is judged by what its states show.  A fault that shows is never undone, so the run is right
exactly when no step of it brings a fault in.

* `Throughout`: every step of a run is taken where it may be;
* `holds_foldl_iff`: exactly then the property holds in the end;
* `shows_iff_throughout`: where a fault shows only at the step that closes a run, the runs that are
  closed at any time are right exactly then.
-/

namespace Awayuki.Guarded

variable {σ α : Type*} {step : σ → α → σ} {Safe : σ → α → Prop} {s : σ} {actions : List α}
  {Good : σ → Prop}

/-- Each of the steps is safe where it is taken. -/
def Throughout (step : σ → α → σ) (Safe : σ → α → Prop) : σ → List α → Prop
  | _, [] => True
  | s, a :: actions => Safe s a ∧ Throughout step Safe (step s a) actions

theorem throughout_cons {a : α} : Throughout step Safe s (a :: actions) ↔
      Safe s a ∧ Throughout step Safe (step s a) actions := Iff.rfl

/-- What fails once fails for good. -/
theorem of_foldl {Holds : σ → Prop} (hback : ∀ s a, Holds (step s a) → Holds s)
    (h : Holds (actions.foldl step s)) : Holds s := by
  induction actions generalizing s with
  | nil => exact h
  | cons a actions ih => exact hback s a (ih h)

/-- With an invariant that safe steps keep, under which the unsafe ones are seen to fail. -/
theorem holds_foldl_iff (Holds : σ → Prop) (hholds : ∀ s, Good s → Holds s)
    (hback : ∀ s a, Holds (step s a) → Holds s) (hsafe : ∀ s a, Good s → Safe s a → Good (step s a))
    (hfault : ∀ s a, Good s → Holds (step s a) → Safe s a) (hs : Good s) (actions : List α) :
    Holds (actions.foldl step s) ↔ Throughout step Safe s actions := by
  induction actions generalizing s with
  | nil => exact iff_of_true (hholds s hs) trivial
  | cons a actions ih =>
    rw [List.foldl_cons, throughout_cons]
    constructor
    · intro h
      have ha := hfault s a hs (of_foldl hback h)
      exact ⟨ha, (ih (hsafe s a hs ha)).1 h⟩
    · rintro ⟨ha, hrest⟩
      exact (ih (hsafe s a hs ha)).2 hrest

theorem throughout_append {actions' : List α} : Throughout step Safe s (actions ++ actions') ↔
      Throughout step Safe s actions ∧ Throughout step Safe (actions.foldl step s) actions' := by
  induction actions generalizing s with
  | nil => exact (and_iff_right trivial).symm
  | cons a actions ih =>
    rw [List.cons_append, throughout_cons, throughout_cons, List.foldl_cons, ih, and_assoc]

/-- What every step keeps holds at the end of a run. -/
theorem invariant_foldl (hstep : ∀ s a, Good s → Good (step s a)) (hs : Good s) (actions : List α) :
    Good (actions.foldl step s) := by
  induction actions generalizing s with
  | nil => exact hs
  | cons a actions ih => exact ih (hstep s a hs)

/-- A step that is not safe shows when the run is closed after it, if not before. -/
theorem shows_iff_throughout {Shows : σ → α → Prop} (close : α)
    (hsafe : ∀ s a, Good s → Safe s a → Good (step s a))
    (hshows : ∀ s a, Good s → Safe s a → Shows s a) (hclose : ∀ s, Good s → Shows s close)
    (hfault : ∀ s a, Good s → Shows s a → Shows (step s a) close → Safe s a) (hs : Good s)
    (actions : List α) :
    (∀ before, before <+: actions → Throughout step Shows s (before ++ [close])) ↔
      Throughout step Safe s actions := by
  induction actions generalizing s with
  | nil =>
    refine iff_of_true (fun before hbefore => ?_) trivial
    rw [List.prefix_nil.1 hbefore]
    exact ⟨hclose s hs, trivial⟩
  | cons a actions ih =>
    rw [throughout_cons]
    constructor
    · intro h
      have hfirst := h [a] ⟨actions, rfl⟩
      have ha := hfault s a hs hfirst.1 hfirst.2.1
      refine ⟨ha, (ih (hsafe s a hs ha)).1 fun before hbefore => ?_⟩
      exact (h (a :: before) (List.cons_prefix_cons.2 ⟨rfl, hbefore⟩)).2
    · rintro ⟨ha, hrest⟩ before hbefore
      cases before with
      | nil => exact ⟨hclose s hs, trivial⟩
      | cons b before =>
        obtain ⟨rfl, hrestBefore⟩ := List.cons_prefix_cons.1 hbefore
        exact ⟨hshows s b hs ha, (ih (hsafe s b hs ha)).2 hrest before hrestBefore⟩

end Awayuki.Guarded
