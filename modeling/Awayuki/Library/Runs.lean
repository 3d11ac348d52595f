import Mathlib.Tactic

/-!
# Runs

A system is a relation between states, labelled by what happens.  A run is a finite sequence of
its steps; the labels in their order are the history of the run.

* `Run.invariant`, `Run.history`: what every step preserves, all runs preserve;
* `run_append`: a history splits where a run does;
* `Outstanding`: has something been opened and not been closed since?
-/

namespace Runs

variable {σ α : Type} {step : σ → α → σ → Prop}

/-- The runs between two states, by their histories. -/
inductive Run (step : σ → α → σ → Prop) : σ → List α → σ → Prop
  | nil (s) : Run step s [] s
  | snoc {s t u : σ} {labels : List α} {label : α} (run : Run step s labels t)
      (last : step t label u) : Run step s (labels ++ [label]) u

/-- What holds first and is preserved by every step holds in every state of a run. -/
theorem Run.invariant {I : σ → Prop} {s t : σ} {labels : List α} (hrun : Run step s labels t)
    (hs : I s) (hstep : ∀ {t label u}, I t → step t label u → I u) : I t := by
  induction hrun with
  | nil => exact hs
  | snoc run last ih => exact hstep ih last

/-- An invariant that also speaks of the history. -/
theorem Run.history {I : List α → σ → Prop} {s t : σ} {labels : List α}
    (hrun : Run step s labels t) (hs : I [] s)
    (hstep : ∀ {labels t label u}, I labels t → step t label u → I (labels ++ [label]) u) :
    I labels t := by
  induction hrun with
  | nil => exact hs
  | snoc run last ih => exact hstep ih last

/-- Runs of a system are runs of any that has its steps. -/
theorem Run.mono {step' : σ → α → σ → Prop} (h : ∀ {s label t}, step s label t → step' s label t)
    {s t : σ} {labels : List α} (hrun : Run step s labels t) : Run step' s labels t := by
  induction hrun with
  | nil => exact .nil s
  | snoc run last ih => exact .snoc ih (h last)

theorem Run.append {s t u : σ} {labels labels' : List α} (hrun : Run step s labels t)
    (hrun' : Run step t labels' u) : Run step s (labels ++ labels') u := by
  induction hrun' with
  | nil => simpa using hrun
  | snoc run last ih =>
    rw [← List.append_assoc]
    exact .snoc ih last

theorem run_nil {s t : σ} : Run step s [] t ↔ s = t := by
  constructor
  · intro h
    generalize hlabels : ([] : List α) = labels at h
    cases h with
    | nil => rfl
    | snoc run last => simp at hlabels
  · rintro rfl
    exact .nil s

theorem run_snoc {s u : σ} {labels : List α} {label : α} :
    Run step s (labels ++ [label]) u ↔ ∃ t, Run step s labels t ∧ step t label u := by
  constructor
  · intro h
    generalize hlabels : labels ++ [label] = all at h
    cases h with
    | nil => simp at hlabels
    | snoc run last =>
      obtain ⟨rfl, hlabel⟩ := List.append_inj' hlabels rfl
      cases hlabel
      exact ⟨_, run, last⟩
  · rintro ⟨t, run, last⟩
    exact .snoc run last

theorem run_append {s u : σ} {labels labels' : List α} :
    Run step s (labels ++ labels') u ↔ ∃ t, Run step s labels t ∧ Run step t labels' u := by
  constructor
  · intro h
    induction labels' using List.reverseRecOn generalizing u with
    | nil => exact ⟨u, by simpa using h, .nil u⟩
    | append_singleton labels' label ih =>
      rw [← List.append_assoc] at h
      obtain ⟨v, hrun, hlast⟩ := run_snoc.1 h
      obtain ⟨t, h₁, h₂⟩ := ih hrun
      exact ⟨t, h₁, .snoc h₂ hlast⟩
  · rintro ⟨t, h₁, h₂⟩
    exact h₁.append h₂

theorem run_cons {s u : σ} {labels : List α} {label : α} :
    Run step s (label :: labels) u ↔ ∃ t, step s label t ∧ Run step t labels u := by
  rw [← List.singleton_append, run_append]
  constructor
  · rintro ⟨t, h₁, h₂⟩
    rw [← List.nil_append [label], run_snoc] at h₁
    obtain ⟨t', hnil, hstep⟩ := h₁
    exact ⟨t, (run_nil.1 hnil) ▸ hstep, h₂⟩
  · rintro ⟨t, hstep, h⟩
    exact ⟨t, .snoc (.nil s) hstep, h⟩

/-- The runs of a system that is a function. -/
theorem run_iff_foldlM {f : σ → α → Option σ} {s t : σ} {labels : List α} :
    Run (fun s label t => f s label = some t) s labels t ↔ labels.foldlM f s = some t := by
  induction labels generalizing s with
  | nil => simp [run_nil]
  | cons label labels ih =>
    rw [run_cons, List.foldlM_cons]
    simp only [ih]
    exact Option.bind_eq_some_iff.symm

/-! ### Opening and closing -/

/-- After the history, has something been opened and not been closed since? -/
def Outstanding (opens closes : α → Bool) (labels : List α) : Bool :=
  labels.foldl (fun outstanding label =>
    if opens label then true else if closes label then false else outstanding) false

variable {opens closes : α → Bool}

@[simp] theorem outstanding_nil : Outstanding opens closes [] = false := rfl

@[simp] theorem outstanding_snoc (labels : List α) (label : α) :
    Outstanding opens closes (labels ++ [label]) =
      if opens label then true else if closes label then false
      else Outstanding opens closes labels := by
  simp [Outstanding]

/-- What is outstanding has been opened, and nothing has closed it since. -/
theorem exists_of_outstanding {labels : List α} (h : Outstanding opens closes labels = true) :
    ∃ before label after, labels = before ++ label :: after ∧ opens label = true ∧
      ∀ closing ∈ after, closes closing = false := by
  induction labels using List.reverseRecOn with
  | nil => simp at h
  | append_singleton labels last ih =>
    rw [outstanding_snoc] at h
    split_ifs at h with hopens hcloses
    · exact ⟨labels, last, [], rfl, hopens, by simp⟩
    · obtain ⟨before, label, after, rfl, hlabel, hafter⟩ := ih h
      refine ⟨before, label, after ++ [last], by simp, hlabel, fun closing hmem => ?_⟩
      rcases List.mem_append.1 hmem with hmem | hmem
      · exact hafter closing hmem
      · obtain rfl := List.mem_singleton.1 hmem
        simpa using hcloses

end Runs
