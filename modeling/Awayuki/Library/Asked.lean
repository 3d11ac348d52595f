import Mathlib.Tactic

/-!
# Computations that ask a function

A computation that asks a function for values as it goes on, and how it runs with a cache for
what has been answered before.

* `Asked`, `eval`, `bind`: the computation and its value;
* `cached`: the computation with a cache; `Faithful`: a cache of what the function answers;
* `cached_fst`: a faithful cache does not change the value, and stays faithful.
-/

variable {κ ν α β : Type}

/-- A computation that may ask for the value of a key, in any order and again. -/
inductive Asked (κ ν α : Type)
  | ret (value : α)
  | ask (key : κ) (next : ν → Asked κ ν α)

namespace Asked

def bind (f : α → Asked κ ν β) : Asked κ ν α → Asked κ ν β
  | ret value => f value
  | ask key next => ask key fun v => (next v).bind f

/-- The value when all questions are answered by the function. -/
def eval (answer : κ → ν) : Asked κ ν α → α
  | ret value => value
  | ask key next => (next (answer key)).eval answer

@[simp] theorem eval_bind (answer : κ → ν) (f : α → Asked κ ν β) (a : Asked κ ν α) :
    (a.bind f).eval answer = (f (a.eval answer)).eval answer := by
  induction a with
  | ret value => rfl
  | ask key next ih => exact ih (answer key)

/-- A cache of answers. -/
def Faithful (answer : κ → ν) (cache : List (κ × ν)) : Prop :=
  ∀ known ∈ cache, known.2 = answer known.1

theorem faithful_nil (answer : κ → ν) : Faithful answer [] := fun _ h => by cases h

variable [DecidableEq κ]

/-- The value from a cache; what is not in it is asked and kept. -/
def entry (answer : κ → ν) (cache : List (κ × ν)) (key : κ) : ν × List (κ × ν) :=
  match cache.find? fun known => known.1 = key with
  | some known => (known.2, cache)
  | none => (answer key, (key, answer key) :: cache)

def cached (answer : κ → ν) : Asked κ ν α → List (κ × ν) → α × List (κ × ν)
  | ret value, cache => (value, cache)
  | ask key next, cache =>
    let (v, cache) := entry answer cache key
    (next v).cached answer cache

theorem entry_faithful {answer : κ → ν} {cache : List (κ × ν)} (h : Faithful answer cache)
    (key : κ) : (entry answer cache key).1 = answer key ∧
      Faithful answer (entry answer cache key).2 := by
  unfold entry
  cases hfind : cache.find? fun known => known.1 = key with
  | some known =>
    refine ⟨?_, h⟩
    have hkey : known.1 = key := by simpa using List.find?_some hfind
    rw [← hkey]
    exact h known (List.mem_of_find?_eq_some hfind)
  | none => exact ⟨rfl, List.forall_mem_cons.2 ⟨rfl, h⟩⟩

theorem cached_fst {answer : κ → ν} {cache : List (κ × ν)} (h : Faithful answer cache)
    (a : Asked κ ν α) : (a.cached answer cache).1 = a.eval answer ∧
      Faithful answer (a.cached answer cache).2 := by
  induction a generalizing cache with
  | ret value => exact ⟨rfl, h⟩
  | ask key next ih =>
    obtain ⟨hvalue, hcache⟩ := entry_faithful h key
    have hnext := ih (entry answer cache key).1 hcache
    have hcached : (ask key next).cached answer cache =
        (next (entry answer cache key).1).cached answer (entry answer cache key).2 := rfl
    rw [hcached, hvalue]
    rw [hvalue] at hnext
    exact hnext

end Asked
