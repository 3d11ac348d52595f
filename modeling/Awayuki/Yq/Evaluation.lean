import Awayuki.Library.Asked
import Awayuki.Kq.Syntax
import Awayuki.Yq.Filter

/-!
# YQ: evaluation with a cache

`register_custom_functions` of `services/yq_filter.rs`: the function `regex`, which keeps the
expressions that it has compiled.

* `Evaluation`: an evaluation that may ask for compiled expressions;
* `regexFunction`, `YqCrate`: the function, and an evaluator that calls it;
* `matchesWith`, `freshMatches`: the filter on one status, with the cache of a scan and with a new
  one;
* `matchesWith_eq`: it makes no difference.
-/

namespace Awayuki.Yq

/-- An evaluation, with `Regex::new` for what it asks; an error is `none`. -/
abbrev Evaluation := Asked Str (Option Kq.Regex) (Option Expression)

abbrev EvaluationCache := List (Str × Option Kq.Regex)

/-- What `regex` takes for a text. -/
def Expression.text : Expression → Option Str
  | .string value => some value
  | .symbol name => some name.toList
  | _ => none

/-- The function that `register_custom_functions` registers; it has the context evaluate its
arguments, one after the other. -/
def regexFunction : List Evaluation → Evaluation
  | [] => .ret none
  | haystack :: cdr => haystack.bind fun haystack =>
    match haystack, cdr with
    | some haystack, pattern :: _ => pattern.bind fun pattern =>
      match pattern with
      | none => .ret none
      | some pattern =>
        match haystack.text, pattern.text with
        | some h, some p =>
          .ask p fun re => .ret (some (boolToExpr (re.any fun regex => regex.isMatch h)))
        | _, _ => .ret (some .nil)
    | _, _ => .ret none

/-- `Context::evaluate` of the `yq` crate with that function.  None of its functions sets a
variable, so nothing but the cache is left of an evaluation. -/
structure YqCrate where
  evaluate : VariableProvider → Expression → Evaluation
  regex (provider : VariableProvider) (args : List Expression) :
    evaluate provider (.list (.symbol "regex" :: args)) =
      regexFunction (args.map (evaluate provider))

variable (yq : YqCrate) (newRegex : Str → Option Kq.Regex)

/-- An evaluation with a new cache. -/
def YqCrate.freshEvaluate (provider : VariableProvider) (e : Expression) : Option Expression :=
  ((yq.evaluate provider e).cached newRegex []).1

variable [SerdeJson]

/-- `Evaluator::matches` with the cache that it is given, and what it leaves. -/
def YqCrate.matchesWith (cache : EvaluationCache) (query : Expression) (status : StatusRow)
    (account : Option DbAccount) : Bool × EvaluationCache :=
  let (result, cache) := (yq.evaluate (MastodonVariableProvider.get ⟨status, account⟩) query).cached
    newRegex cache
  ((result.map fun result => !result.isNil).getD false, cache)

/-- `Evaluator::matches` with a new cache. -/
def YqCrate.freshMatches (query : Expression) (status : StatusRow) (account : Option DbAccount) :
    Bool :=
  Evaluator.matches (yq.freshEvaluate newRegex) query status account

/-- The cache of a scan does not change what matches. -/
theorem YqCrate.matchesWith_eq {cache : EvaluationCache} (h : Asked.Faithful newRegex cache)
    (query : Expression) (status : StatusRow) (account : Option DbAccount) :
    (yq.matchesWith newRegex cache query status account).1 =
        yq.freshMatches newRegex query status account ∧
      Asked.Faithful newRegex (yq.matchesWith newRegex cache query status account).2 := by
  obtain ⟨hvalue, hcache⟩ := Asked.cached_fst h
    (yq.evaluate (MastodonVariableProvider.get ⟨status, account⟩) query)
  have hfresh := (Asked.cached_fst (Asked.faithful_nil newRegex)
    (yq.evaluate (MastodonVariableProvider.get ⟨status, account⟩) query)).1
  refine ⟨?_, hcache⟩
  unfold freshMatches Evaluator.matches freshEvaluate matchesWith
  dsimp only
  rw [hvalue, hfresh]
  cases Asked.eval newRegex _ <;> rfl

end Awayuki.Yq
