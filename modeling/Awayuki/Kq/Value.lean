import Awayuki.Kq.Syntax

/-!
# KQ: values and operators

The dynamic values of `kq_evaluator.rs` and every operator on them, arm by arm.  `Value.unknown`
and the truth value `unknown` are the Missing of the query language.

Arithmetic is checked 64-bit arithmetic: an operation whose result leaves the range of `i64` has
no value.
-/

namespace Awayuki.Kq

/-! ### Truth -/

/-- Kleene's strong three-valued Boolean. -/
inductive Truth
  | true | false | unknown
  deriving DecidableEq, Repr

def Truth.not : Truth → Truth
  | .true => .false
  | .false => .true
  | .unknown => .unknown

def Truth.and : Truth → Truth → Truth
  | .false, _ => .false
  | _, .false => .false
  | .true, .true => .true
  | _, _ => .unknown

def Truth.or : Truth → Truth → Truth
  | .true, _ => .true
  | _, .true => .true
  | .false, .false => .false
  | _, _ => .unknown

def truth (value : Bool) : Truth := if value then .true else .false

/-! ### Values -/

inductive ScalarValue
  | number (value : ℤ)
  | text (value : Str)
  | identity (value : Str)
  deriving DecidableEq, Repr

inductive Value
  | unknown
  | bool (truth : Truth)
  | number (value : ℤ)
  | text (value : Str) (caseful : Bool)
  | identity (value : Str)
  | set (values : List ScalarValue)
  deriving DecidableEq, Repr

/-- `Value::text`: a text compared without regard to case. -/
def Value.ofText (value : Str) : Value := .text value Bool.false

def Value.boolean (value : Bool) : Value := .bool (Kq.truth value)

def Value.truth : Value → Truth
  | .bool truth => truth
  | _ => .unknown

def Value.intoScalar : Value → Option ScalarValue
  | .number value => some (.number value)
  | .text value _ => some (.text value)
  | .identity value => some (.identity value)
  | _ => none

/-! ### Checked arithmetic on `i64` -/

def i64Min : ℤ := -2 ^ 63

def i64Max : ℤ := 2 ^ 63 - 1

/-- The value, when it is in the range of `i64`. -/
def checked (n : ℤ) : Option ℤ := if i64Min ≤ n ∧ n ≤ i64Max then some n else none

/-- `i64::checked_div`: truncating, without a value for a zero divisor. -/
def checkedDiv (a b : ℤ) : Option ℤ := if b = 0 then none else checked (a.tdiv b)

def MAX_REGEX_BYTES : ℕ := 4 * 1024
def MAX_REGEX_INPUT_BYTES : ℕ := 1024 * 1024
def MAX_DERIVED_TEXT_BYTES : ℕ := 1024 * 1024

section

variable [Icu]

/-! ### Comparing identities and texts -/

/-- Equality of accounts, tags and set members: trimmed, without leading `@`, case-folded. -/
def selectorEqual (left right : Str) : Bool :=
  Icu.fold (left.trim.trimStartMatches '@') == Icu.fold (right.trim.trimStartMatches '@')

theorem selectorEqual_refl (t : Str) : selectorEqual t t = true := by simp [selectorEqual]

theorem selectorEqual_comm (t u : Str) : selectorEqual t u = selectorEqual u t := by
  exact Bool.beq_comm

theorem selectorEqual_trans {t u w : Str} (htu : selectorEqual t u = true)
    (huw : selectorEqual u w = true) : selectorEqual t w = true := by
  simp only [selectorEqual, beq_iff_eq] at *
  exact htu.trans huw

/-- Provider identifiers are compared verbatim. -/
def identityEqual (left right : Str) : Bool := left == right

def insensitiveContains (haystack needle : Str) : Bool :=
  (Icu.fold haystack).contains (Icu.fold needle)

def textEqual (left right : Str) (caseful : Bool) : Bool :=
  if caseful then left == right else Icu.fold left == Icu.fold right

/-- `i64::to_string`. -/
def numberText (n : ℤ) : Str := (toString n).toList

def scalarEqual : ScalarValue → ScalarValue → Bool
  | .number left, .number right => left == right
  | .text left, .text right => selectorEqual left right
  | .identity left, .identity right => identityEqual left right
  | .identity left, .text right => identityEqual left right
  | .text right, .identity left => identityEqual left right
  | .identity left, .number right => left == numberText right
  | .number right, .identity left => left == numberText right
  | .text _, .number _ => false
  | .number _, .text _ => false

def pushUniqueScalar (values : List ScalarValue) (value : ScalarValue) : List ScalarValue :=
  if values.any (scalarEqual · value) then values else values ++ [value]

def textParts : Value → Option (Str × Bool)
  | .text value caseful => some (value, caseful)
  | .identity value => some (value, Bool.false)
  | _ => none

/-! ### Operators -/

def evalUnary (operator : UnaryOp) (value : Value) : Value :=
  match operator with
  | .not => .bool value.truth.not
  | .negate =>
    match value with
    | .number value => (checked (-value)).elim .unknown .number
    | _ => .unknown
  | .caseful =>
    match value with
    | .text value _ => .text value Bool.true
    | _ => .unknown

def equalValues : Value → Value → Truth
  | .unknown, _ => .unknown
  | _, .unknown => .unknown
  | .bool left, .bool right =>
    if left = .unknown ∨ right = .unknown then .unknown
    else if left = right then .true else .false
  | .number left, .number right => truth (left == right)
  | .text left leftCaseful, .text right rightCaseful =>
    truth (textEqual left right (leftCaseful || rightCaseful))
  | .identity left, .identity right => truth (identityEqual left right)
  | .identity left, .text right _ => truth (identityEqual left right)
  | .text right _, .identity left => truth (identityEqual left right)
  | .identity left, .number right => truth (left == numberText right)
  | .number right, .identity left => truth (left == numberText right)
  | .set _, .set _ => .unknown
  | _, _ => .unknown

def compareNumbers (left right : Value) (compare : ℤ → ℤ → Bool) : Value :=
  match left, right with
  | .number left, .number right => .boolean (compare left right)
  | _, _ => .bool .unknown

def compareText (left right : Value) (compare : Str → Str → Bool) : Value :=
  match textParts left, textParts right with
  | some (left, leftCaseful), some (right, rightCaseful) =>
    if leftCaseful || rightCaseful then .boolean (compare left right)
    else .boolean (compare (Icu.fold left) (Icu.fold right))
  | _, _ => .bool .unknown

def contains (left right : Value) : Value :=
  if left = .unknown ∨ right = .unknown then .bool .unknown
  else match left, right with
    | .text _ _, .text _ _ | .text _ _, .identity _ | .identity _, .text _ _
    | .identity _, .identity _ => compareText left right Str.contains
    | .set values, .set wanted =>
      .boolean (values.any fun candidate => wanted.any fun item => scalarEqual candidate item)
    | .set values, scalar =>
      match scalar.intoScalar with
      | some wanted => .boolean (values.any fun candidate => scalarEqual candidate wanted)
      | none => .bool .unknown
    | _, _ => .bool .unknown

def isIn (left right : Value) : Value :=
  if left = .unknown ∨ right = .unknown then .bool .unknown
  else match right with
    | .set values =>
      match left with
      | .set wanted =>
        .boolean (wanted.any fun candidate => values.any fun item => scalarEqual candidate item)
      | scalar =>
        match scalar.intoScalar with
        | some wanted => .boolean (values.any fun candidate => scalarEqual candidate wanted)
        | none => .bool .unknown
    | _ => .bool .unknown

def add : Value → Value → Value
  | .number left, .number right => (checked (left + right)).elim .unknown .number
  | .text value caseful, .text right rightCaseful =>
    if value.len + right.len > MAX_DERIVED_TEXT_BYTES then .unknown
    else .text (value ++ right) (caseful || rightCaseful)
  | .set left, .set right => .set (right.foldl pushUniqueScalar left)
  | _, _ => .unknown

def subtract : Value → Value → Value
  | .number left, .number right => (checked (left - right)).elim .unknown .number
  | .set left, .set right =>
    .set (left.filter fun candidate => !right.any fun item => scalarEqual candidate item)
  | _, _ => .unknown

def multiply : Value → Value → Value
  | .number left, .number right => (checked (left * right)).elim .unknown .number
  | .set left, .set right =>
    .set (left.filter fun candidate => right.any fun item => scalarEqual candidate item)
  | _, _ => .unknown

def divide : Value → Value → Value
  | .number left, .number right => (checkedDiv left right).elim .unknown .number
  | _, _ => .unknown

/-- `Evaluator::regex`.  A pattern that was not compiled with the query is built here; the cache
of such patterns only remembers results of `build`, so it is not part of the value. -/
def regexMatch [RegexCrate] (input pattern : Value) (literalRegex : Option Regex) : Value :=
  match textParts input, textParts pattern with
  | some (input, _), some (pattern, _) =>
    if input.len > MAX_REGEX_INPUT_BYTES ∨ pattern.len > MAX_REGEX_BYTES then .bool .unknown
    else match literalRegex with
      | some regex => .boolean (regex.isMatch input)
      | none =>
        match RegexCrate.build ⟨MAX_REGEX_INPUT_BYTES, none, none⟩ pattern with
        | some regex => .boolean (regex.isMatch input)
        | none => .bool .unknown
  | _, _ => .bool .unknown

/-- The operators that evaluate both operands; `and` and `or` are `evalKind`'s. -/
def binaryValue [RegexCrate] (operator : BinaryOp) (literalRegex : Option Regex)
    (left right : Value) : Value :=
  match operator with
  | .or => .bool (left.truth.or right.truth)
  | .and => .bool (left.truth.and right.truth)
  | .equal => .bool (equalValues left right)
  | .notEqual => .bool (equalValues left right).not
  | .less => compareNumbers left right (· < ·)
  | .lessEqual => compareNumbers left right (· ≤ ·)
  | .greater => compareNumbers left right (· > ·)
  | .greaterEqual => compareNumbers left right (· ≥ ·)
  | .startsWith => compareText left right Str.startsWith
  | .endsWith => compareText left right Str.endsWith
  | .contains => contains left right
  | .in => isIn left right
  | .regex => regexMatch left right literalRegex
  | .add => add left right
  | .subtract => subtract left right
  | .multiply => multiply left right
  | .divide => divide left right

/-! ### Evaluation over a valuation of the fields -/

variable [RegexCrate]

mutual

/-- `Evaluator::eval`, with the fields' values given. -/
def evalWith (fields : Field → Value) : Expr → Value
  | .mk kind _ _ => evalKind fields kind

def evalKind (fields : Field → Value) : ExprKind → Value
  | .bool value => .boolean value
  | .number value => .number value
  | .text value => .ofText value
  | .identity value => .identity value
  | .set items => evalSet fields [] items
  | .field field => fields field
  | .unary operator operand => evalUnary operator (evalWith fields operand)
  | .binary .and left right _ =>
    -- short circuit: a false left side decides without the right side
    if (evalWith fields left).truth = .false then .bool .false
    else .bool ((evalWith fields left).truth.and (evalWith fields right).truth)
  | .binary .or left right _ =>
    if (evalWith fields left).truth = .true then .bool .true
    else .bool ((evalWith fields left).truth.or (evalWith fields right).truth)
  | .binary operator left right literalRegex =>
    binaryValue operator literalRegex (evalWith fields left) (evalWith fields right)

/-- `eval_set`, with the values collected so far. -/
def evalSet (fields : Field → Value) (values : List ScalarValue) : List Expr → Value
  | [] => .set values
  | item :: items =>
    match evalWith fields item with
    | .set nested => evalSet fields (nested.foldl pushUniqueScalar values) items
    | .unknown => .unknown
    | .bool _ => .unknown
    | scalar =>
      match scalar.intoScalar with
      | some scalar => evalSet fields (pushUniqueScalar values scalar) items
      | none => .unknown

end

/-- The short circuits of `and` and `or` do not show in the value. -/
theorem evalWith_binary (fields : Field → Value) (op : BinaryOp) (l r : Expr) (re : Option Regex)
    (t : ValueTypes) (s : Span) : evalWith fields (.mk (.binary op l r re) t s) =
      binaryValue op re (evalWith fields l) (evalWith fields r) := by
  cases op
  case and =>
    simp only [evalWith, evalKind, binaryValue]
    split
    next h => rw [h]; cases (evalWith fields r).truth <;> rfl
    next => rfl
  case or =>
    simp only [evalWith, evalKind, binaryValue]
    split
    next h => rw [h]; cases (evalWith fields r).truth <;> rfl
    next => rfl
  all_goals rfl

end

end Awayuki.Kq
