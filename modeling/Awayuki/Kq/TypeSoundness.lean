import Awayuki.Kq.Monotone
import Awayuki.Kq.Typing

/-!
# KQ: type soundness

The type checker of the compiler and the operators of the evaluator agree: a subexpression of an
accepted predicate is Missing or has a value of its static type, and no operator meets operands
that it has no arm for.

* `UnaryOp.hasArm`, `BinaryOp.hasArm`: the operands that an operator has an arm of its own for;
* `Fallback`: the evaluator reaches an arm for operands of a wrong type;
* `MissingArises`: why a value is Missing.
-/

namespace Awayuki.Kq

open Information

/-! ### Types of values -/

/-- The type of a value. -/
def Value.types : Value → ValueTypes
  | .unknown => ⟨0⟩
  | .bool _ => .BOOL
  | .number _ => .NUMBER
  | .text _ _ => .TEXT
  | .identity _ => .IDENTITY
  | .set _ => .SET

/-- The value is Missing or has one of the types. -/
def Value.HasType (v : Value) (types : ValueTypes) : Prop :=
  Missing v ∨ types.intersects v.types = true

/-! ### The arms of the operators -/

def UnaryOp.hasArm : UnaryOp → Value → Bool
  | .not, .bool _ | .negate, .number _ | .caseful, .text _ _ => true
  | _, _ => false

/-- Has the operator an arm for these operands?  The other pairs of values that are there fall to
an arm that yields Missing. -/
def BinaryOp.hasArm : BinaryOp → Value → Value → Bool
  | .or, .bool _, .bool _ | .and, .bool _, .bool _ => true
  | .equal, left, right | .notEqual, left, right =>
    match left, right with
    | .bool _, .bool _ | .number _, .number _ | .text _ _, .text _ _ | .identity _, .identity _
    | .identity _, .text _ _ | .text _ _, .identity _ | .identity _, .number _
    | .number _, .identity _ => true
    | _, _ => false
  | .regex, left, right | .startsWith, left, right | .endsWith, left, right =>
    (textParts left).isSome && (textParts right).isSome
  | .contains, .set _, .set _ | .in, .set _, .set _ => true
  | .contains, .set _, right => right.intoScalar.isSome
  | .contains, left, right => (textParts left).isSome && (textParts right).isSome
  | .in, left, .set _ => left.intoScalar.isSome
  | .less, .number _, .number _ | .lessEqual, .number _, .number _
  | .greater, .number _, .number _ | .greaterEqual, .number _, .number _ => true
  | .add, .text _ _, .text _ _ => true
  | .add, .number _, .number _ | .subtract, .number _, .number _ | .multiply, .number _, .number _
  | .divide, .number _, .number _ => true
  | .add, .set _, .set _ | .subtract, .set _, .set _ | .multiply, .set _, .set _ => true
  | _, _, _ => false

section

variable [Icu] [RegexCrate] (fields : Field → Value)

/-- Evaluating the expression reaches an arm for operands of a wrong type: an operand that is
there, and that the operator, or the set, has no arm for. -/
def Fallback : Expr → Prop
  | .mk (.set items) _ _ => ∃ item ∈ items, ¬ Missing (evalWith fields item) ∧
      (evalWith fields item).types = .BOOL
  | .mk (.unary op operand) _ _ =>
    ¬ Missing (evalWith fields operand) ∧ op.hasArm (evalWith fields operand) = false
  | .mk (.binary .and left right _) _ _ | .mk (.binary .or left right _) _ _ =>
    ∃ operand ∈ [left, right],
      ¬ Missing (evalWith fields operand) ∧ (evalWith fields operand).types ≠ .BOOL
  | .mk (.binary op left right _) _ _ =>
    ¬ Missing (evalWith fields left) ∧ ¬ Missing (evalWith fields right) ∧
      op.hasArm (evalWith fields left) (evalWith fields right) = false
  | _ => False

/-! ### Causes of Missing -/

/-- The exact result of an arithmetic operator. -/
def exactResult : BinaryOp → ℤ → ℤ → Option ℤ
  | .add, a, b => some (a + b)
  | .subtract, a, b => some (a - b)
  | .multiply, a, b => some (a * b)
  | .divide, a, b => if b = 0 then none else some (a.tdiv b)
  | _, _, _ => none

/-- Why an operator has no value for operands that are there: the result leaves the range of
`i64`, the divisor is zero, or a text is too long. -/
inductive Fails : BinaryOp → Value → Value → Prop
  | overflow (op) (a b n : ℤ) (exact : exactResult op a b = some n) (range : checked n = none) :
      Fails op (.number a) (.number b)
  | divisionByZero (a : ℤ) : Fails .divide (.number a) (.number 0)
  | longText (a b : Str) (caseful caseful' : Bool) (long : a.len + b.len > MAX_DERIVED_TEXT_BYTES) :
      Fails .add (.text a caseful) (.text b caseful')
  | longInput (left right : Value) (a b : Str × Bool) (input : textParts left = some a)
      (pattern : textParts right = some b)
      (long : a.1.len > MAX_REGEX_INPUT_BYTES ∨ b.1.len > MAX_REGEX_BYTES) :
      Fails .regex left right

/-- Why the value of an expression is Missing: a field is, an operator fails, or an operand is
Missing for such a cause. -/
inductive MissingArises : Expr → Prop
  | field (field types span) (missing : Missing (fields field)) :
      MissingArises (.mk (.field field) types span)
  | item (items types span) (item : Expr) (mem : item ∈ items)
      (missing : Missing (evalWith fields item)) (cause : MissingArises item) :
      MissingArises (.mk (.set items) types span)
  | operand (op operand types span) (missing : Missing (evalWith fields operand))
      (cause : MissingArises operand) : MissingArises (.mk (.unary op operand) types span)
  | left (op left right regex types span) (missing : Missing (evalWith fields left))
      (cause : MissingArises left) : MissingArises (.mk (.binary op left right regex) types span)
  | right (op left right regex types span) (missing : Missing (evalWith fields right))
      (cause : MissingArises right) : MissingArises (.mk (.binary op left right regex) types span)
  | negate (operand types span) (n : ℤ) (value : evalWith fields operand = .number n)
      (range : checked (-n) = none) : MissingArises (.mk (.unary .negate operand) types span)
  | operator (op left right regex types span)
      (fails : Fails op (evalWith fields left) (evalWith fields right)) :
      MissingArises (.mk (.binary op left right regex) types span)

end

/-! ### Static types -/

variable {limits : QueryLimits}

/-- The types that the checker assigns are single ones. -/
def ValueTypes.Single (types : ValueTypes) : Prop :=
  types ∈ [ValueTypes.BOOL, .NUMBER, .TEXT, .SET, .IDENTITY]

instance (types : ValueTypes) : Decidable types.Single :=
  inferInstanceAs (Decidable (types ∈ _))

theorem Field.valueTypes_single (f : Field) : f.valueTypes.Single := by
  cases f <;> decide

variable {types left right : ValueTypes} {op : BinaryOp}

theorem binaryResultTypes_single (hl : left.Single) (hr : right.Single)
    (h : binaryResultTypes op left right = some types) : types.Single := by
  have hall : ∀ left ∈ [ValueTypes.BOOL, .NUMBER, .TEXT, .SET, .IDENTITY],
      ∀ right ∈ [ValueTypes.BOOL, .NUMBER, .TEXT, .SET, .IDENTITY],
      ∀ types ∈ binaryResultTypes op left right, types.Single := by
    cases op <;> decide
  exact hall left hl right hr types h

/-- `and` and `or` are accepted between Booleans only. -/
theorem boolOperands (hop : op = .and ∨ op = .or) (hl : left.Single) (hr : right.Single)
    (h : binaryResultTypes op left right = some types) : left = .BOOL ∧ right = .BOOL := by
  have hall : ∀ left ∈ [ValueTypes.BOOL, .NUMBER, .TEXT, .SET, .IDENTITY],
      ∀ right ∈ [ValueTypes.BOOL, .NUMBER, .TEXT, .SET, .IDENTITY],
      (binaryResultTypes op left right).isSome = true → left = .BOOL ∧ right = .BOOL := by
    rcases hop with rfl | rfl <;> decide
  exact hall left hl right hr (by rw [h]; rfl)

theorem unaryTypes_single (op : UnaryOp) : (unaryTypes op).Single := by
  cases op <;> decide

theorem WellTyped.single [RegexCrate] {e : Expr} (he : WellTyped limits e) : e.types.Single := by
  cases he with
  | bool | number | text | identity | set => exact of_decide_eq_true rfl
  | field field => exact field.valueTypes_single
  | unary op => exact unaryTypes_single op
  | binary op left right types span typedLeft typedRight applies =>
    exact binaryResultTypes_single typedLeft.single typedRight.single applies
  | regex left right pattern regex types span typedLeft typedRight applies =>
    exact binaryResultTypes_single typedLeft.single typedRight.single applies

variable {v : Value}

/-- A value that is there has the one type that it can have. -/
theorem Value.HasType.eq (h : v.HasType types) (hsingle : types.Single) (hv : ¬ Missing v) :
    types = v.types := by
  have hall : ∀ t ∈ [ValueTypes.BOOL, .NUMBER, .TEXT, .SET, .IDENTITY],
      ∀ t' ∈ [ValueTypes.BOOL, .NUMBER, .TEXT, .SET, .IDENTITY], t.intersects t' = true → t = t' := by
    decide
  refine hall types hsingle v.types ?_ (h.resolve_left hv)
  cases v
  case unknown => exact absurd (.inl rfl) hv
  all_goals exact of_decide_eq_true rfl

/-! ### One operator -/

theorem hasArm_of_unaryTypes {op : UnaryOp} (hv : ¬ Missing v)
    (h : v.types.intersects (unaryTypes op) = true) : op.hasArm v = true := by
  cases op <;> cases v <;> simp only [Value.types, unaryTypes] at h <;>
    first | rfl | exact absurd h (by decide)

variable {l r : Value}

theorem hasArm_of_binaryResultTypes (hl : l ≠ .unknown) (hr : r ≠ .unknown)
    (h : (binaryResultTypes op l.types r.types).isSome = true) : op.hasArm l r = true := by
  cases l
  case unknown => exact absurd rfl hl
  all_goals
    cases r
    case unknown => exact absurd rfl hr
    all_goals
      simp only [Value.types] at h
      cases op <;>
        first
        | rfl
        | exact absurd h (by decide)

/-- The type of the result of an operator. -/
def BinaryOp.resultTypes (op : BinaryOp) (left : ValueTypes) : ValueTypes :=
  match op with
  | .add | .subtract | .multiply | .divide => left
  | _ => .BOOL

theorem binaryResultTypes_eq (hl : left.Single) (hr : right.Single)
    (h : binaryResultTypes op left right = some types) : types = op.resultTypes left := by
  have hall : ∀ left ∈ [ValueTypes.BOOL, .NUMBER, .TEXT, .SET, .IDENTITY],
      ∀ right ∈ [ValueTypes.BOOL, .NUMBER, .TEXT, .SET, .IDENTITY],
      ∀ types ∈ binaryResultTypes op left right, types = op.resultTypes left := by
    cases op <;> decide
  exact hall left hl right hr types h

theorem Value.types_elim {n : Option ℤ} :
    Missing (n.elim Value.unknown .number) ∨ (n.elim Value.unknown .number).types = .NUMBER := by
  cases n with
  | none => exact .inl (.inl rfl)
  | some n => exact .inr rfl

theorem compareText_bool [Icu] (l r : Value) (compare : Str → Str → Bool) :
    (compareText l r compare).types = .BOOL := by
  unfold compareText
  split
  · split <;> rfl
  · rfl

theorem contains_bool [Icu] (l r : Value) : (contains l r).types = .BOOL := by
  unfold contains
  split_ifs
  · rfl
  · split
    case h_1 | h_2 | h_3 | h_4 => exact compareText_bool _ _ _
    case h_5 => rfl
    case h_6 => split <;> rfl
    case h_7 => rfl

theorem isIn_bool [Icu] (l r : Value) : (isIn l r).types = .BOOL := by
  unfold isIn
  split_ifs
  · rfl
  · split
    · split
      · rfl
      · split <;> rfl
    · rfl

theorem regexMatch_bool [RegexCrate] (l r : Value) (re : Option Regex) :
    (regexMatch l r re).types = .BOOL := by
  unfold regexMatch
  split
  · split_ifs
    · rfl
    · split
      · rfl
      · split <;> rfl
  · rfl

/-- The result of an operator has the type that the checker says. -/
theorem binaryValue_types [Icu] [RegexCrate] (op : BinaryOp) (re : Option Regex) (l r : Value) :
    Missing (binaryValue op re l r) ∨ (binaryValue op re l r).types = op.resultTypes l.types := by
  cases op
  case or | and | equal | notEqual => exact .inr rfl
  case less | lessEqual | greater | greaterEqual =>
    cases l <;> cases r <;> exact .inr rfl
  case startsWith | endsWith => exact .inr (compareText_bool l r _)
  case regex => exact .inr (regexMatch_bool l r re)
  case contains => exact .inr (contains_bool l r)
  case «in» => exact .inr (isIn_bool l r)
  case add =>
    cases l <;> cases r
    case number.number => exact Value.types_elim
    case text.text =>
      simp only [binaryValue, add]
      split
      · exact .inl (.inl rfl)
      · exact .inr rfl
    case set.set => exact .inr rfl
    all_goals exact .inl (.inl rfl)
  case subtract | multiply =>
    cases l <;> cases r
    case number.number => exact Value.types_elim
    case set.set => exact .inr rfl
    all_goals exact .inl (.inl rfl)
  case divide =>
    cases l <;> cases r
    case number.number => exact Value.types_elim
    all_goals exact .inl (.inl rfl)

theorem Value.not_missing_bool {t : Truth} (h : ¬ Missing (Value.bool t)) : t ≠ .unknown :=
  fun ht => h (.inr (congrArg Value.bool ht))

theorem Value.not_missing_boolean (b : Bool) : ¬ Missing (Value.boolean b) := by
  cases b <;> simp [Value.missing_iff, Value.boolean, Kq.truth]

theorem checked_of_missing {n : Option ℤ} (h : Missing (n.elim Value.unknown .number)) :
    n = none := by
  cases n with
  | none => rfl
  | some n => rcases h with h | h <;> cases h

theorem compareText_not_missing [Icu] {compare : Str → Str → Bool}
    (h : ((textParts l).isSome && (textParts r).isSome) = true) :
    ¬ Missing (compareText l r compare) := by
  obtain ⟨hl, hr⟩ := Bool.and_eq_true_iff.1 h
  obtain ⟨⟨x, c⟩, hx⟩ := Option.isSome_iff_exists.1 hl
  obtain ⟨⟨y, d⟩, hy⟩ := Option.isSome_iff_exists.1 hr
  simp only [compareText, hx, hy]
  split_ifs <;> exact Value.not_missing_boolean _

theorem equalValues_known [Icu] (hl : ¬ Missing l) (hr : ¬ Missing r)
    (harm : BinaryOp.equal.hasArm l r = true) : equalValues l r ≠ .unknown := by
  have htruth : ∀ b, Kq.truth b ≠ .unknown := by decide
  cases l <;> cases r <;> cases harm
  case bool.bool.refl t u =>
    simp only [equalValues, Value.not_missing_bool hl, Value.not_missing_bool hr, or_self, if_false]
    split_ifs <;> simp
  all_goals exact htruth _

theorem contains_not_missing [Icu] (harm : BinaryOp.contains.hasArm l r = true) :
    ¬ Missing (contains l r) := by
  cases l <;> cases r
  case text.text | text.identity | identity.text | identity.identity =>
    simp only [contains, reduceCtorEq, or_self, if_false]
    exact compareText_not_missing rfl
  case set.number | set.text | set.identity | set.set => exact Value.not_missing_boolean _
  all_goals exact absurd harm Bool.false_ne_true

theorem isIn_not_missing [Icu] (harm : BinaryOp.in.hasArm l r = true) : ¬ Missing (isIn l r) := by
  cases l <;> cases r <;> cases harm
  all_goals exact Value.not_missing_boolean _

/-- Among operands that it has an arm for, an operator has no value for the stated causes only. -/
theorem fails_of_missing [Icu] [RegexCrate] {re : Option Regex} (hl : ¬ Missing l)
    (hr : ¬ Missing r) (harm : op.hasArm l r = true) (hre : op = .regex → re.isSome = true)
    (h : Missing (binaryValue op re l r)) : Fails op l r := by
  -- the checked result leaves the range
  have hnumber : ∀ {a b n : ℤ}, exactResult op a b = some n →
      Missing ((checked n).elim Value.unknown .number) → Fails op (.number a) (.number b) :=
    fun hexact hn => .overflow op _ _ _ hexact (checked_of_missing hn)
  cases op
  case or | and =>
    cases l <;> cases r <;> cases harm
    rename_i t u
    have ht := Value.not_missing_bool hl
    have hu := Value.not_missing_bool hr
    have hresult := Truth.missing_iff.1 (Value.missing_bool.1 h)
    cases t <;> cases u <;>
      first
      | exact absurd rfl ht
      | exact absurd rfl hu
      | cases hresult
  case equal => exact absurd (Value.missing_bool.1 h) (equalValues_known hl hr harm)
  case notEqual =>
    have hequal := equalValues_known hl hr harm
    simp only [binaryValue, Value.missing_bool, Truth.missing_iff] at h
    cases heq : equalValues l r <;> simp_all [Truth.not]
  case less | lessEqual | greater | greaterEqual =>
    cases l <;> cases r <;> cases harm
    exact absurd h (Value.not_missing_boolean _)
  case startsWith | endsWith => exact absurd h (compareText_not_missing harm)
  case contains => exact absurd h (contains_not_missing harm)
  case «in» => exact absurd h (isIn_not_missing harm)
  case regex =>
    obtain ⟨regex, rfl⟩ := Option.isSome_iff_exists.1 (hre rfl)
    obtain ⟨hx, hy⟩ := Bool.and_eq_true_iff.1 harm
    obtain ⟨x, hx⟩ := Option.isSome_iff_exists.1 hx
    obtain ⟨y, hy⟩ := Option.isSome_iff_exists.1 hy
    by_cases hlong : x.1.len > MAX_REGEX_INPUT_BYTES ∨ y.1.len > MAX_REGEX_BYTES
    · exact .longInput l r x y hx hy hlong
    · simp only [binaryValue, regexMatch, hx, hy, if_neg hlong] at h
      exact absurd h (Value.not_missing_boolean _)
  case add =>
    cases l <;> cases r <;> cases harm
    case number.number => exact hnumber rfl h
    case text.text =>
      simp only [binaryValue, add] at h
      split_ifs at h with hlong
      · exact .longText _ _ _ _ hlong
      · rcases h with h | h <;> cases h
    case set.set => rcases h with h | h <;> cases h
  case subtract | multiply =>
    cases l <;> cases r <;> cases harm
    case number.number => exact hnumber rfl h
    case set.set => rcases h with h | h <;> cases h
  case divide =>
    cases l <;> cases r <;> cases harm
    rename_i a b
    by_cases hb : b = 0
    · subst hb
      exact .divisionByZero a
    · refine hnumber (if_neg hb) ?_
      simpa only [binaryValue, divide, checkedDiv, if_neg hb] using h

/-! ### Fields -/

theorem Value.hasType_unknown (types : ValueTypes) : Value.unknown.HasType types := .inl (.inl rfl)

theorem Value.HasType.of_types (hsingle : types.Single) (h : v.types = types) :
    v.HasType types := by
  have hall : ∀ t ∈ [ValueTypes.BOOL, .NUMBER, .TEXT, .SET, .IDENTITY], t.intersects t = true := by
    decide
  exact .inr (h ▸ hall types hsingle)

theorem Value.hasType_elim {α : Type} {o : Option α} {f : α → Value}
    (h : ∀ a, (f a).HasType types) : (o.elim .unknown f).HasType types := by
  cases o with
  | none => exact hasType_unknown types
  | some a => exact h a

@[simp] theorem Value.hasType_bool (t : Truth) : (Value.bool t).HasType .BOOL :=
  .of_types (by decide) rfl

@[simp] theorem Value.hasType_number (n : ℤ) : (Value.number n).HasType .NUMBER :=
  .of_types (by decide) rfl

@[simp] theorem Value.hasType_text (x : Str) : (Value.ofText x).HasType .TEXT :=
  .of_types (by decide) rfl

@[simp] theorem Value.hasType_identity (x : Str) : (Value.identity x).HasType .IDENTITY :=
  .of_types (by decide) rfl

@[simp] theorem Value.hasType_set (values : List ScalarValue) : (Value.set values).HasType .SET :=
  .of_types (by decide) rfl

theorem nonemptyText_hasType (x : Str) : (nonemptyText x).HasType .TEXT := by
  unfold nonemptyText
  split_ifs
  · exact Value.hasType_unknown _
  · exact Value.hasType_text x

theorem optionalNonemptyText_hasType (x : Option Str) : (optionalNonemptyText x).HasType .TEXT :=
  Value.hasType_elim nonemptyText_hasType

theorem optionalIdentity_hasType (x : Option Str) : (optionalIdentity x).HasType .IDENTITY :=
  Value.hasType_elim Value.hasType_identity

theorem usizeNumber_hasType (n : ℕ) : (usizeNumber n).HasType .NUMBER :=
  Value.hasType_elim Value.hasType_number

theorem mediaFieldValue_hasType [Icu] [SerdeJson] (field : Field) (status : DbStatus)
    (h : field ∈ [Field.hasMedia, .mediaCount, .mediaTypes, .mediaDescriptions, .hasImage, .hasVideo,
      .hasAudio]) : (mediaFieldValue field status).HasType field.valueTypes := by
  unfold mediaFieldValue
  split
  · exact Value.hasType_unknown _
  · simp only [List.mem_cons, List.not_mem_nil, or_false] at h
    rcases h with rfl | rfl | rfl | rfl | rfl | rfl | rfl
    case inr.inl => exact usizeNumber_hasType _
    case inr.inr.inl | inr.inr.inr.inl => exact Value.hasType_set _
    all_goals exact Value.hasType_bool _

theorem pollFieldValue_hasType [Icu] [SerdeJson] (field : Field) (status : DbStatus)
    (h : field ∈ [Field.hasPoll, .pollId, .pollExpired, .pollMultiple, .pollVotesCount,
      .pollVotersCount, .pollOptionsCount, .pollOptions, .pollExpiresAt]) :
    (pollFieldValue field status).HasType field.valueTypes := by
  unfold pollFieldValue
  split
  · split_ifs with hpoll
    · exact hpoll ▸ Value.hasType_bool _
    · exact Value.hasType_unknown _
  · exact Value.hasType_unknown _
  · simp only [List.mem_cons, List.not_mem_nil, or_false] at h
    rcases h with rfl | rfl | rfl | rfl | rfl | rfl | rfl | rfl | rfl
    case inr.inl => exact optionalIdentity_hasType _
    case inl | inr.inr.inl | inr.inr.inr.inl => exact Value.hasType_bool _
    case inr.inr.inr.inr.inl => exact Value.hasType_number _
    case inr.inr.inr.inr.inr.inl => exact Value.hasType_elim Value.hasType_number
    case inr.inr.inr.inr.inr.inr.inl => exact usizeNumber_hasType _
    case inr.inr.inr.inr.inr.inr.inr.inl => exact Value.hasType_set _
    case inr.inr.inr.inr.inr.inr.inr.inr => exact Value.hasType_elim Value.hasType_text

theorem accountFieldValue_hasType (field : Field) (account : DbAccount) (status : DbStatus) :
    (accountFieldValue field account status).HasType field.valueTypes := by
  cases field
  case authorId | boosterId => exact Value.hasType_identity _
  case authorLocked | authorBot | boosterLocked | boosterBot => exact Value.hasType_bool _
  case authorFollowers | authorFollowing | authorStatuses | boosterFollowers | boosterFollowing
      | boosterStatuses => exact Value.hasType_number _
  case authorUsername | authorAcct | authorDisplayName | authorNote | authorDomain
      | boosterUsername | boosterAcct | boosterDisplayName | boosterNote | boosterDomain =>
    exact Value.hasType_text _
  all_goals exact Value.hasType_unknown _

theorem statusApplication_hasType [SerdeJson] (status : DbStatus) :
    (statusApplication status).HasType .TEXT := by
  unfold statusApplication
  split
  · exact nonemptyText_hasType _
  · exact Value.hasType_unknown _
  · exact Value.hasType_unknown _

theorem mentionsValue_hasType [Icu] [SerdeJson] (status : DbStatus) :
    (mentionsValue status).HasType .SET := by
  unfold mentionsValue
  split
  · exact Value.hasType_unknown _
  · split_ifs
    · exact Value.hasType_unknown _
    · exact Value.hasType_set _

theorem tagsValue_hasType [Icu] [SerdeJson] (status : DbStatus) :
    (tagsValue status).HasType .SET := by
  unfold tagsValue
  split
  · split_ifs
    · exact Value.hasType_unknown _
    · exact Value.hasType_set _
  · exact Value.hasType_unknown _

theorem statusFieldValue_hasType [Icu] [SerdeJson] (field : Field) (status : DbStatus)
    (account : Option DbAccount) : (statusFieldValue field status account).HasType field.valueTypes := by
  have hmedia := mediaFieldValue_hasType field status
  have hpoll := pollFieldValue_hasType field status
  cases field
  case id => exact Value.hasType_identity _
  case inReplyTo | replyAccountId => exact optionalIdentity_hasType _
  case uri => exact nonemptyText_hasType _
  case url | language | editedAt => exact optionalNonemptyText_hasType _
  case text | rawContent | visibility | spoilerText | domain => exact Value.hasType_text _
  case favouritesCount | reblogsCount | repliesCount => exact Value.hasType_number _
  case directMessage | isReply | hasSpoiler | sensitive | hasQuote | edited | isPublic | isUnlisted
      | isPrivate => exact Value.hasType_bool _
  case application => exact statusApplication_hasType status
  case mentions => exact mentionsValue_hasType status
  case hashtags => exact tagsValue_hasType status
  case hasMedia | mediaCount | mediaTypes | mediaDescriptions | hasImage | hasVideo | hasAudio =>
    exact hmedia (by decide)
  case hasPoll | pollId | pollExpired | pollMultiple | pollVotesCount | pollVotersCount
      | pollOptionsCount | pollOptions | pollExpiresAt =>
    exact hpoll (by decide)
  case hasCard =>
    unfold statusFieldValue
    dsimp only
    split <;> exact Value.hasType_bool _
  case authorId | authorUsername | authorAcct | authorDisplayName | authorNote | authorLocked
      | authorBot | authorFollowers | authorFollowing | authorStatuses | authorDomain =>
    exact Value.hasType_elim fun account => accountFieldValue_hasType _ account status
  all_goals exact Value.hasType_unknown _

theorem quoteFieldValue_hasType (field : Field) (context : EvaluationContext) :
    (quoteFieldValue field context).HasType field.valueTypes := by
  unfold quoteFieldValue
  split
  · exact Value.hasType_unknown _
  · cases field
    case quoteId => exact Value.hasType_elim fun _ => Value.hasType_identity _
    case quoteUrl => exact Value.hasType_elim Value.hasType_text
    case quoteText => exact Value.hasType_elim fun _ => Value.hasType_text _
    case quoteAuthorAcct =>
      rcases context.quote with _ | ⟨status, _ | account⟩
      · exact Value.hasType_unknown _
      · exact Value.hasType_unknown _
      · exact Value.hasType_text _
    all_goals exact Value.hasType_unknown _

/-- Every field has the type that the checker says. -/
theorem fieldValue_hasType [Icu] [SerdeJson] (field : Field) (context : EvaluationContext)
    (branch : SourceBranch) :
    (fieldValue field context branch).HasType field.valueTypes := by
  have hbooster : (boosterFieldValue field context).HasType field.valueTypes := by
    unfold boosterFieldValue
    split_ifs
    · exact Value.hasType_unknown _
    · exact Value.hasType_elim fun account => accountFieldValue_hasType field account _
  have heffective : (effectiveFieldValue field context).HasType field.valueTypes := by
    unfold effectiveFieldValue
    split
    · exact Value.hasType_unknown _
    · exact statusFieldValue_hasType field _ _
  have hquote := quoteFieldValue_hasType field context
  cases field
  case boost => exact Value.hasType_bool _
  case ourAccounts => exact Value.hasType_set _
  case boosterId | boosterUsername | boosterAcct | boosterDisplayName | boosterNote | boosterLocked
      | boosterBot | boosterFollowers | boosterFollowing | boosterStatuses | boosterDomain =>
    exact hbooster
  case quoteId | quoteUrl | quoteText | quoteAuthorAcct => exact hquote
  case viewerFavourited | viewerReblogged | viewerMuted | viewerBookmarked | viewerPinned =>
    exact Value.hasType_bool _
  all_goals exact heffective

/-! ### Expressions -/

section

variable [Icu] [RegexCrate] (fields : Field → Value)

/-- A set has a value unless an item is Missing or a Boolean. -/
theorem evalSet_cases (items : List Expr) (values : List ScalarValue) :
    (∃ values', evalSet fields values items = .set values') ∨
      evalSet fields values items = .unknown ∧ ∃ item ∈ items,
        Missing (evalWith fields item) ∨ (evalWith fields item).types = .BOOL := by
  induction items generalizing values with
  | nil => exact .inl ⟨values, rfl⟩
  | cons item items ih =>
    have hlater : ∀ {values : List ScalarValue}, evalSet fields values items = .unknown ∧
        (∃ item ∈ items, Missing (evalWith fields item) ∨ (evalWith fields item).types = .BOOL) →
        evalSet fields values items = .unknown ∧ ∃ later ∈ item :: items,
          Missing (evalWith fields later) ∨ (evalWith fields later).types = .BOOL :=
      fun ⟨heval, later, hmem, h⟩ => ⟨heval, later, List.mem_cons_of_mem _ hmem, h⟩
    cases hitem : evalWith fields item with
    | unknown => exact .inr ⟨by simp [evalSet, hitem], item, List.mem_cons_self, .inl (.inl hitem)⟩
    | bool t => exact .inr ⟨by simp [evalSet, hitem], item, List.mem_cons_self, .inr (by rw [hitem]; rfl)⟩
    | number | text | identity | set =>
      simp only [evalSet, hitem, Value.intoScalar]
      exact (ih _).imp_right hlater

/-- What the checker promises of the evaluation of an expression. -/
structure TypeSound (e : Expr) : Prop where
  hasType : (evalWith fields e).HasType e.types
  arises : Missing (evalWith fields e) → MissingArises fields e
  noFallback : ¬ Fallback fields e

variable {fields}

theorem TypeSound.of_value {e : Expr} (h : (evalWith fields e).HasType e.types)
    (hv : ¬ Missing (evalWith fields e)) (hfallback : ¬ Fallback fields e) : TypeSound fields e :=
  ⟨h, fun hmissing => absurd hmissing hv, hfallback⟩

theorem TypeSound.set {items : List Expr} (span : Span)
    (h : ∀ item ∈ items, TypeSound fields item) (hsingle : ∀ item ∈ items, item.types.Single)
    (hscalar : ∀ item ∈ items, item.types.intersects (.NUMBER ||| .TEXT ||| .IDENTITY) = true) :
    TypeSound fields (.mk (.set items) .SET span) := by
  have hbool : ∀ item ∈ items, ¬ Missing (evalWith fields item) →
      (evalWith fields item).types ≠ .BOOL := by
    intro item hmem hv htypes
    have := hscalar item hmem
    rw [(h item hmem).hasType.eq (hsingle item hmem) hv, htypes] at this
    exact absurd this (by decide)
  have hfallback : ¬ Fallback fields (.mk (.set items) .SET span) :=
    fun ⟨item, hmem, hv, htypes⟩ => hbool item hmem hv htypes
  rcases evalSet_cases fields items [] with ⟨values, hvalues⟩ | ⟨hunknown, item, hmem, hitem⟩
  · have heval : evalWith fields (.mk (.set items) .SET span) = .set values := hvalues
    refine .of_value ?_ ?_ hfallback
    · rw [heval]
      exact Value.hasType_set values
    · rw [heval]
      rintro (h | h) <;> cases h
  · have hmissing : Missing (evalWith fields item) :=
      by_contra fun hv => (hitem.resolve_left hv |> hbool item hmem hv)
    exact ⟨.inl (.inl hunknown),
      fun _ => .item items _ span item hmem hmissing ((h item hmem).arises hmissing), hfallback⟩

theorem TypeSound.unary {operand : Expr} (op : UnaryOp) (span : Span)
    (h : TypeSound fields operand) (hsingle : operand.types.Single)
    (happlies : operand.types.intersects (unaryTypes op) = true) :
    TypeSound fields (.mk (.unary op operand) (unaryTypes op) span) := by
  have heval : evalWith fields (.mk (.unary op operand) (unaryTypes op) span) =
    evalUnary op (evalWith fields operand) := rfl
  by_cases hmissing : Missing (evalWith fields operand)
  · exact ⟨.inl (evalUnary_strict op _ hmissing),
      fun _ => .operand op operand _ span hmissing (h.arises hmissing),
      fun hfallback => hfallback.1 hmissing⟩
  have harm : op.hasArm (evalWith fields operand) = true := by
    rw [h.hasType.eq hsingle hmissing] at happlies
    exact hasArm_of_unaryTypes hmissing happlies
  refine ⟨?_, fun hm => ?_, fun hfallback => by simp [hfallback.2] at harm⟩
  · rw [heval]
    cases op <;> cases hv : evalWith fields operand <;> simp only [hv, UnaryOp.hasArm,
      Bool.false_eq_true] at harm
    case not.bool => exact Value.hasType_bool _
    case negate.number => exact Value.hasType_elim Value.hasType_number
    case caseful.text => exact .of_types (unaryTypes_single .caseful) rfl
  · rw [heval] at hm
    cases op <;> cases hv : evalWith fields operand <;> simp only [hv, UnaryOp.hasArm,
      Bool.false_eq_true] at harm hm
    case not.bool t =>
      have ht := Value.not_missing_bool (hv ▸ hmissing)
      cases t <;> simp_all [evalUnary, Value.missing_iff, Value.truth, Truth.not]
    case negate.number => exact .negate operand _ span _ hv (checked_of_missing hm)
    case caseful.text => rcases hm with hm | hm <;> cases hm

theorem TypeSound.binary {left right : Expr} (op : BinaryOp) (regex : Option Regex) (span : Span)
    (hl : TypeSound fields left) (hr : TypeSound fields right) (hlsingle : left.types.Single)
    (hrsingle : right.types.Single)
    (happlies : binaryResultTypes op left.types right.types = some types)
    (hregex : op = .regex → regex.isSome = true) :
    TypeSound fields (.mk (.binary op left right regex) types span) := by
  have heval := evalWith_binary fields op left right regex types span
  have hsingle := binaryResultTypes_single hlsingle hrsingle happlies
  -- operands that are there have their static types, so the operator has an arm for them
  have harm : ¬ Missing (evalWith fields left) → ¬ Missing (evalWith fields right) →
      op.hasArm (evalWith fields left) (evalWith fields right) = true := by
    intro hlv hrv
    rw [hl.hasType.eq hlsingle hlv, hr.hasType.eq hrsingle hrv] at happlies
    exact hasArm_of_binaryResultTypes (fun h => hlv (.inl h)) (fun h => hrv (.inl h))
      (by rw [happlies]; rfl)
  have hfallback : ¬ Fallback fields (.mk (.binary op left right regex) types span) := by
    by_cases hop : op = .and ∨ op = .or
    · obtain ⟨hlbool, hrbool⟩ := boolOperands hop hlsingle hrsingle happlies
      have hoperand : ∀ operand ∈ [left, right], ¬ Missing (evalWith fields operand) →
          (evalWith fields operand).types = .BOOL := by
        simp only [List.mem_cons, List.not_mem_nil, or_false]
        rintro operand (rfl | rfl) hv
        · exact (hl.hasType.eq hlsingle hv).symm.trans hlbool
        · exact (hr.hasType.eq hrsingle hv).symm.trans hrbool
      rcases hop with rfl | rfl
      · rintro ⟨operand, hmem, hv, hne⟩
        exact hne (hoperand operand hmem hv)
      · rintro ⟨operand, hmem, hv, hne⟩
        exact hne (hoperand operand hmem hv)
    · intro h
      obtain ⟨hlv, hrv, hno⟩ : ¬ Missing (evalWith fields left) ∧
          ¬ Missing (evalWith fields right) ∧
          op.hasArm (evalWith fields left) (evalWith fields right) = false := by
        cases op <;> first | exact h | exact absurd (by decide) hop
      exact Bool.false_ne_true (hno.symm.trans (harm hlv hrv))
  refine ⟨?_, fun hm => ?_, hfallback⟩
  · rw [heval]
    have htypes := binaryResultTypes_eq hlsingle hrsingle happlies
    rcases binaryValue_types op regex (evalWith fields left) (evalWith fields right) with h | h
    · exact .inl h
    by_cases hlv : Missing (evalWith fields left)
    · cases op
      case add | subtract | multiply | divide =>
        exact .inl (binaryValue_strict (by decide) (by decide) _ _ _ (.inl hlv))
      all_goals exact .of_types hsingle (h.trans htypes.symm)
    · rw [← hl.hasType.eq hlsingle hlv] at h
      exact .of_types hsingle (h.trans htypes.symm)
  · by_cases hlv : Missing (evalWith fields left)
    · exact .left op left right regex types span hlv (hl.arises hlv)
    by_cases hrv : Missing (evalWith fields right)
    · exact .right op left right regex types span hrv (hr.arises hrv)
    · exact .operator op left right regex types span
        (fails_of_missing hlv hrv (harm hlv hrv) hregex (heval ▸ hm))

/-- A well-typed expression over fields of their static types is type sound. -/
theorem WellTyped.typeSound {e : Expr} (he : WellTyped limits e)
    (hfields : ∀ field, (fields field).HasType field.valueTypes) : TypeSound fields e := by
  induction he with
  | bool value span =>
    exact .of_value (Value.hasType_bool _) (Value.not_missing_boolean value) id
  | number value span =>
    refine .of_value (Value.hasType_number value) ?_ id
    rintro (h | h) <;> cases h
  | text value span =>
    refine .of_value (Value.hasType_text value) ?_ id
    rintro (h | h) <;> cases h
  | identity value span =>
    refine .of_value (Value.hasType_identity value) ?_ id
    rintro (h | h) <;> cases h
  | set items span typed scalar ih =>
    exact .set span ih (fun item hmem => (typed item hmem).single) scalar
  | field field span => exact ⟨hfields field, fun h => .field field _ span h, id⟩
  | unary op operand span typed applies ih => exact .unary op span ih typed.single applies
  | binary op left right types span typedLeft typedRight applies plain ihl ihr =>
    exact .binary op none span ihl ihr typedLeft.single typedRight.single applies
      fun h => absurd h plain
  | regex left right pattern regex types span typedLeft typedRight applies _ _ _ ihl ihr =>
    exact .binary .regex (some regex) span ihl ihr typedLeft.single typedRight.single applies
      fun _ => rfl

/-! ### Compiled queries -/

/-- The first expression occurs in the second. -/
inductive Subexpr : Expr → Expr → Prop
  | refl (e) : Subexpr e e
  | item {s item : Expr} {items : List Expr} (types span) (mem : item ∈ items)
      (sub : Subexpr s item) : Subexpr s (.mk (.set items) types span)
  | operand {s operand : Expr} (op types span) (sub : Subexpr s operand) :
      Subexpr s (.mk (.unary op operand) types span)
  | left {s left : Expr} (op right regex types span) (sub : Subexpr s left) :
      Subexpr s (.mk (.binary op left right regex) types span)
  | right {s right : Expr} (op left regex types span) (sub : Subexpr s right) :
      Subexpr s (.mk (.binary op left right regex) types span)

omit [Icu] in
theorem WellTyped.subexpr {s e : Expr} (h : Subexpr s e) (he : WellTyped limits e) :
    WellTyped limits s := by
  induction h with
  | refl => exact he
  | item types span mem _ ih =>
    cases he with
    | set items span typed => exact ih (typed _ mem)
  | operand op types span _ ih =>
    cases he with
    | unary op operand span typed => exact ih typed
  | left op right regex types span _ ih =>
    cases he with
    | binary _ _ _ _ _ typedLeft => exact ih typedLeft
    | regex _ _ _ _ _ _ typedLeft => exact ih typedLeft
  | right op left regex types span _ ih =>
    cases he with
    | binary _ _ _ _ _ _ typedRight => exact ih typedRight
    | regex _ _ _ _ _ _ _ typedRight => exact ih typedRight

/-- Every subexpression of the predicate of a compiled query is type sound, for every row and
branch of a source. -/
theorem compileQuery_typeSound [SerdeJson] [CharTable] (text : Str) (limits : QueryLimits)
    (query : CompiledQuery) (h : compileQueryWithLimits text limits = .ok query)
    (context : EvaluationContext) (branch : SourceBranch) (s : Expr)
    (hs : Subexpr s query.predicate) :
    TypeSound (fun field => fieldValue field context branch) s :=
  ((compile_wellTyped h).1.subexpr hs).typeSound fun field => fieldValue_hasType field context branch

end

section

attribute [local instance] asciiCharTable asciiIcu rejectingJson noRegex

theorem compileQuery_typeSound_boost :
    let boost : Expr := .mk (.field .boost) .BOOL ⟨18, 23⟩
    TypeSound
      (fun field => fieldValue field
        ⟨⟨.plain "1" "a.test" "7", none⟩, none, none, [], [], [], []⟩ ⟨none⟩) boost :=
  let boost : Expr := .mk (.field .boost) .BOOL ⟨18, 23⟩
  compileQuery_typeSound "from local where !boost" .default
    (.of [⟨.local, [], ⟨5, 10⟩⟩] (.mk (.unary .not boost) .BOOL ⟨17, 23⟩)) rfl _ _ boost
    (.operand .not .BOOL ⟨17, 23⟩ (.refl boost))

end

end Awayuki.Kq
