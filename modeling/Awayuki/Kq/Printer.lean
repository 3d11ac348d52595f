import Awayuki.Kq.Derivation
import Awayuki.Kq.Lexeme

/-!
# KQ: printing expressions

The canonical text of an expression, with a parenthesis only where the grammar needs one, and what
the compiler's limits say of it.

* `WellTyped`: the expressions that the type checker of the parser builds;
* `Expr.tokens`: the tokens of an expression that stands where the grammar wants one of height at
  most `h`;
* `Expr.eraseSpans`: the expression without its places in a text.
-/

namespace Awayuki.Kq

/-! ### Expressions without places -/

mutual

/-- The expression with every span set to zero. -/
def Expr.eraseSpans : Expr → Expr
  | .mk (.set items) types _ => .mk (.set (eraseItemSpans items)) types ⟨0, 0⟩
  | .mk (.unary op operand) types _ => .mk (.unary op operand.eraseSpans) types ⟨0, 0⟩
  | .mk (.binary op left right regex) types _ =>
    .mk (.binary op left.eraseSpans right.eraseSpans regex) types ⟨0, 0⟩
  | .mk kind types _ => .mk kind types ⟨0, 0⟩

def eraseItemSpans : List Expr → List Expr
  | [] => []
  | item :: items => item.eraseSpans :: eraseItemSpans items

end

/-! ### Tokens of an expression -/

def UnaryOp.token : UnaryOp → TokenKind
  | .not => .bang
  | .negate => .minus
  | .caseful => .identifier "caseful"

def BinaryOp.token : BinaryOp → TokenKind
  | .or => .pipe
  | .and => .ampersand
  | .equal => .equal
  | .notEqual => .notEqual
  | .less => .less
  | .lessEqual => .lessEqual
  | .greater => .greater
  | .greaterEqual => .greaterEqual
  | .regex => .identifier "regex"
  | .startsWith => .identifier "startswith"
  | .endsWith => .identifier "endswith"
  | .contains => .arrowRight
  | .in => .arrowLeft
  | .add => .plus
  | .subtract => .minus
  | .multiply => .star
  | .divide => .slash

def pathTokens : List Str → List TokenKind
  | [] => []
  | part :: parts => .identifier part :: parts.flatMap fun part => [.dot, .identifier part]

mutual

/-- The tokens of an expression where the grammar wants a height of at most `h`. -/
def Expr.tokens (h : ℕ) : Expr → List TokenKind
  | .mk (.bool true) _ _ => [.identifier "true"]
  | .mk (.bool false) _ _ => [.identifier "false"]
  | .mk (.number value) _ _ => if value = i64Min then [.minus, .minMagnitude] else [.number value]
  | .mk (.text value) _ _ => [.string value]
  | .mk (.identity value) _ _ => [.opaqueId value]
  | .mk (.set items) _ _ => .leftBracket :: itemTokens items ++ [.rightBracket]
  | .mk (.field field) _ _ => pathTokens field.path
  | .mk (.unary op operand) _ _ => op.token :: operand.tokens 0
  | .mk (.binary op left right _) _ _ =>
    let tokens := left.tokens (op.height - 1) ++ op.token :: right.tokens op.height
    if op.height ≤ h then tokens else .leftParen :: tokens ++ [.rightParen]

/-- The items of a set, with commas between them. -/
def itemTokens : List Expr → List TokenKind
  | [] => []
  | [item] => item.tokens 7
  | item :: items => item.tokens 7 ++ .comma :: itemTokens items

end

section

variable {types : ValueTypes} {span : Span} {h : ℕ}

theorem Expr.tokens_number {value : ℤ} : (Expr.mk (.number value) types span).tokens h =
    if value = i64Min then [.minus, .minMagnitude] else [.number value] := rfl

theorem Expr.tokens_set {items : List Expr} : (Expr.mk (.set items) types span).tokens h =
    .leftBracket :: (itemTokens items ++ [.rightBracket]) := rfl

theorem Expr.tokens_field {field : Field} :
    (Expr.mk (.field field) types span).tokens h = pathTokens field.path := rfl

theorem Expr.tokens_unary {op : UnaryOp} {operand : Expr} :
    (Expr.mk (.unary op operand) types span).tokens h = op.token :: operand.tokens 0 := rfl

end

/-! ### Limits -/

mutual

/-- How deep the groups, sets and prefix operators of the text are nested. -/
def Expr.depth (h : ℕ) : Expr → ℕ
  | .mk (.set []) _ _ => 0
  | .mk (.set (item :: items)) _ _ => itemDepth (item :: items) + 1
  | .mk (.unary _ operand) _ _ => operand.depth 0 + 1
  | .mk (.binary op left right _) _ _ =>
    let depth := max (left.depth (op.height - 1)) (right.depth op.height)
    if op.height ≤ h then depth else depth + 1
  | _ => 0

def itemDepth : List Expr → ℕ
  | [] => 0
  | item :: items => max (item.depth 7) (itemDepth items)

end

/-- The number of operators of height `g` that are chained from the root on. -/
def Expr.chain (g : ℕ) : Expr → ℕ
  | .mk (.binary op _ right _) _ _ => if op.height = g then right.chain g + 1 else 0
  | _ => 0

mutual

/-- Chains of operators and sets are no longer than the limits allow. -/
def Expr.Within (limits : QueryLimits) : Expr → Prop
  | .mk (.set items) _ _ => items.length ≤ limits.maxSetItems ∧ ItemsWithin limits items
  | .mk (.unary _ operand) _ _ => operand.Within limits
  | .mk (.binary op left right regex) types span => left.Within limits ∧ right.Within limits ∧
      (Expr.mk (.binary op left right regex) types span).chain op.height < limits.maxDepth
  | _ => True

def ItemsWithin (limits : QueryLimits) : List Expr → Prop
  | [] => True
  | item :: items => item.Within limits ∧ ItemsWithin limits items

end

/-! ### Types -/

/-- The expressions that the compiler can build: literals are as the lexer reads them, types as
the parser assigns them, and a pattern is compiled. -/
inductive WellTyped [RegexCrate] (limits : QueryLimits) : Expr → Prop
  | bool (value span) : WellTyped limits (.mk (.bool value) .BOOL span)
  | number (value span) (range : value = i64Min ∨ 0 ≤ value ∧ value < 2 ^ 63) :
      WellTyped limits (.mk (.number value) .NUMBER span)
  | text (value span) : WellTyped limits (.mk (.text value) .TEXT span)
  | identity (value span) (nonempty : value ≠ []) :
      WellTyped limits (.mk (.identity value) .IDENTITY span)
  | set (items span) (typed : ∀ item ∈ items, WellTyped limits item)
      (scalar : ∀ item ∈ items, item.types.intersects (.NUMBER ||| .TEXT ||| .IDENTITY) = true) :
      WellTyped limits (.mk (.set items) .SET span)
  | field (field span) : WellTyped limits (.mk (.field field) field.valueTypes span)
  | unary (op operand span) (typed : WellTyped limits operand)
      (applies : operand.types.intersects (unaryTypes op) = true) :
      WellTyped limits (.mk (.unary op operand) (unaryTypes op) span)
  | binary (op left right types span) (typedLeft : WellTyped limits left)
      (typedRight : WellTyped limits right)
      (applies : binaryResultTypes op left.types right.types = some types) (plain : op ≠ .regex) :
      WellTyped limits (.mk (.binary op left right none) types span)
  | regex (left right pattern regex types span) (typedLeft : WellTyped limits left)
      (typedRight : WellTyped limits right)
      (applies : binaryResultTypes .regex left.types right.types = some types)
      (literal : right.kind = .text pattern) (short : pattern.len ≤ limits.maxRegexBytes)
      (compiled : RegexCrate.build (literalRegexOptions limits) pattern = some regex) :
      WellTyped limits (.mk (.binary .regex left right (some regex)) types span)

end Awayuki.Kq
