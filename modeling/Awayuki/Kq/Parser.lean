import Awayuki.Kq.Lexer
import Awayuki.Kq.ResolveField
import Awayuki.Kq.Requirements

/-!
# KQ: the parser

The recursive descent parser of `kq_filter.rs` and its type checks.  A parser reads a prefix of
the tokens that are left; the token list of the lexer ends with `end`, which is never consumed, so
that there always is a current token (to look past the list would be a panic).

* The binary levels `parse_or` to `parse_multiplicative` are one function, `parseChain`, at their
  operators and operands.
* `depth` grows with each nested group, set or prefix operator, and `guard_depth` stops the parser
  past `max_depth`; `nest` counts the depths that are left.
-/

namespace Awayuki.Kq

/-! ### Tokens that are left -/

/-- A parser: a result and the tokens after it. -/
abbrev Parse (α : Type) := List Token → Except Failure (α × List Token)

section

variable (input : Str)

/-- `Parser::error_current`. -/
def errorCurrent {α : Type} (message : String) : List Token → Except Failure α
  | [] => .error .panic
  | token :: _ => failAt input token.span message

/-- `Parser::advance`, which stays at `end`. -/
def advance : Parse Token
  | [] => .error .panic
  | token :: rest => .ok (token, if token.kind = .end then token :: rest else rest)

def atEnd (rest : List Token) : Bool := rest.head?.all (·.kind == .end)

/-- Is the token the keyword, in whatever case? -/
def Token.isKeyword (keyword : String) (token : Token) : Bool :=
  match token.kind with
  | .identifier value => value.eqIgnoreAsciiCase keyword
  | _ => false

def checkKeyword (keyword : String) (rest : List Token) : Bool :=
  rest.head?.any (·.isKeyword keyword)

def takeIf (p : Token → Bool) : List Token → Option (Token × List Token)
  | [] => none
  | token :: rest => if p token then some (token, rest) else none

def takeKeyword (keyword : String) : List Token → Option (Token × List Token) :=
  takeIf (·.isKeyword keyword)

/-- `check_simple`: here for any kind without a value. -/
def checkSimple (expected : TokenKind) (rest : List Token) : Bool :=
  rest.head?.any (·.kind == expected)

def takeSimple (expected : TokenKind) : List Token → Option (Token × List Token) :=
  takeIf (·.kind == expected)

def expectSimple (expected : TokenKind) (message : String) : Parse Token := fun rest =>
  match takeSimple expected rest with
  | some taken => .ok taken
  | none => errorCurrent input message rest

end

/-! ### Types of results -/

/-- `binary_result_types`. -/
def binaryResultTypes (op : BinaryOp) (left right : ValueTypes) : Option ValueTypes :=
  let same := left &&& right
  match op with
  | .or | .and => if left.intersects .BOOL && right.intersects .BOOL then some .BOOL else none
  | .equal | .notEqual =>
    if same.intersects (.BOOL ||| .NUMBER ||| .TEXT ||| .IDENTITY) ||
        left.intersects .IDENTITY && right.intersects (.TEXT ||| .NUMBER) ||
        right.intersects .IDENTITY && left.intersects (.TEXT ||| .NUMBER) then some .BOOL
    else none
  | .less | .lessEqual | .greater | .greaterEqual =>
    if left.intersects .NUMBER && right.intersects .NUMBER then some .BOOL else none
  | .regex | .startsWith | .endsWith =>
    if left.intersects .TEXT && right.intersects .TEXT then some .BOOL else none
  | .contains =>
    if left.intersects .TEXT && right.intersects .TEXT ||
        left.intersects .SET && right.intersects (.TEXT ||| .NUMBER ||| .IDENTITY ||| .SET) then
      some .BOOL
    else none
  | .in =>
    if right.intersects .SET && left.intersects (.TEXT ||| .NUMBER ||| .IDENTITY ||| .SET) then
      some .BOOL
    else none
  | .add => if same.intersects (.NUMBER ||| .TEXT ||| .SET) then some same else none
  | .subtract | .multiply => if same.intersects (.NUMBER ||| .SET) then some same else none
  | .divide =>
    if left.intersects .NUMBER && right.intersects .NUMBER then some .NUMBER else none

/-- The type that the operand of a prefix operator needs and that the result has. -/
def unaryTypes : UnaryOp → ValueTypes
  | .not => .BOOL
  | .negate => .NUMBER
  | .caseful => .TEXT

section

variable [RegexCrate] (input : Str) (limits : QueryLimits)

/-! ### Building expressions -/

/-- `Parser::make_unary`. -/
def makeUnary (op : UnaryOp) (operand : Expr) (operatorSpan : Span) : Except Failure Expr :=
  if operand.types.intersects (unaryTypes op) then
    .ok (.mk (.unary op operand) (unaryTypes op) ⟨operatorSpan.start, operand.span.stop⟩)
  else failAt input operatorSpan "unary operator cannot be applied to this value type"

def usizeMax : ℕ := 2 ^ 64 - 1

/-- The settings with which a literal pattern is built. -/
def literalRegexOptions : RegexOptions where
  sizeLimit := min (limits.maxRegexBytes * 64) usizeMax
  dfaSizeLimit := some (min (limits.maxRegexBytes * 256) usizeMax)
  nestLimit := some (limits.maxDepth % 2 ^ 32)

/-- The pattern of a `regex` operator, which must be a literal, compiled. -/
def compileRegex (pattern : Expr) : Except Failure Regex :=
  match pattern.kind with
  | .text text =>
    if text.len > limits.maxRegexBytes then
      failAt input pattern.span "regular expression limit exceeded"
    else
      match RegexCrate.build (literalRegexOptions limits) text with
      | some regex => .ok regex
      | none => failAt input pattern.span "invalid regular expression"
  | _ => failAt input pattern.span "regular expression pattern must be a string literal"

/-- `Parser::make_binary`. -/
def makeBinary (op : BinaryOp) (left right : Expr) (operatorSpan : Span) : Except Failure Expr :=
  match binaryResultTypes op left.types right.types with
  | none => failAt input operatorSpan "binary operator cannot be applied to these value types"
  | some resultTypes => do
    let literalRegex ←
      if op = .regex then (compileRegex input limits right).map some else .ok none
    .ok (.mk (.binary op left right literalRegex) resultTypes ⟨left.span.start, right.span.stop⟩)

/-- One operand and the operators that follow, each with its right operand. -/
def foldRight (first : Expr) : List (BinaryOp × Span × Expr) → Except Failure Expr
  | [] => .ok first
  | (op, span, operand) :: tails => do
    let right ← foldRight operand tails
    makeBinary input limits op first right span

/-- `Parser::right_fold_ops`. -/
def rightFoldOps (first : Expr) (tails : List (BinaryOp × Span × Expr)) : Except Failure Expr :=
  if tails.isEmpty then .ok first
  else if tails.length ≥ limits.maxDepth then
    match tails[limits.maxDepth - 1]? with
    | some (_, span, _) => failAt input span "expression depth limit exceeded"
    | none => .error .panic
  else foldRight input limits first tails

/-! ### Chains of binary operators -/

/-- The operators at the front and their right operands. -/
def parseTails (operator : Token → Option BinaryOp) (operand : Parse Expr) :
    (steps : ℕ) → Parse (List (BinaryOp × Span × Expr))
  | 0, rest => .ok ([], rest)
  | _, [] => .ok ([], [])
  | steps + 1, token :: rest =>
    match operator token with
    | none => .ok ([], token :: rest)
    | some op => do
      let (right, rest) ← operand rest
      let (tails, rest) ← parseTails operator operand steps rest
      .ok ((op, token.span, right) :: tails, rest)

/-- A level of binary operators: operands joined by operators, grouped to the right. -/
def parseChain (operator : Token → Option BinaryOp) (operand : Parse Expr) : Parse Expr :=
  fun rest => do
    let (first, rest) ← operand rest
    let (tails, rest) ← parseTails operator operand rest.length rest
    let expression ← rightFoldOps input limits first tails
    .ok (expression, rest)

def orOperator (token : Token) : Option BinaryOp :=
  if token.kind = .pipe ∨ token.isKeyword "or" then some .or else none

def andOperator (token : Token) : Option BinaryOp :=
  if token.kind = .ampersand ∨ token.isKeyword "and" then some .and else none

def equalityOperator (token : Token) : Option BinaryOp :=
  if token.kind = .equal then some .equal
  else if token.kind = .notEqual then some .notEqual
  else none

def comparisonOperator (token : Token) : Option BinaryOp :=
  if token.kind = .less then some .less
  else if token.kind = .lessEqual then some .lessEqual
  else if token.kind = .greater then some .greater
  else if token.kind = .greaterEqual then some .greaterEqual
  else none

def matchOperator (token : Token) : Option BinaryOp :=
  if token.isKeyword "regex" ∨ token.isKeyword "match" then some .regex
  else if token.isKeyword "startswith" ∨ token.isKeyword "startwith" then some .startsWith
  else if token.isKeyword "endswith" ∨ token.isKeyword "endwith" then some .endsWith
  else if token.isKeyword "contains" ∨ token.kind = .arrowRight then some .contains
  else if token.isKeyword "in" ∨ token.kind = .arrowLeft then some .in
  else none

def additiveOperator (token : Token) : Option BinaryOp :=
  if token.kind = .plus then some .add
  else if token.kind = .minus then some .subtract
  else none

def multiplicativeOperator (token : Token) : Option BinaryOp :=
  if token.kind = .star then some .multiply
  else if token.kind = .slash then some .divide
  else none

/-! ### Primary expressions -/

/-- The dotted rest of a field path, and where the path ends. -/
def parseParts (stop : ℕ) : List Token → Except Failure (List Str × ℕ × List Token)
  | [] => .ok ([], stop, [])
  | [token] => if token.kind = .dot then .error .panic else .ok ([], stop, [token])
  | token :: component :: rest =>
    if token.kind = .dot then
      match component.kind with
      | .identifier part => do
        let (parts, stop, rest) ← parseParts component.span.stop rest
        .ok (part :: parts, stop, rest)
      | _ => failAt input component.span "field component expected after dot"
    else .ok ([], stop, token :: component :: rest)

/-- `Parser::parse_field_or_boolean`. -/
def parseFieldOrBoolean (first : Str) (start : Span) : Parse Expr := fun rest =>
  if first.eqIgnoreAsciiCase "true" ∨ first.eqIgnoreAsciiCase "false" then
    .ok (.mk (.bool (first.eqIgnoreAsciiCase "true")) .BOOL start, rest)
  else do
    let (parts, stop, rest) ← parseParts input start.stop rest
    match resolveField (first :: parts) with
    | some field => .ok (.mk (.field field) field.valueTypes ⟨start.start, stop⟩, rest)
    | none => failAt input ⟨start.start, stop⟩ "field is unsupported or unavailable"

/-- The items of a set that has at least one, `count` items after its beginning. -/
def parseItems (item : Parse Expr) : (steps : ℕ) → (count : ℕ) → Parse (List Expr)
  | 0, _, _ => .error .panic
  | steps + 1, count, rest =>
    if count ≥ limits.maxSetItems then errorCurrent input "set item limit exceeded" rest
    else do
      let (value, rest) ← item rest
      if !value.types.intersects (.NUMBER ||| .TEXT ||| .IDENTITY) then
        failAt input value.span "set items must be scalar values"
      else
        match takeSimple .comma rest with
        | none => .ok ([value], rest)
        | some (_, rest) =>
          if checkSimple .rightBracket rest then .ok ([value], rest)
          else do
            let (values, rest) ← parseItems item steps (count + 1) rest
            .ok (value :: values, rest)

/-- `Parser::parse_set`, after the bracket `«open»`. -/
def parseSet (item : Parse Expr) («open» : Span) : Parse Expr := fun rest => do
  let (values, rest) ←
    if checkSimple .rightBracket rest then .ok ([], rest)
    else parseItems input limits item (rest.length + 1) 0 rest
  let (close, rest) ← expectSimple input .rightBracket "set is missing a closing bracket" rest
  .ok (.mk (.set values) .SET ⟨«open».start, close.span.stop⟩, rest)

/-- `Parser::parse_primary`; `inner` is `parse_or` one deeper. -/
def parsePrimary (inner : Parse Expr) : Parse Expr := fun rest => do
  let (token, rest) ← advance rest
  match token.kind with
  | .number value => .ok (.mk (.number value) .NUMBER token.span, rest)
  | .minMagnitude =>
    failAt input token.span "integer literal is outside the signed 64-bit range"
  | .string value | .account value => .ok (.mk (.text value) .TEXT token.span, rest)
  | .opaqueId value => .ok (.mk (.identity value) .IDENTITY token.span, rest)
  | .star => .ok (.mk (.field .ourAccounts) .SET token.span, rest)
  | .identifier first => parseFieldOrBoolean input first token.span rest
  | .leftParen =>
    match takeSimple .rightParen rest with
    | some (_, rest) => .ok (.mk (.bool true) .BOOL token.span, rest)
    | none => do
      let (expression, rest) ← inner rest
      let (close, rest) ←
        expectSimple input .rightParen "group is missing a closing parenthesis" rest
      .ok (.mk expression.kind expression.types ⟨token.span.start, close.span.stop⟩, rest)
  | .leftBracket => parseSet input limits inner token.span rest
  | .end => failAt input token.span "expression expected"
  | _ => failAt input token.span "value or field expected"

/-! ### The levels -/

/-- `parse_or` and `parse_unary` at one depth. -/
structure Nest where
  or : Parse Expr
  unary : Parse Expr

def unaryOperator (token : Token) : Option UnaryOp :=
  if token.kind = .bang ∨ token.isKeyword "not" then some .not
  else if token.kind = .minus then some .negate
  else if token.isKeyword "caseful" then some .caseful
  else none

/-- `Parser::parse_unary`; `inner` is one deeper. -/
def parseUnary (inner : Nest) : Parse Expr
  | [] => .error .panic
  | token :: rest =>
    match unaryOperator token with
    | none => parsePrimary input limits inner.or (token :: rest)
    | some op =>
      match op, takeSimple .minMagnitude rest with
      | .negate, some (magnitude, rest) =>
        .ok (.mk (.number i64Min) .NUMBER ⟨token.span.start, magnitude.span.stop⟩, rest)
      | _, _ => do
        let (operand, rest) ← inner.unary rest
        let expression ← makeUnary input op operand token.span
        .ok (expression, rest)

def parseMultiplicative (inner : Nest) : Parse Expr :=
  parseChain input limits multiplicativeOperator (parseUnary input limits inner)

def parseAdditive (inner : Nest) : Parse Expr :=
  parseChain input limits additiveOperator (parseMultiplicative input limits inner)

def parseMatchOperator (inner : Nest) : Parse Expr :=
  parseChain input limits matchOperator (parseAdditive input limits inner)

def parseComparison (inner : Nest) : Parse Expr :=
  parseChain input limits comparisonOperator (parseMatchOperator input limits inner)

def parseEquality (inner : Nest) : Parse Expr :=
  parseChain input limits equalityOperator (parseComparison input limits inner)

def parseAnd (inner : Nest) : Parse Expr :=
  parseChain input limits andOperator (parseEquality input limits inner)

def parseOr (inner : Nest) : Parse Expr :=
  parseChain input limits orOperator (parseAnd input limits inner)

/-- The parsers at a depth with `left` depths left, this one included: none, and `guard_depth`
fails. -/
def nest : (left : ℕ) → Nest
  | 0 => ⟨errorCurrent input "query nesting limit exceeded",
      errorCurrent input "query nesting limit exceeded"⟩
  | left + 1 => ⟨parseOr input limits (nest left), parseUnary input limits (nest left)⟩

/-- `parse_or(0)`. -/
def parsePredicate : Parse Expr := (nest input limits (limits.maxDepth + 1)).or

end

end Awayuki.Kq
