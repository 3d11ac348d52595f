import Awayuki.Kq.Syntax

/-!
# KQ: the lexer

Tokens, compile errors and the lexer.  The lexer reads the query text by byte positions; a slice
that is out of range or splits a character is a panic of the source and the failure `panic` here.

Each loop of the source is a recursion on a number of steps that suffices for it: the length of
the text.  The steps run out in no run; the result would then be `panic`.
-/

namespace Awayuki.Kq

/-! ### Failures -/

structure CompileError where
  message : Str
  span : Span
  line : ℕ
  column : ℕ
  deriving DecidableEq, Repr

/-- `CompileError::at`; `none` when one of its slices panics. -/
def CompileError.at? (input : Str) (span : Span) (message : Str) : Option CompileError :=
  let boundedStart := Str.floorBoundary input span.start
  let boundedEnd := max (Str.floorBoundary input span.stop) boundedStart
  (Str.takeBytes input boundedStart).bind fun before =>
    let line := before.count '\n' + 1
    let lineStart := ((before.rsplitOnce '\n').map fun lines => Str.len lines.1 + 1).getD 0
    (Str.slice input lineStart boundedStart).map fun lastLine =>
      ⟨message, ⟨boundedStart, boundedEnd⟩, line, lastLine.length + 1⟩

/-- Why compiling a query can fail. -/
inductive Failure
  | compile (error : CompileError)
  | panic
  deriving DecidableEq, Repr

/-- `Err(CompileError::at(..))`. -/
def failAt {α : Type} (input : Str) (span : Span) (message : String) : Except Failure α :=
  match CompileError.at? input span message with
  | some error => .error (.compile error)
  | none => .error .panic

theorem failAt_ne_ok {α : Type} {input : Str} {span : Span} {message : String} {a : α} :
    failAt input span message ≠ .ok a := by
  unfold failAt
  split <;> simp

/-- A step after another succeeds when both do. -/
theorem bind_eq_ok {α β : Type} {x : Except Failure α} {f : α → Except Failure β} {b : β} :
    x >>= f = .ok b ↔ ∃ a, x = .ok a ∧ f a = .ok b := by
  cases x with
  | error e => exact ⟨fun h => (nomatch h), fun ⟨_, h, _⟩ => nomatch h⟩
  | ok a =>
    refine ⟨fun h => ⟨a, rfl, h⟩, fun ⟨_, h, hf⟩ => ?_⟩
    cases h
    exact hf

/-! ### Tokens -/

inductive TokenKind
  | identifier (value : Str)
  | string (value : Str)
  | account (value : Str)
  | opaqueId (value : Str)
  | number (value : ℤ)
  | minMagnitude
  | leftParen | rightParen | leftBracket | rightBracket | comma | dot | colon | plus | minus
  | star | slash | bang | ampersand | pipe | equal | notEqual | less | lessEqual | greater
  | greaterEqual | arrowRight | arrowLeft
  | «end»
  deriving DecidableEq, Repr

structure Token where
  kind : TokenKind
  span : Span
  deriving DecidableEq, Repr

/-! ### Reading characters -/

/-- `Lexer::peek`. -/
def peek (input : Str) (position : ℕ) : Except Failure (Option Char) :=
  match Str.dropBytes input position with
  | some rest => .ok rest.head?
  | none => .error .panic

def sliceOrPanic (input : Str) (start stop : ℕ) : Except Failure Str :=
  match Str.slice input start stop with
  | some value => .ok value
  | none => .error .panic

/-- The position after the characters from `position` on that satisfy `p`. -/
def advanceWhile (input : Str) (p : Char → Bool) : (steps : ℕ) → ℕ → Except Failure ℕ
  | 0, _ => .error .panic
  | steps + 1, position => do
    match ← peek input position with
    | some c => if p c then advanceWhile input p steps (position + c.utf8Size) else .ok position
    | none => .ok position

/-- The rest of a string literal that starts at `start`, with the characters read so far. -/
def quotedLoop (input : Str) (start : ℕ) : (steps : ℕ) → Str → ℕ → Except Failure (Str × ℕ)
  | 0, _, _ => .error .panic
  | steps + 1, value, position => do
    match ← peek input position with
    | none => failAt input ⟨start, position⟩ "unterminated string literal"
    | some c =>
      let position := position + c.utf8Size
      if c = '"' then .ok (value, position)
      else if c = '\\' then
        match ← peek input position with
        | none => failAt input ⟨start, position⟩ "unterminated string escape"
        | some escaped =>
          let position := position + escaped.utf8Size
          if escaped = '"' ∨ escaped = '\\' then
            quotedLoop input start steps (value ++ [escaped]) position
          else quotedLoop input start steps (value ++ ['\\', escaped]) position
      else quotedLoop input start steps (value ++ [c]) position

/-- `Lexer::quoted`: the value and the end of the literal whose opening quote is at `start`. -/
def quoted (input : Str) (start : ℕ) : Except Failure (Str × ℕ) :=
  quotedLoop input start (input.length + 1) [] (start + 1)

def isLiteralDelimiter (c : Char) : Bool :=
  Str.isWhitespace c ||
    ['(', ')', '[', ']', ',', '&', '|', '=', '!', '<', '>', '+', '*', '/'].contains c

/-- The literal after the marker at `start`: an account (`@`) or an identifier (`#`). -/
def markedLiteral (input : Str) (delimiter : Char → Bool) (make : Str → TokenKind)
    (emptyMessage : String) (start : ℕ) : Except Failure (TokenKind × ℕ) := do
  let valueStart := start + 1
  if (← peek input valueStart) = some '"' then
    let (value, stop) ← quoted input valueStart
    if value.isEmpty then failAt input ⟨start, stop⟩ emptyMessage else .ok (make value, stop)
  else
    let stop ← advanceWhile input (!delimiter ·) (input.length + 1) valueStart
    if stop = valueStart then failAt input ⟨start, stop⟩ emptyMessage
    else .ok (make (← sliceOrPanic input valueStart stop), stop)

/-- `Lexer::account`. -/
def account (input : Str) (start : ℕ) : Except Failure (TokenKind × ℕ) :=
  markedLiteral input (fun c => isLiteralDelimiter c || c == ':') .account
    "empty account literal" start

/-- `Lexer::opaque_id`. -/
def opaqueId (input : Str) (start : ℕ) : Except Failure (TokenKind × ℕ) :=
  markedLiteral input isLiteralDelimiter .opaqueId "empty identifier literal" start

/-- `Lexer::number`. -/
def number (input : Str) (start : ℕ) : Except Failure (TokenKind × ℕ) := do
  let stop ← advanceWhile input Char.isDigit (input.length + 1) start
  match Str.digitsValue 10 (← sliceOrPanic input start stop) with
  | none => failAt input ⟨start, stop⟩ "integer literal is outside the signed 64-bit range"
  | some magnitude =>
    if magnitude < 2 ^ 63 then .ok (.number magnitude, stop)
    else if magnitude = 2 ^ 63 then .ok (.minMagnitude, stop)
    else failAt input ⟨start, stop⟩ "integer literal is outside the signed 64-bit range"

section

variable [CharTable]

def isIdentifierStart (c : Char) : Bool := c == '_' || CharTable.isAlphabetic c

def isIdentifierContinue (c : Char) : Bool := c == '_' || CharTable.isAlphanumeric c

/-- `Lexer::identifier`; `first` is the character at `start`. -/
def identifier (input : Str) (start : ℕ) (first : Char) : Except Failure (TokenKind × ℕ) := do
  let stop ← advanceWhile input isIdentifierContinue (input.length + 1) (start + first.utf8Size)
  .ok (.identifier (← sliceOrPanic input start stop), stop)

/-- An operator of one character, or of two if the second follows. -/
def oneOrTwo (input : Str) (position : ℕ) (one : TokenKind) (two : List (Char × TokenKind)) :
    Except Failure (TokenKind × ℕ) := do
  match (← peek input position).bind fun c => two.lookup c with
  | some kind => .ok (kind, position + 1)
  | none => .ok (one, position)

/-- The token that starts with `c` at `start`, and its end: the arms of `tokenize`. -/
def lexToken (input : Str) (start : ℕ) (c : Char) : Except Failure (TokenKind × ℕ) :=
  let next := start + c.utf8Size
  match c with
  | '"' => do
    let (value, stop) ← quoted input start
    .ok (.string value, stop)
  | '@' => account input start
  | '#' => opaqueId input start
  | '(' => .ok (.leftParen, next)
  | ')' => .ok (.rightParen, next)
  | '[' => .ok (.leftBracket, next)
  | ']' => .ok (.rightBracket, next)
  | ',' => .ok (.comma, next)
  | '.' => .ok (.dot, next)
  | ':' => .ok (.colon, next)
  | '+' => .ok (.plus, next)
  | '*' => .ok (.star, next)
  | '/' => .ok (.slash, next)
  | '&' => oneOrTwo input next .ampersand [('&', .ampersand)]
  | '|' => oneOrTwo input next .pipe [('|', .pipe)]
  | '=' => oneOrTwo input next .equal [('=', .equal)]
  | '!' => oneOrTwo input next .bang [('=', .notEqual)]
  | '-' => oneOrTwo input next .minus [('>', .arrowRight)]
  | '<' => oneOrTwo input next .less [('=', .lessEqual), ('-', .arrowLeft)]
  | '>' => oneOrTwo input next .greater [('=', .greaterEqual)]
  | _ =>
    if c.isDigit then number input start
    else if isIdentifierStart c then identifier input start c
    else failAt input ⟨start, next⟩ "unexpected character"

/-! ### The main loop -/

/-- `Lexer::push`. -/
def pushToken (input : Str) (limits : QueryLimits) (tokens : List Token) (token : Token) :
    Except Failure (List Token) :=
  if tokens.length ≥ limits.maxTokens then failAt input token.span "query token limit exceeded"
  else .ok (tokens ++ [token])

def tokenizeLoop (input : Str) (limits : QueryLimits) :
    (steps : ℕ) → List Token → ℕ → Except Failure (List Token)
  | 0, _, _ => .error .panic
  | steps + 1, tokens, position => do
    match ← peek input position with
    | none => pushToken input limits tokens ⟨.end, ⟨position, position⟩⟩
    | some c =>
      if Str.isWhitespace c then tokenizeLoop input limits steps tokens (position + c.utf8Size)
      else
        let (kind, stop) ← lexToken input position c
        let tokens ← pushToken input limits tokens ⟨kind, ⟨position, stop⟩⟩
        tokenizeLoop input limits steps tokens stop

/-- `Lexer::tokenize`. -/
def tokenize (input : Str) (limits : QueryLimits) : Except Failure (List Token) :=
  tokenizeLoop input limits (input.length + 1) [] 0

end

end Awayuki.Kq
