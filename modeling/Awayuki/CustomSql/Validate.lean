import Awayuki.Text

/-!
# Validation of custom timeline SQL

`custom_timeline.rs` accepts one statement that begins with `SELECT`, and puts it in parentheses
into a query of its own.

* `validate`: the scan over comments, quotes and words, with the errors and their byte offsets;
* `hasTopLevelLimit`: does the statement have a `LIMIT` of its own?
* `wrappers`: what is put around a statement.
-/

namespace Awayuki.CustomSql

def MAX_RESULT_ROWS : ℕ := 120

def MAX_SQL_BYTES : ℕ := 32 * 1024

inductive CustomTimelineError
  | sqlTooLarge
  | invalid (message : Str) (byteOffset : Option ℕ)
  deriving DecidableEq, Repr

def FORBIDDEN_KEYWORDS : List Str :=
  ["alter", "analyze", "attach", "begin", "commit", "create", "delete", "detach", "drop", "insert",
    "pragma", "reindex", "release", "replace", "rollback", "savepoint", "transaction", "update",
    "vacuum"].map String.toList

def FORBIDDEN_FUNCTIONS : List Str :=
  ["load_extension", "readfile", "writefile"].map String.toList

def isIdentifierByte (c : Char) : Bool := c.isAlphanum || c = '_' || c = '$'

def isAsciiWhitespace (c : Char) : Bool :=
  c = ' ' || c = '\t' || c = '\n' || c = '\x0c' || c = '\r'

def isQuote (c : Char) : Bool := c ∈ "'\"`".toList

/-! ### The loops of the scan -/

/-- To the end of the line, which stays. -/
def skipLine : Str → Str
  | [] => []
  | c :: text => if c = '\n' then c :: text else skipLine text

/-- Behind the end of a block comment. -/
def skipBlock : Str → Option Str
  | [] => none
  | c :: text => if c = '*' && text.head? = some '/' then some text.tail else skipBlock text

/-- Behind the closing quote; a doubled one does not close. -/
def skipQuoted (quote : Char) : Str → Option Str
  | [] => none
  | [c] => if c = quote then some [] else none
  | c :: d :: text =>
    if c = quote then if d = quote then skipQuoted quote text else some (d :: text)
    else skipQuoted quote (d :: text)

def skipBracket : Str → Option Str
  | [] => none
  | c :: text => if c = ']' then some text else skipBracket text

/-- `&sql[start..index].to_ascii_lowercase()` -/
def token (text : Str) : Str := Str.toAsciiLowercase (text.takeWhile isIdentifierByte)

def forbidden (token : Str) : Bool :=
  FORBIDDEN_KEYWORDS.contains token || FORBIDDEN_FUNCTIONS.contains token ||
    Str.startsWith token "pragma_"

def invalidAt (sql text message : Str) : CustomTimelineError :=
  .invalid message (some (Str.len sql - Str.len text))

/-- The first keyword and what is before the semicolon, from a place in the SQL on.  A turn takes
at least a character, so there are never more turns than there are characters. -/
def scan (sql : Str) : ℕ → Str → Option Str → Option Str →
    Except CustomTimelineError (Option Str × Option Str)
  | _, [], firstKeyword, terminated => .ok (firstKeyword, terminated)
  | 0, _ :: _, firstKeyword, terminated => .ok (firstKeyword, terminated)
  | turns + 1, c :: text, firstKeyword, terminated =>
    if isAsciiWhitespace c then scan sql turns text firstKeyword terminated
    else if c = '-' && text.head? = some '-' then
      scan sql turns (skipLine text.tail) firstKeyword terminated
    else if c = '/' && text.head? = some '*' then
      match skipBlock text.tail with
      | none => .error (invalidAt sql (c :: text)
          "Custom timeline SQL contains an unterminated comment")
      | some rest => scan sql turns rest firstKeyword terminated
    else if terminated.isSome then
      .error (invalidAt sql (c :: text) "Custom timeline SQL must contain exactly one statement")
    else if isQuote c then
      match skipQuoted c text with
      | none => .error (invalidAt sql (c :: text)
          "Custom timeline SQL contains an unterminated quoted value")
      | some rest => scan sql turns rest firstKeyword terminated
    else if c = '[' then
      match skipBracket text with
      | none => .error (invalidAt sql (c :: text)
          "Custom timeline SQL contains an unterminated identifier")
      | some rest => scan sql turns rest firstKeyword terminated
    else if c = ';' then
      scan sql turns text firstKeyword (some (sql.take (sql.length - (text.length + 1))))
    else if isIdentifierByte c then
      if forbidden (token (c :: text)) then
        .error (invalidAt sql (c :: text)
          ("Custom timeline SQL cannot use `".toList ++ token (c :: text) ++ "`".toList))
      else
        scan sql turns (text.dropWhile isIdentifierByte) (firstKeyword.or (token (c :: text)))
          terminated
    else scan sql turns text firstKeyword terminated

def validate (sql : Str) : Except CustomTimelineError Str :=
  if MAX_SQL_BYTES < Str.len sql then .error .sqlTooLarge
  else match scan sql sql.length sql none none with
    | .error error => .error error
    | .ok (firstKeyword, terminated) =>
      if firstKeyword ≠ some ("select" : String) then
        .error (.invalid "Custom timeline SQL must start with SELECT" (some 0))
      else if Str.trim (terminated.getD sql) = [] then
        .error (.invalid "Custom timeline SQL must not be empty" none)
      else .ok (Str.trim (terminated.getD sql))

/-! ### The query around the statement -/

/-- `keyword_at` at the place where the text begins. -/
def keywordAt (sql text keyword : Str) : Bool :=
  Str.toAsciiLowercase (text.take keyword.length) == keyword &&
    !((sql.take (sql.length - text.length)).getLast?).any isIdentifierByte &&
    !(text[keyword.length]?).any isIdentifierByte

/-- The loop of `has_top_level_limit`; what is not closed goes to the end. -/
def scanLimit (sql : Str) : ℕ → ℕ → Str → Bool
  | _, _, [] => false
  | 0, _, _ :: _ => false
  | turns + 1, depth, c :: text =>
    if c = '-' && text.head? = some '-' then scanLimit sql turns depth (skipLine text.tail)
    else if c = '/' && text.head? = some '*' then
      scanLimit sql turns depth ((skipBlock text.tail).getD [])
    else if isQuote c then scanLimit sql turns depth ((skipQuoted c text).getD [])
    else if c = '[' then scanLimit sql turns depth ((skipBracket text).getD [])
    else if c = '(' then scanLimit sql turns (depth + 1) text
    else if c = ')' then scanLimit sql turns (depth - 1) text
    else depth = 0 && keywordAt sql (c :: text) "limit" || scanLimit sql turns depth text

def hasTopLevelLimit (sql : Str) : Bool := scanLimit sql sql.length 0 sql

/-- What is before the statement, and what is after it. -/
structure Wrapper where
  before : Str
  after : Str

def limited : Wrapper := ⟨"SELECT * FROM (", ") custom_timeline_page LIMIT ?"⟩

def paged : Wrapper := ⟨"SELECT * FROM (", ") custom_timeline_page LIMIT ? OFFSET ?"⟩

/-- The limit is `MAX_RESULT_ROWS`. -/
def explained : Wrapper :=
  ⟨"EXPLAIN QUERY PLAN SELECT * FROM (",
    (") custom_timeline_page LIMIT ".toList ++ (toString MAX_RESULT_ROWS).toList)⟩

def Wrapper.wrap (wrapper : Wrapper) (statement : Str) : Str :=
  wrapper.before ++ statement ++ wrapper.after

end Awayuki.CustomSql
