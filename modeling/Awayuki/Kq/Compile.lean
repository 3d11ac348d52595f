import Awayuki.Kq.Parser

/-!
# KQ: sources and compilation

The `from` clause and `compile_query`.  Besides the tokens that are left, the parser of the
sources carries the number of source arguments read so far, which is limited.
-/

namespace Awayuki.Kq

/-! ### Kinds of sources -/

def sourceNames : SourceKind → List String
  | .local => ["*", "all", "local"]
  | .home => ["home"]
  | .list => ["list"]
  | .mentions => ["mention", "mentions", "reply", "replies"]
  | .direct => ["message", "messages", "dm", "dms", "direct"]
  | .search => ["search", "find"]
  | .track => ["track", "stream"]
  | .conversation => ["conv", "conversation", "talk", "tree"]
  | .user => ["user"]
  | .public => ["public", "federated"]
  | .localPublic => ["local_public", "localpublic"]
  | .hashtag => ["hashtag", "tag"]
  | .bookmarks => ["bookmark", "bookmarks", "bookmarked"]
  | .favourites => ["favourite", "favourites", "favorite", "favorites", "favs"]

def SourceKind.all : List SourceKind :=
  [.local, .home, .list, .mentions, .direct, .search, .track, .conversation, .user, .public,
    .localPublic, .hashtag, .bookmarks, .favourites]

/-- `resolve_source_kind`. -/
def resolveSourceKind (name : Str) : Option SourceKind :=
  SourceKind.all.find? fun kind => ((sourceNames kind).map String.toList).contains name

def sourceRequiresArgument (kind : SourceKind) : Bool :=
  kind matches .list | .search | .track | .conversation | .user | .hashtag

def sourceAcceptsAccountWildcard (kind : SourceKind) : Bool :=
  kind matches .home | .mentions | .direct | .public | .localPublic | .bookmarks | .favourites

def normalizeSourceArgument (kind : SourceKind) (argument : Str) : Str :=
  let trimmed := argument.trim
  match kind with
  | .hashtag => trimmed.trimStartMatches '#'
  | .home | .mentions | .direct | .public | .localPublic | .bookmarks | .favourites | .user =>
    (trimmed.stripPrefixChar '@').getD trimmed
  | _ => trimmed

section

variable (input : Str) (limits : QueryLimits)

/-! ### Arguments -/

/-- The value of a token that can be a source argument. -/
def sourceArgument : TokenKind → Option Str
  | .string value | .account value | .opaqueId value | .identifier value => some value
  | .number value => some (numberText value)
  | .star => some "*"
  | _ => none

/-- `Parser::parse_source_argument`; `count` is the number of arguments before it. -/
def parseSourceArgument (count : ℕ) (rest : List Token) :
    Except Failure (Str × ℕ × List Token) :=
  if count + 1 > limits.maxSourceArguments then
    errorCurrent input "source argument limit exceeded" rest
  else do
    let (token, rest) ← advance rest
    match sourceArgument token.kind with
    | some value => .ok (value, count + 1, rest)
    | none =>
      failAt input token.span "source argument must be a string, account, or identifier"

/-- `Parser::next_is_source_argument`. -/
def nextIsSourceArgument : List Token → Bool
  | _ :: token :: _ =>
    (token.kind matches .string _ | .account _ | .opaqueId _ | .number _ | .star)
  | _ => false

/-- The arguments after the first one of `name:argument, argument`. -/
def parseColonArguments : (steps : ℕ) → ℕ → List Token →
    Except Failure (List Str × ℕ × List Token)
  | 0, count, rest => .ok ([], count, rest)
  | steps + 1, count, rest =>
    if checkSimple .comma rest && nextIsSourceArgument rest then do
      let (_, rest) ← advance rest
      let (argument, count, rest) ← parseSourceArgument input limits count rest
      let (arguments, count, rest) ← parseColonArguments steps count rest
      .ok (argument :: arguments, count, rest)
    else .ok ([], count, rest)

/-- The arguments of `name(argument, argument)`, of which there is at least one. -/
def parseCallArguments : (steps : ℕ) → ℕ → List Token →
    Except Failure (List Str × ℕ × List Token)
  | 0, _, _ => .error .panic
  | steps + 1, count, rest => do
    let (argument, count, rest) ← parseSourceArgument input limits count rest
    match takeSimple .comma rest with
    | none => .ok ([argument], count, rest)
    | some (_, rest) =>
      if checkSimple .rightParen rest then .ok ([argument], count, rest)
      else do
        let (arguments, count, rest) ← parseCallArguments steps count rest
        .ok (argument :: arguments, count, rest)

def parseSourceArguments (count : ℕ) (rest : List Token) :
    Except Failure (List Str × ℕ × List Token) :=
  match takeSimple .colon rest with
  | some (_, rest) => do
    let (argument, count, rest) ← parseSourceArgument input limits count rest
    let (arguments, count, rest) ← parseColonArguments input limits rest.length count rest
    .ok (argument :: arguments, count, rest)
  | none =>
    match takeSimple .leftParen rest with
    | some (_, rest) => do
      let (arguments, count, rest) ←
        if checkSimple .rightParen rest then .ok ([], count, rest)
        else parseCallArguments input limits (rest.length + 1) count rest
      let (_, rest) ←
        expectSimple input .rightParen "source call is missing a closing parenthesis" rest
      .ok (arguments, count, rest)
    | none => .ok ([], count, rest)

/-! ### Sources -/

/-- The sources that one source of the query stands for: one for each argument. -/
def makeSources (kind : SourceKind) (arguments : List Str) (span : Span) :
    Except Failure (List SourceSpec) :=
  if sourceRequiresArgument kind && arguments.isEmpty then
    failAt input span "source requires an argument"
  else if kind = .local ∧ arguments ≠ [] then
    failAt input span "named local timelines are not available in Awayuki"
  else if arguments.isEmpty then .ok [⟨kind, [], span⟩]
  else if arguments.any (·.trim.isEmpty) then
    failAt input span "source argument cannot be empty"
  else if kind = .user ∧ arguments.any (·.trim == ['*']) then
    failAt input span "user source does not accept a wildcard argument"
  else
    let normalized := arguments.map (normalizeSourceArgument kind)
    if sourceRequiresArgument kind && normalized.any List.isEmpty then
      failAt input span "source argument cannot be empty"
    else if sourceAcceptsAccountWildcard kind && normalized.contains ['*'] then
      .ok [⟨kind, [], span⟩]
    else .ok (normalized.map fun argument => ⟨kind, [argument], span⟩)

/-- `Parser::parse_source`. -/
def parseSource (count : ℕ) (rest : List Token) :
    Except Failure (List SourceSpec × ℕ × List Token) := do
  let (token, rest) ← advance rest
  let sourceName ← match token.kind with
    | .identifier name => .ok name.toAsciiLowercase
    | .star => .ok ['*']
    | _ => failAt input token.span "source name expected"
  match resolveSourceKind sourceName with
  | none => failAt input token.span "unsupported source"
  | some kind => do
    let (arguments, count, rest) ← parseSourceArguments input limits count rest
    .ok (← makeSources input kind arguments token.span, count, rest)

/-- The loop of `parse_sources`, with the sources read so far. -/
def parseSourcesLoop : (steps : ℕ) → List SourceSpec → ℕ → List Token →
    Except Failure (List SourceSpec × List Token)
  | 0, sources, _, rest => .ok (sources, rest)
  | steps + 1, sources, count, rest =>
    if atEnd rest || checkKeyword "where" rest then .ok (sources, rest)
    else do
      let (parsed, count, rest) ← parseSource input limits count rest
      let sources := sources ++ parsed
      if sources.length > limits.maxSources then
        errorCurrent input "source limit exceeded" rest
      else
        match takeSimple .comma rest with
        | some (_, rest) => parseSourcesLoop steps sources count rest
        | none =>
          if atEnd rest || checkKeyword "where" rest then .ok (sources, rest)
          else errorCurrent input "sources must be separated by commas" rest

/-- `Parser::parse_sources`: repeated sources are dropped. -/
def parseSources (rest : List Token) : Except Failure (List SourceSpec × List Token) := do
  let (sources, rest) ← parseSourcesLoop input limits rest.length [] 0 rest
  .ok (Keyed.firsts (fun source => (source.kind, source.arguments)) sources, rest)

/-! ### Queries -/

/-- The compiled form of a query. -/
structure CompiledQuery where
  sources : List SourceSpec
  predicate : Expr
  requirements : QueryRequirements
  conversationIds : List Str

def CompiledQuery.of (sources : List SourceSpec) (predicate : Expr) : CompiledQuery where
  sources := sources
  predicate := predicate
  requirements := queryRequirements sources predicate
  conversationIds := (sources.filter (·.kind == .conversation)).flatMap (·.arguments)

variable [RegexCrate]

/-- The `where` clause, if there is one; `hadFrom` tells whether there was a `from` clause. -/
def parseWhere (hadFrom : Bool) (rest : List Token) : Except Failure (Expr × List Token) :=
  match takeKeyword "where" rest with
  | some (_, rest) =>
    if atEnd rest then
      if hadFrom then do
        let (token, _) ← advance rest
        .ok (.mk (.bool true) .BOOL token.span, rest)
      else errorCurrent input "where requires a predicate" rest
    else parsePredicate input limits rest
  | none => do
    let (token, _) ← advance rest
    .ok (.mk (.bool true) .BOOL token.span, rest)

/-- `Parser::parse`. -/
def parse (tokens : List Token) : Except Failure CompiledQuery := do
  let hadFrom := checkKeyword "from" tokens
  let (sources, rest) ←
    match takeKeyword "from" tokens with
    | some (_, rest) => parseSources input limits rest
    | none =>
      if checkKeyword "where" tokens then .ok ([⟨.local, [], ⟨0, 0⟩⟩], tokens)
      else errorCurrent input "query must start with from or where" tokens
  if sources.isEmpty then errorCurrent input "from requires at least one source" rest
  else do
    let (predicate, rest) ← parseWhere input limits hadFrom rest
    if !predicate.types.intersects .BOOL then
      failAt input predicate.span "query predicate must produce a boolean value"
    else if !atEnd rest then errorCurrent input "unexpected token after query" rest
    else .ok (.of sources predicate)

end

variable [CharTable] [RegexCrate]

/-- `compile_query_with_limits`. -/
def compileQueryWithLimits (query : Str) (limits : QueryLimits) :
    Except Failure CompiledQuery :=
  if query.len > limits.maxQueryBytes then
    failAt query ⟨limits.maxQueryBytes, limits.maxQueryBytes⟩ "query byte limit exceeded"
  else do
    let tokens ← tokenize query limits
    parse query limits tokens

/-- `compile_query`. -/
def compileQuery (query : Str) : Except Failure CompiledQuery :=
  compileQueryWithLimits query .default

end Awayuki.Kq
