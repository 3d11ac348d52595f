import Awayuki.Text

/-!
# KQ: syntax

The data of `kq_filter.rs`: spans and limits, sources, fields, operators and the typed expression
tree that the compiler produces and the evaluator walks.
-/

namespace Awayuki.Kq

/-- Byte offsets of a piece of the query text. -/
structure Span where
  start : ℕ
  stop : ℕ
  deriving DecidableEq, Repr

structure QueryLimits where
  maxQueryBytes : ℕ
  maxTokens : ℕ
  maxDepth : ℕ
  maxSetItems : ℕ
  maxSources : ℕ
  maxSourceArguments : ℕ
  maxRegexBytes : ℕ
  deriving DecidableEq, Repr

/-- `QueryLimits::default`. -/
def QueryLimits.default : QueryLimits where
  maxQueryBytes := 32 * 1024
  maxTokens := 4096
  maxDepth := 64
  maxSetItems := 1024
  maxSources := 64
  maxSourceArguments := 64
  maxRegexBytes := 4 * 1024

/-! ### Sources -/

inductive SourceKind
  | «local» | home | list | mentions | direct | search | track | conversation | user
  | «public» | localPublic | hashtag | bookmarks | favourites
  deriving DecidableEq, Repr

structure SourceSpec where
  kind : SourceKind
  arguments : List Str
  span : Span
  deriving DecidableEq, Repr

/-! ### Fields, operators and types -/

inductive Field
  | text | rawContent | id | uri | url | application | directMessage | boost | inReplyTo
  | replyAccountId | isReply | mentions | favouritesCount | reblogsCount | repliesCount
  | visibility | language | spoilerText | hasSpoiler | sensitive | hasMedia | mediaCount
  | mediaTypes | mediaDescriptions | hasImage | hasVideo | hasAudio | hasPoll | pollId
  | pollExpired | pollMultiple | pollVotesCount | pollVotersCount | pollOptionsCount
  | pollOptions | pollExpiresAt | hasCard | hasQuote | edited | editedAt | domain | hashtags
  | ourAccounts | isPublic | isUnlisted | isPrivate | authorId | authorUsername | authorAcct
  | authorDisplayName | authorNote | authorLocked | authorBot | authorFollowers
  | authorFollowing | authorStatuses | authorDomain | boosterId | boosterUsername | boosterAcct
  | boosterDisplayName | boosterNote | boosterLocked | boosterBot | boosterFollowers
  | boosterFollowing | boosterStatuses | boosterDomain | quoteId | quoteUrl | quoteText
  | quoteAuthorAcct | viewerFavourited | viewerReblogged | viewerMuted | viewerBookmarked
  | viewerPinned
  deriving DecidableEq, Repr

inductive UnaryOp
  | not | negate | caseful
  deriving DecidableEq, Repr

inductive BinaryOp
  | or | and | equal | notEqual | less | lessEqual | greater | greaterEqual | regex
  | startsWith | endsWith | contains | «in» | add | subtract | multiply | divide
  deriving DecidableEq, Repr

/-- A set of value types, one bit each. -/
structure ValueTypes where
  bits : UInt8
  deriving DecidableEq, Repr

namespace ValueTypes

def BOOL : ValueTypes := ⟨1⟩
def NUMBER : ValueTypes := ⟨2⟩
def TEXT : ValueTypes := ⟨4⟩
def SET : ValueTypes := ⟨8⟩
def IDENTITY : ValueTypes := ⟨16⟩

def intersects (s t : ValueTypes) : Bool := s.bits &&& t.bits != 0

instance : OrOp ValueTypes := ⟨fun s t => ⟨s.bits ||| t.bits⟩⟩
instance : AndOp ValueTypes := ⟨fun s t => ⟨s.bits &&& t.bits⟩⟩

end ValueTypes

/-- The static type of each field. -/
def Field.valueTypes : Field → ValueTypes
  | .id | .inReplyTo | .replyAccountId | .pollId | .authorId | .boosterId | .quoteId => .IDENTITY
  | .directMessage | .boost | .isReply | .hasSpoiler | .sensitive | .hasMedia | .hasImage
  | .hasVideo | .hasAudio | .hasPoll | .pollExpired | .pollMultiple | .hasCard | .hasQuote
  | .edited | .isPublic | .isUnlisted | .isPrivate | .authorLocked | .authorBot
  | .boosterLocked | .boosterBot | .viewerFavourited | .viewerReblogged | .viewerMuted
  | .viewerBookmarked | .viewerPinned => .BOOL
  | .favouritesCount | .reblogsCount | .repliesCount | .mediaCount | .pollVotesCount
  | .pollVotersCount | .pollOptionsCount | .authorFollowers | .authorFollowing
  | .authorStatuses | .boosterFollowers | .boosterFollowing | .boosterStatuses => .NUMBER
  | .mentions | .mediaTypes | .mediaDescriptions | .hashtags | .ourAccounts | .pollOptions => .SET
  | _ => .TEXT

/-! ### Regular expressions -/

/-- A compiled regular expression, known by what it matches. -/
structure Regex where
  isMatch : Str → Bool

/-- The settings of `RegexBuilder` that the code makes. -/
structure RegexOptions where
  sizeLimit : ℕ
  dfaSizeLimit : Option ℕ
  nestLimit : Option ℕ

/-- The `regex` crate: `build` is `RegexBuilder::build` (`none` for an error). -/
class RegexCrate where
  build : RegexOptions → Str → Option Regex

/-- Builds no pattern: for queries without `regex`. -/
@[reducible] def noRegex : RegexCrate where
  build _ _ := none

/-! ### Expressions -/

mutual

/-- A typed expression with its place in the query text. -/
inductive Expr
  | mk (kind : ExprKind) (types : ValueTypes) (span : Span)

inductive ExprKind
  | bool (value : Bool)
  | number (value : ℤ)
  | text (value : Str)
  | identity (value : Str)
  | set (items : List Expr)
  | field (field : Field)
  | unary (op : UnaryOp) (operand : Expr)
  | binary (op : BinaryOp) (left right : Expr) (literalRegex : Option Regex)

end

namespace Expr

def kind : Expr → ExprKind
  | mk kind _ _ => kind

def types : Expr → ValueTypes
  | mk _ types _ => types

def span : Expr → Span
  | mk _ _ span => span

@[simp] theorem kind_mk (k : ExprKind) (t : ValueTypes) (s : Span) : (mk k t s).kind = k := rfl
@[simp] theorem types_mk (k : ExprKind) (t : ValueTypes) (s : Span) : (mk k t s).types = t := rfl
@[simp] theorem span_mk (k : ExprKind) (t : ValueTypes) (s : Span) : (mk k t s).span = s := rfl

/-- Induction over expressions: a set may use the claim for each of its items. -/
theorem induct {P : Expr → Prop}
    (bool : ∀ b t s, P (mk (.bool b) t s))
    (number : ∀ n t s, P (mk (.number n) t s))
    (text : ∀ x t s, P (mk (.text x) t s))
    (identity : ∀ x t s, P (mk (.identity x) t s))
    (set : ∀ items t s, (∀ e ∈ items, P e) → P (mk (.set items) t s))
    (field : ∀ f t s, P (mk (.field f) t s))
    (unary : ∀ op e t s, P e → P (mk (.unary op e) t s))
    (binary : ∀ op l r re t s, P l → P r → P (mk (.binary op l r re) t s)) : ∀ e, P e
  | mk (.bool b) t s => bool b t s
  | mk (.number n) t s => number n t s
  | mk (.text x) t s => text x t s
  | mk (.identity x) t s => identity x t s
  | mk (.set items) t s => set items t s fun e _ =>
      induct bool number text identity set field unary binary e
  | mk (.field f) t s => field f t s
  | mk (.unary op e) t s => unary op e t s
      (induct bool number text identity set field unary binary e)
  | mk (.binary op l r re) t s => binary op l r re t s
      (induct bool number text identity set field unary binary l)
      (induct bool number text identity set field unary binary r)

end Expr

end Awayuki.Kq
