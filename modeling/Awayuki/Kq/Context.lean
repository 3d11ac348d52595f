import Awayuki.Kq.Value
import Awayuki.Db.Models

/-!
# KQ: evaluation contexts and account names

What the evaluator knows about one row (`EvaluationContext`), and the comparisons of account
names, tags and keys that the evaluator and the source planner share.
-/

namespace Awayuki.Kq

/-! ### Contexts -/

structure StatusKey where
  serverDomain : Str
  id : Str
  deriving DecidableEq, Repr

structure TimelineMembership where
  timelineType : Str
  accountAcct : Str
  parameter : Option Str
  deriving DecidableEq, Repr

structure StatusView where
  status : DbStatus
  account : Option DbAccount
  deriving DecidableEq, Repr

/-- `effective` is the displayed status: the wrapper itself for a post, the original for a boost,
and `none` for a boost whose original is not resolved. -/
structure EvaluationContext where
  wrapper : StatusView
  effective : Option StatusView
  quote : Option StatusView
  loginAccounts : List LoginAccountIdentity
  memberships : List TimelineMembership
  viewerStates : List DbStatusViewerState
  conversationKeys : List StatusKey
  deriving DecidableEq, Repr

def effectiveStatus (context : EvaluationContext) : Option DbStatus :=
  context.effective.map (·.status)

def authorAccount (context : EvaluationContext) : Option DbAccount :=
  context.effective.bind (·.account)

def statusKey (status : DbStatus) : StatusKey := ⟨status.serverDomain, status.id⟩

def containsStatusKey (keys : List StatusKey) (wanted : StatusKey) : Bool :=
  keys.any fun key => key.id == wanted.id && key.serverDomain.eqIgnoreAsciiCase wanted.serverDomain

/-! ### JSON columns -/

def MAX_JSON_BYTES : ℕ := 1024 * 1024

inductive ParsedOptionalArray (α : Type)
  | values (values : List α)
  | invalid

def parseOptionalArray {α : Type} (fromStr : Str → Option (List α)) (json : Option Str) :
    ParsedOptionalArray α :=
  match json with
  | none => .values []
  | some json =>
    if json.len > MAX_JSON_BYTES then .invalid
    else (fromStr json).elim .invalid .values

inductive ParsedOptionalObject (α : Type)
  | absent
  | value (value : α)
  | invalid

def parseOptionalObject {α : Type} (fromStr : Str → Option α) (json : Option Str) :
    ParsedOptionalObject α :=
  match json with
  | none => .absent
  | some json =>
    if json.len > MAX_JSON_BYTES then .invalid
    else (fromStr json).elim .invalid .value

/-! ### Account names -/

def statusIsAtproto (status : DbStatus) : Bool :=
  status.uri.startsWith "at://" || status.uri.startsWith "repost:"

/-- The name without surrounding white space and leading `@`. -/
def bareAcct (acct : Str) : Str := acct.trim.trimStartMatches '@'

def statusScopedAcct (acct : Str) (status : DbStatus) : Str :=
  let acct := bareAcct acct
  if statusIsAtproto status || acct.contains "@" || status.serverDomain.isEmpty then acct
  else acct ++ '@' :: status.serverDomain

def statusAccountAcct (account : DbAccount) (status : DbStatus) : Str :=
  statusScopedAcct account.acct status

def accountOriginDomain (account : DbAccount) (status : DbStatus) : Str :=
  let acct := bareAcct account.acct
  match acct.rsplitOnce '@' with
  | some (_, domain) => domain
  | none => if statusIsAtproto status && acct.contains "." then acct else account.serverDomain

def loginProviderAcct (account : LoginAccountIdentity) : Str :=
  let acct := bareAcct account.acct
  if account.serverKind.eqIgnoreAsciiCase "bluesky" then
    match acct.rsplitOnce '@' with
    | some (handle, domain) =>
      if handle.contains "." && domain.eqIgnoreAsciiCase account.serverDomain then handle else acct
    | none => acct
  else if acct.contains "@" || account.serverDomain.trim.isEmpty then acct
  else acct ++ '@' :: account.serverDomain.trim

def cleanTag (tag : Str) : Str := tag.trim.trimStartMatches '#'

/-- A selector without its white space and its `@` or `#` marker. -/
def withoutMarker (selector : Str) : Str :=
  let selector := selector.trim
  ((selector.stripPrefixChar '@').orElse fun _ => selector.stripPrefixChar '#').getD selector

/-- `split_scoped_list_id`: the account selector before the first slash, if it looks like one. -/
def splitScopedListId (argument : Str) : Option Str × Str :=
  match argument.splitOnce '/' with
  | none => (none, argument)
  | some (candidate, listId) =>
    if candidate.contains "@" || candidate.contains "." || candidate.startsWith "@" then
      (some candidate, listId)
    else (none, argument)

section

variable [Icu]

def hashtagParameterMatches (parameter tag : Str) : Bool :=
  selectorEqual (cleanTag parameter) (cleanTag tag)

def loginAccountMatchesSelector (account : LoginAccountIdentity) (selector : Str) : Bool :=
  let withoutMarker := withoutMarker selector
  identityEqual withoutMarker account.accountId ||
    selectorEqual withoutMarker (loginProviderAcct account) ||
    selectorEqual withoutMarker account.acct

def accountMatchesLogin (account : DbAccount) (status : DbStatus)
    (login : LoginAccountIdentity) : Bool :=
  account.serverDomain.eqIgnoreAsciiCase login.serverDomain &&
      identityEqual account.id login.accountId ||
    selectorEqual (statusAccountAcct account status) (loginProviderAcct login)

def accountMatchesSelector (account : DbAccount) (status : DbStatus) (selector : Str) : Bool :=
  let withoutMarker := withoutMarker selector
  identityEqual withoutMarker account.id ||
    selectorEqual withoutMarker (statusAccountAcct account status) ||
    selectorEqual withoutMarker account.username

end

end Awayuki.Kq
