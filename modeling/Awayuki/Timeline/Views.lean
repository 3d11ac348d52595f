import Awayuki.Db.Models
import Awayuki.Timeline.Status

/-!
# Views of posts

The views that the application sends to the frontend, from `application/timeline_view.rs` and
`application/timeline_hydration.rs`.

* `statusToView`, `notificationToView`: the live views, built from what a server answers;
* `CachedStatusViewContext`: the cached rows that a page of rows refers to;
* `statusToViewResolvingReblog`, `notificationDbToViewWithContext`: the views hydrated from rows;
* `StatusFields.identity`: the fields of a view that its keys are made of, with one lemma for
  each of the paths.

The texts of a post, its counts, its media and the like are the field `body`.
-/

namespace Awayuki.Timeline

/-! ### What the servers answer and what the cache holds -/

/-- An account of the API. -/
structure Account where
  id : Str
  acct : Str
  displayName : Str
  avatar : Str
  emojis : List CustomEmojiSummary

/-- A status of the API; times are as `to_rfc3339` writes them. -/
structure Status (β : Type) where
  id : Str
  uri : Str
  createdAt : Str
  account : Account
  quoteId : Option Str := none
  quoteOriginalUrl : Option Str := none
  reblog : Option (Status β) := none
  quote : Option (Status β) := none
  body : β

inductive NotificationType
  | mention | reblog | favourite | follow | followRequest | poll | status | update
  | adminSignUp | adminReport | unknown
  deriving DecidableEq

def NotificationType.asStr : NotificationType → Str
  | mention => "mention"
  | reblog => "reblog"
  | favourite => "favourite"
  | follow => "follow"
  | followRequest => "follow_request"
  | poll => "poll"
  | status => "status"
  | update => "update"
  | adminSignUp => "admin.sign_up"
  | adminReport => "admin.report"
  | unknown => "unknown"

/-- A notification of the API. -/
structure Notification (β : Type) where
  id : Str
  notificationType : NotificationType
  createdAt : Str
  account : Account
  status : Option (Status β) := none

/-- A row of an account with the columns that only the views read. -/
structure AccountRow extends DbAccount where
  avatar : Str
  emojisJson : Option Str

structure DbNotification where
  id : Str
  serverDomain : Str
  accountAcct : Option Str
  notificationType : Str
  createdAt : Str
  accountId : Str
  statusId : Option Str

/-- What the code reads of the other columns of a row: the body of its view, and the emojis of a
JSON column. -/
structure RowReader (β : Type) where
  body : DbStatus → Option AccountRow → β
  emojis : Str → Option (List CustomEmojiSummary)

inductive FederationProtocol
  | activityPub | atProto
  deriving DecidableEq

structure StatusIdentity where
  protocol : FederationProtocol
  serverDomain : Str
  canonicalUri : Str
  remoteId : Str
  deriving DecidableEq

def StatusIdentity.new (protocol : FederationProtocol) (serverDomain canonicalUri remoteId : Str) :
    StatusIdentity where
  protocol := protocol
  serverDomain := serverDomain.trim.toAsciiLowercase
  canonicalUri := canonicalUri.trim
  remoteId := remoteId.trim

def StatusIdentity.inferred (serverDomain canonicalUri remoteId : Str) : StatusIdentity :=
  .new (if canonicalUri.trim.startsWith "at://" then .atProto else .activityPub)
    serverDomain canonicalUri remoteId

/-- The fields of a view that the frontend's keys do not read. -/
structure ViewRest (β : Type) where
  statusIdentity : StatusIdentity
  accountId : Str
  quoteId : Option Str
  quoteOriginalUrl : Option Str
  quoteState : Option Str
  /-- A notification without a post has none. -/
  body : Option β

abbrev View (β : Type) := TimelineStatus (ViewRest β)

variable {β : Type}

/-- The fields of a view replaced; the post it quotes stays. -/
def TimelineStatus.update {γ : Type} (s : TimelineStatus γ) (f : StatusFields γ → StatusFields γ) :
    TimelineStatus γ :=
  .mk (f s.fields) s.quote

@[simp] theorem TimelineStatus.fields_update {γ : Type} (s : TimelineStatus γ)
    (f : StatusFields γ → StatusFields γ) : (s.update f).fields = f s.fields := by
  simp [TimelineStatus.update]

/-! ### Live views -/

def notificationTypeLabel (notificationType : Str) : Str :=
  (List.lookup notificationType
    [("mention".toList, "mentioned you".toList),
     ("reblog".toList, "boosted".toList),
     ("favourite".toList, "favourited".toList),
     ("follow".toList, "followed you".toList),
     ("follow_request".toList, "requested to follow".toList),
     ("status".toList, "posted".toList),
     ("update".toList, "edited".toList),
     ("poll".toList, "poll ended".toList),
     ("admin.sign_up".toList, "signed up".toList),
     ("admin.report".toList, "reported".toList)]).getD "notified you"

def atAcct (acct : Str) : Str := '@' :: acct

/-- `{display_name}`, or `@{acct}` when that is empty. -/
def Account.label (account : Account) : Str :=
  if account.displayName = [] then atAcct account.acct else account.displayName

/-- What a reblog of a quoted post changes of its view. -/
def quotedReblog (quote : Status β) (view : View β) : View β :=
  view.update fun fields =>
    { fields with
      originalCreatedAt := some fields.createdAt
      id := quote.id
      uri := quote.uri
      createdAt := quote.createdAt
      notificationKind := some "reblog".toList }

def quoteState (quoteId quoteOriginalUrl : Option Str) (resolved : Bool) : Option Str :=
  if resolved then some "resolved".toList
  else if quoteId.isSome ∨ quoteOriginalUrl.isSome then some "pending".toList
  else none

/-- The view of a post that is not a reblog, with the view of its quote. -/
def baseView (status : Status β) (serverDomain : Str)
    (notificationLabel notificationAvatar : Option Str) (quote : Option (View β)) : View β :=
  .mk
    { id := status.id
      originalStatusId := status.id
      serverDomain := serverDomain
      uri := status.uri
      createdAt := status.createdAt
      notificationLabel := notificationLabel
      notificationAvatar := notificationAvatar
      notificationAccountEmojis := some []
      rest :=
        { statusIdentity := .inferred serverDomain status.uri status.id
          accountId := status.account.id
          quoteId := status.quoteId
          quoteOriginalUrl := status.quoteOriginalUrl
          quoteState := quoteState status.quoteId status.quoteOriginalUrl quote.isSome
          body := some status.body } }
    quote

def statusToViewBaseWithQuoteDepth :
    ℕ → Status β → (serverDomain : Str) → (label avatar : Option Str) → View β
  | 0, status, serverDomain, label, avatar => baseView status serverDomain label avatar none
  | depth + 1, status, serverDomain, label, avatar =>
    baseView status serverDomain label avatar <| status.quote.map fun quote =>
      match quote.reblog with
      | none => statusToViewBaseWithQuoteDepth depth quote serverDomain none none
      | some original =>
        quotedReblog quote (statusToViewBaseWithQuoteDepth depth original serverDomain none none)

def statusToViewBase (status : Status β) (serverDomain : Str)
    (notificationLabel notificationAvatar : Option Str) : View β :=
  statusToViewBaseWithQuoteDepth 2 status serverDomain notificationLabel notificationAvatar

def statusToView (status : Status β) (serverDomain : Str) (notificationLabel : Option Str) :
    View β :=
  match status.reblog with
  | some reblog =>
    (statusToViewBase reblog serverDomain
      (some (notificationLabel.getD (status.account.label ++ " boosted".toList)))
      (some status.account.avatar)).update fun fields =>
        { fields with
          originalCreatedAt := some fields.createdAt
          id := status.id
          uri := status.uri
          createdAt := status.createdAt
          notificationKind := some "reblog".toList
          notificationAccountId := some status.account.id
          notificationAcct := some (atAcct status.account.acct)
          notificationDisplayName := some status.account.displayName
          notificationAccountEmojis := some status.account.emojis }
  | none => statusToViewBase status serverDomain notificationLabel none

/-- The page of a notification without a post. -/
def notificationPage (serverDomain id : Str) : Str :=
  "https://".toList ++ serverDomain ++ "/notifications/".toList ++ id

def notificationToView (notification : Notification β) (serverDomain : Str)
    (sourceAcct : Option Str) : View β :=
  let label := some (notification.account.displayName ++ " ".toList ++
    notificationTypeLabel notification.notificationType.asStr)
  let kind := some notification.notificationType.asStr
  let account := notification.account
  match notification.status with
  | none =>
    .plain
      { id := notification.id
        originalStatusId := notification.id
        sourceAcct := sourceAcct
        serverDomain := serverDomain
        uri := []
        createdAt := notification.createdAt
        notificationId := some notification.id
        notificationKind := kind
        notificationLabel := label
        notificationAvatar := some account.avatar
        notificationAccountId := some account.id
        notificationAcct := some (atAcct account.acct)
        notificationDisplayName := some account.displayName
        notificationAccountEmojis := some account.emojis
        rest :=
          { statusIdentity :=
              .inferred serverDomain (notificationPage serverDomain notification.id) notification.id
            accountId := account.id
            quoteId := none
            quoteOriginalUrl := none
            quoteState := none
            body := none } }
  | some status =>
    (statusToViewBase status serverDomain label (some account.avatar)).update fun fields =>
      { fields with
        originalCreatedAt := some fields.createdAt
        id := notification.id
        createdAt := notification.createdAt
        sourceAcct := sourceAcct
        notificationId := some notification.id
        notificationKind := kind
        notificationAccountId := some account.id
        notificationAcct := some (atAcct account.acct)
        notificationDisplayName := some account.displayName
        notificationAccountEmojis := some account.emojis }

/-! ### Hydrated views -/

section Hydration

variable (reader : RowReader β)

def accountEmojis (account : Option AccountRow) : List CustomEmojiSummary :=
  ((account.bind AccountRow.emojisJson).map fun json => (reader.emojis json).getD []).getD []

def dbStatusToView (status : DbStatus) (account : Option AccountRow) : View β :=
  .plain
    { id := status.id
      originalStatusId := status.id
      serverDomain := status.serverDomain
      uri := status.uri
      createdAt := status.createdAt
      notificationAccountEmojis := some []
      rest :=
        { statusIdentity := .inferred status.serverDomain status.uri status.id
          accountId := status.accountId
          quoteId := status.quoteId
          quoteOriginalUrl := status.quoteOriginalUrl
          quoteState := quoteState status.quoteId status.quoteOriginalUrl false
          body := some (reader.body status account) } }

/-- The rows that the views of a page refer to: the statuses by their keys, and the accounts. -/
structure CachedStatusViewContext where
  statuses : List DbStatus
  accounts : List AccountRow

namespace CachedStatusViewContext

/-- `statuses.get(&status_key(id, server_domain))` -/
def status? (context : CachedStatusViewContext) (key : EntityKey) : Option DbStatus :=
  Keyed.lookup DbStatus.key context.statuses key

/-- The rows of the cache with one of the keys. -/
def queryStatusesByKeys (cache : List DbStatus) (keys : List EntityKey) : List DbStatus :=
  cache.filter fun status => status.key ∈ keys

/-- The context of a page of rows: they, their originals and quotes, and the quotes of the
originals.  A row that is found first stands. -/
def load (cache : List DbStatus) (accounts : List AccountRow) (statuses : List DbStatus) :
    CachedStatusViewContext :=
  let primary := statuses.reverse
  let related := queryStatusesByKeys cache
    (statuses.flatMap fun status => status.reblogKey.toList ++ status.quoteKey.toList)
  let originals := statuses.filterMap fun status =>
    status.reblogKey.bind (Keyed.lookup DbStatus.key (primary ++ related))
  let quotes := queryStatusesByKeys cache (originals.flatMap fun status => status.quoteKey.toList)
  let all := Keyed.firsts DbStatus.key (primary ++ related ++ quotes)
  { statuses := all
    accounts := accounts.filter fun account => account.key ∈ all.map DbStatus.authorKey }

variable (context : CachedStatusViewContext)

def accountForStatus (status : DbStatus) : Option AccountRow :=
  Keyed.lookup (fun account => account.key) context.accounts status.authorKey

def statusToViewWithCachedQuote (status : DbStatus) (account : Option AccountRow) : View β :=
  match status.quoteKey.bind context.status? with
  | none => dbStatusToView reader status account
  | some quote =>
    let fields := (dbStatusToView reader status account).fields
    .quoting { fields with rest := { fields.rest with quoteState := some "resolved".toList } }
      (dbStatusToView reader quote (context.accountForStatus quote))

def statusToViewResolvingReblog (status : DbStatus) : View β :=
  let account := context.accountForStatus status
  match status.reblogKey.bind context.status? with
  | none => statusToViewWithCachedQuote reader context status account
  | some original =>
    let booster := match account with
      | some account =>
        if account.displayName = [] then atAcct account.acct else account.displayName
      | none => status.accountId
    (statusToViewWithCachedQuote reader context original
      (context.accountForStatus original)).update fun fields =>
        { fields with
          id := status.id
          uri := status.uri
          originalCreatedAt := some fields.createdAt
          createdAt := status.createdAt
          notificationLabel := some (booster ++ " boosted".toList)
          notificationKind := some "reblog".toList
          notificationAvatar := account.map AccountRow.avatar
          notificationAccountId := some status.accountId
          notificationAcct := some (atAcct ((account.map (·.acct)).getD status.accountId))
          notificationDisplayName := some booster
          notificationAccountEmojis := some (accountEmojis reader account) }

def notificationDbToViewWithContext (notification : DbNotification)
    (actorAccount : Option AccountRow) (status : Option DbStatus) : View β :=
  let label := (actorAccount.map (·.displayName)).getD notification.accountId
  let acct := atAcct ((actorAccount.map (·.acct)).getD notification.accountId)
  let notificationLabel :=
    some (label ++ " ".toList ++ notificationTypeLabel notification.notificationType)
  let emojis := accountEmojis reader actorAccount
  match status with
  | none =>
    .plain
      { id := notification.id
        originalStatusId := notification.statusId.getD []
        sourceAcct := notification.accountAcct
        serverDomain := notification.serverDomain
        uri := []
        createdAt := notification.createdAt
        notificationId := some notification.id
        notificationKind := some notification.notificationType
        notificationLabel := notificationLabel
        notificationAvatar := actorAccount.map AccountRow.avatar
        notificationAccountId := some notification.accountId
        notificationAcct := some acct
        notificationDisplayName := some label
        notificationAccountEmojis := some emojis
        rest :=
          { statusIdentity := .inferred notification.serverDomain
              (notificationPage notification.serverDomain notification.id) notification.id
            accountId := notification.accountId
            quoteId := none
            quoteOriginalUrl := none
            quoteState := none
            body := none } }
  | some status =>
    (statusToViewResolvingReblog reader context status).update fun fields =>
      { fields with
        originalCreatedAt := some (fields.originalCreatedAt.getD fields.createdAt)
        id := notification.id
        createdAt := notification.createdAt
        sourceAcct := notification.accountAcct
        notificationId := some notification.id
        notificationKind := some notification.notificationType
        notificationLabel := notificationLabel
        notificationAvatar := actorAccount.map AccountRow.avatar
        notificationAccountId := some notification.accountId
        notificationAcct := some acct
        notificationDisplayName := some label
        notificationAccountEmojis := some emojis }

end CachedStatusViewContext

end Hydration

end Awayuki.Timeline
