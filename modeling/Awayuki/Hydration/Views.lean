import Awayuki.Timeline.Views

/-!
# The live view of a post and its cached view

A post of the API is shown at once and saved; after a restart it is shown from the rows.  Both views
are built here with all they display, from `application/timeline_view.rs`,
`application/timeline_hydration.rs`, `db/models.rs` and `services/timeline_service.rs`.

* `statusToView`: the view of an API status;
* `persistStatusGraph`: the rows that are saved of it;
* `dbStatusRefsToViews`: the views of rows, with the flags of the accounts that received them.

The texts of the JSON columns are those that `serde_json` writes, a parameter.
-/

namespace Awayuki.Hydration

open Timeline (StatusIdentity CustomEmojiSummary quoteState atAcct)

/-! ### Statuses of the API -/

structure CustomEmoji where
  shortcode : Str
  url : Str
  staticUrl : Str
  visibleInPicker : Bool
  category : Option Str
  deriving DecidableEq

structure Account where
  id : Str
  acct : Str
  displayName : Str
  avatar : Str
  emojis : List CustomEmoji
  deriving DecidableEq

/-- `meta` is the JSON value as a text. -/
structure MediaAttachment where
  id : Str
  mediaType : Str
  url : Option Str
  previewUrl : Option Str
  remoteUrl : Option Str
  description : Option Str
  blurhash : Option Str
  metaJson : Option Str
  deriving DecidableEq

structure PollOption where
  title : Str
  votesCount : Option ℤ
  deriving DecidableEq

/-- Times are as `to_rfc3339` writes them. -/
structure Poll where
  id : Str
  expiresAt : Option Str
  expired : Bool
  multiple : Bool
  votesCount : ℤ
  votersCount : Option ℤ
  options : List PollOption
  voted : Option Bool
  ownVotes : Option (List ℤ)
  emojis : List CustomEmoji
  deriving DecidableEq

structure StatusApplication where
  name : Str
  website : Option Str
  deriving DecidableEq

/-- A status of the API, with what the views read of it. -/
structure Status where
  id : Str
  uri : Str
  url : Option Str
  createdAt : Str
  account : Account
  content : Str
  visibility : Str
  sensitive : Bool
  spoilerText : Str
  mediaAttachments : List MediaAttachment
  emojis : List CustomEmoji
  reblogsCount : ℤ
  favouritesCount : ℤ
  repliesCount : ℤ
  inReplyToId : Option Str
  inReplyToAccountId : Option Str
  language : Option Str
  favourited : Option Bool
  reblogged : Option Bool
  bookmarked : Option Bool
  poll : Option Poll
  application : Option StatusApplication
  quoteId : Option Str
  quoteOriginalUrl : Option Str
  reblog : Option Status
  quote : Option Status

/-! ### Views -/

structure PollView where
  id : Str
  expiresAt : Option Str
  expired : Bool
  multiple : Bool
  votesCount : ℤ
  votersCount : Option ℤ
  options : List PollOption
  voted : Option Bool
  ownVotes : Option (List ℤ)
  emojis : List CustomEmojiSummary
  deriving DecidableEq

structure TimelineStatus where
  id : Str
  originalStatusId : Str
  statusIdentity : StatusIdentity
  sourceAcct : Option Str
  accountId : Str
  serverDomain : Str
  uri : Str
  url : Option Str
  displayName : Str
  acct : Str
  avatar : Str
  createdAt : Str
  originalCreatedAt : Option Str
  inReplyToId : Option Str
  inReplyToAccountId : Option Str
  content : Str
  spoilerText : Str
  language : Option Str
  applicationName : Option Str
  reblogsCount : ℤ
  favouritesCount : ℤ
  repliesCount : ℤ
  visibility : Str
  sensitive : Bool
  favourited : Bool
  reblogged : Bool
  bookmarked : Bool
  media : List MediaAttachment
  poll : Option PollView
  emojis : List CustomEmojiSummary
  accountEmojis : List CustomEmojiSummary
  quoteId : Option Str
  quoteOriginalUrl : Option Str
  quote : Option TimelineStatus
  quoteState : Option Str
  notificationId : Option Str
  notificationKind : Option Str
  notificationLabel : Option Str
  notificationAvatar : Option Str
  notificationAccountId : Option Str
  notificationAcct : Option Str
  notificationDisplayName : Option Str
  notificationAccountEmojis : List CustomEmojiSummary

def customEmojisToViews (emojis : List CustomEmoji) : List CustomEmojiSummary :=
  emojis.map fun emoji =>
    { shortcode := emoji.shortcode
      url := emoji.url
      staticUrl := emoji.staticUrl
      category := emoji.category }

def pollToView (poll : Poll) : PollView where
  id := poll.id
  expiresAt := poll.expiresAt
  expired := poll.expired
  multiple := poll.multiple
  votesCount := poll.votesCount
  votersCount := poll.votersCount
  options := poll.options
  voted := poll.voted
  ownVotes := poll.ownVotes
  emojis := customEmojisToViews poll.emojis

def normalizedApplicationName (name : Str) : Option Str :=
  if name.trim = [] then none else some name.trim

def statusApplicationName (status : Status) : Option Str :=
  status.application.bind fun application => normalizedApplicationName application.name

/-! ### The live view -/

/-- The view of a post with the view of the post that it quotes. -/
def baseView (status : Status) (serverDomain : Str)
    (notificationLabel notificationAvatar : Option Str) (quote : Option TimelineStatus) :
    TimelineStatus where
  id := status.id
  originalStatusId := status.id
  statusIdentity := .inferred serverDomain status.uri status.id
  sourceAcct := none
  accountId := status.account.id
  serverDomain := serverDomain
  uri := status.uri
  url := status.url
  displayName := status.account.displayName
  acct := atAcct status.account.acct
  avatar := status.account.avatar
  createdAt := status.createdAt
  originalCreatedAt := none
  inReplyToId := status.inReplyToId
  inReplyToAccountId := status.inReplyToAccountId
  content := status.content
  spoilerText := status.spoilerText
  language := status.language
  applicationName := statusApplicationName status
  reblogsCount := status.reblogsCount
  favouritesCount := status.favouritesCount
  repliesCount := status.repliesCount
  visibility := status.visibility
  sensitive := status.sensitive
  favourited := status.favourited.getD false
  reblogged := status.reblogged.getD false
  bookmarked := status.bookmarked.getD false
  media := status.mediaAttachments
  poll := status.poll.map pollToView
  emojis := customEmojisToViews status.emojis
  accountEmojis := customEmojisToViews status.account.emojis
  quoteId := status.quoteId
  quoteOriginalUrl := status.quoteOriginalUrl
  quote := quote
  quoteState := quoteState status.quoteId status.quoteOriginalUrl quote.isSome
  notificationId := none
  notificationKind := none
  notificationLabel := notificationLabel
  notificationAvatar := notificationAvatar
  notificationAccountId := none
  notificationAcct := none
  notificationDisplayName := none
  notificationAccountEmojis := []

def statusToViewBaseWithQuoteDepth :
    ℕ → Status → (serverDomain : Str) → (label avatar : Option Str) → TimelineStatus
  | 0, status, serverDomain, label, avatar => baseView status serverDomain label avatar none
  | depth + 1, status, serverDomain, label, avatar =>
    baseView status serverDomain label avatar <| status.quote.map fun quote =>
      match quote.reblog with
      | none => statusToViewBaseWithQuoteDepth depth quote serverDomain none none
      | some original =>
        let view := statusToViewBaseWithQuoteDepth depth original serverDomain none none
        { view with
          originalCreatedAt := some view.createdAt
          id := quote.id
          uri := quote.uri
          createdAt := quote.createdAt
          notificationKind := some "reblog".toList }

def statusToViewBase (status : Status) (serverDomain : Str)
    (notificationLabel notificationAvatar : Option Str) : TimelineStatus :=
  statusToViewBaseWithQuoteDepth 2 status serverDomain notificationLabel notificationAvatar

/-- The name of who boosts, or the acct of a nameless account. -/
def booster (displayName acct : Str) : Str := if displayName = [] then atAcct acct else displayName

def statusToView (status : Status) (serverDomain : Str) (notificationLabel : Option Str) :
    TimelineStatus :=
  match status.reblog with
  | some reblog =>
    let view := statusToViewBase reblog serverDomain
      (some (notificationLabel.getD
        (booster status.account.displayName status.account.acct ++ " boosted".toList)))
      (some status.account.avatar)
    { view with
      originalCreatedAt := some view.createdAt
      id := status.id
      uri := status.uri
      createdAt := status.createdAt
      notificationKind := some "reblog".toList
      notificationAccountId := some status.account.id
      notificationAcct := some (atAcct status.account.acct)
      notificationDisplayName := some status.account.displayName
      notificationAccountEmojis := customEmojisToViews status.account.emojis }
  | none => statusToViewBase status serverDomain notificationLabel none

def withSourceAcct (status : TimelineStatus) (sourceAcct : Option Str) : TimelineStatus :=
  { status with sourceAcct := sourceAcct }

/-! ### Rows -/

/-- `serde_json::to_string` and `from_str` at a type (`none` for an error). -/
structure Serde (α : Type) where
  toString : α → Option Str
  fromStr : Str → Option α

/-- What is written is read back. -/
def Serde.ReadsBack {α : Type} (serde : Serde α) (a : α) : Prop :=
  (serde.toString a).bind serde.fromStr = some a

/-- The JSON columns. -/
structure SerdeJson where
  emojis : Serde (List CustomEmoji)
  media : Serde (List MediaAttachment)
  poll : Serde Poll
  application : Serde StatusApplication

/-- A column for a list is `NULL` for the empty list. -/
def Serde.column {α : Type} [DecidableEq α] (serde : Serde (List α)) (list : List α) :
    Option Str :=
  if list = [] then none else serde.toString list

def Serde.ofColumn {α : Type} (serde : Serde (List α)) (column : Option Str) : List α :=
  (column.bind serde.fromStr).getD []

structure DbAccount where
  id : Str
  serverDomain : Str
  acct : Str
  displayName : Str
  avatar : Str
  emojisJson : Option Str
  deriving DecidableEq

structure DbStatus where
  id : Str
  serverDomain : Str
  uri : Str
  url : Option Str
  createdAt : Str
  accountId : Str
  content : Str
  visibility : Str
  sensitive : Bool
  spoilerText : Str
  reblogsCount : ℤ
  favouritesCount : ℤ
  repliesCount : ℤ
  inReplyToId : Option Str
  inReplyToAccountId : Option Str
  reblogOfId : Option Str
  language : Option Str
  favourited : Option Bool
  reblogged : Option Bool
  bookmarked : Option Bool
  pollJson : Option Str
  applicationJson : Option Str
  emojisJson : Option Str
  mediaAttachmentsJson : Option Str
  quoteId : Option Str
  quoteOriginalUrl : Option Str
  deriving DecidableEq

structure DbStatusViewerState where
  loginAccountAcct : Str
  statusId : Str
  serverDomain : Str
  favourited : Option Bool
  reblogged : Option Bool
  bookmarked : Option Bool
  deriving DecidableEq

def DbAccount.key (account : DbAccount) : EntityKey := (account.id, account.serverDomain)

def DbStatus.key (status : DbStatus) : EntityKey := (status.id, status.serverDomain)

def DbStatus.authorKey (status : DbStatus) : EntityKey := (status.accountId, status.serverDomain)

def DbStatusViewerState.key (state : DbStatusViewerState) : Str × EntityKey :=
  (state.loginAccountAcct, state.statusId, state.serverDomain)

section Rows

variable (json : SerdeJson)

def DbAccount.fromApi (account : Account) (serverDomain : Str) : DbAccount where
  id := account.id
  serverDomain := serverDomain
  acct := account.acct
  displayName := account.displayName
  avatar := account.avatar
  emojisJson := json.emojis.column account.emojis

def DbStatus.fromApi (status : Status) (serverDomain : Str) : DbStatus where
  id := status.id
  serverDomain := serverDomain
  uri := status.uri
  url := status.url
  createdAt := status.createdAt
  accountId := status.account.id
  content := status.content
  visibility := status.visibility
  sensitive := status.sensitive
  spoilerText := status.spoilerText
  reblogsCount := status.reblogsCount
  favouritesCount := status.favouritesCount
  repliesCount := status.repliesCount
  inReplyToId := status.inReplyToId
  inReplyToAccountId := status.inReplyToAccountId
  reblogOfId := status.reblog.map Status.id
  language := status.language
  favourited := status.favourited
  reblogged := status.reblogged
  bookmarked := status.bookmarked
  pollJson := status.poll.bind json.poll.toString
  applicationJson := status.application.bind json.application.toString
  emojisJson := json.emojis.column status.emojis
  mediaAttachmentsJson := json.media.column status.mediaAttachments
  quoteId := status.quoteId
  quoteOriginalUrl := status.quoteOriginalUrl

/-! ### Saving -/

/-- The tables, and the accounts that the batch has already saved. -/
structure Cache where
  accounts : List DbAccount
  statuses : List DbStatus
  viewerStates : List DbStatusViewerState
  accountKeys : List EntityKey

def Cache.empty : Cache := ⟨[], [], [], []⟩

/-- A new row of a status has no flags: they depend on the viewer. -/
def DbStatus.inserted (status : DbStatus) : DbStatus :=
  { status with
    favourited := none
    reblogged := none
    bookmarked := none }

/-- A row that exists keeps the columns that the statement does not set. -/
def DbStatus.updated (row status : DbStatus) : DbStatus :=
  { status with
    createdAt := row.createdAt
    accountId := row.accountId
    favourited := row.favourited
    reblogged := row.reblogged
    bookmarked := row.bookmarked }

def Cache.upsertAccountOnce (cache : Cache) (account : DbAccount) : Cache :=
  if account.key ∈ cache.accountKeys then cache
  else
    { cache with
      accounts := Keyed.upsertWith DbAccount.key (fun _ new => new) account cache.accounts
      accountKeys := account.key :: cache.accountKeys }

def Cache.upsertStatus (cache : Cache) (status : DbStatus) : Cache :=
  { cache with
    statuses := Keyed.upsertWith DbStatus.key DbStatus.updated status.inserted cache.statuses }

def Cache.upsertStatusViewerState (cache : Cache) (status : DbStatus) (viewerAcct : Str) : Cache :=
  { cache with
    viewerStates := Keyed.upsertWith DbStatusViewerState.key (fun _ new => new)
      { loginAccountAcct := viewerAcct
        statusId := status.id
        serverDomain := status.serverDomain
        favourited := status.favourited
        reblogged := status.reblogged
        bookmarked := status.bookmarked } cache.viewerStates }

def Cache.save (serverDomain : Str) (viewerAcct : Option Str) (cache : Cache) (status : Status) :
    Cache :=
  let row := DbStatus.fromApi json status serverDomain
  let saved :=
    (cache.upsertAccountOnce (.fromApi json status.account serverDomain)).upsertStatus row
  match viewerAcct with
  | some acct => saved.upsertStatusViewerState row acct
  | none => saved

/-- The statuses that are saved of one: those that it boosts and quotes itself, and it. -/
def Status.graph (status : Status) : List Status :=
  status.reblog.toList ++ status.quote.toList ++ [status]

def persistStatusGraph (status : Status) (serverDomain : Str) (viewerAcct : Option Str)
    (cache : Cache) : Cache :=
  status.graph.foldl (Cache.save json serverDomain viewerAcct) cache

/-! ### The cached view -/

def parsePollView (text : Str) : Option PollView := (json.poll.fromStr text).map pollToView

def parseCustomEmojiViews (column : Option Str) : List CustomEmojiSummary :=
  customEmojisToViews (json.emojis.ofColumn column)

def applicationNameFromJson (column : Option Str) : Option Str :=
  (column.bind json.application.fromStr).bind fun application =>
    normalizedApplicationName application.name

def dbStatusToView (status : DbStatus) (account : Option DbAccount) : TimelineStatus where
  id := status.id
  originalStatusId := status.id
  statusIdentity := .inferred status.serverDomain status.uri status.id
  sourceAcct := none
  accountId := status.accountId
  serverDomain := status.serverDomain
  uri := status.uri
  url := status.url
  displayName := (account.map DbAccount.displayName).getD status.accountId
  acct := atAcct ((account.map DbAccount.acct).getD status.accountId)
  avatar := (account.map DbAccount.avatar).getD []
  createdAt := status.createdAt
  originalCreatedAt := none
  inReplyToId := status.inReplyToId
  inReplyToAccountId := status.inReplyToAccountId
  content := status.content
  spoilerText := status.spoilerText
  language := status.language
  applicationName := applicationNameFromJson json status.applicationJson
  reblogsCount := status.reblogsCount
  favouritesCount := status.favouritesCount
  repliesCount := status.repliesCount
  visibility := status.visibility
  sensitive := status.sensitive
  favourited := status.favourited.getD false
  reblogged := status.reblogged.getD false
  bookmarked := status.bookmarked.getD false
  media := json.media.ofColumn status.mediaAttachmentsJson
  poll := status.pollJson.bind (parsePollView json)
  emojis := parseCustomEmojiViews json status.emojisJson
  accountEmojis := parseCustomEmojiViews json (account.bind DbAccount.emojisJson)
  quoteId := status.quoteId
  quoteOriginalUrl := status.quoteOriginalUrl
  quote := none
  quoteState := quoteState status.quoteId status.quoteOriginalUrl false
  notificationId := none
  notificationKind := none
  notificationLabel := none
  notificationAvatar := none
  notificationAccountId := none
  notificationAcct := none
  notificationDisplayName := none
  notificationAccountEmojis := []

/-- The rows that the views of a page refer to. -/
structure CachedStatusViewContext where
  statuses : List DbStatus
  accounts : List DbAccount

/-- `query_statuses_by_keys` -/
def Cache.queryStatusesByKeys (cache : Cache) (keys : List EntityKey) : List DbStatus :=
  cache.statuses.filter fun status => status.key ∈ keys

def DbStatus.reblogKey (status : DbStatus) : Option EntityKey :=
  status.reblogOfId.map (·, status.serverDomain)

def DbStatus.quoteKey (status : DbStatus) : Option EntityKey :=
  status.quoteId.map (·, status.serverDomain)

namespace CachedStatusViewContext

/-- The rows themselves, their originals and quotes, and the quotes of the originals.  A row that
is there first stands. -/
def load (cache : Cache) (statuses : List DbStatus) : CachedStatusViewContext :=
  let primary := statuses.reverse
  let related := cache.queryStatusesByKeys
    (statuses.flatMap fun status => status.reblogKey.toList ++ status.quoteKey.toList)
  let originals := statuses.filterMap fun status =>
    status.reblogKey.bind (Keyed.lookup DbStatus.key (primary ++ related))
  let quotes :=
    cache.queryStatusesByKeys (originals.flatMap fun status => status.quoteKey.toList)
  let all := Keyed.firsts DbStatus.key (primary ++ related ++ quotes)
  { statuses := all
    accounts := cache.accounts.filter fun account => account.key ∈ all.map DbStatus.authorKey }

variable (context : CachedStatusViewContext)

def status? (key : EntityKey) : Option DbStatus := Keyed.lookup DbStatus.key context.statuses key

def accountForStatus (status : DbStatus) : Option DbAccount :=
  Keyed.lookup DbAccount.key context.accounts status.authorKey

def statusToViewWithCachedQuote (status : DbStatus) (account : Option DbAccount) :
    TimelineStatus :=
  let view := dbStatusToView json status account
  match status.quoteKey.bind context.status? with
  | none => view
  | some quote =>
    { view with
      quote := some (dbStatusToView json quote (context.accountForStatus quote))
      quoteState := some "resolved".toList }

def statusToViewResolvingReblog (status : DbStatus) : TimelineStatus :=
  let account := context.accountForStatus status
  match status.reblogKey.bind context.status? with
  | none => statusToViewWithCachedQuote json context status account
  | some original =>
    let name := match account with
      | some account => booster account.displayName account.acct
      | none => status.accountId
    let view := statusToViewWithCachedQuote json context original
      (context.accountForStatus original)
    { view with
      id := status.id
      uri := status.uri
      originalCreatedAt := some view.createdAt
      createdAt := status.createdAt
      notificationLabel := some (name ++ " boosted".toList)
      notificationKind := some "reblog".toList
      notificationAvatar := account.map DbAccount.avatar
      notificationAccountId := some status.accountId
      notificationAcct := some (atAcct ((account.map DbAccount.acct).getD status.accountId))
      notificationDisplayName := some name
      notificationAccountEmojis :=
        parseCustomEmojiViews json (account.bind DbAccount.emojisJson) }

end CachedStatusViewContext

/-- `apply_viewer_states_to_views`, of one view. -/
def Cache.applyViewerState (cache : Cache) (view : TimelineStatus) : TimelineStatus :=
  match view.sourceAcct with
  | none => view
  | some acct =>
    match Keyed.lookup DbStatusViewerState.key cache.viewerStates
      (acct, view.statusIdentity.remoteId, view.statusIdentity.serverDomain) with
    | none => view
    | some viewer =>
      { view with
        favourited := viewer.favourited.getD false
        reblogged := viewer.reblogged.getD false
        bookmarked := viewer.bookmarked.getD false }

structure TimelineStatusRef where
  statusId : Str
  serverDomain : Str
  sourceAcct : Option Str

/-- `none` if a status is not cached. -/
def dbStatusRefsToViews (cache : Cache) (refs : List TimelineStatusRef) :
    Option (List TimelineStatus) := do
  let primary ← refs.mapM fun ref =>
    Keyed.lookup DbStatus.key cache.statuses (ref.statusId, ref.serverDomain)
  let context := CachedStatusViewContext.load cache primary
  return (refs.zip primary).map fun (ref, status) =>
    cache.applyViewerState
      (withSourceAcct (context.statusToViewResolvingReblog json status) ref.sourceAcct)

end Rows

end Awayuki.Hydration
