import Awayuki.Kq.PlainText
import Awayuki.Kq.Context

/-!
# KQ: values of the fields

`field_value` and the functions it dispatches to: what each field of the query language is for one
row and one branch of a source.  Fields of the displayed post are Missing for a boost whose
original is not resolved; they never fall back to the boost itself.
-/

namespace Awayuki.Kq

/-- One way in which a source matches a row, with the login account whose view of the post the
`viewer` fields show. -/
structure SourceBranch where
  viewerAccountAcct : Option Str
  deriving DecidableEq, Repr

/-! ### Texts, identities and numbers -/

def nonemptyText (value : Str) : Value := if value.isEmpty then .unknown else .ofText value

def optionalNonemptyText (value : Option Str) : Value := value.elim .unknown nonemptyText

def optionalIdentity (value : Option Str) : Value :=
  (value.filter fun value => !value.isEmpty).elim .unknown .identity

def usizeNumber (value : ℕ) : Value := (checked value).elim .unknown .number

section

variable [Icu]

/-- The set of the given members, in order, without repetitions. -/
def uniqueScalars (values : List ScalarValue) : List ScalarValue :=
  values.foldl pushUniqueScalar []

/-! ### Fields of the displayed status -/

variable [SerdeJson]

def statusApplication (status : DbStatus) : Value :=
  match parseOptionalObject SerdeJson.application status.applicationJson with
  | .value application => nonemptyText application.name.trim
  | .absent | .invalid => .unknown

/-- The members that one mention adds to `mentions`. -/
def mentionScalars (status : DbStatus) (mention : Mention) : List ScalarValue :=
  (if mention.id.isEmpty then [] else [.identity mention.id]) ++
    (if mention.acct.isEmpty then [] else [.text (statusScopedAcct mention.acct status)]) ++
    if mention.username.isEmpty then [] else [.text mention.username]

def mentionsValue (status : DbStatus) : Value :=
  match parseOptionalArray SerdeJson.mentions status.mentionsJson with
  | .invalid => .unknown
  | .values mentions =>
    if statusIsAtproto status && mentions.isEmpty then .unknown
    else
      let replyAccount := status.inReplyToAccountId.filter fun id => !id.isEmpty
      .set (uniqueScalars
        (replyAccount.toList.map .identity ++ mentions.flatMap (mentionScalars status)))

def tagsValue (status : DbStatus) : Value :=
  match parseOptionalArray SerdeJson.tags status.tagsJson with
  | .values tags =>
    if statusIsAtproto status && tags.isEmpty then .unknown
    else .set (uniqueScalars
      ((tags.filter fun tag => !tag.name.isEmpty).map fun tag => .text tag.name))
  | .invalid => .unknown

def normalizeMediaType (mediaType : Str) : Str :=
  if mediaType = "image".toList then "image"
  else if mediaType = "gifv".toList then "gifv"
  else if mediaType = "video".toList then "video"
  else if mediaType = "audio".toList then "audio"
  else "unknown"

def mediaFieldValue (field : Field) (status : DbStatus) : Value :=
  match parseOptionalArray SerdeJson.mediaAttachments status.mediaAttachmentsJson with
  | .invalid => .unknown
  | .values media =>
    match field with
    | .hasMedia => .boolean !media.isEmpty
    | .mediaCount => usizeNumber media.length
    | .mediaTypes => .set (uniqueScalars (media.map fun attachment =>
        .text (normalizeMediaType attachment.mediaType)))
    | .mediaDescriptions => .set (uniqueScalars
        (((media.filterMap (·.description)).filter fun description => !description.isEmpty).map
          .text))
    | .hasImage => .boolean (media.any fun attachment =>
        normalizeMediaType attachment.mediaType == "image".toList)
    | .hasVideo => .boolean (media.any fun attachment =>
        normalizeMediaType attachment.mediaType == "video".toList ||
          normalizeMediaType attachment.mediaType == "gifv".toList)
    | .hasAudio => .boolean (media.any fun attachment =>
        normalizeMediaType attachment.mediaType == "audio".toList)
    | _ => .unknown

def pollFieldValue (field : Field) (status : DbStatus) : Value :=
  match parseOptionalObject SerdeJson.poll status.pollJson with
  | .absent => if field = .hasPoll then .boolean false else .unknown
  | .invalid => .unknown
  | .value poll =>
    match field with
    | .hasPoll => .boolean true
    | .pollId => optionalIdentity poll.id
    | .pollExpired => .boolean poll.expired
    | .pollMultiple => .boolean poll.multiple
    | .pollVotesCount => .number poll.votesCount
    | .pollVotersCount => poll.votersCount.elim .unknown .number
    | .pollOptionsCount => usizeNumber poll.options.length
    | .pollOptions => .set (uniqueScalars
        ((poll.options.filter fun option => !option.title.isEmpty).map fun option =>
          .text option.title))
    | .pollExpiresAt => poll.expiresAt.elim .unknown .ofText
    | _ => .unknown

def statusHasQuote (status : DbStatus) : Bool :=
  status.quoteId.any (fun id => !id.isEmpty) ||
    status.quoteOriginalUrl.any fun url => !url.isEmpty

/-- The `author` fields, and the `booster` fields likewise. -/
def accountFieldValue (field : Field) (account : DbAccount) (status : DbStatus) : Value :=
  match field with
  | .authorId | .boosterId => .identity account.id
  | .authorUsername | .boosterUsername => .ofText account.username
  | .authorAcct | .boosterAcct => .ofText (statusAccountAcct account status)
  | .authorDisplayName | .boosterDisplayName => .ofText account.displayName
  | .authorNote | .boosterNote => .ofText (htmlToPlainText account.note)
  | .authorLocked | .boosterLocked => .boolean account.locked
  | .authorBot | .boosterBot => .boolean account.bot
  | .authorFollowers | .boosterFollowers => .number account.followersCount
  | .authorFollowing | .boosterFollowing => .number account.followingCount
  | .authorStatuses | .boosterStatuses => .number account.statusesCount
  | .authorDomain | .boosterDomain => .ofText (accountOriginDomain account status)
  | _ => .unknown

/-- The fields of the displayed status `status`, by the author `account`. -/
def statusFieldValue (field : Field) (status : DbStatus) (account : Option DbAccount) : Value :=
  match field with
  | .text => .ofText (htmlToPlainText status.content)
  | .rawContent => .ofText status.content
  | .id => .identity status.id
  | .uri => nonemptyText status.uri
  | .url => optionalNonemptyText status.url
  | .application => statusApplication status
  | .directMessage => .boolean (status.visibility.eqIgnoreAsciiCase "direct")
  | .inReplyTo => optionalIdentity status.inReplyToId
  | .replyAccountId => optionalIdentity status.inReplyToAccountId
  | .isReply => .boolean status.inReplyToId.isSome
  | .mentions => mentionsValue status
  | .favouritesCount => .number status.favouritesCount
  | .reblogsCount => .number status.reblogsCount
  | .repliesCount => .number status.repliesCount
  | .visibility => .ofText status.visibility
  | .language => optionalNonemptyText status.language
  | .spoilerText => .ofText status.spoilerText
  | .hasSpoiler => .boolean !status.spoilerText.isEmpty
  | .sensitive => .boolean status.sensitive
  | .hasMedia | .mediaCount | .mediaTypes | .mediaDescriptions | .hasImage | .hasVideo
  | .hasAudio => mediaFieldValue field status
  | .hasPoll | .pollId | .pollExpired | .pollMultiple | .pollVotesCount | .pollVotersCount
  | .pollOptionsCount | .pollOptions | .pollExpiresAt => pollFieldValue field status
  | .hasCard =>
    match parseOptionalObject SerdeJson.card status.cardJson with
    | .absent => .boolean false
    | .value _ => .boolean true
    | .invalid => .bool .unknown
  | .hasQuote => .boolean (statusHasQuote status)
  | .edited => .boolean status.editedAt.isSome
  | .editedAt => optionalNonemptyText status.editedAt
  | .domain => .ofText status.serverDomain
  | .hashtags => tagsValue status
  | .isPublic => .boolean (status.visibility.eqIgnoreAsciiCase "public")
  | .isUnlisted => .boolean (status.visibility.eqIgnoreAsciiCase "unlisted")
  | .isPrivate => .boolean (status.visibility.eqIgnoreAsciiCase "private")
  | .authorId | .authorUsername | .authorAcct | .authorDisplayName | .authorNote | .authorLocked
  | .authorBot | .authorFollowers | .authorFollowing | .authorStatuses | .authorDomain =>
    account.elim .unknown fun account => accountFieldValue field account status
  | _ => .unknown

def effectiveFieldValue (field : Field) (context : EvaluationContext) : Value :=
  match effectiveStatus context with
  | none => .unknown
  | some status => statusFieldValue field status (authorAccount context)

/-! ### Fields of the boost, the quoted status and the viewer -/

def boosterFieldValue (field : Field) (context : EvaluationContext) : Value :=
  if context.wrapper.status.reblogOfId.isNone then .unknown
  else context.wrapper.account.elim .unknown fun account =>
    accountFieldValue field account context.wrapper.status

def quoteFieldValue (field : Field) (context : EvaluationContext) : Value :=
  match effectiveStatus context with
  | none => .unknown
  | some subject =>
    match field with
    | .quoteId => context.quote.elim .unknown fun quote => .identity quote.status.id
    | .quoteUrl =>
      let quoted := context.quote.bind fun quote =>
        (quote.status.url.filter fun url => !url.isEmpty).orElse fun _ =>
          if quote.status.uri.isEmpty then none else some quote.status.uri
      let url := quoted.orElse fun _ => subject.quoteOriginalUrl.filter fun url => !url.isEmpty
      url.elim .unknown .ofText
    | .quoteText => context.quote.elim .unknown fun quote =>
        .ofText (htmlToPlainText quote.status.content)
    | .quoteAuthorAcct =>
      (context.quote.bind fun quote => quote.account.map fun account =>
        Value.ofText (statusAccountAcct account quote.status)).getD .unknown
    | _ => .unknown

/-- Is this the state that the account has recorded for the status? -/
def isStateOf (viewerAccountAcct : Str) (subject : DbStatus) (state : DbStatusViewerState) :
    Bool :=
  selectorEqual state.loginAccountAcct viewerAccountAcct && state.statusId == subject.id &&
    state.serverDomain.eqIgnoreAsciiCase subject.serverDomain

/-- The row that the `viewer` fields of an account show: its state of the displayed status, if
there is exactly one. -/
def viewerRow (context : EvaluationContext) (viewerAccountAcct : Option Str) :
    Option DbStatusViewerState :=
  match viewerAccountAcct, effectiveStatus context with
  | some acct, some subject =>
    match context.viewerStates.filter (isStateOf acct subject) with
    | [state] => some state
    | _ => none
  | _, _ => none

/-- `viewer_state`: what one account has recorded. -/
def viewerState (context : EvaluationContext) (viewerAccountAcct : Option Str)
    (select : DbStatusViewerState → Option Bool) : Truth :=
  ((viewerRow context viewerAccountAcct).bind select).elim .unknown truth

/-- The column of the viewer state a field shows. -/
def viewerSelector : Field → Option (DbStatusViewerState → Option Bool)
  | .viewerFavourited => some (·.favourited)
  | .viewerReblogged => some (·.reblogged)
  | .viewerMuted => some (·.muted)
  | .viewerBookmarked => some (·.bookmarked)
  | .viewerPinned => some (·.pinned)
  | _ => none

def viewerFieldValue (field : Field) (context : EvaluationContext) (branch : SourceBranch) :
    Value :=
  match viewerSelector field with
  | some select => .bool (viewerState context branch.viewerAccountAcct select)
  | none => .unknown

/-! ### All fields -/

/-- The members of `our`: each login account's name and identifier. -/
def ourAccounts (context : EvaluationContext) : Value :=
  .set (uniqueScalars (context.loginAccounts.flatMap fun account =>
    [.text (loginProviderAcct account), .identity account.accountId]))

/-- `field_value`. -/
def fieldValue (field : Field) (context : EvaluationContext) (branch : SourceBranch) : Value :=
  match field with
  | .boost => .boolean context.wrapper.status.reblogOfId.isSome
  | .ourAccounts => ourAccounts context
  | .boosterId | .boosterUsername | .boosterAcct | .boosterDisplayName | .boosterNote
  | .boosterLocked | .boosterBot | .boosterFollowers | .boosterFollowing | .boosterStatuses
  | .boosterDomain => boosterFieldValue field context
  | .quoteId | .quoteUrl | .quoteText | .quoteAuthorAcct => quoteFieldValue field context
  | .viewerFavourited | .viewerReblogged | .viewerMuted | .viewerBookmarked | .viewerPinned =>
    viewerFieldValue field context branch
  | _ => effectiveFieldValue field context

end

end Awayuki.Kq
