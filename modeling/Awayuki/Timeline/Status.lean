import Awayuki.Text

/-!
# Timeline statuses

The `TimelineStatus` of the frontend and its keys, from `domain/timelineEntities.ts`.

* `TimelineStatus`: the fields of a row and the post it quotes, itself a whole status;
* `canonicalStatusKey`, `statusKey`: the key of the post and the key of the row;
* `mergeUpdatedStatusIntoEntry`, `Patch.apply`: the two ways of changing a stored row.

The functions of the JavaScript runtime are a parameter, `Platform`.
-/

namespace Awayuki.Timeline

abbrev StatusKey := Str

/-- What the code asks of the JavaScript runtime. -/
structure Platform where
  /-- `String.prototype.trim` -/
  trim : Str → Str
  /-- `String.prototype.toLowerCase` -/
  toLowerCase : Str → Str
  /-- `new URL(uri)` for the protocols `http:` and `https:`, with its host name in lower case and
  no hash, as `toString` writes it -/
  httpUrl : Str → Option Str
  /-- `Date.parse`, when it is finite -/
  dateParse : Str → Option ℤ

structure CustomEmojiSummary where
  shortcode : Str
  url : Str
  staticUrl : Str
  category : Option Str := none
  deriving DecidableEq

/-- The fields of a `TimelineStatus` other than `quote`.  Those that the reducer only carries along
are the one field `rest`. -/
structure StatusFields (β : Type) where
  id : Str
  originalStatusId : Str
  sourceAcct : Option Str := none
  serverDomain : Str
  uri : Str
  createdAt : Str
  originalCreatedAt : Option Str := none
  notificationId : Option Str := none
  notificationKind : Option Str := none
  notificationLabel : Option Str := none
  notificationAvatar : Option Str := none
  notificationAccountId : Option Str := none
  notificationAcct : Option Str := none
  notificationDisplayName : Option Str := none
  notificationAccountEmojis : Option (List CustomEmojiSummary) := none
  rest : β
  deriving DecidableEq

/-- A row of a timeline, with the post it quotes if it quotes one. -/
inductive TimelineStatus (β : Type)
  | plain (fields : StatusFields β)
  | quoting (fields : StatusFields β) (quote : TimelineStatus β)
  deriving DecidableEq

variable {β : Type}

namespace TimelineStatus

def fields : TimelineStatus β → StatusFields β
  | plain fields => fields
  | quoting fields _ => fields

def quote : TimelineStatus β → Option (TimelineStatus β)
  | plain _ => none
  | quoting _ quote => some quote

/-- `{ ...fields, quote }` -/
def mk (fields : StatusFields β) : Option (TimelineStatus β) → TimelineStatus β
  | none => plain fields
  | some quote => quoting fields quote

@[simp] theorem fields_mk (fields : StatusFields β) (quote : Option (TimelineStatus β)) :
    (mk fields quote).fields = fields := by cases quote <;> rfl

@[simp] theorem quote_mk (fields : StatusFields β) (quote : Option (TimelineStatus β)) :
    (mk fields quote).quote = quote := by cases quote <;> rfl

theorem eq_quoting {s quote : TimelineStatus β} (h : s.quote = some quote) :
    s = quoting s.fields quote := by
  cases s with
  | plain fields => cases h
  | quoting fields quote' =>
    obtain rfl := Option.some.inj h
    rfl

end TimelineStatus

/-- `status.notificationId` as a condition: there is one and it is not empty. -/
def truthy (s : Option Str) : Option Str := s.filter (· ≠ [])

-- The instances that are found first do not compute.
instance leWithBot : LE (WithBot ℤ) := @WithBot.instLE ℤ Int.instLEInt

instance decidableLEWithBot : DecidableLE (WithBot ℤ) := @WithBot.decidableLE ℤ Int.instLEInt Int.decLe

instance decidableLTWithBot : DecidableLT (WithBot ℤ) := @WithBot.decidableLT ℤ Int.instLTInt Int.decLt

section Keys

variable (env : Platform)

def canonicalStatusIdKey (serverDomain statusId : Str) : StatusKey :=
  "server:".toList ++ env.toLowerCase (env.trim serverDomain) ++ ":status:".toList ++ statusId

/-- The key of the post itself, whatever the row that shows it. -/
def canonicalStatusKey (status : StatusFields β) : StatusKey :=
  let uri := env.trim status.uri
  let local_ := canonicalStatusIdKey env status.serverDomain
    (if status.originalStatusId ≠ [] then status.originalStatusId else status.id)
  if uri.startsWith "at://".toList then "atproto:".toList ++ uri
  else if uri ≠ [] then
    match env.httpUrl uri with
    | some url => "activitypub:".toList ++ url
    -- A malformed remote URI is not trusted as a globally unique identity.
    | none => local_
  else local_

/-- `sourceAcct?.trim().replace(/^@+/, "").toLowerCase() ?? ""` -/
def sourceKey (sourceAcct : Option Str) : Str :=
  match sourceAcct with
  | none => []
  | some acct => env.toLowerCase (Str.trimStartMatches '@' (env.trim acct))

def statusKeyFromCanonical (status : StatusFields β) (canonical : StatusKey) : StatusKey :=
  match truthy status.notificationId with
  | some notificationId =>
    canonical ++ ":notification:".toList ++ env.toLowerCase status.serverDomain ++ ":".toList ++
      sourceKey env status.sourceAcct ++ ":".toList ++ notificationId
  | none =>
    if status.id ≠ [] ∧ status.originalStatusId ≠ [] ∧ status.id ≠ status.originalStatusId then
      canonical ++ ":reblog:".toList ++ env.toLowerCase status.serverDomain ++ ":".toList ++ status.id
    else canonical

/-- The key of a row: a notification and a reblog have their own, beside the post's. -/
def statusKey (status : StatusFields β) : StatusKey :=
  statusKeyFromCanonical env status (canonicalStatusKey env status)

/-- The time a row is sorted by; `⊥` is `Number.NEGATIVE_INFINITY`. -/
def createdAtTimestamp (status : Option (TimelineStatus β)) : WithBot ℤ :=
  match status with
  | none => ⊥
  | some status =>
    match env.dateParse status.fields.createdAt with
    | none => ⊥
    | some time => time

end Keys

/-- What an update of a post does to a stored row of it. -/
def mergeUpdatedStatusIntoEntry (current updated : TimelineStatus β) : TimelineStatus β :=
  .mk
    { updated.fields with
      -- The event of the row stays the row's own.
      id := current.fields.id
      uri := current.fields.uri
      originalStatusId := current.fields.originalStatusId
      createdAt := current.fields.createdAt
      originalCreatedAt := current.fields.originalCreatedAt.or updated.fields.originalCreatedAt
      sourceAcct := current.fields.sourceAcct.or updated.fields.sourceAcct
      notificationId := current.fields.notificationId
      notificationKind := current.fields.notificationKind
      notificationLabel := current.fields.notificationLabel
      notificationAvatar := current.fields.notificationAvatar
      notificationAccountId := current.fields.notificationAccountId
      notificationAcct := current.fields.notificationAcct
      notificationDisplayName := current.fields.notificationDisplayName
      notificationAccountEmojis := current.fields.notificationAccountEmojis }
    updated.quote

/-- A `Partial<TimelineStatus>`: the fields it has replace those of the row. -/
structure Patch (β : Type) where
  id : Option Str := none
  originalStatusId : Option Str := none
  sourceAcct : Option (Option Str) := none
  serverDomain : Option Str := none
  uri : Option Str := none
  createdAt : Option Str := none
  originalCreatedAt : Option (Option Str) := none
  quote : Option (Option (TimelineStatus β)) := none
  notificationId : Option (Option Str) := none
  notificationKind : Option (Option Str) := none
  notificationLabel : Option (Option Str) := none
  notificationAvatar : Option (Option Str) := none
  notificationAccountId : Option (Option Str) := none
  notificationAcct : Option (Option Str) := none
  notificationDisplayName : Option (Option Str) := none
  notificationAccountEmojis : Option (Option (List CustomEmojiSummary)) := none
  rest : β → β := fun rest => rest

/-- `{ ...current, ...patch }` -/
def Patch.apply (patch : Patch β) (current : TimelineStatus β) : TimelineStatus β :=
  let c := current.fields
  .mk
    { id := patch.id.getD c.id
      originalStatusId := patch.originalStatusId.getD c.originalStatusId
      sourceAcct := patch.sourceAcct.getD c.sourceAcct
      serverDomain := patch.serverDomain.getD c.serverDomain
      uri := patch.uri.getD c.uri
      createdAt := patch.createdAt.getD c.createdAt
      originalCreatedAt := patch.originalCreatedAt.getD c.originalCreatedAt
      notificationId := patch.notificationId.getD c.notificationId
      notificationKind := patch.notificationKind.getD c.notificationKind
      notificationLabel := patch.notificationLabel.getD c.notificationLabel
      notificationAvatar := patch.notificationAvatar.getD c.notificationAvatar
      notificationAccountId := patch.notificationAccountId.getD c.notificationAccountId
      notificationAcct := patch.notificationAcct.getD c.notificationAcct
      notificationDisplayName := patch.notificationDisplayName.getD c.notificationDisplayName
      notificationAccountEmojis := patch.notificationAccountEmojis.getD c.notificationAccountEmojis
      rest := patch.rest c.rest }
    (patch.quote.getD current.quote)

/-- The fields that the keys are made of stay as they are. -/
def Patch.KeepsIdentity (patch : Patch β) : Prop :=
  patch.id = none ∧ patch.originalStatusId = none ∧ patch.sourceAcct = none ∧
    patch.serverDomain = none ∧ patch.uri = none ∧ patch.notificationId = none

/-- A number; `NaN` and the infinities, which are not finite, are `none`. -/
abbrev Limit := Option ℚ

def normalizeTimelineLimit (limit : Limit) : ℕ :=
  let finite : ℤ := match limit with
    | some limit => limit.floor
    | none => 100
  (max 1 (if finite ≠ 0 then finite else 100)).toNat

theorem normalizeTimelineLimit_pos (limit : Limit) : 0 < normalizeTimelineLimit limit := by
  unfold normalizeTimelineLimit
  simp only [Int.lt_toNat]
  omega

/-! ### Sample rows -/

/-- The second `n` of a day. -/
def sampleTime (n : ℕ) : Str := "2026-07-13T00:00:0".toList ++ Nat.toDigits 10 n ++ ".000Z".toList

/-- The runtime on the texts of sample rows: ASCII without blanks, `https:` addresses that are as
`toString` writes them, and sample times. -/
def samplePlatform : Platform where
  trim := Str.trim
  toLowerCase := Str.toAsciiLowercase
  httpUrl uri := if uri.startsWith "https://".toList then some uri else none
  dateParse createdAt := (List.range 10).findSome? fun n =>
    if createdAt = sampleTime n then some (1783900800000 + 1000 * n) else none

/-- A post of one server. -/
def samplePost (id : String) (time : ℕ) : StatusFields Unit where
  id := id.toList
  originalStatusId := id.toList
  serverDomain := "alpha.example".toList
  uri := "https://alpha.example/statuses/".toList ++ id.toList
  createdAt := sampleTime time
  rest := ()

end Awayuki.Timeline
