import Awayuki.Text
import Awayuki.Library.Keyed

/-!
# The cache database

The rows of `db/models.rs` and the JSON documents some columns hold, with the columns that the
modelled queries read, and the tables with the keys the migrations declare.

* `SerdeJson` is what the code asks of `serde_json`: parsing the documents of the columns
  `mentions_json`, `tags_json`, `media_attachments_json`, `poll_json`, `card_json` and
  `application_json`, whose texts are otherwise opaque here;
* `Database` is a state of the tables in which every primary key is unique and every foreign key
  of `timeline_entries` and `status_viewer_state` refers to a row (SQLite enforces both).
-/

namespace Awayuki

/-! ### Rows -/

structure DbAccount where
  id : Str
  serverDomain : Str
  username : Str
  acct : Str
  displayName : Str
  note : Str
  locked : Bool
  bot : Bool
  followersCount : ℤ
  followingCount : ℤ
  statusesCount : ℤ
  deriving DecidableEq, Repr

structure DbStatus where
  id : Str
  serverDomain : Str
  uri : Str
  url : Option Str
  createdAt : Str
  editedAt : Option Str
  accountId : Str
  content : Str
  visibility : Str
  sensitive : Bool
  spoilerText : Str
  reblogsCount : ℤ
  favouritesCount : ℤ
  repliesCount : ℤ
  inReplyToId : Option Str
  inReplyToAccountId : Option Str
  reblogOfId : Option Str
  language : Option Str
  pollJson : Option Str
  cardJson : Option Str
  applicationJson : Option Str
  mentionsJson : Option Str
  tagsJson : Option Str
  mediaAttachmentsJson : Option Str
  quoteId : Option Str
  quoteOriginalUrl : Option Str
  deriving DecidableEq, Repr

structure DbStatusViewerState where
  loginAccountAcct : Str
  statusId : Str
  serverDomain : Str
  favourited : Option Bool
  reblogged : Option Bool
  muted : Option Bool
  bookmarked : Option Bool
  pinned : Option Bool
  deriving DecidableEq, Repr

/-- The columns of `login_accounts` that KQ may read. -/
structure LoginAccountIdentity where
  acct : Str
  serverDomain : Str
  accountId : Str
  displayName : Str
  serverKind : Str
  isActive : Bool
  deriving DecidableEq, Repr

/-- A row of `timeline_entries`. -/
structure TimelineEntry where
  timelineType : Str
  serverDomain : Str
  statusId : Str
  accountAcct : Str
  positionAt : Str
  deriving DecidableEq, Repr

/-- `(id, server_domain)`: the key of a status or an account. -/
abbrev EntityKey := Str × Str

instance lawfulBEqEntityKey : LawfulBEq EntityKey := inferInstance

def DbStatus.key (s : DbStatus) : EntityKey := (s.id, s.serverDomain)

def DbAccount.key (a : DbAccount) : EntityKey := (a.id, a.serverDomain)

/-- The key of a status row's author. -/
def DbStatus.authorKey (s : DbStatus) : EntityKey := (s.accountId, s.serverDomain)

/-- The key of the original of a boost. -/
def DbStatus.reblogKey (s : DbStatus) : Option EntityKey := s.reblogOfId.map (·, s.serverDomain)

/-- The key of the quoted status. -/
def DbStatus.quoteKey (s : DbStatus) : Option EntityKey := s.quoteId.map (·, s.serverDomain)

def TimelineEntry.statusKey (e : TimelineEntry) : EntityKey := (e.statusId, e.serverDomain)

def DbStatusViewerState.statusKey (v : DbStatusViewerState) : EntityKey :=
  (v.statusId, v.serverDomain)

/-- A public post of an account, without any optional part. -/
def DbStatus.plain (id serverDomain accountId : Str) : DbStatus where
  id := id
  serverDomain := serverDomain
  uri := []
  url := none
  createdAt := "2025-01-01T00:00:00Z"
  editedAt := none
  accountId := accountId
  content := []
  visibility := "public"
  sensitive := false
  spoilerText := []
  reblogsCount := 0
  favouritesCount := 0
  repliesCount := 0
  inReplyToId := none
  inReplyToAccountId := none
  reblogOfId := none
  language := none
  pollJson := none
  cardJson := none
  applicationJson := none
  mentionsJson := none
  tagsJson := none
  mediaAttachmentsJson := none
  quoteId := none
  quoteOriginalUrl := none

/-! ### JSON columns -/

structure Mention where
  id : Str
  username : Str
  acct : Str
  url : Str
  deriving DecidableEq, Repr

structure Tag where
  name : Str
  url : Str
  deriving DecidableEq, Repr

structure MediaAttachment where
  mediaType : Str
  description : Option Str
  deriving DecidableEq, Repr

structure PollOption where
  title : Str
  deriving DecidableEq, Repr

/-- A poll; `expiresAt` is the instant as `to_rfc3339` writes it. -/
structure Poll where
  id : Str
  expiresAt : Option Str
  expired : Bool
  multiple : Bool
  votesCount : ℤ
  votersCount : Option ℤ
  options : List PollOption
  deriving DecidableEq, Repr

/-- A link card; only its presence is read. -/
structure Card where
  url : Str
  deriving DecidableEq, Repr

structure StatusApplication where
  name : Str
  deriving DecidableEq, Repr

/-- `serde_json::from_str` at the types of the JSON columns (`none` for an error). -/
class SerdeJson where
  mentions : Str → Option (List Mention)
  tags : Str → Option (List Tag)
  mediaAttachments : Str → Option (List MediaAttachment)
  poll : Str → Option Poll
  card : Str → Option Card
  application : Str → Option StatusApplication

/-- Parsers for rows without JSON columns. -/
@[reducible] def rejectingJson : SerdeJson where
  mentions _ := none
  tags _ := none
  mediaAttachments _ := none
  poll _ := none
  card _ := none
  application _ := none

/-! ### Tables -/

/-- The tables the KQ code reads, with the keys their migrations declare. -/
structure Database where
  statuses : List DbStatus
  accounts : List DbAccount
  timelineEntries : List TimelineEntry
  viewerStates : List DbStatusViewerState
  loginAccounts : List LoginAccountIdentity
  statuses_nodup : (statuses.map DbStatus.key).Nodup
  accounts_nodup : (accounts.map DbAccount.key).Nodup
  loginAccounts_nodup : (loginAccounts.map LoginAccountIdentity.acct).Nodup
  viewerStates_nodup :
    (viewerStates.map fun v => (v.loginAccountAcct, v.statusId, v.serverDomain)).Nodup
  entry_account : ∀ e ∈ timelineEntries, ∃ a ∈ loginAccounts, a.acct = e.accountAcct
  entry_status : ∀ e ∈ timelineEntries, ∃ s ∈ statuses, s.key = e.statusKey
  viewerState_account : ∀ v ∈ viewerStates, ∃ a ∈ loginAccounts, a.acct = v.loginAccountAcct
  viewerState_status : ∀ v ∈ viewerStates, ∃ s ∈ statuses, s.key = v.statusKey

namespace Database

/-- A database with statuses only. -/
def ofStatuses (statuses : List DbStatus) (h : (statuses.map DbStatus.key).Nodup) : Database where
  statuses := statuses
  accounts := []
  timelineEntries := []
  viewerStates := []
  loginAccounts := []
  statuses_nodup := h
  accounts_nodup := List.nodup_nil
  loginAccounts_nodup := List.nodup_nil
  viewerStates_nodup := List.nodup_nil
  entry_account := by simp
  entry_status := by simp
  viewerState_account := by simp
  viewerState_status := by simp

variable (db : Database)

/-- The status row with the given key. -/
def status? (k : EntityKey) : Option DbStatus := Keyed.lookup DbStatus.key db.statuses k

/-- The account row with the given key. -/
def account? (k : EntityKey) : Option DbAccount := Keyed.lookup DbAccount.key db.accounts k

variable {db}

theorem status?_eq_some {k : EntityKey} {s : DbStatus} :
    db.status? k = some s ↔ s ∈ db.statuses ∧ s.key = k :=
  Keyed.lookup_eq_some db.statuses_nodup

theorem account?_eq_some {k : EntityKey} {a : DbAccount} :
    db.account? k = some a ↔ a ∈ db.accounts ∧ a.key = k :=
  Keyed.lookup_eq_some db.accounts_nodup

end Database

end Awayuki
