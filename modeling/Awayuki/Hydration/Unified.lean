import Awayuki.Hydration.Views

/-!
# Unified timelines

Home, Public and Notifications show what any of the login accounts has received.  Of a post that
several have received one row is shown, with the flags of the account that the row is from.

* `queryAggregateStatusRefs`: the rows of a page of Home or Public, from
  `db/queries/read_models.rs`;
* `source_of_received`: which account's row stands for a post;
* `queryCachedStatuses`: the page of notifications, from `application/notification.rs`;
* `loadLocalTimeline`: the views of a page, from `application/timeline.rs`;
* `flagsFor`, `statusViewerStates`: what one account has done with posts, by their identities;
* `flags_of_loaded`: the flags of a view are those of the account that it is from.
-/

namespace Awayuki.Hydration

open Timeline (StatusIdentity FederationProtocol DbNotification notificationTypeLabel
  notificationPage atAcct)

/-! ### Tables -/

structure ViewerFlags where
  favourited : Bool
  reblogged : Bool
  bookmarked : Bool
  deriving DecidableEq

/-- A state that is absent counts as false. -/
def ViewerFlags.unset : ViewerFlags := ⟨false, false, false⟩

def DbStatusViewerState.flags (state : DbStatusViewerState) : ViewerFlags where
  favourited := state.favourited.getD false
  reblogged := state.reblogged.getD false
  bookmarked := state.bookmarked.getD false

def TimelineStatus.flags (view : TimelineStatus) : ViewerFlags where
  favourited := view.favourited
  reblogged := view.reblogged
  bookmarked := view.bookmarked

/-- A row of `status_identities`. -/
structure StatusIdentityRow where
  statusId : Str
  serverDomain : Str
  protocol : FederationProtocol
  canonicalUri : Str

def StatusIdentityRow.key (row : StatusIdentityRow) : EntityKey := (row.statusId, row.serverDomain)

/-- The tables that unified timelines are read from.  `updatedAt` is the column of the viewer state
with a key. -/
structure Db where
  cache : Cache
  updatedAt : Str × EntityKey → Str
  statusIdentities : List StatusIdentityRow
  timelineEntries : List TimelineEntry
  notifications : List DbNotification

/-! ### The rows of a page -/

structure AggregateFilter where
  excludeBoosts : Bool := false
  excludeMedia : Bool := false
  includeMedia : Bool := false

/-- An entry of a timeline as the query ranks it. -/
structure Candidate where
  serverDomain : Str
  statusId : Str
  sourceAcct : Str
  accountRank : ℕ
  latestPosition : Str
  canonicalUri : Str

namespace Db

variable (db : Db) {timelineType acct : Str} {candidateLimit : ℕ}

def status? (key : EntityKey) : Option DbStatus := Keyed.lookup DbStatus.key db.cache.statuses key

/-- `media_attachments_json IS NOT NULL AND media_attachments_json != '[]'` -/
def attaches (status : DbStatus) : Bool := status.mediaAttachmentsJson.any (· ≠ "[]".toList)

def hasMedia (status : DbStatus) : Bool :=
  attaches status || (status.reblogKey.bind db.status?).any attaches

def admits (filter : AggregateFilter) (status : DbStatus) : Bool :=
  (!filter.excludeBoosts || status.reblogOfId.isNone) &&
    (!filter.excludeMedia || !db.hasMedia status) && (!filter.includeMedia || db.hasMedia status)

/-- `COALESCE(NULLIF(identity.canonical_uri, ''), NULLIF(s.uri, ''), …)` -/
def canonicalUri (status : DbStatus) : Str :=
  let identity := Keyed.lookup StatusIdentityRow.key db.statusIdentities status.key
  (Timeline.truthy (identity.map StatusIdentityRow.canonicalUri)).getD
    (if status.uri ≠ [] then status.uri else status.serverDomain ++ ":".toList ++ status.id)

/-- The entries of a timeline with their statuses. -/
def entriesOf (timelineType : Str) (filter : AggregateFilter) : List (TimelineEntry × DbStatus) :=
  (db.timelineEntries.filter (·.timelineType = timelineType)).filterMap fun entry =>
    (db.status? entry.statusKey).bind fun status =>
      if db.admits filter status then some (entry, status) else none

/-- What the recent entries are ordered by, latest first. -/
def entryOrder (e : TimelineEntry) : Str ×ₗ Str ×ₗ Str ×ₗ Str :=
  toLex (e.positionAt, toLex (e.serverDomain, toLex (e.statusId, e.accountAcct)))

def recentCandidates (timelineType : Str) (preferredAccountAcct : Option Str)
    (filter : AggregateFilter) (candidateLimit : ℕ) : List Candidate :=
  (((db.entriesOf timelineType filter).insertionSort fun a b =>
    entryOrder b.1 ≤ entryOrder a.1).take candidateLimit).map fun (entry, status) =>
      { serverDomain := entry.serverDomain
        statusId := entry.statusId
        sourceAcct := entry.accountAcct
        accountRank := if some entry.accountAcct = preferredAccountAcct then 1 else 0
        latestPosition := entry.positionAt
        canonicalUri := db.canonicalUri status }

/-- The entries that the preferred account has of the same posts. -/
def preferredCandidates (timelineType : Str) (preferredAccountAcct : Option Str)
    (filter : AggregateFilter) (recent : List Candidate) : List Candidate :=
  (Keyed.firsts id (recent.map Candidate.canonicalUri)).flatMap fun wanted =>
    (db.statusIdentities.filter (·.canonicalUri = wanted)).flatMap fun identity =>
      ((db.entriesOf timelineType filter).filter fun (entry, _) =>
        entry.statusKey = identity.key ∧ some entry.accountAcct = preferredAccountAcct).map
          fun (entry, _) =>
            { serverDomain := entry.serverDomain
              statusId := entry.statusId
              sourceAcct := entry.accountAcct
              accountRank := 1
              latestPosition := entry.positionAt
              canonicalUri := wanted }

/-- What the entries of one post are ordered by, the one that is shown first. -/
def candidateOrder (c : Candidate) : ℕ ×ₗ Str ×ₗ Str ×ₗ Str ×ₗ Str :=
  toLex (c.accountRank, toLex (c.latestPosition, toLex (c.serverDomain,
    toLex (c.statusId, c.sourceAcct))))

/-- `MAX(latest_position) OVER (PARTITION BY canonical_uri)` -/
def canonicalLatestPosition (candidates : List Candidate) (canonicalUri : Str) : Str :=
  ((candidates.filter (·.canonicalUri = canonicalUri)).map Candidate.latestPosition).foldl max []

/-- What the rows of a page are ordered by, latest first. -/
def rowOrder (candidates : List Candidate) (c : Candidate) : Str ×ₗ Str ×ₗ Str :=
  toLex (canonicalLatestPosition candidates c.canonicalUri, toLex (c.serverDomain, c.statusId))

def queryAggregateStatusRefs (timelineType : Str) (preferredAccountAcct : Option Str)
    (limit offset : ℤ) (filter : AggregateFilter) : List TimelineStatusRef :=
  let pageLimit := (min (max limit 0) 500).toNat
  let pageOffset := (max offset 0).toNat
  let candidateLimit := min (max ((pageLimit + pageOffset) * 8) 128) 8192
  let recent := db.recentCandidates timelineType preferredAccountAcct filter candidateLimit
  let candidates :=
    recent ++ db.preferredCandidates timelineType preferredAccountAcct filter recent
  let ranked := Keyed.firsts Candidate.canonicalUri
    (candidates.insertionSort fun a b => candidateOrder b ≤ candidateOrder a)
  (((ranked.insertionSort fun a b => rowOrder candidates b ≤ rowOrder candidates a).drop
    pageOffset).take pageLimit).map fun c =>
      { statusId := c.statusId
        serverDomain := c.serverDomain
        sourceAcct := some c.sourceAcct }

/-! ### The account that a row is from -/

variable {db}

theorem pairwise_candidateOrder (candidates : List Candidate) :
    (candidates.insertionSort fun a b => candidateOrder b ≤ candidateOrder a).Pairwise
      fun a b => candidateOrder b ≤ candidateOrder a := by
  have : Std.Total fun a b : Candidate => candidateOrder b ≤ candidateOrder a :=
    ⟨fun a b => le_total _ _⟩
  have : IsTrans Candidate fun a b => candidateOrder b ≤ candidateOrder a :=
    ⟨fun a b c h h' => h'.trans h⟩
  exact List.pairwise_insertionSort _ _

/-- Is the address that of the post in a row? -/
def IsUriOf (db : Db) (key : EntityKey) (uri : Str) : Prop :=
  (∃ status, db.status? key = some status ∧ db.canonicalUri status = uri) ∨
    ∃ identity ∈ db.statusIdentities, identity.key = key ∧ identity.canonicalUri = uri

variable {filter : AggregateFilter} {c : Candidate}

theorem uri_of_candidate {acct : Option Str}
    (hc : c ∈ db.recentCandidates timelineType acct filter candidateLimit ++
      db.preferredCandidates timelineType acct filter
        (db.recentCandidates timelineType acct filter candidateLimit)) :
    db.IsUriOf (c.statusId, c.serverDomain) c.canonicalUri ∧
      c.canonicalUri ∈ (db.recentCandidates timelineType acct filter candidateLimit).map
        Candidate.canonicalUri := by
  rcases List.mem_append.1 hc with hrecent | hpreferred
  · refine ⟨?_, List.mem_map_of_mem hrecent⟩
    obtain ⟨⟨entry, status⟩, hentry, rfl⟩ := List.mem_map.1 hrecent
    have hentry := (List.mem_insertionSort _).1 (List.mem_of_mem_take hentry)
    obtain ⟨entry', -, hstatus⟩ := List.mem_filterMap.1 hentry
    obtain ⟨status', hget, hadmitted⟩ := Option.bind_eq_some_iff.1 hstatus
    split_ifs at hadmitted
    cases hadmitted
    exact .inl ⟨status, hget, rfl⟩
  · obtain ⟨wanted, hwanted, hpreferred⟩ := List.mem_flatMap.1 hpreferred
    obtain ⟨identity, hidentity, hpreferred⟩ := List.mem_flatMap.1 hpreferred
    obtain ⟨hmem, huri⟩ := List.mem_filter.1 hidentity
    obtain ⟨⟨entry, status⟩, hentry, rfl⟩ := List.mem_map.1 hpreferred
    have hkey := (of_decide_eq_true (List.mem_filter.1 hentry).2).1
    exact ⟨.inr ⟨identity, hmem, hkey.symm, of_decide_eq_true huri⟩,
      Keyed.mem_firsts_id.1 hwanted⟩

theorem mem_preferredCandidates {uri : Str} {recent : List Candidate}
    (hwanted : uri ∈ recent.map Candidate.canonicalUri) {identity : StatusIdentityRow}
    (hidentity : identity ∈ db.statusIdentities) (huri : identity.canonicalUri = uri)
    {entry : TimelineEntry} {status : DbStatus}
    (hentry : (entry, status) ∈ db.entriesOf timelineType filter)
    (hkey : identity.key = entry.statusKey) (hacct : entry.accountAcct = acct) :
    { serverDomain := entry.serverDomain
      statusId := entry.statusId
      sourceAcct := entry.accountAcct
      accountRank := 1
      latestPosition := entry.positionAt
      canonicalUri := uri } ∈ db.preferredCandidates timelineType (some acct) filter recent := by
  refine List.mem_flatMap.2 ⟨uri, Keyed.mem_firsts_id.2 hwanted, List.mem_flatMap.2
    ⟨identity, List.mem_filter.2 ⟨hidentity, decide_eq_true huri⟩, List.mem_map.2
      ⟨(entry, status), List.mem_filter.2 ⟨hentry, decide_eq_true ⟨hkey.symm, ?_⟩⟩, rfl⟩⟩⟩
  exact congrArg some hacct

/-- Ranked entries are those of the preferred account, and no others. -/
theorem sourceAcct_of_ranked
    (hc : c ∈ db.recentCandidates timelineType (some acct) filter candidateLimit ++
      db.preferredCandidates timelineType (some acct) filter
        (db.recentCandidates timelineType (some acct) filter candidateLimit))
    (hrank : 1 ≤ c.accountRank) : c.sourceAcct = acct := by
  rcases List.mem_append.1 hc with hrecent | hpreferred
  · obtain ⟨⟨entry, status⟩, -, rfl⟩ := List.mem_map.1 hrecent
    by_cases hacct : some entry.accountAcct = some acct
    · exact Option.some.inj hacct
    · dsimp only at hrank
      rw [if_neg hacct] at hrank
      omega
  · obtain ⟨wanted, -, hpreferred⟩ := List.mem_flatMap.1 hpreferred
    obtain ⟨identity, -, hpreferred⟩ := List.mem_flatMap.1 hpreferred
    obtain ⟨⟨entry, status⟩, hentry, rfl⟩ := List.mem_map.1 hpreferred
    have hacct := (of_decide_eq_true (List.mem_filter.1 hentry).2).2
    exact Option.some.inj hacct

/-- A page has one row of every post: that of the preferred account, when it has received the
post. -/
theorem source_of_received {limit offset : ℤ} {ref : TimelineStatusRef}
    (href : ref ∈ db.queryAggregateStatusRefs timelineType (some acct) limit offset filter) :
    ∃ uri, db.IsUriOf (ref.statusId, ref.serverDomain) uri ∧
      ∀ entry status, (entry, status) ∈ db.entriesOf timelineType filter →
        entry.accountAcct = acct → ∀ identity ∈ db.statusIdentities,
          identity.key = entry.statusKey → identity.canonicalUri = uri →
            ref.sourceAcct = some acct := by
  unfold queryAggregateStatusRefs at href
  dsimp only at href
  obtain ⟨c, hc, rfl⟩ := List.mem_map.1 href
  have hfirst := (List.mem_insertionSort _).1 (List.mem_of_mem_drop (List.mem_of_mem_take hc))
  have hcandidate := (List.mem_insertionSort _).1 (Keyed.mem_of_mem_firsts hfirst)
  obtain ⟨huri, hwanted⟩ := uri_of_candidate hcandidate
  refine ⟨c.canonicalUri, huri, fun entry status hentry hacct identity hidentity hkey hsame => ?_⟩
  refine congrArg some (sourceAcct_of_ranked hcandidate ?_)
  -- The account's own entry is a candidate, and is not ranked above the one that is shown.
  have hown := mem_preferredCandidates hwanted hidentity hsame hentry hkey hacct
  rcases Keyed.rel_of_mem_firsts (pairwise_candidateOrder _) hfirst
    ((List.mem_insertionSort _).2 (List.mem_append_right _ hown)) rfl with heq | hle
  · rw [← heq]
  · exact Prod.Lex.monotone_fst _ _ hle

end Db

/-! ### Notifications -/

/-- What the notifications are ordered by, latest first. -/
def notificationOrder (n : DbNotification) : Str ×ₗ Str ×ₗ Str ×ₗ Str :=
  toLex (n.createdAt, toLex (n.serverDomain, toLex (n.id, n.accountAcct.getD [])))

section Views

variable (json : SerdeJson)

/-- A notification without a post. -/
def notificationDbToView (notification : DbNotification) (actorAccount : Option DbAccount) :
    TimelineStatus :=
  let actorDisplayName := (actorAccount.map DbAccount.displayName).getD notification.accountId
  let actorAcct := atAcct ((actorAccount.map DbAccount.acct).getD notification.accountId)
  let emojis := parseCustomEmojiViews json (actorAccount.bind DbAccount.emojisJson)
  { id := notification.id
    originalStatusId := notification.statusId.getD []
    statusIdentity := .inferred notification.serverDomain
      (notificationPage notification.serverDomain notification.id) notification.id
    sourceAcct := notification.accountAcct
    accountId := notification.accountId
    serverDomain := notification.serverDomain
    uri := []
    url := none
    displayName := actorDisplayName
    acct := actorAcct
    avatar := (actorAccount.map DbAccount.avatar).getD []
    createdAt := notification.createdAt
    originalCreatedAt := none
    inReplyToId := none
    inReplyToAccountId := none
    content := []
    spoilerText := []
    language := none
    applicationName := none
    reblogsCount := 0
    favouritesCount := 0
    repliesCount := 0
    visibility := "direct".toList
    sensitive := false
    favourited := false
    reblogged := false
    bookmarked := false
    media := []
    poll := none
    emojis := []
    accountEmojis := emojis
    quoteId := none
    quoteOriginalUrl := none
    quote := none
    quoteState := none
    notificationId := some notification.id
    notificationKind := some notification.notificationType
    notificationLabel := some (actorDisplayName ++ " ".toList ++
      notificationTypeLabel notification.notificationType)
    notificationAvatar := actorAccount.map DbAccount.avatar
    notificationAccountId := some notification.accountId
    notificationAcct := some actorAcct
    notificationDisplayName := some actorDisplayName
    notificationAccountEmojis := emojis }

def notificationDbToViewWithContext (notification : DbNotification)
    (actorAccount : Option DbAccount) (status : Option DbStatus)
    (context : CachedStatusViewContext) : TimelineStatus :=
  match status with
  | none => notificationDbToView json notification actorAccount
  | some status =>
    let actorLabel := (actorAccount.map DbAccount.displayName).getD notification.accountId
    let view := context.statusToViewResolvingReblog json status
    { view with
      originalCreatedAt := some (view.originalCreatedAt.getD view.createdAt)
      id := notification.id
      createdAt := notification.createdAt
      sourceAcct := notification.accountAcct
      notificationId := some notification.id
      notificationKind := some notification.notificationType
      notificationLabel := some (actorLabel ++ " ".toList ++
        notificationTypeLabel notification.notificationType)
      notificationAvatar := actorAccount.map DbAccount.avatar
      notificationAccountId := some notification.accountId
      notificationAcct :=
        some (atAcct ((actorAccount.map DbAccount.acct).getD notification.accountId))
      notificationDisplayName := some actorLabel
      notificationAccountEmojis :=
        parseCustomEmojiViews json (actorAccount.bind DbAccount.emojisJson) }

def queryCachedStatuses (db : Db) (limit offset : ℤ) : List TimelineStatus :=
  let notifications := (((db.notifications.insertionSort fun a b =>
    notificationOrder b ≤ notificationOrder a).drop offset.toNat).take limit.toNat)
  let status (notification : DbNotification) : Option DbStatus :=
    notification.statusId.bind fun id => db.status? (id, notification.serverDomain)
  let context := CachedStatusViewContext.load db.cache
    (Keyed.firsts DbStatus.key (notifications.filterMap status))
  notifications.map fun notification =>
    db.cache.applyViewerState <| notificationDbToViewWithContext json notification
      (Keyed.lookup DbAccount.key db.cache.accounts
        (notification.accountId, notification.serverDomain)) (status notification) context

/-! ### Loads -/

inductive UnifiedTimeline
  /-- Home or Public. -/
  | aggregate (timelineType : Str)
  | notification
  deriving DecidableEq

structure TimelineRequest where
  timeline : UnifiedTimeline
  limit : ℤ
  actingAccountAcct : Option Str
  displayFilter : AggregateFilter := {}

/-- The first page of a unified timeline; `none` is an error. -/
def loadLocalTimeline (db : Db) (request : TimelineRequest) : Option (List TimelineStatus) :=
  match request.timeline with
  | .aggregate timelineType =>
    dbStatusRefsToViews json db.cache (db.queryAggregateStatusRefs timelineType
      request.actingAccountAcct request.limit 0 request.displayFilter)
  | .notification => some (queryCachedStatuses json db request.limit 0)

end Views

/-! ### What an account has done with posts -/

namespace Db

variable (db : Db) {actingAccountAcct : Str} {identities : List StatusIdentity}

/-- Of the states that the account has of one post, the one that was saved last. -/
def viewerStateForIdentity (acct : Str) (protocol : FederationProtocol) (canonicalUri : Str) :
    Option DbStatusViewerState :=
  ((db.cache.viewerStates.filter fun state =>
    state.loginAccountAcct = acct ∧ ∃ identity ∈ db.statusIdentities,
      identity.key = (state.statusId, state.serverDomain) ∧ identity.protocol = protocol ∧
        identity.canonicalUri = canonicalUri).insertionSort fun a b =>
          db.updatedAt a.key ≤ db.updatedAt b.key).getLast?

/-- The flags that the database holds for an account and a post. -/
def flagsFor (acct : Str) (identity : StatusIdentity) : ViewerFlags :=
  ((db.viewerStateForIdentity acct identity.protocol identity.canonicalUri).map
    DbStatusViewerState.flags).getD .unset

def statusViewerStates (actingAccountAcct : Str) (identities : List StatusIdentity) :
    List (StatusIdentity × ViewerFlags) :=
  (Keyed.firsts id identities).map fun identity =>
    (identity, db.flagsFor actingAccountAcct identity)

theorem flagsFor_of_mem {summary : StatusIdentity × ViewerFlags}
    (h : summary ∈ db.statusViewerStates actingAccountAcct identities) :
    summary.1 ∈ identities ∧ summary.2 = db.flagsFor actingAccountAcct summary.1 := by
  obtain ⟨identity, hmem, rfl⟩ := List.mem_map.1 h
  exact ⟨Keyed.mem_of_mem_firsts hmem, rfl⟩

theorem mem_statusViewerStates {identity : StatusIdentity} (h : identity ∈ identities) :
    (identity, db.flagsFor actingAccountAcct identity) ∈
      db.statusViewerStates actingAccountAcct identities :=
  List.mem_map.2 ⟨identity, Keyed.mem_firsts_id.2 h, rfl⟩

/-! ### The flags of a view -/

/-- The flags of a post for the account that a view of it is from. -/
def sourceFlags (view : TimelineStatus) : Option ViewerFlags :=
  view.sourceAcct.bind fun acct =>
    (Keyed.lookup DbStatusViewerState.key db.cache.viewerStates
      (acct, view.statusIdentity.remoteId, view.statusIdentity.serverDomain)).map
        DbStatusViewerState.flags

variable {view : TimelineStatus} {flags : ViewerFlags}

theorem flags_applyViewerState (h : db.sourceFlags (db.cache.applyViewerState view) = some flags) :
    (db.cache.applyViewerState view).flags = flags := by
  have hsource : db.sourceFlags (db.cache.applyViewerState view) = db.sourceFlags view := by
    unfold Cache.applyViewerState
    split
    · rfl
    · split <;> rfl
  rw [hsource, sourceFlags] at h
  obtain ⟨acct, hacct, hstate⟩ := Option.bind_eq_some_iff.1 h
  obtain ⟨state, hlookup, rfl⟩ := Option.map_eq_some_iff.1 hstate
  unfold Cache.applyViewerState
  simp only [hacct, hlookup]
  rfl

/-- A view of a page has the flags of the account that it is from, whatever account the page was
asked for. -/
theorem flags_of_loaded {json : SerdeJson} {request : TimelineRequest} {views : List TimelineStatus}
    (h : loadLocalTimeline json db request = some views) (hview : view ∈ views)
    (hflags : db.sourceFlags view = some flags) : view.flags = flags := by
  have happlied : ∃ view', view = db.cache.applyViewerState view' := by
    unfold loadLocalTimeline at h
    split at h
    · obtain ⟨primary, -, hviews⟩ := Option.bind_eq_some_iff.1 h
      obtain rfl := Option.some.inj hviews
      obtain ⟨⟨ref, status⟩, -, rfl⟩ := List.mem_map.1 hview
      exact ⟨_, rfl⟩
    · obtain rfl := Option.some.inj h
      obtain ⟨notification, -, rfl⟩ := List.mem_map.1 hview
      exact ⟨_, rfl⟩
  obtain ⟨view', rfl⟩ := happlied
  exact db.flags_applyViewerState hflags

end Db

end Awayuki.Hydration
