import Awayuki.Timeline.Views

/-!
# One post, one identity

When the views of a post have one key.  The keys are made of few fields of a view, its `identity`,
and these are the same on every path but for the address: a boost shows its own.

* `canonicalStatusKey_eq`: a trusted address decides the key, the server's number only without;
* `identity_statusToView`, … : the fields that the keys are made of, one lemma for each path;
* `Representations`: a post, a boost of it and a notification about it, live and as cached rows;
* `one_identity`: exactly when their views have one identity;
* `status_identity_of_views`: the identity that the application itself adds is always the post's.
-/

namespace Awayuki.Timeline

variable {β γ : Type}

/-! ### What the keys are made of -/

variable {uri id originalStatusId : Str}

/-- The fields that the keys are made of. -/
def StatusFields.identity (status : StatusFields γ) : StatusFields Unit where
  id := status.id
  originalStatusId := status.originalStatusId
  sourceAcct := status.sourceAcct
  serverDomain := status.serverDomain
  uri := status.uri
  createdAt := []
  notificationId := status.notificationId
  rest := ()

section Keys

variable (env : Platform) {id' : Str}

@[simp] theorem canonicalStatusKey_identity (status : StatusFields γ) :
    canonicalStatusKey env status.identity = canonicalStatusKey env status := rfl

@[simp] theorem statusKey_identity (status : StatusFields γ) :
    statusKey env status.identity = statusKey env status := rfl

/-- The key that an address alone gives, when it is trusted. -/
def trustedKey (uri : Str) : Option StatusKey :=
  let uri := env.trim uri
  if uri.startsWith "at://".toList then some ("atproto:".toList ++ uri)
  else if uri ≠ [] then (env.httpUrl uri).map ("activitypub:".toList ++ ·)
  else none

/-- The key of a post's number on its server. -/
def numberKey (serverDomain originalStatusId id : Str) : StatusKey :=
  canonicalStatusIdKey env serverDomain (if originalStatusId ≠ [] then originalStatusId else id)

theorem canonicalStatusKey_eq (status : StatusFields γ) :
    canonicalStatusKey env status = (trustedKey env status.uri).getD
      (numberKey env status.serverDomain status.originalStatusId status.id) := by
  simp only [canonicalStatusKey, trustedKey]
  by_cases hat : (env.trim status.uri).startsWith "at://".toList
  · rw [if_pos hat, if_pos hat, Option.getD_some]
  · rw [if_neg hat, if_neg hat]
    by_cases hne : env.trim status.uri ≠ []
    · rw [if_pos hne, if_pos hne]
      cases env.httpUrl (env.trim status.uri) <;> rfl
    · rw [if_neg hne, if_neg hne, Option.getD_none, numberKey]

/-- A trusted address is told from a number by the first letter of the key. -/
theorem trustedKey_ne_numberKey {key : Str} (h : trustedKey env uri = some key)
    (serverDomain originalStatusId id : Str) :
    key ≠ numberKey env serverDomain originalStatusId id := by
  have hnumber : (numberKey env serverDomain originalStatusId id).head? = some 's' := rfl
  have htrusted : key.head? = some 'a' := by
    simp only [trustedKey] at h
    split_ifs at h
    · obtain rfl := Option.some.inj h
      rfl
    · obtain ⟨url, -, rfl⟩ := Option.map_eq_some_iff.1 h
      rfl
  rintro rfl
  rw [htrusted] at hnumber
  exact absurd hnumber (by decide)

theorem canonicalStatusIdKey_inj {serverDomain : Str} :
    canonicalStatusIdKey env serverDomain id = canonicalStatusIdKey env serverDomain id' ↔
      id = id' :=
  List.append_right_inj _

/-- When two addresses give one key, each with a number to fall back on. -/
theorem getD_numberKey_eq_iff {uri' serverDomain originalStatusId' : Str} :
    (trustedKey env uri).getD (numberKey env serverDomain originalStatusId id) =
        (trustedKey env uri').getD (numberKey env serverDomain originalStatusId' id') ↔
      trustedKey env uri = trustedKey env uri' ∧ (trustedKey env uri' = none →
        (if originalStatusId ≠ [] then originalStatusId else id) =
          if originalStatusId' ≠ [] then originalStatusId' else id') := by
  cases h : trustedKey env uri with
  | none =>
    cases h' : trustedKey env uri' with
    | none => simp [numberKey, canonicalStatusIdKey_inj]
    | some key =>
      have hne := trustedKey_ne_numberKey env h' serverDomain originalStatusId id
      simp only [Option.getD_none, Option.getD_some, reduceCtorEq, false_and, iff_false]
      exact hne.symm
  | some key =>
    cases h' : trustedKey env uri' with
    | none =>
      have hne := trustedKey_ne_numberKey env h serverDomain originalStatusId' id'
      simp only [Option.getD_none, Option.getD_some, reduceCtorEq, false_and, iff_false]
      exact hne
    | some key' => simp

/-- The row of a boost has a key of its own, longer than the post's. -/
theorem statusKey_eq_canonical_iff {status : StatusFields γ} (h : status.notificationId = none) :
    statusKey env status = canonicalStatusKey env status ↔
      status.id = [] ∨ status.originalStatusId = [] ∨ status.id = status.originalStatusId := by
  simp only [statusKey, statusKeyFromCanonical, h, truthy, Option.filter_none]
  split_ifs with hreblog
  · have hne : canonicalStatusKey env status ++ ":reblog:".toList ++
        env.toLowerCase status.serverDomain ++ ":".toList ++ status.id ≠
          canonicalStatusKey env status := by
      intro heq
      have := congrArg List.length heq
      simp only [List.length_append] at this
      have : ":reblog:".toList.length = 8 := by decide
      omega
    tauto
  · tauto

end Keys

/-! ### The fields of each path -/

/-- The fields of a row of a timeline that its keys are made of. -/
def rowIdentity (serverDomain uri originalStatusId id : Str) : StatusFields Unit where
  id := id
  originalStatusId := originalStatusId
  serverDomain := serverDomain
  uri := uri
  createdAt := []
  rest := ()

/-- The fields of a notification's row that its keys are made of. -/
def notificationIdentity (serverDomain uri originalStatusId id : Str) (sourceAcct : Option Str) :
    StatusFields Unit :=
  { rowIdentity serverDomain uri originalStatusId id with
    sourceAcct := sourceAcct
    notificationId := some id }

section Live

variable (status : Status β) (serverDomain : Str)

theorem identity_statusToViewBase (label avatar : Option Str) :
    (statusToViewBase status serverDomain label avatar).fields.identity =
      rowIdentity serverDomain status.uri status.id status.id := by
  simp only [statusToViewBase, statusToViewBaseWithQuoteDepth, baseView,
    TimelineStatus.fields_mk]
  rfl

theorem identity_statusToView_plain (h : status.reblog = none) (label : Option Str) :
    (statusToView status serverDomain label).fields.identity =
      rowIdentity serverDomain status.uri status.id status.id := by
  simp only [statusToView, h, identity_statusToViewBase]

theorem identity_statusToView_reblog {post : Status β} (h : status.reblog = some post)
    (label : Option Str) :
    (statusToView status serverDomain label).fields.identity =
      rowIdentity serverDomain status.uri post.id status.id := by
  have hbase := fun label avatar => identity_statusToViewBase post serverDomain label avatar
  simp only [StatusFields.identity, rowIdentity, StatusFields.mk.injEq] at hbase
  simp only [statusToView, h, TimelineStatus.fields_update, StatusFields.identity, rowIdentity,
    hbase]

theorem identity_notificationToView {notification : Notification β}
    (h : notification.status = some status) (sourceAcct : Option Str) :
    (notificationToView notification serverDomain sourceAcct).fields.identity =
      notificationIdentity serverDomain status.uri status.id notification.id sourceAcct := by
  have hbase := fun label avatar => identity_statusToViewBase status serverDomain label avatar
  simp only [StatusFields.identity, rowIdentity, StatusFields.mk.injEq] at hbase
  simp only [notificationToView, h, TimelineStatus.fields_update, StatusFields.identity,
    notificationIdentity, rowIdentity, hbase]

end Live

namespace CachedStatusViewContext

variable (reader : RowReader β) (context : CachedStatusViewContext) (row : DbStatus)

theorem identity_statusToViewWithCachedQuote (account : Option AccountRow) :
    (statusToViewWithCachedQuote reader context row account).fields.identity =
      rowIdentity row.serverDomain row.uri row.id row.id := by
  rw [statusToViewWithCachedQuote]
  cases row.quoteKey.bind context.status? <;> rfl

theorem identity_resolving_none (h : row.reblogKey.bind context.status? = none) :
    (statusToViewResolvingReblog reader context row).fields.identity =
      rowIdentity row.serverDomain row.uri row.id row.id := by
  simp only [statusToViewResolvingReblog, h, identity_statusToViewWithCachedQuote]

theorem identity_resolving_some {original : DbStatus}
    (h : row.reblogKey.bind context.status? = some original) :
    (statusToViewResolvingReblog reader context row).fields.identity =
      rowIdentity original.serverDomain row.uri original.id row.id := by
  have hbase := fun account =>
    identity_statusToViewWithCachedQuote reader context original account
  simp only [StatusFields.identity, rowIdentity, StatusFields.mk.injEq] at hbase
  simp only [statusToViewResolvingReblog, h, TimelineStatus.fields_update, StatusFields.identity,
    rowIdentity, hbase]

theorem identity_notification (h : row.reblogKey.bind context.status? = none)
    (notification : DbNotification) (actor : Option AccountRow) :
    (notificationDbToViewWithContext reader context notification actor (some row)).fields.identity =
      notificationIdentity row.serverDomain row.uri row.id notification.id
        notification.accountAcct := by
  have hbase := identity_resolving_none reader context row h
  simp only [StatusFields.identity, rowIdentity, StatusFields.mk.injEq] at hbase
  simp only [notificationDbToViewWithContext, TimelineStatus.fields_update, StatusFields.identity,
    notificationIdentity, rowIdentity, hbase]

end CachedStatusViewContext

/-! ### The row of a status -/

/-- What `DbStatus::from_api` copies; `columns` gives the columns that no key and no path reads. -/
def dbStatusFromApi (columns : Status β → DbStatus) (status : Status β) (serverDomain : Str) :
    DbStatus :=
  { columns status with
    id := status.id
    serverDomain := serverDomain
    uri := status.uri
    createdAt := status.createdAt
    accountId := status.account.id
    reblogOfId := status.reblog.map Status.id
    quoteId := status.quoteId
    quoteOriginalUrl := status.quoteOriginalUrl }

/-- A row is of a status: the server's number, its address and its original are the status's.
Later answers may have changed its other columns. -/
structure IsRowOf (serverDomain : Str) (status : Status β) (row : DbStatus) : Prop where
  id : row.id = status.id
  serverDomain : row.serverDomain = serverDomain
  uri : row.uri = status.uri
  reblogOfId : row.reblogOfId = status.reblog.map Status.id

theorem isRowOf_dbStatusFromApi (columns : Status β → DbStatus) (status : Status β)
    (serverDomain : Str) :
    IsRowOf serverDomain status (dbStatusFromApi columns status serverDomain) :=
  ⟨rfl, rfl, rfl, rfl⟩

namespace CachedStatusViewContext

variable {cache : List DbStatus} {accounts : List AccountRow} {statuses : List DbStatus}
  {key : EntityKey}

theorem key_of_status? {context : CachedStatusViewContext} {row : DbStatus}
    (h : context.status? key = some row) : row.key = key :=
  Keyed.key_of_lookup h

/-- The original of a row of the page is in the context exactly if it is in the cache. -/
theorem status?_load_reblog (hcached : ∀ row ∈ statuses, row ∈ cache) {row : DbStatus}
    (hrow : row ∈ statuses) (hkey : row.reblogKey = some key) :
    ((load cache accounts statuses).status? key).isSome ↔ ∃ original ∈ cache, original.key = key := by
  rw [status?, Keyed.lookup_isSome]
  constructor
  · rintro ⟨original, horiginal, rfl⟩
    refine ⟨original, ?_, rfl⟩
    have hall := Keyed.mem_of_mem_firsts horiginal
    simp only [List.mem_append, List.mem_reverse, queryStatusesByKeys, List.mem_filter] at hall
    rcases hall with (hpage | hrelated) | hquote
    · exact hcached _ hpage
    · exact hrelated.1
    · exact hquote.1
  · rintro ⟨original, horiginal, rfl⟩
    refine Keyed.exists_mem_firsts ?_
    simp only [List.mem_append, queryStatusesByKeys, List.mem_filter, List.mem_flatMap,
      decide_eq_true_eq]
    exact .inl (.inr ⟨horiginal, row, hrow, .inl (by simp [hkey])⟩)

end CachedStatusViewContext

/-! ### The views of one post -/

/-- A post, a boost of it and a notification about it, as a server answers them, and the cache with
the pages of rows that are shown. -/
structure Representations (β : Type) where
  serverDomain : Str
  post : Status β
  boost : Status β
  notification : Notification β
  post_plain : post.reblog = none
  boost_of : boost.reblog = some post
  about : notification.status = some post
  reader : RowReader β
  accounts : List AccountRow
  cache : List DbStatus
  cache_nodup : (cache.map DbStatus.key).Nodup
  page : List DbStatus
  page_cached : ∀ row ∈ page, row ∈ cache

namespace Representations

variable (r : Representations β) {view : View β}

def context : CachedStatusViewContext := .load r.cache r.accounts r.page

/-- The view of a row of the page. -/
def hydrated (row : DbStatus) : View β := r.context.statusToViewResolvingReblog r.reader row

/-- The view of a row of a notification, whose post is sought on the page. -/
def hydratedNotification (row : DbNotification) (actor : Option AccountRow) : View β :=
  r.context.notificationDbToViewWithContext r.reader row actor
    (row.statusId.bind fun id => Keyed.lookup DbStatus.key r.page (id, row.serverDomain))

def livePost (label : Option Str) : View β := statusToView r.post r.serverDomain label

def liveBoost (label : Option Str) : View β := statusToView r.boost r.serverDomain label

def liveNotification (sourceAcct : Option Str) : View β :=
  notificationToView r.notification r.serverDomain sourceAcct

/-- Every view of the post has its key, and the cached row of a status the keys of its live
view. -/
structure OneIdentity (env : Platform) : Prop where
  boost : ∀ label label', canonicalStatusKey env (r.liveBoost label).fields =
    canonicalStatusKey env (r.livePost label').fields
  notification : ∀ sourceAcct label, canonicalStatusKey env (r.liveNotification sourceAcct).fields =
    canonicalStatusKey env (r.livePost label).fields
  hydratedPost : ∀ row ∈ r.page, IsRowOf r.serverDomain r.post row → ∀ label,
    statusKey env (r.hydrated row).fields = statusKey env (r.livePost label).fields ∧
      canonicalStatusKey env (r.hydrated row).fields =
        canonicalStatusKey env (r.livePost label).fields
  hydratedBoost : ∀ row ∈ r.page, IsRowOf r.serverDomain r.boost row → ∀ label,
    statusKey env (r.hydrated row).fields = statusKey env (r.liveBoost label).fields ∧
      canonicalStatusKey env (r.hydrated row).fields =
        canonicalStatusKey env (r.liveBoost label).fields
  hydratedNotification : ∀ postRow ∈ r.page, IsRowOf r.serverDomain r.post postRow →
    ∀ row : DbNotification, row.id = r.notification.id → row.serverDomain = r.serverDomain →
      row.statusId = some r.post.id → ∀ actor,
        canonicalStatusKey env (r.hydratedNotification row actor).fields =
          canonicalStatusKey env (r.hydrated postRow).fields

/-- The boost's address gives the post's key; where addresses give none, the post has a number;
and the cached row of the boost has the post's row beside it, or shows the same keys without. -/
def Aligned (env : Platform) : Prop :=
  trustedKey env r.boost.uri = trustedKey env r.post.uri ∧
    (trustedKey env r.post.uri = none →
      r.post.id ≠ [] ∨ r.boost.id = [] ∧ r.notification.id = []) ∧
    ∀ row ∈ r.page, IsRowOf r.serverDomain r.boost row →
      (∃ original ∈ r.cache, original.key = (r.post.id, r.serverDomain)) ∨ r.post.id = [] ∨
        r.post.id = r.boost.id ∨ r.boost.id = [] ∧ trustedKey env r.boost.uri ≠ none

variable {r} {env : Platform}

theorem identity_livePost (label : Option Str) :
    (r.livePost label).fields.identity =
      rowIdentity r.serverDomain r.post.uri r.post.id r.post.id :=
  identity_statusToView_plain _ _ r.post_plain _

theorem identity_liveBoost (label : Option Str) :
    (r.liveBoost label).fields.identity =
      rowIdentity r.serverDomain r.boost.uri r.post.id r.boost.id :=
  identity_statusToView_reblog _ _ r.boost_of _

theorem identity_liveNotification (sourceAcct : Option Str) :
    (r.liveNotification sourceAcct).fields.identity =
      notificationIdentity r.serverDomain r.post.uri r.post.id r.notification.id sourceAcct :=
  identity_notificationToView _ _ r.about _

theorem identity_hydrated_post {row : DbStatus} (hrow : IsRowOf r.serverDomain r.post row) :
    (r.hydrated row).fields.identity =
      rowIdentity r.serverDomain r.post.uri r.post.id r.post.id := by
  have hreblog : row.reblogKey = none := by
    rw [DbStatus.reblogKey, hrow.reblogOfId, r.post_plain]
    rfl
  rw [hydrated, CachedStatusViewContext.identity_resolving_none _ _ _ (by rw [hreblog]; rfl),
    hrow.serverDomain, hrow.uri, hrow.id]

theorem reblogKey_boost {row : DbStatus} (hrow : IsRowOf r.serverDomain r.boost row) :
    row.reblogKey = some (r.post.id, r.serverDomain) := by
  rw [DbStatus.reblogKey, hrow.reblogOfId, r.boost_of, hrow.serverDomain]
  rfl

/-- With the post's row in the cache, the row of a boost shows what the live boost shows. -/
theorem identity_hydrated_boost {row : DbStatus} (hmem : row ∈ r.page)
    (hrow : IsRowOf r.serverDomain r.boost row)
    (horiginal : ∃ original ∈ r.cache, original.key = (r.post.id, r.serverDomain)) :
    (r.hydrated row).fields.identity =
      rowIdentity r.serverDomain r.boost.uri r.post.id r.boost.id := by
  have hsome : (r.context.status? (r.post.id, r.serverDomain)).isSome :=
    (CachedStatusViewContext.status?_load_reblog r.page_cached hmem (reblogKey_boost hrow)).2
      horiginal
  obtain ⟨original, horiginal⟩ := Option.isSome_iff_exists.1 hsome
  have hkey := CachedStatusViewContext.key_of_status? horiginal
  obtain ⟨hid, hdomain⟩ := Prod.mk.inj hkey
  have hbind : row.reblogKey.bind r.context.status? = some original := by
    rw [reblogKey_boost hrow]
    exact horiginal
  rw [hydrated, CachedStatusViewContext.identity_resolving_some _ _ _ hbind, hdomain, hrow.uri,
    hid, hrow.id]

/-- Without it, the row of a boost shows as a post of its own. -/
theorem identity_hydrated_orphan {row : DbStatus} (hmem : row ∈ r.page)
    (hrow : IsRowOf r.serverDomain r.boost row)
    (horiginal : ¬ ∃ original ∈ r.cache, original.key = (r.post.id, r.serverDomain)) :
    (r.hydrated row).fields.identity =
      rowIdentity r.serverDomain r.boost.uri r.boost.id r.boost.id := by
  have hnone : row.reblogKey.bind r.context.status? = none := by
    rw [reblogKey_boost hrow, Option.bind_some, ← Option.not_isSome_iff_eq_none, context,
      CachedStatusViewContext.status?_load_reblog r.page_cached hmem (reblogKey_boost hrow)]
    exact horiginal
  rw [hydrated, CachedStatusViewContext.identity_resolving_none _ _ _ hnone, hrow.serverDomain,
    hrow.uri, hrow.id]

theorem identity_hydratedNotification {postRow : DbStatus} (hmem : postRow ∈ r.page)
    (hpost : IsRowOf r.serverDomain r.post postRow) {row : DbNotification}
    (hid : row.id = r.notification.id) (hdomain : row.serverDomain = r.serverDomain)
    (hstatus : row.statusId = some r.post.id) (actor : Option AccountRow) :
    (r.hydratedNotification row actor).fields.identity =
      notificationIdentity r.serverDomain r.post.uri r.post.id r.notification.id
        row.accountAcct := by
  have hkey : postRow.key = (r.post.id, r.serverDomain) := by
    rw [DbStatus.key, hpost.id, hpost.serverDomain]
  have hfound : Keyed.lookup DbStatus.key r.page (r.post.id, r.serverDomain) = some postRow := by
    rw [Keyed.lookup_of_subset r.cache_nodup r.page_cached, Keyed.lookup_eq_some r.cache_nodup]
    · exact ⟨r.page_cached _ hmem, hkey⟩
    · intro other hother hkey'
      rwa [Keyed.ext_of_nodup r.cache_nodup hother (r.page_cached _ hmem) (hkey'.trans hkey.symm)]
  have hreblog : postRow.reblogKey = none := by
    rw [DbStatus.reblogKey, hpost.reblogOfId, r.post_plain]
    rfl
  rw [hydratedNotification, hstatus, hdomain, Option.bind_some, hfound,
    CachedStatusViewContext.identity_notification _ _ _ (by rw [hreblog]; rfl),
    hpost.serverDomain, hpost.uri, hpost.id, hid]

/-- The key of a row with the given fields. -/
theorem canonicalStatusKey_of_identity {serverDomain : Str}
    (h : view.fields.identity = rowIdentity serverDomain uri originalStatusId id) :
    canonicalStatusKey env view.fields =
      (trustedKey env uri).getD (numberKey env serverDomain originalStatusId id) := by
  rw [← canonicalStatusKey_identity, h, canonicalStatusKey_eq]
  rfl

theorem canonicalStatusKey_of_notificationIdentity {serverDomain : Str} {sourceAcct : Option Str}
    (h : view.fields.identity =
      notificationIdentity serverDomain uri originalStatusId id sourceAcct) :
    canonicalStatusKey env view.fields =
      (trustedKey env uri).getD (numberKey env serverDomain originalStatusId id) := by
  rw [← canonicalStatusKey_identity, h, canonicalStatusKey_eq]
  rfl

theorem statusKey_of_identity {view' : View β} (h : view.fields.identity = view'.fields.identity) :
    statusKey env view.fields = statusKey env view'.fields ∧
      canonicalStatusKey env view.fields = canonicalStatusKey env view'.fields := by
  rw [← statusKey_identity, ← canonicalStatusKey_identity, h]
  exact ⟨rfl, rfl⟩

/-! ### One identity -/

theorem liveBoost_iff (label label' : Option Str) :
    canonicalStatusKey env (r.liveBoost label).fields =
        canonicalStatusKey env (r.livePost label').fields ↔
      trustedKey env r.boost.uri = trustedKey env r.post.uri ∧
        (trustedKey env r.post.uri = none → r.post.id ≠ [] ∨ r.boost.id = []) := by
  rw [canonicalStatusKey_of_identity (identity_liveBoost label),
    canonicalStatusKey_of_identity (identity_livePost label'), getD_numberKey_eq_iff]
  by_cases hid : r.post.id = [] <;> simp [hid]

theorem liveNotification_iff (sourceAcct label : Option Str) :
    canonicalStatusKey env (r.liveNotification sourceAcct).fields =
        canonicalStatusKey env (r.livePost label).fields ↔
      (trustedKey env r.post.uri = none → r.post.id ≠ [] ∨ r.notification.id = []) := by
  rw [canonicalStatusKey_of_notificationIdentity (identity_liveNotification sourceAcct),
    canonicalStatusKey_of_identity (identity_livePost label), getD_numberKey_eq_iff]
  by_cases hid : r.post.id = [] <;> simp [hid]

/-- When the row of a boost without its original shows the keys of the live boost. -/
theorem orphan_iff {row : DbStatus} (hmem : row ∈ r.page)
    (hrow : IsRowOf r.serverDomain r.boost row)
    (horiginal : ¬ ∃ original ∈ r.cache, original.key = (r.post.id, r.serverDomain))
    (label : Option Str) :
    (statusKey env (r.hydrated row).fields = statusKey env (r.liveBoost label).fields ∧
      canonicalStatusKey env (r.hydrated row).fields =
        canonicalStatusKey env (r.liveBoost label).fields) ↔
      r.post.id = [] ∨ r.post.id = r.boost.id ∨
        r.boost.id = [] ∧ trustedKey env r.boost.uri ≠ none := by
  have horphan := identity_hydrated_orphan hmem hrow horiginal
  have hlive := identity_liveBoost (r := r) label
  -- the row shows its own number twice, so its two keys are one
  have hown : statusKey env (r.hydrated row).fields =
      canonicalStatusKey env (r.hydrated row).fields := by
    rw [← statusKey_identity, ← canonicalStatusKey_identity, horphan]
    exact (statusKey_eq_canonical_iff env rfl).2 (.inr (.inr rfl))
  have hboost : statusKey env (r.liveBoost label).fields =
        canonicalStatusKey env (r.liveBoost label).fields ↔
      r.boost.id = [] ∨ r.post.id = [] ∨ r.boost.id = r.post.id := by
    rw [← statusKey_identity, ← canonicalStatusKey_identity, hlive]
    exact statusKey_eq_canonical_iff env rfl
  have hcanonical : canonicalStatusKey env (r.hydrated row).fields =
        canonicalStatusKey env (r.liveBoost label).fields ↔
      (trustedKey env r.boost.uri = none → r.post.id ≠ [] → r.boost.id = r.post.id) := by
    rw [canonicalStatusKey_of_identity horphan, canonicalStatusKey_of_identity hlive,
      getD_numberKey_eq_iff]
    by_cases hid : r.post.id = [] <;> simp [hid]
  constructor
  · rintro ⟨hstatus, hkey⟩
    have hkeys := hboost.1 (by rw [← hstatus, hown, hkey])
    have hnumber := hcanonical.1 hkey
    rcases hkeys with hempty | hempty | hsame
    · by_cases hid : r.post.id = []
      · exact .inl hid
      · by_cases htrusted : trustedKey env r.boost.uri = none
        · exact .inr (.inl (hnumber htrusted hid).symm)
        · exact .inr (.inr ⟨hempty, htrusted⟩)
    · exact .inl hempty
    · exact .inr (.inl hsame.symm)
  · intro h
    have hkey := hcanonical.2 fun htrusted hid => by
      rcases h with h | h | h
      · exact absurd h hid
      · exact h.symm
      · exact absurd htrusted h.2
    have hkeys := hboost.2 (by tauto)
    exact ⟨by rw [hown, hkey, hkeys], hkey⟩

end Representations

/-- The views of a post have one identity exactly when the boost's address gives the post's key
and the row of the boost is not shown without the post's. -/
theorem one_identity (r : Representations β) (env : Platform) :
    r.OneIdentity env ↔ r.Aligned env := by
  constructor
  · intro h
    obtain ⟨haddress, hboost⟩ := (Representations.liveBoost_iff none none).1 (h.boost none none)
    have hnotification :=
      (Representations.liveNotification_iff none none).1 (h.notification none none)
    refine ⟨haddress, fun htrusted => ?_, fun row hmem hrow => ?_⟩
    · have hboost := hboost htrusted
      have hnotification := hnotification htrusted
      tauto
    · by_cases horiginal : ∃ original ∈ r.cache, original.key = (r.post.id, r.serverDomain)
      · exact .inl horiginal
      · exact .inr ((Representations.orphan_iff hmem hrow horiginal none).1
          (h.hydratedBoost row hmem hrow none))
  · rintro ⟨haddress, hnumber, hrows⟩
    refine ⟨fun label label' => ?_, fun sourceAcct label => ?_, fun row _ hrow label => ?_,
      fun row hmem hrow label => ?_, fun postRow hmem hpost row hid hdomain hstatus actor => ?_⟩
    · refine (Representations.liveBoost_iff label label').2 ⟨haddress, fun htrusted => ?_⟩
      exact (hnumber htrusted).imp_right And.left
    · refine (Representations.liveNotification_iff sourceAcct label).2 fun htrusted => ?_
      exact (hnumber htrusted).imp_right And.right
    · refine Representations.statusKey_of_identity ?_
      rw [Representations.identity_hydrated_post hrow, Representations.identity_livePost]
    · by_cases horiginal : ∃ original ∈ r.cache, original.key = (r.post.id, r.serverDomain)
      · refine Representations.statusKey_of_identity ?_
        rw [Representations.identity_hydrated_boost hmem hrow horiginal,
          Representations.identity_liveBoost]
      · refine (Representations.orphan_iff hmem hrow horiginal label).2 ?_
        exact (hrows row hmem hrow).resolve_left horiginal
    · rw [Representations.canonicalStatusKey_of_notificationIdentity
          (Representations.identity_hydratedNotification hmem hpost hid hdomain hstatus actor),
        Representations.canonicalStatusKey_of_identity
          (Representations.identity_hydrated_post hpost), getD_numberKey_eq_iff]
      refine ⟨rfl, fun htrusted => ?_⟩
      rcases hnumber htrusted with hid | ⟨-, hid⟩ <;> simp [hid]

def sampleAuthor : Account where
  id := "7"
  acct := "alice"
  displayName := "Alice"
  avatar := []
  emojis := []

/-- A post of `alpha.example`, and a boost with an address of its own as that server gives one. -/
def sampleRepresentations : Representations Unit :=
  let post : Status Unit :=
    { id := "1"
      uri := "https://alpha.example/users/alice/statuses/1"
      createdAt := "2026-07-13T00:00:00+00:00"
      account := sampleAuthor
      body := () }
  { serverDomain := "alpha.example"
    post := post
    boost :=
      { post with
        id := "2"
        uri := "https://alpha.example/users/alice/statuses/2/activity"
        reblog := some post }
    notification :=
      { id := "3"
        notificationType := .favourite
        createdAt := "2026-07-13T00:00:01+00:00"
        account := sampleAuthor
        status := some post }
    post_plain := rfl
    boost_of := rfl
    about := rfl
    reader := { body := fun _ _ => (), emojis := fun _ => none }
    accounts := []
    cache := []
    cache_nodup := List.nodup_nil
    page := []
    page_cached := by simp }

theorem not_one_identity : ¬ sampleRepresentations.OneIdentity samplePlatform := fun h =>
  absurd (h.boost none none) (by decide +kernel)

end Awayuki.Timeline
