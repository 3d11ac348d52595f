import Awayuki.Hydration.Agreement
import Awayuki.Hydration.Unified
import Awayuki.Preferences.Columns

/-!
# Display filters

A column hides boosts, posts with media, or posts without.  The SQL of the unified timelines and of
those of an account decides it of rows (`db/queries/read_models.rs`,
`db/queries/timeline_views.rs`), `application/desktop.rs` and `appStore.ts` decide it of views.

* `Db.admits`, `displayFilterSql`: what is decided of rows;
* `timelineStatusMatchesDisplayFilter`, `statusMatchesDisplayFilter`: what is decided of views;
* `Transparent`: a row shows in its view whether it is a boost and has media;
* `filters_agree_iff`: the four agree on such rows and no others.
-/

namespace Awayuki.Hydration

open Preferences (TimelineDisplayFilter ColumnSummary isOneOf)

/-! ### Rows -/

/-- The parameters of the SQL of an account's timelines. -/
structure StatusDisplayFilter where
  excludeBoosts : Bool
  excludeMedia : Bool
  includeMedia : Bool

/-- `display_filter_sql`, the same condition as that of the unified timelines. -/
def displayFilterSql (db : Db) (filter : StatusDisplayFilter) (status : DbStatus) : Bool :=
  db.admits ⟨filter.excludeBoosts, filter.excludeMedia, filter.includeMedia⟩ status

/-- A filter as `query_aggregate_timeline_statuses` passes it on. -/
def aggregateFilter (displayFilter : Option TimelineDisplayFilter) : AggregateFilter :=
  let filter := displayFilter.filter TimelineDisplayFilter.applies
  { excludeBoosts := filter.any (·.excludeBoosts)
    excludeMedia := filter.any (·.excludeMedia)
    includeMedia := filter.any (·.includeMedia) }

/-- A filter as `query_timeline_statuses` passes it on. -/
def statusDisplayFilter (displayFilter : Option TimelineDisplayFilter) : StatusDisplayFilter :=
  let filter := displayFilter.filter TimelineDisplayFilter.applies
  { excludeBoosts := filter.any (·.excludeBoosts)
    excludeMedia := filter.any (·.excludeMedia)
    includeMedia := filter.any (·.includeMedia) }

/-! ### Views -/

def admitsView (filter : TimelineDisplayFilter) (isBoost hasMedia : Bool) : Bool :=
  if filter.excludeBoosts && isBoost then false
  else if filter.excludeMedia && hasMedia then false
  else if filter.includeMedia && !hasMedia then false
  else true

def timelineStatusMatchesDisplayFilter (status : TimelineStatus)
    (displayFilter : Option TimelineDisplayFilter) : Bool :=
  match displayFilter.filter TimelineDisplayFilter.applies with
  | none => true
  | some filter =>
    admitsView filter
      (status.id ≠ status.originalStatusId ||
        status.notificationKind.any fun kind => isOneOf kind ["reblog", "renote", "repost"])
      !status.media.isEmpty

section Frontend

variable (platform : Timeline.Platform)

/-- `semanticNotificationKind(value) === "reblog"` -/
def notificationKindIsReblog (kind : Option Str) : Bool :=
  kind.any fun kind =>
    isOneOf (platform.toLowerCase (platform.trim kind)) ["reblog", "boost", "repost"]

/-- The types of the registry of timelines that have display filters. -/
def supportsDisplayFilter (columnType : Str) : Bool :=
  isOneOf columnType ["home", "public", "local", "hashtag", "list", "feed", "search"]

def timelineDisplayFilterApplies (column : ColumnSummary) : Bool :=
  supportsDisplayFilter column.columnType && (column.displayFilter.getD .default).applies

def statusMatchesDisplayFilter (status : TimelineStatus) (column : ColumnSummary) : Bool :=
  if !timelineDisplayFilterApplies column then true
  else
    admitsView (column.displayFilter.getD .default)
      (status.id ≠ status.originalStatusId ||
        notificationKindIsReblog platform status.notificationKind)
      !status.media.isEmpty

/-- A row and its view are treated alike in a column. -/
structure Agree (db : Db) (status : DbStatus) (view : TimelineStatus) (column : ColumnSummary) :
    Prop where
  account : displayFilterSql db (statusDisplayFilter column.displayFilter) status =
    db.admits (aggregateFilter column.displayFilter) status
  backend : timelineStatusMatchesDisplayFilter view column.displayFilter =
    db.admits (aggregateFilter column.displayFilter) status
  frontend : statusMatchesDisplayFilter platform view column =
    db.admits (aggregateFilter column.displayFilter) status

end Frontend

def homeColumn : ColumnSummary where
  id := "home".toList
  columnType := "home".toList
  columnParam := none
  name := "Home".toList
  maxStatuses := 100
  paneIndex := 0
  position := 0
  accountAcct := none
  displayFilter := none
  desktopNotifications := none
  notificationSound := none

/-! ### What a filter asks of a status -/

/-- The answer to an optional filter. -/
def judge (displayFilter : Option TimelineDisplayFilter) (isBoost hasMedia : Bool) : Bool :=
  (displayFilter.filter TimelineDisplayFilter.applies).all (admitsView · isBoost hasMedia)

variable {db : Db} {json : SerdeJson} {platform : Timeline.Platform} {status : DbStatus}

theorem admits_aggregateFilter (displayFilter : Option TimelineDisplayFilter) :
    db.admits (aggregateFilter displayFilter) status =
      judge displayFilter status.reblogOfId.isSome (db.hasMedia status) := by
  unfold aggregateFilter judge Db.admits
  dsimp only
  cases displayFilter.filter TimelineDisplayFilter.applies with
  | none => rfl
  | some filter =>
    obtain ⟨enabled, boosts, without, only⟩ := filter
    dsimp only [Option.any_some, Option.all_some, admitsView]
    rw [← Option.not_isSome]
    cases boosts <;> cases without <;> cases only <;> cases status.reblogOfId.isSome <;>
      cases db.hasMedia status <;> rfl

/-- A filter for each of the two questions tells the answers apart. -/
theorem judge_inj {b b' m m' : Bool} (h : ∀ filter, judge filter b m = judge filter b' m') :
    b = b' ∧ m = m' := by
  have hboosts := h (some ⟨true, true, false, false⟩)
  have hmedia := h (some ⟨true, false, true, false⟩)
  revert hboosts hmedia
  cases b <;> cases b' <;> cases m <;> cases m' <;> decide

/-! ### Views of rows -/

/-- The row whose content a view has: that of the original, if it is cached. -/
def displayedRow (db : Db) (status : DbStatus) : DbStatus :=
  (status.reblogKey.bind db.status?).getD status

/-- The original of a boost is cached, and the media columns say what they are read as. -/
structure Transparent (json : SerdeJson) (db : Db) (status : DbStatus) : Prop where
  original : ∀ key, status.reblogKey = some key → (db.status? key).isSome = true
  media : db.hasMedia status = true ↔
    json.media.ofColumn (displayedRow db status).mediaAttachmentsJson ≠ []

/-- What the filters look at in a view. -/
structure Shows (json : SerdeJson) (db : Db) (status : DbStatus) (view : TimelineStatus) :
    Prop where
  id : view.id = status.id
  originalStatusId : view.originalStatusId = (displayedRow db status).id
  kind : view.notificationKind =
    if (status.reblogKey.bind db.status?).isSome then some "reblog".toList else none
  media : view.media = json.media.ofColumn (displayedRow db status).mediaAttachmentsJson

theorem shows_statusToViewResolvingReblog {context : CachedStatusViewContext}
    (h : status.reblogKey.bind context.status? = status.reblogKey.bind db.status?) :
    Shows json db status (context.statusToViewResolvingReblog json status) := by
  have hquote (row : DbStatus) (account : Option DbAccount) :
      (context.statusToViewWithCachedQuote json row account).id = row.id ∧
        (context.statusToViewWithCachedQuote json row account).originalStatusId = row.id ∧
        (context.statusToViewWithCachedQuote json row account).notificationKind = none ∧
        (context.statusToViewWithCachedQuote json row account).media =
          json.media.ofColumn row.mediaAttachmentsJson := by
    unfold CachedStatusViewContext.statusToViewWithCachedQuote
    dsimp only
    split <;> exact ⟨rfl, rfl, rfl, rfl⟩
  unfold CachedStatusViewContext.statusToViewResolvingReblog
  dsimp only
  split
  · next hnone =>
    rw [h] at hnone
    obtain ⟨hid, horiginal, hkind, hmedia⟩ := hquote status (context.accountForStatus status)
    constructor
    · exact hid
    · rw [displayedRow, hnone]
      exact horiginal
    · rw [hnone]
      exact hkind
    · rw [displayedRow, hnone]
      exact hmedia
  · next original hsome =>
    rw [h] at hsome
    obtain ⟨-, horiginal, -, hmedia⟩ := hquote original (context.accountForStatus original)
    constructor
    · rfl
    · rw [displayedRow, hsome]
      exact horiginal
    · rw [hsome]
      rfl
    · rw [displayedRow, hsome]
      exact hmedia

theorem Shows.applied {view : TimelineStatus} (h : Shows json db status view)
    (sourceAcct : Option Str) :
    Shows json db status (db.cache.applyViewerState (withSourceAcct view sourceAcct)) := by
  unfold Cache.applyViewerState
  split
  · exact ⟨h.id, h.originalStatusId, h.kind, h.media⟩
  · split <;> exact ⟨h.id, h.originalStatusId, h.kind, h.media⟩

/-- With a page the originals of its rows are loaded. -/
theorem original_load (hnodup : (db.cache.statuses.map DbStatus.key).Nodup)
    {page : List DbStatus} (hpage : page ⊆ db.cache.statuses) (hstatus : status ∈ page) :
    status.reblogKey.bind (CachedStatusViewContext.load db.cache page).status? =
      status.reblogKey.bind db.status? := by
  cases hkey : status.reblogKey with
  | none => rfl
  | some key =>
    have hsub : (CachedStatusViewContext.load db.cache page).statuses ⊆ db.cache.statuses := by
      intro s hs
      rcases List.mem_append.1 (Keyed.mem_of_mem_firsts hs) with hs | hs
      · rcases List.mem_append.1 hs with hs | hs
        · exact hpage (List.mem_reverse.1 hs)
        · exact (mem_queryStatusesByKeys.1 hs).1
      · exact (mem_queryStatusesByKeys.1 hs).1
    refine Keyed.lookup_of_subset hnodup hsub fun s hs hskey => ?_
    have hrelated : s ∈ db.cache.queryStatusesByKeys (page.flatMap fun status =>
        status.reblogKey.toList ++ status.quoteKey.toList) := by
      refine mem_queryStatusesByKeys.2 ⟨hs, List.mem_flatMap.2 ⟨status, hstatus, ?_⟩⟩
      rw [hskey, hkey]
      exact List.mem_append_left _ (List.mem_singleton_self _)
    obtain ⟨t, ht, htkey⟩ := @Keyed.exists_mem_firsts _ _ _ DbStatus.key _ _
      (List.mem_append_left _ (List.mem_append_right page.reverse hrelated))
    rwa [← Keyed.ext_of_nodup hnodup (hsub ht) hs htkey]

theorem getElem?_of_mapM {α β : Type} {f : α → Option β} {l : List α} {l' : List β}
    (h : l.mapM f = some l') {i : ℕ} {b : β} (hb : l'[i]? = some b) :
    ∃ a, l[i]? = some a ∧ f a = some b := by
  induction l generalizing l' i with
  | nil =>
    cases h
    cases hb
  | cons x l ih =>
    rw [List.mapM_cons] at h
    obtain ⟨y, hy, h⟩ := Option.bind_eq_some_iff.1 h
    obtain ⟨rest, hrest, h⟩ := Option.bind_eq_some_iff.1 h
    cases h
    cases i with
    | zero =>
      cases hb
      exact ⟨x, rfl, hy⟩
    | succ i => exact ih hrest hb

/-- The views of a page show the rows. -/
theorem shows_of_ref (hnodup : (db.cache.statuses.map DbStatus.key).Nodup)
    {refs : List TimelineStatusRef} {views : List TimelineStatus}
    (hviews : dbStatusRefsToViews json db.cache refs = some views) {i : ℕ}
    {ref : TimelineStatusRef} {view : TimelineStatus} (href : refs[i]? = some ref)
    (hview : views[i]? = some view) (hstatus : db.status? (ref.statusId, ref.serverDomain) =
      some status) : Shows json db status view := by
  obtain ⟨page, hpage, hviews⟩ := Option.bind_eq_some_iff.1 hviews
  cases hviews
  rw [List.getElem?_map] at hview
  obtain ⟨⟨ref', row⟩, hzip, rfl⟩ := Option.map_eq_some_iff.1 hview
  obtain ⟨href', hrow⟩ := List.getElem?_zip_eq_some.1 hzip
  have hcached {j : ℕ} {s : DbStatus} (hs : page[j]? = some s) : ∃ ref, refs[j]? = some ref ∧
      Keyed.lookup DbStatus.key db.cache.statuses (ref.statusId, ref.serverDomain) = some s :=
    getElem?_of_mapM hpage hs
  have hsub : page ⊆ db.cache.statuses := by
    intro s hs
    obtain ⟨j, hj⟩ := List.mem_iff_getElem?.1 hs
    obtain ⟨ref', -, hfound⟩ := hcached hj
    exact Keyed.mem_of_lookup hfound
  obtain ⟨ref'', href'', hlookup⟩ := hcached hrow
  obtain rfl : ref'' = ref := Option.some.inj (href''.symm.trans href)
  obtain rfl : row = status := Option.some.inj (hlookup.symm.trans hstatus)
  exact (shows_statusToViewResolvingReblog
    (original_load hnodup hsub (List.mem_of_getElem? hrow))).applied _

/-! ### Agreement -/

variable {view : TimelineStatus}

theorem Shows.isBoost (h : Shows json db status view) :
    (view.id ≠ view.originalStatusId || view.notificationKind.any fun kind =>
      isOneOf kind ["reblog", "renote", "repost"]) =
        (status.reblogKey.bind db.status?).isSome := by
  rw [h.id, h.originalStatusId, h.kind, displayedRow]
  cases status.reblogKey.bind db.status? with
  | none => simp
  | some original => simp [isOneOf]

theorem Shows.matches_eq (h : Shows json db status view)
    (displayFilter : Option TimelineDisplayFilter) :
    timelineStatusMatchesDisplayFilter view displayFilter =
      judge displayFilter (status.reblogKey.bind db.status?).isSome !view.media.isEmpty := by
  unfold timelineStatusMatchesDisplayFilter judge
  rw [h.isBoost]
  cases displayFilter.filter TimelineDisplayFilter.applies <;> rfl

theorem Shows.statusMatches_eq (h : Shows json db status view) (hreads :
    platform.toLowerCase (platform.trim "reblog".toList) = "reblog".toList)
    {column : ColumnSummary} (htype : supportsDisplayFilter column.columnType = true) :
    statusMatchesDisplayFilter platform view column =
      judge column.displayFilter (status.reblogKey.bind db.status?).isSome
        !view.media.isEmpty := by
  have hboost : (view.id ≠ view.originalStatusId ||
      notificationKindIsReblog platform view.notificationKind) =
        (status.reblogKey.bind db.status?).isSome := by
    rw [h.id, h.originalStatusId, h.kind, displayedRow]
    cases status.reblogKey.bind db.status? with
    | none => simp [notificationKindIsReblog]
    | some original =>
      refine Bool.or_eq_true_iff.2 (.inr ?_)
      show isOneOf (platform.toLowerCase (platform.trim "reblog".toList)) _ = true
      rw [hreads]
      decide
  unfold statusMatchesDisplayFilter timelineDisplayFilterApplies judge
  rw [hboost, htype, Bool.true_and]
  cases column.displayFilter with
  | none => rfl
  | some filter => cases happlies : filter.applies <;> simp [Option.filter, happlies]

theorem isSome_original_iff :
    status.reblogOfId.isSome = (status.reblogKey.bind db.status?).isSome ↔
      ∀ key, status.reblogKey = some key → (db.status? key).isSome = true := by
  unfold DbStatus.reblogKey
  cases status.reblogOfId with
  | none => simp
  | some id =>
    constructor
    · rintro h key hkey
      obtain rfl := Option.some.inj hkey
      exact h.symm
    · exact fun h => (h _ rfl).symm

/-- The predicates agree on a cached row and its view, in every column with display filters,
exactly if the view shows whether the row is a boost and has media. -/
theorem filters_agree_iff (db : Db) (json : SerdeJson) (platform : Timeline.Platform)
    (hreads : platform.toLowerCase (platform.trim "reblog".toList) = "reblog".toList)
    (hnodup : (db.cache.statuses.map DbStatus.key).Nodup) (refs : List TimelineStatusRef)
    (views : List TimelineStatus) (hviews : dbStatusRefsToViews json db.cache refs = some views)
    (i : ℕ) (ref : TimelineStatusRef) (view : TimelineStatus) (href : refs[i]? = some ref)
    (hview : views[i]? = some view) (status : DbStatus)
    (hstatus : db.status? (ref.statusId, ref.serverDomain) = some status) :
    (∀ column, supportsDisplayFilter column.columnType = true →
      Agree platform db status view column) ↔ Transparent json db status := by
  have hshows := shows_of_ref hnodup hviews href hview hstatus
  have hjudges : (∀ column, supportsDisplayFilter column.columnType = true →
      Agree platform db status view column) ↔
        status.reblogOfId.isSome = (status.reblogKey.bind db.status?).isSome ∧
          db.hasMedia status = !view.media.isEmpty := by
    constructor
    · intro h
      refine judge_inj fun filter => ?_
      have hagree := h { homeColumn with displayFilter := filter } rfl
      rw [← admits_aggregateFilter, ← hagree.backend, hshows.matches_eq]
    · rintro ⟨hboost, hmedia⟩ column htype
      refine ⟨rfl, ?_, ?_⟩
      · rw [hshows.matches_eq, admits_aggregateFilter, hboost, hmedia]
      · rw [hshows.statusMatches_eq hreads htype, admits_aggregateFilter, hboost, hmedia]
  have hmedia : db.hasMedia status = !view.media.isEmpty ↔ (db.hasMedia status = true ↔
      json.media.ofColumn (displayedRow db status).mediaAttachmentsJson ≠ []) := by
    rw [hshows.media, Bool.eq_iff_iff, Bool.not_eq_true', List.isEmpty_eq_false_iff]
  rw [hjudges, isSome_original_iff, hmedia]
  exact ⟨fun h => ⟨h.1, h.2⟩, fun h => ⟨h.original, h.media⟩⟩

/-! ### A boost without its original -/

def cachedOnly (x : Status) : Db where
  cache := { Cache.empty with statuses := [rowOf noJson "example.test".toList x] }
  updatedAt _ := []
  statusIdentities := []
  timelineEntries := []
  notifications := []

def refOf (x : Status) : TimelineStatusRef := ⟨x.id, "example.test".toList, none⟩

def asciiPlatform : Timeline.Platform where
  trim := id
  toLowerCase := id
  httpUrl _ := none
  dateParse _ := none

def viewsOf (x : Status) : List TimelineStatus :=
  (dbStatusRefsToViews noJson (cachedOnly x).cache [refOf x]).getD []

/-- The SQL takes the row of a boost for a boost, and its view is that of a post. -/
theorem not_filters_agree : ¬ ∀ (db : Db) (json : SerdeJson) (platform : Timeline.Platform),
    platform.toLowerCase (platform.trim "reblog".toList) = "reblog".toList →
    (db.cache.statuses.map DbStatus.key).Nodup → ∀ refs views,
    dbStatusRefsToViews json db.cache refs = some views → ∀ (i : ℕ) ref view,
    refs[i]? = some ref → views[i]? = some view → ∀ status,
    db.status? (ref.statusId, ref.serverDomain) = some status → ∀ column,
      supportsDisplayFilter column.columnType = true → Agree platform db status view column := by
  intro h
  have hagree := h (cachedOnly boostOfQuote) noJson asciiPlatform rfl (List.nodup_singleton _)
    [refOf boostOfQuote] (viewsOf boostOfQuote) rfl 0 _ _ rfl rfl _ rfl
    { homeColumn with displayFilter := some ⟨true, true, false, false⟩ } rfl
  exact absurd hagree.backend (by decide)

theorem filters_agree_quotedPost :
    (∀ column, supportsDisplayFilter column.columnType = true →
      Agree asciiPlatform (cachedOnly quotedPost) (rowOf noJson "example.test".toList quotedPost)
        (viewsOf quotedPost)[0] column) ↔
      Transparent noJson (cachedOnly quotedPost) (rowOf noJson "example.test".toList quotedPost) :=
  filters_agree_iff (cachedOnly quotedPost) noJson asciiPlatform rfl (List.nodup_singleton _)
    [refOf quotedPost] (viewsOf quotedPost) rfl 0 _ _ rfl rfl _ rfl

end Awayuki.Hydration
