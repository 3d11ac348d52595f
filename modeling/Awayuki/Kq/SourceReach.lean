import Awayuki.Kq.ScanModes

/-!
# KQ: what a source reaches

The rows that the planner's SQL selects, read from the tables.

* `Reaches`: what a source reaches, kind by kind, with all comparisons as the SQL makes them;
* `pushSource_selects`: one round of the planner's loop adds what its source reaches;
* `mem_planSourceScan_rows`: every plan selects what some source reaches.
-/

namespace Awayuki.Kq

variable {authors added conversation : Prop}

/-- The key is that of the row, or of what it boosts. -/
def IsOf (s : DbStatus) (key : EntityKey) : Prop := key = s.key ∨ s.reblogKey = some key

/-- The row has a timeline entry with the property. -/
def HasEntry (db : Database) (s : DbStatus) (p : TimelineEntry → Prop) : Prop :=
  ∃ entry ∈ db.timelineEntries, entry.statusKey = s.key ∧ p entry

section Specification

variable [Icu] (db : Database) (loginAccounts : List LoginAccountIdentity)
  (conversationKeys : List StatusKey)

/-- The row is in a timeline of one of the selected accounts. -/
def ReachesTimeline (s : DbStatus) (timelineType : Str) (selectors : List Str) : Prop :=
  HasEntry db s fun entry =>
    entry.timelineType = timelineType ∧ entry.accountAcct ∈ selectedAccts loginAccounts selectors

/-- One of the selected accounts has the mark on the row, or on what it boosts. -/
def ReachesViewerState (s : DbStatus) (column : ViewerColumn) (selectors : List Str) : Prop :=
  ∃ state ∈ db.viewerStates, IsOf s state.statusKey ∧ column.get state = some true ∧
    state.loginAccountAcct ∈ selectedAccts loginAccounts selectors

/-- A status answers one of the accounts, or its mentions may name one. -/
def AddressesOneOf (accounts : List LoginAccountIdentity) (m : DbStatus) : Prop :=
  (∃ account ∈ accounts, m.inReplyToAccountId = some account.accountId) ∨
    ∃ json, m.mentionsJson = some json ∧ ∀ needles, mentionAcctNeedles accounts = some needles →
      mayMention (accounts.map fun account => jsonString account.accountId) needles json = true

/-- What a source reaches. -/
def Reaches (source : SourceSpec) (s : DbStatus) : Prop :=
  match source.kind with
  | .local | .search | .track => True
  | .home => ReachesTimeline db loginAccounts s "home" source.arguments
  | .public => ReachesTimeline db loginAccounts s "public" source.arguments
  | .localPublic => ReachesTimeline db loginAccounts s "local" source.arguments
  | .list => ∃ argument ∈ source.arguments, ReachesTimeline db loginAccounts s
      ("list:".toList ++ (splitScopedListId argument).2) (splitScopedListId argument).1.toList
  | .hashtag => ∃ tag ∈ source.arguments, HasEntry db s fun entry =>
      ∃ parameter, entry.timelineType = "tag:".toList ++ parameter ∧
        hashtagParameterMatches parameter tag = true
  | .user => ∃ selector ∈ source.arguments, ∃ a ∈ db.accounts, a.key = s.authorKey ∧
      selectorNames selector a = true
  | .bookmarks => ReachesViewerState db loginAccounts s .bookmarked source.arguments
  | .favourites => ReachesViewerState db loginAccounts s .favourited source.arguments
  | .mentions => selectedLoginAccounts source.arguments loginAccounts ≠ [] ∧
      ∃ m ∈ db.statuses, IsOf s m.key ∧
        AddressesOneOf (selectedLoginAccounts source.arguments loginAccounts) m
  | .direct => selectedLoginAccounts source.arguments loginAccounts ≠ [] ∧
      ∃ m ∈ db.statuses, IsOf s m.key ∧ m.visibility = "direct".toList
  | .conversation => ∃ key ∈ conversationKeys, IsOf s (key.id, key.serverDomain)

end Specification

/-! ### What the sources yield -/

section Keys

variable {db : Database} {s : DbStatus} {rows rows' : List RowSource}
  {effective effective' : List EffectiveSource}

/-- The effective sources yield the key of the row or of what it boosts. -/
theorem isSourceRow_iff : IsSourceRow db rows effective s ↔
    (∃ row ∈ rows, s.key ∈ row.pushKeys db) ∨
      ∃ source ∈ effective, ∃ key ∈ source.pushKeys db, IsOf s key := by
  refine or_congr Iff.rfl ?_
  simp only [effectiveKeys, List.mem_flatMap, IsOf]
  constructor
  · rintro (⟨source, hsource, hkey⟩ | ⟨key, ⟨source, hsource, hkey⟩, hreblog⟩)
    · exact ⟨source, hsource, _, hkey, .inl rfl⟩
    · exact ⟨source, hsource, key, hkey, .inr hreblog⟩
  · rintro ⟨source, hsource, key, hkey, rfl | hreblog⟩
    · exact .inl ⟨source, hsource, hkey⟩
    · exact .inr ⟨key, ⟨source, hsource, hkey⟩, hreblog⟩

theorem mem_pushUnique {α : Type} [DecidableEq α] {values : List α} {value a : α} :
    a ∈ pushUnique values value ↔ a ∈ values ∨ a = value := by
  unfold pushUnique
  split_ifs with h
  · constructor
    · exact .inl
    · rintro (ha | rfl)
      · exact ha
      · exact h
  · rw [List.mem_append, List.mem_singleton]

theorem mem_foldl_pushUnique {α : Type} [DecidableEq α] {values news : List α} {a : α} :
    a ∈ news.foldl pushUnique values ↔ a ∈ values ∨ a ∈ news := by
  induction news generalizing values with
  | nil => simp
  | cons b news ih => rw [List.foldl_cons, ih, mem_pushUnique, List.mem_cons, or_assoc]

theorem mem_memberships_pushKeys {timelineTypes : List Str} {accountAccts : Option (List Str)} :
    s.key ∈ (RowSource.memberships timelineTypes accountAccts).pushKeys db ↔
      HasEntry db s fun entry => entry.timelineType ∈ timelineTypes ∧
        ∀ accts, accountAccts = some accts → entry.accountAcct ∈ accts := by
  simp only [RowSource.pushKeys, isMembership, List.mem_map, List.mem_filter, Bool.and_eq_true,
    List.contains_iff_mem, Option.all_eq_true, HasEntry]
  constructor
  · rintro ⟨entry, ⟨hentry, hmember⟩, hkey⟩
    exact ⟨entry, hentry, hkey, hmember⟩
  · rintro ⟨entry, hentry, hkey, hmember⟩
    exact ⟨entry, ⟨hentry, hmember⟩, hkey⟩

theorem mem_authors_pushKeys (hs : s ∈ db.statuses) {keys : List EntityKey} :
    s.key ∈ (RowSource.authors keys).pushKeys db ↔ s.authorKey ∈ keys := by
  rw [← pushProbe_iff hs]
  exact List.contains_iff_mem

end Keys

/-! ### One round of the loop -/

section Rounds

variable {db : Database} {s : DbStatus} {rows : List RowSource} {arguments : List Str}

/-- Some of the row sources yields the row. -/
def SomeYields (db : Database) (s : DbStatus) (rows : List RowSource) : Prop :=
  ∃ row ∈ rows, s.key ∈ row.pushKeys db

/-- Some of the effective sources yields the row, or what it boosts. -/
def SomeYieldsEffective (db : Database) (s : DbStatus) (effective : List EffectiveSource) : Prop :=
  ∃ source ∈ effective, ∃ key ∈ source.pushKeys db, IsOf s key

theorem someYields_pushUnique {row : RowSource} : SomeYields db s (pushUnique rows row) ↔
    SomeYields db s rows ∨ s.key ∈ row.pushKeys db := by
  simp only [SomeYields, mem_pushUnique, or_and_right, exists_or, exists_eq_left]

theorem someYieldsEffective_pushUnique {effective : List EffectiveSource}
    {source : EffectiveSource} : SomeYieldsEffective db s (pushUnique effective source) ↔
      SomeYieldsEffective db s effective ∨ ∃ key ∈ source.pushKeys db, IsOf s key := by
  simp only [SomeYieldsEffective, mem_pushUnique, or_and_right, exists_or, exists_eq_left]

/-- A loop that adds rows for each argument adds those of all arguments. -/
theorem someYields_foldl {push : List RowSource → Str → List RowSource} {reached : Str → Prop}
    (hpush : ∀ rows argument, SomeYields db s (push rows argument) ↔
      SomeYields db s rows ∨ reached argument) : SomeYields db s (arguments.foldl push rows) ↔
      SomeYields db s rows ∨ ∃ argument ∈ arguments, reached argument := by
  induction arguments generalizing rows with
  | nil => simp
  | cons argument arguments ih =>
    rw [List.foldl_cons, ih, hpush, or_assoc, List.exists_mem_cons_iff]

/-- The stored types of hashtag timelines are those with the prefix. -/
theorem mem_loadStoredHashtagTypes {parameter : Str} {entry : TimelineEntry}
    (hentry : entry ∈ db.timelineEntries)
    (htype : entry.timelineType = "tag:".toList ++ parameter) :
    entry.timelineType ∈ loadStoredHashtagTypes db := by
  rw [loadStoredHashtagTypes, Keyed.mem_firsts_id, List.mem_filter]
  refine ⟨List.mem_map_of_mem hentry, decide_eq_true ⟨?_, ?_⟩⟩
  · rw [htype]
    show ['t', 'a', 'g', ':'] ≤ 't' :: 'a' :: 'g' :: ':' :: parameter
    rw [← not_lt]
    simp
  · rw [htype]
    show 't' :: 'a' :: 'g' :: ':' :: parameter < ['t', 'a', 'g', ';']
    simp [List.cons_lt_cons_iff]

theorem yields_viewerState {column : ViewerColumn} {accountAccts : List Str} :
    (∃ key ∈ (EffectiveSource.viewerState column accountAccts).pushKeys db, IsOf s key) ↔
      ∃ state ∈ db.viewerStates, IsOf s state.statusKey ∧ column.get state = some true ∧
        state.loginAccountAcct ∈ accountAccts := by
  simp only [EffectiveSource.pushKeys, List.mem_map, List.mem_filter, Bool.and_eq_true,
    List.contains_iff_mem, decide_eq_true_eq]
  constructor
  · rintro ⟨-, ⟨state, ⟨hstate, hacct, hmark⟩, rfl⟩, hof⟩
    exact ⟨state, hstate, hof, hmark, hacct⟩
  · rintro ⟨state, hstate, hof, hmark, hacct⟩
    exact ⟨_, ⟨state, ⟨hstate, hacct, hmark⟩, rfl⟩, hof⟩

/-- A source of statuses yields what has its property. -/
theorem yields_statuses {p : DbStatus → Bool} :
    (∃ key ∈ (db.statuses.filter p).map DbStatus.key, IsOf s key) ↔
      ∃ m ∈ db.statuses, IsOf s m.key ∧ p m = true := by
  constructor
  · rintro ⟨key, hkey, hof⟩
    obtain ⟨m, hm, rfl⟩ := List.mem_map.1 hkey
    obtain ⟨hm, hp⟩ := List.mem_filter.1 hm
    exact ⟨m, hm, hof, hp⟩
  · rintro ⟨m, hm, hof, hp⟩
    exact ⟨m.key, List.mem_map_of_mem (List.mem_filter.2 ⟨hm, hp⟩), hof⟩

theorem yields_repliesTo {accounts : List LoginAccountIdentity} :
    (∃ key ∈ (EffectiveSource.repliesTo (accounts.map (·.accountId))).pushKeys db, IsOf s key) ↔
      ∃ m ∈ db.statuses, IsOf s m.key ∧
        ∃ account ∈ accounts, m.inReplyToAccountId = some account.accountId := by
  rw [EffectiveSource.pushKeys, yields_statuses]
  refine exists_congr fun m => and_congr_right fun _ => and_congr_right fun _ => ?_
  rw [Option.any_eq_true]
  constructor
  · rintro ⟨id, hid, hmem⟩
    obtain ⟨account, haccount, rfl⟩ := List.mem_map.1 (List.contains_iff_mem.1 hmem)
    exact ⟨account, haccount, hid⟩
  · rintro ⟨account, haccount, hid⟩
    exact ⟨_, hid, List.contains_iff_mem.2 (List.mem_map_of_mem haccount)⟩

theorem yields_mentions {idLiterals : List Str} {acctNeedles : Option (List Str)} :
    (∃ key ∈ (EffectiveSource.mentions idLiterals acctNeedles).pushKeys db, IsOf s key) ↔
      ∃ m ∈ db.statuses, IsOf s m.key ∧ ∃ json, m.mentionsJson = some json ∧
        ∀ needles, acctNeedles = some needles → mayMention idLiterals needles json = true := by
  rw [EffectiveSource.pushKeys, yields_statuses]
  simp only [Option.any_eq_true, Option.all_eq_true]

theorem yields_directVisibility :
    (∃ key ∈ EffectiveSource.directVisibility.pushKeys db, IsOf s key) ↔
      ∃ m ∈ db.statuses, IsOf s m.key ∧ m.visibility = "direct".toList := by
  rw [EffectiveSource.pushKeys, yields_statuses]
  simp only [decide_eq_true_eq]

variable [Icu] {loginAccounts : List LoginAccountIdentity}

theorem someYields_pushMembership {timelineType : Str} {selectors : List Str} :
    SomeYields db s (pushMembership loginAccounts rows timelineType selectors) ↔
      SomeYields db s rows ∨ ReachesTimeline db loginAccounts s timelineType selectors := by
  unfold pushMembership
  simp only []
  split_ifs with haccts
  · rw [someYields_pushUnique, mem_memberships_pushKeys]
    simp only [ReachesTimeline, List.mem_singleton, Option.some.injEq, forall_eq']
  · refine (or_iff_left ?_).symm
    rintro ⟨entry, -, -, -, hacct⟩
    rw [not_not.1 haccts] at hacct
    exact List.not_mem_nil hacct

theorem someYields_pushHashtagArgument {tag : Str} :
    SomeYields db s (pushHashtagArgument db rows tag) ↔ SomeYields db s rows ∨
      HasEntry db s fun entry => ∃ parameter, entry.timelineType = "tag:".toList ++ parameter ∧
        hashtagParameterMatches parameter tag = true := by
  have hstored : ∀ entry ∈ db.timelineEntries, (entry.timelineType ∈
      (loadStoredHashtagTypes db).filter fun timelineType =>
        (Str.stripPrefix "tag:" timelineType).any fun parameter =>
          hashtagParameterMatches parameter tag) ↔
      ∃ parameter, entry.timelineType = "tag:".toList ++ parameter ∧
        hashtagParameterMatches parameter tag = true := by
    intro entry hentry
    rw [List.mem_filter, Option.any_eq_true]
    constructor
    · rintro ⟨-, parameter, hprefix, hmatch⟩
      exact ⟨parameter, Str.stripPrefix_eq_some.1 hprefix, hmatch⟩
    · rintro ⟨parameter, htype, hmatch⟩
      exact ⟨mem_loadStoredHashtagTypes hentry htype, parameter,
        Str.stripPrefix_eq_some.2 htype, hmatch⟩
  unfold pushHashtagArgument
  simp only []
  split_ifs with htypes
  · rw [someYields_pushUnique, mem_memberships_pushKeys]
    refine or_congr Iff.rfl (exists_congr fun entry => and_congr_right fun hentry =>
      and_congr_right fun _ => ?_)
    simp only [hstored entry hentry, reduceCtorEq, false_implies, implies_true, and_true]
  · refine (or_iff_left ?_).symm
    rintro ⟨entry, hentry, -, hparameter⟩
    have hmem := (hstored entry hentry).2 hparameter
    rw [not_not.1 htypes] at hmem
    exact List.not_mem_nil hmem

theorem yields_pushViewerState {effective : List EffectiveSource} {column : ViewerColumn} :
    SomeYieldsEffective db s (pushViewerState loginAccounts effective column arguments) ↔
      SomeYieldsEffective db s effective ∨
        ReachesViewerState db loginAccounts s column arguments := by
  unfold pushViewerState
  simp only []
  split_ifs with haccts
  · rw [someYieldsEffective_pushUnique, yields_viewerState, ReachesViewerState]
  · refine (or_iff_left ?_).symm
    rintro ⟨state, -, -, -, hacct⟩
    rw [not_not.1 haccts] at hacct
    exact List.not_mem_nil hacct

theorem yields_pushMentions {effective : List EffectiveSource} :
    SomeYieldsEffective db s (pushMentions loginAccounts effective arguments) ↔
      SomeYieldsEffective db s effective ∨
        (selectedLoginAccounts arguments loginAccounts ≠ [] ∧ ∃ m ∈ db.statuses, IsOf s m.key ∧
          AddressesOneOf (selectedLoginAccounts arguments loginAccounts) m) := by
  unfold pushMentions
  simp only []
  split_ifs with haccounts
  · rw [someYieldsEffective_pushUnique, someYieldsEffective_pushUnique, yields_repliesTo,
      yields_mentions, or_assoc, and_iff_right haccounts]
    simp only [AddressesOneOf, and_or_left, exists_or]
  · exact (or_iff_left fun h => haccounts h.1).symm

end Rounds

/-! ### The whole loop -/

theorem add_rows {rows effective : Prop} : ((rows ∨ added) ∨ authors) ∨ effective ∨ conversation ↔
      ((rows ∨ authors) ∨ effective ∨ conversation) ∨ added := by tauto

theorem add_authors {rows effective : Prop} : (rows ∨ authors ∨ added) ∨ effective ∨ conversation ↔
      ((rows ∨ authors) ∨ effective ∨ conversation) ∨ added := by tauto

theorem add_effective {rows effective : Prop} :
    (rows ∨ authors) ∨ (effective ∨ added) ∨ conversation ↔
      ((rows ∨ authors) ∨ effective ∨ conversation) ∨ added := by tauto

theorem add_conversation {rows effective has : Prop} : (rows ∨ authors) ∨ effective ∨ added ↔
      ((rows ∨ authors) ∨ effective ∨ (has ∧ added)) ∨ added := by tauto

section Loop

variable [Icu] {db : Database} {loginAccounts : List LoginAccountIdentity}
  {conversationKeys : List StatusKey} {s : DbStatus} {sources : List SourceSpec}

/-- What has been collected selects the row. -/
def CollectedSources.Selects (db : Database) (conversationKeys : List StatusKey) (s : DbStatus)
    (state : CollectedSources) : Prop :=
  (SomeYields db s state.rows ∨ s.authorKey ∈ state.authorKeys) ∨
    SomeYieldsEffective db s state.effective ∨
      (state.hasConversation = true ∧
        ∃ key ∈ conversationKeys, IsOf s (key.id, key.serverDomain))

variable {state : CollectedSources}

omit [Icu] in
theorem CollectedSources.selects_iff (hs : s ∈ db.statuses) :
    IsSourceRow db state.rowSources (state.effectiveSources conversationKeys) s ↔
      state.Selects db conversationKeys s := by
  rw [isSourceRow_iff]
  refine or_congr ?_ ?_
  · unfold CollectedSources.rowSources
    split_ifs with hauthors
    · simp only [List.mem_append, List.mem_singleton, or_and_right, exists_or, exists_eq_left,
        mem_authors_pushKeys hs, SomeYields]
    · rw [not_not.1 hauthors]
      simp [SomeYields]
  · unfold CollectedSources.effectiveSources
    split_ifs with hconversation
    · simp only [List.mem_append, List.mem_singleton, or_and_right, exists_or, exists_eq_left,
        EffectiveSource.pushKeys, SomeYieldsEffective, hconversation.1, true_and]
      simp only [List.mem_map, exists_exists_and_eq_and]
    · refine (or_iff_left ?_).symm
      rintro ⟨hhas, key, hkey, -⟩
      exact hconversation ⟨hhas, List.ne_nil_of_mem hkey⟩

/-- One round of the loop adds the rows that its source reaches. -/
theorem pushSource_selects {state' : CollectedSources} {source : SourceSpec}
    (h : pushSource db loginAccounts state source = some state') :
    state'.Selects db conversationKeys s ↔
      state.Selects db conversationKeys s ∨
        Reaches db loginAccounts conversationKeys source s := by
  cases hkind : source.kind
  all_goals simp only [pushSource, hkind, reduceCtorEq, Option.some.injEq] at h
  all_goals simp only [Reaches, hkind]
  case home | «public» | localPublic =>
    subst h
    rw [CollectedSources.Selects, someYields_pushMembership]
    exact add_rows
  case list =>
    subst h
    have hpush : ∀ rows argument, SomeYields db s (pushListArgument loginAccounts rows argument) ↔
        SomeYields db s rows ∨ ReachesTimeline db loginAccounts s
          ("list:".toList ++ (splitScopedListId argument).2)
          (splitScopedListId argument).1.toList := fun _ _ => someYields_pushMembership
    rw [CollectedSources.Selects, someYields_foldl hpush]
    exact add_rows
  case hashtag =>
    subst h
    have hpush : ∀ rows tag, SomeYields db s (pushHashtagArgument db rows tag) ↔
        SomeYields db s rows ∨ HasEntry db s fun entry =>
          ∃ parameter, entry.timelineType = "tag:".toList ++ parameter ∧
            hashtagParameterMatches parameter tag = true :=
      fun _ _ => someYields_pushHashtagArgument
    rw [CollectedSources.Selects, someYields_foldl hpush]
    exact add_rows
  case user =>
    subst h
    have hkeys : s.authorKey ∈ source.arguments.flatMap (resolveAuthorKeys db) ↔
        ∃ selector ∈ source.arguments, ∃ a ∈ db.accounts, a.key = s.authorKey ∧
          selectorNames selector a = true := by
      simp only [List.mem_flatMap, resolveAuthorKeys, List.mem_map, List.mem_filter]
      refine exists_congr fun selector => and_congr_right fun _ => exists_congr fun a => ?_
      exact and_assoc.trans (and_congr_right fun _ => and_comm)
    rw [CollectedSources.Selects, mem_foldl_pushUnique, hkeys]
    exact add_authors
  case bookmarks | favourites =>
    subst h
    rw [CollectedSources.Selects, yields_pushViewerState]
    exact add_effective
  case mentions =>
    subst h
    rw [CollectedSources.Selects, yields_pushMentions]
    exact add_effective
  case direct =>
    split_ifs at h with hselected
    · obtain rfl := Option.some.inj h
      rw [CollectedSources.Selects, someYieldsEffective_pushUnique, yields_directVisibility,
        and_iff_right hselected]
      exact add_effective
    · obtain rfl := Option.some.inj h
      exact (or_iff_left fun h => hselected h.1).symm
  case conversation =>
    subst h
    simp only [CollectedSources.Selects, true_and]
    exact add_conversation

theorem foldlM_selects {state' : CollectedSources}
    (h : sources.foldlM (pushSource db loginAccounts) state = some state') :
    state'.Selects db conversationKeys s ↔ state.Selects db conversationKeys s ∨
      ∃ source ∈ sources, Reaches db loginAccounts conversationKeys source s := by
  induction sources generalizing state with
  | nil =>
    obtain rfl : state = state' := by simpa using h
    simp
  | cons source sources ih =>
    rw [List.foldlM_cons] at h
    obtain ⟨next, hnext, h⟩ := Option.bind_eq_some_iff.1 h
    rw [ih h, pushSource_selects hnext, or_assoc, List.exists_mem_cons_iff]

/-- Only a source that reaches every row ends the loop. -/
theorem reaches_of_foldlM_eq_none (h : sources.foldlM (pushSource db loginAccounts) state = none) :
    ∃ source ∈ sources, Reaches db loginAccounts conversationKeys source s := by
  induction sources generalizing state with
  | nil => cases h
  | cons source sources ih =>
    rw [List.foldlM_cons] at h
    cases hnext : pushSource db loginAccounts state source with
    | none =>
      refine ⟨source, List.mem_cons_self, ?_⟩
      cases hkind : source.kind
      case «local» | search | track =>
        simp only [Reaches, hkind]
      case direct =>
        simp only [pushSource, hkind] at hnext
        split_ifs at hnext
      all_goals
        simp only [pushSource, hkind] at hnext
        cases hnext
    | some next =>
      rw [hnext] at h
      obtain ⟨reaching, hmem, hreaches⟩ := ih h
      exact ⟨reaching, List.mem_cons_of_mem _ hmem, hreaches⟩

/-- Every plan, whatever its shape, selects what some source reaches. -/
theorem mem_planSourceScan_rows {limit : ℕ} :
    s ∈ (planSourceScanWithLimit db loginAccounts sources conversationKeys limit).rows db ↔
      s ∈ db.statuses ∧ ∃ source ∈ sources, Reaches db loginAccounts conversationKeys source s := by
  simp only [planSourceScanWithLimit]
  cases hstate : sources.foldlM (pushSource db loginAccounts) ⟨[], [], [], false⟩ with
  | none =>
    have hreaches := fun s => @reaches_of_foldlM_eq_none _ db loginAccounts conversationKeys s _ _
      hstate
    simp [SourceScanPlan.rows, SourceScanPlan.fullScan, fullScanSelect, hreaches]
  | some state =>
    have hselects : s ∈ db.statuses → (IsSourceRow db state.rowSources
        (state.effectiveSources conversationKeys) s ↔
          ∃ source ∈ sources, Reaches db loginAccounts conversationKeys source s) := by
      intro hs
      rw [CollectedSources.selects_iff hs, foldlM_selects hstate]
      refine or_iff_right ?_
      simp [CollectedSources.Selects, SomeYields, SomeYieldsEffective]
    dsimp only
    split_ifs with hempty
    · refine iff_of_false (by simp [SourceScanPlan.rows, SourceScanPlan.empty]) ?_
      rintro ⟨hs, hreaches⟩
      have hrow := (hselects hs).2 hreaches
      rw [hempty.1, hempty.2, isSourceRow_iff] at hrow
      simp at hrow
    · rw [mem_candidatePlan_rows]
      exact and_congr_right hselects
    · rw [mem_probePlan_rows]
      exact and_congr_right hselects

end Loop

end Awayuki.Kq
