import Awayuki.Hydration.Views

/-!
# Posts look the same from the cache

A post that was saved into an empty cache is shown from its rows as it was shown live, if the rows
have what the live view shows: of a post that is quoted by the one saved, but not of one further
away, nor what its viewer has done with it.

* `WellFormed`: the ids of a server's answer are those of one status and of one account each;
* `lookup_status`, `lookup_account`, `lookup_viewerState`: the rows that are saved;
* `cached_eq_live_iff`: exactly the posts of which both views agree.
-/

namespace Awayuki.Hydration

open Timeline (StatusIdentity quoteState atAcct)

/-! ### Answers of a server -/

/-- A status is in another if that is it, or boosts or quotes one that it is in. -/
inductive Within : Status → Status → Prop
  | self (s) : Within s s
  | reblog {x r s} (h : s.reblog = some r) (within : Within x r) : Within x s
  | quote {x q s} (h : s.quote = some q) (within : Within x q) : Within x s

/-- In one answer an id stands for one status, and one of an account for one account.  Ids and the
name of the server have the form in which identities are compared. -/
structure WellFormed (serverDomain : Str) (status : Status) : Prop where
  statuses : ∀ x y, Within x status → Within y status → x.id = y.id → x = y
  accounts : ∀ x y, Within x status → Within y status → x.account.id = y.account.id →
    x.account = y.account
  ids : ∀ x, Within x status → x.id.trim = x.id
  domain : serverDomain.trim.toAsciiLowercase = serverDomain

/-- The columns of a status are read as they were written. -/
structure SerdeJson.Reads (json : SerdeJson) (x : Status) : Prop where
  emojis : json.emojis.ReadsBack x.emojis
  accountEmojis : json.emojis.ReadsBack x.account.emojis
  media : json.media.ReadsBack x.mediaAttachments
  poll : ∀ poll ∈ x.poll, json.poll.ReadsBack poll
  application : ∀ application ∈ x.application, json.application.ReadsBack application

theorem within_of_mem_graph {x status : Status} (h : x ∈ status.graph) : Within x status := by
  unfold Status.graph at h
  rcases List.mem_append.1 h with h | h
  · rcases List.mem_append.1 h with h | h
    · exact .reblog (Option.mem_toList.1 h) (.self x)
    · exact .quote (Option.mem_toList.1 h) (.self x)
  · rw [List.mem_singleton.1 h]
    exact .self status

theorem Within.quoted {x q s : Status} (h : Within x s) (hq : x.quote = some q) : Within q s := by
  induction h with
  | self => exact .quote hq (.self q)
  | reblog h _ ih => exact .reblog h ih
  | quote h _ ih => exact .quote h ih

/-! ### What is saved -/

section Saving

variable (json : SerdeJson) (serverDomain acct : Str)

/-- The row of a status. -/
def rowOf (x : Status) : DbStatus := (DbStatus.fromApi json x serverDomain).inserted

def accountRowOf (x : Status) : DbAccount := .fromApi json x.account serverDomain

def viewerStateOf (x : Status) : DbStatusViewerState where
  loginAccountAcct := acct
  statusId := x.id
  serverDomain := serverDomain
  favourited := x.favourited
  reblogged := x.reblogged
  bookmarked := x.bookmarked

/-- Statuses saved one after another. -/
def saved (statuses : List Status) : Cache :=
  statuses.foldl (Cache.save json serverDomain (some acct)) .empty

theorem saved_snoc (statuses : List Status) (x : Status) :
    saved json serverDomain acct (statuses ++ [x]) =
      (saved json serverDomain acct statuses).save json serverDomain (some acct) x :=
  List.foldl_concat _ _ _ _

theorem statuses_upsertAccountOnce (cache : Cache) (account : DbAccount) :
    (cache.upsertAccountOnce account).statuses = cache.statuses ∧
      (cache.upsertAccountOnce account).viewerStates = cache.viewerStates := by
  unfold Cache.upsertAccountOnce
  split_ifs <;> exact ⟨rfl, rfl⟩

theorem statuses_saved (statuses : List Status) :
    (saved json serverDomain acct statuses).statuses =
      (statuses.map (rowOf json serverDomain)).foldl
        (fun table row => Keyed.upsertWith DbStatus.key DbStatus.updated row table) [] := by
  induction statuses using List.reverseRecOn with
  | nil => rfl
  | append_singleton statuses x ih =>
    rw [saved_snoc, List.map_append, List.map_singleton, List.foldl_concat, ← ih]
    change Keyed.upsertWith DbStatus.key DbStatus.updated (rowOf json serverDomain x)
      ((saved json serverDomain acct statuses).upsertAccountOnce
        (accountRowOf json serverDomain x)).statuses = _
    rw [(statuses_upsertAccountOnce _ _).1]

theorem viewerStates_saved (statuses : List Status) :
    (saved json serverDomain acct statuses).viewerStates =
      (statuses.map (viewerStateOf serverDomain acct)).foldl
        (fun rows row => Keyed.upsertWith DbStatusViewerState.key (fun _ new => new) row rows)
          [] := by
  induction statuses using List.reverseRecOn with
  | nil => rfl
  | append_singleton statuses x ih =>
    rw [saved_snoc, List.map_append, List.map_singleton, List.foldl_concat, ← ih]
    change Keyed.upsertWith DbStatusViewerState.key (fun _ new => new)
      (viewerStateOf serverDomain acct x) ((saved json serverDomain acct statuses).upsertAccountOnce
        (accountRowOf json serverDomain x)).viewerStates = _
    rw [(statuses_upsertAccountOnce _ _).2]

theorem accounts_save (cache : Cache) (x : Status) :
    (cache.save json serverDomain (some acct) x).accounts =
        (cache.upsertAccountOnce (accountRowOf json serverDomain x)).accounts ∧
      (cache.save json serverDomain (some acct) x).accountKeys =
        (cache.upsertAccountOnce (accountRowOf json serverDomain x)).accountKeys :=
  ⟨rfl, rfl⟩

/-- The accounts of a batch, each as it came first. -/
theorem lookup_accounts_saved (statuses : List Status) :
    ((saved json serverDomain acct statuses).accounts.map DbAccount.key).Nodup ∧
      (∀ key, key ∈ (saved json serverDomain acct statuses).accountKeys ↔
        ∃ x ∈ statuses, (accountRowOf json serverDomain x).key = key) ∧
      ∀ key, Keyed.lookup DbAccount.key (saved json serverDomain acct statuses).accounts key =
        Keyed.lookup DbAccount.key (statuses.map (accountRowOf json serverDomain)) key := by
  induction statuses using List.reverseRecOn with
  | nil => exact ⟨List.nodup_nil, fun key => by simp [saved, Cache.empty], fun key => rfl⟩
  | append_singleton statuses x ih =>
    obtain ⟨hnodup, hkeys, hlookup⟩ := ih
    rw [saved_snoc, (accounts_save _ _ _ _ _).1, (accounts_save _ _ _ _ _).2]
    unfold Cache.upsertAccountOnce
    by_cases hmem : (accountRowOf json serverDomain x).key ∈
        (saved json serverDomain acct statuses).accountKeys
    · rw [if_pos hmem]
      obtain ⟨y, hy, hkey⟩ := (hkeys _).1 hmem
      refine ⟨hnodup, fun key => ?_, fun key => ?_⟩
      · rw [hkeys]
        constructor
        · rintro ⟨z, hz, heq⟩
          exact ⟨z, List.mem_append_left _ hz, heq⟩
        · rintro ⟨z, hz, heq⟩
          rcases List.mem_append.1 hz with hz | hz
          · exact ⟨z, hz, heq⟩
          · rw [List.mem_singleton.1 hz] at heq
            exact ⟨y, hy, hkey.trans heq⟩
      · rw [hlookup, List.map_append, List.map_singleton, Keyed.lookup_append_singleton]
        by_cases hx : (accountRowOf json serverDomain x).key = key
        · obtain ⟨row, hrow⟩ := Option.isSome_iff_exists.1 (Keyed.lookup_isSome.2
            ⟨accountRowOf json serverDomain y, List.mem_map_of_mem hy, hkey.trans hx⟩)
          rw [hrow]
          rfl
        · rw [if_neg hx, Option.or_none]
    · rw [if_neg hmem]
      refine ⟨Keyed.nodup_upsertWith (fun _ _ => rfl) hnodup, fun key => ?_, fun key => ?_⟩
      · rw [List.mem_cons, hkeys]
        constructor
        · rintro (rfl | ⟨z, hz, heq⟩)
          · exact ⟨x, by simp, rfl⟩
          · exact ⟨z, List.mem_append_left _ hz, heq⟩
        · rintro ⟨z, hz, heq⟩
          rcases List.mem_append.1 hz with hz | hz
          · exact Or.inr ⟨z, hz, heq⟩
          · rw [List.mem_singleton.1 hz] at heq
            exact Or.inl heq.symm
      · dsimp only
        rw [Keyed.lookup_upsertWith (fun _ _ => rfl), hlookup, List.map_append, List.map_singleton,
          Keyed.lookup_append_singleton]
        by_cases hx : (accountRowOf json serverDomain x).key = key
        · have hnone : Keyed.lookup DbAccount.key (statuses.map (accountRowOf json serverDomain))
              key = none := by
            rw [← Option.not_isSome_iff_eq_none, Keyed.lookup_isSome]
            rintro ⟨row, hrow, hkey⟩
            obtain ⟨y, hy, rfl⟩ := List.mem_map.1 hrow
            exact hmem ((hkeys _).2 ⟨y, hy, hkey.trans hx.symm⟩)
          rw [if_pos hx, if_pos hx, hnone]
          rfl
        · rw [if_neg hx, if_neg hx, Option.or_none]

end Saving

/-! ### What is found -/

section Rows

variable {json : SerdeJson} {serverDomain acct : Str} {status x : Status}

theorem key_updated (row new : DbStatus) : (row.updated new).key = new.key := rfl

theorem WellFormed.eq_of_id (h : WellFormed serverDomain status) {x y : Status}
    (hx : x ∈ status.graph) (hy : y ∈ status.graph) (hid : x.id = y.id) : x = y :=
  h.statuses x y (within_of_mem_graph hx) (within_of_mem_graph hy) hid

/-- The row of an id is that of the status that has it. -/
theorem WellFormed.lookup_status (h : WellFormed serverDomain status) (id : Str) :
    Keyed.lookup DbStatus.key (saved json serverDomain acct status.graph).statuses
        (id, serverDomain) =
      (status.graph.find? fun x => x.id = id).map (rowOf json serverDomain) := by
  rw [statuses_saved, Keyed.lookup_foldl_upsertWith fun r row _ => key_updated r row]
  · unfold Keyed.lookup
    rw [List.find?_map]
    congr 2
    funext x
    refine decide_eq_decide.2 ⟨fun hkey => congrArg Prod.fst hkey, ?_⟩
    rintro rfl
    rfl
  · intro row hrow
    obtain ⟨x, -, rfl⟩ := List.mem_map.1 hrow
    rfl
  · intro row hrow row' hrow' hkey
    obtain ⟨x, hx, rfl⟩ := List.mem_map.1 hrow
    obtain ⟨y, hy, rfl⟩ := List.mem_map.1 hrow'
    rw [h.eq_of_id hx hy (congrArg Prod.fst hkey)]

theorem WellFormed.lookup_viewerState (h : WellFormed serverDomain status) (id : Str) :
    Keyed.lookup DbStatusViewerState.key (saved json serverDomain acct status.graph).viewerStates
        (acct, id, serverDomain) =
      (status.graph.find? fun x => x.id = id).map (viewerStateOf serverDomain acct) := by
  rw [viewerStates_saved, Keyed.lookup_foldl_upsertWith (fun _ _ _ => rfl)]
  · unfold Keyed.lookup
    rw [List.find?_map]
    congr 2
    funext x
    refine decide_eq_decide.2 ⟨fun hkey => congrArg (fun key => key.2.1) hkey, ?_⟩
    rintro rfl
    rfl
  · exact fun _ _ => rfl
  · intro row hrow row' hrow' hkey
    obtain ⟨x, hx, rfl⟩ := List.mem_map.1 hrow
    obtain ⟨y, hy, rfl⟩ := List.mem_map.1 hrow'
    rw [h.eq_of_id hx hy (congrArg (fun key => key.2.1) hkey)]

theorem WellFormed.lookup_account (h : WellFormed serverDomain status) (hx : x ∈ status.graph) :
    Keyed.lookup DbAccount.key (saved json serverDomain acct status.graph).accounts
        (x.account.id, serverDomain) = some (accountRowOf json serverDomain x) := by
  rw [(lookup_accounts_saved json serverDomain acct status.graph).2.2]
  have hsome : (Keyed.lookup DbAccount.key (status.graph.map (accountRowOf json serverDomain))
      (x.account.id, serverDomain)).isSome :=
    Keyed.lookup_isSome.2 ⟨accountRowOf json serverDomain x, List.mem_map_of_mem hx, rfl⟩
  obtain ⟨row, hrow⟩ := Option.isSome_iff_exists.1 hsome
  obtain ⟨y, hy, rfl⟩ := List.mem_map.1 (Keyed.mem_of_lookup hrow)
  have hid : y.account.id = x.account.id := congrArg Prod.fst (Keyed.key_of_lookup hrow)
  have haccount := h.accounts y x (within_of_mem_graph hy) (within_of_mem_graph hx) hid
  refine hrow.trans ?_
  unfold accountRowOf
  rw [haccount]

theorem nodup_statuses_saved (statuses : List Status) :
    ((saved json serverDomain acct statuses).statuses.map DbStatus.key).Nodup := by
  rw [statuses_saved]
  have hnil : (([] : List DbStatus).map DbStatus.key).Nodup := List.nodup_nil
  exact Keyed.nodup_foldl_upsertWith (fun r row _ => key_updated r row) _ hnil

theorem WellFormed.find_graph (h : WellFormed serverDomain status) (hx : x ∈ status.graph) :
    status.graph.find? (fun y => y.id = x.id) = some x := by
  obtain ⟨y, hy⟩ := Option.isSome_iff_exists.1
    (List.find?_isSome.2 ⟨x, hx, by simp⟩ : (status.graph.find? fun y => y.id = x.id).isSome)
  have hid : y.id = x.id := by simpa using List.find?_some hy
  rw [hy, h.eq_of_id (List.mem_of_find?_eq_some hy) hx hid]

end Rows

/-! ### What is loaded -/

section Loading

open CachedStatusViewContext (load)

variable {cache : Cache} {row : DbStatus} {key : EntityKey} {s : DbStatus}

/-- The rows that a row refers to. -/
def relatedRows (cache : Cache) (row : DbStatus) : List DbStatus :=
  cache.queryStatusesByKeys (row.reblogKey.toList ++ row.quoteKey.toList)

/-- The row that its original quotes. -/
def originalQuotes (cache : Cache) (row : DbStatus) : List DbStatus :=
  cache.queryStatusesByKeys ((row.reblogKey.bind (Keyed.lookup DbStatus.key
    (row :: relatedRows cache row))).bind DbStatus.quoteKey).toList

theorem statuses_load : (load cache [row]).statuses =
    Keyed.firsts DbStatus.key (row :: (relatedRows cache row ++ originalQuotes cache row)) := by
  have hrelated : [row].flatMap (fun status => status.reblogKey.toList ++ status.quoteKey.toList) =
      row.reblogKey.toList ++ row.quoteKey.toList := List.flatMap_singleton _ _
  unfold load
  dsimp only
  rw [hrelated]
  cases horiginal : row.reblogKey.bind (Keyed.lookup DbStatus.key
      (row :: relatedRows cache row)) with
  | none =>
    have hnone : [row].filterMap (fun status => status.reblogKey.bind (Keyed.lookup DbStatus.key
        ([row].reverse ++ relatedRows cache row))) = [] := List.filterMap_cons_none horiginal
    unfold originalQuotes
    rw [horiginal]
    exact congrArg (fun originals => Keyed.firsts DbStatus.key (row :: (relatedRows cache row ++
      cache.queryStatusesByKeys (originals.flatMap fun status => status.quoteKey.toList)))) hnone
  | some original =>
    have hsome : [row].filterMap (fun status => status.reblogKey.bind (Keyed.lookup DbStatus.key
        ([row].reverse ++ relatedRows cache row))) = [original] :=
      List.filterMap_cons_some horiginal
    unfold originalQuotes
    rw [horiginal]
    have hquotes : [original].flatMap (fun status => status.quoteKey.toList) =
        original.quoteKey.toList := List.flatMap_singleton _ _
    exact (congrArg (fun originals => Keyed.firsts DbStatus.key (row :: (relatedRows cache row ++
      cache.queryStatusesByKeys (originals.flatMap fun status => status.quoteKey.toList)))) hsome
      ).trans (congrArg (fun keys => Keyed.firsts DbStatus.key (row :: (relatedRows cache row ++
        cache.queryStatusesByKeys keys))) hquotes)

theorem mem_queryStatusesByKeys {keys : List EntityKey} :
    s ∈ cache.queryStatusesByKeys keys ↔ s ∈ cache.statuses ∧ s.key ∈ keys := by
  unfold Cache.queryStatusesByKeys
  rw [List.mem_filter, decide_eq_true_eq]

theorem mem_of_mem_load (hrow : row ∈ cache.statuses) (hs : s ∈ (load cache [row]).statuses) :
    s ∈ cache.statuses := by
  rw [statuses_load] at hs
  rcases List.mem_cons.1 (Keyed.mem_of_mem_firsts hs) with rfl | hs
  · exact hrow
  · rcases List.mem_append.1 hs with hs | hs
    · exact (mem_queryStatusesByKeys.1 hs).1
    · exact (mem_queryStatusesByKeys.1 hs).1

/-- The keys of which a row is loaded with a row: its own, of its original and quote, and of the
quote of its original. -/
inductive Loaded (cache : Cache) (row : DbStatus) : EntityKey → Prop
  | self : Loaded cache row row.key
  | reblog {k} (h : row.reblogKey = some k) : Loaded cache row k
  | quote {k} (h : row.quoteKey = some k) : Loaded cache row k
  | original {original k k'} (h : row.reblogKey = some k')
      (horiginal : Keyed.lookup DbStatus.key cache.statuses k' = some original)
      (hquote : original.quoteKey = some k) : Loaded cache row k

theorem status?_load (hnodup : (cache.statuses.map DbStatus.key).Nodup)
    (hrow : row ∈ cache.statuses) (h : Loaded cache row key) :
    (load cache [row]).status? key = Keyed.lookup DbStatus.key cache.statuses key := by
  refine Keyed.lookup_of_subset hnodup (fun s hs => mem_of_mem_load hrow hs) fun s hs hkey => ?_
  have hfirst : s ∈ row :: (relatedRows cache row ++ originalQuotes cache row) := by
    have hrelated : key ∈ row.reblogKey.toList ++ row.quoteKey.toList →
        s ∈ relatedRows cache row := fun hmem =>
      mem_queryStatusesByKeys.2 ⟨hs, by rwa [hkey]⟩
    cases h with
    | self =>
      rw [Keyed.ext_of_nodup hnodup hs hrow hkey]
      exact List.mem_cons_self
    | reblog h =>
      refine List.mem_cons_of_mem _ (List.mem_append_left _ (hrelated ?_))
      rw [h]
      exact List.mem_append_left _ (List.mem_singleton_self _)
    | quote h =>
      refine List.mem_cons_of_mem _ (List.mem_append_left _ (hrelated ?_))
      rw [h]
      exact List.mem_append_right _ (List.mem_singleton_self _)
    | @original original _ key' h horiginal hquote =>
      have hfound : Keyed.lookup DbStatus.key (row :: relatedRows cache row) key' =
          some original := by
        rw [← horiginal]
        refine Keyed.lookup_of_subset hnodup (fun t ht => ?_) fun t ht htkey => ?_
        · rcases List.mem_cons.1 ht with rfl | ht
          · exact hrow
          · exact (mem_queryStatusesByKeys.1 ht).1
        · refine List.mem_cons_of_mem _ (mem_queryStatusesByKeys.2 ⟨ht, ?_⟩)
          rw [htkey, h]
          exact List.mem_append_left _ (List.mem_singleton_self _)
      refine List.mem_cons_of_mem _ (List.mem_append_right _ (mem_queryStatusesByKeys.2 ⟨hs, ?_⟩))
      rw [hkey, h, Option.bind_some, hfound, Option.bind_some, hquote]
      exact List.mem_singleton_self _
  rw [statuses_load]
  obtain ⟨t, ht, htkey⟩ : ∃ t ∈ Keyed.firsts DbStatus.key
      (row :: (relatedRows cache row ++ originalQuotes cache row)), t.key = s.key :=
    Keyed.exists_mem_firsts hfirst
  have htmem := mem_of_mem_load hrow (statuses_load ▸ ht)
  rwa [← Keyed.ext_of_nodup hnodup htmem hs htkey]

theorem accountForStatus_load (hnodup : (cache.accounts.map DbAccount.key).Nodup)
    (hs : s ∈ (load cache [row]).statuses) : (load cache [row]).accountForStatus s =
      Keyed.lookup DbAccount.key cache.accounts s.authorKey := by
  refine Keyed.lookup_of_subset hnodup (fun a ha => List.mem_of_mem_filter ha) fun a ha hkey => ?_
  refine List.mem_filter.2 ⟨ha, ?_⟩
  rw [decide_eq_true_eq, hkey]
  exact List.mem_map_of_mem hs

end Loading

/-! ### What is shown -/

section Showing

variable {json : SerdeJson} {serverDomain acct : Str} {status x reblog : Status} {id : Str}

theorem ofColumn_column {α : Type} [DecidableEq α] {serde : Serde (List α)} {list : List α}
    (h : serde.ReadsBack list) : serde.ofColumn (serde.column list) = list := by
  unfold Serde.ofColumn Serde.column
  by_cases hnil : list = []
  · rw [if_pos hnil, hnil]
    rfl
  · rw [if_neg hnil]
    exact congrArg (fun read => read.getD []) h

/-- A view without what the viewer has done with the post. -/
def unflagged (view : TimelineStatus) : TimelineStatus :=
  { view with
    favourited := false
    reblogged := false
    bookmarked := false }

def flagged (x : Status) (view : TimelineStatus) : TimelineStatus :=
  { view with
    favourited := x.favourited.getD false
    reblogged := x.reblogged.getD false
    bookmarked := x.bookmarked.getD false }

/-- The view of a row that was saved of a status. -/
theorem dbStatusToView_rowOf (hjson : json.Reads x) :
    dbStatusToView json (rowOf json serverDomain x) (some (accountRowOf json serverDomain x)) =
      unflagged (baseView x serverDomain none none none) := by
  have hpoll : (x.poll.bind json.poll.toString).bind (parsePollView json) =
      x.poll.map pollToView := by
    cases hx : x.poll with
    | none => rfl
    | some poll =>
      have hread := hjson.poll poll hx
      unfold Serde.ReadsBack at hread
      obtain ⟨text, htext, hparse⟩ := Option.bind_eq_some_iff.1 hread
      rw [Option.bind_some, htext, Option.bind_some, parsePollView, hparse]
  have happlication : applicationNameFromJson json
      (x.application.bind json.application.toString) = statusApplicationName x := by
    unfold applicationNameFromJson statusApplicationName
    cases hx : x.application with
    | none => rfl
    | some application =>
      rw [Option.bind_some, hjson.application application hx]
  have hmedia : json.media.ofColumn (json.media.column x.mediaAttachments) = x.mediaAttachments :=
    ofColumn_column hjson.media
  have hemojis : parseCustomEmojiViews json (json.emojis.column x.emojis) =
      customEmojisToViews x.emojis := congrArg customEmojisToViews (ofColumn_column hjson.emojis)
  have haccount : parseCustomEmojiViews json (json.emojis.column x.account.emojis) =
      customEmojisToViews x.account.emojis :=
    congrArg customEmojisToViews (ofColumn_column hjson.accountEmojis)
  unfold unflagged baseView
  rw [← hpoll, ← happlication, ← hemojis, ← haccount]
  conv_rhs => rw [← hmedia]
  rfl

/-- The status that is found as the quote of one that is shown. -/
def quoteOf (status x : Status) : Option Status :=
  x.quoteId.bind fun id => status.graph.find? fun y => y.id = id

/-- The context in which a status is shown that was saved into an empty cache. -/
def contextOf (json : SerdeJson) (serverDomain acct : Str) (status : Status) :
    CachedStatusViewContext :=
  .load (saved json serverDomain acct status.graph) [rowOf json serverDomain status]

theorem self_mem_graph (status : Status) : status ∈ status.graph :=
  List.mem_append_right _ (List.mem_singleton_self status)

theorem reblog_mem_graph (h : status.reblog = some reblog) : reblog ∈ status.graph :=
  List.mem_append_left _ (List.mem_append_left _ (Option.mem_toList.2 h))

theorem rowOf_mem_saved (h : WellFormed serverDomain status) (hx : x ∈ status.graph) :
    rowOf json serverDomain x ∈ (saved json serverDomain acct status.graph).statuses := by
  have hlookup : Keyed.lookup DbStatus.key (saved json serverDomain acct status.graph).statuses
      (x.id, serverDomain) = _ := h.lookup_status x.id
  rw [h.find_graph hx] at hlookup
  exact Keyed.mem_of_lookup hlookup

theorem accountForStatus_rowOf (h : WellFormed serverDomain status) (hx : x ∈ status.graph)
    (hmem : rowOf json serverDomain x ∈ (contextOf json serverDomain acct status).statuses) :
    (contextOf json serverDomain acct status).accountForStatus (rowOf json serverDomain x) =
      some (accountRowOf json serverDomain x) :=
  (accountForStatus_load (lookup_accounts_saved _ _ _ _).1 hmem).trans (h.lookup_account hx)

/-- What is loaded for a key of the status is the row of what has its id. -/
theorem status?_contextOf (h : WellFormed serverDomain status)
    (hloaded : Loaded (saved json serverDomain acct status.graph) (rowOf json serverDomain status)
      (id, serverDomain)) : (contextOf json serverDomain acct status).status? (id, serverDomain) =
      (status.graph.find? fun y => y.id = id).map (rowOf json serverDomain) :=
  (status?_load (nodup_statuses_saved _) (rowOf_mem_saved h (self_mem_graph status)) hloaded).trans
    (h.lookup_status id)

theorem mem_contextOf (h : WellFormed serverDomain status) (hx : x ∈ status.graph)
    (hloaded : Loaded (saved json serverDomain acct status.graph) (rowOf json serverDomain status)
      (x.id, serverDomain)) :
    rowOf json serverDomain x ∈ (contextOf json serverDomain acct status).statuses := by
  have hfound : (contextOf json serverDomain acct status).status? (x.id, serverDomain) = _ :=
    status?_contextOf h hloaded
  rw [h.find_graph hx] at hfound
  exact Keyed.mem_of_lookup hfound

theorem loaded_quote (h : WellFormed serverDomain status) (hx : x = status ∨ status.reblog = some x)
    (hid : x.quoteId = some id) :
    Loaded (saved json serverDomain acct status.graph) (rowOf json serverDomain status)
      (id, serverDomain) := by
  have hquote : (rowOf json serverDomain x).quoteKey = some (id, serverDomain) :=
    congrArg (Option.map (·, serverDomain)) hid
  rcases hx with rfl | hreblog
  · exact .quote hquote
  · have hkey : (rowOf json serverDomain status).reblogKey = some (x.id, serverDomain) :=
      congrArg (fun reblog => (Option.map Status.id reblog).map (·, serverDomain)) hreblog
    have hlookup : Keyed.lookup DbStatus.key (saved json serverDomain acct status.graph).statuses
        (x.id, serverDomain) = _ := h.lookup_status x.id
    rw [h.find_graph (reblog_mem_graph hreblog)] at hlookup
    exact .original hkey hlookup hquote

/-- A status shown from its row, with the row that is found as its quote. -/
theorem statusToViewWithCachedQuote_rowOf (h : WellFormed serverDomain status)
    (hjson : ∀ x ∈ status.graph, json.Reads x) (hx : x = status ∨ status.reblog = some x) :
    (contextOf json serverDomain acct status).statusToViewWithCachedQuote json
        (rowOf json serverDomain x) (some (accountRowOf json serverDomain x)) =
      unflagged (baseView x serverDomain none none ((quoteOf status x).map fun y =>
        unflagged (baseView y serverDomain none none none))) := by
  have hmem : x ∈ status.graph := by
    rcases hx with rfl | hreblog
    · exact self_mem_graph x
    · exact reblog_mem_graph hreblog
  have hquoteKey : (rowOf json serverDomain x).quoteKey = x.quoteId.map (·, serverDomain) := rfl
  unfold CachedStatusViewContext.statusToViewWithCachedQuote quoteOf
  dsimp only
  rw [dbStatusToView_rowOf (hjson x hmem), hquoteKey]
  cases hid : x.quoteId with
  | none => rfl
  | some id =>
    have hloaded : Loaded (saved json serverDomain acct status.graph)
        (rowOf json serverDomain status) (id, serverDomain) := loaded_quote h hx hid
    rw [Option.map_some, Option.bind_some, Option.bind_some, status?_contextOf h hloaded]
    cases hfind : status.graph.find? fun y => y.id = id with
    | none => rfl
    | some y =>
      have hy := List.mem_of_find?_eq_some hfind
      have hyid : y.id = id := by simpa using List.find?_some hfind
      rw [← hyid] at hloaded
      dsimp only [Option.map_some]
      rw [accountForStatus_rowOf h hy (mem_contextOf h hy hloaded),
        dbStatusToView_rowOf (hjson y hy)]
      rfl

/-- With the viewer's row, a view has the flags that the status had. -/
theorem applyViewerState_saved (h : WellFormed serverDomain status) (hx : x ∈ status.graph)
    {view : TimelineStatus} (hsource : view.sourceAcct = some acct)
    (hidentity : view.statusIdentity = .inferred serverDomain x.uri x.id) :
    (saved json serverDomain acct status.graph).applyViewerState view = flagged x view := by
  have hremote : view.statusIdentity.remoteId = x.id := by
    rw [hidentity]
    exact h.ids x (within_of_mem_graph hx)
  have hserver : view.statusIdentity.serverDomain = serverDomain := by
    rw [hidentity]
    exact h.domain
  unfold Cache.applyViewerState
  rw [hsource]
  dsimp only
  rw [hremote, hserver, h.lookup_viewerState, h.find_graph hx]
  unfold flagged
  rw [hsource]
  rfl

theorem dbStatusRefsToViews_saved (h : WellFormed serverDomain status) :
    dbStatusRefsToViews json (saved json serverDomain acct status.graph)
        [⟨status.id, serverDomain, some acct⟩] =
      some [(saved json serverDomain acct status.graph).applyViewerState (withSourceAcct
        ((contextOf json serverDomain acct status).statusToViewResolvingReblog json
          (rowOf json serverDomain status)) (some acct))] := by
  have hlookup : Keyed.lookup DbStatus.key (saved json serverDomain acct status.graph).statuses
      (status.id, serverDomain) = _ := h.lookup_status status.id
  rw [h.find_graph (self_mem_graph status)] at hlookup
  unfold dbStatusRefsToViews
  rw [List.mapM_cons, List.mapM_nil, hlookup]
  rfl

/-! ### Where both agree -/

/-- How a quote is shown live. -/
def quotedView (serverDomain : Str) (quote : Status) : TimelineStatus :=
  match quote.reblog with
  | none => statusToViewBaseWithQuoteDepth 1 quote serverDomain none none
  | some original =>
    let view := statusToViewBaseWithQuoteDepth 1 original serverDomain none none
    { view with
      originalCreatedAt := some view.createdAt
      id := quote.id
      uri := quote.uri
      createdAt := quote.createdAt
      notificationKind := some "reblog".toList }

theorem id_quotedView (quote : Status) : (quotedView serverDomain quote).id = quote.id := by
  unfold quotedView
  cases quote.reblog with
  | none => rfl
  | some original => rfl

/-- A post without a quote is shown without one if no saved status has the id that it quotes.  A
post with one is shown with it if it was saved, has nothing that its row lacks, and the viewer has
done nothing with it. -/
def QuoteKept (saved : List Status) (status : Status) : Prop :=
  match status.quote with
  | none => ∀ id ∈ status.quoteId, ∀ x ∈ saved, x.id ≠ id
  | some quote => status.quoteId = some quote.id ∧ quote ∈ saved ∧ quote.reblog = none ∧
      quote.quote = none ∧ quote.favourited ≠ some true ∧ quote.reblogged ≠ some true ∧
      quote.bookmarked ≠ some true

/-- A boost is shown as it was if who boosts has a name. -/
def Kept (status : Status) : Prop :=
  match status.reblog with
  | none => QuoteKept status.graph status
  | some reblog => status.account.displayName ≠ [] ∧ QuoteKept status.graph reblog

theorem getD_false_iff {flag : Option Bool} : flag.getD false = false ↔ flag ≠ some true := by
  rcases flag with _ | _ | _ <;> decide

theorem unflagged_eq_quotedView_iff {quote : Status} :
    unflagged (baseView quote serverDomain none none none) = quotedView serverDomain quote ↔
      quote.reblog = none ∧ quote.quote = none ∧ quote.favourited ≠ some true ∧
        quote.reblogged ≠ some true ∧ quote.bookmarked ≠ some true := by
  unfold quotedView
  cases quote.reblog with
  | some original =>
    refine iff_of_false (fun heq => ?_) fun h => by cases h.1
    have hkind := congrArg TimelineStatus.notificationKind heq
    cases hkind
  | none =>
    constructor
    · intro heq
      refine ⟨rfl, ?_, ?_, ?_, ?_⟩
      · have hquote : none = quote.quote.map _ := congrArg TimelineStatus.quote heq
        exact Option.map_eq_none_iff.1 hquote.symm
      · exact getD_false_iff.1 (congrArg TimelineStatus.favourited heq).symm
      · exact getD_false_iff.1 (congrArg TimelineStatus.reblogged heq).symm
      · exact getD_false_iff.1 (congrArg TimelineStatus.bookmarked heq).symm
    · rintro ⟨-, hquote, hfavourited, hreblogged, hbookmarked⟩
      unfold statusToViewBaseWithQuoteDepth unflagged baseView
      rw [hquote, getD_false_iff.2 hfavourited, getD_false_iff.2 hreblogged,
        getD_false_iff.2 hbookmarked]
      rfl

theorem quotes_agree_iff (h : WellFormed serverDomain status) (hx : Within x status) :
    ((quoteOf status x).map fun y => unflagged (baseView y serverDomain none none none)) =
        x.quote.map (quotedView serverDomain) ↔ QuoteKept status.graph x := by
  unfold QuoteKept quoteOf
  cases hquote : x.quote with
  | none =>
    rw [Option.map_none, Option.map_eq_none_iff, Option.bind_eq_none_iff]
    refine forall₂_congr fun id _ => ?_
    rw [List.find?_eq_none]
    simp
  | some quote =>
    have hwithin := hx.quoted hquote
    rw [Option.map_some, Option.map_eq_some_iff]
    constructor
    · rintro ⟨y, hy, hview⟩
      obtain ⟨id, hid, hfind⟩ := Option.bind_eq_some_iff.1 hy
      have hmem := List.mem_of_find?_eq_some hfind
      have hyid : y.id = id := by simpa using List.find?_some hfind
      have hsame : y.id = quote.id :=
        (congrArg TimelineStatus.id hview).trans (id_quotedView quote)
      obtain rfl := h.statuses y quote (within_of_mem_graph hmem) hwithin hsame
      exact ⟨hid.trans (congrArg some hyid.symm), hmem, unflagged_eq_quotedView_iff.1 hview⟩
    · rintro ⟨hid, hmem, hshown⟩
      refine ⟨quote, ?_, unflagged_eq_quotedView_iff.2 hshown⟩
      rw [hid, Option.bind_some]
      exact h.find_graph hmem

/-- A status that is not a boost, with its flags. -/
theorem cached_of_plain (h : WellFormed serverDomain status)
    (hjson : ∀ x ∈ status.graph, json.Reads x) (hreblog : status.reblog = none) :
    (saved json serverDomain acct status.graph).applyViewerState (withSourceAcct
        ((contextOf json serverDomain acct status).statusToViewResolvingReblog json
          (rowOf json serverDomain status)) (some acct)) =
      withSourceAcct (baseView status serverDomain none none ((quoteOf status status).map fun y =>
        unflagged (baseView y serverDomain none none none))) (some acct) := by
  have hself := self_mem_graph status
  have hkey : (rowOf json serverDomain status).reblogKey = none :=
    congrArg (fun reblog => (Option.map Status.id reblog).map (·, serverDomain)) hreblog
  have hview : (contextOf json serverDomain acct status).statusToViewResolvingReblog json
      (rowOf json serverDomain status) = unflagged (baseView status serverDomain none none
        ((quoteOf status status).map fun y =>
          unflagged (baseView y serverDomain none none none))) := by
    unfold CachedStatusViewContext.statusToViewResolvingReblog
    dsimp only
    rw [hkey, accountForStatus_rowOf h hself (mem_contextOf h hself .self)]
    exact statusToViewWithCachedQuote_rowOf h hjson (Or.inl rfl)
  rw [hview, applyViewerState_saved h hself rfl rfl]
  rfl

/-- A view as the boost of its post. -/
def boosted (status : Status) (name : Str) (view : TimelineStatus) : TimelineStatus :=
  { view with
    id := status.id
    uri := status.uri
    originalCreatedAt := some view.createdAt
    createdAt := status.createdAt
    notificationLabel :=
      some (booster status.account.displayName status.account.acct ++ " boosted".toList)
    notificationKind := some "reblog".toList
    notificationAvatar := some status.account.avatar
    notificationAccountId := some status.account.id
    notificationAcct := some (atAcct status.account.acct)
    notificationDisplayName := some name
    notificationAccountEmojis := customEmojisToViews status.account.emojis }

theorem statusToView_of_reblog (hreblog : status.reblog = some reblog) :
    statusToView status serverDomain none = boosted status status.account.displayName
      (baseView reblog serverDomain none none (reblog.quote.map (quotedView serverDomain))) := by
  unfold statusToView
  rw [hreblog]
  rfl

/-- A boost, with the flags of the original. -/
theorem cached_of_reblog (h : WellFormed serverDomain status)
    (hjson : ∀ x ∈ status.graph, json.Reads x) (hreblog : status.reblog = some reblog) :
    (saved json serverDomain acct status.graph).applyViewerState (withSourceAcct
        ((contextOf json serverDomain acct status).statusToViewResolvingReblog json
          (rowOf json serverDomain status)) (some acct)) =
      withSourceAcct (boosted status (booster status.account.displayName status.account.acct)
        (baseView reblog serverDomain none none ((quoteOf status reblog).map fun y =>
          unflagged (baseView y serverDomain none none none)))) (some acct) := by
  have hself := self_mem_graph status
  have hmem := reblog_mem_graph hreblog
  have hkey : (rowOf json serverDomain status).reblogKey = some (reblog.id, serverDomain) :=
    congrArg (fun reblog => (Option.map Status.id reblog).map (·, serverDomain)) hreblog
  have hloaded : Loaded (saved json serverDomain acct status.graph)
      (rowOf json serverDomain status) (reblog.id, serverDomain) := .reblog hkey
  have hstatus : (contextOf json serverDomain acct status).status? (reblog.id, serverDomain) =
      some (rowOf json serverDomain reblog) := by
    rw [status?_contextOf h hloaded, h.find_graph hmem]
    rfl
  have hemojis : parseCustomEmojiViews json (json.emojis.column status.account.emojis) =
      customEmojisToViews status.account.emojis :=
    congrArg customEmojisToViews (ofColumn_column (hjson status hself).accountEmojis)
  have hview : (contextOf json serverDomain acct status).statusToViewResolvingReblog json
      (rowOf json serverDomain status) =
        boosted status (booster status.account.displayName status.account.acct)
          (unflagged (baseView reblog serverDomain none none ((quoteOf status reblog).map fun y =>
            unflagged (baseView y serverDomain none none none)))) := by
    unfold CachedStatusViewContext.statusToViewResolvingReblog
    dsimp only
    rw [hkey, Option.bind_some, hstatus,
      accountForStatus_rowOf h hself (mem_contextOf h hself .self)]
    dsimp only
    rw [accountForStatus_rowOf h hmem (mem_contextOf h hmem hloaded),
      statusToViewWithCachedQuote_rowOf h hjson (Or.inr hreblog)]
    unfold boosted
    rw [← hemojis]
    rfl
  rw [hview, applyViewerState_saved h hmem rfl rfl]
  rfl

end Showing

/-- Both views of a post are the same for exactly the posts that are kept. -/
theorem cached_eq_live_iff (json : SerdeJson) (serverDomain acct : Str) (status : Status)
    (h : WellFormed serverDomain status) (hjson : ∀ x ∈ status.graph, json.Reads x) :
    dbStatusRefsToViews json (persistStatusGraph json status serverDomain (some acct) .empty)
        [⟨status.id, serverDomain, some acct⟩] =
      some [withSourceAcct (statusToView status serverDomain none) (some acct)] ↔
        Kept status := by
  change dbStatusRefsToViews json (saved json serverDomain acct status.graph) _ = _ ↔ _
  rw [dbStatusRefsToViews_saved h, Option.some_inj, List.cons.injEq]
  unfold Kept
  cases hreblog : status.reblog with
  | none =>
    have hlive : statusToView status serverDomain none = baseView status serverDomain none none
        (status.quote.map (quotedView serverDomain)) := by
      unfold statusToView
      rw [hreblog]
      rfl
    rw [cached_of_plain h hjson hreblog, hlive, ← quotes_agree_iff h (.self status)]
    constructor
    · rintro ⟨heq, -⟩
      exact congrArg TimelineStatus.quote heq
    · intro heq
      rw [heq]
      exact ⟨rfl, rfl⟩
  | some reblog =>
    have hwithin : Within reblog status := .reblog hreblog (.self reblog)
    dsimp only
    rw [cached_of_reblog h hjson hreblog, statusToView_of_reblog hreblog,
      ← quotes_agree_iff h hwithin]
    constructor
    · rintro ⟨heq, -⟩
      refine ⟨fun hnameless => ?_, congrArg TimelineStatus.quote heq⟩
      have hname := congrArg TimelineStatus.notificationDisplayName heq
      replace hname : some (booster status.account.displayName status.account.acct) =
        some status.account.displayName := hname
      unfold booster at hname
      rw [if_pos hnameless, hnameless] at hname
      cases hname
    · rintro ⟨hnamed, heq⟩
      rw [heq]
      unfold booster
      rw [if_neg hnamed]
      exact ⟨rfl, rfl⟩

/-! ### A boost of a quote -/

/-- A post of one account, with nothing but its id. -/
def post (id : Str) : Status where
  id := id
  uri := []
  url := none
  createdAt := "2025-01-01T00:00:00+00:00"
  account := ⟨"1", "alice", "Alice", [], []⟩
  content := []
  visibility := "public"
  sensitive := false
  spoilerText := []
  mediaAttachments := []
  emojis := []
  reblogsCount := 0
  favouritesCount := 0
  repliesCount := 0
  inReplyToId := none
  inReplyToAccountId := none
  language := none
  favourited := some true
  reblogged := none
  bookmarked := none
  poll := none
  application := none
  quoteId := none
  quoteOriginalUrl := none
  reblog := none
  quote := none

def quotedPost : Status := { post "10" with favourited := some false }

def quotingPost : Status :=
  { post "20" with
    quoteId := some "10"
    quote := some quotedPost }

def boostOfQuote : Status := { post "30" with reblog := some quotingPost }

/-- Reads and writes the empty list. -/
def emptyLists {α : Type} : Serde (List α) where
  toString _ := some "[]"
  fromStr text := if text = "[]".toList then some [] else none

def noJson : SerdeJson where
  emojis := emptyLists
  media := emptyLists
  poll := ⟨fun _ => none, fun _ => none⟩
  application := ⟨fun _ => none, fun _ => none⟩

theorem within_quotingPost {x : Status} (h : Within x quotingPost) :
    x = quotingPost ∨ x = quotedPost := by
  cases h with
  | self => exact Or.inl rfl
  | reblog h _ => cases h
  | quote h within =>
    cases h
    cases within with
    | self => exact Or.inr rfl
    | reblog h _ => cases h
    | quote h _ => cases h

theorem within_boostOfQuote {x : Status} (h : Within x boostOfQuote) :
    x = boostOfQuote ∨ x = quotingPost ∨ x = quotedPost := by
  cases h with
  | self => exact Or.inl rfl
  | reblog h within =>
    cases h
    exact Or.inr (within_quotingPost within)
  | quote h _ => cases h

theorem wellFormed_boostOfQuote : WellFormed "example.test" boostOfQuote where
  statuses x y hx hy hid := by
    rcases within_boostOfQuote hx with rfl | rfl | rfl <;>
      rcases within_boostOfQuote hy with rfl | rfl | rfl <;>
        first | rfl | exact absurd hid (by decide)
  accounts x y hx hy _ := by
    rcases within_boostOfQuote hx with rfl | rfl | rfl <;>
      rcases within_boostOfQuote hy with rfl | rfl | rfl <;> rfl
  ids x hx := by
    rcases within_boostOfQuote hx with rfl | rfl | rfl <;> decide
  domain := by decide

theorem wellFormed_quotingPost : WellFormed "example.test" quotingPost where
  statuses x y hx hy hid :=
    wellFormed_boostOfQuote.statuses x y (.reblog rfl hx) (.reblog rfl hy) hid
  accounts x y hx hy hid :=
    wellFormed_boostOfQuote.accounts x y (.reblog rfl hx) (.reblog rfl hy) hid
  ids x hx := wellFormed_boostOfQuote.ids x (.reblog rfl hx)
  domain := wellFormed_boostOfQuote.domain

theorem reads_of_plain {x : Status} (hemojis : x.emojis = []) (haccount : x.account.emojis = [])
    (hmedia : x.mediaAttachments = []) (hpoll : x.poll = none)
    (happlication : x.application = none) : noJson.Reads x where
  emojis := by
    rw [hemojis]
    rfl
  accountEmojis := by
    rw [haccount]
    rfl
  media := by
    rw [hmedia]
    rfl
  poll poll h := by
    rw [hpoll] at h
    cases h
  application application h := by
    rw [happlication] at h
    cases h

/-- The boost of a quote is shown without the quote. -/
theorem not_cached_eq_live : ¬ ∀ (json : SerdeJson) (serverDomain acct : Str) (status : Status),
    WellFormed serverDomain status → (∀ x ∈ status.graph, json.Reads x) →
      dbStatusRefsToViews json (persistStatusGraph json status serverDomain (some acct) .empty)
          [⟨status.id, serverDomain, some acct⟩] =
        some [withSourceAcct (statusToView status serverDomain none) (some acct)] := by
  intro h
  have hreads : ∀ x ∈ boostOfQuote.graph, noJson.Reads x := by
    intro x hx
    rcases within_boostOfQuote (within_of_mem_graph hx) with rfl | rfl | rfl <;>
      exact reads_of_plain rfl rfl rfl rfl rfl
  have heq := h noJson "example.test" "alice@example.test" boostOfQuote wellFormed_boostOfQuote
    hreads
  have hquote := congrArg (fun views =>
    ((views.bind List.head?).bind TimelineStatus.quote).isSome) heq
  exact absurd hquote (by decide)

/-- The quote itself is shown as it was. -/
theorem cached_eq_live_quotingPost :
    dbStatusRefsToViews noJson
        (persistStatusGraph noJson quotingPost "example.test" (some "alice@example.test") .empty)
        [⟨"20", "example.test", some "alice@example.test"⟩] =
      some [withSourceAcct (statusToView quotingPost "example.test" none)
        (some "alice@example.test")] := by
  have hreads : ∀ x ∈ quotingPost.graph, noJson.Reads x := by
    intro x hx
    rcases within_quotingPost (within_of_mem_graph hx) with rfl | rfl <;>
      exact reads_of_plain rfl rfl rfl rfl rfl
  have hkept : Kept quotingPost :=
    ⟨rfl, by simp [quotingPost, Status.graph, post], rfl, rfl, by decide, by decide, by decide⟩
  exact (cached_eq_live_iff noJson "example.test" "alice@example.test" quotingPost
    wellFormed_quotingPost hreads).2 hkept

end Awayuki.Hydration
