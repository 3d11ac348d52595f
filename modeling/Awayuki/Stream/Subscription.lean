import Awayuki.Kq.Arguments
import Awayuki.Kq.SourceSuperset
import Awayuki.Outbox.Delivery
import Awayuki.Stream.MicroBatch

/-!
# Stream subscriptions

Which streams a session opens for the columns of the timeline, from
`application/desktop/stream_subscription.rs`, and whether they carry the posts that the sources of
KQ columns look for.

* `streamTypesForColumns`: the plan of one session;
* `Reaches`: does a post of a stream match a source?
* `Spelled`: the source names the account, its list or its tag as the planner reads it;
* `subscription_covers_iff`: exactly then the plan has a stream that reaches the source, unless
  something else asks for one.
-/

namespace Awayuki.Subscription

open Kq MicroBatch
open Outbox (ServerKind)

/-! ### Providers -/

variable {argument : Str} {streamType : StreamType}

def ServerKind.fromDbStr (s : Str) : ServerKind :=
  if s = "paon".toList then .paon
  else if s = "misskey".toList then .misskey
  else if s = "bluesky".toList then .bluesky
  else .mastodon

inductive TimelineOperation
  | home | «public» | «local» | lists | feeds | hashtags | notifications | bookmarks | favourites
  deriving DecidableEq, Repr

structure TimelineCapabilities where
  home : Bool
  «public» : Bool
  «local» : Bool
  lists : Bool
  feeds : Bool
  hashtags : Bool
  notifications : Bool
  bookmarks : Bool
  favourites : Bool

def TimelineCapabilities.supports (capabilities : TimelineCapabilities) :
    TimelineOperation → Bool
  | .home => capabilities.home
  | .public => capabilities.public
  | .local => capabilities.local
  | .lists => capabilities.lists
  | .feeds => capabilities.feeds
  | .hashtags => capabilities.hashtags
  | .notifications => capabilities.notifications
  | .bookmarks => capabilities.bookmarks
  | .favourites => capabilities.favourites

/-- The timelines of `ApiClient::capabilities_for_kind`. -/
def timelinesForKind : ServerKind → TimelineCapabilities
  | .mastodon | .paon | .misskey => ⟨true, true, true, true, false, true, true, true, true⟩
  | .bluesky => ⟨true, false, false, true, true, true, true, true, false⟩

def providerSupports (serverKind : ServerKind) (operation : TimelineOperation) : Bool :=
  (timelinesForKind serverKind).supports operation

/-! ### Columns -/

structure ColumnSummary where
  columnType : Str
  columnParam : Option Str
  accountAcct : Option Str

/-- What `plain_column_param` asks of `serde_json`: the `value` of a text that is an object with
`filters`, if it is a string; any other text is not of this form. -/
class ColumnJson where
  filtered : Str → Option (Option Str)

/-- The signed-in session for which streams are planned. -/
structure Session where
  sourceAcct : Option Str
  sourceAccountId : Option Str
  serverKind : ServerKind

deriving instance DecidableEq for StreamType

def pushStreamType (streamTypes : List StreamType) (streamType : StreamType) : List StreamType :=
  if streamType ∈ streamTypes then streamTypes else streamTypes ++ [streamType]

def columnStreamMatchesSource (column : ColumnSummary) (session : Session) : Bool :=
  match column.accountAcct.filter fun acct => !acct.isEmpty with
  | none => false
  | some requested => session.sourceAcct == some requested

/-- The parameter of a column that needs one. -/
def columnId (column : ColumnSummary) (make : Str → StreamType) : List StreamType :=
  ((column.columnParam.filter fun id => !id.isEmpty).map make).toList

/-! ### Sources -/

def accountSelectorMatches (selector sourceAcct : Str) (session : Session) : Bool :=
  let normalized := withoutMarker selector
  let rawAcct := bareAcct sourceAcct
  session.sourceAccountId.any (normalized == ·) ||
    normalized.eqIgnoreAsciiCase rawAcct ||
    session.serverKind = .bluesky && (rawAcct.rsplitOnce '@').any fun (handle, domain) =>
      handle.contains "." && !domain.isEmpty && normalized.eqIgnoreAsciiCase handle

def sourceMatchesSession (source : SourceSpec) (session : Session) : Bool :=
  source.arguments.isEmpty || source.arguments.any (·.trim == ['*']) ||
    session.sourceAcct.any fun acct =>
      source.arguments.any (accountSelectorMatches · acct session)

def listIdForSession (argument : Str) (session : Session) : Option Str :=
  let argument := argument.trim
  if argument.isEmpty then none
  else
    match argument.splitOnce '/' with
    | none => some argument
    | some (selector, listId) =>
      let selector := selector.trim
      if !(selector.startsWith "@" || selector.contains "@" || selector.contains ".") then
        some argument
      else if session.sourceAcct.any (accountSelectorMatches selector · session) then
        let listId := listId.trim
        if listId.isEmpty then none else some listId
      else none

def kqUserBaseline (serverKind : ServerKind) : List StreamType :=
  if providerSupports serverKind .home then [.user] else []

/-- The streams that one source asks for. -/
def kqSourceStreams (session : Session) (source : SourceSpec) : List StreamType :=
  match source.kind with
  | .local | .search | .track | .conversation | .user => kqUserBaseline session.serverKind
  | .mentions | .direct | .bookmarks | .favourites | .home =>
    if sourceMatchesSession source session then kqUserBaseline session.serverKind else []
  | .public =>
    if sourceMatchesSession source session && providerSupports session.serverKind .public then
      [.public]
    else []
  | .localPublic =>
    if sourceMatchesSession source session && providerSupports session.serverKind .local then
      [.publicLocal]
    else []
  | .hashtag =>
    if providerSupports session.serverKind .hashtags then
      (source.arguments.map cleanTag).filterMap fun tag =>
        if tag.isEmpty then none else some (.hashtag tag)
    else []
  | .list =>
    if providerSupports session.serverKind .lists then
      (source.arguments.filterMap (listIdForSession · session)).map .list
    else []

section

variable [ColumnJson] [CharTable] [RegexCrate]

def plainColumnParam (columnParam : Option Str) : Option Str :=
  columnParam.bind fun raw => (ColumnJson.filtered raw).getD (some raw)

/-- `add_kq_stream_types`: a query that does not compile asks for nothing. -/
def kqStreams (session : Session) (column : ColumnSummary) : List StreamType :=
  match plainColumnParam column.columnParam with
  | none => []
  | some query =>
    match compileQuery query with
    | .error _ => []
    | .ok compiled => compiled.sources.flatMap (kqSourceStreams session)

/-- The streams that one column asks for, in order. -/
def columnStreams (session : Session) (column : ColumnSummary) : List StreamType :=
  let isType (name : String) : Bool := column.columnType == name.toList
  if isType "home" then [.user]
  else if isType "public" && providerSupports session.serverKind .public then [.public]
  else if isType "notification" then [.userNotification]
  else if isType "local" && columnStreamMatchesSource column session then [.publicLocal]
  else if isType "list" && columnStreamMatchesSource column session then columnId column .list
  else if isType "feed" && session.serverKind = .bluesky &&
      columnStreamMatchesSource column session then
    columnId column .feed
  else if isType "hashtag" && columnStreamMatchesSource column session then
    columnId column .hashtag
  else if isType "kq" then kqStreams session column
  else []

/-- `stream_types_for_columns`. -/
def streamTypesForColumns (columns : List ColumnSummary) (session : Session) : List StreamType :=
  let streamTypes := columns.foldl (fun streamTypes column =>
    (columnStreams session column).foldl pushStreamType streamTypes) []
  if session.serverKind ≠ .bluesky ∧ .user ∈ streamTypes then
    streamTypes.filter fun streamType => streamType ≠ .userNotification
  else streamTypes

end

/-! ### The plan -/

theorem mem_foldl_push {streamTypes more : List StreamType} :
    streamType ∈ more.foldl pushStreamType streamTypes ↔
      streamType ∈ streamTypes ∨ streamType ∈ more := by
  induction more generalizing streamTypes with
  | nil => simp
  | cons first more ih =>
    have hpush : streamType ∈ pushStreamType streamTypes first ↔
        streamType ∈ streamTypes ∨ streamType = first := by
      unfold pushStreamType
      split_ifs with hfirst
      · exact (or_iff_left_of_imp fun heq => heq ▸ hfirst).symm
      · rw [List.mem_append, List.mem_singleton]
    rw [List.foldl_cons, ih, hpush, List.mem_cons, or_assoc]

section

variable [ColumnJson] [CharTable] [RegexCrate] {session : Session} {column : ColumnSummary}

/-- What any column asks for is planned, a notification stream apart. -/
theorem mem_streamTypesForColumns {columns : List ColumnSummary}
    (h : streamType ≠ .userNotification) : streamType ∈ streamTypesForColumns columns session ↔
      ∃ column ∈ columns, streamType ∈ columnStreams session column := by
  have hfold : ∀ streamTypes, streamType ∈ columns.foldl (fun streamTypes column =>
      (columnStreams session column).foldl pushStreamType streamTypes) streamTypes ↔
      streamType ∈ streamTypes ∨ ∃ column ∈ columns, streamType ∈ columnStreams session column := by
    induction columns with
    | nil => simp
    | cons column columns ih =>
      intro streamTypes
      rw [List.foldl_cons, ih, mem_foldl_push, or_assoc]
      simp
  unfold streamTypesForColumns
  dsimp only
  split_ifs
  · rw [List.mem_filter, hfold, decide_eq_true_eq, and_iff_left h]
    simp
  · rw [hfold]
    simp

theorem columnStreams_kq (h : column.columnType = "kq".toList) :
    columnStreams session column = kqStreams session column := by
  unfold columnStreams
  rw [h]
  rfl

theorem kqStreams_eq {query : Str} {compiled : CompiledQuery}
    (hparam : plainColumnParam column.columnParam = some query)
    (hcompile : compileQuery query = .ok compiled) :
    kqStreams session column = compiled.sources.flatMap (kqSourceStreams session) := by
  unfold kqStreams
  rw [hparam]
  dsimp only
  rw [hcompile]

end

/-! ### What the planner reads -/

/-- The session of a saved login account. -/
def sessionOf (account : LoginAccountIdentity) : Session where
  sourceAcct := some account.acct
  sourceAccountId := some account.accountId
  serverKind := ServerKind.fromDbStr account.serverKind

/-- The post is stored for this account alone, under this timeline key alone. -/
def underKey (context : EvaluationContext) (account : LoginAccountIdentity) (key : Str) :
    EvaluationContext :=
  { context with
    loginAccounts := [account]
    memberships := [⟨(normalizeTimelineMembership key).1, account.acct,
      (normalizeTimelineMembership key).2⟩] }

/-- The planner reads the selector as this account. -/
def Names (selector : Str) (account : LoginAccountIdentity) : Prop :=
  withoutMarker selector = account.accountId ∨
    (withoutMarker selector).eqIgnoreAsciiCase (bareAcct account.acct) = true ∨
    ServerKind.fromDbStr account.serverKind = .bluesky ∧ ∃ handle domain,
      (bareAcct account.acct).rsplitOnce '@' = some (handle, domain) ∧
        handle.contains "." = true ∧ domain ≠ [] ∧
        (withoutMarker selector).eqIgnoreAsciiCase handle = true

theorem accountSelectorMatches_iff {selector : Str} {account : LoginAccountIdentity} :
    accountSelectorMatches selector account.acct (sessionOf account) = true ↔
      Names selector account := by
  have hhandle : ((bareAcct account.acct).rsplitOnce '@').any (fun split =>
      split.1.contains "." && !split.2.isEmpty &&
        (withoutMarker selector).eqIgnoreAsciiCase split.1) = true ↔ ∃ handle domain,
      (bareAcct account.acct).rsplitOnce '@' = some (handle, domain) ∧
        handle.contains "." = true ∧ domain ≠ [] ∧
        (withoutMarker selector).eqIgnoreAsciiCase handle = true := by
    cases (bareAcct account.acct).rsplitOnce '@' with
    | none => simp
    | some split =>
      obtain ⟨handle, domain⟩ := split
      simp [and_assoc]
  have hid : (sessionOf account).sourceAccountId.any (withoutMarker selector == ·) = true ↔
      withoutMarker selector = account.accountId := beq_iff_eq
  unfold accountSelectorMatches
  dsimp only
  rw [Names, ← hhandle, Bool.or_eq_true, Bool.or_eq_true, hid, Bool.and_eq_true,
    decide_eq_true_eq, or_assoc]
  rfl

variable {account : LoginAccountIdentity} {source : SourceSpec}

theorem sourceMatchesSession_iff : sourceMatchesSession source (sessionOf account) = true ↔
    source.arguments = [] ∨ ∃ selector ∈ source.arguments,
      selector.trim = ['*'] ∨ Names selector account := by
  have hany : (sessionOf account).sourceAcct.any (fun acct =>
      source.arguments.any (accountSelectorMatches · acct (sessionOf account))) = true ↔
      ∃ selector ∈ source.arguments, Names selector account := by
    show source.arguments.any (accountSelectorMatches · account.acct (sessionOf account)) = true ↔ _
    rw [List.any_eq_true]
    simp only [accountSelectorMatches_iff]
  rw [sourceMatchesSession, Bool.or_eq_true, Bool.or_eq_true, hany, List.isEmpty_iff,
    List.any_eq_true, or_assoc]
  refine or_congr_right ?_
  rw [← exists_or]
  refine exists_congr fun selector => ?_
  rw [beq_iff_eq, ← and_or_left]

/-! ### Lists -/

theorem contains_singleton {s : Str} {c : Char} : s.contains [c] = true ↔ c ∈ s := by
  rw [Str.contains_iff, List.singleton_infix_iff]

theorem withoutMarker_trim (selector : Str) :
    withoutMarker selector.trim = withoutMarker selector := by
  rw [withoutMarker, withoutMarker, Str.trim_trim]

/-- Does the text before the first slash look like an account? -/
theorem accountShaped_iff (selector : Str) :
    (selector.trim.startsWith "@" || selector.trim.contains "@" || selector.trim.contains ".") =
      (selector.contains "@" || selector.contains "." || selector.startsWith "@") := by
  have hstarts : ∀ s : Str, s.startsWith "@" = true → '@' ∈ s := by
    intro s hs
    rw [Str.startsWith, List.isPrefixOf_iff_prefix] at hs
    exact hs.subset (List.mem_singleton_self _)
  have hmem : ∀ c, Str.isWhitespace c = false →
      (selector.trim.contains [c] = true ↔ selector.contains [c] = true) := by
    intro c hc
    rw [contains_singleton, contains_singleton, Str.mem_trim_iff hc]
  have hat := hmem '@' (by decide)
  have hdot := hmem '.' (by decide)
  have hstartsTrim : selector.trim.startsWith "@" = true → selector.contains ['@'] = true :=
    fun h => hat.1 (contains_singleton.2 (hstarts _ h))
  have hstartsRaw : selector.startsWith "@" = true → selector.contains ['@'] = true :=
    fun h => contains_singleton.2 (hstarts _ h)
  rw [Bool.eq_iff_iff, Bool.or_eq_true, Bool.or_eq_true, Bool.or_eq_true, Bool.or_eq_true]
  constructor
  · rintro ((h | h) | h)
    · exact Or.inl (Or.inl (hstartsTrim h))
    · exact Or.inl (Or.inl (hat.1 h))
    · exact Or.inl (Or.inr (hdot.1 h))
  · rintro ((h | h) | h)
    · exact Or.inl (Or.inr (hat.2 h))
    · exact Or.inr (hdot.2 h)
    · exact Or.inl (Or.inr (hat.2 (hstartsRaw h)))

/-- The list for which the planner opens a stream is the one that the evaluator looks for. -/
theorem listIdForSession_eq_iff (htrim : argument.trim = argument) (hne : argument ≠ []) :
    listIdForSession argument (sessionOf account) = some (splitScopedListId argument).2 ↔
      ∀ selector, (splitScopedListId argument).1 = some selector →
        Names selector account ∧ (splitScopedListId argument).2 ≠ [] ∧
          (splitScopedListId argument).2.trim = (splitScopedListId argument).2 := by
  have hempty : argument.isEmpty = false := by
    rw [← Bool.not_eq_true, List.isEmpty_iff]
    exact hne
  unfold listIdForSession splitScopedListId
  dsimp only
  rw [htrim, hempty, if_neg Bool.false_ne_true]
  cases argument.splitOnce '/' with
  | none => simp
  | some split =>
    obtain ⟨selector, listId⟩ := split
    dsimp only
    rw [accountShaped_iff]
    by_cases hshaped :
        (selector.contains "@" || selector.contains "." || selector.startsWith "@") = true
    · rw [hshaped, if_neg (by simp), if_pos rfl]
      have hnames : (sessionOf account).sourceAcct.any
          (accountSelectorMatches selector.trim · (sessionOf account)) = true ↔
          Names selector account := by
        show accountSelectorMatches selector.trim account.acct (sessionOf account) = true ↔ _
        rw [accountSelectorMatches_iff, Names, withoutMarker_trim, Names]
      simp only [Option.some.injEq, forall_eq']
      by_cases hname : Names selector account
      · rw [if_pos (hnames.2 hname)]
        split_ifs with htrimmed
        · rw [List.isEmpty_iff] at htrimmed
          refine iff_of_false (by simp) ?_
          rintro ⟨-, hne, heq⟩
          rw [htrimmed] at heq
          exact hne heq.symm
        · rw [Option.some.injEq]
          rw [List.isEmpty_iff] at htrimmed
          constructor
          · intro heq
            exact ⟨hname, fun hnil => htrimmed (by rw [hnil]; rfl), heq⟩
          · exact fun h => h.2.2
      · rw [if_neg fun h => hname (hnames.1 h)]
        exact iff_of_false (by simp) fun h => hname h.1
    · rw [Bool.not_eq_true] at hshaped
      rw [hshaped, Bool.not_false, if_pos rfl, if_neg Bool.false_ne_true]
      simp

/-! ### What the evaluator selects -/

section

variable [Icu]

/-- The evaluator looks for this account's posts when it evaluates the source. -/
def Selects (source : SourceSpec) (loginAccounts : List LoginAccountIdentity)
    (account : LoginAccountIdentity) : Prop :=
  match source.kind with
  | .home | .public | .localPublic =>
    account ∈ selectedLoginAccounts source.arguments loginAccounts
  | .list => ∃ argument ∈ source.arguments,
    account ∈ selectedLoginAccounts (splitScopedListId argument).1.toList loginAccounts
  | .hashtag => account ∈ loginAccounts
  | _ => False

/-- The source is spelled so that the planner finds the account, the list or the tag. -/
def Spelled (account : LoginAccountIdentity) (source : SourceSpec) : Prop :=
  match source.kind with
  | .home | .public | .localPublic =>
    source.arguments = [] ∨ ∃ selector ∈ source.arguments,
      selector.trim = ['*'] ∨ Names selector account
  | .list => ∃ argument ∈ source.arguments, ∀ selector,
    (splitScopedListId argument).1 = some selector →
      Names selector account ∧ (splitScopedListId argument).2 ≠ [] ∧
        (splitScopedListId argument).2.trim = (splitScopedListId argument).2
  | .hashtag => ∃ tag ∈ source.arguments,
    cleanTag tag ≠ [] ∧ hashtagParameterMatches (cleanTag tag) tag = true
  | _ => False

/-- What the server has to support for the source. -/
def operation : SourceKind → TimelineOperation
  | .public => .public
  | .localPublic => .local
  | .list => .lists
  | .hashtag => .hashtags
  | _ => .home

theorem selected_alone {arguments : List Str} {loginAccounts : List LoginAccountIdentity}
    {account : LoginAccountIdentity}
    (h : account ∈ selectedLoginAccounts arguments loginAccounts) :
    account ∈ selectedLoginAccounts arguments [account] := by
  unfold selectedLoginAccounts at h ⊢
  split_ifs at h ⊢
  · exact List.mem_singleton_self _
  · obtain ⟨selector, hselector, hmem⟩ := List.mem_flatMap.1 (Keyed.mem_of_mem_firsts h)
    have hmatches := (List.mem_filter.1 hmem).2
    have halone : account ∈ arguments.flatMap fun selector =>
        [account].filter fun account => loginAccountMatchesSelector account selector :=
      List.mem_flatMap.2 ⟨selector, hselector,
        List.mem_filter.2 ⟨List.mem_singleton_self _, hmatches⟩⟩
    obtain ⟨other, hother, -⟩ : ∃ other ∈ Keyed.firsts
        (fun account => Icu.fold (loginProviderAcct account)) (arguments.flatMap fun selector =>
          [account].filter fun account => loginAccountMatchesSelector account selector),
        Icu.fold (loginProviderAcct other) = Icu.fold (loginProviderAcct account) :=
      Keyed.exists_mem_firsts halone
    have heq : other = account := by
      obtain ⟨_, -, hin⟩ := List.mem_flatMap.1 (Keyed.mem_of_mem_firsts hother)
      exact List.mem_singleton.1 (List.mem_filter.1 hin).1
    rwa [heq] at hother

theorem collapseMembershipScopes_eq_nil {matching : List Str} :
    collapseMembershipScopes matching = [] ↔ matching = [] := by
  constructor
  · intro h
    by_contra hne
    have hfirsts : Keyed.firsts Icu.fold matching ≠ [] := fun hnil =>
      hne (Keyed.firsts_eq_nil.1 hnil)
    obtain ⟨first, rest, heq⟩ := List.exists_cons_of_ne_nil hfirsts
    unfold collapseMembershipScopes at h
    rw [heq] at h
    cases rest <;> cases h
  · rintro rfl
    rfl

/-! ### What a stream reaches -/

variable [SerdeJson] {context : EvaluationContext} {loginAccounts : List LoginAccountIdentity}

/-- A post that comes with the stream, and is stored for its account, matches the source. -/
def Reaches (context : EvaluationContext) (account : LoginAccountIdentity) (source : SourceSpec)
    (streamType : StreamType) : Prop :=
  ∃ key, timelineKeyForStreamType streamType = some key ∧
    sourceBranches source (underKey context account key) ≠ []

theorem Reaches.ne_userNotification (h : Reaches context account source streamType) :
    streamType ≠ .userNotification := by
  rintro rfl
  obtain ⟨key, hkey, -⟩ := h
  cases hkey

theorem accountSourceBranches_ne_nil
    (hselected : account ∈ selectedLoginAccounts source.arguments context.loginAccounts)
    (hmatches : accountSourceMatches source.kind context account = true) :
    accountSourceBranches source context ≠ [] := by
  have hmatching : matchingLoginAccounts source context ≠ [] := by
    intro hnil
    rw [matchingLoginAccounts, Keyed.firsts_eq_nil] at hnil
    have hmem := List.mem_filter.2 ⟨hselected, hmatches⟩
    rw [hnil] at hmem
    exact List.not_mem_nil hmem
  obtain ⟨first, rest, heq⟩ := List.exists_cons_of_ne_nil hmatching
  unfold accountSourceBranches
  simp only [heq]
  split_ifs
  · simp
  · cases rest <;> simp [collapseImplicitAccountScopes]

omit [SerdeJson] in
/-- The timelines without a parameter. -/
theorem membershipMatches_underKey {key : Str}
    (hnormalized : normalizeTimelineMembership key = (key, none)) :
    membershipMatches (underKey context account key) key (some account.acct) none = true := by
  simp only [membershipMatches, underKey, hnormalized, List.any_cons, List.any_nil, Bool.or_false,
    Str.eqIgnoreAsciiCase_refl, Option.all_some, Option.all_none, selectorEqual_refl, Bool.and_true]

/-- The sources that are read off one timeline of the account. -/
theorem asks_timeline_iff (streamType : StreamType) {key : Str}
    (hkey : timelineKeyForStreamType streamType = some key)
    (hstreams : kqSourceStreams (sessionOf account) source =
      if sourceMatchesSession source (sessionOf account) then [streamType] else [])
    (hbranches : ∀ context, sourceBranches source context = accountSourceBranches source context)
    (hmatches : accountSourceMatches source.kind (underKey context account key) account = true)
    (hspelled : Spelled account source = (source.arguments = [] ∨
      ∃ selector ∈ source.arguments, selector.trim = ['*'] ∨ Names selector account))
    (hselected : account ∈ selectedLoginAccounts source.arguments loginAccounts) :
    (∃ streamType ∈ kqSourceStreams (sessionOf account) source,
      Reaches context account source streamType) ↔ Spelled account source := by
  rw [hspelled, ← sourceMatchesSession_iff, hstreams]
  constructor
  · rintro ⟨_, hmem, -⟩
    by_contra hnot
    rw [if_neg hnot] at hmem
    exact List.not_mem_nil hmem
  · intro hmatch
    rw [if_pos hmatch]
    refine ⟨streamType, List.mem_singleton_self _, key, hkey, ?_⟩
    rw [hbranches]
    exact accountSourceBranches_ne_nil (selected_alone hselected) hmatches

/-! ### Lists and hashtags -/

omit [Icu] [SerdeJson] in
theorem normalizeTimelineMembership_list (id : Str) :
    normalizeTimelineMembership ("list:".toList ++ id) = ("list".toList, some id) := by
  rw [normalizeTimelineMembership, Str.stripPrefix_eq_some.2 rfl]

theorem listBranches_ne_nil_iff {id : Str} (hkind : source.kind = .list)
    (hargument : source.arguments = [argument])
    (hselected : account ∈ selectedLoginAccounts (splitScopedListId argument).1.toList
      loginAccounts) :
    sourceBranches source (underKey context account ("list:".toList ++ id)) ≠ [] ↔
      id = (splitScopedListId argument).2 := by
  have hmatches : ∀ listId, membershipMatches (underKey context account ("list:".toList ++ id))
      "list".toList (some account.acct) (some listId) = true ↔ id = listId := by
    intro listId
    simp only [membershipMatches, underKey, normalizeTimelineMembership_list, List.any_cons,
      List.any_nil, Bool.or_false]
    simp [selectorEqual_refl]
  rw [sourceBranches, hkind]
  dsimp only
  rw [listSourceBranches, hargument, List.flatMap_singleton, listArgumentBranches, Ne,
    collapseMembershipScopes_eq_nil, List.map_eq_nil_iff, List.filter_eq_nil_iff]
  constructor
  · intro h
    by_contra hne
    refine h fun other hother hmatch => hne ?_
    have heq : other = account := List.mem_singleton.1 (mem_of_selected hother)
    rw [heq] at hmatch
    exact (hmatches _).1 hmatch
  · intro hid h
    exact h account (selected_alone hselected) ((hmatches _).2 hid)

theorem asks_list_iff (hkind : source.kind = .list) (hargument : source.arguments = [argument])
    (htrim : argument.trim = argument) (hne : argument ≠ [])
    (hsupports : providerSupports (sessionOf account).serverKind .lists = true)
    (hselected : account ∈ selectedLoginAccounts (splitScopedListId argument).1.toList
      loginAccounts) : (∃ streamType ∈ kqSourceStreams (sessionOf account) source,
      Reaches context account source streamType) ↔ Spelled account source := by
  have hstreams : kqSourceStreams (sessionOf account) source =
      (listIdForSession argument (sessionOf account)).toList.map .list := by
    rw [kqSourceStreams, hkind]
    dsimp only
    rw [if_pos hsupports, hargument]
    cases h : listIdForSession argument (sessionOf account) <;> simp [h]
  have hspelled : Spelled account source ↔
      listIdForSession argument (sessionOf account) = some (splitScopedListId argument).2 := by
    rw [listIdForSession_eq_iff htrim hne, Spelled, hkind, hargument]
    simp
  rw [hspelled, hstreams]
  constructor
  · rintro ⟨streamType, hmem, key, hkey, hreaches⟩
    obtain ⟨id, hid, rfl⟩ := List.mem_map.1 hmem
    obtain rfl : "list:".toList ++ id = key := Option.some.inj hkey
    rw [listBranches_ne_nil_iff hkind hargument hselected] at hreaches
    rw [← hreaches]
    simpa using hid
  · intro hlist
    refine ⟨.list (splitScopedListId argument).2, by simp [hlist], _, rfl, ?_⟩
    exact (listBranches_ne_nil_iff hkind hargument hselected).2 rfl

omit [Icu] [SerdeJson] in
theorem normalizeTimelineMembership_tag (tag : Str) :
    normalizeTimelineMembership ("tag:".toList ++ tag) = ("hashtag".toList, some tag) := by
  have hlist : Str.stripPrefix "list:" ("tag:".toList ++ tag) = none := rfl
  rw [normalizeTimelineMembership, hlist, Str.stripPrefix_eq_some.2 rfl]

theorem hashtagBranches_ne_nil_iff {tag : Str} (hkind : source.kind = .hashtag)
    (hargument : source.arguments = [argument]) :
    sourceBranches source (underKey context account ("tag:".toList ++ tag)) ≠ [] ↔
      hashtagParameterMatches tag argument = true := by
  rw [sourceBranches, hkind]
  dsimp only
  rw [hargument, List.flatMap_singleton, hashtagSourceBranches, Ne,
    collapseMembershipScopes_eq_nil, List.map_eq_nil_iff, List.filter_eq_nil_iff]
  simp only [underKey, normalizeTimelineMembership_tag]
  simp [selectorEqual_refl]

theorem asks_hashtag_iff (hkind : source.kind = .hashtag)
    (hargument : source.arguments = [argument])
    (hsupports : providerSupports (sessionOf account).serverKind .hashtags = true) :
    (∃ streamType ∈ kqSourceStreams (sessionOf account) source,
      Reaches context account source streamType) ↔ Spelled account source := by
  have hstreams : ∀ streamType, streamType ∈ kqSourceStreams (sessionOf account) source ↔
      cleanTag argument ≠ [] ∧ streamType = .hashtag (cleanTag argument) := by
    intro streamType
    rw [kqSourceStreams, hkind]
    dsimp only
    rw [if_pos hsupports, hargument]
    by_cases hempty : cleanTag argument = [] <;> simp [hempty]
  have hspelled : Spelled account source ↔ cleanTag argument ≠ [] ∧
      hashtagParameterMatches (cleanTag argument) argument = true := by
    rw [Spelled, hkind, hargument]
    simp
  rw [hspelled]
  constructor
  · rintro ⟨streamType, hmem, key, hkey, hreaches⟩
    obtain ⟨hne, rfl⟩ := (hstreams streamType).1 hmem
    obtain rfl : "tag:".toList ++ cleanTag argument = key := Option.some.inj hkey
    exact ⟨hne, (hashtagBranches_ne_nil_iff hkind hargument).1 hreaches⟩
  · rintro ⟨hne, hmatches⟩
    exact ⟨_, (hstreams _).2 ⟨hne, rfl⟩, _, rfl,
      (hashtagBranches_ne_nil_iff hkind hargument).2 hmatches⟩

/-! ### Every source -/

/-- A source asks for a stream that reaches it exactly when it is `Spelled` so. -/
theorem asks_iff (hnormal : source.Normal)
    (hsupports : providerSupports (sessionOf account).serverKind (operation source.kind) = true)
    (hselects : Selects source loginAccounts account) :
    (∃ streamType ∈ kqSourceStreams (sessionOf account) source,
      Reaches context account source streamType) ↔ Spelled account source := by
  unfold Selects at hselects
  cases hkind : source.kind with
  | home =>
    rw [hkind] at hselects hsupports
    have hhome : providerSupports (sessionOf account).serverKind .home = true := hsupports
    refine asks_timeline_iff .user rfl ?_ ?_ ?_ (by rw [Spelled, hkind]) hselects
    · rw [kqSourceStreams, hkind]
      dsimp only
      rw [kqUserBaseline, if_pos hhome]
    · intro context
      rw [sourceBranches, hkind]
    · rw [hkind]
      exact membershipMatches_underKey rfl
  | «public» =>
    rw [hkind] at hselects hsupports
    have hpublic : providerSupports (sessionOf account).serverKind .public = true := hsupports
    refine asks_timeline_iff .public rfl ?_ ?_ ?_ (by rw [Spelled, hkind]) hselects
    · rw [kqSourceStreams, hkind]
      dsimp only
      rw [hpublic, Bool.and_true]
    · intro context
      rw [sourceBranches, hkind]
    · rw [hkind]
      exact membershipMatches_underKey rfl
  | localPublic =>
    rw [hkind] at hselects hsupports
    have hlocal : providerSupports (sessionOf account).serverKind .local = true := hsupports
    refine asks_timeline_iff .publicLocal rfl ?_ ?_ ?_ (by rw [Spelled, hkind]) hselects
    · rw [kqSourceStreams, hkind]
      dsimp only
      rw [hlocal, Bool.and_true]
    · intro context
      rw [sourceBranches, hkind]
    · rw [hkind]
      exact membershipMatches_underKey rfl
  | list =>
    rw [hkind] at hselects hsupports
    obtain ⟨argument, hargument, hselected⟩ := hselects
    rcases hnormal with hnone | ⟨raw, hraw, hne⟩
    · rw [hnone] at hargument
      exact absurd hargument List.not_mem_nil
    · rw [hkind] at hraw hne
      rw [hraw] at hargument
      obtain rfl := List.mem_singleton.1 hargument
      exact asks_list_iff hkind hraw (Str.trim_trim raw) (hne rfl) hsupports hselected
  | hashtag =>
    rw [hkind] at hselects hsupports
    rcases hnormal with hnone | ⟨raw, hraw, -⟩
    · refine iff_of_false ?_ ?_
      · rintro ⟨streamType, hmem, -⟩
        rw [kqSourceStreams, hkind] at hmem
        dsimp only at hmem
        rw [hnone] at hmem
        split_ifs at hmem <;> simp at hmem
      · rw [Spelled, hkind]
        simp [hnone]
    · exact asks_hashtag_iff hkind hraw hsupports
  | _ =>
    rw [hkind] at hselects
    exact hselects.elim

/-- The plan covers a source exactly when the source is spelled as the planner reads it, or
something else asks for a stream that reaches it. -/
theorem subscription_covers_iff [ColumnJson] [CharTable] [RegexCrate]
    (before after : List ColumnSummary) (column : ColumnSummary) (query : Str)
    (compiled : CompiledQuery) (sources sources' : List SourceSpec) (source : SourceSpec)
    (context : EvaluationContext) (loginAccounts : List LoginAccountIdentity)
    (account : LoginAccountIdentity) (hkq : column.columnType = "kq".toList)
    (hparam : plainColumnParam column.columnParam = some query)
    (hcompile : compileQuery query = .ok compiled)
    (hsources : compiled.sources = sources ++ source :: sources')
    (hsupports : providerSupports (sessionOf account).serverKind (operation source.kind) = true) :
    (Selects source loginAccounts account →
      ∃ streamType ∈ streamTypesForColumns (before ++ column :: after) (sessionOf account),
        Reaches context account source streamType) ↔
    (Selects source loginAccounts account → Spelled account source ∨
      ∃ streamType, Reaches context account source streamType ∧
        ((∃ other ∈ before ++ after, streamType ∈ columnStreams (sessionOf account) other) ∨
          ∃ other ∈ sources ++ sources',
            streamType ∈ kqSourceStreams (sessionOf account) other)) := by
  refine imp_congr_right fun hselects => ?_
  have hnormal : source.Normal := compile_normal hcompile source (by rw [hsources]; simp)
  have hplanned : ∀ streamType, Reaches context account source streamType →
      (streamType ∈ streamTypesForColumns (before ++ column :: after) (sessionOf account) ↔
        streamType ∈ kqSourceStreams (sessionOf account) source ∨
        (∃ other ∈ before ++ after, streamType ∈ columnStreams (sessionOf account) other) ∨
          ∃ other ∈ sources ++ sources',
            streamType ∈ kqSourceStreams (sessionOf account) other) := by
    intro streamType hreaches
    have hcolumn : columnStreams (sessionOf account) column =
        compiled.sources.flatMap (kqSourceStreams (sessionOf account)) :=
      (columnStreams_kq hkq).trans (kqStreams_eq hparam hcompile)
    rw [mem_streamTypesForColumns hreaches.ne_userNotification]
    simp only [List.mem_append, List.mem_cons, or_and_right, exists_or, exists_eq_left, hcolumn,
      hsources, List.mem_flatMap]
    -- The source's own streams move to the front.
    constructor
    · rintro (hbefore | (hearlier | hown | hlater) | hafter)
      · exact Or.inr (Or.inl (Or.inl hbefore))
      · exact Or.inr (Or.inr (Or.inl hearlier))
      · exact Or.inl hown
      · exact Or.inr (Or.inr (Or.inr hlater))
      · exact Or.inr (Or.inl (Or.inr hafter))
    · rintro (hown | (hbefore | hafter) | hearlier | hlater)
      · exact Or.inr (Or.inl (Or.inr (Or.inl hown)))
      · exact Or.inl hbefore
      · exact Or.inr (Or.inr hafter)
      · exact Or.inr (Or.inl (Or.inl hearlier))
      · exact Or.inr (Or.inl (Or.inr (Or.inr hlater)))
  have hasks : (∃ streamType ∈ kqSourceStreams (sessionOf account) source,
      Reaches context account source streamType) ↔ Spelled account source :=
    asks_iff hnormal hsupports hselects
  rw [← hasks]
  constructor
  · rintro ⟨streamType, hmem, hreaches⟩
    rcases (hplanned streamType hreaches).1 hmem with hown | helse
    · exact Or.inl ⟨streamType, hown, hreaches⟩
    · exact Or.inr ⟨streamType, hreaches, helse⟩
  · rintro (⟨streamType, hown, hreaches⟩ | ⟨streamType, hreaches, helse⟩)
    · exact ⟨streamType, (hplanned streamType hreaches).2 (Or.inl hown), hreaches⟩
    · exact ⟨streamType, (hplanned streamType hreaches).2 (Or.inr helse), hreaches⟩

end

/-! ### Three sources of `alice` -/

section

attribute [local instance] asciiCharTable asciiIcu rejectingJson noRegex

/-- Columns whose parameters are plain texts. -/
@[reducible] def plainParams : ColumnJson where
  filtered _ := none

attribute [local instance] plainParams

def alice : LoginAccountIdentity :=
  ⟨"alice@example.test", "example.test", "7", "Alice", "mastodon", true⟩

def anyPost : EvaluationContext where
  wrapper := ⟨.plain "1" "example.test" "7", none⟩
  effective := some ⟨.plain "1" "example.test" "7", none⟩
  quote := none
  loginAccounts := []
  memberships := []
  viewerStates := []
  conversationKeys := []

def kqColumn (query : String) : ColumnSummary := ⟨"kq".toList, some query.toList, none⟩

/-- The first source comes with three `@` of which the planner takes two away, the second with a
space that the planner takes away and the evaluator does not. -/
def sampleQuery : String :=
  "from home:\"@@@alice@example.test\", list:\"alice@example.test/ 1\""

def sampleHome : SourceSpec := ⟨.home, ["@@alice@example.test".toList], ⟨5, 9⟩⟩

def sampleList : SourceSpec := ⟨.list, ["alice@example.test/ 1".toList], ⟨35, 39⟩⟩

theorem sampleQuery_compiles : ∃ compiled,
    compileQuery sampleQuery.toList = .ok compiled ∧
      compiled.sources = [sampleHome, sampleList] := by
  have hsources : (compileQuery sampleQuery.toList).toOption.map (·.sources) =
      some [sampleHome, sampleList] := by decide +kernel
  cases hcompile : compileQuery sampleQuery.toList with
  | error e =>
    rw [hcompile] at hsources
    cases hsources
  | ok compiled =>
    rw [hcompile] at hsources
    exact ⟨compiled, rfl, Option.some.inj hsources⟩

theorem subscription_covers_iff_alice :
    (Selects sampleList [alice] alice →
      ∃ streamType ∈ streamTypesForColumns ([] ++ kqColumn sampleQuery :: []) (sessionOf alice),
        Reaches anyPost alice sampleList streamType) ↔
    (Selects sampleList [alice] alice → Spelled alice sampleList ∨
      ∃ streamType, Reaches anyPost alice sampleList streamType ∧
        ((∃ other ∈ ([] ++ [] : List ColumnSummary),
            streamType ∈ columnStreams (sessionOf alice) other) ∨
          ∃ other ∈ [sampleHome] ++ [], streamType ∈ kqSourceStreams (sessionOf alice) other)) := by
  obtain ⟨compiled, hcompile, hsources⟩ := sampleQuery_compiles
  exact subscription_covers_iff [] [] (kqColumn sampleQuery) sampleQuery.toList compiled
    [sampleHome] [] sampleList anyPost [alice] alice rfl (by decide +kernel) hcompile hsources
    (by decide +kernel)

/-- Both sources select `alice` and the only planned stream does not reach the first. -/
theorem not_subscription_covers : ∃ compiled, compileQuery sampleQuery.toList = .ok compiled ∧
    sampleHome ∈ compiled.sources ∧ Selects sampleHome [alice] alice ∧
    providerSupports (sessionOf alice).serverKind (operation sampleHome.kind) = true ∧
    ¬ ∃ streamType ∈ streamTypesForColumns [kqColumn sampleQuery] (sessionOf alice),
      Reaches anyPost alice sampleHome streamType := by
  obtain ⟨compiled, hcompile, hsources⟩ := sampleQuery_compiles
  refine ⟨compiled, hcompile, ?_, ?_, by decide +kernel, ?_⟩
  · rw [hsources]
    exact List.mem_cons_self
  · show alice ∈ selectedLoginAccounts sampleHome.arguments [alice]
    decide +kernel
  · have hplan : streamTypesForColumns [kqColumn sampleQuery] (sessionOf alice) =
        [.list "1".toList] := by decide +kernel
    rw [hplan]
    rintro ⟨streamType, hmem, key, hkey, hbranches⟩
    obtain rfl := List.mem_singleton.1 hmem
    obtain rfl : "list:1".toList = key := Option.some.inj hkey
    exact hbranches (by decide +kernel)

end

end Awayuki.Subscription
