import Awayuki.Db.Models
import Awayuki.Library.Register

/-!
# What a login account has done with a post

`status_viewer_state` has a row for each login account and post, with the favourite, boost,
bookmark and mute flags of the account; a flag that is `NULL` is not known.  Every save of a status
of the API writes the row through `upsert_status_viewer_state_on`.

* `upsertStatusViewerStateOn`, `persistStatusGraph`, `saveStatusItems`: the saves;
* `noteToStatus`, `postViewToStatus`, `feedViewPostToStatus`: the flags of the providers;
* `viewerFlag_saveAll`: a flag of a row is the one of the last save of the post;
* `keepsKnown_iff`: known flags are kept only where every save carries them.
-/

namespace Awayuki.Viewer

/-! ### Statuses of the API -/

inductive ViewerFlag
  | favourited | reblogged | bookmarked | muted
  deriving DecidableEq, Repr

/-- A status of the API: its id and what depends on the viewer. -/
structure Status where
  id : Str
  favourited : Option Bool
  reblogged : Option Bool
  muted : Option Bool
  bookmarked : Option Bool
  pinned : Option Bool
  reblog : Option Status
  quote : Option Status

def Status.flag (status : Status) : ViewerFlag → Option Bool
  | .favourited => status.favourited
  | .reblogged => status.reblogged
  | .bookmarked => status.bookmarked
  | .muted => status.muted

/-! ### Providers -/

/-- What of a Misskey note its status depends on. -/
structure MisskeyNote where
  id : Str
  text : Option Str
  cw : Option Str
  renote : Option MisskeyNote
  myReaction : Option Str

def noteToStatusInner (allowRenote : Bool) : MisskeyNote → Status
  | ⟨id, text, cw, renote, myReaction⟩ =>
    let isPureRenote := renote.isSome && text.isNone && cw.isNone
    let converted := match renote with
      | some renote => some (noteToStatusInner false renote)
      | none => none
    { id := id
      favourited := some myReaction.isSome
      reblogged := some false
      muted := none
      bookmarked := none
      pinned := none
      reblog := if allowRenote && isPureRenote then converted else none
      quote := if isPureRenote then none else converted }

def noteToStatus (note : MisskeyNote) : Status := noteToStatusInner true note

/-- The viewer's part of a Bluesky post. -/
structure PostViewer where
  like : Option Str
  repost : Option Str
  bookmarked : Option Bool

/-- What of a Bluesky post its status depends on: `quoted` is the address of a quoted post. -/
structure PostView where
  uri : Str
  viewer : Option PostViewer
  quoted : Option Str

def quotedStatus (uri : Str) : Status where
  id := uri
  favourited := none
  reblogged := none
  muted := none
  bookmarked := none
  pinned := none
  reblog := none
  quote := none

def postViewToStatus (post : PostView) : Status where
  id := post.uri
  favourited := some ((post.viewer.bind PostViewer.like).isSome)
  reblogged := some ((post.viewer.bind PostViewer.repost).isSome)
  muted := none
  bookmarked := post.viewer.bind PostViewer.bookmarked
  pinned := none
  reblog := none
  quote := post.quoted.map quotedStatus

/-- A post of a feed; `reposter` is the account that a repost is from. -/
structure FeedViewPost where
  post : PostView
  reposter : Option Str

def feedViewPostToStatus (feed : FeedViewPost) : Status :=
  match feed.reposter with
  | some reposter =>
    { id := "repost:".toList ++ reposter ++ ":".toList ++ (postViewToStatus feed.post).id
      favourited := some false
      reblogged := some true
      muted := none
      bookmarked := none
      pinned := none
      reblog := some (postViewToStatus feed.post)
      quote := none }
  | none => postViewToStatus feed.post

/-- What the Bluesky client makes of a post that it has just bookmarked or found among the
bookmarks, and the startup synchronization of any status of its bookmarks phase. -/
def bookmarkedStatus (status : Status) : Status := { status with bookmarked := some true }

/-! ### Rows -/

/-- The primary key of `status_viewer_state`. -/
abbrev ViewerKey := Str × EntityKey

def rowKey (row : DbStatusViewerState) : ViewerKey := (row.loginAccountAcct, row.statusKey)

def rowFlag (row : DbStatusViewerState) : ViewerFlag → Option Bool
  | .favourited => row.favourited
  | .reblogged => row.reblogged
  | .bookmarked => row.bookmarked
  | .muted => row.muted

/-- The values that the statement binds. -/
def Status.viewerRow (status : Status) (serverDomain loginAccountAcct : Str) :
    DbStatusViewerState where
  loginAccountAcct := loginAccountAcct
  statusId := status.id
  serverDomain := serverDomain
  favourited := status.favourited
  reblogged := status.reblogged
  muted := status.muted
  bookmarked := status.bookmarked
  pinned := status.pinned

theorem rowFlag_viewerRow (status : Status) (serverDomain loginAccountAcct : Str)
    (flag : ViewerFlag) :
    rowFlag (status.viewerRow serverDomain loginAccountAcct) flag = status.flag flag := by
  cases flag <;> rfl

def upsertStatusViewerStateOn (status : Status) (serverDomain loginAccountAcct : Str)
    (rows : List DbStatusViewerState) : List DbStatusViewerState :=
  Keyed.upsert rowKey (status.viewerRow serverDomain loginAccountAcct) rows

/-- A flag of the row of a login account and a post. -/
def viewerFlag (rows : List DbStatusViewerState) (key : ViewerKey) (flag : ViewerFlag) :
    Option Bool :=
  (Keyed.lookup rowKey rows key).bind fun row => rowFlag row flag

/-! ### Saves -/

structure StatusBatchItem where
  status : Status
  viewerAcct : Option Str

/-- The rows of `status_viewer_state` after one status: those of the boosted and the quoted status
are written first. -/
def persistStatusGraph (serverDomain : Str) (rows : List DbStatusViewerState)
    (item : StatusBatchItem) : List DbStatusViewerState :=
  let related := item.status.reblog.toList ++ item.status.quote.toList
  let rows := related.foldl (fun rows nested =>
    match item.viewerAcct with
    | some viewerAcct => upsertStatusViewerStateOn nested serverDomain viewerAcct rows
    | none => rows) rows
  match item.viewerAcct with
  | some viewerAcct => upsertStatusViewerStateOn item.status serverDomain viewerAcct rows
  | none => rows

/-- A transaction of `save_status_items` that commits. -/
structure Transaction where
  serverDomain : Str
  items : List StatusBatchItem

def saveStatusItems (rows : List DbStatusViewerState) (transaction : Transaction) :
    List DbStatusViewerState :=
  transaction.items.foldl (persistStatusGraph transaction.serverDomain) rows

/-- One status that is saved for a login account. -/
structure Save where
  acct : Str
  serverDomain : Str
  status : Status

def Save.key (save : Save) : ViewerKey := (save.acct, save.status.id, save.serverDomain)

def Save.write (rows : List DbStatusViewerState) (save : Save) : List DbStatusViewerState :=
  upsertStatusViewerStateOn save.status save.serverDomain save.acct rows

/-- The statuses that an item saves, in order. -/
def StatusBatchItem.saves (serverDomain : Str) (item : StatusBatchItem) : List Save :=
  item.viewerAcct.toList.flatMap fun viewerAcct =>
    (item.status.reblog.toList ++ item.status.quote.toList ++ [item.status]).map
      (Save.mk viewerAcct serverDomain)

def Transaction.saves (transaction : Transaction) : List Save :=
  transaction.items.flatMap (StatusBatchItem.saves transaction.serverDomain)

/-- The rows after some saves. -/
def saveAll (rows : List DbStatusViewerState) (saves : List Save) : List DbStatusViewerState :=
  saves.foldl Save.write rows

theorem persistStatusGraph_eq (serverDomain : Str) (rows : List DbStatusViewerState)
    (item : StatusBatchItem) :
    persistStatusGraph serverDomain rows item = saveAll rows (item.saves serverDomain) := by
  unfold persistStatusGraph saveAll StatusBatchItem.saves
  cases item.viewerAcct with
  | none =>
    exact List.foldl_fixed _
  | some viewerAcct =>
    simp only [Option.toList_some, List.flatMap_cons, List.flatMap_nil, List.append_nil,
      List.foldl_map, List.foldl_append, List.foldl_cons, List.foldl_nil]
    rfl

theorem saveStatusItems_eq (rows : List DbStatusViewerState) (transaction : Transaction) :
    saveStatusItems rows transaction = saveAll rows transaction.saves := by
  unfold saveStatusItems Transaction.saves saveAll
  rw [List.foldl_flatMap]
  refine congrArg (fun step => transaction.items.foldl step rows) ?_
  funext rows item
  exact persistStatusGraph_eq _ rows item

/-- Transactions save their statuses one after the other. -/
theorem foldl_saveStatusItems (rows : List DbStatusViewerState)
    (transactions : List Transaction) :
    transactions.foldl saveStatusItems rows =
      saveAll rows (transactions.flatMap Transaction.saves) := by
  rw [saveAll, List.foldl_flatMap]
  refine congrArg (fun step => transactions.foldl step rows) ?_
  funext rows transaction
  exact saveStatusItems_eq rows transaction

/-! ### A flag of a row -/

/-- What the saves of one post write to one of its flags. -/
def written (key : ViewerKey) (flag : ViewerFlag) (saves : List Save) : List (Option Bool) :=
  (saves.filter fun save => save.key = key).map fun save => save.status.flag flag

theorem written_append (key : ViewerKey) (flag : ViewerFlag) (saves more : List Save) :
    written key flag (saves ++ more) = written key flag saves ++ written key flag more := by
  simp [written]

theorem viewerFlag_write (rows : List DbStatusViewerState) (save : Save) (key : ViewerKey)
    (flag : ViewerFlag) :
    viewerFlag (save.write rows) key flag =
      if save.key = key then save.status.flag flag else viewerFlag rows key flag := by
  have hrow : rowKey (save.status.viewerRow save.serverDomain save.acct) = save.key := rfl
  unfold viewerFlag Save.write upsertStatusViewerStateOn
  rw [Keyed.lookup_upsert, hrow]
  by_cases hkey : save.key = key
  · rw [if_pos hkey, if_pos hkey, Option.bind_some, rowFlag_viewerRow]
  · rw [if_neg hkey, if_neg hkey]

/-- A flag is what the last save of the post wrote to it. -/
theorem viewerFlag_saveAll (rows : List DbStatusViewerState) (saves : List Save)
    (key : ViewerKey) (flag : ViewerFlag) :
    viewerFlag (saveAll rows saves) key flag =
      Register.after (viewerFlag rows key flag) (written key flag saves) := by
  induction saves generalizing rows with
  | nil => rfl
  | cons save saves ih =>
    have hstep : saveAll rows (save :: saves) = saveAll (save.write rows) saves := rfl
    rw [hstep, ih, viewerFlag_write]
    by_cases hkey : save.key = key <;> simp [written, hkey]

/-- Once a flag of a post is known, it stays as it is until a saved status of the post carries a
value for it. -/
def KeepsKnown (value : Bool) (rows : List DbStatusViewerState) (saves : List Save) : Prop :=
  ∀ key flag before between rest, saves = before ++ between ++ rest →
    viewerFlag (saveAll rows before) key flag = some value →
      (∀ save ∈ between, save.key = key → save.status.flag flag = none) →
        viewerFlag (saveAll rows (before ++ between)) key flag = some value

/-- No status of a post that lacks a flag is saved directly after the flag was saved, or was in
the table, with the value. -/
def CarriesKnown (value : Bool) (rows : List DbStatusViewerState) (saves : List Save) : Prop :=
  ∀ key flag, Register.Carries value (viewerFlag rows key flag) (written key flag saves)

theorem forall_written {key : ViewerKey} {flag : ViewerFlag} {saves : List Save} :
    (∀ write ∈ written key flag saves, write = none) ↔
      ∀ save ∈ saves, save.key = key → save.status.flag flag = none := by
  simp only [written, List.mem_map, List.mem_filter, decide_eq_true_eq]
  constructor
  · exact fun h save hsave hkey => h _ ⟨save, ⟨hsave, hkey⟩, rfl⟩
  · rintro h _ ⟨save, ⟨hsave, hkey⟩, rfl⟩
    exact h save hsave hkey

/-- The writes of a split list of saves, and the saves of split writes. -/
theorem exists_split_of_written {key : ViewerKey} {flag : ViewerFlag} {saves : List Save}
    {before between rest : List (Option Bool)}
    (h : written key flag saves = before ++ between ++ rest) :
    ∃ first second third, saves = first ++ second ++ third ∧ written key flag first = before ∧
      written key flag second = between := by
  obtain ⟨both, third, hfilter, hboth, -⟩ := List.map_eq_append_iff.1 h
  obtain ⟨one, two, rfl, hone, htwo⟩ := List.map_eq_append_iff.1 hboth
  obtain ⟨pair, third, rfl, hpair, -⟩ := List.filter_eq_append_iff.1 hfilter
  obtain ⟨first, second, rfl, hfirst, hsecond⟩ := List.filter_eq_append_iff.1 hpair
  exact ⟨first, second, third, rfl, by rw [written, hfirst, hone], by rw [written, hsecond, htwo]⟩

theorem keepsKnown_iff_register {value : Bool} {rows : List DbStatusViewerState}
    {saves : List Save} :
    KeepsKnown value rows saves ↔ ∀ key flag,
      Register.KeepsUntilCarried value (viewerFlag rows key flag) (written key flag saves) := by
  constructor
  · intro h key flag before between rest heq hbefore hbetween
    obtain ⟨first, second, third, rfl, rfl, rfl⟩ := exists_split_of_written heq
    have := h key flag first second third rfl (by rw [viewerFlag_saveAll, hbefore])
      (forall_written.1 hbetween)
    rwa [viewerFlag_saveAll, written_append] at this
  · intro h key flag before between rest heq hbefore hbetween
    rw [viewerFlag_saveAll] at hbefore
    rw [viewerFlag_saveAll, written_append]
    exact h key flag _ _ (written key flag rest)
      (by rw [heq, written_append, written_append]) hbefore (forall_written.2 hbetween)

/-- Over any transactions, known flags are kept if and only if each status that is saved directly
after a known flag carries it. -/
theorem keepsKnown_iff (value : Bool) (rows : List DbStatusViewerState)
    (transactions : List Transaction) :
    KeepsKnown value rows (transactions.flatMap Transaction.saves) ↔
      CarriesKnown value rows (transactions.flatMap Transaction.saves) := by
  rw [keepsKnown_iff_register]
  exact forall_congr' fun key => forall_congr' fun flag => Register.keepsUntilCarried_iff

def sampleNote : MisskeyNote := ⟨"n", some "text", none, none, none⟩

/-- A page of the bookmarks, and then a page of the home timeline with the same note. -/
def sampleTransactions : List Transaction :=
  [⟨"m.example", [⟨bookmarkedStatus (noteToStatus sampleNote), some "me@m.example"⟩]⟩,
    ⟨"m.example", [⟨noteToStatus sampleNote, some "me@m.example"⟩]⟩]

theorem not_keepsKnown : ¬ ∀ (rows : List DbStatusViewerState) (transactions : List Transaction),
    KeepsKnown true rows (transactions.flatMap Transaction.saves) := by
  intro h
  have hlost := h [] sampleTransactions ("me@m.example".toList, "n".toList, "m.example".toList)
    .bookmarked [⟨"me@m.example", "m.example", bookmarkedStatus (noteToStatus sampleNote)⟩]
    [⟨"me@m.example", "m.example", noteToStatus sampleNote⟩] [] rfl (by decide)
    (fun save hsave _ => by rw [List.mem_singleton.1 hsave]; rfl)
  revert hlost
  decide

end Awayuki.Viewer
