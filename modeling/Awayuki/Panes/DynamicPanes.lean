import Awayuki.Preferences.Columns

/-!
# Dynamic panes

`frontend/src/store/slices/panes.ts` and `store/actions/paneActions.ts`: a pane that is opened for
a resource is found again by a key.  One function gives the key of a column that is open, each
action builds the key that it asks for.

* `dynamicPaneResourceKey`: the key of a column;
* `reduceOpenOrFocusDynamicPane`: a pane is focused or opened;
* `Action.descriptor`: what each action asks for;
* `descriptor_cases`: the two functions agree on every column but a profile.
-/

namespace Awayuki.Panes

/-- What a field holds that may be missing or `null`. -/
inductive Nullable (α : Type)
  | undefined
  | null
  | value (a : α)
  deriving DecidableEq

/-- The operator `??`. -/
def Nullable.orElse {α : Type} (a : α) : Nullable α → α
  | .value b => b
  | _ => a

/-! ### Columns -/

structure UserProfileTarget where
  accountId : Str
  serverDomain : Str
  sourceAcct : Nullable Str
  acct : Str
  displayName : Str
  avatar : Str
  deriving DecidableEq

structure ColumnSummary extends Preferences.ColumnSummary where
  isDynamic : Bool
  profile : Option UserProfileTarget
  deriving DecidableEq

structure PaneSliceState where
  persistedColumns : List ColumnSummary
  dynamicColumns : List ColumnSummary
  activeTabs : ℕ → Option Str
  pendingScrollPaneIndex : Option ℕ

/-- `join(":")`. -/
def join (parts : List Str) : Str := [':'].intercalate parts

def profileType : Str := "profile".toList

def dynamicPaneResourceKey (column : ColumnSummary) : Str :=
  if column.columnType = profileType then
    join [profileType, (column.profile.map (·.serverDomain)).getD [],
      (column.profile.map (·.accountId)).getD []]
  else join [column.columnType, column.columnParam.getD []]

structure DynamicPaneDescriptor where
  resourceKey : Str
  column : ColumnSummary
  updateExisting : Option (ColumnSummary → Str × UserProfileTarget)

/-- The column with a name and a profile of its own. -/
def ColumnSummary.patch (column : ColumnSummary) (patch : Str × UserProfileTarget) :
    ColumnSummary :=
  { column with name := patch.1, profile := some patch.2 }

/-- One more than every index of a pane. -/
def nextPaneIndex (columns : List ColumnSummary) : ℕ :=
  (columns.foldl (fun maximum column => max maximum (column.paneIndex : ℤ)) (-1) + 1).toNat

structure OpenDynamicPaneResult where
  state : PaneSliceState
  column : ColumnSummary
  created : Bool

/-- A pane that is found has the focus. -/
def focusDynamicPane (state : PaneSliceState) (descriptor : DynamicPaneDescriptor)
    (existing : ColumnSummary) : OpenDynamicPaneResult :=
  let patch := descriptor.updateExisting.map fun update => update existing
  let column := (patch.map existing.patch).getD existing
  { column
    created := false
    state :=
      { state with
        dynamicColumns :=
          if patch.isSome then
            state.dynamicColumns.map fun candidate =>
              if candidate.id = existing.id then column else candidate
          else state.dynamicColumns
        activeTabs := Function.update state.activeTabs existing.paneIndex (some existing.id)
        pendingScrollPaneIndex := some existing.paneIndex } }

def openDynamicPane (state : PaneSliceState) (descriptor : DynamicPaneDescriptor) :
    OpenDynamicPaneResult :=
  let paneIndex := nextPaneIndex (state.persistedColumns ++ state.dynamicColumns)
  let column := { descriptor.column with paneIndex, position := 0, isDynamic := true }
  { column
    created := true
    state :=
      { state with
        dynamicColumns := state.dynamicColumns ++ [column]
        activeTabs := Function.update state.activeTabs paneIndex (some column.id)
        pendingScrollPaneIndex := some paneIndex } }

def reduceOpenOrFocusDynamicPane (state : PaneSliceState) (descriptor : DynamicPaneDescriptor) :
    OpenDynamicPaneResult :=
  match state.dynamicColumns.find? fun column =>
    dynamicPaneResourceKey column = descriptor.resourceKey with
  | some existing => focusDynamicPane state descriptor existing
  | none => openDynamicPane state descriptor

/-- A pane with the key has the focus, or there is none and one is opened. -/
theorem reduceOpenOrFocus_cases (state : PaneSliceState) (descriptor : DynamicPaneDescriptor) :
    (∃ existing ∈ state.dynamicColumns,
      dynamicPaneResourceKey existing = descriptor.resourceKey ∧
        reduceOpenOrFocusDynamicPane state descriptor =
          focusDynamicPane state descriptor existing) ∨
      (∀ column ∈ state.dynamicColumns,
        dynamicPaneResourceKey column ≠ descriptor.resourceKey) ∧
        reduceOpenOrFocusDynamicPane state descriptor = openDynamicPane state descriptor := by
  unfold reduceOpenOrFocusDynamicPane
  cases hfind : state.dynamicColumns.find? fun column =>
      dynamicPaneResourceKey column = descriptor.resourceKey with
  | none =>
    refine .inr ⟨fun column hcolumn => ?_, rfl⟩
    simpa using List.find?_eq_none.1 hfind column hcolumn
  | some existing =>
    refine .inl ⟨existing, List.mem_of_find?_eq_some hfind, ?_, rfl⟩
    simpa using List.find?_some hfind

/-- The panes after one was closed. -/
def closeDynamicPane (state : PaneSliceState) (paneIndex : ℕ) : PaneSliceState :=
  { state with
    activeTabs := Function.update state.activeTabs paneIndex none
    dynamicColumns := state.dynamicColumns.filter fun column => column.paneIndex ≠ paneIndex }

/-! ### Actions -/

structure TimelineStatus where
  id : Str
  originalStatusId : Str
  sourceAcct : Nullable Str
  accountId : Str
  serverDomain : Str
  displayName : Str
  acct : Str
  avatar : Str
  createdAt : Str
  notificationAccountId : Nullable Str
  notificationAcct : Nullable Str
  deriving DecidableEq

/-- The names of panes, in the language of the user. -/
structure Names where
  default : Str → Str
  bookmarksBy : Str → Str
  search : Bool → Str → Str
  thread : Str
  airContext : Str

/-- `trim` of JavaScript. -/
def trim (s : Str) : Str :=
  let isSpace (c : Char) : Bool :=
    Str.isWhitespace c && c.toNat != 0x85 || c.toNat == 0xfeff
  (s.dropWhile isSpace).rdropWhile isSpace

/-- `JSON.stringify` of an object: a member that is undefined is left out. -/
def stringify (members : List (String × Nullable Str)) : Str :=
  JsonText.object (members.filterMap fun member =>
    match member.2 with
    | .undefined => none
    | .null => some (member.1.toList, "null".toList)
    | .value text => some (member.1.toList, JsonText.quote text))

section

variable (names : Names) (id : Str)

def createColumn (columnType : Str) : ColumnSummary :=
  { id
    columnType
    columnParam := none
    name := names.default columnType
    maxStatuses := 100
    paneIndex := 0
    position := 0
    accountAcct := none
    displayFilter := some .default
    desktopNotifications := some true
    notificationSound := none
    isDynamic := false
    profile := none }

def addBookmarksPane : DynamicPaneDescriptor :=
  { resourceKey := "bookmarks:".toList
    column := createColumn names id "bookmarks".toList
    updateExisting := none }

def addFavouritesPane : DynamicPaneDescriptor :=
  { resourceKey := "favourites:".toList
    column := createColumn names id "favourites".toList
    updateExisting := none }

/-- A pane with a parameter, whose key is its type and the parameter. -/
def parameterPane (columnType columnParam name : Str) (maxStatuses : ℕ) : DynamicPaneDescriptor :=
  { resourceKey := columnType ++ ':' :: columnParam
    column :=
      { createColumn names id columnType with columnParam := some columnParam, name, maxStatuses }
    updateExisting := none }

def openUserBookmarksPane (target : UserProfileTarget) : Option DynamicPaneDescriptor :=
  if target.accountId = [] ∨ target.serverDomain = [] then none
  else
    let acct := if target.acct = [] then target.accountId else target.acct
    some (parameterPane names id "user_bookmarks".toList
      (stringify [("accountId", .value target.accountId),
        ("serverDomain", .value target.serverDomain)])
      (names.bookmarksBy ('@' :: (Str.stripPrefix ['@'] acct).getD acct)) 100)

def openSearchPane (rawQuery : Str) : Option DynamicPaneDescriptor :=
  let query := trim rawQuery
  let yqMode := query.head? = some '?'
  let columnParam := if yqMode then trim query.tail else query
  if columnParam = [] then none
  else
    some (parameterPane names id (if yqMode then "yq".toList else "search".toList) columnParam
      (names.search yqMode columnParam) 100)

def statusIdOf (status : TimelineStatus) : Str :=
  if status.originalStatusId = [] then status.id else status.originalStatusId

def openThreadPane (status : TimelineStatus) : Option DynamicPaneDescriptor :=
  if statusIdOf status = [] ∨ status.serverDomain = [] then none
  else
    some (parameterPane names id "thread".toList
      (stringify [("statusId", .value (statusIdOf status)),
        ("serverDomain", .value status.serverDomain), ("sourceAcct", status.sourceAcct)])
      names.thread 240)

def openAirContextPane (status : TimelineStatus) : Option DynamicPaneDescriptor :=
  if statusIdOf status = [] ∨ status.serverDomain = [] ∨
      status.notificationAccountId.orElse [] = [] then none
  else
    some (parameterPane names id "airContext".toList
      (stringify [("statusId", .value (statusIdOf status)),
        ("serverDomain", .value status.serverDomain),
        ("accountId", status.notificationAccountId),
        ("accountAcct", status.notificationAcct),
        ("notificationCreatedAt", .value status.createdAt),
        ("sourceAcct", status.sourceAcct)])
      names.airContext 2)

def targetOf (status : TimelineStatus) : UserProfileTarget :=
  { accountId := status.accountId
    serverDomain := status.serverDomain
    sourceAcct := status.sourceAcct
    acct := status.acct
    displayName := status.displayName
    avatar := status.avatar }

/-- The key that a profile is asked for with. -/
def userKey (status : TimelineStatus) : Str :=
  join [profileType, status.serverDomain, status.accountId,
    status.sourceAcct.orElse "cache".toList]

/-- A text that falls back on another one when it is empty. -/
def orText (text fallback : Str) : Str := if text = [] then fallback else text

def openUserPane (status : TimelineStatus) : DynamicPaneDescriptor :=
  let target := targetOf status
  { resourceKey := userKey status
    column :=
      { createColumn names id profileType with
        name := target.acct
        maxStatuses := 80
        profile := some target }
    updateExisting := some fun current =>
      (orText target.acct current.name,
        { target with
          acct := orText target.acct ((current.profile.map (·.acct)).getD [])
          displayName := orText target.displayName ((current.profile.map (·.displayName)).getD [])
          avatar := orText target.avatar ((current.profile.map (·.avatar)).getD []) }) }

inductive Action
  | addBookmarks
  | addFavourites
  | userBookmarks (target : UserProfileTarget)
  | search (query : Str)
  | thread (status : TimelineStatus)
  | airContext (status : TimelineStatus)
  | user (status : TimelineStatus)

/-- The pane that an action asks for, if it asks for one. -/
def Action.descriptor : Action → Option DynamicPaneDescriptor
  | .addBookmarks => some (addBookmarksPane names id)
  | .addFavourites => some (addFavouritesPane names id)
  | .userBookmarks target => openUserBookmarksPane names id target
  | .search query => openSearchPane names id query
  | .thread status => openThreadPane names id status
  | .airContext status => openAirContextPane names id status
  | .user status => some (openUserPane names id status)

end

/-! ### Keys -/

/-- What a key is before its first colon. -/
def kind (key : Str) : Str := key.takeWhile (· ≠ ':')

theorem kind_append {columnType : Str} (h : ':' ∉ columnType) (rest : Str) :
    kind (columnType ++ ':' :: rest) = columnType := by
  unfold kind
  induction columnType with
  | nil => rfl
  | cons c columnType ih =>
    rw [List.mem_cons, not_or] at h
    rw [List.cons_append, List.takeWhile_cons_of_pos (by simpa using Ne.symm h.1), ih h.2]

@[simp] theorem join_pair (a b : Str) : join [a, b] = a ++ ':' :: b := by
  simp [join, List.intercalate]

@[simp] theorem join_three (a b c : Str) : join [a, b, c] = a ++ ':' :: (b ++ ':' :: c) := by
  simp [join, List.intercalate]

@[simp] theorem join_four (a b c d : Str) :
    join [a, b, c, d] = a ++ ':' :: (b ++ ':' :: (c ++ ':' :: d)) := by
  simp [join, List.intercalate]

theorem colon_notMem_profileType : ':' ∉ profileType := by decide

theorem kind_userKey (status : TimelineStatus) : kind (userKey status) = profileType := by
  rw [userKey, join_four]
  exact kind_append colon_notMem_profileType _

theorem kind_dynamicPaneResourceKey {column : ColumnSummary} (h : ':' ∉ column.columnType) :
    kind (dynamicPaneResourceKey column) = column.columnType := by
  unfold dynamicPaneResourceKey
  split_ifs with hprofile
  · rw [join_three, hprofile]
    exact kind_append colon_notMem_profileType _
  · rw [join_pair]
    exact kind_append h _

/-- A profile has a shorter key when it is open than any that it is asked for with. -/
theorem length_userKey (status : TimelineStatus) {column : ColumnSummary}
    (htype : column.columnType = profileType)
    (hprofile : ∃ target, column.profile = some target ∧
      target.serverDomain = status.serverDomain ∧ target.accountId = status.accountId) :
    (dynamicPaneResourceKey column).length < (userKey status).length := by
  obtain ⟨target, htarget, hserver, haccount⟩ := hprofile
  rw [dynamicPaneResourceKey, if_pos htype, htarget, userKey, join_three, join_four]
  simp only [Option.map_some, Option.getD_some, hserver, haccount, List.length_append,
    List.length_cons]
  omega

/-- A pane with a parameter is asked for with the key that it has when it is open. -/
structure Plain (id : Str) (descriptor : DynamicPaneDescriptor) : Prop where
  id : descriptor.column.id = id
  notProfile : descriptor.column.columnType ≠ profileType
  colon : ':' ∉ descriptor.column.columnType
  key : dynamicPaneResourceKey descriptor.column = descriptor.resourceKey
  noUpdate : descriptor.updateExisting = none

section

variable {names : Names} {id : Str}

theorem plain_parameterPane {columnType : Str} (hprofile : columnType ≠ profileType)
    (hcolon : ':' ∉ columnType) (columnParam name : Str) (maxStatuses : ℕ) :
    Plain id (parameterPane names id columnType columnParam name maxStatuses) where
  id := rfl
  notProfile := hprofile
  colon := hcolon
  key := by
    show (if columnType = profileType then _ else _) = _
    rw [if_neg hprofile, join_pair]
    rfl
  noUpdate := rfl

theorem plain_addBookmarksPane : Plain id (addBookmarksPane names id) where
  id := rfl
  notProfile := by
    show "bookmarks".toList ≠ profileType
    decide
  colon := by
    show ':' ∉ "bookmarks".toList
    decide
  key := rfl
  noUpdate := rfl

theorem plain_addFavouritesPane : Plain id (addFavouritesPane names id) where
  id := rfl
  notProfile := by
    show "favourites".toList ≠ profileType
    decide
  colon := by
    show ':' ∉ "favourites".toList
    decide
  key := rfl
  noUpdate := rfl

/-- Every action but one asks for a plain pane. -/
theorem descriptor_cases {action : Action} {descriptor : DynamicPaneDescriptor}
    (h : action.descriptor names id = some descriptor) :
    Plain id descriptor ∧ (∀ status, action ≠ .user status) ∨
      ∃ status, action = .user status ∧ descriptor = openUserPane names id status := by
  cases action with
  | addBookmarks =>
    cases h
    exact .inl ⟨plain_addBookmarksPane, fun _ h => nomatch h⟩
  | addFavourites =>
    cases h
    exact .inl ⟨plain_addFavouritesPane, fun _ h => nomatch h⟩
  | userBookmarks target =>
    obtain ⟨-, h⟩ := Option.ite_none_left_eq_some.1 h
    cases h
    exact .inl ⟨plain_parameterPane (by decide) (by decide) _ _ _, fun _ h => nomatch h⟩
  | search query =>
    obtain ⟨-, h⟩ := Option.ite_none_left_eq_some.1 h
    cases h
    refine .inl ⟨plain_parameterPane ?_ ?_ _ _ _, fun _ h => nomatch h⟩
    · split_ifs
      · decide
      · decide
    · split_ifs
      · decide
      · decide
  | thread status =>
    obtain ⟨-, h⟩ := Option.ite_none_left_eq_some.1 h
    cases h
    exact .inl ⟨plain_parameterPane (by decide) (by decide) _ _ _, fun _ h => nomatch h⟩
  | airContext status =>
    obtain ⟨-, h⟩ := Option.ite_none_left_eq_some.1 h
    cases h
    exact .inl ⟨plain_parameterPane (by decide) (by decide) _ _ _, fun _ h => nomatch h⟩
  | user status =>
    cases h
    exact .inr ⟨status, rfl, rfl⟩

end

end Awayuki.Panes
