import Awayuki.Kq.Compile
import Awayuki.Library.JsonText
import Awayuki.Outbox.Delivery

/-!
# The layout of the columns

`save_columns` of `application/preferences.rs` stores the columns, and `columns` of
`application/desktop.rs` reads them at the next start.  One text column of the table has both the
parameter of a column and its display filter: a filter that is not the default one is wrapped around
the parameter as a JSON object.

* `encodeColumnParam`, `decodeColumnParam`: the text column;
* `normalizedColumnRequest`: panes and positions are numbered anew;
* `saveColumns`, `readColumns`: what is stored and what is read;
* `Unchanged`, `KeepsParam`: a column that is read as it was saved, and what its parameter needs.
-/

namespace Awayuki.Preferences

open Kq Outbox

/-! ### Display filters -/

structure TimelineDisplayFilter where
  enabled : Bool
  excludeBoosts : Bool
  excludeMedia : Bool
  includeMedia : Bool
  deriving DecidableEq, Repr

namespace TimelineDisplayFilter

def default : TimelineDisplayFilter := ⟨false, false, false, false⟩

def applies (filter : TimelineDisplayFilter) : Bool :=
  filter.enabled && (filter.excludeBoosts || filter.excludeMedia || filter.includeMedia)

/-- The text of a filter; `serde_json` sorts the keys of an object. -/
def text (filter : TimelineDisplayFilter) : Str :=
  let bool (b : Bool) : Str := if b then "true".toList else "false".toList
  JsonText.object [("enabled".toList, bool filter.enabled),
    ("excludeBoosts".toList, bool filter.excludeBoosts),
    ("excludeMedia".toList, bool filter.excludeMedia),
    ("includeMedia".toList, bool filter.includeMedia)]

/-- A field of a filter; one that is missing has its default. -/
def field (members : List (Str × JsonText.Value)) (key : String) : Option Bool :=
  match JsonText.get members key.toList with
  | none => some false
  | some (.bool b) => some b
  | some _ => none

/-- The filter of an array, which has the fields in their order. -/
def ofElements : List JsonText.Value → Option TimelineDisplayFilter
  | [] => some default
  | [.bool a] => some ⟨a, false, false, false⟩
  | [.bool a, .bool b] => some ⟨a, b, false, false⟩
  | [.bool a, .bool b, .bool c] => some ⟨a, b, c, false⟩
  | [.bool a, .bool b, .bool c, .bool d] => some ⟨a, b, c, d⟩
  | _ => none

/-- `serde_json::from_value`. -/
def fromValue : JsonText.Value → Option TimelineDisplayFilter
  | .object members =>
    match field members "enabled", field members "excludeBoosts", field members "excludeMedia",
      field members "includeMedia" with
    | some enabled, some excludeBoosts, some excludeMedia, some includeMedia =>
      some { enabled, excludeBoosts, excludeMedia, includeMedia }
    | _, _, _, _ => none
  | .array values => ofElements values
  | _ => none

end TimelineDisplayFilter

/-! ### Columns -/

structure ColumnSummary where
  id : Str
  columnType : Str
  columnParam : Option Str
  name : Str
  maxStatuses : ℕ
  paneIndex : ℕ
  position : ℤ
  accountAcct : Option Str
  displayFilter : Option TimelineDisplayFilter
  desktopNotifications : Option Bool
  notificationSound : Option Str
  deriving DecidableEq, Repr

/-- A row of `column_configs`. -/
structure DbColumnConfig where
  id : Str
  accountAcct : Option Str
  columnType : Str
  columnParam : Option Str
  position : ℤ
  width : Option ℤ
  name : Option Str
  maxStatuses : Option ℤ
  paneIndex : Option ℤ
  desktopNotifications : Bool
  notificationSound : Option Str
  deriving DecidableEq, Repr

inductive TimelineType
  | home | «public» | «local»
  | list (id : Str)
  | feed (id : Str)
  | hashtag (tag : Str)
  | notification
  | customSql (sql : Str)
  | bookmarks | favourites
  | userBookmarks (serverDomain accountId : Str)
  | search (query : Str)
  | yukariQuery (query : Str)
  | krileQuery (query : Str)
  deriving DecidableEq, Repr

def TimelineType.displayName : TimelineType → Str
  | .home => "Home".toList
  | .public => "Federated".toList
  | .local => "Local".toList
  | .list id => "List: ".toList ++ id
  | .feed id => "Feed: ".toList ++ id
  | .hashtag tag => '#' :: tag
  | .notification => "Notification".toList
  | .customSql _ => "Custom".toList
  | .bookmarks => "Bookmarks".toList
  | .favourites => "Favorites".toList
  | .userBookmarks _ _ => "Bookmarks".toList
  | .search _ => "Search".toList
  | .yukariQuery _ => "YQ".toList
  | .krileQuery _ => "KQ".toList

/-- Is the type one of these? -/
def isOneOf (columnType : Str) (types : List String) : Bool :=
  types.any fun name => columnType = name.toList

def columnTypeIsGlobal (columnType : Str) : Bool :=
  isOneOf columnType ["home", "public", "notification", "bookmarks", "favourites", "custom", "yq",
    "kq", "search", "user_bookmarks", "thread", "profile", "airContext"]

def timelineTypeSupportsDisplayFilter (columnType : Str) : Bool :=
  !isOneOf columnType ["custom", "yq", "kq", "notification", "bookmarks", "favourites",
    "user_bookmarks", "thread", "profile", "airContext"]

/-- `value.as_str()` -/
def asStr : JsonText.Value → Option Str
  | .string s => some s
  | _ => none

section

variable (finite : Str → Bool)

/-- The members of a text that is an object; `serde_json` nests less than 128 levels. -/
def asObject (raw : Str) : Option (List (Str × JsonText.Value)) :=
  match JsonText.parse finite 127 raw with
  | some (.object members) => some members
  | _ => none

/-- The members of a text that is an object with `filters`. -/
def wrapped (raw : Str) : Option (List (Str × JsonText.Value)) :=
  (asObject finite raw).filter fun members => (JsonText.get members "filters".toList).isSome

def plainColumnParam : Option Str → Option Str
  | none => none
  | some raw =>
    match wrapped finite raw with
    | none => some raw
    | some members => (JsonText.get members "value".toList).bind asStr

/-- A trimmed member, if it is a text that is not empty. -/
def bookmarkField (members : List (Str × JsonText.Value)) (key : String) : Option Str :=
  (((JsonText.get members key.toList).bind asStr).map Str.trim).filter fun field => !field.isEmpty

def parseUserBookmarksColumnParam (param : Str) : Option TimelineType :=
  (asObject finite param).bind fun members =>
    (bookmarkField members "serverDomain").bind fun serverDomain =>
      (bookmarkField members "accountId").map fun accountId =>
        .userBookmarks serverDomain accountId

def TimelineType.fromColumnConfig (columnType : Str) (columnParam : Option Str) :
    Option TimelineType :=
  let param := plainColumnParam finite columnParam
  if columnType = "home".toList then some .home
  else if columnType = "public".toList then some .public
  else if columnType = "local".toList then some .local
  else if columnType = "notification".toList then some .notification
  else if columnType = "bookmarks".toList then some .bookmarks
  else if columnType = "favourites".toList then some .favourites
  else if columnType = "list".toList then param.map .list
  else if columnType = "feed".toList then param.map .feed
  else if columnType = "hashtag".toList then param.map .hashtag
  else if columnType = "custom".toList then param.map .customSql
  else if columnType = "search".toList then param.map .search
  else if columnType = "yq".toList then param.map .yukariQuery
  else if columnType = "kq".toList then param.map .krileQuery
  else if columnType = "user_bookmarks".toList then
    columnParam.bind (parseUserBookmarksColumnParam finite)
  else none

/-- The text of a parameter with a filter around it. -/
def wrap (columnParam : Option Str) (filter : TimelineDisplayFilter) : Str :=
  JsonText.object [("filters".toList, filter.text),
    ("value".toList, (columnParam.map JsonText.quote).getD "null".toList)]

/-- `encode_column_param_with_display_filter` -/
def encodeColumnParam (column : ColumnSummary) : Option Str :=
  if !timelineTypeSupportsDisplayFilter column.columnType then column.columnParam
  else
    let filter := column.displayFilter.getD .default
    if filter = .default then column.columnParam else some (wrap column.columnParam filter)

/-- `decode_column_param_with_display_filter` -/
def decodeColumnParam (columnType : Str) (columnParam : Option Str) :
    Option Str × Option TimelineDisplayFilter :=
  if !timelineTypeSupportsDisplayFilter columnType then (columnParam, none)
  else
    match columnParam with
    | none => (none, none)
    | some raw =>
      match wrapped finite raw with
      | none => (some raw, none)
      | some members =>
        ((JsonText.get members "value".toList).bind asStr,
          (JsonText.get members "filters".toList).bind TimelineDisplayFilter.fromValue)

/-! ### Saving -/

/-- The order of the request. -/
def requestKey (column : ColumnSummary) : ℕ ×ₗ ℤ ×ₗ Str :=
  toLex (column.paneIndex, toLex (column.position, column.name))

/-- The loop of `normalized_column_request`: the new numbers of the panes, and the next position in
each of them. -/
def renumber : List (ℕ × ℕ) → (ℕ → ℕ) → List ColumnSummary → List ColumnSummary
  | _, _, [] => []
  | panes, positions, column :: columns =>
    let paneIndex := (panes.lookup column.paneIndex).getD panes.length
    let panes :=
      if (panes.lookup column.paneIndex).isSome then panes
      else (column.paneIndex, panes.length) :: panes
    { column with
      paneIndex
      position := positions paneIndex
      maxStatuses := max column.maxStatuses 1 } ::
        renumber panes (Function.update positions paneIndex (positions paneIndex + 1)) columns

/-- The columns in the order of the request. -/
def sortedColumns (columns : List ColumnSummary) : List ColumnSummary :=
  columns.insertionSort fun a b => requestKey a ≤ requestKey b

def normalizedColumnRequest (columns : List ColumnSummary) : List ColumnSummary :=
  renumber [] (fun _ => 0) (sortedColumns columns)

inductive SaveColumnsError
  | kqCompile (failure : Failure)
  | other (message : Str)
  deriving DecidableEq

/-- The signed-in accounts and their providers, and the error of the database, if it has one. -/
structure Runtime where
  sessionKind : Str → Option ServerKind
  replaceError : List DbColumnConfig → Option Str

def notificationSounds : List String := ["Default", "Silent", "Message", "Mail", "Reminder"]

/-- The account of a column without the blanks around it, if there is one. -/
def trimmedAcct (column : ColumnSummary) : Option Str :=
  (column.accountAcct.map Str.trim).filter fun acct => !acct.isEmpty

def feedNeedsSource : SaveColumnsError :=
  .other "Feed timeline requires a Bluesky source account".toList

def normalizedColumnAccountAcct (column : ColumnSummary) :
    Except SaveColumnsError (Option Str) :=
  if columnTypeIsGlobal column.columnType then .ok none
  else
    match trimmedAcct column with
    | some acct => .ok (some acct)
    | none =>
      .error (.other ("Timeline type '".toList ++ column.columnType ++
        "' requires an explicit source account".toList))

/-- The cast of an unsigned number to `i32`. -/
@[irreducible] def asI32 (n : ℕ) : ℤ := (n : ℤ).bmod 4294967296

/-- The row that is stored for a column. -/
def columnConfig (column : ColumnSummary) (accountAcct : Option Str) : DbColumnConfig where
  id := column.id
  accountAcct := accountAcct
  columnType := column.columnType
  columnParam := encodeColumnParam column
  position := column.position
  width := none
  name := some column.name
  maxStatuses := some (asI32 (max column.maxStatuses 1))
  paneIndex := some (asI32 column.paneIndex)
  desktopNotifications := column.desktopNotifications.getD true
  notificationSound := column.notificationSound

variable (runtime : Runtime)

def checkFeed (column : ColumnSummary) : Except SaveColumnsError Unit :=
  if column.columnType = "feed".toList then
    match trimmedAcct column with
    | none => .error feedNeedsSource
    | some acct =>
      match runtime.sessionKind acct with
      | none => .error (.other ("Account is not signed in: ".toList ++ acct))
      | some kind => if kind = .bluesky then .ok () else .error feedNeedsSource
  else .ok ()

def checkSound (column : ColumnSummary) : Except SaveColumnsError Unit :=
  match column.notificationSound with
  | none => .ok ()
  | some sound =>
    if isOneOf sound notificationSounds then .ok ()
    else .error (.other ("Unsupported notification sound: ".toList ++ sound))

/-- The rows, and the error of the first column that has none. -/
def columnConfigs : List DbColumnConfig → List ColumnSummary →
    Except SaveColumnsError (List DbColumnConfig)
  | configs, [] => .ok configs
  | configs, column :: columns =>
    match normalizedColumnAccountAcct column with
    | .error error => .error error
    | .ok accountAcct =>
      if configs.any fun config => config.id = column.id then
        .error (.other ("Duplicate column id: ".toList ++ column.id))
      else columnConfigs (configs ++ [columnConfig column accountAcct]) columns

variable [CharTable] [RegexCrate]

def validateTimelineColumn (columnType : Str) (columnParam : Option Str) :
    Except SaveColumnsError Unit :=
  match TimelineType.fromColumnConfig finite columnType columnParam with
  | none => .error (.other ("Unsupported timeline type: ".toList ++ columnType))
  | some (.krileQuery query) =>
    match compileQuery query with
    | .error failure => .error (.kqCompile failure)
    | .ok _ => .ok ()
  | some _ => .ok ()

def checkColumn (column : ColumnSummary) : Except SaveColumnsError Unit :=
  (validateTimelineColumn finite column.columnType column.columnParam).bind fun _ =>
    (checkFeed runtime column).bind fun _ => checkSound column

/-- The error of the first column that has one. -/
def checkColumns : List ColumnSummary → Except SaveColumnsError Unit
  | [] => .ok ()
  | column :: columns =>
    (checkColumn finite runtime column).bind fun _ => checkColumns columns

/-- `save_columns` up to the effects of the new rows. -/
def saveColumns (request : List ColumnSummary) : Except SaveColumnsError (List DbColumnConfig) :=
  let columns := normalizedColumnRequest request
  (checkColumns finite runtime columns).bind fun _ =>
    (columnConfigs [] columns).bind fun configs =>
      match runtime.replaceError configs with
      | some error =>
        .error (.other ("Failed to save columns atomically: ".toList ++ error))
      | none => .ok configs

/-! ### Reading -/

def columnToSummary (config : DbColumnConfig) : Option ColumnSummary :=
  let parsed := TimelineType.fromColumnConfig finite config.columnType config.columnParam
  parsed.map fun timelineType =>
    let decoded := decodeColumnParam finite config.columnType config.columnParam
    { id := config.id
      columnType := config.columnType
      columnParam := decoded.1
      name := config.name.getD timelineType.displayName
      maxStatuses := (max (config.maxStatuses.getD 100) 1).toNat
      paneIndex := (max (config.paneIndex.getD 0) 0).toNat
      position := config.position
      accountAcct := config.accountAcct
      displayFilter := decoded.2
      desktopNotifications := some config.desktopNotifications
      notificationSound := config.notificationSound }

/-- `ORDER BY pane_index, position` -/
def configKey (config : DbColumnConfig) : WithBot ℤ ×ₗ ℤ :=
  toLex (config.paneIndex, config.position)

def defaultColumn : ColumnSummary where
  id := "default-home".toList
  columnType := "home".toList
  columnParam := none
  name := "Home".toList
  maxStatuses := 100
  paneIndex := 0
  position := 0
  accountAcct := none
  displayFilter := none
  desktopNotifications := some true
  notificationSound := none

/-- `columns` of the stored rows. -/
def readColumns (configs : List DbColumnConfig) : List ColumnSummary :=
  let rows := configs.insertionSort fun a b => configKey a ≤ configKey b
  if rows.isEmpty then [defaultColumn] else rows.filterMap (columnToSummary finite)

/-! ### What is to be restored -/

/-- The filter that a column is shown with. -/
def effectiveFilter (column : ColumnSummary) : TimelineDisplayFilter :=
  if timelineTypeSupportsDisplayFilter column.columnType then
    column.displayFilter.getD .default
  else .default

/-- The column is read as it was. -/
structure Unchanged (column read : ColumnSummary) : Prop where
  id : read.id = column.id
  columnType : read.columnType = column.columnType
  columnParam : read.columnParam = column.columnParam
  name : read.name = column.name
  maxStatuses : read.maxStatuses = column.maxStatuses
  paneIndex : read.paneIndex = column.paneIndex
  position : read.position = column.position
  filter : effectiveFilter read = effectiveFilter column
  desktopNotifications : read.desktopNotifications.getD true = column.desktopNotifications.getD true
  notificationSound : read.notificationSound = column.notificationSound

/-- A parameter that is stored alone is not taken for one with a filter. -/
def KeepsParam (column : ColumnSummary) : Prop :=
  timelineTypeSupportsDisplayFilter column.columnType = true →
    effectiveFilter column = .default → ∀ raw, column.columnParam = some raw →
      wrapped finite raw = none

end

end Awayuki.Preferences
