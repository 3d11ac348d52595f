import Awayuki.Db.Order
import Awayuki.Kq.Hydration

/-!
# KQ: source plans

The planner of `kq_source_plan.rs`: which rows of the database reach the evaluator.

* `RowSource`, `EffectiveSource`: what a row or the status it displays is looked for by, each with
  the keys it yields (`pushKeys`), and a row source with its test of one row (`pushProbe`);
* `candidatePlan`, `probePlan`: the two ways to read the rows of some sources;
* `planSourceScanWithLimit`: the sources of a query, and the plan for them.

A plan is seen as what its SQL selects from a database.  The two ways need a source: for none at
all, the planner has the empty plan.
-/

namespace Awayuki.Kq

/-- `MAX_SORTED_CANDIDATES`. -/
def maxSortedCandidates : ℕ := 20000

inductive SourceScanMode
  | fullScan | candidates | probe | empty
  deriving DecidableEq, Repr

structure SourceScanPlan where
  mode : SourceScanMode
  select : Database → List DbStatus
  predicate : Option (Database → DbStatus → Bool)

/-- `SELECT s.* FROM statuses s`. -/
def fullScanSelect (db : Database) : List DbStatus := db.statuses

namespace SourceScanPlan

def fullScan : SourceScanPlan := ⟨.fullScan, fullScanSelect, none⟩

def empty : SourceScanPlan := ⟨.empty, fullScanSelect, some fun _ _ => false⟩

/-- The rows `s` of the plan under its predicate. -/
def rows (plan : SourceScanPlan) (db : Database) : List DbStatus :=
  (plan.select db).filter fun s => plan.predicate.all fun predicate => predicate db s

end SourceScanPlan

/-! ### Sources of rows -/

/-- A source matched on the top/wrapper row itself. -/
inductive RowSource
  | memberships (timelineTypes : List Str) (accountAccts : Option (List Str))
  | authors (keys : List EntityKey)
  deriving DecidableEq, Repr

/-- The columns of `status_viewer_state` that are sources. -/
inductive ViewerColumn
  | bookmarked | favourited
  deriving DecidableEq, Repr

def ViewerColumn.get : ViewerColumn → DbStatusViewerState → Option Bool
  | .bookmarked, state => state.bookmarked
  | .favourited, state => state.favourited

/-- A source matched on the effective status. -/
inductive EffectiveSource
  | viewerState (column : ViewerColumn) (accountAccts : List Str)
  | directVisibility
  | repliesTo (accountIds : List Str)
  | mentions (idLiterals : List Str) (acctNeedles : Option (List Str))
  | keys (wanted : List EntityKey)
  deriving DecidableEq, Repr

section Keys

variable (db : Database)

/-- The entries that a source of memberships is about. -/
def isMembership (timelineTypes : List Str) (accountAccts : Option (List Str))
    (entry : TimelineEntry) : Bool :=
  timelineTypes.contains entry.timelineType &&
    accountAccts.all fun accountAccts => accountAccts.contains entry.accountAcct

def RowSource.pushKeys : RowSource → List EntityKey
  | .memberships timelineTypes accountAccts =>
    (db.timelineEntries.filter (isMembership timelineTypes accountAccts)).map
      TimelineEntry.statusKey
  | .authors keys => (db.statuses.filter fun s => keys.contains s.authorKey).map DbStatus.key

def RowSource.pushProbe (s : DbStatus) : RowSource → Bool
  | .memberships timelineTypes accountAccts =>
    db.timelineEntries.any fun entry =>
      isMembership timelineTypes accountAccts entry && entry.statusKey = s.key
  | .authors keys => keys.contains s.authorKey

/-- `GLOB '*[^ -~]*'`: is there a character that is not printable ASCII? -/
def hasUnprintable (json : Str) : Bool := json.any fun c => !(' ' ≤ c && c ≤ '~')

/-- May the document name an account with one of the identifiers or of the names? -/
def mayMention (idLiterals acctNeedles : List Str) (json : Str) : Bool :=
  hasUnprintable json || (idLiterals.any fun literal => json.contains literal)
    || acctNeedles.any fun needle => json.toAsciiLowercase.contains needle

def EffectiveSource.pushKeys : EffectiveSource → List EntityKey
  | .viewerState column accountAccts =>
    (db.viewerStates.filter fun state =>
      accountAccts.contains state.loginAccountAcct && column.get state = some true).map
        DbStatusViewerState.statusKey
  | .directVisibility =>
    (db.statuses.filter fun s => s.visibility = "direct".toList).map DbStatus.key
  | .repliesTo accountIds =>
    (db.statuses.filter fun s => s.inReplyToAccountId.any accountIds.contains).map DbStatus.key
  | .mentions idLiterals acctNeedles =>
    (db.statuses.filter fun s => s.mentionsJson.any fun json =>
      acctNeedles.all fun acctNeedles => mayMention idLiterals acctNeedles json).map DbStatus.key
  | .keys wanted => wanted

/-- The table `kq_effective_keys`. -/
def effectiveKeys (effective : List EffectiveSource) : List EntityKey :=
  effective.flatMap fun source => source.pushKeys db

end Keys

/-! ### The two ways to read them -/

/-- `candidate_plan`: from the keys of the sources, each once. -/
def candidatePlan (rows : List RowSource) (effective : List EffectiveSource) : SourceScanPlan where
  mode := .candidates
  select db :=
    let boosts := (effectiveKeys db effective).flatMap fun key =>
      (db.statuses.filter fun s => s.reblogKey = some key).map DbStatus.key
    let sourceKeys := Keyed.firsts id
      (rows.flatMap (RowSource.pushKeys db) ++ effectiveKeys db effective ++ boosts)
    sourceKeys.flatMap fun key => db.statuses.filter fun s => s.key = key
  predicate := none

/-- `probe_plan`: from all rows, each tested. -/
def probePlan (rows : List RowSource) (effective : List EffectiveSource) : SourceScanPlan where
  mode := .probe
  select := fullScanSelect
  predicate := some fun db s =>
    (rows.any (RowSource.pushProbe db s)) || (effectiveKeys db effective).contains s.key
      || s.reblogKey.any (effectiveKeys db effective).contains

/-- `estimate_source_rows`: the keys with their repetitions, counted up to the limit. -/
def estimateSourceRows (db : Database) (rows : List RowSource) (effective : List EffectiveSource)
    (maxSortedCandidates : ℕ) : ℕ :=
  min (maxSortedCandidates + 1)
    ((rows.flatMap (RowSource.pushKeys db)).length + (effectiveKeys db effective).length)

/-! ### The sources of a query -/

def pushUnique {α : Type} [DecidableEq α] (values : List α) (value : α) : List α :=
  if value ∈ values then values else values ++ [value]

/-- What `serde_json` writes for a character of a string. -/
def jsonChar (c : Char) : Str :=
  if c = '"' then ['\\', '"']
  else if c = '\\' then ['\\', '\\']
  else if c.toNat = 8 then ['\\', 'b']
  else if c.toNat = 9 then ['\\', 't']
  else if c.toNat = 10 then ['\\', 'n']
  else if c.toNat = 12 then ['\\', 'f']
  else if c.toNat = 13 then ['\\', 'r']
  else if c.toNat < 32 then
    "\\u00".toList ++ [Nat.digitChar (c.toNat / 16), Nat.digitChar (c.toNat % 16)]
  else [c]

/-- `json_string`: the literal of a string. -/
def jsonString (value : Str) : Str := '"' :: value.flatMap jsonChar ++ ['"']

/-- The stored types of hashtag timelines. -/
def loadStoredHashtagTypes (db : Database) : List Str :=
  Keyed.firsts id ((db.timelineEntries.map (·.timelineType)).filter fun timelineType =>
    "tag:".toList ≤ timelineType ∧ timelineType < "tag;".toList)

section Sources

variable [Icu] (db : Database) (loginAccounts : List LoginAccountIdentity)

def selectedAccts (arguments : List Str) : List Str :=
  (selectedLoginAccounts arguments loginAccounts).map (·.acct)

def pushMembership (rows : List RowSource) (timelineType : Str) (accountSelectors : List Str) :
    List RowSource :=
  let accountAccts := selectedAccts loginAccounts accountSelectors
  if accountAccts ≠ [] then pushUnique rows (.memberships [timelineType] (some accountAccts))
  else rows

/-- Does the account have an identifier or a name of a `user` selector?  (The condition of
`resolve_author_keys`; `COLLATE NOCASE` ignores the case of ASCII letters.) -/
def selectorNames (selector : Str) (a : DbAccount) : Bool :=
  let identity := withoutMarker selector
  let name := identity.trim.trimStartMatches '@'
  let folded := Icu.fold name
  let localName := (name.splitOnce '@').elim name Prod.fst
  let foldedLocalName := (folded.splitOnce '@').elim folded Prod.fst
  a.id = identity
    || a.acct.eqIgnoreAsciiCase name || a.acct.eqIgnoreAsciiCase folded
    || a.acct.eqIgnoreAsciiCase localName || a.acct.eqIgnoreAsciiCase foldedLocalName
    || a.username.eqIgnoreAsciiCase name || a.username.eqIgnoreAsciiCase folded

/-- The accounts that a `user` selector can match. -/
def resolveAuthorKeys (selector : Str) : List EntityKey :=
  (db.accounts.filter (selectorNames selector)).map DbAccount.key

/-- The name of a login account as a mention may have it, without its server. -/
def mentionAcctNeedle (account : LoginAccountIdentity) : Str :=
  let acct := Icu.fold ((loginProviderAcct account).trim.trimStartMatches '@')
  acct.takeWhile (· ≠ '@')

/-- JSON writes the text as it is. -/
def isPlainJson (text : Str) : Bool :=
  text.isAscii && text.all fun c => c ≠ '"' && c ≠ '\\' && 32 ≤ c.toNat && c.toNat ≠ 127

/-- `mention_acct_needles`: `none` if a name is not written as it is. -/
def mentionAcctNeedles (accounts : List LoginAccountIdentity) : Option (List Str) :=
  let needles := accounts.map mentionAcctNeedle
  if needles.all isPlainJson then some needles else none

/-- What the loop of `plan_source_scan_with_limit` collects. -/
structure CollectedSources where
  rows : List RowSource
  effective : List EffectiveSource
  authorKeys : List EntityKey
  hasConversation : Bool

/-- The memberships of one argument of a `list` source. -/
def pushListArgument (rows : List RowSource) (argument : Str) : List RowSource :=
  let (accountSelector, listId) := splitScopedListId argument
  pushMembership loginAccounts rows ("list:".toList ++ listId) accountSelector.toList

/-- The memberships of one argument of a `hashtag` source. -/
def pushHashtagArgument (rows : List RowSource) (tag : Str) : List RowSource :=
  let timelineTypes := (loadStoredHashtagTypes db).filter fun timelineType =>
    (Str.stripPrefix "tag:" timelineType).any fun parameter => hashtagParameterMatches parameter tag
  if timelineTypes ≠ [] then pushUnique rows (.memberships timelineTypes none) else rows

def pushViewerState (effective : List EffectiveSource) (column : ViewerColumn)
    (arguments : List Str) : List EffectiveSource :=
  let accountAccts := selectedAccts loginAccounts arguments
  if accountAccts ≠ [] then pushUnique effective (.viewerState column accountAccts)
  else effective

def pushMentions (effective : List EffectiveSource) (arguments : List Str) :
    List EffectiveSource :=
  let accounts := selectedLoginAccounts arguments loginAccounts
  if accounts ≠ [] then
    pushUnique (pushUnique effective (.repliesTo (accounts.map (·.accountId))))
      (.mentions (accounts.map fun account => jsonString account.accountId)
        (mentionAcctNeedles accounts))
  else effective

/-- One round of the loop; `none` for a source that no index answers. -/
def pushSource (state : CollectedSources) (source : SourceSpec) : Option CollectedSources :=
  match source.kind with
  | .local | .search | .track => none
  | .home =>
    some { state with rows := pushMembership loginAccounts state.rows "home" source.arguments }
  | .public =>
    some { state with rows := pushMembership loginAccounts state.rows "public" source.arguments }
  | .localPublic =>
    some { state with rows := pushMembership loginAccounts state.rows "local" source.arguments }
  | .list =>
    some { state with rows := source.arguments.foldl (pushListArgument loginAccounts) state.rows }
  | .hashtag =>
    some { state with rows := source.arguments.foldl (pushHashtagArgument db) state.rows }
  | .user =>
    some { state with
      authorKeys := (source.arguments.flatMap (resolveAuthorKeys db)).foldl pushUnique
        state.authorKeys }
  | .bookmarks =>
    some { state with
      effective := pushViewerState loginAccounts state.effective .bookmarked source.arguments }
  | .favourites =>
    some { state with
      effective := pushViewerState loginAccounts state.effective .favourited source.arguments }
  | .mentions =>
    some { state with effective := pushMentions loginAccounts state.effective source.arguments }
  | .direct =>
    if selectedLoginAccounts source.arguments loginAccounts ≠ [] then
      some { state with effective := pushUnique state.effective .directVisibility }
    else some state
  | .conversation => some { state with hasConversation := true }

/-- The row sources, with the authors last. -/
def CollectedSources.rowSources (state : CollectedSources) : List RowSource :=
  if state.authorKeys ≠ [] then state.rows ++ [.authors state.authorKeys] else state.rows

/-- The effective sources, with the statuses of the conversations last. -/
def CollectedSources.effectiveSources (state : CollectedSources)
    (conversationKeys : List StatusKey) : List EffectiveSource :=
  if state.hasConversation ∧ conversationKeys ≠ [] then
    state.effective ++ [.keys (conversationKeys.map fun key => (key.id, key.serverDomain))]
  else state.effective

/-- `plan_source_scan_with_limit` -/
def planSourceScanWithLimit (sources : List SourceSpec) (conversationKeys : List StatusKey)
    (maxSortedCandidates : ℕ) : SourceScanPlan :=
  match sources.foldlM (pushSource db loginAccounts) ⟨[], [], [], false⟩ with
  | none => .fullScan
  | some state =>
    let rows := state.rowSources
    let effective := state.effectiveSources conversationKeys
    if rows = [] ∧ effective = [] then .empty
    else if estimateSourceRows db rows effective maxSortedCandidates ≤ maxSortedCandidates then
      candidatePlan rows effective
    else probePlan rows effective

/-- `plan_source_scan` -/
def planSourceScan (sources : List SourceSpec) (conversationKeys : List StatusKey) :
    SourceScanPlan :=
  planSourceScanWithLimit db loginAccounts sources conversationKeys maxSortedCandidates

end Sources

end Awayuki.Kq
