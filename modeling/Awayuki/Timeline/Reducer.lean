import Awayuki.Timeline.Status
import Awayuki.Library.OrderedMap
import Awayuki.Library.CappedMerge
import Awayuki.Library.Mark
import Mathlib.Data.List.Sort

/-!
# The timeline reducer

`reduceTimelineEntities` of `domain/timelineEntities.ts` and the functions under it.

* `TimelineEntityState`: the stored rows, the keys of each column, the rows set aside for a column
  (`deferredColumnKeys`) and the rows of each post (`canonicalIndex`);
* `upsertStatusIdentity`, `replaceCanonicalAliases`, `removeCanonicalAliases`, …: what an
  operation does to the rows;
* `applyUpsertBatch`, `mergeOrderedKeys`, …: what it does to the columns;
* `relinkNestedStatuses`, `pruneUnreferencedEntities`: the passes that end every reduction.

A `Map` is an `OrderedMap`, and so is a record of columns.  Objects are compared by their content:
where the code keeps an object because it is the same one, storing it again changes nothing.
-/

namespace Awayuki.Timeline

variable {β : Type}

/-! ### The state -/

/-- `StatusKey | ReadonlySet<StatusKey>` -/
inductive CanonicalAliases
  | one (key : StatusKey)
  | many (keys : List StatusKey)
  deriving DecidableEq

abbrev CanonicalIndex := OrderedMap StatusKey CanonicalAliases

abbrev ColumnKeys := OrderedMap Str (List StatusKey)

structure TimelineEntityState (β : Type) where
  entities : OrderedMap StatusKey (TimelineStatus β)
  columnKeys : ColumnKeys
  deferredColumnKeys : ColumnKeys
  canonicalIndex : CanonicalIndex
  timelines : OrderedMap Str (List (TimelineStatus β))

def createTimelineEntityState : TimelineEntityState β where
  entities := .empty
  columnKeys := .empty
  deferredColumnKeys := .empty
  canonicalIndex := .empty
  timelines := .empty

/-- The state while the operations are applied.  `serverIdIndex` is built when it is first asked;
`trimmedColumns` are the columns whose visible rows were dropped by a limit. -/
structure MutableTimelineEntityState (β : Type) where
  entities : OrderedMap StatusKey (TimelineStatus β)
  columnKeys : ColumnKeys
  deferredColumnKeys : ColumnKeys
  canonicalIndex : CanonicalIndex
  serverIdIndex : Option (OrderedMap Str (List StatusKey))
  trimmedColumns : Finset Str

structure UpsertInColumns (β : Type) where
  columnIds : List Str
  status : TimelineStatus β
  limits : Str → Option Limit
  updateOnly : Bool := false
  preserveAnchorColumns : List Str := []

inductive TimelineEntityOperation (β : Type)
  | replaceColumn (columnId : Str) (statuses : List (TimelineStatus β)) (limit : Limit)
  | appendPage (columnId : Str) (statuses : List (TimelineStatus β))
  | mergeDelta (columnId : Str) (statuses : List (TimelineStatus β)) (limit : Limit)
  | upsertInColumns (operation : UpsertInColumns β)
  | flushDeferredColumn (columnId : Str) (limit : Limit)
  | replaceCanonical (target status : TimelineStatus β)
  | patchCanonical (target : TimelineStatus β) (patch : Patch β)
  | removeCanonical (target : TimelineStatus β)
  | removeFromColumns (target : TimelineStatus β) (columnIds : List Str)
  | removeCanonicalId (serverDomain statusId : Str)
  | removeColumn (columnId : Str)

namespace MutableTimelineEntityState

/-- `columnKeys[columnId] ?? []` -/
def visible (s : MutableTimelineEntityState β) (columnId : Str) : List StatusKey :=
  (s.columnKeys.get columnId).getD []

/-- `deferredColumnKeys[columnId] ?? []` -/
def deferred (s : MutableTimelineEntityState β) (columnId : Str) : List StatusKey :=
  (s.deferredColumnKeys.get columnId).getD []

end MutableTimelineEntityState

open MutableTimelineEntityState

/-! ### The alias index -/

def canonicalAliasKeys : CanonicalAliases → List StatusKey
  | .one key => [key]
  | .many keys => keys

def canonicalAliasesHas (aliases : CanonicalAliases) (key : StatusKey) : Bool :=
  decide (key ∈ canonicalAliasKeys aliases)

def firstCanonicalAlias (aliases : CanonicalAliases) : Option StatusKey :=
  (canonicalAliasKeys aliases).head?

def addCanonicalAlias (index : CanonicalIndex) (canonical key : StatusKey) : CanonicalIndex :=
  match index.get canonical with
  | none => index.set canonical (.one key)
  | some aliases =>
    if canonicalAliasesHas aliases key then index
    else index.set canonical (.many (canonicalAliasKeys aliases ++ [key]))

def removeCanonicalAlias (index : CanonicalIndex) (canonical key : StatusKey) : CanonicalIndex :=
  match index.get canonical with
  | none => index
  | some (.one key') => if key' = key then index.delete canonical else index
  | some (.many keys) =>
    if key ∈ keys then
      match keys.filter (· ≠ key) with
      | [retained] => index.set canonical (.one retained)
      | retained => index.set canonical (.many retained)
    else index

section Env

variable (env : Platform)

def serverStatusIdIndexKey (serverDomain statusId : Str) : Str :=
  env.toLowerCase (env.trim serverDomain) ++ ['\x00'] ++ statusId

def addServerIdAlias (index : OrderedMap Str (List StatusKey)) (serverDomain statusId : Str)
    (key : StatusKey) : OrderedMap Str (List StatusKey) :=
  let indexKey := serverStatusIdIndexKey env serverDomain statusId
  index.set indexKey (pushNew ((index.get indexKey).getD []) key)

/-- Both server-local ids of a row. -/
def addServerIdAliases (index : OrderedMap Str (List StatusKey)) (status : StatusFields β)
    (key : StatusKey) : OrderedMap Str (List StatusKey) :=
  addServerIdAlias env (addServerIdAlias env index status.serverDomain status.id key)
    status.serverDomain status.originalStatusId key

def buildServerIdIndex (entities : OrderedMap StatusKey (TimelineStatus β)) :
    OrderedMap Str (List StatusKey) :=
  entities.entries.foldl (fun index e => addServerIdAliases env index e.2.fields e.1) .empty

/-! ### Rows -/

/-- `upsertStatusIdentity` of a row whose quote is settled: the state, the key of the row and the
key of its post. -/
def storeStatus (s : MutableTimelineEntityState β) (normalized : TimelineStatus β) :
    MutableTimelineEntityState β × StatusKey × StatusKey :=
  let canonical := canonicalStatusKey env normalized.fields
  let key := statusKeyFromCanonical env normalized.fields canonical
  ({ s with
      entities := s.entities.set key normalized
      canonicalIndex := addCanonicalAlias s.canonicalIndex canonical key
      serverIdIndex := s.serverIdIndex.map fun index =>
        addServerIdAliases env index normalized.fields key }, key, canonical)

/-- Stores a row after the post it quotes, which it then embeds as stored. -/
def upsertStatusIdentity : TimelineStatus β → MutableTimelineEntityState β →
    MutableTimelineEntityState β × StatusKey × StatusKey
  | .plain fields, s => storeStatus env s (.plain fields)
  | .quoting fields quote, s =>
    let (s, quoteKey, _) := upsertStatusIdentity quote s
    storeStatus env s (.quoting fields ((s.entities.get quoteKey).getD quote))

def upsertStatus (s : MutableTimelineEntityState β) (incoming : TimelineStatus β) :
    MutableTimelineEntityState β × StatusKey :=
  let (s, key, _) := upsertStatusIdentity env incoming s
  (s, key)

/-- Changes every stored row of a post. -/
def updateAliases (f : TimelineStatus β → TimelineStatus β) (s : MutableTimelineEntityState β)
    (aliases : CanonicalAliases) : MutableTimelineEntityState β :=
  (canonicalAliasKeys aliases).foldl (fun s key =>
    match s.entities.get key with
    | none => s
    | some current => { s with entities := s.entities.set key (f current) }) s

def replaceCanonicalAliases (s : MutableTimelineEntityState β) (canonical : StatusKey)
    (updated : TimelineStatus β) : MutableTimelineEntityState β :=
  match s.canonicalIndex.get canonical with
  | none => (upsertStatus env s updated).1
  | some aliases => updateAliases (mergeUpdatedStatusIntoEntry · updated) s aliases

def patchCanonicalAliases (s : MutableTimelineEntityState β) (canonical : StatusKey)
    (patch : Patch β) : MutableTimelineEntityState β :=
  match s.canonicalIndex.get canonical with
  | none => s
  | some aliases => updateAliases patch.apply s aliases

/-! ### Columns -/

def setColumnKeys (s : MutableTimelineEntityState β) (columnId : Str) (keys : List StatusKey) :
    MutableTimelineEntityState β :=
  { s with columnKeys := s.columnKeys.set columnId keys }

def setDeferredColumnKeys (s : MutableTimelineEntityState β) (columnId : Str)
    (keys : List StatusKey) : MutableTimelineEntityState β :=
  { s with
    deferredColumnKeys :=
      if keys = [] then s.deferredColumnKeys.delete columnId
      else s.deferredColumnKeys.set columnId keys }

/-- `onTrim`, when it is called. -/
def trimIf (s : MutableTimelineEntityState β) (trimmed : Bool) (columnId : Str) :
    MutableTimelineEntityState β :=
  if trimmed then { s with trimmedColumns := insert columnId s.trimmedColumns } else s

/-- Takes removed rows out of a column. -/
def filterColumnKeys (removed : List StatusKey) (s : MutableTimelineEntityState β)
    (column : Str × List StatusKey) : MutableTimelineEntityState β :=
  let filtered := column.2.filter (· ∉ removed)
  if filtered.length ≠ column.2.length then setColumnKeys s column.1 filtered else s

def filterDeferredColumnKeys (removed : List StatusKey) (s : MutableTimelineEntityState β)
    (column : Str × List StatusKey) : MutableTimelineEntityState β :=
  let filtered := column.2.filter (· ∉ removed)
  if filtered.length ≠ column.2.length then setDeferredColumnKeys s column.1 filtered else s

def removeCanonicalAliases (s : MutableTimelineEntityState β) (canonical : StatusKey) :
    MutableTimelineEntityState β :=
  match s.canonicalIndex.get canonical with
  | none => s
  | some aliases =>
    let removed := canonicalAliasKeys aliases
    let s := { s with
      entities := removed.foldl OrderedMap.delete s.entities
      canonicalIndex := s.canonicalIndex.delete canonical }
    let s := s.columnKeys.entries.foldl (filterColumnKeys removed) s
    s.deferredColumnKeys.entries.foldl (filterDeferredColumnKeys removed) s

def removeCanonicalById (s : MutableTimelineEntityState β) (serverDomain statusId : Str) :
    MutableTimelineEntityState β :=
  let serverIdIndex := s.serverIdIndex.getD (buildServerIdIndex env s.entities)
  let s := { s with serverIdIndex := some serverIdIndex }
  let aliases := (serverIdIndex.get (serverStatusIdIndexKey env serverDomain statusId)).getD []
  let canonicals := (aliases.filterMap s.entities.get).foldl
    (fun canonicals entity => pushNew canonicals (canonicalStatusKey env entity.fields)) []
  canonicals.foldl removeCanonicalAliases s

/-- Takes the rows of a post out of the visible rows of a column. -/
def removeFromVisible (aliases : CanonicalAliases) (s : MutableTimelineEntityState β)
    (columnId : Str) : MutableTimelineEntityState β :=
  match s.columnKeys.get columnId with
  | none => s
  | some current =>
    setColumnKeys s columnId (current.filter fun key => !canonicalAliasesHas aliases key)

def removeFromDeferred (aliases : CanonicalAliases) (s : MutableTimelineEntityState β)
    (columnId : Str) : MutableTimelineEntityState β :=
  match s.deferredColumnKeys.get columnId with
  | none => s
  | some deferred =>
    setDeferredColumnKeys s columnId (deferred.filter fun key => !canonicalAliasesHas aliases key)

def removeFromColumns (s : MutableTimelineEntityState β) (target : TimelineStatus β)
    (columnIds : List Str) : MutableTimelineEntityState β :=
  match s.canonicalIndex.get (canonicalStatusKey env target.fields) with
  | none => s
  | some aliases =>
    columnIds.foldl (fun s columnId =>
      removeFromDeferred aliases (removeFromVisible aliases s columnId) columnId) s

/-- The loop of `normalizeStatusList`; the last list is what it did not process. -/
def normalizeLoop (limit : Option ℕ) : List (TimelineStatus β) → MutableTimelineEntityState β →
    List StatusKey → MutableTimelineEntityState β × List StatusKey × List (TimelineStatus β)
  | [], s, result => (s, result, [])
  | status :: rest, s, result =>
    let (s, key) := upsertStatus env s status
    if key ∈ result then normalizeLoop limit rest s result
    else
      let result := result ++ [key]
      if limit.any (· ≤ result.length) then (s, result, rest)
      else normalizeLoop limit rest s result

/-- Stores the rows of a list up to a limit: the state, their keys, and whether it stopped short
(`onTrim`). -/
def normalizeStatusList (s : MutableTimelineEntityState β) (statuses : List (TimelineStatus β))
    (limit : Option Limit) : MutableTimelineEntityState β × List StatusKey × Bool :=
  let (s, keys, rest) := normalizeLoop env (limit.map normalizeTimelineLimit) statuses s []
  (s, keys, !rest.isEmpty)

/-- Keys with the times of their rows. -/
def rankedKeys (entities : OrderedMap StatusKey (TimelineStatus β)) (keys : List StatusKey) :
    List (StatusKey × WithBot ℤ) :=
  keys.map fun key => (key, createdAtTimestamp env (entities.get key))

def mergeOrderedKeys (entities : OrderedMap StatusKey (TimelineStatus β))
    (incoming current : List StatusKey) (limit : Limit) : List StatusKey × Bool :=
  cappedMerge (some (normalizeTimelineLimit limit)) (rankedKeys env entities incoming)
    (rankedKeys env entities current)

/-! ### Batches of upserts -/

structure PendingInsertion where
  key : StatusKey
  timestamp : WithBot ℤ
  sequence : ℕ
  deriving DecidableEq

structure PendingColumnChanges where
  currentKeys : List StatusKey
  currentMembership : List StatusKey
  currentInsertions : List PendingInsertion
  deferredKeys : List StatusKey
  deferredMembership : List StatusKey
  deferredInsertions : List PendingInsertion
  deferredRemovals : List StatusKey

/-- The order in which insertions are merged: newest first, then as they came. -/
def insertionOrder (left right : PendingInsertion) : Prop :=
  right.timestamp < left.timestamp ∨
    left.timestamp = right.timestamp ∧ left.sequence ≤ right.sequence

instance : DecidableRel insertionOrder := fun left right =>
  inferInstanceAs (Decidable (right.timestamp < left.timestamp ∨
    left.timestamp = right.timestamp ∧ left.sequence ≤ right.sequence))

/-- The limit has been normalized; normalizing it again changes nothing. -/
def mergePendingInsertions (entities : OrderedMap StatusKey (TimelineStatus β))
    (current : List StatusKey) (insertions : List PendingInsertion) (limit : Option ℕ) :
    List StatusKey × Bool :=
  if insertions = [] then
    match limit with
    | none => (current, false)
    | some limit => (current.take limit, decide (limit < current.length))
  else
    cappedMerge limit (rankedKeys env entities current)
      ((insertions.insertionSort insertionOrder).map fun e => (e.key, e.timestamp))

inductive BatchTarget
  | visible
  | deferred
  deriving DecidableEq

/-- What the upserts of a batch agree on. -/
structure BatchPolicy where
  limits : OrderedMap Str (Option ℕ)
  targets : OrderedMap Str BatchTarget
  identities : OrderedMap Str (List StatusKey)

def emptyBatchPolicy : BatchPolicy := ⟨.empty, .empty, .empty⟩

def normalizeOptionalTimelineLimit (limit : Option Limit) : Option ℕ :=
  limit.map normalizeTimelineLimit

def UpsertInColumns.target (operation : UpsertInColumns β) (columnId : Str) : BatchTarget :=
  if columnId ∈ operation.preserveAnchorColumns then .deferred else .visible

def UpsertInColumns.limit (operation : UpsertInColumns β) (columnId : Str) : Option ℕ :=
  normalizeOptionalTimelineLimit (operation.limits columnId)

/-- What two upserts of one batch may not have in common in a column. -/
def UpsertInColumns.identity (operation : UpsertInColumns β) : StatusKey :=
  let canonical := canonicalStatusKey env operation.status.fields
  match truthy operation.status.fields.notificationId with
  | some _ => statusKeyFromCanonical env operation.status.fields canonical
  | none => canonical

/-- Does an upsert fit the policy in a column? -/
def BatchPolicy.fits (policy : BatchPolicy) (operation : UpsertInColumns β) (columnId : Str) :
    Bool :=
  (policy.limits.get columnId).all (· = operation.limit columnId) &&
    (policy.targets.get columnId).all (· = operation.target columnId) &&
    (policy.identities.get columnId).all (operation.identity env ∉ ·)

def BatchPolicy.record (operation : UpsertInColumns β) (policy : BatchPolicy) (columnId : Str) :
    BatchPolicy where
  limits := policy.limits.set columnId
    ((policy.limits.get columnId).getD (operation.limit columnId))
  targets := policy.targets.set columnId
    ((policy.targets.get columnId).getD (operation.target columnId))
  identities := policy.identities.set columnId
    (pushNew ((policy.identities.get columnId).getD []) (operation.identity env))

/-- Adds an upsert to the policy of a batch; `none` when it does not fit. -/
def recordBatchPolicy (policy : BatchPolicy) (operation : UpsertInColumns β) :
    Option BatchPolicy :=
  if operation.columnIds.all (policy.fits env operation) then
    some (operation.columnIds.foldl (BatchPolicy.record env operation) policy)
  else none

/-- Does an upsert name a row that one of its columns has already? -/
def operationTouchesExistingIdentity (s : MutableTimelineEntityState β)
    (operation : UpsertInColumns β) : Bool :=
  let canonical := canonicalStatusKey env operation.status.fields
  let existingAliases := ((s.canonicalIndex.get canonical).map canonicalAliasKeys).getD []
  let aliases := match truthy operation.status.fields.notificationId with
    | some _ =>
      let notificationKey := statusKeyFromCanonical env operation.status.fields canonical
      if notificationKey ∈ existingAliases then [notificationKey] else []
    | none => existingAliases
  operation.columnIds.any fun columnId =>
    aliases.any fun key => key ∈ s.visible columnId ∨ key ∈ s.deferred columnId

def findCanonicalKeyInMembership (s : MutableTimelineEntityState β) (membership : List StatusKey)
    (canonical : StatusKey) : Option StatusKey :=
  (s.canonicalIndex.get canonical).bind fun aliases =>
    (canonicalAliasKeys aliases).find? (· ∈ membership)

/-- The row that stands for an upsert among the keys of a column.  A notification is an event of
its own; other rows of one post stand for each other. -/
def existingKeyFor (s : MutableTimelineEntityState β) (operation : UpsertInColumns β)
    (membership : List StatusKey) (key canonical : StatusKey) : Option StatusKey :=
  match truthy operation.status.fields.notificationId with
  | some _ => if key ∈ membership then some key else none
  | none => findCanonicalKeyInMembership s membership canonical

/-- `changesFor` of a column that has no changes yet. -/
def createPendingChanges (s : MutableTimelineEntityState β) (columnId : Str) :
    PendingColumnChanges where
  currentKeys := s.visible columnId
  currentMembership := s.visible columnId
  currentInsertions := []
  deferredKeys := s.deferred columnId
  deferredMembership := s.deferred columnId
  deferredInsertions := []
  deferredRemovals := []

/-- Shows a row that was set aside. -/
def PendingColumnChanges.promote (changes : PendingColumnChanges) (insertion : PendingInsertion) :
    PendingColumnChanges :=
  let changes := { changes with
    deferredMembership := changes.deferredMembership.filter (· ≠ insertion.key)
    deferredRemovals := pushNew changes.deferredRemovals insertion.key }
  if insertion.key ∈ changes.currentMembership then changes
  else
    { changes with
      currentMembership := changes.currentMembership ++ [insertion.key]
      currentInsertions := changes.currentInsertions ++ [insertion] }

/-- Sets a new row aside. -/
def PendingColumnChanges.setAside (changes : PendingColumnChanges)
    (insertion : PendingInsertion) : PendingColumnChanges :=
  { changes with
    deferredMembership := pushNew changes.deferredMembership insertion.key
    deferredInsertions := changes.deferredInsertions ++ [insertion] }

/-- Shows a new row. -/
def PendingColumnChanges.insert (changes : PendingColumnChanges) (insertion : PendingInsertion) :
    PendingColumnChanges :=
  { changes with
    currentMembership := pushNew changes.currentMembership insertion.key
    currentInsertions := changes.currentInsertions ++ [insertion] }

/-- What one upsert of a batch adds to the changes of one of its columns. -/
def stageInColumn (s : MutableTimelineEntityState β) (operation : UpsertInColumns β)
    (insertion : PendingInsertion) (canonical : StatusKey) (columnId : Str)
    (changes : PendingColumnChanges) : PendingColumnChanges :=
  match existingKeyFor s operation changes.currentMembership insertion.key canonical with
  -- The row was updated; where it stands it stays.
  | some _ => changes
  | none =>
    match existingKeyFor s operation changes.deferredMembership insertion.key canonical with
    | some existingDeferredKey =>
      if operation.updateOnly ∨ columnId ∈ operation.preserveAnchorColumns then changes
      else
        changes.promote
          { key := existingDeferredKey
            timestamp := createdAtTimestamp env (s.entities.get existingDeferredKey)
            sequence := insertion.sequence }
    | none =>
      if operation.updateOnly then changes
      else if columnId ∈ operation.preserveAnchorColumns then changes.setAside insertion
      else changes.insert insertion

/-- The rows while a batch is gone through, with the changes of each column. -/
structure Staged (β : Type) where
  state : MutableTimelineEntityState β
  pending : OrderedMap Str PendingColumnChanges
  sequence : ℕ

def Staged.changesFor (staged : Staged β) (columnId : Str) : PendingColumnChanges :=
  (staged.pending.get columnId).getD (createPendingChanges staged.state columnId)

def Staged.change (f : Str → PendingColumnChanges → PendingColumnChanges) (staged : Staged β)
    (columnId : Str) : Staged β :=
  { staged with
    pending := staged.pending.set columnId (f columnId (staged.changesFor columnId)) }

/-- One upsert of a batch. -/
def stageUpsert (staged : Staged β) (operation : UpsertInColumns β) : Staged β :=
  let (state, key, canonical) := upsertStatusIdentity env operation.status staged.state
  let state := replaceCanonicalAliases env state canonical operation.status
  let insertion := { key, timestamp := createdAtTimestamp env (state.entities.get key),
                     sequence := staged.sequence : PendingInsertion }
  operation.columnIds.foldl (Staged.change (stageInColumn env state operation insertion canonical))
    { state, pending := staged.pending, sequence := staged.sequence + 1 }

def applyCurrentChanges (limit : Option ℕ) (s : MutableTimelineEntityState β) (columnId : Str)
    (changes : PendingColumnChanges) : MutableTimelineEntityState β :=
  if changes.currentInsertions ≠ [] then
    let (keys, trimmed) := mergePendingInsertions env s.entities changes.currentKeys
      changes.currentInsertions limit
    trimIf (setColumnKeys s columnId keys) trimmed columnId
  else s

def applyDeferredChanges (limit : Option ℕ) (s : MutableTimelineEntityState β) (columnId : Str)
    (changes : PendingColumnChanges) : MutableTimelineEntityState β :=
  if changes.deferredInsertions ≠ [] ∨ changes.deferredRemovals ≠ [] then
    let retainedDeferred := changes.deferredKeys.filter (· ∉ changes.deferredRemovals)
    let retainedInsertions :=
      changes.deferredInsertions.filter fun e => e.key ∉ changes.deferredRemovals
    -- What the limit drops here was not visible, and is not reported.
    setDeferredColumnKeys s columnId
      (mergePendingInsertions env s.entities retainedDeferred retainedInsertions limit).1
  else s

/-- Carries out the changes of one column. -/
def applyPendingChanges (limits : OrderedMap Str (Option ℕ)) (s : MutableTimelineEntityState β)
    (columnId : Str) (changes : PendingColumnChanges) : MutableTimelineEntityState β :=
  let limit := (limits.get columnId).join
  applyDeferredChanges env limit (applyCurrentChanges env limit s columnId changes) columnId changes

def applyUpsertBatch (s : MutableTimelineEntityState β) (operations : List (UpsertInColumns β))
    (limits : OrderedMap Str (Option ℕ)) : MutableTimelineEntityState β :=
  let staged := operations.foldl (stageUpsert env) { state := s, pending := .empty, sequence := 0 }
  staged.pending.entries.foldl (fun s e => applyPendingChanges env limits s e.1 e.2) staged.state

/-- The upserts right after `operation` that can be applied with it, what the batch agrees on, and
the operations that follow. -/
def joinBatch (s : MutableTimelineEntityState β) (operation : UpsertInColumns β) :
    List (TimelineEntityOperation β) → BatchPolicy →
      List (UpsertInColumns β) × BatchPolicy × List (TimelineEntityOperation β)
  | .upsertInColumns next :: rest, policy =>
    if operationTouchesExistingIdentity env s operation ∨
        operationTouchesExistingIdentity env s next ∨ next.updateOnly ≠ operation.updateOnly then
      ([], policy, .upsertInColumns next :: rest)
    else
      match recordBatchPolicy env policy next with
      | none => ([], policy, .upsertInColumns next :: rest)
      | some policy =>
        let (batch, policy, rest) := joinBatch s operation rest policy
        (next :: batch, policy, rest)
  | operations, policy => ([], policy, operations)

/-! ### The end of a reduction -/

/-- Lets a row embed the first stored row of the post it quotes. -/
def relinkEntity (s : MutableTimelineEntityState β) (key : StatusKey) :
    MutableTimelineEntityState β :=
  match s.entities.get key with
  | none => s
  | some entity =>
    match entity.quote with
    | none => s
    | some quote =>
      match ((s.canonicalIndex.get (canonicalStatusKey env quote.fields)).bind
          firstCanonicalAlias).bind s.entities.get with
      | none => s
      | some quote => { s with entities := s.entities.set key (.quoting entity.fields quote) }

def relinkNestedStatuses (s : MutableTimelineEntityState β) : MutableTimelineEntityState β :=
  s.entities.keys.foldl (relinkEntity env) s

/-- The quote link of a stored row. -/
def quoteLink (entities : OrderedMap StatusKey (TimelineStatus β)) (key : StatusKey) :
    Option (Option StatusKey) :=
  (entities.get key).map fun entity => entity.quote.map fun quote => statusKey env quote.fields

/-- The keys of all columns. -/
def columnRoots (columnKeys deferredColumnKeys : ColumnKeys) : List StatusKey :=
  columnKeys.entries.flatMap Prod.snd ++ deferredColumnKeys.entries.flatMap Prod.snd

/-- Forgets a row that is not retained. -/
def pruneEntity (retained : List StatusKey) (s : MutableTimelineEntityState β)
    (e : StatusKey × TimelineStatus β) : MutableTimelineEntityState β :=
  if e.1 ∈ retained then s
  else
    { s with
      entities := s.entities.delete e.1
      canonicalIndex :=
        removeCanonicalAlias s.canonicalIndex (canonicalStatusKey env e.2.fields) e.1 }

def pruneUnreferencedEntities (s : MutableTimelineEntityState β) : MutableTimelineEntityState β :=
  let retained := Mark.mark (quoteLink env s.entities) (s.entities.keys.length + 1)
    (columnRoots s.columnKeys s.deferredColumnKeys)
  s.entities.entries.foldl (pruneEntity env retained) s

def materializeTimelines (entities : OrderedMap StatusKey (TimelineStatus β))
    (columnKeys : ColumnKeys) : OrderedMap Str (List (TimelineStatus β)) :=
  columnKeys.map fun keys => keys.filterMap entities.get

/-! ### The reducer -/

/-- An operation other than an upsert, which is applied in batches. -/
def applyOperation (s : MutableTimelineEntityState β) :
    TimelineEntityOperation β → MutableTimelineEntityState β
  | .replaceColumn columnId statuses limit =>
    let (s, keys, trimmed) := normalizeStatusList env s statuses (some limit)
    setColumnKeys (trimIf s trimmed columnId) columnId keys
  | .appendPage columnId statuses =>
    let (s, appended, _) := normalizeStatusList env s statuses none
    let newKeys := appended.filter (· ∉ s.visible columnId)
    if newKeys ≠ [] then setColumnKeys s columnId (s.visible columnId ++ newKeys) else s
  | .mergeDelta columnId statuses limit =>
    let (s, incoming, _) := normalizeStatusList env s statuses (some limit)
    let (keys, trimmed) := mergeOrderedKeys env s.entities incoming (s.visible columnId) limit
    setColumnKeys (trimIf s trimmed columnId) columnId keys
  | .upsertInColumns operation =>
    applyUpsertBatch env s [operation]
      ((recordBatchPolicy env emptyBatchPolicy operation).getD emptyBatchPolicy).limits
  | .flushDeferredColumn columnId limit =>
    if s.deferred columnId = [] then s
    else
      let (keys, trimmed) :=
        mergeOrderedKeys env s.entities (s.deferred columnId) (s.visible columnId) limit
      let s := setColumnKeys (trimIf s trimmed columnId) columnId keys
      { s with deferredColumnKeys := s.deferredColumnKeys.delete columnId }
  | .replaceCanonical target status =>
    replaceCanonicalAliases env (upsertStatus env s status).1
      (canonicalStatusKey env target.fields) status
  | .patchCanonical target patch =>
    patchCanonicalAliases s (canonicalStatusKey env target.fields) patch
  | .removeCanonical target => removeCanonicalAliases s (canonicalStatusKey env target.fields)
  | .removeFromColumns target columnIds => removeFromColumns env s target columnIds
  | .removeCanonicalId serverDomain statusId => removeCanonicalById env s serverDomain statusId
  | .removeColumn columnId =>
    { s with
      columnKeys := s.columnKeys.delete columnId
      deferredColumnKeys := s.deferredColumnKeys.delete columnId }

/-- The loop over the operations. -/
def applyOperations : ℕ → MutableTimelineEntityState β → List (TimelineEntityOperation β) →
    MutableTimelineEntityState β
  | 0, s, _ => s
  | _ + 1, s, [] => s
  | fuel + 1, s, .upsertInColumns operation :: rest =>
    let (batch, policy, rest) := joinBatch env s operation rest
      ((recordBatchPolicy env emptyBatchPolicy operation).getD emptyBatchPolicy)
    applyOperations fuel (applyUpsertBatch env s (operation :: batch) policy.limits) rest
  | fuel + 1, s, operation :: rest => applyOperations fuel (applyOperation env s operation) rest

/-- The mutable state that a reduction starts from. -/
def TimelineEntityState.toMutable (s : TimelineEntityState β) : MutableTimelineEntityState β where
  entities := s.entities
  columnKeys := s.columnKeys
  deferredColumnKeys := s.deferredColumnKeys
  canonicalIndex := s.canonicalIndex
  serverIdIndex := none
  trimmedColumns := ∅

/-- The state and the columns whose visible rows were dropped by a limit. -/
def reduceTimelineEntities (previous : TimelineEntityState β)
    (operations : List (TimelineEntityOperation β)) : TimelineEntityState β × Finset Str :=
  if operations.isEmpty then (previous, ∅)
  else
    let s := applyOperations env operations.length previous.toMutable operations
    let s := pruneUnreferencedEntities env (relinkNestedStatuses env s)
    ({ entities := s.entities
       columnKeys := s.columnKeys
       deferredColumnKeys := s.deferredColumnKeys
       canonicalIndex := s.canonicalIndex
       timelines := materializeTimelines s.entities s.columnKeys }, s.trimmedColumns)

/-- The rows of a column, as a state has them between reductions. -/
def TimelineEntityState.visible (s : TimelineEntityState β) (columnId : Str) : List StatusKey :=
  (s.columnKeys.get columnId).getD []

def TimelineEntityState.deferred (s : TimelineEntityState β) (columnId : Str) : List StatusKey :=
  (s.deferredColumnKeys.get columnId).getD []

/-- The state after reductions from the start. -/
def reduceAll (reductions : List (List (TimelineEntityOperation β))) :
    TimelineEntityState β :=
  reductions.foldl (fun s operations => (reduceTimelineEntities env s operations).1)
    createTimelineEntityState

end Env

end Awayuki.Timeline
