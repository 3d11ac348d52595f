import Awayuki.Timeline.StatusActions

/-!
# Actions that are rolled back

A failed action writes the copy of the post from before the action over every row of the post, and
with it every field that has been updated meanwhile.

* `get_replaceCanonical`: the rows that `replaceCanonical` leaves;
* `RolledBack`: the action's flag and count are as before, and nothing else has changed;
* `Unchanged`: the post is, apart from the flag and the count, as it was copied;
* `rolled_back_iff`: exactly then it is rolled back.
-/

namespace Awayuki.Timeline

variable {β γ : Type} {env : Platform}

/-! ### What is written -/

variable {key : StatusKey} {s : MutableTimelineEntityState β} {status : TimelineStatus β}
  {canonical : StatusKey} {operationId : ℕ} {error : Str}

/-- The copy that a post holds of the row under a key: the post itself, or one that it quotes. -/
def copyAt (env : Platform) (key : StatusKey) : TimelineStatus β → Option (TimelineStatus β)
  | .plain fields => if statusKey env fields = key then some (.plain fields) else none
  | .quoting fields quote =>
    if statusKey env fields = key then some (.quoting fields quote) else copyAt env key quote

theorem get_upsert : (upsertStatusIdentity env status s).1.entities.get key =
      (copyAt env key status).or (s.entities.get key) := by
  induction status generalizing s with
  | plain fields =>
    rw [upsertStatusIdentity_eq, storeStatus_entities, OrderedMap.get_set, copyAt]
    by_cases hkey : key = statusKey env fields
    · subst hkey
      simp [TimelineStatus.fields]
    · simp [TimelineStatus.fields, hkey, Ne.symm hkey, quoteStored, TimelineStatus.quote]
  | quoting fields quote ih =>
    rw [upsertStatusIdentity_eq, storeStatus_entities, OrderedMap.get_set, copyAt]
    by_cases hkey : key = statusKey env fields
    · subst hkey
      simp [TimelineStatus.fields]
    · rw [if_neg (show ¬ key = statusKey env (TimelineStatus.quoting fields quote).fields from hkey),
        if_neg (Ne.symm hkey)]
      exact ih

theorem mem_aliases_upsert (h : key ∈ CanonicalIndex.aliases s.canonicalIndex canonical) :
    key ∈ CanonicalIndex.aliases (upsertStatusIdentity env status s).1.canonicalIndex canonical := by
  have hextends : Extends s (upsertStatusIdentity env status s).1 := upsertStatusIdentity_extends
  exact hextends.aliases h

theorem isSome_quote_relinked (index : CanonicalIndex)
    (get : StatusKey → Option (TimelineStatus β)) (entity : TimelineStatus β) :
    (relinked env index get entity).quote.isSome = entity.quote.isSome := by
  unfold relinked
  split
  · rfl
  · next quote hquote =>
    split
    · rfl
    · exact (congrArg Option.isSome hquote).symm

theorem mergeUpdated_idem (row updated : TimelineStatus β) :
    mergeUpdatedStatusIntoEntry (mergeUpdatedStatusIntoEntry row updated) updated =
      mergeUpdatedStatusIntoEntry row updated := by
  simp only [mergeUpdatedStatusIntoEntry, TimelineStatus.fields_mk, Option.or_assoc, Option.or_self]

/-- The rows of the post after the replacement, before the passes that end the reduction. -/
theorem get_replaceCanonical {image row : TimelineStatus β}
    (halias : key ∈ CanonicalIndex.aliases s.canonicalIndex (canonicalStatusKey env image.fields))
    (hget : s.entities.get key = some row) :
    (applyOperation env s (.replaceCanonical image image)).entities.get key =
      some (mergeUpdatedStatusIntoEntry ((copyAt env key image).getD row) image) := by
  have hstored : (upsertStatusIdentity env image s).1.entities.get key =
      some ((copyAt env key image).getD row) := by
    rw [get_upsert, hget]
    cases copyAt env key image <;> rfl
  have hkept : key ∈ CanonicalIndex.aliases (upsertStatusIdentity env image s).1.canonicalIndex
      (canonicalStatusKey env image.fields) := mem_aliases_upsert halias
  obtain ⟨aliases, hindex, hmem⟩ := mem_aliases.1 hkept
  show (replaceCanonicalAliases env (upsertStatus env s image).1
    (canonicalStatusKey env image.fields) image).entities.get key = _
  rw [upsertStatus_eq, replaceCanonicalAliases, hindex]
  refine (get_updateAliases (fun row => mergeUpdated_idem row image)).trans ?_
  rw [if_pos hmem, hstored]
  rfl

theorem columnRoots_replaceCanonical (s : MutableTimelineEntityState β)
    (image : TimelineStatus β) :
    columnRoots (applyOperation env s (.replaceCanonical image image)).columnKeys
      (applyOperation env s (.replaceCanonical image image)).deferredColumnKeys =
      columnRoots s.columnKeys s.deferredColumnKeys := by
  have hextends : Extends s (applyOperation env s (.replaceCanonical image image)) := by
    show Extends s (replaceCanonicalAliases env (upsertStatus env s image).1 _ image)
    rw [upsertStatus_eq]
    exact upsertStatusIdentity_extends.trans replaceCanonicalAliases_extends
  rw [hextends.columnKeys, hextends.deferredColumnKeys]

/-- Is a row in a column, or set aside for one? -/
def TimelineEntityState.Lists (s : TimelineEntityState β) (key : StatusKey) : Prop :=
  key ∈ columnRoots s.columnKeys s.deferredColumnKeys

/-- A row of a column after the replacement. -/
theorem get_reduce_replaceCanonical {s : TimelineEntityState β} {image row : TimelineStatus β}
    (hlists : s.Lists key)
    (halias : key ∈ CanonicalIndex.aliases s.canonicalIndex (canonicalStatusKey env image.fields))
    (hget : s.entities.get key = some row) :
    ∃ row', (reduceTimelineEntities env s [.replaceCanonical image image]).1.entities.get key =
        some row' ∧
      row'.fields =
        (mergeUpdatedStatusIntoEntry ((copyAt env key image).getD row) image).fields ∧
      row'.quote.isSome = image.quote.isSome := by
  have hwritten := get_replaceCanonical (s := s.toMutable) halias hget
  generalize hu : applyOperation env s.toMutable (.replaceCanonical image image) = u at hwritten
  have hroots : columnRoots u.columnKeys u.deferredColumnKeys =
      columnRoots s.columnKeys s.deferredColumnKeys := by
    rw [← hu]
    exact columnRoots_replaceCanonical s.toMutable image
  obtain ⟨get, hrelinked⟩ := get_relinkNestedStatuses env u key
  rw [hwritten, Option.map_some] at hrelinked
  refine ⟨relinked env u.canonicalIndex get _, ?_, fields_relinked _ _ _, ?_⟩
  · rw [entities_reduce s (List.cons_ne_nil _ _)]
    have hbefore : beforeRelinking env s [.replaceCanonical image image] = u := hu
    rw [hbefore]
    refine get_pruneUnreferencedEntities.2 ⟨hrelinked, .root ?_ ?_⟩
    · rw [relinkNestedStatuses_extends.columnKeys, relinkNestedStatuses_extends.deferredColumnKeys,
        hroots]
      exact hlists
    · exact quoteLink_isSome.2 (OrderedMap.mem_keys_of_get hrelinked)
  · rw [isSome_quote_relinked]
    exact congrArg Option.isSome (TimelineStatus.quote_mk _ _)

/-! ### Rolling back -/

/-- A row after the failure: the flag and the count are those of the copy, and nothing else has
changed.  The quoted post is a post of its own, and embedded anew by every reduction. -/
structure Restored (action : StatusAction) (image row row' : Post γ) : Prop where
  fields : row'.fields =
    { row.fields with rest := action.copy image.fields.rest row.fields.rest }
  quote : row'.quote.isSome = row.quote.isSome

/-- What shows the post shows it as before the action, with what it has received meanwhile. -/
structure RolledBack (env : Platform) (action : StatusAction) (image : Post γ)
    (before after : Store γ) : Prop where
  rows : ∀ key row, before.timeline.Lists key →
    key ∈ CanonicalIndex.aliases before.timeline.canonicalIndex
      (canonicalStatusKey env image.fields) →
    before.timeline.entities.get key = some row →
    ∃ row', after.timeline.entities.get key = some row' ∧ Restored action image row row'
  mediaPreview : ∀ row, before.mediaPreview = some row → Store.sameCanonical env row image = true →
    ∃ row', after.mediaPreview = some row' ∧ Restored action image row row'
  composeTarget : ∀ row, before.composeTarget = some row →
    Store.sameCanonical env row image = true →
    ∃ row', after.composeTarget = some row' ∧ Restored action image row row'

/-- The fields of the event that a row stands for. -/
structure SameEvent (left right : StatusFields β) : Prop where
  id : left.id = right.id
  uri : left.uri = right.uri
  originalStatusId : left.originalStatusId = right.originalStatusId
  createdAt : left.createdAt = right.createdAt
  notificationId : left.notificationId = right.notificationId
  notificationKind : left.notificationKind = right.notificationKind
  notificationLabel : left.notificationLabel = right.notificationLabel
  notificationAvatar : left.notificationAvatar = right.notificationAvatar
  notificationAccountId : left.notificationAccountId = right.notificationAccountId
  notificationAcct : left.notificationAcct = right.notificationAcct
  notificationDisplayName : left.notificationDisplayName = right.notificationDisplayName
  notificationAccountEmojis : left.notificationAccountEmojis = right.notificationAccountEmojis

/-- A row agrees with the copy of the post, apart from the flag and the count.  `base` is what the
copy has of the row itself. -/
structure Agrees (action : StatusAction) (image base row : Post γ) : Prop where
  event : SameEvent row.fields base.fields
  originalCreatedAt : row.fields.originalCreatedAt =
    base.fields.originalCreatedAt.or image.fields.originalCreatedAt
  sourceAcct : row.fields.sourceAcct = base.fields.sourceAcct.or image.fields.sourceAcct
  serverDomain : row.fields.serverDomain = image.fields.serverDomain
  rest : image.fields.rest = action.copy image.fields.rest row.fields.rest
  quote : row.quote.isSome = image.quote.isSome

/-- The post is as it was copied, wherever it is shown. -/
structure Unchanged (env : Platform) (action : StatusAction) (image : Post γ)
    (before : Store γ) : Prop where
  rows : ∀ key row, before.timeline.Lists key →
    key ∈ CanonicalIndex.aliases before.timeline.canonicalIndex
      (canonicalStatusKey env image.fields) →
    before.timeline.entities.get key = some row →
    Agrees action image ((copyAt env key image).getD row) row
  mediaPreview : ∀ row, before.mediaPreview = some row → Store.sameCanonical env row image = true →
    Agrees action image image row
  composeTarget : ∀ row, before.composeTarget = some row →
    Store.sameCanonical env row image = true → Agrees action image image row

variable {action : StatusAction} {image base row row' : Post γ}

/-- What is written restores a row when the row agrees with the copy. -/
theorem restored_iff_agrees
    (hfields : row'.fields = (mergeUpdatedStatusIntoEntry base image).fields)
    (hquote : row'.quote.isSome = image.quote.isSome) :
    Restored action image row row' ↔ Agrees action image base row := by
  rw [mergeUpdatedStatusIntoEntry, TimelineStatus.fields_mk] at hfields
  constructor
  · rintro ⟨hrestored, hquotes⟩
    rw [hfields] at hrestored
    injection hrestored with hid horiginal hsource hserver huri hcreated hcreated' hn₁ hn₂ hn₃ hn₄
      hn₅ hn₆ hn₇ hn₈ hrest
    exact ⟨⟨hid.symm, huri.symm, horiginal.symm, hcreated.symm, hn₁.symm, hn₂.symm, hn₃.symm,
      hn₄.symm, hn₅.symm, hn₆.symm, hn₇.symm, hn₈.symm⟩, hcreated'.symm, hsource.symm,
      hserver.symm, hrest, hquotes.symm.trans hquote⟩
  · rintro ⟨hevent, hcreated, hsource, hserver, hrest, hquotes⟩
    obtain ⟨hid, huri, horiginal, hcreated', hn₁, hn₂, hn₃, hn₄, hn₅, hn₆, hn₇, hn₈⟩ := hevent
    refine ⟨?_, hquote.trans hquotes.symm⟩
    rw [hfields]
    exact (StatusFields.mk.injEq ..).mpr ⟨hid.symm, horiginal.symm, hsource.symm, hserver.symm,
      huri.symm, hcreated'.symm, hcreated.symm, hn₁.symm, hn₂.symm, hn₃.symm, hn₄.symm, hn₅.symm,
      hn₆.symm, hn₇.symm, hn₈.symm, hrest⟩

/-- What shows the copy itself. -/
theorem restored_image_iff : Restored action image row image ↔ Agrees action image image row := by
  refine restored_iff_agrees ?_ rfl
  rw [mergeUpdatedStatusIntoEntry, TimelineStatus.fields_mk, Option.or_self, Option.or_self]

/-- The post is rolled back exactly when it has not changed since it was copied. -/
theorem rolledBack_fail_iff {s : Store γ} :
    RolledBack env action image s (s.fail env canonical operationId image false error) ↔
      Unchanged env action image s := by
  have hconsumer {shown : Option (Post γ)} (row : Post γ) (hshown : shown = some row)
      (hsame : Store.sameCanonical env row image = true) :
      (∃ row', shown.map (fun status =>
        if Store.sameCanonical env status image then image else status) = some row' ∧
          Restored action image row row') ↔ Agrees action image image row := by
    rw [hshown, Option.map_some, if_pos hsame, ← restored_image_iff]
    simp
  constructor
  · rintro ⟨hrows, hmedia, hcompose⟩
    refine ⟨fun key row hlists halias hget => ?_, fun row hrow hsame => ?_,
      fun row hrow hsame => ?_⟩
    · obtain ⟨row', hget', hrestored⟩ := hrows key row hlists halias hget
      obtain ⟨row'', hget'', hfields, hquote⟩ :=
        get_reduce_replaceCanonical hlists halias hget
      obtain rfl : row' = row'' := Option.some_inj.1 (hget'.symm.trans hget'')
      exact (restored_iff_agrees hfields hquote).1 hrestored
    · exact (hconsumer row hrow hsame).1 (hmedia row hrow hsame)
    · exact (hconsumer row hrow hsame).1 (hcompose row hrow hsame)
  · rintro ⟨hrows, hmedia, hcompose⟩
    refine ⟨fun key row hlists halias hget => ?_, fun row hrow hsame => ?_,
      fun row hrow hsame => ?_⟩
    · obtain ⟨row', hget', hfields, hquote⟩ := get_reduce_replaceCanonical hlists halias hget
      exact ⟨row', hget', (restored_iff_agrees hfields hquote).2 (hrows key row hlists halias hget)⟩
    · exact (hconsumer row hrow hsame).2 (hmedia row hrow hsame)
    · exact (hconsumer row hrow hsame).2 (hcompose row hrow hsame)

theorem fail_of_failedAction {s : Store γ} {status : Post γ} {viewer : ViewerState}
    {meanwhile : Meanwhile γ} {run : FailedAction γ}
    (h : failedAction env s status action operationId viewer meanwhile error = some run) :
    run.afterFailure = run.atFailure.fail env (canonicalStatusKey env status.fields) operationId
      run.beforeImage false error := by
  obtain ⟨begun, -, h⟩ := Option.bind_eq_some_iff.1 h
  dsimp only at h
  split_ifs at h
  obtain rfl := Option.some_inj.1 h
  rfl

/-- A post with three favourites; `other` is its version. -/
def sampleFavourite (version : ℕ) : Post ℕ :=
  let post := samplePost "1" 1
  .plain
    { id := post.id
      originalStatusId := post.originalStatusId
      serverDomain := post.serverDomain
      uri := post.uri
      createdAt := post.createdAt
      rest := ⟨false, 3, false, 0, false, version⟩ }

def sampleUpdate (version : ℕ) (updateOnly : Bool) : List (TimelineEntityOperation (PostRest ℕ)) :=
  [.upsertInColumns
    { columnIds := ["home".toList], status := sampleFavourite version, limits := fun _ => none
      updateOnly }]

def sampleStore : Store ℕ where
  timeline := reduceAll samplePlatform [sampleUpdate 1 false]
  statusMutations := .empty
  mediaPreview := none
  composeTarget := none

/-- The post is favourited in vain; while the request is in flight, an edit of it arrives. -/
def sampleFailure : Option (FailedAction ℕ) :=
  failedAction samplePlatform sampleStore (sampleFavourite 1) .favourite 1 {}
    ⟨[], [], [sampleUpdate 2 true]⟩ "unprocessable".toList

theorem sampleFailure_isSome : sampleFailure.isSome = true := by decide +kernel

/-- The versions of the row when the failure arrives and after it. -/
def sampleVersions (run : FailedAction ℕ) : Option ℕ × Option ℕ :=
  let version (s : Store ℕ) := (s.timeline.entities.get
    (statusKey samplePlatform (sampleFavourite 1).fields)).map fun row => row.fields.rest.other
  (version run.atFailure, version run.afterFailure)

theorem sampleVersions_eq : sampleFailure.map sampleVersions = some (some 2, some 1) := by
  decide +kernel

theorem sampleFailure_lists : sampleFailure.all (fun run =>
    decide (statusKey samplePlatform (sampleFavourite 1).fields ∈
      columnRoots run.atFailure.timeline.columnKeys run.atFailure.timeline.deferredColumnKeys ∧
    statusKey samplePlatform (sampleFavourite 1).fields ∈
      CanonicalIndex.aliases run.atFailure.timeline.canonicalIndex
        (canonicalStatusKey samplePlatform run.beforeImage.fields))) = true := by
  decide +kernel

end Awayuki.Timeline
