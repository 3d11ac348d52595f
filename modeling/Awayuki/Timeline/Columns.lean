import Awayuki.Timeline.Rows

/-!
# Well-formed columns

Whatever operations are reduced, no column lists a row twice, every listed row is stored, and the
rows that are stored are those that a column leads to through quotes.

* `Listed`, `WellFormed`: what every operation keeps of the columns;
* `stageUpsert_keeps`, `applyUpsertBatch_wellFormed`: a batch of upserts;
* `mem_pruneUnreferencedEntities`: what the pruning pass leaves;
* `columns_wellFormed`: in every state that reductions lead to.
-/

namespace Awayuki.Timeline

open MutableTimelineEntityState

variable {β : Type} {env : Platform} {s s' : MutableTimelineEntityState β} {columnId : Str}
  {keys : List StatusKey}

/-! ### Changing one column -/

variable {key : StatusKey} {operation : UpsertInColumns β} {removed : List StatusKey}
  {canonical : StatusKey} {staged : Staged β}

@[simp] theorem visible_setColumnKeys (c : Str) :
    (setColumnKeys s columnId keys).visible c = if c = columnId then keys else s.visible c := by
  unfold visible setColumnKeys
  rw [OrderedMap.get_set]
  split_ifs <;> rfl

@[simp] theorem deferred_setColumnKeys (c : Str) :
    (setColumnKeys s columnId keys).deferred c = s.deferred c := rfl

@[simp] theorem visible_setDeferredColumnKeys (c : Str) :
    (setDeferredColumnKeys s columnId keys).visible c = s.visible c := rfl

@[simp] theorem deferred_setDeferredColumnKeys (c : Str) :
    (setDeferredColumnKeys s columnId keys).deferred c =
      if c = columnId then keys else s.deferred c := by
  unfold deferred setDeferredColumnKeys
  by_cases hkeys : keys = []
  · simp only [if_pos hkeys, OrderedMap.get_delete]
    split_ifs <;> simp [hkeys]
  · simp only [if_neg hkeys, OrderedMap.get_set]
    split_ifs <;> rfl

@[simp] theorem visible_trimIf (trimmed : Bool) (c : Str) :
    (trimIf s trimmed columnId).visible c = s.visible c := by cases trimmed <;> rfl

@[simp] theorem deferred_trimIf (trimmed : Bool) (c : Str) :
    (trimIf s trimmed columnId).deferred c = s.deferred c := by cases trimmed <;> rfl

@[simp] theorem entities_setColumnKeys : (setColumnKeys s columnId keys).entities = s.entities :=
  rfl

@[simp] theorem entities_trimIf (trimmed : Bool) :
    (trimIf s trimmed columnId).entities = s.entities := by cases trimmed <;> rfl

/-! ### The invariant -/

/-- No key comes twice, and every key has a row. -/
structure Listed (entities : OrderedMap StatusKey (TimelineStatus β)) (keys : List StatusKey) :
    Prop where
  nodup : keys.Nodup
  stored : ∀ key ∈ keys, key ∈ entities.keys

structure WellFormed (s : MutableTimelineEntityState β) : Prop where
  visible (columnId : Str) : Listed s.entities (s.visible columnId)
  deferred (columnId : Str) : Listed s.entities (s.deferred columnId)

namespace Listed

variable {entities entities' : OrderedMap StatusKey (TimelineStatus β)} {keys' : List StatusKey}

theorem nil : Listed entities [] := ⟨List.nodup_nil, by simp⟩

theorem sublist (h : Listed entities keys) (hsub : keys'.Sublist keys) : Listed entities keys' :=
  ⟨h.nodup.sublist hsub, fun key hkey => h.stored key (hsub.subset hkey)⟩

theorem mono (h : Listed entities keys) (hsub : ∀ key ∈ keys, key ∈ entities'.keys) :
    Listed entities' keys := ⟨h.nodup, hsub⟩

theorem mergeOrderedKeys (h : ∀ key ∈ keys, key ∈ entities.keys)
    (h' : ∀ key ∈ keys', key ∈ entities.keys) (env : Platform) (limit : Limit) :
    Listed entities (mergeOrderedKeys env entities keys keys' limit).1 := by
  refine ⟨nodup_cappedMerge, fun key hkey => ?_⟩
  obtain hkey | hkey := mem_of_mem_cappedMerge hkey
  · exact h key (by simpa [rankedKeys] using hkey)
  · exact h' key (by simpa [rankedKeys] using hkey)

theorem mergePendingInsertions (h : Listed entities keys) {insertions : List PendingInsertion}
    (h' : ∀ e ∈ insertions, e.key ∈ entities.keys) (env : Platform) (limit : Option ℕ) :
    Listed entities (mergePendingInsertions env entities keys insertions limit).1 := by
  unfold Timeline.mergePendingInsertions
  split_ifs
  · cases limit with
    | none => exact h
    | some limit => exact h.sublist (List.take_sublist _ _)
  · refine ⟨nodup_cappedMerge, fun key hkey => ?_⟩
    obtain hkey | hkey := mem_of_mem_cappedMerge hkey
    · exact h.stored key (by simpa [rankedKeys] using hkey)
    · simp only [List.map_map, List.mem_map, List.mem_insertionSort] at hkey
      obtain ⟨e, he, rfl⟩ := hkey
      exact h' e he

end Listed

namespace WellFormed

theorem extend (h : WellFormed s) (hext : Extends s s') : WellFormed s' where
  visible c := by
    rw [hext.visible]
    exact (h.visible c).mono fun key hkey => hext.stored ((h.visible c).stored key hkey)
  deferred c := by
    rw [hext.deferred]
    exact (h.deferred c).mono fun key hkey => hext.stored ((h.deferred c).stored key hkey)

theorem trimIf (h : WellFormed s) (trimmed : Bool) (columnId : Str) :
    WellFormed (trimIf s trimmed columnId) where
  visible c := by simpa using h.visible c
  deferred c := by simpa using h.deferred c

theorem setColumnKeys (h : WellFormed s) (hkeys : Listed s.entities keys) :
    WellFormed (setColumnKeys s columnId keys) where
  visible c := by
    rw [visible_setColumnKeys]
    split_ifs
    exacts [hkeys, h.visible c]
  deferred c := h.deferred c

/-- A column that is dropped lists nothing. -/
theorem deleteVisible (h : WellFormed s) :
    WellFormed { s with columnKeys := s.columnKeys.delete columnId } where
  visible c := by
    unfold MutableTimelineEntityState.visible
    simp only [OrderedMap.get_delete]
    split_ifs
    exacts [.nil, h.visible c]
  deferred c := h.deferred c

theorem deleteDeferred (h : WellFormed s) :
    WellFormed { s with deferredColumnKeys := s.deferredColumnKeys.delete columnId } where
  visible c := h.visible c
  deferred c := by
    unfold MutableTimelineEntityState.deferred
    simp only [OrderedMap.get_delete]
    split_ifs
    exacts [.nil, h.deferred c]

theorem setDeferredColumnKeys (h : WellFormed s) (hkeys : Listed s.entities keys) :
    WellFormed (setDeferredColumnKeys s columnId keys) where
  visible c := h.visible c
  deferred c := by
    rw [deferred_setDeferredColumnKeys]
    split_ifs
    exacts [hkeys, h.deferred c]

end WellFormed

/-! ### Removals -/

/-- The columns without some rows. -/
structure Without (removed : List StatusKey) (s s' : MutableTimelineEntityState β) : Prop where
  visible (columnId : Str) : s'.visible columnId = (s.visible columnId).filter (· ∉ removed)
  deferred (columnId : Str) : s'.deferred columnId = (s.deferred columnId).filter (· ∉ removed)

theorem filter_of_length_eq (h : ¬(keys.filter (· ∉ removed)).length ≠ keys.length) :
    keys.filter (· ∉ removed) = keys :=
  List.filter_eq_self.2 (List.length_filter_eq_length_iff.1 (not_not.1 h))

/-- The loop over the visible columns changes them only. -/
theorem foldl_filterColumnKeys (removed : List StatusKey) :
    ∃ columnKeys, s.columnKeys.entries.foldl (filterColumnKeys removed) s = { s with columnKeys } ∧
      ∀ c, (columnKeys.get c).getD [] = (s.visible c).filter (· ∉ removed) := by
  let step (m : ColumnKeys) (e : Str × List StatusKey) : ColumnKeys :=
    if (e.2.filter (· ∉ removed)).length ≠ e.2.length then m.set e.1 (e.2.filter (· ∉ removed))
    else m
  have hstep (s : MutableTimelineEntityState β) (e : Str × List StatusKey) :
      filterColumnKeys removed s e = { s with columnKeys := step s.columnKeys e } := by
    unfold filterColumnKeys
    by_cases h : (e.2.filter (· ∉ removed)).length ≠ e.2.length
    · simp only [step, if_pos h, setColumnKeys]
    · simp only [step, if_neg h]
  refine ⟨s.columnKeys.entries.foldl step s.columnKeys, ?_, fun c => ?_⟩
  · generalize s.columnKeys.entries = entries
    induction entries generalizing s with
    | nil => rfl
    | cons e entries ih => rw [List.foldl_cons, ih, hstep, List.foldl_cons]
  · rw [OrderedMap.get_foldl_entries (f := fun keys => some (keys.filter (· ∉ removed)))]
    · unfold visible
      cases s.columnKeys.get c <;> rfl
    · intro m e c hget
      by_cases h : (e.2.filter (· ∉ removed)).length ≠ e.2.length
      · simp only [step, if_pos h, OrderedMap.get_set]
      · simp only [step, if_neg h, filter_of_length_eq h]
        split_ifs with hc
        · rw [hc, hget]
        · rfl

/-- The loop over the rows set aside changes them only. -/
theorem foldl_filterDeferredColumnKeys (removed : List StatusKey) :
    ∃ deferredColumnKeys, s.deferredColumnKeys.entries.foldl (filterDeferredColumnKeys removed) s =
        { s with deferredColumnKeys } ∧
      ∀ c, (deferredColumnKeys.get c).getD [] = (s.deferred c).filter (· ∉ removed) := by
  let step (m : ColumnKeys) (e : Str × List StatusKey) : ColumnKeys :=
    if (e.2.filter (· ∉ removed)).length ≠ e.2.length then
      if e.2.filter (· ∉ removed) = [] then m.delete e.1 else m.set e.1 (e.2.filter (· ∉ removed))
    else m
  have hstep (s : MutableTimelineEntityState β) (e : Str × List StatusKey) :
      filterDeferredColumnKeys removed s e =
        { s with deferredColumnKeys := step s.deferredColumnKeys e } := by
    unfold filterDeferredColumnKeys
    by_cases h : (e.2.filter (· ∉ removed)).length ≠ e.2.length
    · simp only [step, if_pos h, setDeferredColumnKeys]
    · simp only [step, if_neg h]
  refine ⟨s.deferredColumnKeys.entries.foldl step s.deferredColumnKeys, ?_, fun c => ?_⟩
  · generalize s.deferredColumnKeys.entries = entries
    induction entries generalizing s with
    | nil => rfl
    | cons e entries ih => rw [List.foldl_cons, ih, hstep, List.foldl_cons]
  · -- A list that becomes empty is dropped; one that stays as it is is kept.
    let left (keys : List StatusKey) : Option (List StatusKey) :=
      if (keys.filter (· ∉ removed)).length ≠ keys.length ∧ keys.filter (· ∉ removed) = [] then none
      else some (keys.filter (· ∉ removed))
    have hleft (keys : List StatusKey) : (left keys).getD [] = keys.filter (· ∉ removed) := by
      unfold left
      split_ifs with h
      · exact h.2.symm
      · rfl
    rw [OrderedMap.get_foldl_entries (f := left)]
    · unfold deferred
      cases s.deferredColumnKeys.get c with
      | none => rfl
      | some keys => exact hleft keys
    · intro m e c hget
      by_cases h : (e.2.filter (· ∉ removed)).length ≠ e.2.length
      · by_cases hnil : e.2.filter (· ∉ removed) = []
        · rw [show step m e = m.delete e.1 by simp only [step, if_pos h, if_pos hnil],
            show left e.2 = none from if_pos ⟨h, hnil⟩, OrderedMap.get_delete]
        · have hset : step m e = m.set e.1 (e.2.filter (· ∉ removed)) := by
            simp only [step, if_pos h, if_neg hnil]
          rw [hset, show left e.2 = some _ from if_neg fun hboth => hnil hboth.2, OrderedMap.get_set]
      · rw [show step m e = m from if_neg h,
          show left e.2 = some _ from if_neg fun hboth => h hboth.1, filter_of_length_eq h]
        split_ifs with hc
        · rw [hc, hget]
        · rfl

/-- Removing a post takes its rows away, from the columns as well. -/
theorem removeCanonicalAliases_spec (canonical : StatusKey) :
    let removed := CanonicalIndex.aliases s.canonicalIndex canonical
    let s' := removeCanonicalAliases s canonical
    Without removed s s' ∧
      (∀ key, s'.entities.get key = if key ∈ removed then none else s.entities.get key) ∧
      ∀ c, CanonicalIndex.aliases s'.canonicalIndex c =
        if c = canonical then [] else CanonicalIndex.aliases s.canonicalIndex c := by
  unfold removeCanonicalAliases CanonicalIndex.aliases
  cases hnone : s.canonicalIndex.get canonical with
  | none =>
    refine ⟨⟨by simp, by simp⟩, by simp, fun c => ?_⟩
    split_ifs with hc
    · rw [hc, hnone]
      rfl
    · rfl
  | some aliases =>
    simp only [Option.map_some, Option.getD_some]
    let removed := canonicalAliasKeys aliases
    let s₁ : MutableTimelineEntityState β := { s with
      entities := removed.foldl OrderedMap.delete s.entities
      canonicalIndex := s.canonicalIndex.delete canonical }
    obtain ⟨columnKeys, hvisible, hget⟩ := foldl_filterColumnKeys (s := s₁) removed
    obtain ⟨deferredColumnKeys, hdeferred, hget'⟩ :=
      foldl_filterDeferredColumnKeys (s := { s₁ with columnKeys }) removed
    simp only [s₁] at hvisible hdeferred
    rw [hvisible]
    simp only
    rw [hdeferred]
    refine ⟨⟨hget, hget'⟩, fun key => ?_, fun c => ?_⟩
    · convert OrderedMap.get_foldl_delete (m := s.entities) (k := key)
    · rw [OrderedMap.get_delete]
      split_ifs <;> rfl 

theorem WellFormed.without (h : WellFormed s) (hw : Without removed s s')
    (hstored : ∀ key ∈ s.entities.keys, key ∉ removed → key ∈ s'.entities.keys) :
    WellFormed s' where
  visible c := by
    rw [hw.visible]
    refine ((h.visible c).sublist List.filter_sublist).mono fun key hkey => ?_
    obtain ⟨hmem, hnot⟩ := List.mem_filter.1 hkey
    exact hstored key ((h.visible c).stored key hmem) (of_decide_eq_true hnot)
  deferred c := by
    rw [hw.deferred]
    refine ((h.deferred c).sublist List.filter_sublist).mono fun key hkey => ?_
    obtain ⟨hmem, hnot⟩ := List.mem_filter.1 hkey
    exact hstored key ((h.deferred c).stored key hmem) (of_decide_eq_true hnot)

theorem WellFormed.removeCanonicalAliases (h : WellFormed s) (canonical : StatusKey) :
    WellFormed (removeCanonicalAliases s canonical) := by
  obtain ⟨hw, hget, -⟩ := removeCanonicalAliases_spec (s := s) canonical
  refine h.without hw fun key hkey hnot => ?_
  rw [OrderedMap.mem_keys, hget, if_neg hnot]
  exact OrderedMap.mem_keys.1 hkey

theorem WellFormed.foldl {α : Type}
    {step : MutableTimelineEntityState β → α → MutableTimelineEntityState β}
    (hstep : ∀ s a, WellFormed s → WellFormed (step s a)) (todo : List α) (h : WellFormed s) :
    WellFormed (todo.foldl step s) := by
  induction todo generalizing s with
  | nil => exact h
  | cons a todo ih => exact ih (hstep s a h)

theorem WellFormed.removeCanonicalById (h : WellFormed s) (serverDomain statusId : Str) :
    WellFormed (removeCanonicalById env s serverDomain statusId) := by
  refine .foldl (fun s canonical h => h.removeCanonicalAliases canonical) _ ?_
  exact ⟨h.visible, h.deferred⟩

theorem WellFormed.removeFromVisible (h : WellFormed s) (aliases : CanonicalAliases)
    (columnId : Str) : WellFormed (removeFromVisible aliases s columnId) := by
  unfold Timeline.removeFromVisible
  cases hget : s.columnKeys.get columnId with
  | none => exact h
  | some current =>
    have hcurrent := h.visible columnId
    rw [MutableTimelineEntityState.visible, hget] at hcurrent
    exact h.setColumnKeys (hcurrent.sublist List.filter_sublist)

theorem WellFormed.removeFromDeferred (h : WellFormed s) (aliases : CanonicalAliases)
    (columnId : Str) : WellFormed (removeFromDeferred aliases s columnId) := by
  unfold Timeline.removeFromDeferred
  cases hget : s.deferredColumnKeys.get columnId with
  | none => exact h
  | some deferred =>
    have hdeferred := h.deferred columnId
    rw [MutableTimelineEntityState.deferred, hget] at hdeferred
    exact h.setDeferredColumnKeys (hdeferred.sublist List.filter_sublist)

theorem WellFormed.removeFromColumns (h : WellFormed s) (target : TimelineStatus β)
    (columnIds : List Str) : WellFormed (removeFromColumns env s target columnIds) := by
  unfold Timeline.removeFromColumns
  cases s.canonicalIndex.get (canonicalStatusKey env target.fields) with
  | none => exact h
  | some aliases =>
    exact .foldl (fun s columnId h => (h.removeFromVisible aliases columnId).removeFromDeferred
      aliases columnId) columnIds h

/-! ### Batches -/

/-- What is listed or to be listed in a column has rows. -/
structure ChangesOk (entities : OrderedMap StatusKey (TimelineStatus β))
    (changes : PendingColumnChanges) : Prop where
  current : Listed entities changes.currentKeys
  deferred : Listed entities changes.deferredKeys
  currentInsertions : ∀ e ∈ changes.currentInsertions, e.key ∈ entities.keys
  deferredInsertions : ∀ e ∈ changes.deferredInsertions, e.key ∈ entities.keys
  deferredMembership : ∀ key ∈ changes.deferredMembership, key ∈ entities.keys

theorem existingKeyFor_mem {membership : List StatusKey} {key' : StatusKey}
    (h : existingKeyFor s operation membership key canonical = some key') : key' ∈ membership := by
  unfold existingKeyFor at h
  split at h
  · split_ifs at h with hmem
    exact Option.some.inj h ▸ hmem
  · obtain ⟨aliases, -, hfind⟩ := Option.bind_eq_some_iff.1 h
    simpa using List.find?_some hfind

namespace ChangesOk

variable {entities entities' : OrderedMap StatusKey (TimelineStatus β)}
  {changes : PendingColumnChanges} {insertion : PendingInsertion}

theorem mono (h : ChangesOk entities changes)
    (hsub : ∀ {key}, key ∈ entities.keys → key ∈ entities'.keys) : ChangesOk entities' changes where
  current := h.current.mono fun key hkey => hsub (h.current.stored key hkey)
  deferred := h.deferred.mono fun key hkey => hsub (h.deferred.stored key hkey)
  currentInsertions e he := hsub (h.currentInsertions e he)
  deferredInsertions e he := hsub (h.deferredInsertions e he)
  deferredMembership key hkey := hsub (h.deferredMembership key hkey)

theorem create (h : WellFormed s) : ChangesOk s.entities (createPendingChanges s columnId) where
  current := h.visible columnId
  deferred := h.deferred columnId
  currentInsertions := by simp [createPendingChanges]
  deferredInsertions := by simp [createPendingChanges]
  deferredMembership := (h.deferred columnId).stored

theorem promote (h : ChangesOk entities changes) (hkey : insertion.key ∈ entities.keys) :
    ChangesOk entities (changes.promote insertion) := by
  have hmember : ∀ key ∈ changes.deferredMembership.filter (· ≠ insertion.key),
      key ∈ entities.keys :=
    fun key hkey => h.deferredMembership key (List.mem_filter.1 hkey).1
  show ChangesOk entities (if insertion.key ∈ changes.currentMembership then _ else _)
  split_ifs
  · exact ⟨h.current, h.deferred, h.currentInsertions, h.deferredInsertions, hmember⟩
  · refine ⟨h.current, h.deferred, fun e he => ?_, h.deferredInsertions, hmember⟩
    obtain he | he := List.mem_append.1 he
    · exact h.currentInsertions e he
    · rwa [List.mem_singleton.1 he]

theorem setAside (h : ChangesOk entities changes) (hkey : insertion.key ∈ entities.keys) :
    ChangesOk entities (changes.setAside insertion) := by
  refine ⟨h.current, h.deferred, h.currentInsertions, fun e he => ?_, fun key hmem => ?_⟩
  · obtain he | he := List.mem_append.1 he
    · exact h.deferredInsertions e he
    · rwa [List.mem_singleton.1 he]
  · obtain hmem | rfl := mem_pushNew.1 hmem
    · exact h.deferredMembership key hmem
    · exact hkey

theorem insert (h : ChangesOk entities changes) (hkey : insertion.key ∈ entities.keys) :
    ChangesOk entities (changes.insert insertion) := by
  refine ⟨h.current, h.deferred, fun e he => ?_, h.deferredInsertions, h.deferredMembership⟩
  obtain he | he := List.mem_append.1 he
  · exact h.currentInsertions e he
  · rwa [List.mem_singleton.1 he]

theorem stageInColumn (h : ChangesOk entities changes) (hkey : insertion.key ∈ entities.keys) :
    ChangesOk entities (stageInColumn env s operation insertion canonical columnId changes) := by
  unfold Timeline.stageInColumn
  split
  · exact h
  · split
    · rename_i hdeferred
      split_ifs
      · exact h
      · exact h.promote (h.deferredMembership _ (existingKeyFor_mem hdeferred))
    · split_ifs
      exacts [h, h.setAside hkey, h.insert hkey]

end ChangesOk

/-- Going through the columns of an upsert changes each as often as it is named. -/
theorem changesFor_foldl_change (f : Str → PendingColumnChanges → PendingColumnChanges)
    (columnIds : List Str) (staged : Staged β) :
    (columnIds.foldl (Staged.change f) staged).state = staged.state ∧
      ∀ c, (columnIds.foldl (Staged.change f) staged).changesFor c =
        (f c)^[columnIds.count c] (staged.changesFor c) := by
  induction columnIds generalizing staged with
  | nil => exact ⟨rfl, fun c => rfl⟩
  | cons columnId columnIds ih =>
    obtain ⟨hstate, hchanges⟩ := ih (staged.change f columnId)
    refine ⟨hstate, fun c => ?_⟩
    have hchange : (staged.change f columnId).changesFor c =
        if c = columnId then f c (staged.changesFor c) else staged.changesFor c := by
      unfold Staged.changesFor Staged.change
      simp only [OrderedMap.get_set]
      split_ifs with hc
      · rw [hc]
        rfl
      · rfl
    rw [List.foldl_cons, hchanges, hchange, List.count_cons]
    by_cases hc : c = columnId
    · subst hc
      simp
    · have hne : ¬columnId = c := fun heq => hc heq.symm
      simp [hc, hne]

/-- The state of an upsert in a batch, and what it would insert. -/
def upserted (env : Platform) (operation : UpsertInColumns β) (s : MutableTimelineEntityState β) :
    MutableTimelineEntityState β :=
  replaceCanonicalAliases env (upsertStatusIdentity env operation.status s).1
    (canonicalStatusKey env operation.status.fields) operation.status

def insertionOf (env : Platform) (operation : UpsertInColumns β) (staged : Staged β) :
    PendingInsertion where
  key := statusKey env operation.status.fields
  timestamp := createdAtTimestamp env
    ((upserted env operation staged.state).entities.get (statusKey env operation.status.fields))
  sequence := staged.sequence

theorem upserted_extends : Extends s (upserted env operation s) :=
  upsertStatusIdentity_extends.trans replaceCanonicalAliases_extends

theorem mem_keys_upserted :
    statusKey env operation.status.fields ∈ (upserted env operation s).entities.keys :=
  replaceCanonicalAliases_extends.stored (OrderedMap.mem_keys_of_get get_upsertStatusIdentity)

theorem stageUpsert_spec (env : Platform) (staged : Staged β) (operation : UpsertInColumns β) :
    (stageUpsert env staged operation).state = upserted env operation staged.state ∧
      ∀ c, (stageUpsert env staged operation).changesFor c =
        (stageInColumn env (upserted env operation staged.state) operation
          (insertionOf env operation staged) (canonicalStatusKey env operation.status.fields)
          c)^[operation.columnIds.count c] (staged.changesFor c) := by
  have hkeys : upsertStatusIdentity env operation.status staged.state =
      ((upsertStatusIdentity env operation.status staged.state).1,
        statusKey env operation.status.fields, canonicalStatusKey env operation.status.fields) :=
    Prod.ext rfl upsertStatusIdentity_key
  rw [stageUpsert, hkeys]
  obtain ⟨hstate, hchanges⟩ := changesFor_foldl_change
    (stageInColumn env (upserted env operation staged.state) operation
      (insertionOf env operation staged) (canonicalStatusKey env operation.status.fields))
    operation.columnIds
    { state := upserted env operation staged.state, pending := staged.pending,
      sequence := staged.sequence + 1 }
  refine ⟨hstate, fun c => (hchanges c).trans ?_⟩
  -- The rows have changed, the columns have not.
  congr 1
  unfold Staged.changesFor createPendingChanges
  simp only [upserted_extends.visible, upserted_extends.deferred]

/-- The state of a batch keeps its columns well formed, and its changes are sound. -/
structure StagedOk (staged : Staged β) : Prop where
  wellFormed : WellFormed staged.state
  changes (columnId : Str) : ChangesOk staged.state.entities (staged.changesFor columnId)

theorem StagedOk.stageUpsert (h : StagedOk staged) (operation : UpsertInColumns β) :
    StagedOk (stageUpsert env staged operation) := by
  obtain ⟨hstate, hchanges⟩ := stageUpsert_spec env staged operation
  have hext : Extends staged.state (upserted env operation staged.state) := upserted_extends
  refine ⟨hstate ▸ h.wellFormed.extend hext, fun c => ?_⟩
  rw [hstate, hchanges]
  exact Function.Iterate.rec _ ((h.changes c).mono hext.stored)
    (fun changes hok => hok.stageInColumn mem_keys_upserted) _

theorem StagedOk.foldl (h : StagedOk staged) (env : Platform)
    (operations : List (UpsertInColumns β)) :
    StagedOk (operations.foldl (Timeline.stageUpsert env) staged) := by
  induction operations generalizing staged with
  | nil => exact h
  | cons operation operations ih => exact ih (h.stageUpsert operation)

theorem entities_applyCurrentChanges (limit : Option ℕ) (changes : PendingColumnChanges) :
    (applyCurrentChanges env limit s columnId changes).entities = s.entities := by
  unfold applyCurrentChanges
  split_ifs <;> simp

theorem entities_applyPendingChanges (limits : OrderedMap Str (Option ℕ))
    (changes : PendingColumnChanges) :
    (applyPendingChanges env limits s columnId changes).entities = s.entities := by
  unfold applyPendingChanges applyDeferredChanges
  split_ifs <;> exact entities_applyCurrentChanges _ changes

theorem WellFormed.applyCurrentChanges (h : WellFormed s) {changes : PendingColumnChanges}
    (hchanges : ChangesOk s.entities changes) (limit : Option ℕ) :
    WellFormed (applyCurrentChanges env limit s columnId changes) := by
  have hcurrent := hchanges.current.mergePendingInsertions hchanges.currentInsertions env limit
  unfold Timeline.applyCurrentChanges
  split_ifs
  · exact (h.setColumnKeys hcurrent).trimIf _ _
  · exact h

theorem WellFormed.applyDeferredChanges (h : WellFormed s) {changes : PendingColumnChanges}
    (hchanges : ChangesOk s.entities changes) (limit : Option ℕ) :
    WellFormed (applyDeferredChanges env limit s columnId changes) := by
  unfold Timeline.applyDeferredChanges
  split_ifs
  · refine h.setDeferredColumnKeys ?_
    exact (hchanges.deferred.sublist List.filter_sublist).mergePendingInsertions
      (fun e he => hchanges.deferredInsertions e (List.mem_filter.1 he).1) env limit
  · exact h

theorem WellFormed.applyPendingChanges (h : WellFormed s) {changes : PendingColumnChanges}
    (hchanges : ChangesOk s.entities changes) (limits : OrderedMap Str (Option ℕ)) :
    WellFormed (applyPendingChanges env limits s columnId changes) := by
  refine (h.applyCurrentChanges hchanges _).applyDeferredChanges ?_ _
  rwa [entities_applyCurrentChanges]

theorem WellFormed.applyUpsertBatch (h : WellFormed s) (operations : List (UpsertInColumns β))
    (limits : OrderedMap Str (Option ℕ)) :
    WellFormed (applyUpsertBatch env s operations limits) := by
  have hstaged : StagedOk { state := s, pending := .empty, sequence := 0 : Staged β } :=
    ⟨h, fun c => .create h⟩
  have hok := hstaged.foldl env operations
  unfold Timeline.applyUpsertBatch
  revert hok
  generalize operations.foldl (Timeline.stageUpsert env)
    { state := s, pending := .empty, sequence := 0 } = staged
  intro hok
  have hpending : ∀ e ∈ staged.pending.entries, ChangesOk staged.state.entities e.2 := by
    intro e he
    have hchanges := hok.changes e.1
    rwa [Staged.changesFor, OrderedMap.get_eq_some.2 he] at hchanges
  have hfold (todo : List (Str × PendingColumnChanges)) (s : MutableTimelineEntityState β)
      (h : WellFormed s) (htodo : ∀ e ∈ todo, ChangesOk s.entities e.2) :
      WellFormed (todo.foldl (fun s e => Timeline.applyPendingChanges env limits s e.1 e.2) s) := by
    induction todo generalizing s with
    | nil => exact h
    | cons e todo ih =>
      refine ih _ (h.applyPendingChanges (htodo e List.mem_cons_self) limits) fun e' he' => ?_
      rw [entities_applyPendingChanges]
      exact htodo e' (List.mem_cons_of_mem _ he')
  exact hfold _ _ hok.wellFormed hpending

/-! ### Operations -/

theorem WellFormed.applyOperation (h : WellFormed s) (operation : TimelineEntityOperation β) :
    WellFormed (applyOperation env s operation) := by
  cases operation with
  | replaceColumn columnId statuses limit =>
    obtain ⟨hext, hnodup, hstored⟩ := normalizeStatusList_spec env s statuses (some limit)
    refine ((h.extend hext).trimIf _ _).setColumnKeys ?_
    rw [entities_trimIf]
    exact ⟨hnodup, hstored⟩
  | appendPage columnId statuses =>
    obtain ⟨hext, hnodup, hstored⟩ := normalizeStatusList_spec env s statuses none
    have h' := h.extend hext
    show WellFormed (if _ then _ else _)
    split_ifs
    · refine h'.setColumnKeys ⟨?_, fun key hkey => ?_⟩
      · refine (h'.visible columnId).nodup.append (hnodup.sublist List.filter_sublist) ?_
        intro key hkey hkey'
        exact of_decide_eq_true (List.mem_filter.1 hkey').2 hkey
      · obtain hkey | hkey := List.mem_append.1 hkey
        · exact (h'.visible columnId).stored key hkey
        · exact hstored key (List.mem_filter.1 hkey).1
    · exact h'
  | mergeDelta columnId statuses limit =>
    obtain ⟨hext, hnodup, hstored⟩ := normalizeStatusList_spec env s statuses (some limit)
    have h' := h.extend hext
    refine (h'.trimIf _ _).setColumnKeys ?_
    rw [entities_trimIf]
    exact .mergeOrderedKeys hstored (h'.visible columnId).stored env limit
  | upsertInColumns operation => exact h.applyUpsertBatch _ _
  | flushDeferredColumn columnId limit =>
    show WellFormed (if s.deferred columnId = [] then s else _)
    split_ifs
    · exact h
    · have hmerged := Listed.mergeOrderedKeys (h.deferred columnId).stored
        (h.visible columnId).stored env limit
      exact ((h.trimIf _ columnId).setColumnKeys (by rwa [entities_trimIf])).deleteDeferred
  | replaceCanonical target status =>
    exact h.extend (upsertStatusIdentity_extends.trans replaceCanonicalAliases_extends)
  | patchCanonical target patch => exact h.extend patchCanonicalAliases_extends
  | removeCanonical target => exact h.removeCanonicalAliases _
  | removeFromColumns target columnIds => exact h.removeFromColumns target columnIds
  | removeCanonicalId serverDomain statusId => exact h.removeCanonicalById serverDomain statusId
  | removeColumn columnId => exact h.deleteVisible.deleteDeferred

theorem WellFormed.applyOperations (h : WellFormed s) (fuel : ℕ)
    (operations : List (TimelineEntityOperation β)) :
    WellFormed (applyOperations env fuel s operations) := by
  fun_induction Timeline.applyOperations with
  | case1 => exact h
  | case2 => exact h
  | case3 fuel s operation rest batch policy rest' hjoin ih => exact ih (h.applyUpsertBatch _ _)
  | case4 fuel s operation rest hnot ih => exact ih (h.applyOperation operation)

/-! ### The end of a reduction -/

theorem relinkEntity_extends : Extends s (relinkEntity env s key) := by
  unfold relinkEntity
  split
  · exact .refl s
  · split
    · exact .refl s
    · split
      · exact .refl s
      · exact ⟨rfl, rfl, rfl, fun h => OrderedMap.mem_keys_set.2 (.inr h), id⟩

theorem relinkNestedStatuses_extends : Extends s (relinkNestedStatuses env s) :=
  Extends.foldl (fun _ _ => relinkEntity_extends) _ s

/-- The keys that a column leads to: those it lists, and those of the posts that are quoted, as
far as they are stored. -/
def Referenced (env : Platform) (entities : OrderedMap StatusKey (TimelineStatus β))
    (columnKeys deferredColumnKeys : ColumnKeys) : StatusKey → Prop :=
  Mark.Linked (quoteLink env entities) (columnRoots columnKeys deferredColumnKeys)

theorem quoteLink_isSome {entities : OrderedMap StatusKey (TimelineStatus β)} :
    (quoteLink env entities key).isSome ↔ key ∈ entities.keys := by
  rw [OrderedMap.mem_keys, quoteLink, Option.isSome_map]

/-- The keys that are retained. -/
def retainedKeys (env : Platform) (s : MutableTimelineEntityState β) : List StatusKey :=
  Mark.mark (quoteLink env s.entities) (s.entities.keys.length + 1)
    (columnRoots s.columnKeys s.deferredColumnKeys)

theorem mem_retainedKeys : key ∈ retainedKeys env s ↔
      Referenced env s.entities s.columnKeys s.deferredColumnKeys key :=
  Mark.mem_mark (fun _ => quoteLink_isSome.1) (Nat.lt_succ_self _)

/-- Forgetting rows leaves the columns alone. -/
structure Pruned (gone : StatusKey → Prop) [DecidablePred gone]
    (s s' : MutableTimelineEntityState β) : Prop where
  columnKeys : s'.columnKeys = s.columnKeys
  deferredColumnKeys : s'.deferredColumnKeys = s.deferredColumnKeys
  trimmedColumns : s'.trimmedColumns = s.trimmedColumns
  get (key : StatusKey) : s'.entities.get key = if gone key then none else s.entities.get key

theorem pruneEntity_spec (env : Platform) (s : MutableTimelineEntityState β)
    (retained : List StatusKey) (e : StatusKey × TimelineStatus β) :
    Pruned (fun key => key = e.1 ∧ key ∉ retained) s (pruneEntity env retained s e) := by
  unfold pruneEntity
  by_cases he : e.1 ∈ retained
  · rw [if_pos he]
    refine ⟨rfl, rfl, rfl, fun key => (if_neg ?_).symm⟩
    rintro ⟨rfl, hnot⟩
    exact hnot he
  · rw [if_neg he]
    refine ⟨rfl, rfl, rfl, fun key => ?_⟩
    rw [OrderedMap.get_delete]
    by_cases hkey : key = e.1 <;> simp [hkey, he]

theorem foldl_pruneEntity (env : Platform) (s : MutableTimelineEntityState β)
    (retained : List StatusKey) (todo : List (StatusKey × TimelineStatus β)) :
    Pruned (fun key => key ∈ todo.map Prod.fst ∧ key ∉ retained) s
      (todo.foldl (pruneEntity env retained) s) := by
  induction todo generalizing s with
  | nil => exact ⟨rfl, rfl, rfl, by simp⟩
  | cons e todo ih =>
    have hstep := pruneEntity_spec env s retained e
    have hrest := ih (pruneEntity env retained s e)
    refine ⟨hrest.columnKeys.trans hstep.columnKeys,
      hrest.deferredColumnKeys.trans hstep.deferredColumnKeys,
      hrest.trimmedColumns.trans hstep.trimmedColumns, fun key => ?_⟩
    rw [List.foldl_cons, hrest.get, hstep.get, List.map_cons]
    have hmem : key ∈ e.1 :: todo.map Prod.fst ↔ key = e.1 ∨ key ∈ todo.map Prod.fst :=
      List.mem_cons
    split_ifs <;> first | rfl | (exfalso; tauto)

/-- Pruning keeps the referenced rows as they are, and no others. -/
theorem get_pruneUnreferencedEntities {entity : TimelineStatus β} :
    (pruneUnreferencedEntities env s).entities.get key = some entity ↔
      s.entities.get key = some entity ∧
        Referenced env s.entities s.columnKeys s.deferredColumnKeys key := by
  have hkey : (pruneUnreferencedEntities env s).entities.get key =
      if key ∈ s.entities.keys ∧ key ∉ retainedKeys env s then none else s.entities.get key :=
    (foldl_pruneEntity env s (retainedKeys env s) s.entities.entries).get key
  rw [hkey, ← mem_retainedKeys]
  split_ifs with h
  · simp [h.2]
  · constructor
    · intro hsome
      refine ⟨hsome, ?_⟩
      by_contra hnot
      exact h ⟨OrderedMap.mem_keys_of_get hsome, hnot⟩
    · exact And.left

/-- What is referenced is referenced by rows that are. -/
theorem referenced_pruneUnreferencedEntities :
    Referenced env (pruneUnreferencedEntities env s).entities s.columnKeys s.deferredColumnKeys key ↔
      Referenced env s.entities s.columnKeys s.deferredColumnKeys key := by
  -- Referenced rows link where they did, others are gone.
  have hlink {key : StatusKey} {link : Option StatusKey} :
      quoteLink env (pruneUnreferencedEntities env s).entities key = some link ↔
        quoteLink env s.entities key = some link ∧
          Referenced env s.entities s.columnKeys s.deferredColumnKeys key := by
    unfold quoteLink
    rw [Option.map_eq_some_iff, Option.map_eq_some_iff]
    constructor
    · rintro ⟨entity, hget, rfl⟩
      obtain ⟨hget, href⟩ := get_pruneUnreferencedEntities.1 hget
      exact ⟨⟨entity, hget, rfl⟩, href⟩
    · rintro ⟨⟨entity, hget, rfl⟩, href⟩
      exact ⟨entity, get_pruneUnreferencedEntities.2 ⟨hget, href⟩, rfl⟩
  constructor
  · intro h
    induction h with
    | root mem stored =>
      obtain ⟨link, hsome⟩ := Option.isSome_iff_exists.1 stored
      exact (hlink.1 hsome).2
    | next prev step stored ih =>
      obtain ⟨link, hsome⟩ := Option.isSome_iff_exists.1 stored
      exact (hlink.1 hsome).2
  · intro h
    induction h with
    | root mem stored =>
      obtain ⟨link, hsome⟩ := Option.isSome_iff_exists.1 stored
      refine .root mem ?_
      rw [hlink.2 ⟨hsome, .root mem stored⟩]
      rfl
    | next prev step stored ih =>
      obtain ⟨link, hsome⟩ := Option.isSome_iff_exists.1 stored
      refine .next ih (hlink.2 ⟨step, prev⟩) ?_
      rw [hlink.2 ⟨hsome, .next prev step stored⟩]
      rfl

/-! ### Every state -/

/-- Columns list stored rows, each once, and what is stored is what they lead to. -/
structure TimelineEntityState.WellFormed (env : Platform) (s : TimelineEntityState β) : Prop where
  visible_nodup (columnId : Str) : (s.visible columnId).Nodup
  deferred_nodup (columnId : Str) : (s.deferred columnId).Nodup
  stored (columnId : Str) : ∀ key ∈ s.visible columnId ++ s.deferred columnId,
    (s.entities.get key).isSome
  referenced (key : StatusKey) : (s.entities.get key).isSome ↔
    Referenced env s.entities s.columnKeys s.deferredColumnKeys key

theorem mem_columnRoots {columnKeys deferredColumnKeys : ColumnKeys} :
    key ∈ columnRoots columnKeys deferredColumnKeys ↔
      ∃ c, key ∈ (columnKeys.get c).getD [] ∨ key ∈ (deferredColumnKeys.get c).getD [] := by
  have hmem (m : ColumnKeys) :
      key ∈ m.entries.flatMap Prod.snd ↔ ∃ c, key ∈ (m.get c).getD [] := by
    rw [List.mem_flatMap]
    constructor
    · rintro ⟨e, he, hkey⟩
      exact ⟨e.1, by rwa [OrderedMap.get_eq_some.2 he]⟩
    · rintro ⟨c, hkey⟩
      cases hget : m.get c with
      | none => simp [hget] at hkey
      | some keys => exact ⟨(c, keys), OrderedMap.get_eq_some.1 hget, by simpa [hget] using hkey⟩
  rw [columnRoots, List.mem_append, hmem, hmem, exists_or]

theorem TimelineEntityState.WellFormed.create (env : Platform) :
    WellFormed env (createTimelineEntityState : TimelineEntityState β) where
  visible_nodup c := List.nodup_nil
  deferred_nodup c := List.nodup_nil
  stored c key hkey := by simp [createTimelineEntityState, visible, deferred] at hkey
  referenced key := by
    constructor
    · intro h
      simp [createTimelineEntityState] at h
    · intro h
      exact absurd h.isSome (by simp [quoteLink, createTimelineEntityState])

theorem pruneUnreferencedEntities_columns (env : Platform) (s : MutableTimelineEntityState β) :
    (pruneUnreferencedEntities env s).columnKeys = s.columnKeys ∧
      (pruneUnreferencedEntities env s).deferredColumnKeys = s.deferredColumnKeys := by
  have hpruned := foldl_pruneEntity env s (retainedKeys env s) s.entities.entries
  exact ⟨hpruned.columnKeys, hpruned.deferredColumnKeys⟩

/-- A reduction that applies its operations keeps the columns well formed. -/
theorem WellFormed.pruneUnreferencedEntities (h : WellFormed s) (env : Platform)
    (timelines : OrderedMap Str (List (TimelineStatus β))) :
    let s' := pruneUnreferencedEntities env s
    TimelineEntityState.WellFormed env
      { entities := s'.entities
        columnKeys := s'.columnKeys
        deferredColumnKeys := s'.deferredColumnKeys
        canonicalIndex := s'.canonicalIndex
        timelines } := by
  obtain ⟨hcolumns, hdeferred⟩ := pruneUnreferencedEntities_columns env s
  have hstored {key : StatusKey} :
      ((Timeline.pruneUnreferencedEntities env s).entities.get key).isSome ↔
        Referenced env s.entities s.columnKeys s.deferredColumnKeys key := by
    rw [Option.isSome_iff_exists]
    constructor
    · rintro ⟨entity, hget⟩
      exact (get_pruneUnreferencedEntities.1 hget).2
    · intro href
      obtain ⟨entity, hget⟩ :=
        Option.isSome_iff_exists.1 (OrderedMap.mem_keys.1 (quoteLink_isSome.1 href.isSome))
      exact ⟨entity, get_pruneUnreferencedEntities.2 ⟨hget, href⟩⟩
  simp only [hcolumns, hdeferred]
  refine ⟨fun c => (h.visible c).nodup, fun c => (h.deferred c).nodup, fun c key hkey => ?_,
    fun key => hstored.trans referenced_pruneUnreferencedEntities.symm⟩
  refine hstored.2 (.root (mem_columnRoots.2 ⟨c, List.mem_append.1 hkey⟩) (quoteLink_isSome.2 ?_))
  obtain hkey | hkey := List.mem_append.1 hkey
  · exact (h.visible c).stored key hkey
  · exact (h.deferred c).stored key hkey

theorem TimelineEntityState.WellFormed.reduce {s : TimelineEntityState β} (h : s.WellFormed env)
    (operations : List (TimelineEntityOperation β)) :
    (reduceTimelineEntities env s operations).1.WellFormed env := by
  have hmutable : Timeline.WellFormed s.toMutable :=
    ⟨fun c => ⟨h.visible_nodup c, fun key hkey =>
        OrderedMap.mem_keys.2 (h.stored c key (List.mem_append_left _ hkey))⟩,
      fun c => ⟨h.deferred_nodup c, fun key hkey =>
        OrderedMap.mem_keys.2 (h.stored c key (List.mem_append_right _ hkey))⟩⟩
  unfold reduceTimelineEntities
  split_ifs
  · exact h
  · exact ((hmutable.applyOperations operations.length operations).extend
      relinkNestedStatuses_extends).pruneUnreferencedEntities env _

/-- In every state that reductions lead to, no column lists a row twice, every row listed is
stored, and the stored rows are those that the columns lead to through quotes. -/
theorem columns_wellFormed (env : Platform) (reductions : List (List (TimelineEntityOperation β))) :
    (reduceAll env reductions).WellFormed env := by
  have hfold (s : TimelineEntityState β) (h : s.WellFormed env) :
      (reductions.foldl (fun s operations => (reduceTimelineEntities env s operations).1) s
        ).WellFormed env := by
    induction reductions generalizing s with
    | nil => exact h
    | cons operations reductions ih => exact ih _ (h.reduce operations)
  exact hfold _ (.create env)

end Awayuki.Timeline
