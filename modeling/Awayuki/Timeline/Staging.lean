import Awayuki.Timeline.Columns

/-!
# What a batch of upserts does to a column

A batch goes through its upserts first and stages what is to be done to each column; then the
changes of the columns are carried out, one column after the other.

* `Represents`, `ShownBy`: a row of a column that stands for an upsert;
* `Covers`, `Stages`: what is staged for a column accounts for all its rows;
* `Keeps`, `KeepsAside`: what is left of the rows that a column shows, and of those set aside;
* `applyUpsertBatch_spec`: a batch leaves them, as far as the limits allow.
-/

namespace Awayuki.Timeline

open MutableTimelineEntityState

variable {β : Type} {env : Platform} {s s' s'' : MutableTimelineEntityState β} {columnId : Str}
  {key : StatusKey} {entities : OrderedMap StatusKey (TimelineStatus β)} {current : List StatusKey}
  {operation : UpsertInColumns β} {insertions : List PendingInsertion} {limit : Option ℕ}
  {status : TimelineStatus β} {index : CanonicalIndex} {membership : List StatusKey}
  {index' : CanonicalIndex} {operations : List (UpsertInColumns β)} {staged : Staged β}

/-- A row that stands for an upsert: its own for a notification, any row of the post for others. -/
def Represents (env : Platform) (index : CanonicalIndex) (status : TimelineStatus β)
    (key : StatusKey) : Prop :=
  match truthy status.fields.notificationId with
  | some _ => key = statusKey env status.fields
  | none => key ∈ CanonicalIndex.aliases index (canonicalStatusKey env status.fields)

/-! ### Merges -/

theorem mem_mergeOrderedKeys {incoming : List StatusKey} {limit : Limit}
    (h : key ∈ incoming ∨ key ∈ current) :
    key ∈ (mergeOrderedKeys env entities incoming current limit).1 ∨
      (mergeOrderedKeys env entities incoming current limit).2 = true :=
  mem_or_trimmed (by simpa [rankedKeys] using h)

theorem mem_mergePendingInsertions (h : key ∈ current ∨ ∃ e ∈ insertions, e.key = key) :
    key ∈ (mergePendingInsertions env entities current insertions limit).1 ∨
      (mergePendingInsertions env entities current insertions limit).2 = true := by
  unfold mergePendingInsertions
  split_ifs with hnil
  · subst hnil
    obtain hkey : key ∈ current := by simpa using h
    cases limit with
    | none => exact .inl hkey
    | some l =>
      by_cases hl : l < current.length
      · exact .inr (decide_eq_true hl)
      · refine .inl ?_
        simp only
        rwa [List.take_of_length_le (not_lt.1 hl)]
  · refine mem_or_trimmed (h.imp (by simp [rankedKeys]) ?_)
    rintro ⟨e, he, rfl⟩
    rw [List.map_map]
    exact List.mem_map.2 ⟨e, (List.mem_insertionSort _).2 he, rfl⟩

/-- With room for all of them, no insertion and no row that was there is dropped. -/
theorem mergePendingInsertions_room
    (h : ∀ l, limit = some l → current.length + insertions.length ≤ l) :
    (mergePendingInsertions env entities current insertions limit).2 = false := by
  unfold mergePendingInsertions
  split_ifs with hnil
  · cases limit with
    | none => rfl
    | some l =>
      have hle := h l rfl
      exact decide_eq_false (by omega)
  · exact trimmed_eq_false fun l hl => by simpa [rankedKeys] using h l hl

theorem length_mergePendingInsertions :
    (mergePendingInsertions env entities current insertions limit).1.length ≤
      current.length + insertions.length := by
  unfold mergePendingInsertions
  split_ifs with hnil
  · cases limit with
    | none => exact Nat.le_add_right _ _
    | some l => exact (List.length_take_le' l current).trans (Nat.le_add_right _ _)
  · exact length_cappedMerge_le.trans (by simp [rankedKeys])

/-! ### Batches -/

theorem existingKeyFor_represents
    (h : existingKeyFor s operation membership (statusKey env operation.status.fields)
      (canonicalStatusKey env operation.status.fields) = some key) :
    Represents env s.canonicalIndex operation.status key := by
  unfold existingKeyFor at h
  unfold Represents
  cases hid : truthy operation.status.fields.notificationId with
  | some id =>
    simp only [hid] at h ⊢
    split_ifs at h
    exact (Option.some.inj h).symm
  | none =>
    simp only [hid] at h ⊢
    obtain ⟨aliases, hget, hfind⟩ := Option.bind_eq_some_iff.1 h
    exact mem_aliases.2 ⟨aliases, hget, List.mem_of_find?_eq_some hfind⟩

/-- An upsert that no key of a column stands for has a key that is not in the column. -/
theorem not_mem_of_existingKeyFor {canonical : StatusKey}
    (hkey : key ∈ CanonicalIndex.aliases s.canonicalIndex canonical)
    (h : existingKeyFor s operation membership key canonical = none) : key ∉ membership := by
  unfold existingKeyFor at h
  split at h
  · intro hmem
    simp [hmem] at h
  · obtain ⟨aliases, hget, hmem⟩ := mem_aliases.1 hkey
    simp only [findCanonicalKeyInMembership, hget, Option.bind_some] at h
    simpa using List.find?_eq_none.1 h key hmem

theorem represents_self (h : statusKey env status.fields ∈
      CanonicalIndex.aliases index (canonicalStatusKey env status.fields)) :
    Represents env index status (statusKey env status.fields) := by
  unfold Represents
  split
  exacts [rfl, h]

/-- What is staged for a column accounts for its rows: each is still a member of the visible or of
the deferred keys, and what is a member was there or is to be inserted. -/
structure Covers (changes : PendingColumnChanges) : Prop where
  visible : ∀ k ∈ changes.currentKeys, k ∈ changes.currentMembership
  aside : ∀ k ∈ changes.deferredKeys,
    k ∈ changes.deferredMembership ∨ k ∈ changes.currentMembership
  current : ∀ k ∈ changes.currentMembership,
    k ∈ changes.currentKeys ∨ ∃ e ∈ changes.currentInsertions, e.key = k
  deferred : ∀ k ∈ changes.deferredMembership, k ∉ changes.deferredRemovals ∧
    (k ∈ changes.deferredKeys ∨ ∃ e ∈ changes.deferredInsertions, e.key = k)
  removed : ∀ k ∈ changes.deferredRemovals, k ∈ changes.currentMembership

/-- Staging keeps the rows of a column; a row that was set aside may be shown. -/
structure Grows (changes changes' : PendingColumnChanges) : Prop where
  currentKeys : changes'.currentKeys = changes.currentKeys
  deferredKeys : changes'.deferredKeys = changes.deferredKeys
  current : ∀ k ∈ changes.currentMembership, k ∈ changes'.currentMembership
  deferred : ∀ k ∈ changes.deferredMembership,
    k ∈ changes'.deferredMembership ∨ k ∈ changes'.currentMembership

section Staging

variable {changes changes' changes'' : PendingColumnChanges} {insertion : PendingInsertion}

theorem Grows.refl (changes : PendingColumnChanges) : Grows changes changes :=
  ⟨rfl, rfl, fun _ => id, fun _ => .inl⟩

theorem Grows.trans (h : Grows changes changes') (h' : Grows changes' changes'') :
    Grows changes changes'' where
  currentKeys := h'.currentKeys.trans h.currentKeys
  deferredKeys := h'.deferredKeys.trans h.deferredKeys
  current k hk := h'.current k (h.current k hk)
  deferred k hk := (h.deferred k hk).elim (h'.deferred k) fun hk => .inr (h'.current k hk)

theorem Covers.create : Covers (createPendingChanges s columnId) where
  visible _ := id
  aside _ := .inl
  current _ := .inl
  deferred k hk := ⟨by simp [createPendingChanges], .inl hk⟩
  removed := by simp [createPendingChanges]

theorem mem_promote {k : StatusKey} :
    k ∈ (changes.promote insertion).currentMembership ↔
      k ∈ changes.currentMembership ∨ k = insertion.key := by
  unfold PendingColumnChanges.promote
  by_cases h : insertion.key ∈ changes.currentMembership
  · simp only [if_pos h]
    constructor
    · exact .inl
    · rintro (hk | rfl)
      exacts [hk, h]
  · simp only [if_neg h, List.mem_append, List.mem_singleton]

/-- Promotion changes the visible rows by one, and takes it from those set aside. -/
theorem promote_deferred (changes : PendingColumnChanges) (insertion : PendingInsertion) :
    (changes.promote insertion).currentKeys = changes.currentKeys ∧
      (changes.promote insertion).deferredKeys = changes.deferredKeys ∧
      (changes.promote insertion).deferredMembership =
        changes.deferredMembership.filter (· ≠ insertion.key) ∧
      (changes.promote insertion).deferredInsertions = changes.deferredInsertions ∧
      (changes.promote insertion).deferredRemovals =
        pushNew changes.deferredRemovals insertion.key := by
  unfold PendingColumnChanges.promote
  by_cases h : insertion.key ∈ changes.currentMembership
  · simp only [if_pos h, and_self]
  · simp only [if_neg h, and_self]

theorem Grows.promote : Grows changes (changes.promote insertion) := by
  obtain ⟨hcurrent, hdeferred, hmembership, -, -⟩ :=
    promote_deferred changes insertion
  refine ⟨hcurrent, hdeferred, fun k hk => mem_promote.2 (.inl hk), fun k hk => ?_⟩
  by_cases hkey : k = insertion.key
  · exact .inr (mem_promote.2 (.inr hkey))
  · rw [hmembership]
    exact .inl (List.mem_filter.2 ⟨hk, decide_eq_true hkey⟩)

theorem Covers.promote (h : Covers changes) : Covers (changes.promote insertion) := by
  obtain ⟨hcurrent, hdeferred, hmembership, hinsertions, hremovals⟩ :=
    promote_deferred changes insertion
  have hgrows : Grows changes (changes.promote insertion) := .promote
  refine ⟨fun k hk => ?_, fun k hk => ?_, fun k hk => ?_, fun k hk => ?_, fun k hk => ?_⟩
  · rw [hcurrent] at hk
    exact hgrows.current k (h.visible k hk)
  · rw [hdeferred] at hk
    exact (h.aside k hk).elim (hgrows.deferred k) fun hk => .inr (hgrows.current k hk)
  · by_cases hmem : insertion.key ∈ changes.currentMembership
    · have hk' : k ∈ changes.currentMembership := by
        obtain hk | rfl := mem_promote.1 hk
        exacts [hk, hmem]
      have heq : (changes.promote insertion).currentInsertions = changes.currentInsertions := by
        simp only [PendingColumnChanges.promote, if_pos hmem]
      rw [hcurrent, heq]
      exact h.current k hk'
    · have heq : (changes.promote insertion).currentInsertions =
          changes.currentInsertions ++ [insertion] := by
        simp only [PendingColumnChanges.promote, if_neg hmem]
      rw [hcurrent, heq]
      obtain hk | rfl := mem_promote.1 hk
      · refine (h.current k hk).imp_right ?_
        rintro ⟨e, he, rfl⟩
        exact ⟨e, List.mem_append_left _ he, rfl⟩
      · exact .inr ⟨insertion, by simp, rfl⟩
  · rw [hmembership] at hk
    obtain ⟨hk, hne⟩ := List.mem_filter.1 hk
    obtain ⟨hnot, hfrom⟩ := h.deferred k hk
    rw [hdeferred, hinsertions, hremovals, mem_pushNew]
    refine ⟨?_, hfrom⟩
    rintro (hk | rfl)
    · exact hnot hk
    · exact of_decide_eq_true hne rfl
  · rw [hremovals] at hk
    obtain hk | rfl := mem_pushNew.1 hk
    · exact hgrows.current k (h.removed k hk)
    · exact mem_promote.2 (.inr rfl)

theorem Grows.setAside : Grows changes (changes.setAside insertion) :=
  ⟨rfl, rfl, fun _ => id, fun _ hk => .inl (mem_pushNew.2 (.inl hk))⟩

/-- A row that is not shown has not been taken from those set aside. -/
theorem Covers.setAside (h : Covers changes) (hnew : insertion.key ∉ changes.currentMembership) :
    Covers (changes.setAside insertion) := by
  refine ⟨h.visible, fun k hk => (h.aside k hk).imp_left fun hk => mem_pushNew.2 (.inl hk),
    h.current, fun k hk => ?_, h.removed⟩
  obtain hk | rfl := mem_pushNew.1 hk
  · refine (h.deferred k hk).imp_right (Or.imp_right ?_)
    rintro ⟨e, he, rfl⟩
    exact ⟨e, List.mem_append_left _ he, rfl⟩
  · exact ⟨fun hk => hnew (h.removed _ hk), .inr ⟨insertion, by simp [PendingColumnChanges.setAside],
      rfl⟩⟩

theorem Grows.insert : Grows changes (changes.insert insertion) :=
  ⟨rfl, rfl, fun _ hk => mem_pushNew.2 (.inl hk), fun _ => .inl⟩

theorem Covers.insert (h : Covers changes) : Covers (changes.insert insertion) := by
  have hgrows : Grows changes (changes.insert insertion) := .insert
  refine ⟨fun k hk => hgrows.current k (h.visible k hk),
    fun k hk => (h.aside k hk).elim (hgrows.deferred k) fun hk => .inr (hgrows.current k hk),
    fun k hk => ?_, h.deferred, fun k hk => hgrows.current k (h.removed k hk)⟩
  obtain hk | rfl := mem_pushNew.1 hk
  · refine (h.current k hk).imp_right ?_
    rintro ⟨e, he, rfl⟩
    exact ⟨e, List.mem_append_left _ he, rfl⟩
  · exact .inr ⟨insertion, by simp [PendingColumnChanges.insert], rfl⟩

/-- An upsert is shown in a column by a row that stands for it. -/
def ShownBy (env : Platform) (index : CanonicalIndex) (status : TimelineStatus β)
    (keys : List StatusKey) : Prop :=
  ∃ key ∈ keys, Represents env index status key

theorem stageInColumn_spec (columnId : Str) (changes : PendingColumnChanges)
    (hkey : insertion.key = statusKey env operation.status.fields)
    (halias : statusKey env operation.status.fields ∈ CanonicalIndex.aliases s.canonicalIndex
      (canonicalStatusKey env operation.status.fields)) :
    let changes' := stageInColumn env s operation insertion
      (canonicalStatusKey env operation.status.fields) columnId changes
    (Covers changes → Covers changes') ∧ Grows changes changes' ∧
      changes'.deferredInsertions.length ≤ changes.deferredInsertions.length + 1 ∧
      (operation.updateOnly = false →
        (columnId ∉ operation.preserveAnchorColumns →
          ShownBy env s.canonicalIndex operation.status changes'.currentMembership) ∧
        ShownBy env s.canonicalIndex operation.status
          (changes'.currentMembership ++ changes'.deferredMembership)) := by
  have hself : Represents env s.canonicalIndex operation.status insertion.key :=
    hkey ▸ represents_self halias
  rw [← hkey] at halias
  unfold stageInColumn
  cases hcurrent : existingKeyFor s operation changes.currentMembership insertion.key
      (canonicalStatusKey env operation.status.fields) with
  | some key =>
    have hshown : Represents env s.canonicalIndex operation.status key :=
      existingKeyFor_represents (hkey ▸ hcurrent)
    have hmem := existingKeyFor_mem hcurrent
    exact ⟨id, .refl changes, Nat.le_succ _, fun _ => ⟨fun _ => ⟨key, hmem, hshown⟩,
      key, List.mem_append_left _ hmem, hshown⟩⟩
  | none =>
    simp only
    cases hdeferred : existingKeyFor s operation changes.deferredMembership insertion.key
        (canonicalStatusKey env operation.status.fields) with
    | some key =>
      have hshown : Represents env s.canonicalIndex operation.status key :=
        existingKeyFor_represents (hkey ▸ hdeferred)
      simp only
      split_ifs with hstays
      · refine ⟨id, .refl changes, Nat.le_succ _, fun hupdate => ⟨fun hnot => ?_, key,
          List.mem_append_right _ (existingKeyFor_mem hdeferred), hshown⟩⟩
        simp [hupdate, hnot] at hstays
      · refine ⟨.promote, .promote, ?_, fun _ => ⟨fun _ => ⟨key, mem_promote.2 (.inr rfl), hshown⟩,
          key, List.mem_append_left _ (mem_promote.2 (.inr rfl)), hshown⟩⟩
        rw [(promote_deferred changes _).2.2.2.1]
        exact Nat.le_succ _
    | none =>
      simp only
      split_ifs with hupdate hanchor
      · exact ⟨id, .refl changes, Nat.le_succ _, fun hnot => by simp [hnot] at hupdate⟩
      · refine ⟨fun h => h.setAside (not_mem_of_existingKeyFor halias hcurrent), .setAside, ?_,
          fun _ => ⟨fun hnot => absurd hanchor hnot, insertion.key,
            List.mem_append_right _ (mem_pushNew.2 (.inr rfl)), hself⟩⟩
        simp [PendingColumnChanges.setAside]
      · have hmem : insertion.key ∈ (changes.insert insertion).currentMembership :=
          mem_pushNew.2 (.inr rfl)
        exact ⟨.insert, .insert, Nat.le_succ _, fun _ => ⟨fun _ => ⟨insertion.key, hmem, hself⟩,
          insertion.key, List.mem_append_left _ hmem, hself⟩⟩

end Staging

theorem Represents.mono (h : Represents env index status key)
    (halias : ∀ {canonical}, key ∈ CanonicalIndex.aliases index canonical →
      key ∈ CanonicalIndex.aliases index' canonical) : Represents env index' status key := by
  unfold Represents at h ⊢
  split at h
  exacts [h, halias h]

theorem ShownBy.mono {keys keys' : List StatusKey} (h : ShownBy env index status keys)
    (halias : ∀ {canonical key}, key ∈ CanonicalIndex.aliases index canonical →
      key ∈ CanonicalIndex.aliases index' canonical) (hsub : ∀ key ∈ keys, key ∈ keys') :
    ShownBy env index' status keys' := by
  obtain ⟨key, hkey, hrep⟩ := h
  exact ⟨key, hsub key hkey, hrep.mono halias⟩

/-- The row of an upsert is one of the rows of its post when the batch has gone through it. -/
theorem mem_aliases_upserted : statusKey env operation.status.fields ∈
      CanonicalIndex.aliases (upserted env operation s).canonicalIndex
        (canonicalStatusKey env operation.status.fields) :=
  replaceCanonicalAliases_extends.aliases mem_aliases_upsertStatusIdentity

/-- How often upserts name a column. -/
def timesNamed (columnId : Str) (operations : List (UpsertInColumns β)) : ℕ :=
  (operations.map fun operation => operation.columnIds.count columnId).sum

/-- What a batch has staged for a column, when it went from one state to another. -/
structure Stages (env : Platform) (columnId : Str) (operations : List (UpsertInColumns β))
    (staged staged' : Staged β) : Prop where
  extends_ : Extends staged.state staged'.state
  covers : Covers (staged.changesFor columnId) → Covers (staged'.changesFor columnId)
  grows : Grows (staged.changesFor columnId) (staged'.changesFor columnId)
  length : (staged'.changesFor columnId).deferredInsertions.length ≤
    (staged.changesFor columnId).deferredInsertions.length + timesNamed columnId operations
  shown : ∀ operation ∈ operations, columnId ∈ operation.columnIds → operation.updateOnly = false →
    (columnId ∉ operation.preserveAnchorColumns →
      ShownBy env staged'.state.canonicalIndex operation.status
        (staged'.changesFor columnId).currentMembership) ∧
    ShownBy env staged'.state.canonicalIndex operation.status
      ((staged'.changesFor columnId).currentMembership ++
        (staged'.changesFor columnId).deferredMembership)

theorem Grows.append {changes changes' : PendingColumnChanges} (h : Grows changes changes') :
    ∀ key ∈ changes.currentMembership ++ changes.deferredMembership,
      key ∈ changes'.currentMembership ++ changes'.deferredMembership := by
  intro key hkey
  obtain hkey | hkey := List.mem_append.1 hkey
  · exact List.mem_append_left _ (h.current key hkey)
  · exact List.mem_append.2 (h.deferred key hkey).symm

theorem stages_stageUpsert (env : Platform) (columnId : Str) (staged : Staged β)
    (operation : UpsertInColumns β) :
    Stages env columnId [operation] staged (stageUpsert env staged operation) := by
  obtain ⟨hstate, hchanges⟩ := stageUpsert_spec env staged operation
  let stage := stageInColumn env (upserted env operation staged.state) operation
    (insertionOf env operation staged) (canonicalStatusKey env operation.status.fields) columnId
  have hstep (changes : PendingColumnChanges) :=
    stageInColumn_spec columnId changes (show (insertionOf env operation staged).key = _ from rfl)
      (mem_aliases_upserted (s := staged.state))
  -- The column may be named more than once; what matters is the last time.
  have hiterate (n : ℕ) (changes : PendingColumnChanges) :
      (Covers changes → Covers (stage^[n] changes)) ∧ Grows changes (stage^[n] changes) ∧
        (stage^[n] changes).deferredInsertions.length ≤ changes.deferredInsertions.length + n := by
    induction n with
    | zero => exact ⟨id, .refl changes, le_rfl⟩
    | succ n ih =>
      obtain ⟨hcovers, hgrows, hlength⟩ := ih
      obtain ⟨hcovers', hgrows', hlength', -⟩ := hstep (stage^[n] changes)
      rw [Function.iterate_succ_apply']
      exact ⟨fun h => hcovers' (hcovers h), hgrows.trans hgrows',
        hlength'.trans (Nat.succ_le_succ hlength)⟩
  obtain ⟨hcovers, hgrows, hlength⟩ :=
    hiterate (operation.columnIds.count columnId) (staged.changesFor columnId)
  refine ⟨hstate ▸ upserted_extends, ?_, ?_, ?_, ?_⟩
  · rwa [hchanges]
  · rwa [hchanges]
  · rw [hchanges]
    simpa [timesNamed] using hlength
  · intro operation' hmem hcolumn hupdate
    obtain rfl := List.mem_singleton.1 hmem
    obtain ⟨n, hn⟩ := Nat.exists_eq_succ_of_ne_zero (List.count_pos_iff.2 hcolumn).ne'
    rw [hstate, hchanges, hn, Function.iterate_succ_apply']
    exact (hstep _).2.2.2 hupdate

theorem Stages.trans {columnId : Str} {operations' : List (UpsertInColumns β)}
    {staged' staged'' : Staged β} (h : Stages env columnId operations staged staged')
    (h' : Stages env columnId operations' staged' staged'') :
    Stages env columnId (operations ++ operations') staged staged'' where
  extends_ := h.extends_.trans h'.extends_
  covers hcovers := h'.covers (h.covers hcovers)
  grows := h.grows.trans h'.grows
  length := by
    have hlength := h.length
    have hlength' := h'.length
    simp only [timesNamed, List.map_append, List.sum_append] at hlength hlength' ⊢
    omega
  shown operation hmem hcolumn hupdate := by
    obtain hmem | hmem := List.mem_append.1 hmem
    · obtain ⟨hvisible, hlisted⟩ := h.shown operation hmem hcolumn hupdate
      exact ⟨fun hanchor => (hvisible hanchor).mono h'.extends_.aliases h'.grows.current,
        hlisted.mono h'.extends_.aliases h'.grows.append⟩
    · exact h'.shown operation hmem hcolumn hupdate

theorem stages_foldl (env : Platform) (columnId : Str) (staged : Staged β)
    (operations : List (UpsertInColumns β)) :
    Stages env columnId operations staged (operations.foldl (stageUpsert env) staged) := by
  induction operations generalizing staged with
  | nil => exact ⟨.refl _, id, .refl _, le_rfl, by simp⟩
  | cons operation operations ih =>
    exact (stages_stageUpsert env columnId staged operation).trans (ih _)

/-! ### Carrying out a batch -/

/-- Nothing happens to a column, unless it is reported as trimmed. -/
structure SameColumn (columnId : Str) (s s' : MutableTimelineEntityState β) : Prop where
  visible : s'.visible columnId = s.visible columnId
  deferred : s'.deferred columnId = s.deferred columnId
  trimmed : s.trimmedColumns ⊆ s'.trimmedColumns
  canonicalIndex : s'.canonicalIndex = s.canonicalIndex
  entities : s'.entities = s.entities

theorem SameColumn.trans (h : SameColumn columnId s s') (h' : SameColumn columnId s' s'') :
    SameColumn columnId s s'' where
  visible := h'.visible.trans h.visible
  deferred := h'.deferred.trans h.deferred
  trimmed := h.trimmed.trans h'.trimmed
  canonicalIndex := h'.canonicalIndex.trans h.canonicalIndex
  entities := h'.entities.trans h.entities

theorem trimmedColumns_trimIf (s : MutableTimelineEntityState β) (trimmed : Bool) (c : Str) :
    s.trimmedColumns ⊆ (trimIf s trimmed c).trimmedColumns ∧
      (trimmed = true → c ∈ (trimIf s trimmed c).trimmedColumns) := by
  cases trimmed with
  | false => exact ⟨fun _ => id, nofun⟩
  | true => exact ⟨Finset.subset_insert _ _, fun _ => Finset.mem_insert_self _ _⟩

theorem canonicalIndex_trimIf (s : MutableTimelineEntityState β) (trimmed : Bool) (c : Str) :
    (trimIf s trimmed c).canonicalIndex = s.canonicalIndex := by cases trimmed <;> rfl

theorem applyCurrentChanges_eq (limit : Option ℕ) (c : Str) (changes : PendingColumnChanges) :
    applyCurrentChanges env limit s c changes =
      let merged := mergePendingInsertions env s.entities changes.currentKeys
        changes.currentInsertions limit
      if changes.currentInsertions ≠ [] then trimIf (setColumnKeys s c merged.1) merged.2 c
      else s := rfl

/-- The changes of one column leave the others alone. -/
theorem applyPendingChanges_other {c : Str} (hne : columnId ≠ c)
    (limits : OrderedMap Str (Option ℕ)) (changes : PendingColumnChanges) :
    SameColumn columnId s (applyPendingChanges env limits s c changes) := by
  have hcurrent (limit : Option ℕ) :
      SameColumn columnId s (applyCurrentChanges env limit s c changes) := by
    rw [applyCurrentChanges_eq]
    split_ifs
    · refine ⟨?_, ?_, (trimmedColumns_trimIf (setColumnKeys s c _) _ c).1,
        canonicalIndex_trimIf _ _ c, ?_⟩
      · simp [hne]
      · simp
      · simp
    · exact ⟨rfl, rfl, Finset.Subset.refl _, rfl, rfl⟩
  refine (hcurrent (limits.get c).join).trans ?_
  unfold applyPendingChanges applyDeferredChanges
  split_ifs
  · refine ⟨rfl, ?_, Finset.Subset.refl _, rfl, rfl⟩
    rw [deferred_setDeferredColumnKeys, if_neg hne]
  · exact ⟨rfl, rfl, Finset.Subset.refl _, rfl, rfl⟩

section Apply

variable {changes : PendingColumnChanges}

/-- The visible keys that are staged are shown, or the column is reported as trimmed. -/
theorem applyCurrentChanges_spec (env : Platform) (limit : Option ℕ) (hcovers : Covers changes)
    (hcurrent : changes.currentKeys = s.visible columnId) :
    let s' := applyCurrentChanges env limit s columnId changes
    s.trimmedColumns ⊆ s'.trimmedColumns ∧ s'.canonicalIndex = s.canonicalIndex ∧
      s'.deferred columnId = s.deferred columnId ∧
      ∀ k ∈ changes.currentMembership, k ∈ s'.visible columnId ∨ columnId ∈ s'.trimmedColumns := by
  rw [applyCurrentChanges_eq]
  split_ifs with hnil
  · refine ⟨(trimmedColumns_trimIf (setColumnKeys s columnId _) _ columnId).1,
      canonicalIndex_trimIf _ _ columnId, by simp, fun k hk => ?_⟩
    refine (mem_mergePendingInsertions (hcovers.current k hk)).imp (fun hmem => ?_)
      (trimmedColumns_trimIf _ _ columnId).2
    simpa using hmem
  · rw [not_not] at hnil
    refine ⟨Finset.Subset.refl _, rfl, rfl, fun k hk => .inl ?_⟩
    simpa [hnil, hcurrent] using hcovers.current k hk

/-- With room for them the deferred keys that are staged are set aside. -/
theorem applyDeferredChanges_spec (env : Platform) (limit : Option ℕ) (hcovers : Covers changes)
    (hdeferred : changes.deferredKeys = s.deferred columnId) :
    let s' := applyDeferredChanges env limit s columnId changes
    s'.trimmedColumns = s.trimmedColumns ∧ s'.canonicalIndex = s.canonicalIndex ∧
      s'.visible columnId = s.visible columnId ∧
      (s'.deferred columnId).length ≤
        (s.deferred columnId).length + changes.deferredInsertions.length ∧
      ((∀ l, limit = some l →
          (s.deferred columnId).length + changes.deferredInsertions.length ≤ l) →
        ∀ k ∈ changes.deferredMembership, k ∈ s'.deferred columnId) := by
  have hkeys := List.length_filter_le (fun k => decide (k ∉ changes.deferredRemovals))
    changes.deferredKeys
  have hinsertions := List.length_filter_le
    (fun e : PendingInsertion => decide (e.key ∉ changes.deferredRemovals))
    changes.deferredInsertions
  rw [hdeferred] at hkeys
  unfold applyDeferredChanges
  split_ifs with hchanges
  · refine ⟨rfl, rfl, rfl, ?_, fun hroom k hk => ?_⟩
    · rw [deferred_setDeferredColumnKeys, if_pos rfl, hdeferred]
      exact length_mergePendingInsertions.trans (Nat.add_le_add hkeys hinsertions)
    · obtain ⟨hnot, hfrom⟩ := hcovers.deferred k hk
      rw [deferred_setDeferredColumnKeys, if_pos rfl, hdeferred]
      rw [hdeferred] at hfrom
      refine (mem_mergePendingInsertions (hfrom.imp (fun hmem => ?_) ?_)).resolve_right ?_
      · exact List.mem_filter.2 ⟨hmem, decide_eq_true hnot⟩
      · rintro ⟨e, he, rfl⟩
        exact ⟨e, List.mem_filter.2 ⟨he, decide_eq_true hnot⟩, rfl⟩
      · rw [mergePendingInsertions_room fun l hl =>
          (Nat.add_le_add hkeys hinsertions).trans (hroom l hl)]
        simp
  · push Not at hchanges
    refine ⟨rfl, rfl, rfl, Nat.le_add_right _ _, fun _ k hk => ?_⟩
    simpa [hchanges.1, hdeferred] using (hcovers.deferred k hk).2

/-- What is staged for a column is carried out. -/
theorem applyPendingChanges_self (env : Platform) (limits : OrderedMap Str (Option ℕ))
    (hcovers : Covers changes) (hcurrent : changes.currentKeys = s.visible columnId)
    (hdeferred : changes.deferredKeys = s.deferred columnId) :
    let s' := applyPendingChanges env limits s columnId changes
    s.trimmedColumns ⊆ s'.trimmedColumns ∧ s'.canonicalIndex = s.canonicalIndex ∧
      (∀ k ∈ changes.currentMembership, k ∈ s'.visible columnId ∨ columnId ∈ s'.trimmedColumns) ∧
      (s'.deferred columnId).length ≤
        (s.deferred columnId).length + changes.deferredInsertions.length ∧
      ((∀ l, (limits.get columnId).join = some l →
          (s.deferred columnId).length + changes.deferredInsertions.length ≤ l) →
        ∀ k ∈ changes.deferredMembership, k ∈ s'.deferred columnId) := by
  obtain ⟨htrimmed, hindex, haside, hshown⟩ :=
    applyCurrentChanges_spec env (limits.get columnId).join hcovers hcurrent
  obtain ⟨htrimmed', hindex', hvisible, hlength, hroom⟩ :=
    applyDeferredChanges_spec env (limits.get columnId).join hcovers (hdeferred.trans haside.symm)
  rw [haside] at hlength hroom
  refine ⟨?_, hindex'.trans hindex, fun k hk => ?_, hlength, hroom⟩
  · rw [show (applyPendingChanges env limits s columnId changes).trimmedColumns = _ from htrimmed']
    exact htrimmed
  · rw [show (applyPendingChanges env limits s columnId changes).trimmedColumns = _ from htrimmed',
      show (applyPendingChanges env limits s columnId changes).visible columnId = _ from hvisible]
    exact hshown k hk

end Apply

/-- Among the columns of a batch, the changes of one are carried out on the column as it was. -/
theorem foldl_applyPendingChanges (env : Platform) (limits : OrderedMap Str (Option ℕ))
    (columnId : Str) (todo : List (Str × PendingColumnChanges))
    (hnodup : (todo.map Prod.fst).Nodup) (s : MutableTimelineEntityState β) :
    let s' := todo.foldl (fun s e => applyPendingChanges env limits s e.1 e.2) s
    (columnId ∉ todo.map Prod.fst → SameColumn columnId s s') ∧
      ∀ changes, (columnId, changes) ∈ todo → ∃ s₁, SameColumn columnId s s₁ ∧
        SameColumn columnId (applyPendingChanges env limits s₁ columnId changes) s' := by
  induction todo generalizing s with
  | nil => exact ⟨fun _ => ⟨rfl, rfl, Finset.Subset.refl _, rfl, rfl⟩, by simp⟩
  | cons e todo ih =>
    obtain ⟨hnot, hnodup⟩ := List.nodup_cons.1 hnodup
    obtain ⟨hother, hself⟩ := ih hnodup (applyPendingChanges env limits s e.1 e.2)
    simp only [List.map_cons, List.mem_cons, not_or, List.foldl_cons]
    refine ⟨?_, fun changes hmem => ?_⟩
    · rintro ⟨hne, hmem⟩
      exact (applyPendingChanges_other hne limits e.2).trans (hother hmem)
    obtain rfl | hmem := hmem
    · exact ⟨s, ⟨rfl, rfl, Finset.Subset.refl _, rfl, rfl⟩, hother hnot⟩
    · obtain ⟨s₁, hsame, hsame'⟩ := hself changes hmem
      have hne : columnId ≠ e.1 := by
        intro heq
        exact hnot (heq ▸ List.mem_map_of_mem (f := Prod.fst) hmem)
      exact ⟨s₁, (applyPendingChanges_other hne limits e.2).trans hsame, hsame'⟩

/-- What is left of the rows that a column shows. -/
structure Keeps (columnId : Str) (s s' : MutableTimelineEntityState β) : Prop where
  trimmed : columnId ∈ s.trimmedColumns → columnId ∈ s'.trimmedColumns
  visible : ∀ k ∈ s.visible columnId, k ∈ s'.visible columnId ∨ columnId ∈ s'.trimmedColumns
  aliases : ∀ {canonical key}, key ∈ CanonicalIndex.aliases s.canonicalIndex canonical →
    key ∈ CanonicalIndex.aliases s'.canonicalIndex canonical

/-- What is left of the rows that a column has set aside. -/
def KeepsAside (columnId : Str) (s s' : MutableTimelineEntityState β) : Prop :=
  ∀ k ∈ s.deferred columnId,
    k ∈ s'.visible columnId ++ s'.deferred columnId ∨ columnId ∈ s'.trimmedColumns

/-- An upsert is in a column, among the visible rows or, if it may be, among those set aside. -/
def InColumn (env : Platform) (columnId : Str) (aside : Bool) (status : TimelineStatus β)
    (s : MutableTimelineEntityState β) : Prop :=
  columnId ∈ s.trimmedColumns ∨ ShownBy env s.canonicalIndex status
    (s.visible columnId ++ if aside then s.deferred columnId else [])

/-- What was staged is in the column when the batch has been carried out. -/
theorem Stages.carriedOut (hstages : Stages env columnId operations ⟨s, .empty, 0⟩ staged)
    (limits : OrderedMap Str (Option ℕ)) : let changes := staged.changesFor columnId
    let s' := staged.pending.entries.foldl
      (fun s e => applyPendingChanges env limits s e.1 e.2) staged.state
    staged.state.trimmedColumns ⊆ s'.trimmedColumns ∧
      s'.canonicalIndex = staged.state.canonicalIndex ∧
      (∀ k ∈ changes.currentMembership, k ∈ s'.visible columnId ∨ columnId ∈ s'.trimmedColumns) ∧
      (s'.deferred columnId).length ≤
        (s.deferred columnId).length + changes.deferredInsertions.length ∧
      ((∀ l, (limits.get columnId).join = some l →
          (s.deferred columnId).length + changes.deferredInsertions.length ≤ l) →
        ∀ k ∈ changes.deferredMembership, k ∈ s'.deferred columnId) := by
  have hcovers := hstages.covers .create
  have hcurrent : (staged.changesFor columnId).currentKeys = s.visible columnId :=
    hstages.grows.currentKeys
  have hdeferred : (staged.changesFor columnId).deferredKeys = s.deferred columnId :=
    hstages.grows.deferredKeys
  obtain ⟨hother, hself⟩ := foldl_applyPendingChanges env limits columnId staged.pending.entries
    staged.pending.nodup staged.state
  cases hget : staged.pending.get columnId with
  | none =>
    have hsame := hother (OrderedMap.get_eq_none.1 hget)
    have hchanges : staged.changesFor columnId = createPendingChanges staged.state columnId := by
      rw [Staged.changesFor, hget]
      rfl
    rw [hchanges, ← hstages.extends_.deferred columnId]
    refine ⟨hsame.trimmed, hsame.canonicalIndex, fun k hk => .inl ?_, ?_, fun _ k hk => ?_⟩
    · rw [hsame.visible]
      exact hk
    · rw [hsame.deferred]
      exact Nat.le_add_right _ _
    · rw [hsame.deferred]
      exact hk
  | some changes =>
    have hchanges : staged.changesFor columnId = changes := by
      rw [Staged.changesFor, hget]
      rfl
    obtain ⟨s₁, hsame, hsame'⟩ := hself changes (OrderedMap.get_eq_some.1 hget)
    rw [hchanges] at hcovers hcurrent hdeferred ⊢
    have hvisible₁ : s₁.visible columnId = s.visible columnId :=
      hsame.visible.trans (hstages.extends_.visible columnId)
    have hdeferred₁ : s₁.deferred columnId = s.deferred columnId :=
      hsame.deferred.trans (hstages.extends_.deferred columnId)
    obtain ⟨htrimmed, hindex, hshown, hlength, hroom⟩ := applyPendingChanges_self env limits
      hcovers (hcurrent.trans hvisible₁.symm) (hdeferred.trans hdeferred₁.symm)
    rw [hdeferred₁] at hlength hroom
    refine ⟨(hsame.trimmed.trans htrimmed).trans hsame'.trimmed,
      hsame'.canonicalIndex.trans (hindex.trans hsame.canonicalIndex), fun k hk => ?_, ?_,
      fun hfits k hk => ?_⟩
    · rw [hsame'.visible]
      exact (hshown k hk).imp_right fun h => hsame'.trimmed h
    · rw [hsame'.deferred]
      exact hlength
    · rw [hsame'.deferred]
      exact hroom hfits k hk

/-- What a batch leaves of a column. -/
theorem applyUpsertBatch_spec (env : Platform) (columnId : Str) (s : MutableTimelineEntityState β)
    (operations : List (UpsertInColumns β)) (limits : OrderedMap Str (Option ℕ)) :
    let s' := applyUpsertBatch env s operations limits
    Keeps columnId s s' ∧
      (∀ operation ∈ operations, columnId ∈ operation.columnIds → operation.updateOnly = false →
        columnId ∉ operation.preserveAnchorColumns →
          InColumn env columnId false operation.status s') ∧
      (s'.deferred columnId).length ≤
        (s.deferred columnId).length + timesNamed columnId operations ∧
      ((∀ l, (limits.get columnId).join = some l →
          (s.deferred columnId).length + timesNamed columnId operations ≤ l) →
        KeepsAside columnId s s' ∧
          ∀ operation ∈ operations, columnId ∈ operation.columnIds →
            operation.updateOnly = false → InColumn env columnId true operation.status s') := by
  have hstages := stages_foldl env columnId ⟨s, .empty, 0⟩ operations
  have hcovers := hstages.covers .create
  have hcurrent := hstages.grows.currentKeys
  have hdeferred := hstages.grows.deferredKeys
  -- Nothing was staged at first.
  have hlength := hstages.length.trans_eq (Nat.zero_add _)
  obtain ⟨htrimmed, hindex, hshown, hlength', hroom⟩ := hstages.carriedOut limits
  have haliases {canonical key : StatusKey}
      (h : key ∈ CanonicalIndex.aliases s.canonicalIndex canonical) : key ∈ CanonicalIndex.aliases
        (applyUpsertBatch env s operations limits).canonicalIndex canonical := by
    rw [show (applyUpsertBatch env s operations limits).canonicalIndex = _ from hindex]
    exact hstages.extends_.aliases h
  refine ⟨⟨fun h => htrimmed (hstages.extends_.trimmedColumns.symm ▸ h), fun k hk => ?_, haliases⟩,
    fun operation hmem hcolumn hupdate hanchor => ?_,
    hlength'.trans (Nat.add_le_add_left hlength _), fun hfits => ⟨fun k hk => ?_, ?_⟩⟩
  · exact hshown k (hcovers.visible k (hcurrent ▸ hk))
  · obtain ⟨key, hkey, hrep⟩ := (hstages.shown operation hmem hcolumn hupdate).1 hanchor
    obtain hkey | hkey := hshown key hkey
    · exact .inr ⟨key, List.mem_append_left _ hkey, hindex ▸ hrep⟩
    · exact .inl hkey
  all_goals
    have haside := hroom fun l hl => (Nat.add_le_add_left hlength _).trans (hfits l hl)
  · obtain hmem | hmem := hcovers.aside k (hdeferred ▸ hk)
    · exact .inl (List.mem_append_right _ (haside k hmem))
    · exact (hshown k hmem).imp_left (List.mem_append_left _)
  · intro operation hmem hcolumn hupdate
    obtain ⟨key, hkey, hrep⟩ := (hstages.shown operation hmem hcolumn hupdate).2
    obtain hkey | hkey := List.mem_append.1 hkey
    · obtain hkey | hkey := hshown key hkey
      · exact .inr ⟨key, List.mem_append_left _ hkey, hindex ▸ hrep⟩
      · exact .inl hkey
    · exact .inr ⟨key, List.mem_append_right _ (haside key hkey), hindex ▸ hrep⟩

end Awayuki.Timeline
