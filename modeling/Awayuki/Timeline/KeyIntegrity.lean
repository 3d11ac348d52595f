import Awayuki.Timeline.Trimming

/-!
# Rows under their keys

Every row is stored under its own key, and the index lists for every post exactly the rows of it
that are stored.  This holds as long as no update moves the key of a row that it is merged into, and
no two posts share the key of a row.

* `Integrity`: the invariant;
* `Fits`, `SameRow`: when storing a row and merging an update keep it;
* `OperationMeets`, `ReductionsMeet`: the same, along whole runs;
* `key_integrity`: runs that meet the condition keep the invariant.
-/

namespace Awayuki.Timeline

open MutableTimelineEntityState

variable {β : Type} {env : Platform} {s s' s'' : MutableTimelineEntityState β}
  {status updated : TimelineStatus β} {patch : Patch β} {operations : List (UpsertInColumns β)}
  {retained : List StatusKey}

/-- The key of a row and that of its post. -/
def identity (env : Platform) (status : StatusFields β) : StatusKey × StatusKey :=
  (statusKey env status, canonicalStatusKey env status)

/-- Rows are stored under their keys, and the index lists the rows of each post. -/
structure Integrity (env : Platform) (entities : OrderedMap StatusKey (TimelineStatus β))
    (index : CanonicalIndex) : Prop where
  key : ∀ {key entity}, entities.get key = some entity → statusKey env entity.fields = key
  aliases : ∀ {canonical key}, key ∈ CanonicalIndex.aliases index canonical ↔
    ∃ entity, entities.get key = some entity ∧ canonicalStatusKey env entity.fields = canonical

/-! ### The condition of one step -/

/-- No row of another post is stored under the key of a row. -/
def Fits (env : Platform) (s : MutableTimelineEntityState β) (status : StatusFields β) : Prop :=
  ∀ entity ∈ s.entities.get (statusKey env status),
    canonicalStatusKey env entity.fields = canonicalStatusKey env status

/-- The server of an update, and its source account where the row has none, do not change the keys
of the row. -/
def SameRow (env : Platform) (current updated : StatusFields β) : Prop :=
  identity env { current with
    serverDomain := updated.serverDomain
    sourceAcct := current.sourceAcct.or updated.sourceAcct } = identity env current

/-- A row and the posts it quotes fit when they are stored. -/
def UpsertMeets (env : Platform) : TimelineStatus β → MutableTimelineEntityState β → Prop
  | .plain fields, s => Fits env s fields
  | .quoting fields quote, s =>
    UpsertMeets env quote s ∧ Fits env (upsertStatusIdentity env quote s).1 fields

/-- An update is merged into rows whose keys it does not change. -/
def MergeMeets (env : Platform) (s : MutableTimelineEntityState β) (canonical : StatusKey)
    (updated : TimelineStatus β) : Prop :=
  match s.canonicalIndex.get canonical with
  | none => UpsertMeets env updated s
  | some aliases => ∀ key ∈ canonicalAliasKeys aliases, ∀ entity ∈ s.entities.get key,
      SameRow env entity.fields updated.fields

/-- An update of a post is stored and then merged into the rows of a post. -/
def UpdateMeets (env : Platform) (s : MutableTimelineEntityState β) (canonical : StatusKey)
    (updated : TimelineStatus β) : Prop :=
  UpsertMeets env updated s ∧
    MergeMeets env (upsertStatusIdentity env updated s).1 canonical updated

/-- The rows of a list that are stored fit. -/
def ListMeets (env : Platform) (limit : Option ℕ) :
    List (TimelineStatus β) → MutableTimelineEntityState β → List StatusKey → Prop
  | [], _, _ => True
  | status :: rest, s, result =>
    UpsertMeets env status s ∧
      let s := (upsertStatusIdentity env status s).1
      let key := statusKey env status.fields
      if key ∈ result then ListMeets env limit rest s result
      else if limit.any (· ≤ (result ++ [key]).length) then True
      else ListMeets env limit rest s (result ++ [key])

/-- The updates of a batch meet the condition one after the other. -/
def BatchMeets (env : Platform) :
    MutableTimelineEntityState β → List (UpsertInColumns β) → Prop
  | _, [] => True
  | s, operation :: rest =>
    UpdateMeets env s (canonicalStatusKey env operation.status.fields) operation.status ∧
      BatchMeets env (upserted env operation s) rest

def OperationMeets (env : Platform) (s : MutableTimelineEntityState β) :
    TimelineEntityOperation β → Prop
  | .replaceColumn _ statuses limit | .mergeDelta _ statuses limit =>
    ListMeets env (some (normalizeTimelineLimit limit)) statuses s []
  | .appendPage _ statuses => ListMeets env none statuses s []
  | .upsertInColumns operation => BatchMeets env s [operation]
  | .replaceCanonical target status =>
    UpdateMeets env s (canonicalStatusKey env target.fields) status
  | _ => True

/-! ### What keeps the invariant -/

variable {entities : OrderedMap StatusKey (TimelineStatus β)} {index : CanonicalIndex}
  {key canonical : StatusKey} {entity entity' : TimelineStatus β}

namespace Integrity

/-- Another row of the same identity takes the place of a row. -/
theorem set (h : Integrity env entities index) (hget : entities.get key = some entity)
    (hsame : identity env entity'.fields = identity env entity.fields) :
    Integrity env (entities.set key entity') index := by
  obtain ⟨hkey, hcanonical⟩ := Prod.ext_iff.1 hsame
  simp only [identity] at hkey hcanonical
  constructor
  · intro k e he
    rw [OrderedMap.get_set] at he
    split_ifs at he with hk
    · obtain rfl := Option.some.inj he
      rw [hkey, h.key hget, hk]
    · exact h.key he
  · intro c k
    rw [h.aliases, OrderedMap.get_set]
    split_ifs with hk
    · subst hk
      simp [hget, hcanonical]
    · rfl

/-- A new row is stored, or takes the place of a row of its post. -/
theorem store (h : Integrity env entities index)
    (hfits : ∀ entity, entities.get (statusKey env status.fields) = some entity →
      canonicalStatusKey env entity.fields = canonicalStatusKey env status.fields) :
    Integrity env (entities.set (statusKey env status.fields) status)
      (addCanonicalAlias index (canonicalStatusKey env status.fields)
        (statusKey env status.fields)) := by
  constructor
  · intro k e he
    rw [OrderedMap.get_set] at he
    split_ifs at he with hk
    · obtain rfl := Option.some.inj he
      exact hk.symm
    · exact h.key he
  · intro c k
    rw [mem_aliases_addCanonicalAlias, h.aliases, OrderedMap.get_set]
    split_ifs with hk
    · subst hk
      constructor
      · rintro (⟨e, he, rfl⟩ | ⟨rfl, -⟩)
        · exact ⟨status, rfl, (hfits e he).symm⟩
        · exact ⟨status, rfl, rfl⟩
      · rintro ⟨e, he, rfl⟩
        obtain rfl := Option.some.inj he
        exact .inr ⟨rfl, rfl⟩
    · simp [hk]

end Integrity

/-- The rows of a state and their index. -/
def RowsOk (env : Platform) (s : MutableTimelineEntityState β) : Prop :=
  Integrity env s.entities s.canonicalIndex

theorem RowsOk.storeStatus (h : RowsOk env s) (hfits : Fits env s status.fields) :
    RowsOk env (storeStatus env s status).1 :=
  Integrity.store h hfits

theorem RowsOk.upsertStatusIdentity (h : RowsOk env s) (hmeets : UpsertMeets env status s) :
    RowsOk env (upsertStatusIdentity env status s).1 := by
  induction status generalizing s with
  | plain fields => exact h.storeStatus hmeets
  | quoting fields quote ih =>
    obtain ⟨hquote, hfits⟩ := hmeets
    rw [upsertStatusIdentity_eq]
    exact (ih h hquote).storeStatus hfits

/-- The rows of a post are changed, each to one of the same identity. -/
theorem RowsOk.updateAliases (h : RowsOk env s) {f : TimelineStatus β → TimelineStatus β}
    (P : TimelineStatus β → Prop) (hf : ∀ entity, P entity →
      identity env (f entity).fields = identity env entity.fields ∧ P (f entity))
    {aliases : CanonicalAliases}
    (hP : ∀ key ∈ canonicalAliasKeys aliases, ∀ entity, s.entities.get key = some entity →
      P entity) : RowsOk env (updateAliases f s aliases) := by
  unfold Timeline.updateAliases
  generalize canonicalAliasKeys aliases = keys at hP
  induction keys generalizing s with
  | nil => exact h
  | cons k keys ih =>
    rw [List.foldl_cons]
    cases hget : s.entities.get k with
    | none => exact ih h fun key hkey => hP key (List.mem_cons_of_mem _ hkey)
    | some current =>
      obtain ⟨hidentity, hnext⟩ := hf current (hP k List.mem_cons_self current hget)
      refine ih (Integrity.set h hget hidentity) fun key hkey entity hentity => ?_
      rw [OrderedMap.get_set] at hentity
      split_ifs at hentity
      · obtain rfl := Option.some.inj hentity
        exact hnext
      · exact hP key (List.mem_cons_of_mem _ hkey) entity hentity

theorem identity_mergeUpdated {current : TimelineStatus β} :
    identity env (mergeUpdatedStatusIntoEntry current updated).fields =
      identity env { current.fields with
        serverDomain := updated.fields.serverDomain
        sourceAcct := current.fields.sourceAcct.or updated.fields.sourceAcct } := by
  rw [mergeUpdatedStatusIntoEntry, TimelineStatus.fields_mk]
  rfl

theorem RowsOk.replaceCanonicalAliases (h : RowsOk env s)
    (hmeets : MergeMeets env s canonical updated) :
    RowsOk env (replaceCanonicalAliases env s canonical updated) := by
  unfold MergeMeets at hmeets
  unfold Timeline.replaceCanonicalAliases
  cases hget : s.canonicalIndex.get canonical with
  | none =>
    rw [hget] at hmeets
    exact h.upsertStatusIdentity hmeets
  | some aliases =>
    rw [hget] at hmeets
    refine h.updateAliases (fun entity => SameRow env entity.fields updated.fields)
      (fun entity hsame => ⟨identity_mergeUpdated.trans hsame, ?_⟩) hmeets
    -- Merging the same update once more changes nothing in the keys.
    unfold SameRow
    rw [identity_mergeUpdated, mergeUpdatedStatusIntoEntry, TimelineStatus.fields_mk]
    simp only [Option.or_assoc, Option.or_self]
    rfl

theorem identity_patch (hpatch : patch.KeepsIdentity) (entity : TimelineStatus β) :
    identity env (patch.apply entity).fields = identity env entity.fields := by
  obtain ⟨hid, horiginal, hacct, hserver, huri, hnotification⟩ := hpatch
  rw [Patch.apply, TimelineStatus.fields_mk, hid, horiginal, hacct, hserver, huri, hnotification]
  rfl

theorem RowsOk.patchCanonicalAliases (h : RowsOk env s) (hpatch : patch.KeepsIdentity) :
    RowsOk env (patchCanonicalAliases s canonical patch) := by
  unfold Timeline.patchCanonicalAliases
  cases s.canonicalIndex.get canonical with
  | none => exact h
  | some aliases =>
    exact h.updateAliases (fun _ => True) (fun entity _ => ⟨identity_patch hpatch entity, trivial⟩)
      fun _ _ _ _ => trivial

theorem RowsOk.removeCanonicalAliases (h : RowsOk env s) (canonical : StatusKey) :
    RowsOk env (removeCanonicalAliases s canonical) := by
  obtain ⟨-, hget, haliases⟩ := removeCanonicalAliases_spec (s := s) canonical
  constructor
  · intro key entity hentity
    rw [hget] at hentity
    split_ifs at hentity
    exact h.key hentity
  · intro c key
    rw [haliases, hget]
    by_cases hc : c = canonical
    · -- The rows of the post are gone.
      rw [if_pos hc]
      constructor
      · intro hmem
        cases hmem
      · rintro ⟨entity, hentity, hpost⟩
        split_ifs at hentity with hmem
        exact absurd (h.aliases.2 ⟨entity, hentity, hpost.trans hc⟩) hmem
    · rw [if_neg hc, h.aliases]
      constructor
      · rintro ⟨entity, hentity, hpost⟩
        refine ⟨entity, ?_, hpost⟩
        rw [if_neg, hentity]
        intro hmem
        obtain ⟨entity', hentity', hpost'⟩ := h.aliases.1 hmem
        obtain rfl := Option.some.inj (hentity.symm.trans hentity')
        exact hc (hpost.symm.trans hpost')
      · rintro ⟨entity, hentity, hpost⟩
        split_ifs at hentity
        exact ⟨entity, hentity, hpost⟩

theorem RowsOk.foldl {α : Type}
    {step : MutableTimelineEntityState β → α → MutableTimelineEntityState β}
    (hstep : ∀ s a, RowsOk env s → RowsOk env (step s a)) (todo : List α) (h : RowsOk env s) :
    RowsOk env (todo.foldl step s) := by
  induction todo generalizing s with
  | nil => exact h
  | cons a todo ih => exact ih (hstep s a h)

theorem RowsOk.removeCanonicalById (h : RowsOk env s) (serverDomain statusId : Str) :
    RowsOk env (removeCanonicalById env s serverDomain statusId) := by
  refine .foldl (fun s canonical h => h.removeCanonicalAliases canonical) _ ?_
  exact ⟨h.key, h.aliases⟩

/-! ### Columns -/

theorem RowsOk.trimIf (h : RowsOk env s) (trimmed : Bool) (columnId : Str) :
    RowsOk env (trimIf s trimmed columnId) := by
  cases trimmed
  · exact h
  · exact ⟨h.key, h.aliases⟩

theorem RowsOk.setColumnKeys (h : RowsOk env s) (columnId : Str) (keys : List StatusKey) :
    RowsOk env (setColumnKeys s columnId keys) := ⟨h.key, h.aliases⟩

theorem RowsOk.setDeferredColumnKeys (h : RowsOk env s) (columnId : Str) (keys : List StatusKey) :
    RowsOk env (setDeferredColumnKeys s columnId keys) := ⟨h.key, h.aliases⟩

theorem RowsOk.removeFromColumns (h : RowsOk env s) (target : TimelineStatus β)
    (columnIds : List Str) : RowsOk env (removeFromColumns env s target columnIds) := by
  unfold Timeline.removeFromColumns
  cases s.canonicalIndex.get (canonicalStatusKey env target.fields) with
  | none => exact h
  | some aliases =>
    refine .foldl (fun s columnId h => ?_) columnIds h
    have hvisible : RowsOk env (removeFromVisible aliases s columnId) := by
      unfold removeFromVisible
      split
      · exact h
      · exact h.setColumnKeys _ _
    unfold removeFromDeferred
    split
    · exact hvisible
    · exact hvisible.setDeferredColumnKeys _ _

/-! ### Lists and batches -/

theorem RowsOk.normalizeLoop (h : RowsOk env s) {limit : Option ℕ}
    {statuses : List (TimelineStatus β)} {result : List StatusKey}
    (hmeets : ListMeets env limit statuses s result) :
    RowsOk env (normalizeLoop env limit statuses s result).1 := by
  induction statuses generalizing s result with
  | nil => exact h
  | cons status rest ih =>
    obtain ⟨hstatus, hrest⟩ := hmeets
    have hnext := h.upsertStatusIdentity hstatus
    rw [normalizeLoop_cons]
    simp only at hrest ⊢
    by_cases hmem : statusKey env status.fields ∈ result
    · rw [if_pos hmem] at hrest ⊢
      exact ih hnext hrest
    · rw [if_neg hmem] at hrest ⊢
      split_ifs at hrest ⊢
      · exact hnext
      · exact ih hnext hrest

theorem RowsOk.stageUpserts {staged : Staged β} (h : RowsOk env staged.state)
    (hmeets : BatchMeets env staged.state operations) :
    RowsOk env (operations.foldl (stageUpsert env) staged).state := by
  induction operations generalizing staged with
  | nil => exact h
  | cons operation operations ih =>
    obtain ⟨⟨hupsert, hmerge⟩, hrest⟩ := hmeets
    obtain ⟨hstate, -⟩ := stageUpsert_spec env staged operation
    rw [List.foldl_cons]
    refine ih ?_ ?_
    · rw [hstate]
      exact (h.upsertStatusIdentity hupsert).replaceCanonicalAliases hmerge
    · rwa [hstate]

theorem RowsOk.applyPendingChanges (h : RowsOk env s) (limits : OrderedMap Str (Option ℕ))
    (columnId : Str) (changes : PendingColumnChanges) :
    RowsOk env (applyPendingChanges env limits s columnId changes) := by
  have hcurrent : RowsOk env
      (applyCurrentChanges env (limits.get columnId).join s columnId changes) := by
    unfold applyCurrentChanges
    split_ifs
    · exact (h.setColumnKeys _ _).trimIf _ _
    · exact h
  unfold Timeline.applyPendingChanges applyDeferredChanges
  split_ifs
  · exact hcurrent.setDeferredColumnKeys _ _
  · exact hcurrent

theorem RowsOk.applyUpsertBatch (h : RowsOk env s) (hmeets : BatchMeets env s operations)
    (limits : OrderedMap Str (Option ℕ)) :
    RowsOk env (applyUpsertBatch env s operations limits) := by
  have hstart : RowsOk env { state := s, pending := .empty, sequence := 0 : Staged β }.state := h
  exact .foldl (fun _ e h => h.applyPendingChanges limits e.1 e.2) _ (hstart.stageUpserts hmeets)

/-! ### The end of a reduction -/

theorem RowsOk.relinkEntity (h : RowsOk env s) (key : StatusKey) :
    RowsOk env (relinkEntity env s key) := by
  unfold Timeline.relinkEntity
  split
  · exact h
  · rename_i hget
    split
    · exact h
    · split
      · exact h
      · exact Integrity.set h hget rfl

/-- A row that is not retained is forgotten together with its entry in the index. -/
theorem RowsOk.pruneEntity (h : RowsOk env s) (hget : s.entities.get key = some entity) :
    RowsOk env (pruneEntity env retained s (key, entity)) := by
  unfold Timeline.pruneEntity
  split_ifs
  · exact h
  · constructor
    · intro k e he
      rw [OrderedMap.get_delete] at he
      split_ifs at he
      exact h.key he
    · intro c k
      rw [mem_aliases_removeCanonicalAlias, h.aliases, OrderedMap.get_delete]
      constructor
      · rintro ⟨⟨e, he, rfl⟩, hnot⟩
        refine ⟨e, ?_, rfl⟩
        rw [if_neg, he]
        rintro rfl
        obtain rfl := Option.some.inj (hget.symm.trans he)
        exact hnot ⟨rfl, rfl⟩
      · rintro ⟨e, he, rfl⟩
        split_ifs at he with hk
        exact ⟨⟨e, he, rfl⟩, fun hboth => hk hboth.2⟩

theorem RowsOk.pruneEntities (h : RowsOk env s) {todo : List (StatusKey × TimelineStatus β)}
    (hnodup : (todo.map Prod.fst).Nodup) (htodo : ∀ e ∈ todo, s.entities.get e.1 = some e.2) :
    RowsOk env (todo.foldl (Timeline.pruneEntity env retained) s) := by
  induction todo generalizing s with
  | nil => exact h
  | cons e todo ih =>
    obtain ⟨hnot, hnodup⟩ := List.nodup_cons.1 hnodup
    refine ih (h.pruneEntity (htodo e List.mem_cons_self)) hnodup fun e' he' => ?_
    -- The rows that are left to go through are untouched.
    rw [(pruneEntity_spec env s retained e).get, if_neg]
    · exact htodo e' (List.mem_cons_of_mem _ he')
    · rintro ⟨heq, -⟩
      exact hnot (heq ▸ List.mem_map_of_mem he')

theorem RowsOk.pruneUnreferencedEntities (h : RowsOk env s) :
    RowsOk env (pruneUnreferencedEntities env s) :=
  h.pruneEntities s.entities.nodup fun _ => OrderedMap.get_eq_some.2

/-! ### Runs -/

/-- The patches of a run do not touch the fields that the keys are made of. -/
def PatchesKeepIdentity (operations : List (TimelineEntityOperation β)) : Prop :=
  ∀ target patch, .patchCanonical target patch ∈ operations → patch.KeepsIdentity

/-- The operations of a reduction meet the condition one after the other. -/
def OperationsMeet (env : Platform) :
    ℕ → MutableTimelineEntityState β → List (TimelineEntityOperation β) → Prop
  | 0, _, _ => True
  | _ + 1, _, [] => True
  | fuel + 1, s, .upsertInColumns operation :: rest =>
    let (batch, policy, rest) := joinBatch env s operation rest
      ((recordBatchPolicy env emptyBatchPolicy operation).getD emptyBatchPolicy)
    BatchMeets env s (operation :: batch) ∧
      OperationsMeet env fuel (applyUpsertBatch env s (operation :: batch) policy.limits) rest
  | fuel + 1, s, operation :: rest =>
    OperationMeets env s operation ∧ OperationsMeet env fuel (applyOperation env s operation) rest

/-- So do the operations of reductions that follow each other. -/
def ReductionsMeet (env : Platform) :
    List (List (TimelineEntityOperation β)) → TimelineEntityState β → Prop
  | [], _ => True
  | operations :: rest, s =>
    OperationsMeet env operations.length s.toMutable operations ∧
      ReductionsMeet env rest (reduceTimelineEntities env s operations).1

section Decidable

instance (status : StatusFields β) : Decidable (Fits env s status) :=
  inferInstanceAs (Decidable (∀ entity ∈ s.entities.get (statusKey env status), _ = _))

instance (current updated : StatusFields β) : Decidable (SameRow env current updated) :=
  inferInstanceAs (Decidable (_ = _))

instance decidableUpsertMeets : (status : TimelineStatus β) →
    (s : MutableTimelineEntityState β) → Decidable (UpsertMeets env status s)
  | .plain fields, s => inferInstanceAs (Decidable (Fits env s fields))
  | .quoting _ quote, s => @instDecidableAnd _ _ (decidableUpsertMeets quote s) inferInstance

instance (updated : TimelineStatus β) : Decidable (MergeMeets env s canonical updated) :=
  match h : s.canonicalIndex.get canonical with
  | none => decidable_of_iff (UpsertMeets env updated s) (by rw [MergeMeets, h])
  | some aliases =>
    decidable_of_iff (∀ key ∈ canonicalAliasKeys aliases, ∀ entity ∈ s.entities.get key,
      SameRow env entity.fields updated.fields) (by rw [MergeMeets, h])

instance (updated : TimelineStatus β) : Decidable (UpdateMeets env s canonical updated) :=
  inferInstanceAs (Decidable (_ ∧ _))

instance decidableListMeets (limit : Option ℕ) : (statuses : List (TimelineStatus β)) →
    (s : MutableTimelineEntityState β) → (result : List StatusKey) →
      Decidable (ListMeets env limit statuses s result)
  | [], _, _ => instDecidableTrue
  | _ :: rest, _, _ =>
    have (s : MutableTimelineEntityState β) (result : List StatusKey) :
      Decidable (ListMeets env limit rest s result) := decidableListMeets limit rest s result
    inferInstanceAs (Decidable (_ ∧ ite _ _ (ite _ _ _)))

instance decidableBatchMeets : (s : MutableTimelineEntityState β) →
    (operations : List (UpsertInColumns β)) → Decidable (BatchMeets env s operations)
  | _, [] => instDecidableTrue
  | s, operation :: rest =>
    @instDecidableAnd _ _ inferInstance (decidableBatchMeets (upserted env operation s) rest)

instance (operation : TimelineEntityOperation β) : Decidable (OperationMeets env s operation) :=
  match operation with
  | .replaceColumn .. | .mergeDelta .. | .appendPage .. =>
    inferInstanceAs (Decidable (ListMeets ..))
  | .upsertInColumns _ => inferInstanceAs (Decidable (BatchMeets ..))
  | .replaceCanonical .. => inferInstanceAs (Decidable (UpdateMeets ..))
  | .flushDeferredColumn .. | .patchCanonical .. | .removeCanonical _ | .removeFromColumns ..
  | .removeCanonicalId .. | .removeColumn _ => instDecidableTrue

instance decidableOperationsMeet : (fuel : ℕ) → (s : MutableTimelineEntityState β) →
    (operations : List (TimelineEntityOperation β)) →
      Decidable (OperationsMeet env fuel s operations)
  | 0, _, _ => instDecidableTrue
  | _ + 1, _, [] => instDecidableTrue
  | fuel + 1, _, .upsertInColumns _ :: _ =>
    @instDecidableAnd _ _ inferInstance (decidableOperationsMeet fuel _ _)
  | fuel + 1, _, .replaceColumn .. :: _ | fuel + 1, _, .appendPage .. :: _
  | fuel + 1, _, .mergeDelta .. :: _ | fuel + 1, _, .flushDeferredColumn .. :: _
  | fuel + 1, _, .replaceCanonical .. :: _ | fuel + 1, _, .patchCanonical .. :: _
  | fuel + 1, _, .removeCanonical _ :: _ | fuel + 1, _, .removeFromColumns .. :: _
  | fuel + 1, _, .removeCanonicalId .. :: _ | fuel + 1, _, .removeColumn _ :: _ =>
    @instDecidableAnd _ _ inferInstance (decidableOperationsMeet fuel _ _)

instance decidableReductionsMeet : (reductions : List (List (TimelineEntityOperation β))) →
    (s : TimelineEntityState β) → Decidable (ReductionsMeet env reductions s)
  | [], _ => instDecidableTrue
  | _ :: rest, _ => @instDecidableAnd _ _ inferInstance (decidableReductionsMeet rest _)

end Decidable

theorem RowsOk.applyOperation (h : RowsOk env s) {operation : TimelineEntityOperation β}
    (hpatch : PatchesKeepIdentity [operation]) (hmeets : OperationMeets env s operation) :
    RowsOk env (applyOperation env s operation) := by
  cases operation with
  | replaceColumn columnId statuses limit =>
    exact ((h.normalizeLoop hmeets).trimIf _ _).setColumnKeys _ _
  | appendPage columnId statuses =>
    have hrows : RowsOk env (normalizeStatusList env s statuses none).1 := h.normalizeLoop hmeets
    show RowsOk env (if _ then _ else _)
    split_ifs
    · exact hrows.setColumnKeys _ _
    · exact hrows
  | mergeDelta columnId statuses limit =>
    exact ((h.normalizeLoop hmeets).trimIf _ _).setColumnKeys _ _
  | upsertInColumns operation => exact h.applyUpsertBatch hmeets _
  | flushDeferredColumn columnId limit =>
    show RowsOk env (if s.deferred columnId = [] then s else _)
    split_ifs
    · exact h
    · exact ⟨(h.trimIf _ columnId).key, (h.trimIf _ columnId).aliases⟩
  | replaceCanonical target status =>
    exact (h.upsertStatusIdentity hmeets.1).replaceCanonicalAliases hmeets.2
  | patchCanonical target patch =>
    exact h.patchCanonicalAliases (hpatch target patch List.mem_cons_self)
  | removeCanonical target => exact h.removeCanonicalAliases _
  | removeFromColumns target columnIds => exact h.removeFromColumns target columnIds
  | removeCanonicalId serverDomain statusId => exact h.removeCanonicalById serverDomain statusId
  | removeColumn columnId => exact ⟨h.key, h.aliases⟩

theorem RowsOk.applyOperations (h : RowsOk env s) (fuel : ℕ)
    {operations : List (TimelineEntityOperation β)} (hpatch : PatchesKeepIdentity operations)
    (hmeets : OperationsMeet env fuel s operations) :
    RowsOk env (applyOperations env fuel s operations) := by
  fun_induction Timeline.applyOperations with
  | case1 => exact h
  | case2 => exact h
  | case3 fuel s operation rest batch policy rest' hjoin ih =>
    simp only [OperationsMeet, hjoin] at hmeets
    obtain ⟨hbatch, hrest⟩ := hmeets
    refine ih (h.applyUpsertBatch hbatch _) (fun target patch hmem => ?_) hrest
    -- What is left after the batch are operations of the list.
    have hsplit := (joinBatch_spec env s operation rest
      ((recordBatchPolicy env emptyBatchPolicy operation).getD emptyBatchPolicy)).1
    rw [hjoin] at hsplit
    refine hpatch target patch (List.mem_cons_of_mem _ ?_)
    rw [hsplit]
    exact List.mem_append_right _ hmem
  | case4 fuel s operation rest hnot ih =>
    rw [OperationsMeet] at hmeets
    · obtain ⟨hoperation, hrest⟩ := hmeets
      refine ih (h.applyOperation ?_ hoperation) ?_ hrest
      · intro target patch hmem
        exact hpatch target patch (by rw [List.mem_singleton.1 hmem]; exact List.mem_cons_self)
      · exact fun target patch hmem => hpatch target patch (List.mem_cons_of_mem _ hmem)
    · exact hnot

theorem Integrity.reduce {s : TimelineEntityState β}
    (h : Integrity env s.entities s.canonicalIndex)
    {operations : List (TimelineEntityOperation β)} (hpatch : PatchesKeepIdentity operations)
    (hmeets : OperationsMeet env operations.length s.toMutable operations) :
    Integrity env (reduceTimelineEntities env s operations).1.entities
      (reduceTimelineEntities env s operations).1.canonicalIndex := by
  have hrows : RowsOk env s.toMutable := h
  unfold reduceTimelineEntities
  split_ifs
  · exact h
  · exact (RowsOk.foldl (fun _ key h => h.relinkEntity key) _
      (hrows.applyOperations operations.length hpatch hmeets)).pruneUnreferencedEntities

/-- There are no rows at the start. -/
theorem Integrity.create : Integrity env
    (createTimelineEntityState : TimelineEntityState β).entities
    (createTimelineEntityState : TimelineEntityState β).canonicalIndex := by
  constructor
  · intro key entity hget
    cases hget
  · intro canonical key
    constructor
    · intro hmem
      cases hmem
    · rintro ⟨entity, hget, -⟩
      cases hget

/-- Reductions whose operations store rows only under keys of their posts, and merge updates only
into rows whose keys they do not change, leave every row under its key and in the index. -/
theorem key_integrity (env : Platform) (reductions : List (List (TimelineEntityOperation β)))
    (hpatch : ∀ operations ∈ reductions, PatchesKeepIdentity operations)
    (hmeets : ReductionsMeet env reductions createTimelineEntityState) :
    Integrity env (reduceAll env reductions).entities (reduceAll env reductions).canonicalIndex := by
  have hcreate : Integrity env (createTimelineEntityState : TimelineEntityState β).entities
      (createTimelineEntityState : TimelineEntityState β).canonicalIndex := .create
  unfold reduceAll
  generalize createTimelineEntityState = s at hmeets hcreate
  induction reductions generalizing s with
  | nil => exact hcreate
  | cons operations reductions ih =>
    obtain ⟨hoperations, hrest⟩ := hmeets
    exact ih (fun operations' hmem => hpatch operations' (List.mem_cons_of_mem _ hmem)) _ hrest
      (hcreate.reduce (hpatch operations List.mem_cons_self) hoperations)

/-- A notification of a sample post, and the post as another server has it. -/
def sampleNotification : StatusFields Unit :=
  { samplePost "1" 1 with
    notificationId := some "n".toList
    sourceAcct := some "me@alpha.example".toList }

def sampleElsewhere : StatusFields Unit :=
  { samplePost "1" 1 with serverDomain := "beta.example".toList }

/-- Reductions that show two rows in a column, one after the other. -/
def sampleRows (first second : StatusFields Unit) : List (List (TimelineEntityOperation Unit)) :=
  [first, second].map fun fields =>
    [.upsertInColumns
      { columnIds := ["home".toList], status := .plain fields, limits := fun _ => none }]

theorem patches_sampleRows (first second : StatusFields Unit) :
    ∀ operations ∈ sampleRows first second, PatchesKeepIdentity operations := by
  intro operations hmem target patch hpatch
  obtain ⟨fields, -, rfl⟩ := List.mem_map.1 hmem
  cases List.mem_singleton.1 hpatch

theorem key_integrity_sampleRows :
    Integrity samplePlatform
      (reduceAll samplePlatform (sampleRows sampleNotification (samplePost "1" 1))).entities
      (reduceAll samplePlatform (sampleRows sampleNotification (samplePost "1" 1))).canonicalIndex := by
  refine key_integrity samplePlatform _ (patches_sampleRows _ _) ?_
  decide +kernel

/-- The server of an update moves the key of a notification that it is merged into. -/
theorem not_key_integrity :
    ¬∀ (env : Platform) (reductions : List (List (TimelineEntityOperation Unit))),
      (∀ operations ∈ reductions, PatchesKeepIdentity operations) →
      Integrity env (reduceAll env reductions).entities (reduceAll env reductions).canonicalIndex := by
  intro h
  have hrows := h samplePlatform (sampleRows sampleNotification sampleElsewhere)
    (patches_sampleRows _ _)
  have hstored : (reduceAll samplePlatform
      (sampleRows sampleNotification sampleElsewhere)).entities.get
        (statusKey samplePlatform sampleNotification) =
      some (.plain { sampleNotification with serverDomain := "beta.example".toList }) := by
    decide +kernel
  have hlost := hrows.key hstored
  revert hlost
  decide +kernel

end Awayuki.Timeline
