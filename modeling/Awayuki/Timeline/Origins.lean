import Awayuki.Timeline.Relinking

/-!
# Where the fields of the stored rows come from

A reduction ends with passes that change the quotes of rows and forget rows.  The fields of a row
that it leaves are those of a row that was stored before, as the operations have changed it, or of
a post that an operation brought, on its own or embedded in another.

* `TimelineStatus.Every`: what holds of a post and of all that are embedded in it;
* `AllFields.replaceColumn`: the rows after a column was replaced;
* `exists_patched`: the rows after posts were patched.
-/

namespace Awayuki.Timeline

variable {β : Type} {env : Platform} {s : MutableTimelineEntityState β} {key : StatusKey}
  {previous : TimelineEntityState β}

/-- The post and those embedded in it, at every depth. -/
def TimelineStatus.Every (P : StatusFields β → Prop) : TimelineStatus β → Prop
  | .plain fields => P fields
  | .quoting fields quote => P fields ∧ quote.Every P

variable {status : TimelineStatus β}

theorem TimelineStatus.every_of_quote {P : StatusFields β → Prop} (hfields : P status.fields)
    (hquote : ∀ quote ∈ status.quote, quote.Every P) : status.Every P := by
  cases status with
  | plain fields => exact hfields
  | quoting fields quote => exact ⟨hfields, hquote quote rfl⟩

instance TimelineStatus.decidableEvery {P : StatusFields β → Prop} [DecidablePred P] :
    (status : TimelineStatus β) → Decidable (status.Every P)
  | .plain fields => inferInstanceAs (Decidable (P fields))
  | .quoting _ quote => @instDecidableAnd _ _ inferInstance (decidableEvery quote)

/-- The fields of every stored row. -/
def AllFields (P : StatusFields β → Prop) (entities : OrderedMap StatusKey (TimelineStatus β)) :
    Prop :=
  ∀ key entity, entities.get key = some entity → P entity.fields

/-! ### The end of a reduction -/

variable {entity : TimelineStatus β}

/-- The passes that end a reduction leave the fields of rows alone. -/
theorem exists_fields
    (h : (pruneUnreferencedEntities env (relinkNestedStatuses env s)).entities.get key =
      some entity) :
    ∃ entity', s.entities.get key = some entity' ∧ entity.fields = entity'.fields := by
  obtain ⟨hget, -⟩ := get_pruneUnreferencedEntities.1 h
  obtain ⟨get, hrelinked⟩ := get_relinkNestedStatuses env s key
  rw [hrelinked] at hget
  obtain ⟨entity', hentity', rfl⟩ := Option.map_eq_some_iff.1 hget
  exact ⟨entity', hentity', fields_relinked _ _ entity'⟩

/-! ### Columns that are replaced -/

namespace AllFields

variable {P : StatusFields β → Prop}

theorem upsertStatusIdentity (h : AllFields P s.entities) (hstatus : status.Every P) :
    AllFields P (upsertStatusIdentity env status s).1.entities := by
  -- A post is stored after the one it quotes.
  have hstore {s : MutableTimelineEntityState β} (status : TimelineStatus β)
      (h : AllFields P s.entities) (hfields : P status.fields) :
      AllFields P (storeStatus env s status).1.entities := by
    intro key entity hget
    rw [storeStatus_entities, OrderedMap.get_set] at hget
    split_ifs at hget
    · obtain rfl := Option.some.inj hget
      exact hfields
    · exact h key entity hget
  induction status generalizing s with
  | plain fields => exact hstore (.plain fields) h hstatus
  | quoting fields quote ih =>
    rw [upsertStatusIdentity_eq]
    exact hstore (.quoting fields quote) (ih h hstatus.2) hstatus.1

variable {statuses : List (TimelineStatus β)}

theorem normalizeLoop {limit : Option ℕ} {result : List StatusKey} (h : AllFields P s.entities)
    (hall : ∀ status ∈ statuses, status.Every P) :
    AllFields P (normalizeLoop env limit statuses s result).1.entities := by
  induction statuses generalizing s result with
  | nil => exact h
  | cons status rest ih =>
    have hnext : AllFields P (Timeline.upsertStatusIdentity env status s).1.entities :=
      h.upsertStatusIdentity (hall status List.mem_cons_self)
    have hrest : ∀ status ∈ rest, status.Every P := fun status hmem =>
      hall status (List.mem_cons_of_mem _ hmem)
    rw [normalizeLoop_cons]
    simp only
    split_ifs
    · exact ih hnext hrest
    · exact hnext
    · exact ih hnext hrest

/-- What holds of the stored rows and of all that replaces a column holds of the rows that are
stored then. -/
theorem replaceColumn {columnId : Str} {limit : Limit} (h : AllFields P previous.entities)
    (hall : ∀ status ∈ statuses, status.Every P) : AllFields P (reduceTimelineEntities env previous
      [.replaceColumn columnId statuses limit]).1.entities := by
  intro key entity hget
  rw [entities_reduce previous (by simp)] at hget
  obtain ⟨entity', hget', hfields⟩ := exists_fields hget
  have hrows : AllFields P (normalizeStatusList env previous.toMutable statuses
      (some limit)).1.entities := normalizeLoop (s := previous.toMutable) h hall
  rw [hfields]
  refine hrows key entity' ?_
  rw [← hget']
  show _ = (setColumnKeys (trimIf _ _ columnId) columnId _).entities.get key
  rw [entities_setColumnKeys, entities_trimIf]
  rfl

end AllFields

/-! ### Posts that are patched -/

/-- Applying the patch once more changes nothing. -/
def Patch.Idempotent (patch : Patch β) : Prop :=
  ∀ row, patch.apply (patch.apply row) = patch.apply row

theorem get_updateAliases {f : TimelineStatus β → TimelineStatus β} (hf : ∀ row, f (f row) = f row)
    {aliases : CanonicalAliases} : (updateAliases f s aliases).entities.get key =
      if key ∈ canonicalAliasKeys aliases then (s.entities.get key).map f
      else s.entities.get key := by
  unfold updateAliases
  generalize canonicalAliasKeys aliases = keys
  induction keys generalizing s with
  | nil => rfl
  | cons k keys ih =>
    rw [List.foldl_cons, ih]
    cases hget : s.entities.get k with
    | none =>
      by_cases hk : key = k
      · subst hk
        simp [hget]
      · simp [hk]
    | some current =>
      simp only [OrderedMap.get_set]
      by_cases hk : key = k
      · subst hk
        simp [hget, hf]
      · simp [hk]

/-- The rows of the post, and no others, are patched. -/
theorem get_patchCanonicalAliases (h : RowsOk env s) {canonical : StatusKey} {patch : Patch β}
    (hpatch : patch.Idempotent) (key : StatusKey) :
    (patchCanonicalAliases s canonical patch).entities.get key =
      (s.entities.get key).map fun row =>
        if canonicalStatusKey env row.fields = canonical then patch.apply row else row := by
  have hlisted {row : TimelineStatus β} (hrow : s.entities.get key = some row) :
      key ∈ CanonicalIndex.aliases s.canonicalIndex canonical ↔
        canonicalStatusKey env row.fields = canonical := by
    rw [h.aliases]
    simp [hrow]
  unfold patchCanonicalAliases
  unfold CanonicalIndex.aliases at hlisted
  cases hindex : s.canonicalIndex.get canonical with
  | none =>
    cases hrow : s.entities.get key with
    | none => simp
    | some row =>
      have hnot := (hlisted hrow).not.1 (by simp [hindex])
      simp [hnot]
  | some aliases =>
    simp only [get_updateAliases hpatch]
    cases hrow : s.entities.get key with
    | none => simp
    | some row =>
      have hiff := hlisted hrow
      simp only [hindex, Option.map_some, Option.getD_some] at hiff
      simp only [hiff, Option.map_some]
      split_ifs <;> rfl

/-- What patches of posts make of a row, one after the other. -/
def patchedBy (env : Platform) (patches : List (TimelineStatus β × Patch β))
    (row : TimelineStatus β) : TimelineStatus β :=
  patches.foldl (fun row e =>
    if canonicalStatusKey env row.fields = canonicalStatusKey env e.1.fields then e.2.apply row
    else row) row

/-- The operations of a reduction that only patches posts. -/
def patchOperations (patches : List (TimelineStatus β × Patch β)) :
    List (TimelineEntityOperation β) :=
  patches.map fun e => .patchCanonical e.1 e.2

variable {patches : List (TimelineStatus β × Patch β)}

theorem patchesKeepIdentity_patchOperations (hkeep : ∀ e ∈ patches, e.2.KeepsIdentity) :
    PatchesKeepIdentity (patchOperations patches) := by
  intro target patch hmem
  obtain ⟨e, he, heq⟩ := List.mem_map.1 hmem
  cases heq
  exact hkeep e he

theorem operationsMeet_patchOperations (patches : List (TimelineStatus β × Patch β)) (fuel : ℕ) :
    OperationsMeet env fuel s (patchOperations patches) := by
  induction patches generalizing s fuel with
  | nil => cases fuel <;> trivial
  | cons e patches ih =>
    cases fuel with
    | zero => trivial
    | succ fuel => exact ⟨trivial, ih fuel⟩

theorem get_applyOperations_patches (h : RowsOk env s) (hkeep : ∀ e ∈ patches, e.2.KeepsIdentity)
    (hidem : ∀ e ∈ patches, e.2.Idempotent) (key : StatusKey) :
    (applyOperations env patches.length s (patchOperations patches)).entities.get key =
      (s.entities.get key).map (patchedBy env patches) := by
  induction patches generalizing s with
  | nil =>
    show s.entities.get key = (s.entities.get key).map fun row => row
    rw [Option.map_id']
  | cons e patches ih =>
    show (applyOperations env patches.length (patchCanonicalAliases s
      (canonicalStatusKey env e.1.fields) e.2) (patchOperations patches)).entities.get key = _
    rw [ih (h.patchCanonicalAliases (hkeep e List.mem_cons_self))
      (fun e' he' => hkeep e' (List.mem_cons_of_mem _ he'))
      (fun e' he' => hidem e' (List.mem_cons_of_mem _ he')),
      get_patchCanonicalAliases h (hidem e List.mem_cons_self), Option.map_map]
    rfl

/-- A row that is stored after posts were patched is a row from before, with the fields that the
patches have given it. -/
theorem exists_patched (h : Integrity env previous.entities previous.canonicalIndex)
    (hkeep : ∀ e ∈ patches, e.2.KeepsIdentity) (hidem : ∀ e ∈ patches, e.2.Idempotent)
    (hget : (reduceTimelineEntities env previous (patchOperations patches)).1.entities.get key =
      some entity) : ∃ row, previous.entities.get key = some row ∧
      entity.fields = (patchedBy env patches row).fields := by
  have hrows : RowsOk env previous.toMutable := h
  by_cases hne : patchOperations patches = []
  · obtain rfl : patches = [] := List.map_eq_nil_iff.1 hne
    exact ⟨entity, hget, rfl⟩
  · rw [entities_reduce previous hne] at hget
    obtain ⟨entity', hget', hfields⟩ := exists_fields hget
    unfold beforeRelinking at hget'
    rw [patchOperations, List.length_map, ← patchOperations,
      get_applyOperations_patches hrows hkeep hidem] at hget'
    obtain ⟨row, hrow, rfl⟩ := Option.map_eq_some_iff.1 hget'
    exact ⟨row, hrow, hfields⟩

/-! ### The rows of columns -/

/-- The rows that columns show are stored rows. -/
def ShowsStored (s : TimelineEntityState β) : Prop :=
  ∀ columnId rows, s.timelines.get columnId = some rows → ∀ row ∈ rows,
    ∃ key, s.entities.get key = some row

theorem ShowsStored.reduce (h : ShowsStored previous)
    (operations : List (TimelineEntityOperation β)) :
    ShowsStored (reduceTimelineEntities env previous operations).1 := by
  unfold reduceTimelineEntities
  split_ifs
  · exact h
  · intro columnId rows hget row hrow
    simp only [materializeTimelines, OrderedMap.get_map] at hget
    obtain ⟨keys, -, rfl⟩ := Option.map_eq_some_iff.1 hget
    obtain ⟨key, -, hkey⟩ := List.mem_filterMap.1 hrow
    exact ⟨key, hkey⟩

end Awayuki.Timeline
