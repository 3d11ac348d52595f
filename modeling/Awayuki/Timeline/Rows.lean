import Awayuki.Timeline.Reducer

/-!
# What the reducer does to rows

Storing, merging and patching rows leaves the columns alone and takes no row away.

* `upsertStatusIdentity_key`, `get_upsertStatusIdentity`: an upsert stores the row as it came, under
  its own key;
* `Extends`: the rows and the aliases that there were are still there, the columns are the same;
* `normalizeStatusList_spec`: what a list of rows is stored as.
-/

namespace Awayuki.Timeline

open MutableTimelineEntityState

variable {β : Type} {env : Platform} {status : TimelineStatus β}
  {canonical key canonical' key' : StatusKey} {limit : Option ℕ} {result : List StatusKey}

/-- The keys of the stored rows of a post. -/
def CanonicalIndex.aliases (index : CanonicalIndex) (canonical : StatusKey) : List StatusKey :=
  ((index.get canonical).map canonicalAliasKeys).getD []

variable {index : CanonicalIndex}

theorem mem_aliases : key ∈ CanonicalIndex.aliases index canonical ↔
      ∃ aliases, index.get canonical = some aliases ∧ key ∈ canonicalAliasKeys aliases := by
  unfold CanonicalIndex.aliases
  cases index.get canonical <;> simp

theorem mem_aliases_addCanonicalAlias :
    key' ∈ CanonicalIndex.aliases (addCanonicalAlias index canonical key) canonical' ↔
      key' ∈ CanonicalIndex.aliases index canonical' ∨ canonical' = canonical ∧ key' = key := by
  unfold addCanonicalAlias CanonicalIndex.aliases
  by_cases hc : canonical' = canonical
  · subst hc
    cases h : index.get canonical' with
    | none => simp [OrderedMap.get_set, canonicalAliasKeys]
    | some aliases =>
      by_cases hkey : key ∈ canonicalAliasKeys aliases
      · simp only [canonicalAliasesHas, hkey, decide_true, if_true, h, Option.map_some,
          Option.getD_some, true_and]
        constructor
        · exact Or.inl
        · rintro (h | rfl)
          exacts [h, hkey]
      · have hnot : ¬canonicalAliasesHas aliases key = true := by simpa [canonicalAliasesHas] using hkey
        simp only [if_neg hnot, OrderedMap.get_set_self]
        simp [canonicalAliasKeys]
  · cases h : index.get canonical with
    | none => simp [OrderedMap.get_set, hc]
    | some aliases =>
      by_cases hkey : key ∈ canonicalAliasKeys aliases <;>
        simp [canonicalAliasesHas, hkey, OrderedMap.get_set, hc]

theorem aliases_removeCanonicalAlias :
    CanonicalIndex.aliases (removeCanonicalAlias index canonical key) canonical =
      (CanonicalIndex.aliases index canonical).filter (· ≠ key) := by
  unfold removeCanonicalAlias CanonicalIndex.aliases
  cases h : index.get canonical with
  | none => simp [h]
  | some aliases =>
    cases aliases with
    | one key' =>
      by_cases hkey : key' = key
      · simp [hkey, OrderedMap.get_delete, canonicalAliasKeys]
      · simp [hkey, h, canonicalAliasKeys]
    | many keys =>
      by_cases hkey : key ∈ keys
      · simp only [if_pos hkey, Option.map_some, Option.getD_some, canonicalAliasKeys]
        split
        · rename_i hretained
          rw [OrderedMap.get_set_self, hretained]
          rfl
        · rw [OrderedMap.get_set_self]
          rfl
      · have hall : keys.filter (· ≠ key) = keys :=
          List.filter_eq_self.2 fun k hk => decide_eq_true fun heq => hkey (heq ▸ hk)
        simp only [if_neg hkey, h, Option.map_some, Option.getD_some, canonicalAliasKeys, hall]

theorem aliases_removeCanonicalAlias_of_ne (hne : canonical' ≠ canonical) :
    CanonicalIndex.aliases (removeCanonicalAlias index canonical key) canonical' =
      CanonicalIndex.aliases index canonical' := by
  have hget : (removeCanonicalAlias index canonical key).get canonical' = index.get canonical' := by
    unfold removeCanonicalAlias
    split
    · rfl
    · split_ifs
      · rw [OrderedMap.get_delete, if_neg hne]
      · rfl
    · split_ifs
      · split <;> rw [OrderedMap.get_set_of_ne hne]
      · rfl
  unfold CanonicalIndex.aliases
  rw [hget]

theorem mem_aliases_removeCanonicalAlias :
    key' ∈ CanonicalIndex.aliases (removeCanonicalAlias index canonical key) canonical' ↔
      key' ∈ CanonicalIndex.aliases index canonical' ∧ ¬(canonical' = canonical ∧ key' = key) := by
  by_cases hc : canonical' = canonical
  · subst hc
    rw [aliases_removeCanonicalAlias, List.mem_filter]
    simp
  · rw [aliases_removeCanonicalAlias_of_ne hc]
    simp [hc]

/-! ### Extending the rows -/

/-- The rows and the aliases that there were are still there, and the columns are the same. -/
structure Extends (s s' : MutableTimelineEntityState β) : Prop where
  columnKeys : s'.columnKeys = s.columnKeys
  deferredColumnKeys : s'.deferredColumnKeys = s.deferredColumnKeys
  trimmedColumns : s'.trimmedColumns = s.trimmedColumns
  stored : ∀ {key}, key ∈ s.entities.keys → key ∈ s'.entities.keys
  aliases : ∀ {canonical key}, key ∈ CanonicalIndex.aliases s.canonicalIndex canonical →
    key ∈ CanonicalIndex.aliases s'.canonicalIndex canonical

namespace Extends

variable {s s' s'' : MutableTimelineEntityState β}

theorem refl (s : MutableTimelineEntityState β) : Extends s s := ⟨rfl, rfl, rfl, id, id⟩

theorem trans (h : Extends s s') (h' : Extends s' s'') : Extends s s'' where
  columnKeys := h'.columnKeys.trans h.columnKeys
  deferredColumnKeys := h'.deferredColumnKeys.trans h.deferredColumnKeys
  trimmedColumns := h'.trimmedColumns.trans h.trimmedColumns
  stored := fun hkey => h'.stored (h.stored hkey)
  aliases := fun hkey => h'.aliases (h.aliases hkey)

theorem visible (h : Extends s s') (columnId : Str) : s'.visible columnId = s.visible columnId := by
  rw [MutableTimelineEntityState.visible, h.columnKeys]
  rfl

theorem deferred (h : Extends s s') (columnId : Str) :
    s'.deferred columnId = s.deferred columnId := by
  rw [MutableTimelineEntityState.deferred, h.deferredColumnKeys]
  rfl

theorem foldl {α : Type} {step : MutableTimelineEntityState β → α → MutableTimelineEntityState β}
    (hstep : ∀ s a, Extends s (step s a)) (todo : List α) (s : MutableTimelineEntityState β) :
    Extends s (todo.foldl step s) := by
  induction todo generalizing s with
  | nil => exact refl s
  | cons a todo ih => exact (hstep s a).trans (ih (step s a))

end Extends

/-! ### Upserts -/

/-- The state in which an upsert stores the row itself: the quoted post has been stored. -/
def quoteStored (env : Platform) (status : TimelineStatus β) (s : MutableTimelineEntityState β) :
    MutableTimelineEntityState β :=
  match status.quote with
  | none => s
  | some quote => (upsertStatusIdentity env quote s).1

theorem storeStatus_key {s : MutableTimelineEntityState β} :
    (storeStatus env s status).2 = (statusKey env status.fields,
      canonicalStatusKey env status.fields) := rfl

theorem storeStatus_entities {s : MutableTimelineEntityState β} :
    (storeStatus env s status).1.entities = s.entities.set (statusKey env status.fields) status :=
  rfl

/-- An upsert stores the row as it came: the post it quotes has just been stored as it came. -/
theorem upsertStatusIdentity_eq {s : MutableTimelineEntityState β} :
    upsertStatusIdentity env status s = storeStatus env (quoteStored env status s) status := by
  induction status generalizing s with
  | plain fields => rfl
  | quoting fields quote ih =>
    have hquote : (upsertStatusIdentity env quote s).1.entities.get
        (upsertStatusIdentity env quote s).2.1 = some quote := by
      rw [ih, storeStatus_entities]
      exact OrderedMap.get_set_self
    rw [upsertStatusIdentity]
    simp only [hquote, Option.getD_some]
    rfl

theorem upsertStatusIdentity_key {s : MutableTimelineEntityState β} :
    (upsertStatusIdentity env status s).2 =
      (statusKey env status.fields, canonicalStatusKey env status.fields) := by
  rw [upsertStatusIdentity_eq, storeStatus_key]

theorem get_upsertStatusIdentity {s : MutableTimelineEntityState β} :
    (upsertStatusIdentity env status s).1.entities.get (statusKey env status.fields) =
      some status := by
  rw [upsertStatusIdentity_eq, storeStatus_entities]
  exact OrderedMap.get_set_self

theorem storeStatus_extends {s : MutableTimelineEntityState β} :
    Extends s (storeStatus env s status).1 where
  columnKeys := rfl
  deferredColumnKeys := rfl
  trimmedColumns := rfl
  stored := fun h => OrderedMap.mem_keys_set.2 (.inr h)
  aliases := fun h => mem_aliases_addCanonicalAlias.2 (.inl h)

theorem upsertStatusIdentity_extends {s : MutableTimelineEntityState β} :
    Extends s (upsertStatusIdentity env status s).1 := by
  induction status generalizing s with
  | plain fields => exact storeStatus_extends
  | quoting fields quote ih => exact ih.trans storeStatus_extends

/-- An upserted row is one of the rows of its post. -/
theorem mem_aliases_upsertStatusIdentity {s : MutableTimelineEntityState β} :
    statusKey env status.fields ∈ CanonicalIndex.aliases
      (upsertStatusIdentity env status s).1.canonicalIndex (canonicalStatusKey env status.fields) := by
  rw [upsertStatusIdentity_eq]
  exact mem_aliases_addCanonicalAlias.2 (.inr ⟨rfl, rfl⟩)

/-! ### Changing the rows of a post -/

theorem updateAliases_extends {f : TimelineStatus β → TimelineStatus β}
    {s : MutableTimelineEntityState β} {aliases : CanonicalAliases} :
    Extends s (updateAliases f s aliases) := by
  refine Extends.foldl (fun s key => ?_) _ s
  cases s.entities.get key with
  | none => exact .refl s
  | some current => exact ⟨rfl, rfl, rfl, fun h => OrderedMap.mem_keys_set.2 (.inr h), id⟩

theorem replaceCanonicalAliases_extends {s : MutableTimelineEntityState β}
    {updated : TimelineStatus β} : Extends s (replaceCanonicalAliases env s canonical updated) := by
  unfold replaceCanonicalAliases
  cases s.canonicalIndex.get canonical with
  | none => exact upsertStatusIdentity_extends
  | some aliases => exact updateAliases_extends

theorem patchCanonicalAliases_extends {s : MutableTimelineEntityState β} {patch : Patch β} :
    Extends s (patchCanonicalAliases s canonical patch) := by
  unfold patchCanonicalAliases
  cases s.canonicalIndex.get canonical with
  | none => exact .refl s
  | some aliases => exact updateAliases_extends

/-! ### Lists of rows -/

theorem upsertStatus_eq {s : MutableTimelineEntityState β} : upsertStatus env s status =
      ((upsertStatusIdentity env status s).1, statusKey env status.fields) := by
  have hkey : (upsertStatusIdentity env status s).2.1 = statusKey env status.fields := by
    rw [upsertStatusIdentity_key]
  exact Prod.ext rfl hkey

theorem normalizeLoop_cons {rest : List (TimelineStatus β)} {s : MutableTimelineEntityState β} :
    normalizeLoop env limit (status :: rest) s result =
      let s := (upsertStatusIdentity env status s).1
      let key := statusKey env status.fields
      if key ∈ result then normalizeLoop env limit rest s result
      else if limit.any (· ≤ (result ++ [key]).length) then (s, result ++ [key], rest)
      else normalizeLoop env limit rest s (result ++ [key]) := by
  rw [normalizeLoop, upsertStatus_eq]

/-- What storing every row of a list preserves, the loop preserves. -/
theorem normalizeLoop_invariant {I : MutableTimelineEntityState β → List StatusKey → Prop}
    (hstep : ∀ s result status, I s result →
      I (upsertStatusIdentity env status s).1 (pushNew result (statusKey env status.fields)))
    {statuses : List (TimelineStatus β)} {s : MutableTimelineEntityState β} (h : I s result) :
    I (normalizeLoop env limit statuses s result).1
      (normalizeLoop env limit statuses s result).2.1 := by
  induction statuses generalizing s result with
  | nil => exact h
  | cons status rest ih =>
    have hnext := hstep s result status h
    rw [normalizeLoop_cons]
    unfold pushNew at hnext
    by_cases hmem : statusKey env status.fields ∈ result
    · simp only [if_pos hmem] at hnext ⊢
      exact ih hnext
    · simp only [if_neg hmem] at hnext ⊢
      split_ifs
      · exact hnext
      · exact ih hnext

/-- The keys of a list that is stored come once each and have rows. -/
theorem normalizeStatusList_spec (env : Platform) (s : MutableTimelineEntityState β)
    (statuses : List (TimelineStatus β)) (limit : Option Limit) :
    Extends s (normalizeStatusList env s statuses limit).1 ∧
      (normalizeStatusList env s statuses limit).2.1.Nodup ∧
      ∀ key ∈ (normalizeStatusList env s statuses limit).2.1,
        key ∈ (normalizeStatusList env s statuses limit).1.entities.keys := by
  refine normalizeLoop_invariant (I := fun s' result =>
    Extends s s' ∧ result.Nodup ∧ ∀ key ∈ result, key ∈ s'.entities.keys) ?_
    ⟨.refl s, List.nodup_nil, by simp⟩
  rintro s' result status ⟨hext, hnodup, hstored⟩
  refine ⟨hext.trans upsertStatusIdentity_extends, nodup_pushNew hnodup, fun key hkey => ?_⟩
  obtain hkey | rfl := mem_pushNew.1 hkey
  · exact upsertStatusIdentity_extends.stored (hstored key hkey)
  · exact OrderedMap.mem_keys_of_get get_upsertStatusIdentity

end Awayuki.Timeline
