import Awayuki.Timeline.Staging

/-!
# Rows that leave a column

Operations that take no row away drop rows of a column only by a limit.  For the rows that a
column shows the limit is reported in `trimmedColumns`; for those it has set aside it is not.

* `addsOnly`, `offered`: the operations, and the keys that they put into a column;
* `Leaves`, `Reported`: what one operation, and then all of them, leave of a column;
* `trimming_reported`: a column that is not reported as trimmed shows what it showed and what it
  was offered.
-/

namespace Awayuki.Timeline

open MutableTimelineEntityState

variable {β : Type} {env : Platform} {s s' s'' : MutableTimelineEntityState β} {columnId : Str}
  {limit : Option ℕ}

/-- The operations that take no row away. -/
def TimelineEntityOperation.addsOnly : TimelineEntityOperation β → Bool
  | appendPage _ _ | mergeDelta _ _ _ | upsertInColumns _ | flushDeferredColumn _ _ => true
  | replaceCanonical _ _ | patchCanonical _ _ => true
  | replaceColumn _ _ _ | removeCanonical _ | removeFromColumns _ _ | removeCanonicalId _ _ => false
  | removeColumn _ => false

/-- A list up to a limit. -/
def upTo (limit : Option ℕ) (keys : List StatusKey) : List StatusKey :=
  match limit with
  | none => keys
  | some limit => keys.take limit

/-- The first keys of a list of rows, up to a limit, each once. -/
def firstKeys (env : Platform) (limit : Option ℕ) (statuses : List (TimelineStatus β)) :
    List StatusKey :=
  upTo limit ((statuses.map fun status => statusKey env status.fields).foldl pushNew [])

/-- The keys that a page or a delta puts into a column. -/
def TimelineEntityOperation.offered (env : Platform) (columnId : Str) :
    TimelineEntityOperation β → List StatusKey
  | appendPage c statuses => if c = columnId then firstKeys env none statuses else []
  | mergeDelta c statuses limit =>
    if c = columnId then firstKeys env (some (normalizeTimelineLimit limit)) statuses else []
  | _ => []

/-! ### Lists of rows -/

theorem prefix_foldl_pushNew (keys seen : List StatusKey) :
    seen.IsPrefix (keys.foldl pushNew seen) := by
  induction keys generalizing seen with
  | nil => exact List.prefix_rfl
  | cons key keys ih =>
    refine List.IsPrefix.trans ?_ (ih (pushNew seen key))
    unfold pushNew
    split_ifs
    · exact List.prefix_rfl
    · exact List.prefix_append seen [key]

theorem normalizeLoop_keys {statuses : List (TimelineStatus β)} {result : List StatusKey}
    (hroom : ∀ l, limit = some l → result.length < l) :
    (normalizeLoop env limit statuses s result).2.1 =
      upTo limit ((statuses.map fun status => statusKey env status.fields).foldl pushNew result) := by
  induction statuses generalizing s result with
  | nil =>
    cases limit with
    | none => rfl
    | some l => exact (List.take_of_length_le (hroom l rfl).le).symm
  | cons status rest ih =>
    rw [normalizeLoop_cons]
    simp only [List.map_cons, List.foldl_cons]
    by_cases hmem : statusKey env status.fields ∈ result
    · rw [if_pos hmem, show pushNew result _ = result from if_pos hmem]
      exact ih hroom
    · rw [if_neg hmem, show pushNew result _ = result ++ [_] from if_neg hmem]
      split_ifs with hlimit
      · -- The limit is reached: what has been taken is what the limit lets through.
        obtain ⟨l, rfl, hle⟩ := (Option.any_eq_true _ _).1 hlimit
        have hlen := hroom l rfl
        have hle := of_decide_eq_true hle
        have hl : l = (result ++ [statusKey env status.fields]).length := by
          simp only [List.length_append, List.length_singleton] at hle ⊢
          omega
        show result ++ [statusKey env status.fields] = List.take l _
        rw [hl]
        exact List.prefix_iff_eq_take.1 (prefix_foldl_pushNew _ _)
      · refine ih fun l hl => ?_
        by_contra hge
        exact hlimit (by simpa [hl] using hge)

theorem normalizeStatusList_keys (env : Platform) (s : MutableTimelineEntityState β)
    (statuses : List (TimelineStatus β)) (limit : Option Limit) :
    (normalizeStatusList env s statuses limit).2.1 =
      firstKeys env (limit.map normalizeTimelineLimit) statuses := by
  refine normalizeLoop_keys fun l hl => ?_
  obtain ⟨limit, -, rfl⟩ := Option.map_eq_some_iff.1 hl
  exact normalizeTimelineLimit_pos limit

/-! ### Runs of operations -/

/-- The upserts among the operations. -/
def upserts (operations : List (TimelineEntityOperation β)) : List (UpsertInColumns β) :=
  operations.filterMap fun
    | .upsertInColumns operation => some operation
    | _ => none

/-- The limits that upserts set for a column leave room for `n` rows and all that they may set
aside. -/
def Roomy (columnId : Str) (n : ℕ) (operations : List (TimelineEntityOperation β)) : Prop :=
  ∀ operation ∈ upserts operations, columnId ∈ operation.columnIds →
    ∀ limit, operation.limits columnId = some limit →
      n + timesNamed columnId (upserts operations) ≤ normalizeTimelineLimit limit

/-- What operations that take no row away leave of a column. -/
structure Reported (env : Platform) (columnId : Str)
    (operations : List (TimelineEntityOperation β)) (s s' : MutableTimelineEntityState β) :
    Prop where
  keeps : Keeps columnId s s'
  offered : ∀ operation ∈ operations, ∀ k ∈ operation.offered env columnId,
    k ∈ s'.visible columnId ∨ columnId ∈ s'.trimmedColumns
  shown : ∀ operation ∈ upserts operations, columnId ∈ operation.columnIds →
    operation.updateOnly = false → columnId ∉ operation.preserveAnchorColumns →
      InColumn env columnId false operation.status s'
  length : (s'.deferred columnId).length ≤
    (s.deferred columnId).length + timesNamed columnId (upserts operations)
  aside : Roomy columnId (s.deferred columnId).length operations → KeepsAside columnId s s' ∧
    ∀ operation ∈ upserts operations, columnId ∈ operation.columnIds →
      operation.updateOnly = false → InColumn env columnId true operation.status s'

theorem upserts_append (operations operations' : List (TimelineEntityOperation β)) :
    upserts (operations ++ operations') = upserts operations ++ upserts operations' :=
  List.filterMap_append

theorem timesNamed_append (operations operations' : List (UpsertInColumns β)) :
    timesNamed columnId (operations ++ operations') =
      timesNamed columnId operations + timesNamed columnId operations' := by
  simp [timesNamed]

variable {operations operations' : List (TimelineEntityOperation β)}

theorem Roomy.append {n m : ℕ} (h : Roomy columnId n (operations ++ operations'))
    (hm : m ≤ n + timesNamed columnId (upserts operations)) :
    Roomy columnId n operations ∧ Roomy columnId m operations' := by
  unfold Roomy at h
  rw [upserts_append, timesNamed_append] at h
  constructor
  · intro operation hmem hcolumn limit hlimit
    have hroom := h operation (List.mem_append_left _ hmem) hcolumn limit hlimit
    omega
  · intro operation hmem hcolumn limit hlimit
    have hroom := h operation (List.mem_append_right _ hmem) hcolumn limit hlimit
    omega

theorem Keeps.refl (s : MutableTimelineEntityState β) : Keeps columnId s s :=
  ⟨id, fun _ => .inl, id⟩

theorem Keeps.trans (h : Keeps columnId s s') (h' : Keeps columnId s' s'') :
    Keeps columnId s s'' where
  trimmed hmem := h'.trimmed (h.trimmed hmem)
  visible k hk := (h.visible k hk).elim (h'.visible k) fun hmem => .inr (h'.trimmed hmem)
  aliases hkey := h'.aliases (h.aliases hkey)

theorem Keeps.of_extends (h : Extends s s') : Keeps columnId s s' where
  trimmed hmem := h.trimmedColumns.symm ▸ hmem
  visible k hk := .inl (by rwa [h.visible])
  aliases := h.aliases

theorem KeepsAside.of_extends (h : Extends s s') : KeepsAside columnId s s' := by
  intro k hk
  rw [h.deferred]
  exact .inl (List.mem_append_right _ hk)

theorem KeepsAside.trans (h : KeepsAside columnId s s') (hkeeps : Keeps columnId s' s'')
    (h' : KeepsAside columnId s' s'') : KeepsAside columnId s s'' := by
  intro k hk
  obtain hk | hk := h k hk
  · obtain hk | hk := List.mem_append.1 hk
    · exact (hkeeps.visible k hk).imp_left (List.mem_append_left _)
    · exact h' k hk
  · exact .inr (hkeeps.trimmed hk)

theorem InColumn.mono {aside : Bool} {status : TimelineStatus β}
    (h : InColumn env columnId aside status s) (hkeeps : Keeps columnId s s')
    (haside : aside = true → KeepsAside columnId s s') : InColumn env columnId aside status s' := by
  obtain h | ⟨key, hkey, hrep⟩ := h
  · exact .inl (hkeeps.trimmed h)
  have hrep' : Represents env s'.canonicalIndex status key := hrep.mono hkeeps.aliases
  obtain hkey | hkey := List.mem_append.1 hkey
  · obtain hkey | htrimmed := hkeeps.visible key hkey
    · exact .inr ⟨key, List.mem_append_left _ hkey, hrep'⟩
    · exact .inl htrimmed
  · cases aside with
    | false => simp at hkey
    | true =>
      obtain hkey | htrimmed := haside rfl key hkey
      · exact .inr ⟨key, hkey, hrep'⟩
      · exact .inl htrimmed

theorem Reported.append (h : Reported env columnId operations s s')
    (h' : Reported env columnId operations' s' s'') :
    Reported env columnId (operations ++ operations') s s'' where
  keeps := h.keeps.trans h'.keeps
  offered operation hmem k hk := by
    obtain hmem | hmem := List.mem_append.1 hmem
    · exact (h.offered operation hmem k hk).elim (h'.keeps.visible k)
        fun htrimmed => .inr (h'.keeps.trimmed htrimmed)
    · exact h'.offered operation hmem k hk
  shown operation hmem hcolumn hupdate hanchor := by
    rw [upserts_append] at hmem
    obtain hmem | hmem := List.mem_append.1 hmem
    · exact (h.shown operation hmem hcolumn hupdate hanchor).mono h'.keeps nofun
    · exact h'.shown operation hmem hcolumn hupdate hanchor
  length := by
    have hlength := h.length
    have hlength' := h'.length
    rw [upserts_append, timesNamed_append]
    omega
  aside hroomy := by
    obtain ⟨hroomy, hroomy'⟩ := hroomy.append h.length
    obtain ⟨haside, hlisted⟩ := h.aside hroomy
    obtain ⟨haside', hlisted'⟩ := h'.aside hroomy'
    refine ⟨haside.trans h'.keeps haside', fun operation hmem hcolumn hupdate => ?_⟩
    rw [upserts_append] at hmem
    obtain hmem | hmem := List.mem_append.1 hmem
    · exact (hlisted operation hmem hcolumn hupdate).mono h'.keeps fun _ => haside'
    · exact hlisted' operation hmem hcolumn hupdate

theorem Reported.nil (s : MutableTimelineEntityState β) : Reported env columnId [] s s where
  keeps := .refl s
  offered := by simp
  shown := by simp [upserts]
  length := Nat.le_add_right _ _
  aside _ := ⟨fun k hk => .inl (List.mem_append_right _ hk), by simp [upserts]⟩

/-- The limit that a policy has for a column is one that an upsert of the batch set. -/
theorem recordBatchPolicy_limits {policy policy' : BatchPolicy} {operation : UpsertInColumns β}
    (h : recordBatchPolicy env policy operation = some policy')
    (hlimit : policy'.limits.get columnId = some limit) :
    policy.limits.get columnId = some limit ∨ columnId ∈ operation.columnIds ∧
      limit = operation.limit columnId := by
  have hfold (columnIds : List Str) (policy : BatchPolicy)
      (hlimit : (columnIds.foldl (BatchPolicy.record env operation) policy).limits.get columnId =
        some limit) :
      policy.limits.get columnId = some limit ∨
        columnId ∈ columnIds ∧ limit = operation.limit columnId := by
    induction columnIds generalizing policy with
    | nil => exact .inl hlimit
    | cons c columnIds ih =>
      obtain hlimit | ⟨hmem, heq⟩ := ih _ hlimit
      · simp only [BatchPolicy.record, OrderedMap.get_set] at hlimit
        split_ifs at hlimit with hc
        · subst hc
          cases hget : policy.limits.get columnId with
          | none => exact .inr ⟨List.mem_cons_self, by simpa [hget] using hlimit.symm⟩
          | some limit' => exact .inl (by simpa [hget] using hlimit)
        · exact .inl hlimit
      · exact .inr ⟨List.mem_cons_of_mem _ hmem, heq⟩
  unfold recordBatchPolicy at h
  split_ifs at h
  obtain rfl := Option.some.inj h
  exact hfold _ _ hlimit

/-- A batch takes the upserts that come next, and its limits are theirs. -/
theorem joinBatch_spec (env : Platform) (s : MutableTimelineEntityState β)
    (operation : UpsertInColumns β) (operations : List (TimelineEntityOperation β))
    (policy : BatchPolicy) :
    let joined := joinBatch env s operation operations policy
    operations = joined.1.map .upsertInColumns ++ joined.2.2 ∧
      ∀ columnId limit, joined.2.1.limits.get columnId = some limit →
        policy.limits.get columnId = some limit ∨
          ∃ next ∈ joined.1, columnId ∈ next.columnIds ∧ limit = next.limit columnId := by
  fun_induction joinBatch with
  | case1 => exact ⟨rfl, fun _ _ => .inl⟩
  | case2 => exact ⟨rfl, fun _ _ => .inl⟩
  | case3 next rest policy hnot policy' hpolicy batch policy'' rest' hjoin ih =>
    rw [hjoin] at ih
    obtain ⟨hrest, hlimits⟩ := ih
    refine ⟨congrArg _ hrest, fun columnId limit hlimit => ?_⟩
    obtain hlimit | ⟨next', hmem, hcolumn, heq⟩ := hlimits columnId limit hlimit
    · refine (recordBatchPolicy_limits hpolicy hlimit).imp_right ?_
      rintro ⟨hcolumn, heq⟩
      exact ⟨next, List.mem_cons_self, hcolumn, heq⟩
    · exact .inr ⟨next', List.mem_cons_of_mem _ hmem, hcolumn, heq⟩
  | case4 => exact ⟨rfl, fun _ _ => .inl⟩

@[simp] theorem upserts_map (operations : List (UpsertInColumns β)) :
    upserts (operations.map .upsertInColumns) = operations := by
  induction operations with
  | nil => rfl
  | cons operation operations ih => exact congrArg _ ih

/-- A batch of upserts, when its limits are those that they set. -/
theorem reported_applyUpsertBatch (env : Platform) (columnId : Str)
    (s : MutableTimelineEntityState β) (operations : List (UpsertInColumns β))
    {limits : OrderedMap Str (Option ℕ)}
    (hlimits : ∀ limit, limits.get columnId = some limit →
      ∃ operation ∈ operations, columnId ∈ operation.columnIds ∧
        limit = operation.limit columnId) :
    Reported env columnId (operations.map .upsertInColumns) s
      (applyUpsertBatch env s operations limits) := by
  obtain ⟨hkeeps, hshown, hlength, haside⟩ := applyUpsertBatch_spec env columnId s operations limits
  refine ⟨hkeeps, fun operation hmem k hk => ?_, ?_, ?_, fun hroomy => ?_⟩
  · obtain ⟨upsert, -, rfl⟩ := List.mem_map.1 hmem
    simp [TimelineEntityOperation.offered] at hk
  · rwa [upserts_map]
  · rwa [upserts_map]
  · unfold Roomy at hroomy
    rw [upserts_map] at hroomy ⊢
    refine haside fun l hl => ?_
    obtain ⟨operation, hmem, hcolumn, heq⟩ := hlimits (some l) (Option.join_eq_some_iff.1 hl)
    obtain ⟨limit, hlimit, rfl⟩ := Option.map_eq_some_iff.1 heq.symm
    exact hroomy operation hmem hcolumn limit hlimit

/-- The first upsert of a batch sets the policy that the next ones have to fit. -/
theorem limits_of_joinBatch (env : Platform) (s : MutableTimelineEntityState β)
    (columnId : Str) (operation : UpsertInColumns β)
    (operations : List (TimelineEntityOperation β)) (limit : Option ℕ)
    (h : (joinBatch env s operation operations
      ((recordBatchPolicy env emptyBatchPolicy operation).getD emptyBatchPolicy)).2.1.limits.get
        columnId = some limit) :
    ∃ next ∈ operation :: (joinBatch env s operation operations
      ((recordBatchPolicy env emptyBatchPolicy operation).getD emptyBatchPolicy)).1,
      columnId ∈ next.columnIds ∧ limit = next.limit columnId := by
  obtain hfirst | ⟨next, hmem, hnext⟩ := (joinBatch_spec env s operation operations _).2 _ _ h
  · refine ⟨operation, List.mem_cons_self, ?_⟩
    cases hpolicy : recordBatchPolicy env emptyBatchPolicy operation with
    | none =>
      rw [hpolicy, Option.getD_none] at hfirst
      simp [emptyBatchPolicy] at hfirst
    | some policy =>
      rw [hpolicy, Option.getD_some] at hfirst
      exact (recordBatchPolicy_limits hpolicy hfirst).resolve_left (by simp [emptyBatchPolicy])
  · exact ⟨next, List.mem_cons_of_mem _ hmem, hnext⟩

/-- A column gets new keys, and is reported when one that was there is not among them. -/
theorem keeps_setColumnKeys (columnId c : Str) (keys : List StatusKey) (trimmed : Bool)
    (h : ∀ k ∈ s.visible c, k ∈ keys ∨ trimmed = true) :
    let s' := setColumnKeys (trimIf s trimmed c) c keys
    Keeps columnId s s' ∧ s'.deferred columnId = s.deferred columnId ∧
      (columnId = c → ∀ k, k ∈ keys ∨ trimmed = true →
        k ∈ s'.visible columnId ∨ columnId ∈ s'.trimmedColumns) := by
  obtain ⟨hsub, htrimmed⟩ := trimmedColumns_trimIf s trimmed c
  have hkeys : columnId = c → ∀ k, k ∈ keys ∨ trimmed = true →
      k ∈ (setColumnKeys (trimIf s trimmed c) c keys).visible columnId ∨
        columnId ∈ (setColumnKeys (trimIf s trimmed c) c keys).trimmedColumns := by
    rintro rfl k hk
    exact hk.imp (by simp) htrimmed
  refine ⟨⟨fun hmem => hsub hmem, fun k hk => ?_, fun hkey => ?_⟩, by simp, hkeys⟩
  · by_cases hc : columnId = c
    · exact hkeys hc k (h k (hc ▸ hk))
    · exact .inl (by simpa [hc] using hk)
  · rw [show (setColumnKeys (trimIf s trimmed c) c keys).canonicalIndex = _ from
      canonicalIndex_trimIf s trimmed c]
    exact hkey

/-- What an operation other than an upsert leaves of a column. -/
structure Leaves (env : Platform) (columnId : Str) (operation : TimelineEntityOperation β)
    (s s' : MutableTimelineEntityState β) : Prop where
  keeps : Keeps columnId s s'
  offered : ∀ k ∈ operation.offered env columnId,
    k ∈ s'.visible columnId ∨ columnId ∈ s'.trimmedColumns
  length : (s'.deferred columnId).length ≤ (s.deferred columnId).length
  aside : KeepsAside columnId s s'

variable {operation : TimelineEntityOperation β}

theorem Leaves.of_extends (hnone : operation.offered env columnId = []) (h : Extends s s') :
    Leaves env columnId operation s s' where
  keeps := .of_extends h
  offered := by simp [hnone]
  length := by rw [h.deferred]
  aside := .of_extends h

theorem leaves_appendPage (env : Platform) (columnId : Str) (s : MutableTimelineEntityState β)
    (c : Str) (statuses : List (TimelineStatus β)) :
    Leaves env columnId (.appendPage c statuses) s
      (applyOperation env s (.appendPage c statuses)) := by
  obtain ⟨hext, -, -⟩ := normalizeStatusList_spec env s statuses none
  have hfirst : (normalizeStatusList env s statuses none).2.1 = firstKeys env none statuses :=
    normalizeStatusList_keys env s statuses none
  let s₁ := (normalizeStatusList env s statuses none).1
  let newKeys := (normalizeStatusList env s statuses none).2.1.filter (· ∉ s₁.visible c)
  have hmem (k : StatusKey) (hk : k ∈ firstKeys env none statuses) :
      k ∈ s₁.visible c ++ newKeys := by
    by_cases hold : k ∈ s₁.visible c
    · exact List.mem_append_left _ hold
    · refine List.mem_append_right _ (List.mem_filter.2 ⟨hfirst ▸ hk, decide_eq_true hold⟩)
  obtain ⟨hkeeps, hdeferred, hkeys⟩ := keeps_setColumnKeys (s := s₁) columnId c
    (s₁.visible c ++ newKeys) false fun k hk => .inl (List.mem_append_left _ hk)
  have hsame : newKeys = [] → Leaves env columnId (.appendPage c statuses) s s₁ := by
    intro hnil
    refine ⟨.of_extends hext, fun k hk => ?_, (hext.deferred columnId ▸ le_rfl), .of_extends hext⟩
    simp only [TimelineEntityOperation.offered] at hk
    split_ifs at hk with hc
    · subst hc
      exact .inl (by simpa [hnil] using hmem k hk)
    · simp at hk
  show Leaves env columnId _ s (if newKeys ≠ [] then setColumnKeys s₁ c _ else s₁)
  split_ifs with hnew
  · refine ⟨(Keeps.of_extends hext).trans hkeeps, fun k hk => ?_, ?_, ?_⟩
    · simp only [TimelineEntityOperation.offered] at hk
      split_ifs at hk with hc
      · exact hkeys hc.symm k (.inl (hmem k hk))
      · simp at hk
    · exact (congrArg List.length (hdeferred.trans (hext.deferred columnId))).le
    · intro k hk
      refine .inl (List.mem_append_right _ ?_)
      exact (hdeferred.trans (hext.deferred columnId)).symm ▸ hk
  · exact hsame (not_not.1 hnew)

theorem leaves_mergeDelta (env : Platform) (columnId : Str) (s : MutableTimelineEntityState β)
    (c : Str) (statuses : List (TimelineStatus β)) (limit : Limit) :
    Leaves env columnId (.mergeDelta c statuses limit) s
      (applyOperation env s (.mergeDelta c statuses limit)) := by
  obtain ⟨hext, -, -⟩ := normalizeStatusList_spec env s statuses (some limit)
  have hfirst : (normalizeStatusList env s statuses (some limit)).2.1 =
      firstKeys env (some (normalizeTimelineLimit limit)) statuses :=
    normalizeStatusList_keys env s statuses (some limit)
  let s₁ := (normalizeStatusList env s statuses (some limit)).1
  let merged := mergeOrderedKeys env s₁.entities
    (normalizeStatusList env s statuses (some limit)).2.1 (s₁.visible c) limit
  obtain ⟨hkeeps, hdeferred, hkeys⟩ := keeps_setColumnKeys (s := s₁) columnId c merged.1 merged.2
    fun k hk => mem_mergeOrderedKeys (.inr hk)
  refine ⟨(Keeps.of_extends hext).trans hkeeps, fun k hk => ?_, ?_, ?_⟩
  · simp only [TimelineEntityOperation.offered] at hk
    split_ifs at hk with hc
    · exact hkeys hc.symm k (mem_mergeOrderedKeys (.inl (hfirst ▸ hk)))
    · simp at hk
  · exact (congrArg List.length (hdeferred.trans (hext.deferred columnId))).le
  · intro k hk
    refine .inl (List.mem_append_right _ ?_)
    exact (hdeferred.trans (hext.deferred columnId)).symm ▸ hk

theorem leaves_flushDeferredColumn (env : Platform) (columnId : Str)
    (s : MutableTimelineEntityState β) (c : Str) (limit : Limit) :
    Leaves env columnId (.flushDeferredColumn c limit) s
      (applyOperation env s (.flushDeferredColumn c limit)) := by
  let merged := mergeOrderedKeys env s.entities (s.deferred c) (s.visible c) limit
  obtain ⟨hkeeps, hdeferred, hkeys⟩ := keeps_setColumnKeys (s := s) columnId c merged.1 merged.2
    fun k hk => mem_mergeOrderedKeys (.inr hk)
  show Leaves env columnId _ s (if s.deferred c = [] then s else _)
  split_ifs with hnil
  · exact .of_extends rfl (.refl s)
  · let s₁ := setColumnKeys (trimIf s merged.2 c) c merged.1
    let s' : MutableTimelineEntityState β :=
      { s₁ with deferredColumnKeys := s₁.deferredColumnKeys.delete c }
    have haside : s'.deferred columnId = if columnId = c then [] else s.deferred columnId := by
      have hget : (s₁.deferredColumnKeys.delete c).get columnId =
          if columnId = c then none else s₁.deferredColumnKeys.get columnId :=
        OrderedMap.get_delete
      unfold MutableTimelineEntityState.deferred
      rw [show s'.deferredColumnKeys = s₁.deferredColumnKeys.delete c from rfl, hget]
      split_ifs
      · rfl
      · exact hdeferred
    refine ⟨⟨hkeeps.trimmed, hkeeps.visible, hkeeps.aliases⟩, by
      simp [TimelineEntityOperation.offered], ?_, fun k hk => ?_⟩
    · show (s'.deferred columnId).length ≤ _
      rw [haside]
      split_ifs
      · exact Nat.zero_le _
      · exact le_rfl
    · show k ∈ s'.visible columnId ++ s'.deferred columnId ∨ columnId ∈ s'.trimmedColumns
      rw [haside]
      split_ifs with hc
      · -- What was set aside is shown, unless the limit is reported.
        refine (hkeys hc k (mem_mergeOrderedKeys (.inl (hc ▸ hk)))).imp_left ?_
        exact List.mem_append_left _
      · exact .inl (List.mem_append_right _ hk)

/-- Any other operation that takes no row away. -/
theorem leaves_applyOperation (env : Platform) (columnId : Str) (s : MutableTimelineEntityState β)
    (operation : TimelineEntityOperation β) (hadds : operation.addsOnly)
    (hupsert : ∀ upsert, operation ≠ .upsertInColumns upsert) :
    Leaves env columnId operation s (applyOperation env s operation) := by
  cases operation with
  | appendPage c statuses => exact leaves_appendPage env columnId s c statuses
  | mergeDelta c statuses limit => exact leaves_mergeDelta env columnId s c statuses limit
  | flushDeferredColumn c limit => exact leaves_flushDeferredColumn env columnId s c limit
  | replaceCanonical target status =>
    exact .of_extends rfl (upsertStatusIdentity_extends.trans replaceCanonicalAliases_extends)
  | patchCanonical target patch => exact .of_extends rfl patchCanonicalAliases_extends
  | upsertInColumns upsert => exact absurd rfl (hupsert upsert)
  | replaceColumn | removeCanonical | removeFromColumns | removeCanonicalId | removeColumn =>
    simp [TimelineEntityOperation.addsOnly] at hadds

theorem Leaves.reported (h : Leaves env columnId operation s s')
    (hupsert : ∀ upsert, operation ≠ .upsertInColumns upsert) :
    Reported env columnId [operation] s s' := by
  have hnone : upserts [operation] = [] := by
    cases operation <;> first | rfl | exact absurd rfl (hupsert _)
  refine ⟨h.keeps, ?_, ?_, h.length.trans (Nat.le_add_right _ _), fun _ => ⟨h.aside, ?_⟩⟩
  · intro operation' hmem
    obtain rfl := List.mem_singleton.1 hmem
    exact h.offered
  · simp [hnone]
  · simp [hnone]

theorem reported_applyOperations (env : Platform) (columnId : Str) (fuel : ℕ)
    (s : MutableTimelineEntityState β) (operations : List (TimelineEntityOperation β))
    (hfuel : operations.length ≤ fuel) (hadds : ∀ operation ∈ operations, operation.addsOnly) :
    Reported env columnId operations s (applyOperations env fuel s operations) := by
  fun_induction applyOperations with
  | case1 s operations =>
    obtain rfl := List.length_eq_zero_iff.1 (Nat.le_zero.1 hfuel)
    exact .nil s
  | case2 fuel s => exact .nil s
  | case3 fuel s operation rest batch policy rest' hjoin ih =>
    have hspec := (joinBatch_spec env s operation rest
      ((recordBatchPolicy env emptyBatchPolicy operation).getD emptyBatchPolicy)).1
    have hlimits (limit : Option ℕ) := limits_of_joinBatch env s columnId operation rest limit
    rw [hjoin] at hspec hlimits
    have hbatch := reported_applyUpsertBatch env columnId s (operation :: batch) hlimits
    have hops : TimelineEntityOperation.upsertInColumns operation :: rest =
        (operation :: batch).map .upsertInColumns ++ rest' := by
      rw [hspec]
      rfl
    rw [hops]
    refine hbatch.append (ih ?_ fun operation' hmem => hadds _ ?_)
    · have hlength := congrArg List.length hspec
      simp only [List.length_append, List.length_map, List.length_cons] at hlength hfuel
      omega
    · rw [hops]
      exact List.mem_append_right _ hmem
  | case4 fuel s operation rest hnot ih =>
    have hleaves := leaves_applyOperation env columnId s operation (hadds _ List.mem_cons_self) hnot
    exact (hleaves.reported hnot).append (ih (Nat.le_of_succ_le_succ hfuel)
      fun operation' hmem => hadds _ (List.mem_cons_of_mem _ hmem))

/-! ### A whole reduction -/

/-- Pruning keeps the aliases of rows that a column lists. -/
theorem mem_aliases_pruneUnreferencedEntities {key canonical : StatusKey}
    (hlisted : key ∈ s.visible columnId ++ s.deferred columnId)
    (h : key ∈ CanonicalIndex.aliases s.canonicalIndex canonical) :
    key ∈ CanonicalIndex.aliases (pruneUnreferencedEntities env s).canonicalIndex canonical := by
  have hretained : ∀ e ∈ s.entities.entries, e.1 = key → e.1 ∈ retainedKeys env s := by
    rintro e he rfl
    exact mem_retainedKeys.2 (.root (mem_columnRoots.2 ⟨columnId, List.mem_append.1 hlisted⟩)
      (quoteLink_isSome.2 (List.mem_map_of_mem he)))
  have hfold (todo : List (StatusKey × TimelineStatus β))
      (htodo : ∀ e ∈ todo, e.1 = key → e.1 ∈ retainedKeys env s)
      (s' : MutableTimelineEntityState β)
      (h : key ∈ CanonicalIndex.aliases s'.canonicalIndex canonical) :
      key ∈ CanonicalIndex.aliases
        (todo.foldl (pruneEntity env (retainedKeys env s)) s').canonicalIndex canonical := by
    induction todo generalizing s' with
    | nil => exact h
    | cons e todo ih =>
      refine ih (fun e' he' => htodo e' (List.mem_cons_of_mem _ he')) _ ?_
      unfold pruneEntity
      split_ifs with hmem
      · exact h
      · refine mem_aliases_removeCanonicalAlias.2 ⟨h, ?_⟩
        rintro ⟨-, heq⟩
        exact hmem (htodo e List.mem_cons_self heq.symm)
  exact hfold _ hretained s h

/-- The passes that end a reduction leave the columns as they are, and the aliases of what they
list. -/
theorem relink_prune_spec (env : Platform) (s : MutableTimelineEntityState β) :
    let s' := pruneUnreferencedEntities env (relinkNestedStatuses env s)
    (∀ c, s'.visible c = s.visible c) ∧ (∀ c, s'.deferred c = s.deferred c) ∧
      s'.trimmedColumns = s.trimmedColumns ∧
      ∀ c, ∀ key ∈ s.visible c ++ s.deferred c, ∀ status : TimelineStatus β,
        Represents env s.canonicalIndex status key →
          Represents env s'.canonicalIndex status key := by
  have hrelink : Extends s (relinkNestedStatuses env s) := relinkNestedStatuses_extends
  obtain ⟨hcolumns, hdeferred⟩ := pruneUnreferencedEntities_columns env (relinkNestedStatuses env s)
  refine ⟨fun c => ?_, fun c => ?_, ?_, fun c key hkey status hrep => ?_⟩
  · rw [← hrelink.visible c]
    unfold MutableTimelineEntityState.visible
    rw [hcolumns]
  · rw [← hrelink.deferred c]
    unfold MutableTimelineEntityState.deferred
    rw [hdeferred]
  · exact (foldl_pruneEntity env _ _ _).trimmedColumns.trans hrelink.trimmedColumns
  · rw [← hrelink.visible c, ← hrelink.deferred c] at hkey
    exact (hrep.mono hrelink.aliases).mono (mem_aliases_pruneUnreferencedEntities hkey)

/-- A column that is not reported as trimmed shows the rows that it showed and those that pages
and deltas offered; of each upsert it shows a row.  Where the limits leave room, the rows set aside
are there as well. -/
theorem trimming_reported (env : Platform) (s : TimelineEntityState β)
    (operations : List (TimelineEntityOperation β))
    (hadds : ∀ operation ∈ operations, operation.addsOnly) (columnId : Str) :
    let r := reduceTimelineEntities env s operations
    columnId ∈ r.2 ∨
      (∀ k ∈ s.visible columnId, k ∈ r.1.visible columnId) ∧
      (∀ operation ∈ operations, ∀ k ∈ operation.offered env columnId,
        k ∈ r.1.visible columnId) ∧
      (∀ operation ∈ upserts operations, columnId ∈ operation.columnIds →
        operation.updateOnly = false → columnId ∉ operation.preserveAnchorColumns →
          ShownBy env r.1.canonicalIndex operation.status (r.1.visible columnId)) ∧
      (Roomy columnId (s.deferred columnId).length operations →
        (∀ k ∈ s.deferred columnId, k ∈ r.1.visible columnId ++ r.1.deferred columnId) ∧
        ∀ operation ∈ upserts operations, columnId ∈ operation.columnIds →
          operation.updateOnly = false →
            ShownBy env r.1.canonicalIndex operation.status
              (r.1.visible columnId ++ r.1.deferred columnId)) := by
  cases operations with
  | nil => exact .inr ⟨fun _ => id, by simp, by simp [upserts], fun _ =>
      ⟨fun k hk => List.mem_append_right _ hk, by simp [upserts]⟩⟩
  | cons operation rest =>
    intro r
    let s₁ := applyOperations env (operation :: rest).length s.toMutable (operation :: rest)
    have hreported : Reported env columnId (operation :: rest) s.toMutable s₁ :=
      reported_applyOperations env columnId _ s.toMutable _ le_rfl hadds
    obtain ⟨hvisible, hdeferred, htrimmed, hrep⟩ := relink_prune_spec env s₁
    have htrimmed : r.2 = s₁.trimmedColumns := htrimmed
    have hvisible : r.1.visible columnId = s₁.visible columnId := hvisible columnId
    have hdeferred : r.1.deferred columnId = s₁.deferred columnId := hdeferred columnId
    by_cases hreport : columnId ∈ s₁.trimmedColumns
    · exact .inl (htrimmed ▸ hreport)
    -- An upsert that is in the column before the last passes is in it after them.
    have hshown {aside : Bool} {status : TimelineStatus β}
        (h : InColumn env columnId aside status s₁) : ShownBy env r.1.canonicalIndex status
          (s₁.visible columnId ++ if aside then s₁.deferred columnId else []) := by
      obtain ⟨key, hkey, hkeyrep⟩ := h.resolve_left hreport
      refine ⟨key, hkey, hrep columnId key ?_ status hkeyrep⟩
      cases aside with
      | true => exact hkey
      | false => exact List.mem_append_left _ (by simpa using hkey)
    rw [hvisible, hdeferred]
    refine .inr ⟨fun k hk => (hreported.keeps.visible k hk).resolve_right hreport,
      fun operation hmem k hk => (hreported.offered operation hmem k hk).resolve_right hreport,
      fun operation hmem hcolumn hupdate hanchor => ?_, fun hroomy => ?_⟩
    · simpa using hshown (hreported.shown operation hmem hcolumn hupdate hanchor)
    · obtain ⟨haside, hlisted⟩ := hreported.aside hroomy
      exact ⟨fun k hk => (haside k hk).resolve_right hreport,
        fun operation hmem hcolumn hupdate => hshown (hlisted operation hmem hcolumn hupdate)⟩

/-- An upsert of a sample post in one column. -/
def sampleUpsert (id : String) (time : ℕ) (limit : ℚ) (preserveAnchorColumns : List Str) :
    TimelineEntityOperation Unit :=
  .upsertInColumns
    { columnIds := ["home".toList]
      status := .plain (samplePost id time)
      limits := fun _ => some (some limit)
      preserveAnchorColumns }

/-- A column with two posts. -/
def sampleState : TimelineEntityState Unit :=
  (reduceTimelineEntities samplePlatform createTimelineEntityState
    [.appendPage "home".toList [.plain (samplePost "1" 1), .plain (samplePost "2" 2)]]).1

theorem trimming_reported_threeRows :
    "home".toList ∉ (reduceTimelineEntities samplePlatform sampleState
        [sampleUpsert "3" 3 3 []]).2 ∧
      ∀ k ∈ sampleState.visible "home".toList,
        k ∈ (reduceTimelineEntities samplePlatform sampleState
          [sampleUpsert "3" 3 3 []]).1.visible "home".toList := by
  have hroom : "home".toList ∉
      (reduceTimelineEntities samplePlatform sampleState [sampleUpsert "3" 3 3 []]).2 := by
    decide +kernel
  exact ⟨hroom, ((trimming_reported samplePlatform sampleState [sampleUpsert "3" 3 3 []]
    (by simp [sampleUpsert, TimelineEntityOperation.addsOnly]) "home".toList).resolve_left hroom).1⟩

/-- A row that was set aside is dropped by the limit, and the column is not reported. -/
theorem not_trimming_reported :
    ¬∀ (env : Platform) (reductions : List (List (TimelineEntityOperation Unit)))
      (operations : List (TimelineEntityOperation Unit)),
      (∀ operation ∈ operations, operation.addsOnly) → ∀ columnId k,
        let s := reduceAll env reductions
        let r := reduceTimelineEntities env s operations
        (k ∈ s.visible columnId ∨ (∃ operation ∈ operations, k ∈ operation.offered env columnId) ∨
          ∃ operation ∈ upserts operations, columnId ∈ operation.columnIds ∧
            operation.updateOnly = false ∧ k = statusKey env operation.status.fields) →
        k ∈ r.1.visible columnId ∨ k ∈ r.1.deferred columnId ∨ columnId ∈ r.2 := by
  intro h
  let operations :=
    [sampleUpsert "1" 1 1 ["home".toList], sampleUpsert "2" 2 1 ["home".toList]]
  have hlost := h samplePlatform [] operations
    (by simp [operations, sampleUpsert, TimelineEntityOperation.addsOnly]) "home".toList
    (statusKey samplePlatform (samplePost "1" 1))
    (.inr (.inr ⟨_, List.mem_cons_self, List.mem_cons_self, rfl, rfl⟩))
  revert hlost
  decide +kernel

end Awayuki.Timeline
