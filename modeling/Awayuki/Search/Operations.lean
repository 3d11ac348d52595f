import Awayuki.Search.Coverage

/-!
# Search index: what the operations do

Each operation on the tables of one index is a move, and leaves what it was prepared for true.

* `Index.insert_moves`, `Index.update_moves`, `Index.delete_moves`: a write requeues the keys whose
  rows it changes;
* `Index.loadQueueBatch_sound`, `Index.commitPreparedQueue_moves`: a queued key gets the document of
  its row;
* `Index.loadBackfillBatch_sound`, `Index.Covered.commitPreparedBackfill`: the cursor passes only
  keys that have theirs.
-/

namespace Awayuki.Search

variable {F D G : Type} {schema : Schema F D} {indexText : List Str → Str} {fresh : G → Prop}
  {s : Index F D G} {key k : Key}

namespace Index

/-! ### Rows -/

variable {generation : G} {now : Str} {fields : F} {state : BackfillState}

theorem keyMove_enqueue {rows : OrderedMap Key F} {action : Action} (hfresh : fresh generation)
    (hdelete : action = .delete → rows.get key = none) (hrows : k ≠ key → rows.get k = s.rows.get k)
    (counter : ℕ) : s.KeyMove schema indexText fresh
      ({ s with rows := rows, cacheCounter := counter }.enqueue key action generation now) k := by
  by_cases hk : k = key
  · subst hk
    exact .requeued OrderedMap.get_set_self hfresh hdelete
  · exact .kept (hrows hk) (OrderedMap.get_set_of_ne hk) rfl

theorem insert_moves (hfresh : fresh generation) :
    s.Moves schema indexText fresh (s.insert key fields generation now) := by
  unfold insert
  split_ifs
  · exact .refl s
  · refine ⟨fun k => keyMove_enqueue hfresh (by simp) ?_ _, .refl _, id⟩
    exact OrderedMap.get_set_of_ne

theorem delete_moves (hfresh : fresh generation) :
    s.Moves schema indexText fresh (s.delete key generation now) := by
  unfold delete
  split_ifs
  · refine ⟨fun k => keyMove_enqueue hfresh (fun _ => ?_) ?_ _, .refl _, id⟩
    · rw [OrderedMap.get_delete, if_pos rfl]
    · intro hk
      rw [OrderedMap.get_delete, if_neg hk]
  · exact .refl s

theorem update_moves [DecidableEq F] {old new : Key} {deletion : G} (hdeletion : fresh deletion)
    (hfresh : fresh generation) :
    s.Moves schema indexText fresh (s.update old new fields deletion generation now) := by
  unfold update
  cases hold : s.rows.get old with
  | none => exact .refl s
  | some oldFields =>
    show s.Moves schema indexText fresh (if old ≠ new ∧ (s.rows.get new).isSome then s else _)
    split_ifs with htaken hkey
    · exact .refl s
    · -- The row keeps its key.
      subst hkey
      unfold updated
      by_cases hsame : oldFields = fields
      · subst hsame
        rw [if_pos ⟨rfl, rfl⟩]
        refine ⟨fun k => .kept ?_ rfl rfl, .refl _, id⟩
        show (s.rows.set old oldFields).get k = s.rows.get k
        rw [OrderedMap.get_set]
        split_ifs with hk
        · rw [hk, hold]
        · rfl
      · rw [if_neg fun h => hsame h.2, if_pos rfl]
        refine ⟨fun k => keyMove_enqueue hfresh (by simp) ?_ _, .refl _, id⟩
        exact OrderedMap.get_set_of_ne
    · unfold updated
      rw [if_neg fun h => hkey h.1, if_neg hkey]
      refine ⟨fun k => ?_, .refl _, id⟩
      by_cases hnew : k = new
      · subst hnew
        exact .requeued OrderedMap.get_set_self hfresh (by simp)
      · by_cases hk : k = old
        · subst hk
          refine .requeued (?_ : _ = some ⟨.delete, deletion, now⟩) hdeletion fun _ => ?_
          · exact (OrderedMap.get_set_of_ne hnew).trans OrderedMap.get_set_self
          · show ((s.rows.delete k).set new fields).get k = none
            rw [OrderedMap.get_set_of_ne hnew, OrderedMap.get_delete, if_pos rfl]
        · refine .kept ?_ ?_ rfl
          · show ((s.rows.delete old).set new fields).get k = s.rows.get k
            rw [OrderedMap.get_set_of_ne hnew, OrderedMap.get_delete, if_neg hk]
          · exact (OrderedMap.get_set_of_ne hnew).trans (OrderedMap.get_set_of_ne hk)

/-! ### Documents -/

theorem get_unpost {postings : OrderedMap Key Str} {doc : D}
    (h : postings.get key = schema.posting doc) :
    (unpost schema postings key doc).get k = if k = key then none else postings.get k := by
  unfold unpost
  cases hposting : schema.posting doc with
  | none =>
    show postings.get k = _
    split_ifs with hk
    · rw [hk, h, hposting]
    · rfl
  | some tokens => exact OrderedMap.get_delete

theorem get_post {postings : OrderedMap Key Str} {doc : D} (h : postings.get key = none) :
    (post schema postings key doc).get k =
      if k = key then schema.posting doc else postings.get k := by
  unfold post
  cases hposting : schema.posting doc with
  | none =>
    show postings.get k = _
    split_ifs with hk
    · rw [hk, h]
    · rfl
  | some tokens => exact OrderedMap.get_set

section Content

variable [DecidableEq D] {doc : D}

@[simp] theorem upsertContent_rows : (s.upsertContent schema key doc).rows = s.rows := rfl

@[simp] theorem upsertContent_content :
    (s.upsertContent schema key doc).content = s.content.set key doc := rfl

theorem upsertContent_postings : (s.upsertContent schema key doc).postings =
    match s.content.get key with
    | none => post schema s.postings key doc
    | some old => if old = doc then s.postings else
        post schema (unpost schema s.postings key old) key doc :=
  rfl

theorem Posted.upsertContent (h : s.Posted schema) :
    (s.upsertContent schema key doc).Posted schema := by
  intro k
  rw [upsertContent_postings, upsertContent_content, OrderedMap.get_set]
  have hkey := h key
  cases hcontent : s.content.get key with
  | none =>
    rw [hcontent] at hkey
    rw [get_post hkey, h k]
    split_ifs <;> rfl
  | some old =>
    rw [hcontent] at hkey
    show (if old = doc then s.postings else _).get k = _
    split_ifs with hdoc hk hk
    · rw [hk, hkey, hdoc]
    · exact h k
    · rw [get_post, if_pos hk]
      · rfl
      · rw [get_unpost hkey, if_pos rfl]
    · rw [get_post, if_neg hk, get_unpost hkey, if_neg hk, h k]
      rw [get_unpost hkey, if_pos rfl]

end Content

@[simp] theorem deleteContent_rows : (s.deleteContent schema key).rows = s.rows := by
  unfold deleteContent
  split <;> rfl

@[simp] theorem deleteContent_queue : (s.deleteContent schema key).queue = s.queue := by
  unfold deleteContent
  split <;> rfl

@[simp] theorem deleteContent_backfill :
    (s.deleteContent schema key).backfill = s.backfill := by
  unfold deleteContent
  split <;> rfl

theorem get_deleteContent :
    (s.deleteContent schema key).content.get k = if k = key then none else s.content.get k := by
  unfold deleteContent
  split
  · rename_i hnone
    split_ifs with hk
    · rw [hk, hnone]
    · rfl
  · exact OrderedMap.get_delete

theorem Posted.deleteContent (h : s.Posted schema) :
    (s.deleteContent schema key).Posted schema := by
  intro k
  rw [get_deleteContent]
  unfold Index.deleteContent
  have hkey := h key
  split
  · rename_i hnone
    rw [h k]
    split_ifs with hk
    · rw [hk, hnone]
    · rfl
  · rename_i old hsome
    rw [hsome] at hkey
    show (unpost schema s.postings key old).get k = _
    rw [get_unpost hkey, h k]
    split_ifs <;> rfl

/-! ### The queue -/

/-- Storing the document of its row settles a key. -/
theorem keyMove_upsertContent [DecidableEq D] {doc : D}
    (hdoc : some doc = (s.rows.get key).map (schema.document indexText)) :
    s.KeyMove schema indexText fresh (s.upsertContent schema key doc) k := by
  by_cases hk : k = key
  · subst hk
    exact .settled rfl (.inl rfl) (OrderedMap.get_set_self.trans hdoc)
  · exact .kept rfl rfl (OrderedMap.get_set_of_ne hk)

section Queue

variable [DecidableEq G] {row : PreparedQueueRow G}

theorem stillCurrent_iff : s.stillCurrent row = true ↔ ∃ entry, s.queue.get row.key = some entry ∧
    entry.action = row.action ∧ entry.generation = row.generation := by
  unfold stillCurrent
  cases s.queue.get row.key <;> simp

theorem dequeue_of_generation {entry : QueueEntry G} (h : s.queue.get key = some entry) :
    s.dequeue key entry.generation = { s with queue := s.queue.delete key } := by
  unfold dequeue
  rw [h]
  exact if_pos rfl

/-- A row that is not as it was read is left alone. -/
theorem applyPrepared_of_stale [DecidableEq D] (h : ¬ s.stillCurrent row = true) :
    s.applyPrepared schema row = s :=
  if_neg h

theorem applyPrepared_of_current [DecidableEq D] (h : s.stillCurrent row = true) :
    s.applyPrepared schema row =
      let t := match row.tokenText with
        | some tokenText => s.upsertContent schema row.key (schema.content tokenText)
        | none => s.deleteContent schema row.key
      { t with queue := s.queue.delete row.key } := by
  obtain ⟨entry, hentry, -, hgeneration⟩ := stillCurrent_iff.1 h
  unfold applyPrepared
  rw [if_pos h]
  cases row.tokenText with
  | some tokenText =>
    have hentry' : (s.upsertContent schema row.key (schema.content tokenText)).queue.get row.key =
        some entry := hentry
    rw [← hgeneration]
    exact dequeue_of_generation hentry'
  | none =>
    show (s.deleteContent schema row.key).dequeue _ _ = _
    rw [← hgeneration, dequeue_of_generation (by rw [deleteContent_queue, hentry]),
      deleteContent_queue]

theorem applyPrepared_moves [DecidableEq D] (hrow : row.Sound schema indexText s) :
    s.Moves schema indexText fresh (s.applyPrepared schema row) := by
  by_cases h : s.stillCurrent row = true
  · obtain ⟨entry, hentry, haction, hgeneration⟩ := stillCurrent_iff.1 h
    have hdoc := hrow entry hentry haction hgeneration
    rw [applyPrepared_of_current h]
    cases htoken : row.tokenText with
    | some tokenText =>
      rw [htoken] at hdoc
      refine ⟨fun k => ?_, .refl _, fun hposted => hposted.upsertContent⟩
      by_cases hk : k = row.key
      · subst hk
        refine .settled rfl (.inr ?_) (OrderedMap.get_set_self.trans hdoc)
        exact OrderedMap.get_delete.trans (if_pos rfl)
      · refine .kept rfl ?_ (OrderedMap.get_set_of_ne hk)
        exact OrderedMap.get_delete.trans (if_neg hk)
    | none =>
      rw [htoken] at hdoc
      refine ⟨fun k => ?_, ?_, fun hposted => hposted.deleteContent⟩
      · by_cases hk : k = row.key
        · subst hk
          refine .settled (by simp) (.inr ?_) ?_
          · exact OrderedMap.get_delete.trans (if_pos rfl)
          · show (s.deleteContent schema row.key).content.get row.key = _
            rw [get_deleteContent, if_pos rfl]
            simpa using hdoc
        · refine .kept (by simp) ?_ ?_
          · exact OrderedMap.get_delete.trans (if_neg hk)
          · exact get_deleteContent.trans (if_neg hk)
      · simpa using BackfillState.Moves.refl s.backfill
  · rw [applyPrepared_of_stale h]
    exact .refl s

theorem applyPrepared_backfill [DecidableEq D] :
    (s.applyPrepared schema row).backfill = s.backfill := by
  by_cases h : s.stillCurrent row = true
  · rw [applyPrepared_of_current h]
    cases row.tokenText with
    | some tokenText => rfl
    | none => exact deleteContent_backfill
  · rw [applyPrepared_of_stale h]

theorem commitPreparedQueue_backfill [DecidableEq D] {prepared : List (PreparedQueueRow G)} :
    (s.commitPreparedQueue schema prepared).backfill = s.backfill := by
  unfold commitPreparedQueue
  induction prepared generalizing s with
  | nil => rfl
  | cons row prepared ih =>
    rw [List.foldl_cons, ih, applyPrepared_backfill]

/-- Rows that are sound stay so while they are applied one after the other. -/
theorem commitPreparedQueue_moves [DecidableEq D] {prepared : List (PreparedQueueRow G)}
    (hprepared : ∀ row ∈ prepared, row.Sound schema indexText s) :
    s.Moves schema indexText (fun _ => False) (s.commitPreparedQueue schema prepared) := by
  unfold commitPreparedQueue
  induction prepared generalizing s with
  | nil => exact .refl s
  | cons row prepared ih =>
    have hmoves : s.Moves schema indexText (fun _ => False) (s.applyPrepared schema row) :=
      applyPrepared_moves (hprepared row List.mem_cons_self)
    rw [List.foldl_cons]
    refine hmoves.trans (ih fun row' hrow' => ?_)
    have hsound := hprepared row' (List.mem_cons_of_mem _ hrow')
    exact PreparedQueueRow.Sound.moves hsound (hmoves.keys _) id

/-- A row of a batch that is not as it was read is left alone. -/
theorem commitPreparedQueue_of_stale [DecidableEq D] {prepared : List (PreparedQueueRow G)}
    (hkey : ∀ row ∈ prepared, row.key = key → ¬ s.stillCurrent row = true) :
    (s.commitPreparedQueue schema prepared).content.get key = s.content.get key ∧
      (s.commitPreparedQueue schema prepared).queue.get key = s.queue.get key := by
  unfold commitPreparedQueue
  induction prepared generalizing s with
  | nil => exact ⟨rfl, rfl⟩
  | cons row prepared ih =>
    have hhead : (s.applyPrepared schema row).content.get key = s.content.get key ∧
        (s.applyPrepared schema row).queue.get key = s.queue.get key := by
      by_cases h : s.stillCurrent row = true
      · have hne : key ≠ row.key := fun hk => hkey row List.mem_cons_self hk.symm h
        rw [applyPrepared_of_current h]
        refine ⟨?_, OrderedMap.get_delete.trans (if_neg hne)⟩
        cases row.tokenText with
        | some tokenText => exact OrderedMap.get_set_of_ne hne
        | none => exact get_deleteContent.trans (if_neg hne)
      · rw [applyPrepared_of_stale h]
        exact ⟨rfl, rfl⟩
    rw [List.foldl_cons]
    rw [← hhead.1, ← hhead.2]
    refine ih fun row' hrow' hk => ?_
    have hstale := hkey row' (List.mem_cons_of_mem _ hrow') hk
    rw [stillCurrent_iff] at hstale ⊢
    rw [hk, hhead.2, ← hk]
    exact hstale

end Queue

theorem mem_loadQueueBatch {row : QueueRow F G} (h : row ∈ s.loadQueueBatch) :
    ∃ entry, s.queue.get row.key = some entry ∧ row.action = entry.action ∧
      row.generation = entry.generation ∧ row.fields = s.rows.get row.key := by
  unfold loadQueueBatch at h
  obtain ⟨e, he, rfl⟩ := List.mem_map.1 h
  refine ⟨e.2, OrderedMap.get_eq_some.2 ?_, rfl, rfl, rfl⟩
  exact (List.mem_insertionSort _).1 (List.mem_of_mem_take he)

/-- What has just been read and prepared is sound. -/
theorem Covered.loadQueueBatch (hs : s.Covered schema indexText) {row : QueueRow F G}
    (h : row ∈ s.loadQueueBatch) : (prepareQueueRow schema indexText row).Sound schema indexText s := by
  obtain ⟨entry, hentry, haction, hgeneration, hfields⟩ := mem_loadQueueBatch h
  intro entry' hentry' _ _
  show Option.map schema.content (if row.action = .upsert then _ else none) =
    (s.rows.get row.key).map (schema.document indexText)
  rw [← hfields]
  cases haction' : row.action with
  | upsert =>
    rw [if_pos rfl, Option.map_map]
    rfl
  | delete =>
    rw [if_neg (by simp), hfields, hs.deleted hentry (haction ▸ haction')]
    rfl

theorem prepared_generation (schema : Schema F D) (indexText : List Str → Str)
    {row : QueueRow F G} (h : row ∈ s.loadQueueBatch) :
    ∃ entry, s.queue.get row.key = some entry ∧
      (prepareQueueRow schema indexText row).generation = entry.generation := by
  obtain ⟨entry, hentry, -, hgeneration, -⟩ := mem_loadQueueBatch h
  exact ⟨entry, hentry, hgeneration⟩

/-! ### The backfill -/

/-- Of a sorted list a part at its front holds everything before its last element. -/
theorem mem_take_or_of_pairwise {α : Type} {r : α → α → Prop} {l : List α} (hl : l.Pairwise r)
    {n : ℕ} (hn : 0 < n) {x : α} (hx : x ∈ l) :
    x ∈ l.take n ∨ n ≤ (l.take n).length ∧ ∃ last ∈ (l.take n).getLast?, r last x := by
  rw [← List.take_append_drop n l, List.mem_append] at hx
  rcases hx with hx | hx
  · exact .inl hx
  · have hlength : (l.take n).length = n := by
      have hpos := List.length_pos_of_mem hx
      rw [List.length_drop] at hpos
      rw [List.length_take]
      omega
    have hne : l.take n ≠ [] := by
      intro hnil
      rw [hnil] at hlength
      simp at hlength
      omega
    rw [← List.take_append_drop n l, List.pairwise_append] at hl
    refine .inr ⟨hlength.ge, _, List.getLast?_eq_getLast_of_ne_nil hne, ?_⟩
    exact hl.2.2 _ (List.getLast_mem hne) _ hx

/-- The batch is everything that is below the state, down to its last row. -/
theorem mem_loadBackfillBatch_or (hrow : s.rows.get k = some fields)
    (hbelow : state.below k = true) : ⟨k, fields⟩ ∈ s.loadBackfillBatch state ∨
      backfillChunkSize ≤ (s.loadBackfillBatch state).length ∧
        ∃ last ∈ (s.loadBackfillBatch state).getLast?, k < last.key := by
  set rest := s.rows.entries.filter fun e => state.below e.1 with hrest
  set sorted := rest.insertionSort fun a b => b.1 ≤ a.1 with hsorted
  have hload : s.loadBackfillBatch state =
      (sorted.take backfillChunkSize).map fun e => ⟨e.1, e.2⟩ := rfl
  have hmem : (k, fields) ∈ sorted := by
    rw [hsorted, List.mem_insertionSort, hrest, List.mem_filter]
    exact ⟨OrderedMap.get_eq_some.1 hrow, hbelow⟩
  have : Std.Total fun a b : Key × F => b.1 ≤ a.1 := ⟨fun a b => le_total b.1 a.1⟩
  have : IsTrans (Key × F) fun a b => b.1 ≤ a.1 := ⟨fun _ _ _ hab hbc => hbc.trans hab⟩
  have hpairwise : sorted.Pairwise fun a b => b.1 ≤ a.1 := List.pairwise_insertionSort _ _
  rw [hload, List.length_map]
  rcases mem_take_or_of_pairwise hpairwise (by decide : 0 < backfillChunkSize) hmem with
    htake | ⟨hlength, last, hlast, hle⟩
  · exact .inl (List.mem_map.2 ⟨_, htake, rfl⟩)
  · rcases hle.lt_or_eq with hlt | heq
    · refine .inr ⟨hlength, ⟨last.1, last.2⟩, ?_, hlt⟩
      rw [List.getLast?_map, Option.mem_def.1 hlast]
      rfl
    · -- Keys are unique, so the last row is the row itself.
      have hlastmem := List.mem_of_mem_getLast? hlast
      have hentry : last ∈ s.rows.entries := by
        have hsort := List.mem_of_mem_take hlastmem
        rw [hsorted, List.mem_insertionSort, hrest, List.mem_filter] at hsort
        exact hsort.1
      have hlastrow : last = (k, fields) :=
        List.inj_on_of_nodup_map s.rows.nodup hentry (OrderedMap.get_eq_some.1 hrow) heq.symm
      exact .inl (List.mem_map.2 ⟨_, hlastrow ▸ hlastmem, rfl⟩)

theorem below_of_mem_loadBackfillBatch {row : BackfillRow F} (h : row ∈ s.loadBackfillBatch state) :
    state.below row.key = true := by
  unfold loadBackfillBatch at h
  obtain ⟨e, he, rfl⟩ := List.mem_map.1 h
  have hmem := (List.mem_insertionSort _).1 (List.mem_of_mem_take he)
  exact (List.mem_filter.1 hmem).2

/-- A batch that has just been read and prepared is sound, whatever state it was read below, as
long as the cursor has not been above it. -/
theorem loadBackfillBatch_sound {snapshot : BackfillState}
    (hreached : ∀ {key}, s.backfill.below key = true → snapshot.below key = true) :
    BackfillBatch.Sound schema indexText s snapshot
      ((s.loadBackfillBatch snapshot).map (prepareBackfillRow schema indexText)) where
  reached := hreached
  tokens row hrow := by
    obtain ⟨row, -, rfl⟩ := List.mem_map.1 hrow
    rfl
  below row hrow := by
    obtain ⟨row, hload, rfl⟩ := List.mem_map.1 hrow
    exact below_of_mem_loadBackfillBatch hload
  complete := by
    intro _ _ key fields _ hrow hbelow _
    rw [List.length_map, List.getLast?_map]
    rcases mem_loadBackfillBatch_or hrow (hreached hbelow) with hmem | ⟨hlength, last, hlast, hlt⟩
    · exact .inl ⟨_, List.mem_map_of_mem hmem, rfl, rfl⟩
    · refine .inr ⟨hlength, prepareBackfillRow schema indexText last, ?_, hlt⟩
      rw [Option.mem_def.1 hlast]
      rfl

section Backfill

variable [DecidableEq F] [DecidableEq D] {row : PreparedBackfillRow F}
  {prepared : List (PreparedBackfillRow F)} {snapshot : BackfillState}

theorem upsertBackfillContentIfCurrent_tables (schema : Schema F D) (s : Index F D G)
    (row : PreparedBackfillRow F) :
    (s.upsertBackfillContentIfCurrent schema row).rows = s.rows ∧
      (s.upsertBackfillContentIfCurrent schema row).queue = s.queue ∧
      (s.upsertBackfillContentIfCurrent schema row).backfill = s.backfill := by
  unfold upsertBackfillContentIfCurrent
  split_ifs <;> exact ⟨rfl, rfl, rfl⟩

theorem upsertBackfillContentIfCurrent_moves
    (htokens : row.tokenText = indexText (schema.fields row.fields)) :
    s.Moves schema indexText (fun _ => False) (s.upsertBackfillContentIfCurrent schema row) := by
  unfold upsertBackfillContentIfCurrent
  split_ifs with hrow
  · refine ⟨fun k => keyMove_upsertContent ?_, .refl _, fun hposted => hposted.upsertContent⟩
    rw [hrow, htokens]
    rfl
  · exact .refl s

/-- The rows of a batch, stored one after the other. -/
def storeBackfill (schema : Schema F D) (s : Index F D G)
    (prepared : List (PreparedBackfillRow F)) : Index F D G :=
  prepared.foldl (·.upsertBackfillContentIfCurrent schema) s

theorem storeBackfill_cons : s.storeBackfill schema (row :: prepared) =
    (s.upsertBackfillContentIfCurrent schema row).storeBackfill schema prepared := rfl

theorem storeBackfill_tables (schema : Schema F D) (s : Index F D G)
    (prepared : List (PreparedBackfillRow F)) :
    (s.storeBackfill schema prepared).rows = s.rows ∧
      (s.storeBackfill schema prepared).queue = s.queue ∧
      (s.storeBackfill schema prepared).backfill = s.backfill := by
  induction prepared generalizing s with
  | nil => exact ⟨rfl, rfl, rfl⟩
  | cons row prepared ih =>
    obtain ⟨hrows, hqueue, hstate⟩ := upsertBackfillContentIfCurrent_tables schema s row
    obtain ⟨hrows', hqueue', hstate'⟩ := ih (s.upsertBackfillContentIfCurrent schema row)
    rw [storeBackfill_cons]
    exact ⟨hrows'.trans hrows, hqueue'.trans hqueue, hstate'.trans hstate⟩

theorem storeBackfill_moves
    (htokens : ∀ row ∈ prepared, row.tokenText = indexText (schema.fields row.fields)) :
    s.Moves schema indexText (fun _ => False) (s.storeBackfill schema prepared) := by
  induction prepared generalizing s with
  | nil => exact .refl s
  | cons row prepared ih =>
    have hhead := upsertBackfillContentIfCurrent_moves (s := s) (htokens row List.mem_cons_self)
    rw [storeBackfill_cons]
    exact hhead.trans (ih fun row' hrow' => htokens row' (List.mem_cons_of_mem _ hrow'))

/-- A row that is as it was read has its document afterwards. -/
theorem storeBackfill_current (hqueue : s.queue.get row.key = none)
    (htokens : ∀ row ∈ prepared, row.tokenText = indexText (schema.fields row.fields))
    (hmem : row ∈ prepared) (hrow : s.rows.get row.key = some row.fields) :
    (s.storeBackfill schema prepared).Current schema indexText row.key := by
  induction prepared generalizing s with
  | nil => simp at hmem
  | cons head prepared ih =>
    obtain ⟨hrows, hkept, -⟩ := upsertBackfillContentIfCurrent_tables schema s head
    have htail : ∀ row ∈ prepared, row.tokenText = indexText (schema.fields row.fields) :=
      fun row' hrow' => htokens row' (List.mem_cons_of_mem _ hrow')
    rw [storeBackfill_cons]
    rw [← hrows] at hrow
    rw [← hkept] at hqueue
    rcases List.mem_cons.1 hmem with rfl | hmem
    · refine ((storeBackfill_moves htail).keys _).current ?_ ?_
      · rw [(storeBackfill_tables schema (s.upsertBackfillContentIfCurrent schema row) prepared).2.1,
          hqueue]
      · rw [hrows] at hrow
        unfold upsertBackfillContentIfCurrent
        rw [if_pos hrow]
        unfold Current
        rw [upsertContent_content, OrderedMap.get_set_self, upsertContent_rows, hrow,
          htokens row List.mem_cons_self]
        rfl
    · exact ih hqueue htail hmem hrow

/-- The queue is left alone, and so is the document of a row that is not as it was read. -/
theorem commitPreparedBackfill_of_stale
    (hkey : ∀ row ∈ prepared, row.key = key → s.rows.get key ≠ some row.fields) :
    (s.commitPreparedBackfill schema snapshot prepared).content.get key = s.content.get key ∧
      (s.commitPreparedBackfill schema snapshot prepared).queue = s.queue := by
  have hstore : (s.storeBackfill schema prepared).content.get key = s.content.get key := by
    induction prepared generalizing s with
    | nil => rfl
    | cons row prepared ih =>
      have hhead : (s.upsertBackfillContentIfCurrent schema row).content.get key =
          s.content.get key := by
        unfold upsertBackfillContentIfCurrent
        split_ifs with hrow
        · refine OrderedMap.get_set_of_ne fun hk => ?_
          exact hkey row List.mem_cons_self hk.symm (hk ▸ hrow)
        · rfl
      rw [storeBackfill_cons, ih, hhead]
      intro row' hrow' hk
      rw [(upsertBackfillContentIfCurrent_tables schema s row).1]
      exact hkey row' (List.mem_cons_of_mem _ hrow') hk
  unfold commitPreparedBackfill
  split_ifs
  · exact ⟨hstore, (storeBackfill_tables schema s prepared).2.1⟩
  · exact ⟨rfl, rfl⟩

omit [DecidableEq F] in
/-- The state only goes on below where it was. -/
theorem advance_moves (hunmoved : state.unmoved snapshot = true)
    (hbelow : ∀ row ∈ prepared, snapshot.below row.key = true) (observedTotal : ℕ) :
    state.Moves (state.advance snapshot prepared observedTotal) := by
  have hcursor : state.cursor = snapshot.cursor := by
    simp only [BackfillState.unmoved, Bool.and_eq_true, decide_eq_true_eq] at hunmoved
    exact hunmoved.1.2
  cases hlast : prepared.getLast? with
  | none =>
    have hadvance : (state.advance snapshot prepared observedTotal).cursor = state.cursor := by
      simp [BackfillState.advance, hlast]
    refine ⟨fun {key} hkey => ?_, .inr (.inl ?_)⟩
    · unfold BackfillState.below at hkey ⊢
      rwa [hadvance] at hkey
    · obtain rfl := List.getLast?_eq_none_iff.1 hlast
      rfl
  | some last =>
    have hadvance : (state.advance snapshot prepared observedTotal).cursor = some last.key := by
      simp [BackfillState.advance, hlast]
    have hreached : state.below last.key = true := by
      have hsnapshot := hbelow last (List.mem_of_getLast? hlast)
      unfold BackfillState.below at hsnapshot ⊢
      rwa [hcursor]
    refine ⟨fun {key} hkey => ?_, .inr (.inr ⟨last.key, hreached, hadvance⟩)⟩
    unfold BackfillState.below at hkey
    rw [hadvance] at hkey
    exact BackfillState.below_of_lt hreached (of_decide_eq_true hkey)

theorem commitPreparedBackfill_moves
    (hbatch : BackfillBatch.Sound schema indexText s snapshot prepared) :
    s.Moves schema indexText (fun _ => False) (s.commitPreparedBackfill schema snapshot prepared) := by
  unfold commitPreparedBackfill
  split_ifs with hunmoved
  · have hstore := storeBackfill_moves (s := s) hbatch.tokens
    refine ⟨fun key => ?_, ?_, hstore.posted⟩
    · cases hstore.keys key with
      | kept rows queue content => exact .kept rows queue content
      | settled rows queue current => exact .settled rows queue current
      | requeued _ drawn => exact drawn.elim
    · show s.backfill.Moves ((s.storeBackfill schema prepared).backfill.advance _ _ _)
      rw [(storeBackfill_tables schema s prepared).2.2]
      exact advance_moves hunmoved hbatch.below _
  · exact .refl s

/-- With nothing queued, the rows that the cursor passes have their documents. -/
theorem Covered.commitPreparedBackfill (hs : s.Covered schema indexText)
    (hqueue : ∀ key, s.queue.get key = none)
    (hbatch : BackfillBatch.Sound schema indexText s snapshot prepared) :
    (s.commitPreparedBackfill schema snapshot prepared).Covered schema indexText := by
  by_cases hunmoved : s.backfill.unmoved snapshot = true
  · obtain ⟨hrows, hkept, hstate⟩ := storeBackfill_tables schema s prepared
    have hstore := storeBackfill_moves (s := s) hbatch.tokens
    have hopen : s.backfill.completed = false ∧ s.backfill.cursor = snapshot.cursor := by
      simp only [BackfillState.unmoved, Bool.and_eq_true, decide_eq_true_eq] at hunmoved
      exact ⟨by simpa using hunmoved.1.1, hunmoved.1.2⟩
    have hcommit : s.commitPreparedBackfill schema snapshot prepared =
        { s.storeBackfill schema prepared with
          backfill := (s.storeBackfill schema prepared).backfill.advance snapshot prepared
            (s.storeBackfill schema prepared).cacheCounter } := if_pos hunmoved
    rw [hcommit]
    refine ⟨fun {key entry} hentry => ?_, fun {key} _ => ?_, hstore.posted hs.posted⟩
    · have hnone : (s.storeBackfill schema prepared).queue.get key = none := by
        rw [hkept, hqueue]
      exact absurd (hnone.symm.trans hentry) (by simp)
    · by_cases hcurrent : (s.storeBackfill schema prepared).Current schema indexText key
      · exact .inl hcurrent
      · -- What is not current yet was not in the batch, so it is below the batch.
        have hstale : ¬ s.Current schema indexText key := by
          refine fun h => hcurrent ((hstore.keys key).current ?_ h)
          rw [hkept, hqueue]
        obtain ⟨-, hrow, hbelow⟩ := (hs.covered (hqueue key)).resolve_left hstale
        obtain ⟨fields, hfields⟩ := Option.isSome_iff_exists.1 hrow
        rcases hbatch.complete hopen.1 hopen.2 (hqueue key) hfields hbelow hstale with
          ⟨row, hmem, rfl, rfl⟩ | ⟨hlength, last, hlast, hlt⟩
        · exact absurd (storeBackfill_current (hqueue _) hbatch.tokens hmem hfields) hcurrent
        · refine .inr ⟨?_, ?_, ?_⟩
          · exact decide_eq_false (by omega)
          · show ((s.storeBackfill schema prepared).rows.get key).isSome = true
            rw [hrows]
            exact hrow
          · unfold BackfillState.below BackfillState.advance
            rw [Option.mem_def.1 hlast]
            exact decide_eq_true hlt
  · unfold Index.commitPreparedBackfill
    rw [if_neg hunmoved]
    exact hs

end Backfill

end Index

end Awayuki.Search
