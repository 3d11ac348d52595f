import Awayuki.Search.Index

/-!
# Search index: coverage

What the tables of one index promise while rows are written and indexed at the same time.

* `Index.Covered`: a key that is not queued has the document of its row, or the backfill has still
  to come to it;
* `Index.Moves`: everything that may become of a key in one transaction;
* `PreparedQueueRow.Sound`, `BackfillBatch.Sound`: what was prepared from earlier tables is still
  true of these, or will not be applied to them.
-/

namespace Awayuki.Search

variable {F D G : Type}

section Specification

variable (schema : Schema F D) (indexText : List Str → Str)

/-- The document of a row. -/
def Schema.document (fields : F) : D := schema.content (indexText (schema.fields fields))

namespace Index

/-- Has the key the document of its row, and none if it has no row? -/
def Current (s : Index F D G) (key : Key) : Prop :=
  s.content.get key = (s.rows.get key).map (schema.document indexText)

/-- Has the backfill still to come to the row? -/
def Pending (s : Index F D G) (key : Key) : Prop :=
  s.backfill.completed = false ∧ (s.rows.get key).isSome ∧ s.backfill.below key = true

/-- The full-text table holds the tokens of the documents. -/
def Posted (s : Index F D G) : Prop :=
  ∀ key, s.postings.get key = (s.content.get key).bind schema.posting

structure Covered (s : Index F D G) : Prop where
  /-- What is queued for deletion has no row. -/
  deleted : ∀ {key entry}, s.queue.get key = some entry → entry.action = .delete →
    s.rows.get key = none
  covered : ∀ {key}, s.queue.get key = none → s.Current schema indexText key ∨ s.Pending key
  posted : s.Posted schema

/-- What one transaction may do with a key; generations that it draws are `fresh`. -/
inductive KeyMove (fresh : G → Prop) (s s' : Index F D G) (key : Key) : Prop
  | kept (rows : s'.rows.get key = s.rows.get key) (queue : s'.queue.get key = s.queue.get key)
      (content : s'.content.get key = s.content.get key)
  | settled (rows : s'.rows.get key = s.rows.get key)
      (queue : s'.queue.get key = s.queue.get key ∨ s'.queue.get key = none)
      (current : s'.Current schema indexText key)
  | requeued {entry : QueueEntry G} (queue : s'.queue.get key = some entry)
      (drawn : fresh entry.generation)
      (deleted : entry.action = .delete → s'.rows.get key = none)

end Index

/-- What one transaction may do with the state of the backfill. -/
structure BackfillState.Moves (state state' : BackfillState) : Prop where
  below : ∀ {key}, state'.below key = true → state.below key = true
  moved : state' = state ∨ state'.completed = true ∨
    ∃ cursor, state.below cursor = true ∧ state'.cursor = some cursor

structure Index.Moves (fresh : G → Prop) (s s' : Index F D G) : Prop where
  keys : ∀ key, s.KeyMove schema indexText fresh s' key
  backfill : s.backfill.Moves s'.backfill
  posted : s.Posted schema → s'.Posted schema

/-- If the row is applied to these tables, it leaves the document of the row they have. -/
def PreparedQueueRow.Sound (s : Index F D G) (row : PreparedQueueRow G) : Prop :=
  ∀ entry, s.queue.get row.key = some entry → entry.action = row.action →
    entry.generation = row.generation →
    row.tokenText.map schema.content = (s.rows.get row.key).map (schema.document indexText)

/-- A batch of the backfill that was read when the state was `snapshot`. -/
structure BackfillBatch.Sound (s : Index F D G) (snapshot : BackfillState)
    (prepared : List (PreparedBackfillRow F)) : Prop where
  reached : ∀ {key}, s.backfill.below key = true → snapshot.below key = true
  tokens : ∀ row ∈ prepared, row.tokenText = indexText (schema.fields row.fields)
  below : ∀ row ∈ prepared, snapshot.below row.key = true
  /-- Unless the state has moved, the batch has every row that the backfill has still to come to,
  down to its last. -/
  complete : s.backfill.completed = false → s.backfill.cursor = snapshot.cursor →
    ∀ {key fields}, s.queue.get key = none → s.rows.get key = some fields →
      s.backfill.below key = true → ¬ s.Current schema indexText key →
      (∃ row ∈ prepared, row.key = key ∧ row.fields = fields) ∨
        backfillChunkSize ≤ prepared.length ∧ ∃ last ∈ prepared.getLast?, key < last.key

end Specification

variable {schema : Schema F D} {indexText : List Str → Str} {fresh : G → Prop}
  {s s' t : Index F D G} {key : Key}

/-! ### What a transaction leaves true -/

theorem BackfillState.below_of_lt {state : BackfillState} {key key' : Key}
    (h : state.below key' = true) (hlt : key < key') : state.below key = true := by
  unfold BackfillState.below at h ⊢
  cases hcursor : state.cursor with
  | none => rfl
  | some cursor =>
    rw [hcursor] at h
    exact decide_eq_true (hlt.trans (of_decide_eq_true h))

theorem BackfillState.ne_of_below {state : BackfillState} (h : state.below key = true) :
    state.cursor ≠ some key := by
  intro hcursor
  unfold BackfillState.below at h
  rw [hcursor] at h
  exact lt_irrefl key (of_decide_eq_true h)

theorem BackfillState.Moves.refl (state : BackfillState) : state.Moves state :=
  ⟨id, .inl rfl⟩

theorem BackfillState.Moves.trans {a b c : BackfillState} (h : a.Moves b) (h' : b.Moves c) :
    a.Moves c where
  below hbelow := h.below (h'.below hbelow)
  moved := by
    rcases h'.moved with rfl | hcompleted | ⟨cursor, hbelow, hcursor⟩
    · exact h.moved
    · exact .inr (.inl hcompleted)
    · exact .inr (.inr ⟨cursor, h.below hbelow, hcursor⟩)

namespace Index

theorem KeyMove.current (h : s.KeyMove schema indexText fresh s' key)
    (hqueue : s'.queue.get key = none) (hcurrent : s.Current schema indexText key) :
    s'.Current schema indexText key := by
  cases h with
  | kept rows _ content =>
    unfold Current
    rw [content, rows]
    exact hcurrent
  | settled _ _ current => exact current
  | requeued queue => simp [queue] at hqueue

/-- Steps that queue nothing are one such step. -/
theorem KeyMove.trans (h : s.KeyMove schema indexText (fun _ => False) t key)
    (h' : t.KeyMove schema indexText (fun _ => False) s' key) :
    s.KeyMove schema indexText (fun _ => False) s' key := by
  cases h with
  | requeued _ drawn => exact drawn.elim
  | kept rows queue content =>
    cases h' with
    | requeued _ drawn => exact drawn.elim
    | kept rows' queue' content' =>
      exact .kept (rows'.trans rows) (queue'.trans queue) (content'.trans content)
    | settled rows' queue' current =>
      rw [queue] at queue'
      exact .settled (rows'.trans rows) queue' current
  | settled rows queue current =>
    cases h' with
    | requeued _ drawn => exact drawn.elim
    | kept rows' queue' content' =>
      rw [← queue'] at queue
      refine .settled (rows'.trans rows) queue ?_
      unfold Current at current ⊢
      rw [content', rows', current]
    | settled rows' queue' current' =>
      refine .settled (rows'.trans rows) ?_ current'
      rcases queue' with queue' | queue'
      · rw [queue']
        exact queue
      · exact .inr queue'

theorem KeyMove.mono {fresh' : G → Prop} (h : s.KeyMove schema indexText fresh s' key)
    (hfresh : ∀ g, fresh g → fresh' g) : s.KeyMove schema indexText fresh' s' key := by
  cases h with
  | kept rows queue content => exact .kept rows queue content
  | settled rows queue current => exact .settled rows queue current
  | requeued queue drawn deleted => exact .requeued queue (hfresh _ drawn) deleted

theorem Moves.refl (s : Index F D G) : s.Moves schema indexText fresh s :=
  ⟨fun _ => .kept rfl rfl rfl, .refl _, id⟩

theorem Moves.trans (h : s.Moves schema indexText (fun _ => False) t)
    (h' : t.Moves schema indexText (fun _ => False) s') :
    s.Moves schema indexText (fun _ => False) s' where
  keys key := (h.keys key).trans (h'.keys key)
  backfill := h.backfill.trans h'.backfill
  posted hs := h'.posted (h.posted hs)

theorem Moves.mono (h : s.Moves schema indexText (fun _ => False) s') :
    s.Moves schema indexText fresh s' where
  keys key := (h.keys key).mono fun _ hfalse => hfalse.elim
  backfill := h.backfill
  posted := h.posted

/-- As long as the state of the backfill stays, coverage does. -/
theorem Covered.moves (hs : s.Covered schema indexText) (h : s.Moves schema indexText fresh s')
    (hstate : s'.backfill = s.backfill) : s'.Covered schema indexText where
  deleted {key entry} hentry hdelete := by
    cases h.keys key with
    | kept rows queue =>
      rw [rows]
      exact hs.deleted (queue ▸ hentry) hdelete
    | settled rows queue =>
      rw [rows]
      rcases queue with queue | queue
      · exact hs.deleted (queue ▸ hentry) hdelete
      · simp [queue] at hentry
    | requeued queue _ deleted =>
      obtain rfl : _ = entry := Option.some.inj (queue.symm.trans hentry)
      exact deleted hdelete
  covered {key} hnone := by
    cases hmove : h.keys key with
    | kept rows queue content =>
      rcases hs.covered (queue ▸ hnone) with hcurrent | ⟨hopen, hrow, hbelow⟩
      · exact .inl ((h.keys key).current hnone hcurrent)
      · exact .inr ⟨hstate ▸ hopen, rows ▸ hrow, hstate ▸ hbelow⟩
    | settled _ _ current => exact .inl current
    | requeued queue => simp [queue] at hnone
  posted := h.posted hs.posted

end Index

theorem PreparedQueueRow.Sound.moves {row : PreparedQueueRow G}
    (hrow : row.Sound schema indexText s) (h : s.KeyMove schema indexText fresh s' row.key)
    (hold : ¬ fresh row.generation) : row.Sound schema indexText s' := by
  intro entry hentry haction hgeneration
  cases h with
  | kept rows queue =>
    rw [rows]
    exact hrow entry (queue ▸ hentry) haction hgeneration
  | settled rows queue =>
    rw [rows]
    rcases queue with queue | queue
    · exact hrow entry (queue ▸ hentry) haction hgeneration
    · simp [queue] at hentry
  | requeued queue drawn =>
    obtain rfl : _ = entry := Option.some.inj (queue.symm.trans hentry)
    exact absurd (hgeneration ▸ drawn) hold

theorem BackfillBatch.Sound.moves {snapshot : BackfillState}
    {prepared : List (PreparedBackfillRow F)}
    (hbatch : BackfillBatch.Sound schema indexText s snapshot prepared)
    (h : s.Moves schema indexText fresh s') :
    BackfillBatch.Sound schema indexText s' snapshot prepared where
  reached hbelow := hbatch.reached (h.backfill.below hbelow)
  tokens := hbatch.tokens
  below := hbatch.below
  complete := by
    intro hopen hcursor key fields hqueue hrow hbelow hstale
    rcases h.backfill.moved with hstate | hcompleted | ⟨cursor, hreached, hmoved⟩
    · rw [hstate] at hopen hcursor hbelow
      cases h.keys key with
      | kept rows queue content =>
        refine hbatch.complete hopen hcursor (queue ▸ hqueue) (rows ▸ hrow) hbelow fun hcurrent => ?_
        exact hstale ((h.keys key).current hqueue hcurrent)
      | settled _ _ current => exact absurd current hstale
      | requeued queue => simp [queue] at hqueue
    · simp [hcompleted] at hopen
    · -- The cursor only goes down, so it does not come back to where the batch was read.
      refine absurd ?_ (BackfillState.ne_of_below (hbatch.reached hreached))
      rw [← hcursor, hmoved]

end Awayuki.Search
