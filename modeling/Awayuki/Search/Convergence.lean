import Awayuki.Search.Indexer

/-!
# Search index: convergence

Whatever writers and workers do, and in whatever order, the documents are those of the rows once
nothing is queued and the backfill has completed.

* `System.Sound`: the invariant, which links the tables with what the workers hold;
* `step_sound`: every step preserves it;
* `search_index_converges`: what it means for the documents, and for snapshots that are stale.
-/

namespace Awayuki.Search

variable {G : Type} {indexText : List Str → Str} {randomblob : ℕ → G}

/-! ### Transactions as moves -/

variable {prepared : List (PreparedQueueRow G)}

/-- Has `randomblob` given this generation between the two calls? -/
def DrawnIn (randomblob : ℕ → G) (first last : ℕ) (generation : G) : Prop :=
  ∃ n, first ≤ n ∧ n < last ∧ generation = randomblob n

structure Db.Moves (indexText : List Str → Str) (randomblob : ℕ → G) (db db' : Db G) : Prop where
  drawn : db.drawn ≤ db'.drawn
  statuses : db.statuses.Moves statusSchema indexText (DrawnIn randomblob db.drawn db'.drawn)
    db'.statuses
  accounts : db.accounts.Moves accountSchema indexText (DrawnIn randomblob db.drawn db'.drawn)
    db'.accounts

theorem Db.Moves.refl (db : Db G) : db.Moves indexText randomblob db :=
  ⟨le_rfl, .refl _, .refl _⟩

theorem Db.write_moves (db : Db G) (write : Write) :
    db.Moves indexText randomblob (db.write randomblob write) := by
  have hfirst (k : ℕ) : DrawnIn randomblob db.drawn (db.drawn + (k + 1)) (randomblob db.drawn) :=
    ⟨db.drawn, le_rfl, by omega, rfl⟩
  have hsecond : DrawnIn randomblob db.drawn (db.drawn + 2) (randomblob (db.drawn + 1)) :=
    ⟨db.drawn + 1, by omega, by omega, rfl⟩
  cases write with
  | insertStatus key fields now =>
    exact ⟨Nat.le_add_right _ _, Index.insert_moves (hfirst 0), .refl _⟩
  | updateStatus old new fields now =>
    exact ⟨Nat.le_add_right _ _, Index.update_moves (hfirst 1) hsecond, .refl _⟩
  | deleteStatus key now =>
    exact ⟨Nat.le_add_right _ _, Index.delete_moves (hfirst 0), .refl _⟩
  | insertAccount key fields now =>
    exact ⟨Nat.le_add_right _ _, .refl _, Index.insert_moves (hfirst 0)⟩
  | updateAccount old new fields now =>
    exact ⟨Nat.le_add_right _ _, .refl _, Index.update_moves (hfirst 1) hsecond⟩
  | deleteAccount key now =>
    exact ⟨Nat.le_add_right _ _, .refl _, Index.delete_moves (hfirst 0)⟩

namespace Index

variable {F D : Type} {s : Index F D G} {key : Key} {generation : G} {now : Str}

theorem insert_backfill {fields : F} :
    (s.insert key fields generation now).backfill = s.backfill := by
  unfold insert
  split_ifs <;> rfl

theorem delete_backfill : (s.delete key generation now).backfill = s.backfill := by
  unfold delete
  split_ifs <;> rfl

theorem update_backfill [DecidableEq F] {new : Key} {fields : F} {deletion : G} :
    (s.update key new fields deletion generation now).backfill = s.backfill := by
  unfold update updated
  split
  · rfl
  · split_ifs <;> rfl

end Index

theorem Db.write_backfill (db : Db G) (write : Write) :
    (db.write randomblob write).statuses.backfill = db.statuses.backfill ∧
      (db.write randomblob write).accounts.backfill = db.accounts.backfill := by
  cases write with
  | insertStatus => exact ⟨Index.insert_backfill, rfl⟩
  | updateStatus => exact ⟨Index.update_backfill, rfl⟩
  | deleteStatus => exact ⟨Index.delete_backfill, rfl⟩
  | insertAccount => exact ⟨rfl, Index.insert_backfill⟩
  | updateAccount => exact ⟨rfl, Index.update_backfill⟩
  | deleteAccount => exact ⟨rfl, Index.delete_backfill⟩

/-! ### The invariant -/

/-- The generations in a queue have been drawn. -/
def Index.Generations {F D : Type} (randomblob : ℕ → G) (drawn : ℕ) (s : Index F D G) : Prop :=
  ∀ key entry, s.queue.get key = some entry → ∃ n < drawn, entry.generation = randomblob n

structure Db.Sound (indexText : List Str → Str) (randomblob : ℕ → G) (db : Db G) : Prop where
  statuses : db.statuses.Covered statusSchema indexText
  accounts : db.accounts.Covered accountSchema indexText
  statusGenerations : db.statuses.Generations randomblob db.drawn
  accountGenerations : db.accounts.Generations randomblob db.drawn

/-- Rows prepared from a queue, with generations that have been drawn. -/
def QueueBatch.Sound {F D : Type} (schema : Schema F D) (indexText : List Str → Str)
    (randomblob : ℕ → G) (drawn : ℕ) (s : Index F D G) (prepared : List (PreparedQueueRow G)) :
    Prop :=
  ∀ row ∈ prepared, row.Sound schema indexText s ∧ ∃ n < drawn, row.generation = randomblob n

/-- What a worker holds is still good for the tables. -/
def Phase.Sound (indexText : List Str → Str) (randomblob : ℕ → G) (db : Db G) : Phase G → Prop
  | .loadStatusQueue | .loadAccountQueue | .loadAccountState | .loadStatusState => True
  | .commitStatusQueue prepared =>
    QueueBatch.Sound statusSchema indexText randomblob db.drawn db.statuses prepared
  | .commitAccountQueue prepared =>
    QueueBatch.Sound accountSchema indexText randomblob db.drawn db.accounts prepared
  | .loadAccountRows state =>
    ∀ key, db.accounts.backfill.below key = true → state.below key = true
  | .commitAccountBackfill state prepared =>
    BackfillBatch.Sound accountSchema indexText db.accounts state prepared
  | .loadStatusRows state =>
    ∀ key, db.statuses.backfill.below key = true → state.below key = true
  | .commitStatusBackfill state prepared =>
    BackfillBatch.Sound statusSchema indexText db.statuses state prepared

structure System.Sound (indexText : List Str → Str) (randomblob : ℕ → G) (s : System G) : Prop where
  db : s.db.Sound indexText randomblob
  workers : ∀ i, (s.workers i).Sound indexText randomblob s.db

section Moves

variable {F D : Type} {schema : Schema F D} {s s' : Index F D G} {n n' : ℕ} {db db' : Db G}

theorem Index.Generations.moves (hs : s.Generations randomblob n) (hn : n ≤ n')
    (h : s.Moves schema indexText (DrawnIn randomblob n n') s') :
    s'.Generations randomblob n' := by
  have hold {key : Key} {entry : QueueEntry G} (hentry : s.queue.get key = some entry) :
      ∃ m < n', entry.generation = randomblob m := by
    obtain ⟨m, hm, hgeneration⟩ := hs key entry hentry
    exact ⟨m, hm.trans_le hn, hgeneration⟩
  intro key entry hentry
  cases h.keys key with
  | kept _ queue => exact hold (queue ▸ hentry)
  | settled _ queue =>
    rcases queue with queue | queue
    · exact hold (queue ▸ hentry)
    · simp [queue] at hentry
  | requeued queue drawn =>
    obtain rfl : _ = entry := Option.some.inj (queue.symm.trans hentry)
    obtain ⟨m, -, hm, hgeneration⟩ := drawn
    exact ⟨m, hm, hgeneration⟩

/-- What was drawn before is not drawn again. -/
theorem not_drawnIn (hfresh : Function.Injective randomblob) {g : G}
    (hg : ∃ m < n, g = randomblob m) : ¬ DrawnIn randomblob n n' g := by
  rintro ⟨m, hm, -, rfl⟩
  obtain ⟨m', hm', heq⟩ := hg
  have : m = m' := hfresh heq
  omega

theorem QueueBatch.Sound.moves (hfresh : Function.Injective randomblob)
    (hbatch : QueueBatch.Sound schema indexText randomblob n s prepared) (hn : n ≤ n')
    (h : s.Moves schema indexText (DrawnIn randomblob n n') s') :
    QueueBatch.Sound schema indexText randomblob n' s' prepared := by
  intro row hrow
  obtain ⟨hsound, m, hm, hgeneration⟩ := hbatch row hrow
  refine ⟨hsound.moves (h.keys _) (not_drawnIn hfresh ⟨m, hm, hgeneration⟩), m, ?_, hgeneration⟩
  exact hm.trans_le hn

theorem Phase.Sound.moves (hfresh : Function.Injective randomblob) {phase : Phase G}
    (hphase : phase.Sound indexText randomblob db) (h : db.Moves indexText randomblob db') :
    phase.Sound indexText randomblob db' := by
  cases phase with
  | loadStatusQueue => trivial
  | loadAccountQueue => trivial
  | loadAccountState => trivial
  | loadStatusState => trivial
  | commitStatusQueue prepared => exact QueueBatch.Sound.moves hfresh hphase h.drawn h.statuses
  | commitAccountQueue prepared => exact QueueBatch.Sound.moves hfresh hphase h.drawn h.accounts
  | loadAccountRows state => exact fun key hkey => hphase key (h.accounts.backfill.below hkey)
  | loadStatusRows state => exact fun key hkey => hphase key (h.statuses.backfill.below hkey)
  | commitAccountBackfill state prepared => exact BackfillBatch.Sound.moves hphase h.accounts
  | commitStatusBackfill state prepared => exact BackfillBatch.Sound.moves hphase h.statuses

/-- A transaction that keeps the states of the backfills. -/
theorem Db.Sound.moves (hdb : db.Sound indexText randomblob) (h : db.Moves indexText randomblob db')
    (hstate : db'.statuses.backfill = db.statuses.backfill ∧
      db'.accounts.backfill = db.accounts.backfill) : db'.Sound indexText randomblob where
  statuses := hdb.statuses.moves h.statuses hstate.1
  accounts := hdb.accounts.moves h.accounts hstate.2
  statusGenerations := hdb.statusGenerations.moves h.drawn h.statuses
  accountGenerations := hdb.accountGenerations.moves h.drawn h.accounts

end Moves

/-! ### The start -/

variable {db : Db G}

theorem Index.installed_covered {F D : Type} {schema : Schema F D} (rows : OrderedMap Key F) :
    (Index.installed rows : Index F D G).Covered schema indexText where
  deleted h := by simp [Index.installed] at h
  covered {key} _ := by
    cases hrow : rows.get key with
    | none => exact .inl (congrArg (Option.map _) hrow).symm
    | some fields =>
      refine .inr ⟨decide_eq_false ?_, by simp [Index.installed, hrow], rfl⟩
      have hmem := OrderedMap.get_eq_some.1 hrow
      exact (List.length_pos_of_mem hmem).ne'
  posted _ := rfl

theorem Db.Legacy.migrate037 (h : db.Legacy indexText randomblob) :
    db.migrate037.Sound indexText randomblob where
  statuses :=
    { deleted := h.deleted
      covered := by
        intro key hqueue
        cases hrow : db.statuses.rows.get key with
        | none =>
          -- No row, so no document either: the triggers have seen to that.
          refine .inl ?_
          show (db.statuses.content.map _).get key = (db.statuses.rows.get key).map _
          rw [OrderedMap.get_map, hrow]
          cases hdoc : db.statuses.content.get key with
          | none => rfl
          | some doc =>
            have hsome := h.documents hqueue hdoc
            simp [hrow] at hsome
        | some fields =>
          refine .inr ⟨decide_eq_false ?_, ?_, rfl⟩
          · rw [h.counter]
            exact (List.length_pos_of_mem (OrderedMap.get_eq_some.1 hrow)).ne'
          · show (db.statuses.rows.get key).isSome = true
            simp [hrow]
      posted := by
        intro key
        show OrderedMap.empty.get key = ((db.statuses.content.map _).get key).bind _
        rw [OrderedMap.get_map]
        cases db.statuses.content.get key <;> rfl }
  accounts := h.accounts
  statusGenerations _ _ := h.statusGenerations
  accountGenerations _ _ := h.accountGenerations

theorem Db.Migrated.sound (h : db.Migrated indexText randomblob) :
    db.Sound indexText randomblob := by
  cases h with
  | installed statuses accounts =>
    refine ⟨Index.installed_covered statuses, Index.installed_covered accounts, ?_, ?_⟩
    · intro key entry hentry
      simp [Db.installed, Index.installed] at hentry
    · intro key entry hentry
      simp [Db.installed, Index.installed] at hentry
  | upgraded legacy => exact legacy.migrate037

theorem System.Start.sound {s : System G} (h : s.Start indexText randomblob) : s.Sound indexText randomblob where
  db := h.db.sound
  workers i := by
    rw [h.workers i]
    trivial

/-! ### What a worker does -/

theorem Index.queue_of_not_hasWork {F D : Type} {s : Index F D G} (h : ¬ s.hasWork = true)
    (key : Key) : s.queue.get key = none := by
  have hnil : s.queue.entries = [] := by
    simpa only [Index.hasWork, Bool.not_eq_true', Bool.not_eq_false, List.isEmpty_iff] using h
  refine Option.eq_none_iff_forall_ne_some.2 fun entry hentry => ?_
  have hmem := OrderedMap.get_eq_some.1 hentry
  simp [hnil] at hmem

/-- A batch that has just been read from a queue. -/
theorem QueueBatch.sound_loaded {F D : Type} {schema : Schema F D} {s : Index F D G} {n : ℕ}
    (hs : s.Covered schema indexText) (hgenerations : s.Generations randomblob n) :
    QueueBatch.Sound schema indexText randomblob n s
      (s.loadQueueBatch.map (prepareQueueRow schema indexText)) := by
  intro row hrow
  obtain ⟨row, hload, rfl⟩ := List.mem_map.1 hrow
  obtain ⟨entry, hentry, hgeneration⟩ := Index.prepared_generation schema indexText hload
  refine ⟨hs.loadQueueBatch hload, ?_⟩
  obtain ⟨m, hm, heq⟩ := hgenerations _ entry hentry
  exact ⟨m, hm, hgeneration.trans heq⟩

theorem Db.commitAccountBackfill_sound (hdb : db.Sound indexText randomblob)
    {state : BackfillState} {prepared : List (PreparedBackfillRow AccountFields)}
    (h : BackfillBatch.Sound accountSchema indexText db.accounts state prepared) :
    db.Moves indexText randomblob (db.commitPreparedAccountBackfill state prepared) ∧
      (db.commitPreparedAccountBackfill state prepared).Sound indexText randomblob := by
  unfold commitPreparedAccountBackfill
  split_ifs with hwork
  · exact ⟨.refl db, hdb⟩
  · rw [Bool.or_eq_true, not_or] at hwork
    have hmoves : db.accounts.Moves accountSchema indexText (DrawnIn randomblob db.drawn db.drawn)
        (db.accounts.commitPreparedBackfill accountSchema state prepared) :=
      (Index.commitPreparedBackfill_moves h).mono
    refine ⟨⟨le_rfl, .refl _, hmoves⟩, hdb.statuses, ?_, hdb.statusGenerations, ?_⟩
    · exact hdb.accounts.commitPreparedBackfill (Index.queue_of_not_hasWork hwork.2) h
    · exact hdb.accountGenerations.moves le_rfl hmoves

theorem Db.commitStatusBackfill_sound (hdb : db.Sound indexText randomblob)
    {state : BackfillState} {prepared : List (PreparedBackfillRow StatusFields)}
    (h : BackfillBatch.Sound statusSchema indexText db.statuses state prepared) :
    db.Moves indexText randomblob (db.commitPreparedStatusBackfill state prepared) ∧
      (db.commitPreparedStatusBackfill state prepared).Sound indexText randomblob := by
  unfold commitPreparedStatusBackfill
  split_ifs with hwork
  · exact ⟨.refl db, hdb⟩
  · rw [Bool.or_eq_true, Bool.or_eq_true, not_or, not_or] at hwork
    have hmoves : db.statuses.Moves statusSchema indexText (DrawnIn randomblob db.drawn db.drawn)
        (db.statuses.commitPreparedBackfill statusSchema state prepared) :=
      (Index.commitPreparedBackfill_moves h).mono
    refine ⟨⟨le_rfl, hmoves, .refl _⟩, ?_, hdb.accounts, ?_, hdb.accountGenerations⟩
    · exact hdb.statuses.commitPreparedBackfill (Index.queue_of_not_hasWork hwork.1.1) h
    · exact hdb.statusGenerations.moves le_rfl hmoves

/-- A key that is neither queued nor pending has its document and its postings. -/
theorem Index.Covered.current {F D : Type} {schema : Schema F D} {a : Index F D G}
    (ha : a.Covered schema indexText) (hqueue : ¬ a.hasWork = true)
    (hcompleted : a.backfill.completed = true) (key : Key) :
    a.Current schema indexText key := by
  rcases ha.covered (a.queue_of_not_hasWork hqueue key) with hcurrent | ⟨hopen, -⟩
  · exact hcurrent
  · simp [hcompleted] at hopen

section Work

variable [DecidableEq G]

/-- Applying a batch from the queue of the statuses. -/
theorem Db.commitStatusQueue_sound (hdb : db.Sound indexText randomblob)
    (h : QueueBatch.Sound statusSchema indexText randomblob db.drawn db.statuses prepared) :
    let db' := { db with statuses := db.statuses.commitPreparedQueue statusSchema prepared }
    db.Moves indexText randomblob db' ∧ db'.Sound indexText randomblob := by
  have hmoves : db.Moves indexText randomblob
      { db with statuses := db.statuses.commitPreparedQueue statusSchema prepared } :=
    ⟨le_rfl, (Index.commitPreparedQueue_moves fun row hrow => (h row hrow).1).mono, .refl _⟩
  exact ⟨hmoves, hdb.moves hmoves ⟨Index.commitPreparedQueue_backfill, rfl⟩⟩

theorem Db.commitAccountQueue_sound (hdb : db.Sound indexText randomblob)
    (h : QueueBatch.Sound accountSchema indexText randomblob db.drawn db.accounts prepared) :
    db.Moves indexText randomblob (db.commitPreparedAccountQueue prepared) ∧
      (db.commitPreparedAccountQueue prepared).Sound indexText randomblob := by
  unfold commitPreparedAccountQueue
  split_ifs
  · exact ⟨.refl db, hdb⟩
  · have hmoves : db.Moves indexText randomblob
        { db with accounts := db.accounts.commitPreparedQueue accountSchema prepared } :=
      ⟨le_rfl, .refl _, (Index.commitPreparedQueue_moves fun row hrow => (h row hrow).1).mono⟩
    exact ⟨hmoves, hdb.moves hmoves ⟨rfl, Index.commitPreparedQueue_backfill⟩⟩

/-- The next transaction of a worker, whichever it is. -/
theorem Db.work_sound (hdb : db.Sound indexText randomblob) {phase : Phase G}
    (hphase : phase.Sound indexText randomblob db) :
    db.Moves indexText randomblob (db.work indexText phase).1 ∧
      (db.work indexText phase).1.Sound indexText randomblob ∧
      (db.work indexText phase).2.Sound indexText randomblob (db.work indexText phase).1 := by
  cases phase with
  | loadStatusQueue =>
    have hload := QueueBatch.sound_loaded hdb.statuses hdb.statusGenerations
    cases hqueue : db.statuses.loadQueueBatch with
    | nil =>
      have hwork : db.work indexText .loadStatusQueue = (db, .loadAccountQueue) := by
        simp only [work, hqueue]
      rw [hwork]
      exact ⟨.refl db, hdb, trivial⟩
    | cons row rows =>
      have hwork : db.work indexText .loadStatusQueue = (db, .commitStatusQueue
          ((row :: rows).map (prepareQueueRow statusSchema indexText))) := by
        simp only [work, hqueue]
      rw [hwork]
      exact ⟨.refl db, hdb, hqueue ▸ hload⟩
  | commitStatusQueue prepared =>
    obtain ⟨hmoves, hsound⟩ := commitStatusQueue_sound hdb hphase
    exact ⟨hmoves, hsound, trivial⟩
  | loadAccountQueue =>
    have hload := QueueBatch.sound_loaded hdb.accounts hdb.accountGenerations
    cases hqueue : db.accounts.loadQueueBatch with
    | nil =>
      have hwork : db.work indexText .loadAccountQueue = (db, .loadAccountState) := by
        simp only [work, hqueue]
      rw [hwork]
      exact ⟨.refl db, hdb, trivial⟩
    | cons row rows =>
      have hwork : db.work indexText .loadAccountQueue = (db, .commitAccountQueue
          ((row :: rows).map (prepareQueueRow accountSchema indexText))) := by
        simp only [work, hqueue]
      rw [hwork]
      exact ⟨.refl db, hdb, hqueue ▸ hload⟩
  | commitAccountQueue prepared =>
    obtain ⟨hmoves, hsound⟩ := commitAccountQueue_sound hdb hphase
    exact ⟨hmoves, hsound, trivial⟩
  | loadAccountState =>
    have hwork : db.work indexText .loadAccountState = if db.accounts.backfill.completed then
      (db, .loadStatusState) else (db, .loadAccountRows db.accounts.backfill) := rfl
    rw [hwork]
    split_ifs
    · exact ⟨.refl db, hdb, trivial⟩
    · exact ⟨.refl db, hdb, fun _ => id⟩
  | loadAccountRows state =>
    exact ⟨.refl db, hdb, Index.loadBackfillBatch_sound (hphase _)⟩
  | commitAccountBackfill state prepared =>
    obtain ⟨hmoves, hsound⟩ := commitAccountBackfill_sound hdb hphase
    exact ⟨hmoves, hsound, trivial⟩
  | loadStatusState =>
    have hwork : db.work indexText .loadStatusState = if db.statuses.backfill.completed then
      (db, .loadStatusQueue) else (db, .loadStatusRows db.statuses.backfill) := rfl
    rw [hwork]
    split_ifs
    · exact ⟨.refl db, hdb, trivial⟩
    · exact ⟨.refl db, hdb, fun _ => id⟩
  | loadStatusRows state =>
    exact ⟨.refl db, hdb, Index.loadBackfillBatch_sound (hphase _)⟩
  | commitStatusBackfill state prepared =>
    obtain ⟨hmoves, hsound⟩ := commitStatusBackfill_sound hdb hphase
    exact ⟨hmoves, hsound, trivial⟩

variable {s t : System G} {events : List Event} {i : ℕ} {key : Key}

theorem step_work (s : System G) (i : ℕ) : step indexText randomblob s (.work i) =
    ⟨(s.db.work indexText (s.workers i)).1,
      Function.update s.workers i (s.db.work indexText (s.workers i)).2⟩ := rfl

theorem step_moves (hs : s.Sound indexText randomblob) (event : Event) :
    s.db.Moves indexText randomblob (step indexText randomblob s event).db := by
  cases event with
  | write write => exact s.db.write_moves write
  | work i => exact (s.db.work_sound hs.db (hs.workers i)).1
  | abandon i => exact .refl _

theorem step_sound (hfresh : Function.Injective randomblob) (hs : s.Sound indexText randomblob)
    (event : Event) :
    (step indexText randomblob s event).Sound indexText randomblob := by
  have hmoves : s.db.Moves indexText randomblob (step indexText randomblob s event).db :=
    step_moves hs event
  cases event with
  | write write =>
    refine ⟨hs.db.moves hmoves (s.db.write_backfill write), fun j => ?_⟩
    exact (hs.workers j).moves hfresh hmoves
  | work i =>
    obtain ⟨-, hdb, hphase⟩ := s.db.work_sound hs.db (hs.workers i)
    refine ⟨hdb, fun j => ?_⟩
    rw [step_work]
    by_cases hj : j = i
    · subst hj
      show (Function.update s.workers j _ j).Sound _ _ _
      rw [Function.update_self]
      exact hphase
    · show (Function.update s.workers i _ j).Sound _ _ _
      rw [Function.update_of_ne hj]
      exact (hs.workers j).moves hfresh hmoves
  | abandon i =>
    refine ⟨hs.db, fun j => ?_⟩
    show (Function.update s.workers i _ j).Sound _ _ _
    by_cases hj : j = i
    · subst hj
      rw [Function.update_self]
      trivial
    · rw [Function.update_of_ne hj]
      exact hs.workers j

theorem run_sound (hfresh : Function.Injective randomblob) (hs : s.Sound indexText randomblob)
    (hrun : Run indexText randomblob s events t) : t.Sound indexText randomblob := by
  refine hrun.invariant hs fun {v event w} hv hstep => ?_
  rw [← hstep]
  exact step_sound hfresh hv event

/-! ### Stale snapshots -/

theorem run_workers (hrun : Run indexText randomblob s events t)
    (hother : ∀ event ∈ events, ¬ event.isOf i) : t.workers i = s.workers i := by
  induction hrun with
  | nil => rfl
  | @snoc v w events event run last ih =>
    have hkept : (step indexText randomblob v event).workers i = v.workers i := by
      have hevent : ¬ event.isOf i := hother event (by simp)
      cases event with
      | write write => rfl
      | work j => exact Function.update_of_ne (fun h => hevent h.symm) _ _
      | abandon j => exact Function.update_of_ne (fun h => hevent h.symm) _ _
    rw [← last, hkept]
    exact ih fun event' hmem => hother event' (List.mem_append_left _ hmem)

theorem run_drawn (hfresh : Function.Injective randomblob) (hs : s.Sound indexText randomblob)
    (hrun : Run indexText randomblob s events t) : s.db.drawn ≤ t.db.drawn := by
  have hinv : t.Sound indexText randomblob ∧ s.db.drawn ≤ t.db.drawn := by
    refine hrun.invariant (I := fun v => v.Sound indexText randomblob ∧ s.db.drawn ≤ v.db.drawn)
      ⟨hs, le_rfl⟩ fun {v event w} hv hstep => ?_
    rw [← hstep]
    exact ⟨step_sound hfresh hv.1 event, hv.2.trans (step_moves hv.1 event).drawn⟩
  exact hinv.2

namespace Index

variable {F D : Type} {schema : Schema F D} {a b : Index F D G} {n n' n'' : ℕ}

/-- If the key is queued, it was queued after so many generations had been drawn. -/
def QueuedSince (randomblob : ℕ → G) (n : ℕ) (a : Index F D G) (key : Key) : Prop :=
  ∀ entry, a.queue.get key = some entry → ∃ m, n ≤ m ∧ entry.generation = randomblob m

omit [DecidableEq G] in
/-- A change of its row queues the key anew. -/
theorem Moves.queuedSince (h : a.Moves schema indexText (DrawnIn randomblob n n') b)
    (hrow : b.rows.get key ≠ a.rows.get key) : b.QueuedSince randomblob n key := by
  intro entry hentry
  cases h.keys key with
  | kept rows => exact absurd rows hrow
  | settled rows => exact absurd rows hrow
  | requeued queue drawn =>
    obtain rfl : _ = entry := Option.some.inj (queue.symm.trans hentry)
    obtain ⟨m, hm, -, hgeneration⟩ := drawn
    exact ⟨m, hm, hgeneration⟩

omit [DecidableEq G] in
theorem QueuedSince.moves (ha : a.QueuedSince randomblob n key)
    (h : a.Moves schema indexText (DrawnIn randomblob n' n'') b) (hn : n ≤ n') :
    b.QueuedSince randomblob n key := by
  intro entry hentry
  cases h.keys key with
  | kept _ queue => exact ha entry (queue ▸ hentry)
  | settled _ queue =>
    rcases queue with queue | queue
    · exact ha entry (queue ▸ hentry)
    · simp [queue] at hentry
  | requeued queue drawn =>
    obtain rfl : _ = entry := Option.some.inj (queue.symm.trans hentry)
    obtain ⟨m, hm, -, hgeneration⟩ := drawn
    exact ⟨m, hn.trans hm, hgeneration⟩

/-- A batch with generations from before leaves the key alone. -/
theorem QueuedSince.commitPreparedQueue [DecidableEq D] (hfresh : Function.Injective randomblob)
    (ha : a.QueuedSince randomblob n key)
    (hprepared : ∀ row ∈ prepared, ∃ m < n, row.generation = randomblob m) :
    (a.commitPreparedQueue schema prepared).content.get key = a.content.get key ∧
      (a.commitPreparedQueue schema prepared).queue.get key = a.queue.get key := by
  refine commitPreparedQueue_of_stale fun row hrow hkey hcurrent => ?_
  obtain ⟨entry, hentry, -, hgeneration⟩ := stillCurrent_iff.1 hcurrent
  obtain ⟨m, hm, hold⟩ := hprepared row hrow
  obtain ⟨m', hm', hnew⟩ := ha entry (hkey ▸ hentry)
  have : m' = m := hfresh (hnew.symm.trans (hgeneration.trans hold))
  omega

end Index

/-- Since it was queued after these draws, it stays so. -/
theorem run_queuedSince (hfresh : Function.Injective randomblob)
    (hs : s.Sound indexText randomblob) {n : ℕ} (hn : n ≤ s.db.drawn)
    (hrun : Run indexText randomblob s events t) (key : Key) :
    (s.db.statuses.QueuedSince randomblob n key → t.db.statuses.QueuedSince randomblob n key) ∧
      (s.db.accounts.QueuedSince randomblob n key →
        t.db.accounts.QueuedSince randomblob n key) := by
  let Inv (v : System G) : Prop := (v.Sound indexText randomblob ∧ n ≤ v.db.drawn) ∧
    (s.db.statuses.QueuedSince randomblob n key → v.db.statuses.QueuedSince randomblob n key) ∧
    (s.db.accounts.QueuedSince randomblob n key → v.db.accounts.QueuedSince randomblob n key)
  have hinv : Inv t := by
    refine hrun.invariant ⟨⟨hs, hn⟩, id, id⟩ fun {v event w} hv hstep => ?_
    obtain ⟨⟨hv, hdrawn⟩, hstatuses, haccounts⟩ := hv
    have hmoves : v.db.Moves indexText randomblob (step indexText randomblob v event).db :=
      step_moves hv event
    rw [← hstep]
    refine ⟨⟨step_sound hfresh hv event, hdrawn.trans hmoves.drawn⟩, ?_, ?_⟩
    · exact fun h => (hstatuses h).moves hmoves.statuses hdrawn
    · exact fun h => (haccounts h).moves hmoves.accounts hdrawn
  exact hinv.2

/-! ### The results -/

/-- Every row has the document of its fields, every document a row, and the full-text tables have
the tokens of the documents. -/
def Db.Converged (indexText : List Str → Str) (db : Db G) : Prop :=
  ∀ key,
    db.statuses.content.get key = (db.statuses.rows.get key).map (fun row =>
      ⟨indexText [row.content, row.spoilerText], statusTextScopeVersion⟩) ∧
    db.statuses.postings.get key = (db.statuses.rows.get key).map (fun row =>
      indexText [row.content, row.spoilerText]) ∧
    db.accounts.content.get key = (db.accounts.rows.get key).map (fun row =>
      indexText [row.acct, row.displayName]) ∧
    db.accounts.postings.get key = (db.accounts.rows.get key).map (fun row =>
      indexText [row.acct, row.displayName])

omit [DecidableEq G] in
theorem Db.Sound.converged (hdb : db.Sound indexText randomblob)
    (hstatuses : ¬ db.statuses.hasWork = true) (haccounts : ¬ db.accounts.hasWork = true)
    (hcompleted : db.statuses.backfill.completed = true ∧
      db.accounts.backfill.completed = true) : db.Converged indexText := by
  intro key
  have hstatus := hdb.statuses.current hstatuses hcompleted.1 key
  have haccount := hdb.accounts.current haccounts hcompleted.2 key
  refine ⟨hstatus, ?_, haccount, ?_⟩
  · rw [hdb.statuses.posted, hstatus]
    cases db.statuses.rows.get key <;> rfl
  · rw [hdb.accounts.posted, haccount]
    cases db.accounts.rows.get key <;> rfl

/-- Once nothing is queued and the backfills have completed, the documents are those of the rows;
and a worker that comes to apply what it read before a change of a row leaves the document and the
queue entry of that row as they are, from the queue and from the backfill. -/
theorem search_index_converges (indexText : List Str → Str) {randomblob : ℕ → G}
    (hfresh : Function.Injective randomblob) {start : System G}
    (hstart : start.Start indexText randomblob) :
    (∀ events s, Run indexText randomblob start events s →
      s.db.statuses.hasWork = false → s.db.accounts.hasWork = false →
      s.db.statuses.backfill.completed = true → s.db.accounts.backfill.completed = true →
      s.db.Converged indexText) ∧
    (∀ i before during change after r u s, Run indexText randomblob start before r →
      Run indexText randomblob (step indexText randomblob r (.work i)) during u →
      Run indexText randomblob (step indexText randomblob u change) after s →
      (∀ event ∈ during ++ change :: after, ¬ event.isOf i) →
      ∀ prepared key,
        (s.workers i = .commitStatusQueue prepared →
          (step indexText randomblob u change).db.statuses.rows.get key ≠
            u.db.statuses.rows.get key →
          (step indexText randomblob s (.work i)).db.statuses.content.get key =
              s.db.statuses.content.get key ∧
            (step indexText randomblob s (.work i)).db.statuses.queue.get key =
              s.db.statuses.queue.get key) ∧
        (s.workers i = .commitAccountQueue prepared →
          (step indexText randomblob u change).db.accounts.rows.get key ≠
            u.db.accounts.rows.get key →
          (step indexText randomblob s (.work i)).db.accounts.content.get key =
              s.db.accounts.content.get key ∧
            (step indexText randomblob s (.work i)).db.accounts.queue.get key =
              s.db.accounts.queue.get key)) ∧
    ∀ (s : System G) i state key,
      (∀ prepared, s.workers i = .commitStatusBackfill state prepared →
        (∀ row ∈ prepared, row.key = key → s.db.statuses.rows.get key ≠ some row.fields) →
        (step indexText randomblob s (.work i)).db.statuses.content.get key =
            s.db.statuses.content.get key ∧
          (step indexText randomblob s (.work i)).db.statuses.queue = s.db.statuses.queue) ∧
      (∀ prepared, s.workers i = .commitAccountBackfill state prepared →
        (∀ row ∈ prepared, row.key = key → s.db.accounts.rows.get key ≠ some row.fields) →
        (step indexText randomblob s (.work i)).db.accounts.content.get key =
            s.db.accounts.content.get key ∧
          (step indexText randomblob s (.work i)).db.accounts.queue = s.db.accounts.queue) := by
  refine ⟨fun events s hrun hstatuses haccounts hstatus haccount => ?_, ?_, ?_⟩
  · have hs := run_sound hfresh hstart.sound hrun
    exact hs.db.converged (by simp [hstatuses]) (by simp [haccounts]) ⟨hstatus, haccount⟩
  · intro i before during change after r u s hbefore hduring hafter hother prepared key
    have hread := step_sound hfresh (run_sound hfresh hstart.sound hbefore) (.work i)
    have hu := run_sound hfresh hread hduring
    have hchanged := step_sound hfresh hu change
    have hmoves := step_moves hu change
    -- The worker still has what it had read, with generations from before the change.
    have hkept : s.workers i = (step indexText randomblob r (.work i)).workers i := by
      have hchange : (step indexText randomblob u change).workers i = u.workers i :=
        run_workers (.snoc (.nil u) rfl) fun event hevent => hother event (by simp_all)
      rw [run_workers hafter fun event hevent => hother event (by simp [hevent]), hchange]
      exact run_workers hduring fun event hevent => hother event (by simp [hevent])
    have hphase := hread.workers i
    rw [← hkept] at hphase
    have hdrawn := run_drawn hfresh hread hduring
    have hqueued := run_queuedSince hfresh hchanged hmoves.drawn hafter key
    have hold {batch : List (PreparedQueueRow G)}
        (h : ∀ row ∈ batch, ∃ n < (step indexText randomblob r (.work i)).db.drawn,
          row.generation = randomblob n) :
        ∀ row ∈ batch, ∃ n < u.db.drawn, row.generation = randomblob n := by
      intro row hrow
      obtain ⟨n, hn, heq⟩ := h row hrow
      exact ⟨n, hn.trans_le hdrawn, heq⟩
    refine ⟨fun hworker hrow => ?_, fun hworker hrow => ?_⟩
    · rw [hworker] at hphase
      rw [step_work, hworker]
      have hsince := hqueued.1 (hmoves.statuses.queuedSince hrow)
      exact hsince.commitPreparedQueue hfresh (hold fun row hmem => (hphase row hmem).2)
    · rw [hworker] at hphase
      rw [step_work, hworker]
      have hsince := hqueued.2 (hmoves.accounts.queuedSince hrow)
      show (s.db.commitPreparedAccountQueue prepared).accounts.content.get key = _ ∧
        (s.db.commitPreparedAccountQueue prepared).accounts.queue.get key = _
      unfold Db.commitPreparedAccountQueue
      split_ifs
      · exact ⟨rfl, rfl⟩
      · exact hsince.commitPreparedQueue hfresh (hold fun row hmem => (hphase row hmem).2)
  · intro s i state key
    refine ⟨fun prepared hworker hstale => ?_, fun prepared hworker hstale => ?_⟩
    · rw [step_work, hworker]
      show (s.db.commitPreparedStatusBackfill state prepared).statuses.content.get key = _ ∧
        (s.db.commitPreparedStatusBackfill state prepared).statuses.queue = _
      unfold Db.commitPreparedStatusBackfill
      split_ifs
      · exact ⟨rfl, rfl⟩
      · exact Index.commitPreparedBackfill_of_stale hstale
    · rw [step_work, hworker]
      show (s.db.commitPreparedAccountBackfill state prepared).accounts.content.get key = _ ∧
        (s.db.commitPreparedAccountBackfill state prepared).accounts.queue = _
      unfold Db.commitPreparedAccountBackfill
      split_ifs
      · exact ⟨rfl, rfl⟩
      · exact Index.commitPreparedBackfill_of_stale hstale

end Work

/-- A database without rows, and no worker that has begun. -/
def emptyStart : System ℕ := ⟨.installed .empty .empty, fun _ => .loadStatusQueue⟩

/-- A status is written, read from the queue and indexed. -/
def sampleEvents : List Event :=
  [.write (.insertStatus (toLex ("1", "a.example")) ⟨"fish", ""⟩ "2026-01-01T00:00:00.000Z"),
    .work 0, .work 0]

theorem search_index_converges_sampleEvents :
    (sampleEvents.foldl (step List.flatten id) emptyStart).db.Converged List.flatten := by
  have hstart : emptyStart.Start List.flatten id := ⟨.installed .empty .empty, fun _ => rfl⟩
  have hrun : Run List.flatten id emptyStart sampleEvents
      (sampleEvents.foldl (step List.flatten id) emptyStart) :=
    Runs.run_cons.2 ⟨_, rfl, Runs.run_cons.2 ⟨_, rfl, Runs.run_cons.2 ⟨_, rfl, .nil _⟩⟩⟩
  exact (search_index_converges List.flatten Function.injective_id hstart).1 sampleEvents _ hrun
    (by decide +kernel) (by decide +kernel) (by decide +kernel) (by decide +kernel)

end Awayuki.Search
