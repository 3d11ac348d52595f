import Awayuki.Library.Listing
import Awayuki.Outbox.Delivery

/-!
# Compose outbox: the recovery at startup

`recover_interrupted` stops the rows that the last process was sending, and
`recover_idempotent_interrupted_items` puts them back into the queue, if their provider recognises
repeated posts.  It finds them in the listing of the outbox, which has a hundred rows.

* `Table.mem_list_iff`: which rows are listed;
* `rows_recover`: what the recovery makes of each row;
* `RecoversAll`: every interrupted row of an idempotent provider is queued again, and no other is.
-/

namespace Awayuki.Outbox

open Table

/-! ### The listing -/

/-- Does the first row stand before the second in the listing? -/
def listedBefore (a b : ComposeOutboxRow) : Bool :=
  listRank a.state < listRank b.state || listRank a.state == listRank b.state &&
    (b.createdAt < a.createdAt || a.createdAt == b.createdAt && a.rowid < b.rowid)

theorem listedBefore_asymm {a b : ComposeOutboxRow} (h : listedBefore a b = true) :
    listedBefore b a = false := by
  simp only [listedBefore, Bool.or_eq_true, Bool.and_eq_true, decide_eq_true_eq, beq_iff_eq,
    Bool.or_eq_false_iff, Bool.and_eq_false_iff, decide_eq_false_iff_not, beq_eq_false_iff_ne] at h ⊢
  rcases h with hrank | ⟨hrank, hcreated | ⟨hcreated, hrowid⟩⟩
  · exact ⟨by omega, .inl (by omega)⟩
  · exact ⟨by omega, .inr ⟨hcreated.not_gt, .inl hcreated.ne⟩⟩
  · exact ⟨by omega, .inr ⟨by rw [hcreated]; exact lt_irrefl _, .inr (by omega)⟩⟩

/-- The listing has the rows with fewer than a hundred rows before them. -/
theorem Table.mem_list_iff {t : Table} {row : ComposeOutboxRow} (hrow : row ∈ t.rows) :
    row ∈ t.list ↔ t.rows.countP (listedBefore · row) < 100 := by
  refine Listing.mem_take_mergeSort listedBefore (fun a b c => ?_) (fun a b => ?_) t.rowids
    (fun a => Nat.lt_irrefl _) (fun a b hle hties => ?_) (fun a b => listedBefore_asymm) hrow 100
  · simp only [Bool.or_eq_true, Bool.and_eq_true, decide_eq_true_eq, beq_iff_eq]
    rintro (hab | ⟨hab, hcreated⟩) (hbc | ⟨hbc, hcreated'⟩)
    · exact .inl (hab.trans hbc)
    · exact .inl (hbc ▸ hab)
    · exact .inl (hab.symm ▸ hbc)
    · exact .inr ⟨hab.trans hbc, hcreated'.trans hcreated⟩
  · simp only [Bool.or_eq_true, Bool.and_eq_true, decide_eq_true_eq, beq_iff_eq]
    rcases lt_trichotomy (listRank a.state) (listRank b.state) with hlt | heq | hlt
    · exact .inl (.inl hlt)
    · rcases le_total b.createdAt a.createdAt with hle | hle
      · exact .inl (.inr ⟨heq, hle⟩)
      · exact .inr (.inr ⟨heq.symm, hle⟩)
    · exact .inr (.inl hlt)
  · simp only [listedBefore, Bool.or_eq_true, Bool.and_eq_true, decide_eq_true_eq,
      beq_iff_eq] at hle hties ⊢
    rcases hle with hlt | ⟨heq, hle⟩
    · exact .inl hlt
    · refine .inr ⟨heq, ?_⟩
      rcases hle.lt_or_eq with hlt | hsame
      · exact .inl hlt
      · exact .inr ⟨hsame.symm, hties (.inr ⟨heq.symm, hsame.ge⟩)⟩

/-! ### What the recovery does to each row -/

section Recover

variable (retryIsSafe : Str → Bool) (now : Str)

/-- A resumed row, or one that is left as it is. -/
def resumed (rows : List ComposeOutboxRow) (row : ComposeOutboxRow) : ComposeOutboxRow :=
  if row ∈ rows ∧ retryIsSafe row.actingAccountAcct = true then (requeue now).apply row else row

theorem rows_retry {t : Table} {row : ComposeOutboxRow} (hrow : row ∈ t.rows)
    (hstate : row.state.retryable = true) :
    (t.retry row.id now).2.rows =
      t.rows.map fun r => if r = row then (requeue now).apply r else r := by
  have hchanged := changed_ne_zero hrow (selectId_iff.2 ⟨rfl, hstate⟩)
  rw [Table.retry, updateIn, if_neg hchanged]
  refine List.map_congr_left fun r hr => if_congr ?_ rfl rfl
  rw [selectId_iff]
  constructor
  · exact fun h => t.id_inj hr hrow h.1
  · rintro rfl
    exact ⟨rfl, hstate⟩

theorem rows_resume {t : Table} {row : ComposeOutboxRow} (hrow : row ∈ t.rows)
    (hstate : row.state.retryable = true) :
    (resume retryIsSafe now t row).rows = t.rows.map (resumed retryIsSafe now [row]) := by
  unfold resume
  split_ifs with hsafe
  · rw [rows_retry now hrow hstate]
    refine List.map_congr_left fun r _ => if_congr ?_ rfl rfl
    rw [List.mem_singleton]
    exact ⟨fun h => ⟨h, h ▸ hsafe⟩, And.left⟩
  · refine (List.map_id _).symm.trans (List.map_congr_left fun r _ => (if_neg ?_).symm)
    rintro ⟨hr, hr'⟩
    exact hsafe (List.mem_singleton.1 hr ▸ hr')

/-- The loop over the listed rows resumes each of them that it may. -/
theorem rows_foldl_resume (rows : List ComposeOutboxRow) {t : Table} (hrows : rows ⊆ t.rows)
    (hnodup : rows.Nodup) (hstate : ∀ row ∈ rows, row.state.retryable = true) :
    (rows.foldl (resume retryIsSafe now) t).rows = t.rows.map (resumed retryIsSafe now rows) := by
  induction rows generalizing t with
  | nil => exact (List.map_id _).symm.trans (List.map_congr_left fun r _ => (if_neg (by simp)).symm)
  | cons row rows ih =>
    obtain ⟨hnew, hnodup⟩ := List.nodup_cons.1 hnodup
    obtain ⟨hrow, hsub⟩ := List.cons_subset.1 hrows
    have hfirst := rows_resume retryIsSafe now hrow (hstate row List.mem_cons_self)
    have hsub' : rows ⊆ (resume retryIsSafe now t row).rows := by
      intro r hr
      rw [hfirst]
      refine List.mem_map.2 ⟨r, hsub hr, if_neg ?_⟩
      rintro ⟨hmem, -⟩
      exact hnew (List.mem_singleton.1 hmem ▸ hr)
    rw [List.foldl_cons, ih hsub' hnodup fun r hr => hstate r (List.mem_cons_of_mem _ hr), hfirst,
      List.map_map]
    refine List.map_congr_left fun r _ => ?_
    rw [Function.comp_apply]
    by_cases hr : r = row ∧ retryIsSafe r.actingAccountAcct = true
    · -- a row that is queued is not resumed once more
      have hone : resumed retryIsSafe now [row] r = (requeue now).apply r :=
        if_pos ⟨List.mem_singleton.2 hr.1, hr.2⟩
      have hqueued : (requeue now).apply r ∉ rows := fun hmem =>
        absurd (hstate _ (List.mem_cons_of_mem _ hmem)) Bool.false_ne_true
      rw [hone, resumed, if_neg fun h => hqueued h.1, resumed,
        if_pos ⟨hr.1 ▸ List.mem_cons_self, hr.2⟩]
    · have hone : resumed retryIsSafe now [row] r = r :=
        if_neg fun h => hr ⟨List.mem_singleton.1 h.1, h.2⟩
      rw [hone]
      refine if_congr ?_ rfl rfl
      rw [List.mem_cons]
      exact ⟨fun h => ⟨.inr h.1, h.2⟩, fun h => ⟨h.1.resolve_left fun heq => hr ⟨heq, h.2⟩, h.2⟩⟩

theorem rows_recover (t : Table) :
    (recoverIdempotentInterruptedItems retryIsSafe now t).rows =
      t.rows.map (resumed retryIsSafe now (t.list.filter recoverable)) := by
  refine rows_foldl_resume retryIsSafe now _ (fun r hr => mem_of_mem_list (List.mem_filter.1 hr).1)
    ?_ fun r hr => ?_
  · have hnodup : t.rows.Nodup := t.rowids.imp fun hlt hsame =>
      Nat.ne_of_lt hlt (congrArg ComposeOutboxRow.rowid hsame)
    exact (((List.mergeSort_perm _ _).nodup_iff.2 hnodup).sublist (List.take_sublist _ _)).filter _
  · obtain ⟨-, hrecoverable⟩ := List.mem_filter.1 hr
    have hstate := (Bool.and_eq_true_iff.1 hrecoverable).1
    rw [beq_iff_eq] at hstate
    rw [hstate]
    rfl

end Recover

/-! ### The restart -/

/-- `recover_interrupted`, as it changes one row. -/
def stopped (now : Str) (row : ComposeOutboxRow) : ComposeOutboxRow :=
  if row.state == .sending then (interrupt now).apply row else row

@[simp] theorem stopped_id (now : Str) (row : ComposeOutboxRow) :
    (stopped now row).id = row.id := by
  unfold stopped
  split_ifs <;> rfl

@[simp] theorem stopped_actingAccountAcct (now : Str) (row : ComposeOutboxRow) :
    (stopped now row).actingAccountAcct = row.actingAccountAcct := by
  unfold stopped
  split_ifs <;> rfl

/-- Does the first row stand before the second once the rows in delivery are stopped? -/
def standsBefore (a b : ComposeOutboxRow) : Bool := listedBefore (stopped [] a) (stopped [] b)

theorem listedBefore_stopped (now : Str) (a b : ComposeOutboxRow) :
    listedBefore (stopped now a) (stopped now b) = standsBefore a b := by
  unfold standsBefore stopped
  split_ifs <;> rfl

section Restart

variable (serverKind : Str → ServerKind) (signedIn : Str → Bool) (now now' : Str)

/-- The recovery at startup, at two times. -/
def Table.restart (t : Table) : Table :=
  recoverIdempotentInterruptedItems
    (fun acct => idempotentSession serverKind acct (signedIn acct)) now' (t.recoverInterrupted now)

/-- A row after the recovery. -/
def Table.restarted (t : Table) (row : ComposeOutboxRow) : ComposeOutboxRow :=
  resumed (fun acct => idempotentSession serverKind acct (signedIn acct)) now'
    ((t.recoverInterrupted now).list.filter recoverable) (stopped now row)

variable {serverKind signedIn now now'} {t : Table} {row : ComposeOutboxRow}

theorem rows_restart : (t.restart serverKind signedIn now now').rows =
    t.rows.map (t.restarted serverKind signedIn now now') := by
  rw [restart, rows_recover]
  exact List.map_map

@[simp] theorem restarted_id : (t.restarted serverKind signedIn now now' row).id = row.id := by
  unfold restarted resumed
  split_ifs
  · exact stopped_id now row
  · exact stopped_id now row

/-- A row is found by its id after the recovery. -/
theorem eq_restarted {row' : ComposeOutboxRow} (hrow : row ∈ t.rows)
    (hrow' : row' ∈ (t.restart serverKind signedIn now now').rows) (hid : row'.id = row.id) :
    row' = t.restarted serverKind signedIn now now' row := by
  rw [rows_restart] at hrow'
  obtain ⟨old, hold, rfl⟩ := List.mem_map.1 hrow'
  rw [restarted_id] at hid
  rw [t.id_inj hold hrow hid]

theorem mem_restart (hrow : row ∈ t.rows) : t.restarted serverKind signedIn now now' row ∈
    (t.restart serverKind signedIn now now').rows := by
  rw [rows_restart]
  exact List.mem_map_of_mem hrow

/-- An interrupted row is queued exactly if its provider is known to be idempotent and it is
among the rows that are listed. -/
theorem restarted_queued (hrow : row ∈ t.rows) (hsending : row.state = .sending) :
    (t.restarted serverKind signedIn now now' row).state = .queued ↔
      idempotentSession serverKind row.actingAccountAcct (signedIn row.actingAccountAcct) = true ∧
        t.rows.countP (standsBefore · row) < 100 := by
  have hstopped : stopped now row = (interrupt now).apply row := if_pos (by rw [hsending]; rfl)
  have hmem : stopped now row ∈ (t.recoverInterrupted now).rows := List.mem_map_of_mem hrow
  have hcount : (t.recoverInterrupted now).rows.countP (listedBefore · (stopped now row)) =
      t.rows.countP (standsBefore · row) := by
    show (t.rows.map (stopped now)).countP _ = _
    rw [List.countP_map]
    exact List.countP_congr fun a _ => by
      rw [Function.comp_apply, listedBefore_stopped]
  have hlisted : stopped now row ∈ (t.recoverInterrupted now).list.filter recoverable ↔
      t.rows.countP (standsBefore · row) < 100 := by
    rw [List.mem_filter, mem_list_iff hmem, hcount, hstopped]
    exact and_iff_left rfl
  unfold restarted resumed
  rw [← hlisted, stopped_actingAccountAcct]
  split_ifs with h
  · exact iff_of_true rfl ⟨h.2, h.1⟩
  · refine iff_of_false ?_ fun h' => h ⟨h'.2, h'.1⟩
    rw [hstopped]
    exact nofun

/-- A row of a provider that is not idempotent is only stopped. -/
theorem restarted_of_not_idempotent
    (hkind : (serverKind row.actingAccountAcct.trim).idempotent = false) :
    t.restarted serverKind signedIn now now' row = stopped now row := by
  unfold restarted resumed
  refine if_neg fun h => ?_
  have hsafe := (Bool.and_eq_true_iff.1 h.2).2
  rw [stopped_actingAccountAcct, hkind] at hsafe
  cases hsafe

/-! ### Is everything recovered? -/

variable (serverKind signedIn now now' t)

/-- Every row that was interrupted and whose provider is idempotent is queued again, and no row of
another provider comes to be queued. -/
structure RecoversAll : Prop where
  queued : ∀ row ∈ t.rows, row.state = .sending →
    (serverKind row.actingAccountAcct.trim).idempotent = true →
    ∃ row' ∈ (t.restart serverKind signedIn now now').rows, row'.id = row.id ∧ row'.state = .queued
  others : ∀ row ∈ t.rows, (serverKind row.actingAccountAcct.trim).idempotent = false →
    row.state ≠ .queued →
    ∀ row' ∈ (t.restart serverKind signedIn now now').rows, row'.id = row.id → row'.state ≠ .queued

/-- The recovery is complete exactly if, for each interrupted row of an idempotent provider, the
account is signed in and fewer than a hundred rows stand before it in the listing. -/
theorem recoversAll_iff : RecoversAll serverKind signedIn now now' t ↔
    ∀ row ∈ t.rows, row.state = .sending →
      (serverKind row.actingAccountAcct.trim).idempotent = true →
      signedIn row.actingAccountAcct = true ∧ t.rows.countP (standsBefore · row) < 100 := by
  constructor
  · intro h row hrow hsending hkind
    obtain ⟨row', hrow', hid, hqueued⟩ := h.queued row hrow hsending hkind
    rw [eq_restarted hrow hrow' hid, restarted_queued hrow hsending] at hqueued
    exact hqueued.imp_left fun hsession => (Bool.and_eq_true_iff.1 hsession).1
  · intro h
    refine ⟨fun row hrow hsending hkind => ?_, fun row hrow hkind hstate row' hrow' hid => ?_⟩
    · obtain ⟨hsigned, hlisted⟩ := h row hrow hsending hkind
      refine ⟨_, mem_restart hrow, restarted_id, (restarted_queued hrow hsending).2 ⟨?_, hlisted⟩⟩
      rw [idempotentSession, hsigned, hkind]
      rfl
    · rw [eq_restarted hrow hrow' hid, restarted_of_not_idempotent hkind]
      unfold stopped
      split_ifs
      · exact nofun
      · exact hstate

end Restart

/-- A row of the crowded outbox: the first was interrupted, the others have failed later. -/
def crowdedRow (n : ℕ) : ComposeOutboxRow :=
  { newRow n (List.replicate n 'a') .post "alice" "" (if n = 0 then "09:00" else "09:01") with
    state := if n = 0 then .sending else .failed }

def crowded : Table where
  rows := (List.range 101).map crowdedRow
  rowids := List.pairwise_lt_range.map _ fun _ _ => id
  ids := by
    rw [List.map_map]
    refine List.nodup_range.map fun m n h => ?_
    have hlength := congrArg List.length (show List.replicate m 'a' = List.replicate n 'a' from h)
    rwa [List.length_replicate, List.length_replicate] at hlength

/-- A hundred failed posts keep an interrupted one from being queued. -/
theorem not_recoversAll :
    ¬ RecoversAll (fun _ => .mastodon) (fun _ => true) "09:02" "09:02" crowded := by
  intro h
  have hmem : crowdedRow 0 ∈ crowded.rows := List.mem_map_of_mem (List.mem_range.2 (by omega))
  obtain ⟨row', hrow', hid, hqueued⟩ := h.queued _ hmem rfl rfl
  rw [eq_restarted hmem hrow' hid, restarted_queued hmem rfl] at hqueued
  have hcount : crowded.rows.countP (standsBefore · (crowdedRow 0)) = 100 := by decide +kernel
  omega

end Awayuki.Outbox
