import Awayuki.Outbox.Delivery

/-!
# Compose outbox: at most one post

For a provider that does not recognise repeated posts, the worker hands a post over again only
after an answer by which the provider has rejected it.  A row whose post may have been accepted
is neither waiting nor can it come to wait without the user.

* `Sound`: a delivery belongs to a row in delivery, and no two to one row;
* `Held`: the row does not wait, and its deliveries will not let it;
* `Held.step`: nothing but the user's retry and a rejection ends that.
-/

namespace Awayuki.Outbox

open Runs Table

/-! ### Rows over time -/

variable {t t' : Table} {allowed : Bool → Prop} {row old : ComposeOutboxRow} {event : Event}
  {before after : List Delivery} {d : Delivery} {new : ComposeOutboxRow} {now : Str}
  {code : AppErrorCode}

/-- Every row stays, with its operation and its account. -/
def Persist (t t' : Table) : Prop :=
  ∀ row ∈ t.rows, ∃ row' ∈ t'.rows, row'.id = row.id ∧ row'.operationKind = row.operationKind ∧
    row'.actingAccountAcct = row.actingAccountAcct

theorem Persist.refl (t : Table) : Persist t t := fun row h => ⟨row, h, rfl, rfl, rfl⟩

theorem Persist.of_rows (h : t'.rows = t.rows) : Persist t t' :=
  fun row hrow => ⟨row, h ▸ hrow, rfl, rfl, rfl⟩

theorem Replaces.persist {change : Change} (h : Replaces t t' old (change.apply old)) :
    Persist t t' := by
  intro row hrow
  by_cases hold : row = old
  · subst hold
    exact ⟨_, (h.2 _).2 (.inl rfl), change.id row, change.operationKind row,
      change.actingAccountAcct row⟩
  · exact ⟨row, (h.2 row).2 (.inr ⟨hrow, hold⟩), rfl, rfl, rfl⟩

theorem persist_update (t : Table) (selects : ComposeOutboxRow → Bool) (change : Change) :
    Persist t (t.update selects change) := by
  intro row hrow
  by_cases hsel : selects row = true
  · exact ⟨_, mem_update.2 (.inl ⟨row, hrow, hsel, rfl⟩), change.id row, change.operationKind row,
      change.actingAccountAcct row⟩
  · exact ⟨row, mem_update.2 (.inr ⟨hrow, by simpa using hsel⟩), rfl, rfl, rfl⟩

/-- The row of the id does not wait to be claimed. -/
def Rests (id : Str) (t : Table) : Prop :=
  ∃ row ∈ t.rows, row.id = id ∧ row.state.waiting = false

theorem Rests.of_rows {id : Str} (h : Rests id t) (hrows : t'.rows = t.rows) : Rests id t' := by
  obtain ⟨row, hrow, hid, hstate⟩ := h
  exact ⟨row, hrows ▸ hrow, hid, hstate⟩

/-- A row rests until a change of it lets it wait. -/
theorem Rests.replaces {id : Str} (h : Rests id t) (hreplaces : Replaces t t' old new)
    (hid : new.id = old.id) (hnew : old.id = id → new.state.waiting = false) : Rests id t' := by
  obtain ⟨row, hrow, hrowId, hstate⟩ := h
  by_cases hold : row = old
  · subst hold
    exact ⟨new, (hreplaces.2 _).2 (.inl rfl), hid.trans hrowId, hnew hrowId⟩
  · exact ⟨row, (hreplaces.2 row).2 (.inr ⟨hrow, hold⟩), hrowId, hstate⟩

theorem Rests.updateIn {id id' : Str} {states : RowState → Bool} {change : Change}
    (h : Rests id t) (hwaits : id' = id → ∀ old, (change.apply old).state.waiting = false) :
    Rests id (t.updateIn id' states change).2 := by
  rcases t.updateIn_cases id' states change with ⟨old, hid, -, hreplaces⟩ | hnone
  · exact h.replaces hreplaces (change.id old) fun heq => hwaits (hid.symm.trans heq) old
  · exact h.of_rows (congrArg Table.rows hnone)

/-- The row that a delivery belongs to is in delivery. -/
def Sends (t : Table) (row : ComposeOutboxRow) : Prop :=
  ∃ row' ∈ t.rows, row'.id = row.id ∧ row'.state = .sending ∧
    row'.operationKind = row.operationKind ∧ row'.actingAccountAcct = row.actingAccountAcct

theorem Sends.of_rows (h : Sends t row) (hrows : t'.rows = t.rows) : Sends t' row := by
  obtain ⟨row', hrow', hfacts⟩ := h
  exact ⟨row', hrows ▸ hrow', hfacts⟩

theorem Sends.replaces (h : Sends t row) (hreplaces : Replaces t t' old new)
    (hold : old.id = row.id → old.state ≠ .sending) : Sends t' row := by
  obtain ⟨row', hrow', hid, hstate, hfacts⟩ := h
  refine ⟨row', (hreplaces.2 row').2 (.inr ⟨hrow', ?_⟩), hid, hstate, hfacts⟩
  rintro rfl
  exact hold hid hstate

/-- What the user asks for leaves a row in delivery alone. -/
theorem Sends.updateIn (h : Sends t row) {states : RowState → Bool}
    (hstates : states .sending = false) (id : Str) (change : Change) :
    Sends (t.updateIn id states change).2 row := by
  rcases t.updateIn_cases id states change with ⟨old, -, hstate, hreplaces⟩ | hnone
  · refine h.replaces hreplaces fun _ hsending => ?_
    rw [hsending, hstates] at hstate
    cases hstate
  · exact h.of_rows (congrArg Table.rows hnone)

/-! ### What the worker does to the table -/

variable {serverKind : Str → ServerKind} {s s' : System}

section

variable [Chrono]

/-- A failed delivery marks its row; the row waits again only for a retry. -/
theorem settle_error (t : Table) (idempotentProvider : Bool) (row : ComposeOutboxRow)
    (error : AppError) (clock : ℕ) :
    ∃ (state : RowState) (text next : Str),
      (state.waiting = true → shouldRetry idempotentProvider row.attempts error.code = true) ∧
      settle t idempotentProvider row (.error error) clock =
        (t.updateFailure row.id state text next (Chrono.rfc3339 clock)).2 := by
  by_cases hretry : shouldRetry idempotentProvider row.attempts error.code = true
  · exact ⟨.retrying, _, _, fun _ => hretry, by simp only [settle, hretry, if_true]; rfl⟩
  by_cases hambiguous : (error.code.ambiguous && !idempotentProvider) = true
  · exact ⟨.uncertain, _, _, nofun, by simp only [settle, hretry, hambiguous, if_true]; rfl⟩
  · exact ⟨.failed, _, _, nofun, by simp only [settle, hretry, hambiguous]; rfl⟩

theorem settle_cases (t : Table) (idempotentProvider : Bool) (row : ComposeOutboxRow)
    (result : Except AppError Posted) (clock : ℕ) :
    (∃ (old : ComposeOutboxRow) (change : Change), old.id = row.id ∧ old.state = .sending ∧
      Replaces t (settle t idempotentProvider row result clock) old (change.apply old) ∧
      ((change.apply old).state.waiting = true → ∃ error, result = .error error ∧
        shouldRetry idempotentProvider row.attempts error.code = true)) ∨
    (settle t idempotentProvider row result clock).rows = t.rows := by
  cases result with
  | ok posted =>
    rcases t.markSucceeded_cases row.id posted.originalStatusId posted.serverDomain
      (Chrono.rfc3339 clock) with ⟨old, hid, hstate, hreplaces⟩ | hrows
    · exact .inl ⟨old, _, hid, hstate, hreplaces, nofun⟩
    · exact .inr hrows
  | error error =>
    obtain ⟨state, text, next, hwaiting, hsettle⟩ :=
      settle_error t idempotentProvider row error clock
    rw [hsettle]
    rcases t.updateFailure_cases row.id state text next (Chrono.rfc3339 clock) with
      ⟨old, hid, hstate, hreplaces⟩ | hrows
    · exact .inl ⟨old, _, hid, hstate, hreplaces, fun h => ⟨error, rfl, hwaiting h⟩⟩
    · exact .inr hrows

omit [Chrono] in
theorem persist_updateIn (t : Table) (id : Str) (states : RowState → Bool) (change : Change) :
    Persist t (t.updateIn id states change).2 := by
  rcases t.updateIn_cases id states change with ⟨old, -, -, hreplaces⟩ | hnone
  · exact Replaces.persist hreplaces
  · exact .of_rows (congrArg Table.rows hnone)

omit [Chrono] in
theorem subset_apply_enqueue (t : Table) (loginAccounts : List Str) (id : Str)
    (operationKind : OperationKind) (actingAccountAcct payloadJson now : Str) :
    t.rows ⊆ (t.apply
      (.enqueue loginAccounts id operationKind actingAccountAcct payloadJson now)).rows := by
  cases henqueue : t.enqueueOn loginAccounts id operationKind actingAccountAcct payloadJson now with
  | none =>
    simp only [Table.apply, henqueue, Option.map_none, Option.getD_none]
    exact List.Subset.refl _
  | some enqueued =>
    obtain ⟨row, t'⟩ := enqueued
    obtain ⟨-, hrows, -, -⟩ := enqueueOn_eq_some henqueue
    simp only [Table.apply, henqueue, Option.map_some, Option.getD_some, hrows]
    exact List.subset_append_left _ _

/-- No step takes a row away or changes whose it is. -/
theorem WorkerStep.persist (h : WorkerStep serverKind s event s') : Persist s.table s'.table := by
  cases h with
  | enqueue => exact fun row hrow => ⟨row, subset_apply_enqueue _ _ _ _ _ _ _ hrow, rfl, rfl, rfl⟩
  | retry t process id now => exact persist_updateIn t id _ _
  | cancel t process id now => exact persist_updateIn t id _ _
  | recoverInterrupted t deliveries now persisted =>
    cases persisted
    · exact .refl t
    · exact persist_update t _ _
  | resume t row rows deliveries signedIn now persisted =>
    cases persisted
    · exact .refl t
    · simp only [if_true, Outbox.resume]
      split_ifs
      · exact persist_updateIn t row.id _ _
      · exact .refl t
  | claim t deliveries row now =>
    rcases t.claimNext_cases now with ⟨old, -, -, -, hreplaces⟩ | ⟨-, hnone⟩
    · exact Replaces.persist hreplaces
    · simp only [hnone]
      exact .refl t
  | settle t before after row idempotentProvider result clock persisted =>
    cases persisted
    · exact .refl t
    · rcases settle_cases t idempotentProvider row result clock with
        ⟨old, change, -, -, hreplaces, -⟩ | hrows
      · exact Replaces.persist hreplaces
      · exact .of_rows hrows
  | _ => exact .refl _

end

/-! ### Deliveries and their rows -/

/-- What the delivery takes its provider for. -/
def Stage.idempotentProvider : Stage → Bool
  | .claimed => false
  | .preparing idempotentProvider | .handedOver idempotentProvider _
  | .ended idempotentProvider _ => idempotentProvider

def System.deliveries (s : System) : List Delivery := s.process.elim [] (·.deliveries)

/-- Deliveries run while the worker works, each for a row of its own that is in delivery, and
take no provider for idempotent that is not. -/
structure Sound (serverKind : Str → ServerKind) (s : System) : Prop where
  ids : (s.deliveries.map (·.row.id)).Nodup
  sends : ∀ d ∈ s.deliveries, Sends s.table d.row
  session : ∀ d ∈ s.deliveries, d.stage.idempotentProvider = true →
    (serverKind d.row.actingAccountAcct.trim).idempotent = true
  idle : ∀ phase deliveries, s.process = some ⟨phase, deliveries⟩ → phase ≠ .working →
    deliveries = []
  snapshot : ∀ rows deliveries, s.process = some ⟨.resuming rows, deliveries⟩ → ∀ row ∈ rows,
    ∃ row' ∈ s.table.rows, row'.id = row.id ∧ row'.actingAccountAcct = row.actingAccountAcct

theorem Sound.init : Sound serverKind .init where
  ids := List.nodup_nil
  sends := by simp [System.deliveries, System.init]
  session := by simp [System.deliveries, System.init]
  idle := by simp [System.init]
  snapshot := by simp [System.init]

/-- Nothing but the table changes. -/
theorem Sound.table {process : Option Process} (h : Sound serverKind ⟨t, process⟩)
    (hpersist : Persist t t') (hsends : ∀ d ∈ System.deliveries ⟨t, process⟩, Sends t' d.row) :
    Sound serverKind ⟨t', process⟩ where
  ids := h.ids
  sends := hsends
  session := h.session
  idle := h.idle
  snapshot := by
    intro rows deliveries hprocess row hrow
    obtain ⟨row', hrow', hid, hactor⟩ := h.snapshot rows deliveries hprocess row hrow
    obtain ⟨row'', hrow'', hid', -, hactor'⟩ := hpersist row' hrow'
    exact ⟨row'', hrow'', hid'.trans hid, hactor'.trans hactor⟩

/-- Without deliveries only the snapshot has to be right. -/
theorem Sound.of_idle {phase : Phase} (hsnapshot : ∀ rows, phase = .resuming rows → ∀ row ∈ rows,
      ∃ row' ∈ t.rows, row'.id = row.id ∧ row'.actingAccountAcct = row.actingAccountAcct) :
    Sound serverKind ⟨t, some ⟨phase, []⟩⟩ where
  ids := List.nodup_nil
  sends := by simp [System.deliveries]
  session := by simp [System.deliveries]
  idle := by
    rintro phase deliveries hprocess -
    cases hprocess
    rfl
  snapshot := by
    intro rows deliveries hprocess
    cases hprocess
    exact hsnapshot rows rfl

theorem Sound.working {deliveries : List Delivery} (hids : (deliveries.map (·.row.id)).Nodup)
    (hsends : ∀ d ∈ deliveries, Sends t d.row)
    (hsession : ∀ d ∈ deliveries, d.stage.idempotentProvider = true →
      (serverKind d.row.actingAccountAcct.trim).idempotent = true) :
    Sound serverKind ⟨t, some ⟨.working, deliveries⟩⟩ where
  ids := hids
  sends := hsends
  session := hsession
  idle := by
    intro phase deliveries hprocess hphase
    cases hprocess
    exact absurd rfl hphase
  snapshot := by simp

variable {a b : Stage}

/-- One delivery comes to another stage. -/
theorem Sound.stage (h : Sound serverKind ⟨t, some ⟨.working, before ++ ⟨row, a⟩ :: after⟩⟩)
    (hsession : b.idempotentProvider = true → a.idempotentProvider = true ∨
      (serverKind row.actingAccountAcct.trim).idempotent = true) :
    Sound serverKind ⟨t, some ⟨.working, before ++ ⟨row, b⟩ :: after⟩⟩ := by
  have hids := h.ids
  have hsends := h.sends
  have hold := h.session
  simp only [System.deliveries, Option.elim_some, List.map_append, List.map_cons,
    List.forall_mem_append, List.forall_mem_cons] at hids hsends hold
  refine .working (by simpa using hids) ?_ ?_ <;>
    simp only [List.forall_mem_append, List.forall_mem_cons]
  · exact hsends
  · exact ⟨hold.1, fun hb => (hsession hb).elim hold.2.1 id, hold.2.2⟩

/-- One delivery is over. -/
theorem Sound.remove (h : Sound serverKind ⟨t, some ⟨.working, before ++ d :: after⟩⟩) :
    Sound serverKind ⟨t, some ⟨.working, before ++ after⟩⟩ ∧
      ∀ d' ∈ before ++ after, d'.row.id ≠ d.row.id := by
  have hids := h.ids
  have hsends := h.sends
  have hsession := h.session
  simp only [System.deliveries, Option.elim_some, List.map_append, List.map_cons,
    List.forall_mem_append, List.forall_mem_cons] at hids hsends hsession
  rw [List.perm_middle.nodup_iff, List.nodup_cons, ← List.map_append] at hids
  refine ⟨.working hids.2 ?_ ?_, fun d' hd' heq => hids.1 (heq ▸ List.mem_map_of_mem hd')⟩ <;>
    simp only [List.forall_mem_append]
  · exact ⟨hsends.1, hsends.2.2⟩
  · exact ⟨hsession.1, hsession.2.2⟩

/-- A claimed row is in delivery, and was not before. -/
theorem claim_sends (hclaim : (t.claimNext now).1 = some row) :
    ∃ old, old.id = row.id ∧ old.state.waiting = true ∧ row.state = .sending ∧
      row.operationKind = old.operationKind ∧ row.actingAccountAcct = old.actingAccountAcct ∧
      Replaces t (t.claimNext now).2 old row := by
  rcases t.claimNext_cases now with ⟨old, hdue, -, hrow, hreplaces⟩ | ⟨-, hnone⟩
  · rw [hrow] at hclaim
    cases hclaim
    exact ⟨old, rfl, (isDue_iff.1 hdue).1, rfl, rfl, rfl, hreplaces⟩
  · rw [hnone] at hclaim
    cases hclaim

/-- Every step keeps deliveries and rows together. -/
theorem Sound.step [Chrono] (h : Sound serverKind s) (hstep : WorkerStep serverKind s event s') :
    Sound serverKind s' := by
  have hpersist := hstep.persist
  cases hstep with
  | enqueue t process loginAccounts id operationKind actingAccountAcct payloadJson now =>
    refine h.table hpersist fun d hd => ?_
    obtain ⟨row, hrow, hfacts⟩ := h.sends d hd
    exact ⟨row, subset_apply_enqueue _ _ _ _ _ _ _ hrow, hfacts⟩
  | retry t process id now =>
    exact h.table hpersist fun d hd => (h.sends d hd).updateIn rfl id _
  | cancel t process id now =>
    exact h.table hpersist fun d hd => (h.sends d hd).updateIn rfl id _
  | start t => exact .of_idle nofun
  | recoverInterrupted t deliveries now persisted =>
    obtain rfl := h.idle _ _ rfl nofun
    exact .of_idle nofun
  | list t deliveries read =>
    obtain rfl := h.idle _ _ rfl nofun
    refine .of_idle ?_
    rintro rows hrows row hrow
    cases hrows
    cases read
    · cases hrow
    · exact ⟨row, mem_of_mem_list (List.mem_filter.1 hrow).1, rfl, rfl⟩
  | resume t row rows deliveries signedIn now persisted =>
    obtain rfl := h.idle _ _ rfl nofun
    refine .of_idle ?_
    rintro rows' hrows row' hrow
    cases hrows
    obtain ⟨row₁, hrow₁, hid, hactor⟩ := h.snapshot _ _ rfl row' (List.mem_cons_of_mem _ hrow)
    obtain ⟨row₂, hrow₂, hid', -, hactor'⟩ := hpersist row₁ hrow₁
    exact ⟨row₂, hrow₂, hid'.trans hid, hactor'.trans hactor⟩
  | work t deliveries =>
    obtain rfl := h.idle _ _ rfl nofun
    exact .of_idle nofun
  | claim t deliveries row now room due claimed =>
    obtain ⟨old, hid, hwaiting, hsending, -, -, hreplaces⟩ := claim_sends claimed
    have hfresh : ∀ d ∈ deliveries, old.id = d.row.id → old.state ≠ .sending := by
      intro d _ _ hstate
      rw [hstate] at hwaiting
      cases hwaiting
    have hne : ∀ d ∈ deliveries, d.row.id ≠ row.id := by
      intro d hd heq
      obtain ⟨row', hrow', hid', hstate', -⟩ := h.sends d hd
      obtain rfl := t.id_inj hrow' hreplaces.1 (hid'.trans (heq.trans hid.symm))
      rw [hstate'] at hwaiting
      cases hwaiting
    refine .working ?_ ?_ ?_
    · rw [List.map_append, List.map_singleton]
      refine h.ids.append (List.nodup_singleton _) ?_
      simpa [System.deliveries] using hne
    · simp only [List.forall_mem_append, List.forall_mem_singleton]
      exact ⟨fun d hd => (h.sends d hd).replaces hreplaces (hfresh d hd),
        row, (hreplaces.2 row).2 (.inl rfl), rfl, hsending, rfl, rfl⟩
    · simp only [List.forall_mem_append, List.forall_mem_singleton]
      exact ⟨h.session, nofun⟩
  | lookUp t before after row signedIn =>
    refine h.stage fun hb => .inr ?_
    exact (Bool.and_eq_true_iff.1 hb).2
  | fail | handOver | answer | edit => exact h.stage fun hb => .inl hb
  | settle t before after row idempotentProvider result clock persisted =>
    obtain ⟨hsound, hne⟩ := h.remove
    cases persisted
    · exact hsound
    · refine hsound.table hpersist fun d hd => ?_
      rcases settle_cases t idempotentProvider row result clock with
        ⟨old, change, hid, -, hreplaces, -⟩ | hrows
      · refine (hsound.sends d hd).replaces hreplaces fun heq => ?_
        exact absurd (heq.symm.trans hid) (hne d hd)
      · exact (hsound.sends d hd).of_rows hrows
  | stop t deliveries => exact .of_idle nofun
  | crash t process =>
    exact ⟨List.nodup_nil, by simp [System.deliveries], by simp [System.deliveries], by simp,
      by simp⟩

/-! ### Rows that are held -/

/-- A delivery that will not put its row back into the queue: it has not been rejected, and its
provider is not taken for idempotent.  `allowed` says which posts may still be under way. -/
def Doubtful (allowed : Bool → Prop) : Stage → Prop
  | .handedOver idempotentProvider accepted => idempotentProvider = false ∧ allowed accepted
  | .ended idempotentProvider result => idempotentProvider = false ∧
      ∀ error, result = .error error → error.code.unambiguous = false
  | _ => False

/-- The row does not wait, and none of its deliveries will let it. -/
structure Held (allowed : Bool → Prop) (id : Str) (s : System) : Prop where
  rests : Rests id s.table
  doubtful : ∀ d ∈ s.deliveries, d.row.id = id → Doubtful allowed d.stage

/-- The id is that of a post for a provider that is not idempotent. -/
def NonIdempotentPost (serverKind : Str → ServerKind) (id : Str) (s : System) : Prop :=
  ∀ row ∈ s.table.rows, row.id = id → row.operationKind = .post ∧
    (serverKind row.actingAccountAcct.trim).idempotent = false

theorem NonIdempotentPost.of_persist {id : Str} (h : NonIdempotentPost serverKind id s')
    (hpersist : Persist s.table s'.table) : NonIdempotentPost serverKind id s := by
  intro row hrow hid
  obtain ⟨row', hrow', hid', hkind, hactor⟩ := hpersist row hrow
  rw [← hkind, ← hactor]
  exact h row' hrow' (hid'.trans hid)

/-- Without an error that tells of a rejection, and without an idempotent provider, there is no
retry. -/
theorem shouldRetry_of_doubtful {attempts : ℕ} (h : code.unambiguous = false) :
    shouldRetry false attempts code = false := by
  simp [shouldRetry, h]

theorem Held.stage {id : Str}
    (h : Held allowed id ⟨t, some ⟨.working, before ++ ⟨row, a⟩ :: after⟩⟩)
    (hstage : row.id = id → Doubtful allowed a → Doubtful allowed b) :
    Held allowed id ⟨t, some ⟨.working, before ++ ⟨row, b⟩ :: after⟩⟩ := by
  refine ⟨h.rests, ?_⟩
  have hdoubtful := h.doubtful
  simp only [System.deliveries, Option.elim_some, List.forall_mem_append,
    List.forall_mem_cons] at hdoubtful ⊢
  exact ⟨hdoubtful.1, fun hid => hstage hid (hdoubtful.2.1 hid), hdoubtful.2.2⟩

/-- The delivery at hand. -/
theorem Held.of_delivery {id : Str} (h : Held allowed id ⟨t, some ⟨.working, before ++ d :: after⟩⟩)
    (hid : d.row.id = id) : Doubtful allowed d.stage :=
  h.doubtful d (by simp [System.deliveries]) hid

/-- A row stays held, whatever happens, until it is released. -/
theorem Held.step [Chrono] {id : Str} (h : Held allowed id s) (hsound : Sound serverKind s)
    (hpost : NonIdempotentPost serverKind id s) (hstep : WorkerStep serverKind s event s')
    (hretry : ∀ now, event ≠ .retry id now)
    (hanswer : ∀ accepted error, allowed accepted → event = .answer id (.error error) →
      error.code = .rateLimited → accepted = true) : Held allowed id s' := by
  cases hstep with
  | enqueue t process loginAccounts id' operationKind actingAccountAcct payloadJson now =>
    obtain ⟨row, hrow, hfacts⟩ := h.rests
    exact ⟨⟨row, subset_apply_enqueue _ _ _ _ _ _ _ hrow, hfacts⟩, h.doubtful⟩
  | retry t process id' now =>
    refine ⟨h.rests.updateIn fun heq _ => ?_, h.doubtful⟩
    exact absurd (congrArg (Event.retry · now) heq) (hretry now)
  | cancel t process id' now => exact ⟨h.rests.updateIn fun _ _ => rfl, h.doubtful⟩
  | start t => exact ⟨h.rests, by simp [System.deliveries]⟩
  | recoverInterrupted t deliveries now persisted =>
    refine ⟨?_, h.doubtful⟩
    cases persisted
    · exact h.rests
    · obtain ⟨row, hrow, hid, hstate⟩ := h.rests
      by_cases hsending : row.state = .sending
      · exact ⟨_, mem_update.2 (.inl ⟨row, hrow, by simp [hsending], rfl⟩), hid, rfl⟩
      · exact ⟨row, mem_update.2 (.inr ⟨hrow, by simpa using hsending⟩), hid, hstate⟩
  | list t deliveries read => exact ⟨h.rests, h.doubtful⟩
  | resume t row rows deliveries signedIn now persisted =>
    refine ⟨?_, h.doubtful⟩
    cases persisted
    · exact h.rests
    · simp only [if_true, Outbox.resume]
      split_ifs with hsafe
      swap
      · exact h.rests
      refine h.rests.updateIn fun heq _ => ?_
      -- the recovery does not resume a post for such a provider
      obtain ⟨row', hrow', hid', hactor⟩ := hsound.snapshot _ _ rfl row List.mem_cons_self
      have hkind := (hpost row' hrow' (hid'.trans heq)).2
      rw [hactor] at hkind
      rw [idempotentSession, hkind, Bool.and_false] at hsafe
      cases hsafe
  | work t deliveries => exact ⟨h.rests, h.doubtful⟩
  | claim t deliveries row now room due claimed =>
    obtain ⟨old, hid, hwaiting, -, -, -, hreplaces⟩ := claim_sends claimed
    have hne : row.id ≠ id := by
      intro heq
      obtain ⟨row', hrow', hid', hstate⟩ := h.rests
      obtain rfl := t.id_inj hrow' hreplaces.1 (hid'.trans (heq.symm.trans hid.symm))
      rw [hstate] at hwaiting
      cases hwaiting
    refine ⟨h.rests.replaces hreplaces hid.symm fun heq => absurd (hid.symm.trans heq) hne, ?_⟩
    intro d hd hdid
    rcases List.mem_append.1 hd with hd | hd
    · exact h.doubtful d hd hdid
    · rw [List.mem_singleton.1 hd] at hdid
      exact absurd hdid hne
  | lookUp t before after row signedIn => exact h.stage nofun
  | fail t before after row idempotentProvider error => exact h.stage nofun
  | handOver t before after row idempotentProvider accepted post => exact h.stage nofun
  | edit t before after row idempotentProvider result edit => exact h.stage nofun
  | answer t before after row idempotentProvider accepted result honest =>
    refine h.stage fun hid hdoubtful => ⟨hdoubtful.1, fun error herror => ?_⟩
    cases result with
    | ok posted => cases herror
    | error source =>
      obtain rfl : AppError.fromAdapter source = error := by injection herror
      rw [← Bool.not_eq_true, AppError.unambiguous_fromAdapter]
      intro hcode
      have htrue := hanswer accepted source hdoubtful.2 (by rw [hid]) hcode
      rw [honest source rfl hcode] at htrue
      cases htrue
  | settle t before after row idempotentProvider result clock persisted =>
    refine ⟨?_, fun d hd => h.doubtful d (by
      simp only [System.deliveries, Option.elim_some, List.mem_append, List.mem_cons] at hd ⊢
      exact hd.imp_right .inr)⟩
    cases persisted
    · exact h.rests
    · rcases settle_cases t idempotentProvider row result clock with
        ⟨old, change, hid, -, hreplaces, hwaiting⟩ | hrows
      · refine h.rests.replaces hreplaces (change.id old) fun heq => ?_
        obtain ⟨hprovider, hresult⟩ := h.of_delivery (hid.symm.trans heq)
        rw [← Bool.not_eq_true]
        intro hnew
        obtain ⟨error, herror, hretried⟩ := hwaiting hnew
        rw [hprovider, shouldRetry_of_doubtful (hresult error herror)] at hretried
        cases hretried
      · exact h.rests.of_rows hrows
  | stop t deliveries => exact ⟨h.rests, by simp [System.deliveries]⟩
  | crash t process => exact ⟨h.rests, by simp [System.deliveries]⟩

/-- The row of a doubtful delivery is held. -/
theorem Held.of_stage {stage : Stage}
    (h : Sound serverKind ⟨t, some ⟨.working, before ++ ⟨row, stage⟩ :: after⟩⟩)
    (hstage : Doubtful allowed stage) :
    Held allowed row.id ⟨t, some ⟨.working, before ++ ⟨row, stage⟩ :: after⟩⟩ := by
  obtain ⟨row', hrow', hid, hstate, -⟩ := h.sends ⟨row, stage⟩ (by simp [System.deliveries])
  refine ⟨⟨row', hrow', hid, by rw [hstate]; rfl⟩, fun d hd hdid => ?_⟩
  have hne := h.remove.2
  simp only [System.deliveries, Option.elim_some, List.mem_append, List.mem_cons] at hd hne
  rcases hd with hd | rfl | hd
  · exact absurd hdid (hne d (.inl hd))
  · exact hstage
  · exact absurd hdid (hne d (.inr hd))

/-- No delivery of such a post takes its provider for idempotent. -/
theorem NonIdempotentPost.session {id : Str} (h : NonIdempotentPost serverKind id s)
    (hsound : Sound serverKind s) (hd : d ∈ s.deliveries) (hid : d.row.id = id) :
    d.stage.idempotentProvider = false := by
  obtain ⟨row, hrow, hrowId, -, -, hactor⟩ := hsound.sends d hd
  have hkind := (h row hrow (hrowId.trans hid)).2
  rw [hactor] at hkind
  rw [← Bool.not_eq_true]
  intro hprovider
  rw [hsound.session d hd hprovider] at hkind
  cases hkind

section

variable [Chrono] {id : Str} {events : List Event} {accepted : Bool}

theorem Sound.of_run (h : Run (WorkerStep serverKind) .init events s) : Sound serverKind s :=
  h.invariant (I := Sound serverKind) .init fun hsound hstep => hsound.step hstep

/-- A held row is not claimed. -/
theorem Held.not_claim (h : Held allowed id s)
    (hstep : WorkerStep serverKind s (.claim row now) s') : row.id ≠ id := by
  cases hstep with
  | claim t deliveries row now room due claimed =>
    obtain ⟨old, hid, hwaiting, -, -, -, hreplaces⟩ := claim_sends claimed
    intro heq
    obtain ⟨row', hrow', hid', hstate⟩ := h.rests
    obtain rfl := t.id_inj hrow' hreplaces.1 (hid'.trans (heq.symm.trans hid.symm))
    rw [hstate] at hwaiting
    cases hwaiting

/-- The post of a held row is not handed over. -/
theorem Held.not_handOver (h : Held allowed id s) :
    ¬ WorkerStep serverKind s (.handOver id accepted) s' := by
  intro hstep
  generalize hevent : Event.handOver id accepted = event at hstep
  cases hstep <;> cases hevent
  exact h.of_delivery rfl

variable {u : System}

/-- While a row is held it is neither claimed nor handed over. -/
theorem Held.run (h : Held allowed id s) (hsound : Sound serverKind s)
    (hrun : Run (WorkerStep serverKind) s events u) (hpost : NonIdempotentPost serverKind id u)
    (hretry : ∀ now, .retry id now ∉ events)
    (hanswer : ∀ accepted error, allowed accepted → .answer id (.error error) ∈ events →
      error.code = .rateLimited → accepted = true) :
    Held allowed id u ∧ Sound serverKind u ∧ ∀ event ∈ events,
      (∀ row now, event = .claim row now → row.id ≠ id) ∧ ∀ accepted, event ≠ .handOver id accepted := by
  induction hrun with
  | nil => exact ⟨h, hsound, nofun⟩
  | snoc run last ih =>
    have hpost' := hpost.of_persist last.persist
    obtain ⟨hheld, hsound', hevents⟩ := ih hpost'
      (fun now hmem => hretry now (List.mem_append_left _ hmem))
      (fun accepted error hallowed hmem => hanswer accepted error hallowed (List.mem_append_left _ hmem))
    refine ⟨hheld.step hsound' hpost' last ?_ ?_, hsound'.step last, ?_⟩
    · rintro now rfl
      exact hretry now (by simp)
    · rintro accepted error hallowed rfl
      exact hanswer accepted error hallowed (by simp)
    · simp only [List.forall_mem_append, List.forall_mem_singleton]
      refine ⟨hevents, ?_, ?_⟩
      · rintro row now rfl
        exact hheld.not_claim last
      · rintro accepted rfl
        exact hheld.not_handOver last

theorem NonIdempotentPost.of_run (hrun : Run (WorkerStep serverKind) s events u)
    (h : NonIdempotentPost serverKind id u) : NonIdempotentPost serverKind id s := by
  induction hrun with
  | nil => exact h
  | snoc run last ih => exact ih (h.of_persist last.persist)

/-- A post that was handed over is held, as long as it may have been accepted. -/
theorem held_of_handOver (hsound : Sound serverKind s) (hpost : NonIdempotentPost serverKind id s)
    (hstep : WorkerStep serverKind s (.handOver id accepted) s') (hallowed : allowed accepted) :
    Held allowed id s' := by
  have hsound' := hsound.step hstep
  generalize hevent : Event.handOver id accepted = event at hstep
  cases hstep <;> cases hevent
  next t before after row idempotentProvider _ =>
    exact .of_stage hsound' ⟨hpost.session hsound (d := ⟨row, .preparing idempotentProvider⟩)
      (by simp [System.deliveries]) rfl, hallowed⟩

theorem held_of_crash (hevent : event = .crash ∨ event = .stop)
    (hstep : WorkerStep serverKind s event s')
    (hsending : ∃ row ∈ s.table.rows, row.id = id ∧ row.state = .sending) :
    Held (fun _ => False) id s' := by
  obtain ⟨row, hrow, hid, hstate⟩ := hsending
  have hrests : Rests id s.table := ⟨row, hrow, hid, by rw [hstate]; rfl⟩
  rcases hevent with rfl | rfl <;> cases hstep <;>
    exact ⟨hrests, by simp [System.deliveries]⟩

/-- The error by which a delivery ends, in its answer or before the post is handed over. -/
def EndsWith (id : Str) (event : Event) (code : AppErrorCode) : Prop :=
  (∃ source, event = .answer id (.error source) ∧ (AppError.fromAdapter source).code = code) ∨
    ∃ error, event = .fail id error ∧ error.code = code

theorem held_of_endsWith (hsound : Sound serverKind s) (hpost : NonIdempotentPost serverKind id s)
    (hstep : WorkerStep serverKind s event s') (hevent : EndsWith id event code)
    (hcode : code.ambiguous = true) : Held (fun _ => False) id s' := by
  have hsound' := hsound.step hstep
  have hambiguous : code.unambiguous = false := by
    cases code <;> simp_all [AppErrorCode.ambiguous, AppErrorCode.unambiguous]
  rcases hevent with ⟨source, rfl, rfl⟩ | ⟨error, rfl, rfl⟩
  · generalize hevent : Event.answer id (.error source) = event at hstep
    cases hstep <;> cases hevent
    next t before after row idempotentProvider accepted _ =>
      refine .of_stage hsound' ⟨hpost.session hsound
        (d := ⟨row, .handedOver idempotentProvider accepted⟩) (by simp [System.deliveries]) rfl, ?_⟩
      rintro error herror
      injection herror with herror
      rwa [← herror]
  · generalize hevent : Event.fail id error = event at hstep
    cases hstep <;> cases hevent
    next t before after row idempotentProvider =>
      refine .of_stage hsound' ⟨hpost.session hsound
        (d := ⟨row, .preparing idempotentProvider⟩) (by simp [System.deliveries]) rfl, ?_⟩
      rintro error' herror
      injection herror with herror
      rwa [← herror]

/-- What a run does with one post, without the user's retry. -/
structure AtMostOnce (serverKind : Str → ServerKind) (id : Str) (events : List Event)
    (s : System) : Prop where
  /-- It is handed over again only after an answer that tells of its rejection. -/
  again : ∀ before between after a b,
    events = before ++ .handOver id a :: between ++ .handOver id b :: after →
      ∃ source, .answer id (.error source) ∈ between ∧
        (AppError.fromAdapter source).code.unambiguous = true
  /-- A row that is interrupted while it is sent is not claimed again. -/
  interrupted : ∀ before after event t, events = before ++ event :: after →
    event = .crash ∨ event = .stop → Run (WorkerStep serverKind) .init before t →
    Run (WorkerStep serverKind) t (event :: after) s →
    (∃ row ∈ t.table.rows, row.id = id ∧ row.state = .sending) →
      ∀ row now, .claim row now ∈ after → row.id ≠ id
  /-- A row that failed with an ambiguous error is not claimed again. -/
  ambiguous : ∀ before after event code, events = before ++ event :: after →
    EndsWith id event code → code.ambiguous = true →
      ∀ row now, .claim row now ∈ after → row.id ≠ id
  /-- The provider accepts it at most once. -/
  once : ∀ before after, events = before ++ .handOver id true :: after →
    .handOver id true ∉ after

/-- A post for a provider that is not idempotent reaches it at most once, whatever order things
happen in and wherever a process ends. -/
theorem post_atMostOnce (serverKind : Str → ServerKind) (id : Str) (events : List Event)
    (s : System) (hrun : Run (WorkerStep serverKind) .init events s)
    (hpost : NonIdempotentPost serverKind id s) (hretry : ∀ now, .retry id now ∉ events) :
    AtMostOnce serverKind id events s where
  again := by
    rintro before between after a b rfl
    by_contra hnone
    rw [List.append_assoc, run_append] at hrun
    obtain ⟨t, hbefore, hrun⟩ := hrun
    rw [List.cons_append, run_cons] at hrun
    obtain ⟨t', hstep, hrun⟩ := hrun
    rw [run_append] at hrun
    obtain ⟨u, hbetween, hrun⟩ := hrun
    obtain ⟨u', hagain, hafter⟩ := run_cons.1 hrun
    have hpostU := hpost.of_run hrun
    have hpostT := (hpostU.of_run hbetween).of_persist hstep.persist
    have hsound := Sound.of_run hbefore
    have hheld : Held (fun _ => True) id t' := held_of_handOver hsound hpostT hstep trivial
    refine (hheld.run (hsound.step hstep) hbetween hpostU ?_ ?_).1.not_handOver hagain
    · exact fun now hmem => hretry now (by simp [hmem])
    · intro accepted source _ hmem hcode
      exact absurd ⟨source, hmem, AppError.unambiguous_fromAdapter.2 hcode⟩ hnone
  interrupted := by
    rintro before after event t rfl hevent hbefore hrun hsending row now hmem
    obtain ⟨t', hstep, hafter⟩ := run_cons.1 hrun
    have hheld := held_of_crash hevent hstep hsending
    have hclaims := (hheld.run ((Sound.of_run hbefore).step hstep) hafter hpost
      (fun now hmem => hretry now (by simp [hmem])) nofun).2.2
    exact (hclaims _ hmem).1 row now rfl
  ambiguous := by
    rintro before after event code rfl hevent hcode row now hmem
    obtain ⟨t, hbefore, hrun⟩ := run_append.1 hrun
    obtain ⟨t', hstep, hafter⟩ := run_cons.1 hrun
    have hpostT := (hpost.of_run hafter).of_persist hstep.persist
    have hsound := Sound.of_run hbefore
    have hheld := held_of_endsWith hsound hpostT hstep hevent hcode
    have hclaims := (hheld.run (hsound.step hstep) hafter hpost
      (fun now hmem => hretry now (by simp [hmem])) nofun).2.2
    exact (hclaims _ hmem).1 row now rfl
  once := by
    rintro before after rfl hmem
    obtain ⟨t, hbefore, hrun⟩ := run_append.1 hrun
    obtain ⟨t', hstep, hafter⟩ := run_cons.1 hrun
    have hpostT := (hpost.of_run hafter).of_persist hstep.persist
    have hsound := Sound.of_run hbefore
    have hheld : Held (· = true) id t' := held_of_handOver hsound hpostT hstep rfl
    have hevents := (hheld.run (hsound.step hstep) hafter hpost
      (fun now hmem => hretry now (by simp [hmem])) (fun _ _ h _ _ => h)).2.2
    exact (hevents _ hmem).2 true rfl

end

section

/-- Times as plain numbers. -/
@[reducible] def plainChrono : Chrono := ⟨fun time => (toString time).toList⟩

attribute [local instance] plainChrono

/-- The row of a post once it is claimed. -/
def sampleRow : ComposeOutboxRow :=
  (Table.claim "2").apply (Table.newRow 1 "1" .post "alice" "" "1")

/-- A post on Misskey that times out. -/
def sampleEvents : List Event :=
  [.start, .recoverInterrupted "0" true, .list false, .work,
    .enqueue ["alice".toList] "1" .post "alice" "" "1", .claim sampleRow "2", .lookUp "1" true,
    .handOver "1" true, .answer "1" (.error ⟨.timeout, none⟩), .settle "1" 3 true]

theorem post_atMostOnce_timeout :
    ∃ s, Run (WorkerStep fun _ => .misskey) .init sampleEvents s ∧
      AtMostOnce (fun _ => .misskey) "1" sampleEvents s := by
  have hrun : ∃ s, Run (WorkerStep fun _ => .misskey) .init sampleEvents s ∧
      ∀ row ∈ s.table.rows, row.operationKind = .post := by
    refine ⟨_, run_cons.2 ⟨_, .start _, run_cons.2 ⟨_, .recoverInterrupted _ _ _ true,
      run_cons.2 ⟨_, .list _ _ false, run_cons.2 ⟨_, .work _ _,
      run_cons.2 ⟨_, .enqueue _ _ _ _ _ _ _ _, run_cons.2 ⟨_,
        .claim _ _ sampleRow _ (by decide) (by decide) (by decide),
      run_cons.2 ⟨_, .lookUp _ [] [] sampleRow true, run_cons.2 ⟨_,
        .handOver _ [] [] sampleRow _ true rfl,
      run_cons.2 ⟨_, .answer _ [] [] sampleRow _ true _ (by rintro _ ⟨⟩ ⟨⟩), run_cons.2 ⟨_,
        .settle _ [] [] sampleRow _ _ 3 true, .nil _⟩⟩⟩⟩⟩⟩⟩⟩⟩⟩, ?_⟩
    decide
  obtain ⟨s, hrun, hpost⟩ := hrun
  exact ⟨s, hrun, post_atMostOnce _ "1" _ s hrun (fun row hrow _ => ⟨hpost row hrow, rfl⟩)
    (by simp [sampleEvents])⟩

end

end Awayuki.Outbox
