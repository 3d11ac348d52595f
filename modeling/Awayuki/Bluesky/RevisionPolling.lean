import Awayuki.Bluesky.Revisions
import Awayuki.Library.Enqueued

/-!
# Bluesky: polling revisions

`PollingRevisionState` of `bluesky/streaming.rs`.  A record that leaves the latest page is queued,
to be looked up on its own; the queue is kept beside a set of its members.

* `PollingRevisionState` with its operations, under the source's names;
* `Operation`, `run`: any sequence of them;
* `recentIds`: what counts as seen by the latest poll;
* `Invariant`: what holds after every sequence;
* `polling_invariants`: the queue, its set, the window, and how a record comes into the queue.
-/

namespace Awayuki.BlueskyPolling

open Enqueued

def RECONCILIATION_BUDGET : ℕ := 4

/-- `rest` is what `status_revision` reads besides. -/
structure Status (β : Type) where
  id : Str
  uri : Str
  rest : β

variable {β : Type}

def realStatusId (status : Status β) : Option Str :=
  if status.id.startsWith "at://" then some status.id else none

def revisionStatusId (status : Status β) : Option Str :=
  if status.id.trim ≠ [] then some status.id.trim
  else if status.uri.trim ≠ [] then some status.uri.trim
  else none

structure PollingRevisionState where
  revisions : OrderedMap Str RevisionEntry
  reconciliationQueue : List Str
  reconciliationSet : Finset Str
  pollNumber : ℕ

namespace PollingRevisionState

/-- `default` -/
def empty : PollingRevisionState := ⟨.empty, [], ∅, 0⟩

def queueReconciliation (s : PollingRevisionState) (id : Str) : PollingRevisionState :=
  if id ∈ s.reconciliationSet then s
  else
    { s with
      reconciliationQueue := s.reconciliationQueue ++ [id]
      reconciliationSet := insert id s.reconciliationSet }

/-- A blank id of a checkpoint is not queued again. -/
def queueRestored (s : PollingRevisionState) (id : Str) : PollingRevisionState :=
  if id.trim = [] then s else s.queueReconciliation id

def fromCheckpoint (checkpoint : PersistedCheckpoint) : PollingRevisionState :=
  (checkpoint.reconciliationQueue.take MAX_TRACKED_REVISIONS).foldl queueRestored
    ⟨restoredRevisions checkpoint, [], ∅, 1⟩

def checkpoint (s : PollingRevisionState) : PersistedCheckpoint where
  revisions := persistedRevisions s.revisions fun id entry =>
    decide (entry.lastSeenPoll = s.pollNumber ∨ id ∈ s.reconciliationSet)
  reconciliationQueue := s.reconciliationQueue

def markDeleted (s : PollingRevisionState) (id : Str) : PollingRevisionState :=
  { s with
    revisions := s.revisions.delete id
    reconciliationSet := s.reconciliationSet.erase id
    reconciliationQueue := s.reconciliationQueue.filter (· ≠ id) }

def pruneRevisionWindow (order : HashOrder) (s : PollingRevisionState) : PollingRevisionState :=
  if s.revisions.entries.length ≤ MAX_TRACKED_REVISIONS then s
  else (outOfWindow order s.revisions).foldl markDeleted s

/-- The first loop of `take_reconciliation_batch`, for at most `n` ids. -/
def takeBatch : (n : ℕ) → PollingRevisionState → PollingRevisionState × List Str
  | 0, s => (s, [])
  | n + 1, s =>
    match s.reconciliationQueue with
    | [] => (s, [])
    | id :: queue =>
      let taken := takeBatch n
        { s with reconciliationQueue := queue, reconciliationSet := s.reconciliationSet.erase id }
      (taken.1, id :: taken.2)

def takeReconciliationBatch (s : PollingRevisionState) : PollingRevisionState × List Str :=
  takeBatch RECONCILIATION_BUDGET s

def requeueReconciliation (s : PollingRevisionState) (id : Str) : PollingRevisionState :=
  s.queueReconciliation id

/-- The ids of the current page leave the queue. -/
def leaveQueue (s : PollingRevisionState) (current : List Str) : PollingRevisionState :=
  let reconciliationSet := s.reconciliationSet.filter (· ∉ current)
  { s with
    reconciliationSet := reconciliationSet
    reconciliationQueue := s.reconciliationQueue.filter (· ∈ reconciliationSet) }

/-- The records that the previous poll saw and the current page does not have. -/
def missing (order : HashOrder) (s : PollingRevisionState) (previousPoll : ℕ)
    (current : List Str) : List Str :=
  ((order.iterate s.revisions.entries).filter fun e => e.1.startsWith "at://" &&
    decide (e.2.lastSeenPoll = previousPoll) && !current.contains e.1).map Prod.fst

section

variable (statusRevision : Status β → Str)

/-- One status of a page, with the revisions and the changed statuses so far. -/
def observe (pollNumber : ℕ) (observed : OrderedMap Str RevisionEntry × List (Status β))
    (status : Status β) : OrderedMap Str RevisionEntry × List (Status β) :=
  match revisionStatusId status with
  | none => observed
  | some id =>
    let fingerprint := statusRevision status
    let isChanged := (observed.1.get id).all fun entry => entry.fingerprint != fingerprint
    (observed.1.set id ⟨fingerprint, pollNumber⟩,
      if isChanged then observed.2 ++ [status] else observed.2)

/-- `observe_page`, with the changed statuses and the number of candidates. -/
def observePage (order : HashOrder) (s : PollingRevisionState) (statuses : List (Status β)) :
    PollingRevisionState × List (Status β) × ℕ :=
  let pollNumber := s.pollNumber + 1
  let current := statuses.filterMap realStatusId
  let left := { s with pollNumber := pollNumber }.leaveQueue current
  let queued := (left.missing order (pollNumber - 1) current).foldl queueReconciliation left
  let observed := statuses.foldl (observe statusRevision pollNumber) (queued.revisions, [])
  let pruned := { queued with revisions := observed.1 }.pruneRevisionWindow order
  (pruned, observed.2, pruned.reconciliationQueue.length)

/-- `observe_reconciled`, with the status if it is changed. -/
def observeReconciled (s : PollingRevisionState) (status : Status β) :
    PollingRevisionState × Option (Status β) :=
  match realStatusId status with
  | none => (s, none)
  | some id =>
    let fingerprint := statusRevision status
    let changed := (s.revisions.get id).all fun entry => entry.fingerprint != fingerprint
    ({ s with revisions := s.revisions.set id ⟨fingerprint, s.pollNumber⟩ },
      if changed then some status else none)

end

end PollingRevisionState

/-! ### Sequences of operations -/

inductive Operation (β : Type)
  | observePage (statuses : List (Status β)) (order : HashOrder)
  | observeReconciled (status : Status β)
  | takeReconciliationBatch
  | requeueReconciliation (id : Str)
  | markDeleted (id : Str)
  | pruneRevisionWindow (order : HashOrder)
  | fromCheckpoint (checkpoint : PersistedCheckpoint)

namespace PollingRevisionState

variable (statusRevision : Status β → Str)

def step (s : PollingRevisionState) : Operation β → PollingRevisionState
  | .observePage statuses order => (s.observePage statusRevision order statuses).1
  | .observeReconciled status => (s.observeReconciled statusRevision status).1
  | .takeReconciliationBatch => s.takeReconciliationBatch.1
  | .requeueReconciliation id => s.requeueReconciliation id
  | .markDeleted id => s.markDeleted id
  | .pruneRevisionWindow order => s.pruneRevisionWindow order
  | .fromCheckpoint checkpoint => .fromCheckpoint checkpoint

def run (operations : List (Operation β)) : PollingRevisionState :=
  operations.foldl (step statusRevision) .empty

end PollingRevisionState

def recentStep (recent : List Str) : Operation β → List Str
  | .observePage statuses _ => statuses.filterMap revisionStatusId
  | .observeReconciled status => recent ++ (realStatusId status).toList
  | .fromCheckpoint checkpoint => checkpoint.revisions.map PersistedRevision.id
  | _ => recent

/-- The records of the latest page or checkpoint, and those found to exist since. -/
def recentIds (operations : List (Operation β)) : List Str := operations.foldl recentStep []

def reconciledStep (n : ℕ) : Operation β → ℕ
  | .observePage _ _ | .pruneRevisionWindow _ | .fromCheckpoint _ => 0
  | .observeReconciled _ => n + 1
  | _ => n

/-- How many records have been found to exist since the window was last pruned or restored. -/
def reconciledSince (operations : List (Operation β)) : ℕ := operations.foldl reconciledStep 0

theorem recentIds_snoc (operations : List (Operation β)) (operation : Operation β) :
    recentIds (operations ++ [operation]) = recentStep (recentIds operations) operation := by
  rw [recentIds, List.foldl_append]
  rfl

theorem reconciledSince_snoc (operations : List (Operation β)) (operation : Operation β) :
    reconciledSince (operations ++ [operation]) =
      reconciledStep (reconciledSince operations) operation := by
  rw [reconciledSince, List.foldl_append]
  rfl

/-- What brings a record into the queue. -/
def Enters (earlier : List (Operation β)) (operation : Operation β) (id : Str) : Prop :=
  (∃ statuses order, operation = .observePage statuses order ∧ id ∈ recentIds earlier ∧
    id ∉ statuses.filterMap realStatusId) ∨
  operation = .requeueReconciliation id ∨
  ∃ checkpoint, operation = .fromCheckpoint checkpoint ∧ id ∈ checkpoint.reconciliationQueue

namespace PollingRevisionState

/-! ### The queue and its set -/

/-- The queue agrees with its set. -/
def Consistent (s : PollingRevisionState) : Prop :=
  Agrees s.reconciliationQueue s.reconciliationSet

section

variable {s : PollingRevisionState} {id id' : Str}

theorem Consistent.queueReconciliation (h : Consistent s) (id : Str) :
    Consistent (s.queueReconciliation id) := by
  unfold PollingRevisionState.queueReconciliation
  split_ifs with hid
  · exact h
  · exact Agrees.push h hid

theorem mem_queueReconciliation (h : Consistent s) :
    id' ∈ (s.queueReconciliation id).reconciliationQueue ↔
      id' ∈ s.reconciliationQueue ∨ id' = id := by
  unfold PollingRevisionState.queueReconciliation
  split_ifs with hid
  · have hqueued := (h.mem_iff id).1 hid
    exact ⟨Or.inl, fun hid' => hid'.elim (fun h => h) fun heq => heq ▸ hqueued⟩
  · rw [List.mem_append, List.mem_singleton]

theorem revisions_queueReconciliation : (s.queueReconciliation id).revisions = s.revisions := by
  unfold PollingRevisionState.queueReconciliation
  split_ifs <;> rfl

theorem pollNumber_queueReconciliation :
    (s.queueReconciliation id).pollNumber = s.pollNumber := by
  unfold PollingRevisionState.queueReconciliation
  split_ifs <;> rfl

/-- A list of ids is queued behind what is queued already. -/
theorem foldl_queueReconciliation (h : Consistent s) (ids : List Str) :
    Consistent (ids.foldl PollingRevisionState.queueReconciliation s) ∧
      (∀ id, id ∈ (ids.foldl PollingRevisionState.queueReconciliation s).reconciliationQueue ↔
        id ∈ s.reconciliationQueue ∨ id ∈ ids) ∧
      (ids.foldl PollingRevisionState.queueReconciliation s).revisions = s.revisions ∧
      (ids.foldl PollingRevisionState.queueReconciliation s).pollNumber = s.pollNumber := by
  induction ids generalizing s with
  | nil => exact ⟨h, fun id => by simp, rfl, rfl⟩
  | cons first ids ih =>
    obtain ⟨hconsistent, hmem, hrevisions, hpoll⟩ := ih (h.queueReconciliation first)
    refine ⟨hconsistent, fun id => ?_, hrevisions.trans revisions_queueReconciliation,
      hpoll.trans pollNumber_queueReconciliation⟩
    rw [List.foldl_cons, hmem, mem_queueReconciliation h, List.mem_cons, or_assoc]

theorem Consistent.markDeleted (h : Consistent s) (id : Str) : Consistent (s.markDeleted id) :=
  Agrees.erase h id

theorem Consistent.foldl_markDeleted (h : Consistent s) (ids : List Str) :
    Consistent (ids.foldl PollingRevisionState.markDeleted s) := by
  induction ids generalizing s with
  | nil => exact h
  | cons id ids ih => exact ih (h.markDeleted id)

/-- What marking as deleted leaves: the other records, tracked and queued. -/
theorem foldl_markDeleted (ids : List Str) (s : PollingRevisionState) :
    (∀ id, (ids.foldl PollingRevisionState.markDeleted s).revisions.get id =
      if id ∈ ids then none else s.revisions.get id) ∧
    (∀ id, id ∈ (ids.foldl PollingRevisionState.markDeleted s).reconciliationQueue ↔
      id ∈ s.reconciliationQueue ∧ id ∉ ids) ∧
    (ids.foldl PollingRevisionState.markDeleted s).pollNumber = s.pollNumber := by
  induction ids generalizing s with
  | nil => exact ⟨fun id => (if_neg List.not_mem_nil).symm, fun id => by simp, rfl⟩
  | cons first ids ih =>
    obtain ⟨hget, hmem, hpoll⟩ := ih (s.markDeleted first)
    refine ⟨fun id => ?_, fun id => ?_, hpoll⟩
    · have hfirst : (s.markDeleted first).revisions.get id =
          if id = first then none else s.revisions.get id := OrderedMap.get_delete
      rw [List.foldl_cons, hget, hfirst]
      by_cases hid : id ∈ ids
      · simp [hid]
      · by_cases heq : id = first <;> simp [hid, heq]
    · have hfirst : id ∈ (s.markDeleted first).reconciliationQueue ↔
          id ∈ s.reconciliationQueue ∧ id ≠ first := by
        show id ∈ s.reconciliationQueue.filter (· ≠ first) ↔ _
        rw [List.mem_filter, decide_eq_true_eq]
      rw [List.foldl_cons, hmem, hfirst, List.mem_cons, not_or, and_assoc]

theorem Consistent.takeBatch (h : Consistent s) (n : ℕ) : Consistent (takeBatch n s).1 := by
  induction n generalizing s with
  | zero => exact h
  | succ n ih =>
    rw [PollingRevisionState.takeBatch]
    cases hqueue : s.reconciliationQueue with
    | nil => exact h
    | cons first queue =>
      refine ih ?_
      have hagrees : Agrees (first :: queue) s.reconciliationSet := hqueue ▸ h
      exact hagrees.pop

theorem takeBatch_frame (n : ℕ) (s : PollingRevisionState) :
    (takeBatch n s).1.revisions = s.revisions ∧ (takeBatch n s).1.pollNumber = s.pollNumber ∧
      ∀ id ∈ (takeBatch n s).1.reconciliationQueue, id ∈ s.reconciliationQueue := by
  induction n generalizing s with
  | zero => exact ⟨rfl, rfl, fun _ h => h⟩
  | succ n ih =>
    rw [PollingRevisionState.takeBatch]
    cases hqueue : s.reconciliationQueue with
    | nil => exact ⟨rfl, rfl, fun _ h => hqueue ▸ h⟩
    | cons first queue =>
      obtain ⟨hrevisions, hpoll, hmem⟩ := ih { s with
        reconciliationQueue := queue
        reconciliationSet := s.reconciliationSet.erase first }
      exact ⟨hrevisions, hpoll, fun id h => List.mem_cons_of_mem _ (hmem id h)⟩

/-! ### The window -/

/-- What falls out is tracked, once each, and as much as there is too much. -/
theorem outOfWindow_spec (order : HashOrder) (revisions : OrderedMap Str RevisionEntry) :
    (outOfWindow order revisions).Nodup ∧ outOfWindow order revisions ⊆ revisions.keys ∧
      (outOfWindow order revisions).length = revisions.keys.length - MAX_TRACKED_REVISIONS := by
  have hperm : ((order.sortBySeen ((order.iterate revisions.entries).map
      fun e => (e.1, e.2.lastSeenPoll))).map Prod.fst).Perm revisions.keys := by
    refine ((order.sortBySeen_perm _).map Prod.fst).trans ?_
    rw [List.map_map]
    exact (order.iterate_perm revisions.entries).map Prod.fst
  have hsublist : (outOfWindow order revisions).Sublist ((order.sortBySeen
      ((order.iterate revisions.entries).map fun e => (e.1, e.2.lastSeenPoll))).map Prod.fst) :=
    (List.take_sublist _ _).map Prod.fst
  refine ⟨(hperm.nodup_iff.2 revisions.nodup_keys).sublist hsublist,
    fun id hid => hperm.subset (hsublist.subset hid), ?_⟩
  have hlength := hperm.length_eq
  rw [List.length_map] at hlength
  unfold outOfWindow
  dsimp only
  rw [List.length_map, List.length_take, hlength]
  omega

theorem Consistent.pruneRevisionWindow (h : Consistent s) (order : HashOrder) :
    Consistent (s.pruneRevisionWindow order) := by
  unfold PollingRevisionState.pruneRevisionWindow
  split_ifs
  · exact h
  · exact h.foldl_markDeleted _

/-- Pruning takes records away, from the window and from the queue alike. -/
theorem pruneRevisionWindow_frame (order : HashOrder) (s : PollingRevisionState) :
    (∀ id entry, (s.pruneRevisionWindow order).revisions.get id = some entry →
      s.revisions.get id = some entry) ∧
    (∀ id ∈ (s.pruneRevisionWindow order).reconciliationQueue, id ∈ s.reconciliationQueue) ∧
    (∀ id ∈ s.reconciliationQueue, id ∈ (s.pruneRevisionWindow order).reconciliationQueue ∨
      id ∉ (s.pruneRevisionWindow order).revisions.keys) ∧
    (s.pruneRevisionWindow order).pollNumber = s.pollNumber := by
  unfold PollingRevisionState.pruneRevisionWindow
  split_ifs
  · exact ⟨fun _ _ h => h, fun _ h => h, fun _ h => Or.inl h, rfl⟩
  · obtain ⟨hget, hmem, hpoll⟩ := foldl_markDeleted (outOfWindow order s.revisions) s
    refine ⟨fun id entry h => ?_, fun id h => ((hmem id).1 h).1, fun id h => ?_, hpoll⟩
    · rw [hget] at h
      split_ifs at h
      exact h
    · by_cases hout : id ∈ outOfWindow order s.revisions
      · refine Or.inr ?_
        rw [← OrderedMap.get_eq_none, hget, if_pos hout]
      · exact Or.inl ((hmem id).2 ⟨h, hout⟩)

theorem length_pruneRevisionWindow_le (order : HashOrder) (s : PollingRevisionState) :
    (s.pruneRevisionWindow order).revisions.keys.length ≤ MAX_TRACKED_REVISIONS := by
  unfold PollingRevisionState.pruneRevisionWindow
  split_ifs with hfew
  · rwa [OrderedMap.keys, List.length_map]
  · obtain ⟨hnodup, hsub, hlength⟩ := outOfWindow_spec order s.revisions
    obtain ⟨hget, -, -⟩ := foldl_markDeleted (outOfWindow order s.revisions) s
    set kept := ((outOfWindow order s.revisions).foldl markDeleted s).revisions with hkept
    have hkeys : kept.keys.toFinset ⊆
        s.revisions.keys.toFinset \ (outOfWindow order s.revisions).toFinset := by
      intro id hid
      rw [List.mem_toFinset, OrderedMap.mem_keys, hget] at hid
      rw [Finset.mem_sdiff, List.mem_toFinset, List.mem_toFinset, OrderedMap.mem_keys]
      split_ifs at hid with hout
      · cases hid
      · exact ⟨hid, hout⟩
    have hsub' : (outOfWindow order s.revisions).toFinset ⊆ s.revisions.keys.toFinset := by
      intro id hid
      rw [List.mem_toFinset] at hid ⊢
      exact hsub hid
    have hcard := Finset.card_le_card hkeys
    rw [Finset.card_sdiff_of_subset hsub', List.toFinset_card_of_nodup kept.nodup_keys,
      List.toFinset_card_of_nodup s.revisions.nodup_keys,
      List.toFinset_card_of_nodup hnodup, hlength] at hcard
    omega

end

/-! ### Pages -/

section

variable {statusRevision : Status β → Str} {s : PollingRevisionState} {id : Str}
  {statuses : List (Status β)}

/-- The entry of an id after a page: that of the page, or the one before. -/
theorem get_foldl_observe {pollNumber : ℕ} {entry : RevisionEntry}
    {observed : OrderedMap Str RevisionEntry × List (Status β)}
    (h : (statuses.foldl (observe statusRevision pollNumber) observed).1.get id = some entry) :
    id ∈ statuses.filterMap revisionStatusId ∧ entry.lastSeenPoll = pollNumber ∨
      observed.1.get id = some entry := by
  induction statuses generalizing observed with
  | nil => exact Or.inr h
  | cons status statuses ih =>
    have hmore : id ∈ statuses.filterMap revisionStatusId →
        id ∈ (status :: statuses).filterMap revisionStatusId := by
      intro hmem
      obtain ⟨other, hother, hid⟩ := List.mem_filterMap.1 hmem
      exact List.mem_filterMap.2 ⟨other, List.mem_cons_of_mem _ hother, hid⟩
    rcases ih h with ⟨hmem, hpoll⟩ | hget
    · exact Or.inl ⟨hmore hmem, hpoll⟩
    · cases hid : revisionStatusId status with
      | none =>
        rw [observe, hid] at hget
        exact Or.inr hget
      | some first =>
        rw [observe, hid] at hget
        dsimp only at hget
        rw [OrderedMap.get_set] at hget
        split_ifs at hget with heq
        · refine Or.inl ⟨List.mem_filterMap.2 ⟨status, List.mem_cons_self, ?_⟩, ?_⟩
          · rw [hid, heq]
          · rw [← Option.some.inj hget]
        · exact Or.inr hget

/-- What leaves the queue with a page. -/
theorem Consistent.leaveQueue (h : Consistent s) (current : List Str) :
    Consistent (s.leaveQueue current) :=
  Agrees.retain h (Finset.filter_subset _ _)

theorem mem_leaveQueue (h : Consistent s) {current : List Str} :
    id ∈ (s.leaveQueue current).reconciliationQueue ↔
      id ∈ s.reconciliationQueue ∧ id ∉ current := by
  show id ∈ s.reconciliationQueue.filter (· ∈ s.reconciliationSet.filter (· ∉ current)) ↔ _
  rw [List.mem_filter, decide_eq_true_eq, Finset.mem_filter, h.mem_iff]
  exact ⟨fun hid => ⟨hid.1, hid.2.2⟩, fun hid => ⟨hid.1, hid.1, hid.2⟩⟩

theorem mem_missing {order : HashOrder} {previousPoll : ℕ} {current : List Str} :
    id ∈ s.missing order previousPoll current ↔ id.startsWith "at://" = true ∧ id ∉ current ∧
      ∃ entry, s.revisions.get id = some entry ∧ entry.lastSeenPoll = previousPoll := by
  rw [missing, List.mem_map]
  constructor
  · rintro ⟨⟨id, entry⟩, hmem, rfl⟩
    obtain ⟨hentry, hcond⟩ := List.mem_filter.1 hmem
    rw [Bool.and_eq_true, Bool.and_eq_true, decide_eq_true_eq] at hcond
    obtain ⟨⟨hat, hpoll⟩, hcurrent⟩ := hcond
    refine ⟨hat, by simpa using hcurrent, entry, ?_, hpoll⟩
    exact OrderedMap.get_eq_some.2 ((order.iterate_perm _).subset hentry)
  · rintro ⟨hat, hcurrent, entry, hget, hpoll⟩
    refine ⟨(id, entry), List.mem_filter.2 ⟨?_, ?_⟩, rfl⟩
    · exact (order.iterate_perm _).mem_iff.2 (OrderedMap.get_eq_some.1 hget)
    · rw [Bool.and_eq_true, Bool.and_eq_true, decide_eq_true_eq]
      exact ⟨⟨hat, hpoll⟩, by simpa using hcurrent⟩

/-- What a page does: a record comes into the queue because the latest poll saw it and the page
does not have it. -/
structure PageSpec (s : PollingRevisionState) (statuses : List (Status β))
    (s' : PollingRevisionState) : Prop where
  consistent : Consistent s'
  pollNumber : s'.pollNumber = s.pollNumber + 1
  tracked : ∀ id entry, s'.revisions.get id = some entry →
    id ∈ statuses.filterMap revisionStatusId ∧ entry.lastSeenPoll = s.pollNumber + 1 ∨
      s.revisions.get id = some entry
  bounded : s'.revisions.keys.length ≤ MAX_TRACKED_REVISIONS
  entered : ∀ id ∈ s'.reconciliationQueue, id ∈ s.reconciliationQueue ∨
    id ∉ statuses.filterMap realStatusId ∧
      ∃ entry, s.revisions.get id = some entry ∧ entry.lastSeenPoll = s.pollNumber
  queued : ∀ id entry, s.revisions.get id = some entry → entry.lastSeenPoll = s.pollNumber →
    id.startsWith "at://" = true → id ∉ statuses.filterMap realStatusId →
      id ∈ s'.reconciliationQueue ∨ id ∉ s'.revisions.keys

theorem observePage_spec (statusRevision : Status β → Str) (order : HashOrder)
    (statuses : List (Status β)) (h : Consistent s) :
    PageSpec s statuses (s.observePage statusRevision order statuses).1 := by
  unfold observePage
  dsimp only
  set current := statuses.filterMap realStatusId with hcurrent
  have hleft : Consistent ({ s with pollNumber := s.pollNumber + 1 }.leaveQueue current) :=
    Consistent.leaveQueue (s := { s with pollNumber := s.pollNumber + 1 }) h current
  have hmemLeft : ∀ id, id ∈ ({ s with pollNumber := s.pollNumber + 1 }.leaveQueue
      current).reconciliationQueue ↔ id ∈ s.reconciliationQueue ∧ id ∉ current := fun id =>
    mem_leaveQueue (s := { s with pollNumber := s.pollNumber + 1 }) h
  set left := { s with pollNumber := s.pollNumber + 1 }.leaveQueue current with hleftDef
  obtain ⟨hqueued, hmemQueued, hrevisions, hpoll⟩ :=
    foldl_queueReconciliation hleft (left.missing order s.pollNumber current)
  have hmissing : ∀ id, id ∈ left.missing order s.pollNumber current ↔
      id.startsWith "at://" = true ∧ id ∉ current ∧
        ∃ entry, s.revisions.get id = some entry ∧ entry.lastSeenPoll = s.pollNumber :=
    fun id => mem_missing
  rw [Nat.add_sub_cancel]
  set queued := (left.missing order s.pollNumber current).foldl queueReconciliation left
  set observed := statuses.foldl (observe statusRevision (s.pollNumber + 1)) (queued.revisions, [])
    with hobserved
  have hready : Consistent { queued with revisions := observed.1 } := hqueued
  obtain ⟨hget, hqueue, hkeep, hpruned⟩ :=
    pruneRevisionWindow_frame order { queued with revisions := observed.1 }
  refine ⟨hready.pruneRevisionWindow order, hpruned.trans hpoll, ?_,
    length_pruneRevisionWindow_le order _, ?_, ?_⟩
  · intro id entry hentry
    rcases get_foldl_observe (hget id entry hentry) with hpage | hbefore
    · exact Or.inl hpage
    · rw [hrevisions] at hbefore
      exact Or.inr hbefore
  · intro id hid
    rcases (hmemQueued id).1 (hqueue id hid) with hid | hid
    · exact Or.inl ((hmemLeft id).1 hid).1
    · exact Or.inr ((hmissing id).1 hid).2
  · intro id entry hentry hseen hat hnot
    exact hkeep id ((hmemQueued id).2 (Or.inr ((hmissing id).2 ⟨hat, hnot, entry, hentry, hseen⟩)))

/-! ### Restarts -/

theorem foldl_queueRestored (h : Consistent s) (ids : List Str) :
    Consistent (ids.foldl queueRestored s) ∧
      (∀ id ∈ (ids.foldl queueRestored s).reconciliationQueue,
        id ∈ s.reconciliationQueue ∨ id ∈ ids) ∧
      (ids.foldl queueRestored s).revisions = s.revisions ∧
      (ids.foldl queueRestored s).pollNumber = s.pollNumber := by
  induction ids generalizing s with
  | nil => exact ⟨h, fun id hid => Or.inl hid, rfl, rfl⟩
  | cons first ids ih =>
    rw [List.foldl_cons]
    by_cases hblank : first.trim = []
    · rw [queueRestored, if_pos hblank]
      obtain ⟨hconsistent, hmem, hrest⟩ := ih h
      exact ⟨hconsistent, fun id hid => (hmem id hid).imp_right (List.mem_cons_of_mem _), hrest⟩
    · rw [queueRestored, if_neg hblank]
      obtain ⟨hconsistent, hmem, hrevisions, hpoll⟩ := ih (h.queueReconciliation first)
      refine ⟨hconsistent, fun id hid => ?_, hrevisions.trans revisions_queueReconciliation,
        hpoll.trans pollNumber_queueReconciliation⟩
      rw [List.mem_cons, ← or_assoc, ← mem_queueReconciliation h]
      exact hmem id hid

theorem fromCheckpoint_spec (checkpoint : PersistedCheckpoint) :
    Consistent (fromCheckpoint checkpoint) ∧
      (∀ id ∈ (fromCheckpoint checkpoint).reconciliationQueue,
        id ∈ checkpoint.reconciliationQueue) ∧
      (fromCheckpoint checkpoint).revisions = restoredRevisions checkpoint ∧
      (fromCheckpoint checkpoint).pollNumber = 1 := by
  have hstart : Consistent ⟨restoredRevisions checkpoint, [], ∅, 1⟩ := agrees_empty
  obtain ⟨hconsistent, hmem, hrevisions, hpoll⟩ := foldl_queueRestored hstart
    (checkpoint.reconciliationQueue.take MAX_TRACKED_REVISIONS)
  refine ⟨hconsistent, fun id hid => ?_, hrevisions, hpoll⟩
  rcases hmem id hid with hid | hid
  · exact absurd hid List.not_mem_nil
  · exact List.mem_of_mem_take hid

end

/-! ### Every sequence -/

section

variable {statusRevision : Status β → Str} {operations : List (Operation β)}
  {operation : Operation β} {s : PollingRevisionState}

/-- What holds after every sequence of operations. -/
structure Invariant (operations : List (Operation β)) (s : PollingRevisionState) : Prop where
  consistent : Consistent s
  seen_le : ∀ id entry, s.revisions.get id = some entry → entry.lastSeenPoll ≤ s.pollNumber
  recent : ∀ id entry, s.revisions.get id = some entry → entry.lastSeenPoll = s.pollNumber →
    id ∈ recentIds operations
  bounded : s.revisions.keys.length ≤ MAX_TRACKED_REVISIONS + reconciledSince operations

theorem invariant_nil : Invariant ([] : List (Operation β)) .empty where
  consistent := agrees_empty
  seen_le id entry h := by cases h
  recent id entry h := by cases h
  bounded := Nat.zero_le _

/-- An operation that takes records away, at most. -/
theorem Invariant.of_frame {s' : PollingRevisionState} (h : Invariant operations s)
    (hconsistent : Consistent s') (hpoll : s'.pollNumber = s.pollNumber)
    (hget : ∀ id entry, s'.revisions.get id = some entry → s.revisions.get id = some entry)
    (hrecent : recentStep (recentIds operations) operation = recentIds operations)
    (hbounded : s'.revisions.keys.length ≤
      MAX_TRACKED_REVISIONS + reconciledStep (reconciledSince operations) operation) :
    Invariant (operations ++ [operation]) s' where
  consistent := hconsistent
  seen_le id entry hentry := by
    rw [hpoll]
    exact h.seen_le id entry (hget id entry hentry)
  recent id entry hentry hseen := by
    rw [recentIds_snoc, hrecent]
    exact h.recent id entry (hget id entry hentry) (hseen.trans hpoll)
  bounded := by
    rw [reconciledSince_snoc]
    exact hbounded

theorem length_keys_delete_le (revisions : OrderedMap Str RevisionEntry) (id : Str) :
    (revisions.delete id).keys.length ≤ revisions.keys.length :=
  (List.filter_sublist.map Prod.fst).length_le

theorem length_keys_set_le (revisions : OrderedMap Str RevisionEntry) (id : Str)
    (entry : RevisionEntry) :
    (revisions.set id entry).keys.length ≤ revisions.keys.length + 1 := by
  rw [OrderedMap.keys_set]
  split_ifs
  · exact Nat.le_succ _
  · rw [List.length_append, List.length_singleton]

theorem Invariant.observePage (h : Invariant operations s) (statuses : List (Status β))
    (order : HashOrder) : Invariant (operations ++ [.observePage statuses order])
      (s.observePage statusRevision order statuses).1 := by
  have hpage := observePage_spec statusRevision order statuses h.consistent
  refine ⟨hpage.consistent, fun id entry hentry => ?_, fun id entry hentry hseen => ?_, ?_⟩
  · rw [hpage.pollNumber]
    rcases hpage.tracked id entry hentry with ⟨-, hpoll⟩ | hbefore
    · exact hpoll.le
    · exact (h.seen_le id entry hbefore).trans (Nat.le_succ _)
  · rw [recentIds_snoc]
    rcases hpage.tracked id entry hentry with ⟨hmem, -⟩ | hbefore
    · exact hmem
    · have hle := h.seen_le id entry hbefore
      rw [hpage.pollNumber] at hseen
      omega
  · exact hpage.bounded.trans (Nat.le_add_right _ _)

theorem Invariant.observeReconciled (h : Invariant operations s) (status : Status β) :
    Invariant (operations ++ [.observeReconciled status])
      (s.observeReconciled statusRevision status).1 := by
  unfold PollingRevisionState.observeReconciled
  cases hid : realStatusId status with
  | none =>
    refine h.of_frame h.consistent rfl (fun _ _ hentry => hentry) ?_ ?_
    · rw [recentStep, hid]
      exact List.append_nil _
    · exact h.bounded.trans (Nat.add_le_add_left (Nat.le_succ _) _)
  | some id =>
    refine ⟨h.consistent, fun id' entry hentry => ?_, fun id' entry hentry hseen => ?_, ?_⟩
    · rw [OrderedMap.get_set] at hentry
      split_ifs at hentry
      · rw [← Option.some.inj hentry]
      · exact h.seen_le id' entry hentry
    · rw [recentIds_snoc, recentStep, hid, List.mem_append]
      rw [OrderedMap.get_set] at hentry
      split_ifs at hentry with heq
      · exact Or.inr (heq ▸ List.mem_singleton_self _)
      · exact Or.inl (h.recent id' entry hentry hseen)
    · rw [reconciledSince_snoc]
      have hbounded := h.bounded
      refine (length_keys_set_le _ _ _).trans ?_
      show s.revisions.keys.length + 1 ≤ MAX_TRACKED_REVISIONS + (reconciledSince operations + 1)
      omega

theorem Invariant.fromCheckpoint (checkpoint : PersistedCheckpoint) :
    Invariant (operations ++ [.fromCheckpoint checkpoint])
      (PollingRevisionState.fromCheckpoint checkpoint) := by
  obtain ⟨hconsistent, -, hrevisions, hpoll⟩ := fromCheckpoint_spec checkpoint
  refine ⟨hconsistent, fun id entry hentry => ?_, fun id entry hentry _ => ?_, ?_⟩
  · rw [hrevisions] at hentry
    rw [hpoll, lastSeenPoll_restoredRevisions hentry]
  · rw [hrevisions] at hentry
    obtain ⟨revision, hmem, hid, -⟩ :=
      mem_keys_restoredRevisions (OrderedMap.mem_keys_of_get hentry)
    rw [recentIds_snoc]
    exact List.mem_map.2 ⟨revision, hmem, hid⟩
  · rw [hrevisions]
    exact length_keys_restoredRevisions_le.trans (Nat.le_add_right _ _)

theorem Invariant.step (h : Invariant operations s) (operation : Operation β) :
    Invariant (operations ++ [operation]) (s.step statusRevision operation) := by
  cases operation with
  | observePage statuses order => exact h.observePage statuses order
  | observeReconciled status => exact h.observeReconciled status
  | takeReconciliationBatch =>
    obtain ⟨hrevisions, hpoll, -⟩ := takeBatch_frame RECONCILIATION_BUDGET s
    refine h.of_frame (h.consistent.takeBatch _) hpoll (fun id entry hentry => ?_) rfl ?_
    · exact hrevisions ▸ hentry
    · exact le_of_eq_of_le (congrArg (fun m => m.keys.length) hrevisions) h.bounded
  | requeueReconciliation id =>
    refine h.of_frame (h.consistent.queueReconciliation id) pollNumber_queueReconciliation
      (fun id entry hentry => ?_) rfl ?_
    · exact (revisions_queueReconciliation (s := s)) ▸ hentry
    · exact le_of_eq_of_le (congrArg (fun m => m.keys.length) revisions_queueReconciliation)
        h.bounded
  | markDeleted id =>
    refine h.of_frame (h.consistent.markDeleted id) rfl (fun id' entry hentry => ?_) rfl ?_
    · have hdelete : (s.revisions.delete id).get id' = some entry := hentry
      rw [OrderedMap.get_delete] at hdelete
      split_ifs at hdelete
      exact hdelete
    · exact (length_keys_delete_le _ _).trans h.bounded
  | pruneRevisionWindow order =>
    obtain ⟨hget, -, -, hpoll⟩ := pruneRevisionWindow_frame order s
    refine h.of_frame (h.consistent.pruneRevisionWindow order) hpoll hget rfl ?_
    exact length_pruneRevisionWindow_le order s
  | fromCheckpoint checkpoint => exact .fromCheckpoint checkpoint

theorem invariant_run (statusRevision : Status β → Str) (operations : List (Operation β)) :
    Invariant operations (run statusRevision operations) := by
  induction operations using List.reverseRecOn with
  | nil => exact invariant_nil
  | append_singleton operations operation ih =>
    rw [run, List.foldl_append]
    exact ih.step operation

/-- How a record comes into the queue. -/
theorem enters_of_step (operations : List (Operation β)) (operation : Operation β) {id : Str}
    (hid : id ∈ (step statusRevision (run statusRevision operations) operation).reconciliationQueue)
    (hnew : id ∉ (run statusRevision operations).reconciliationQueue) :
    Enters operations operation id := by
  have hinvariant := invariant_run statusRevision operations
  cases operation with
  | observePage statuses order =>
    have hpage := observePage_spec statusRevision order statuses
      hinvariant.consistent
    rcases hpage.entered id hid with hold | ⟨hnot, entry, hentry, hseen⟩
    · exact absurd hold hnew
    · exact Or.inl ⟨statuses, order, rfl, hinvariant.recent id entry hentry hseen, hnot⟩
  | observeReconciled status =>
    refine absurd ?_ hnew
    have hqueue : (PollingRevisionState.observeReconciled statusRevision
        (run statusRevision operations) status).1.reconciliationQueue =
        (run statusRevision operations).reconciliationQueue := by
      unfold PollingRevisionState.observeReconciled
      cases realStatusId status <;> rfl
    exact hqueue ▸ hid
  | takeReconciliationBatch =>
    exact absurd ((takeBatch_frame RECONCILIATION_BUDGET _).2.2 id hid) hnew
  | requeueReconciliation other =>
    rcases (mem_queueReconciliation hinvariant.consistent).1 hid with hold | rfl
    · exact absurd hold hnew
    · exact Or.inr (Or.inl rfl)
  | markDeleted other => exact absurd (List.mem_filter.1 hid).1 hnew
  | pruneRevisionWindow order =>
    exact absurd ((pruneRevisionWindow_frame order _).2.1 id hid) hnew
  | fromCheckpoint checkpoint =>
    exact Or.inr (Or.inr ⟨checkpoint, rfl, (fromCheckpoint_spec checkpoint).2.1 id hid⟩)

/-- A record that has been found to exist is queued again by the next page that does not have it,
if that page leaves it in the window. -/
theorem queued_again (operations : List (Operation β)) (status : Status β) {id : Str}
    (hid : realStatusId status = some id) (statuses : List (Status β)) (order : HashOrder)
    (hnot : id ∉ statuses.filterMap realStatusId) :
    id ∈ (run statusRevision (operations ++
        [.observeReconciled status, .observePage statuses order])).reconciliationQueue ∨
      id ∉ (run statusRevision (operations ++
        [.observeReconciled status, .observePage statuses order])).revisions.keys := by
  have hrun : run statusRevision (operations ++
      [.observeReconciled status, .observePage statuses order]) =
      (PollingRevisionState.observePage statusRevision order
        (run statusRevision (operations ++ [.observeReconciled status])) statuses).1 := by
    simp only [run, List.foldl_append, List.foldl_cons, List.foldl_nil]
    rfl
  have hreconciled : run statusRevision (operations ++ [.observeReconciled status]) =
      { run statusRevision operations with
        revisions := (run statusRevision operations).revisions.set id
          ⟨statusRevision status, (run statusRevision operations).pollNumber⟩ } := by
    rw [run, List.foldl_append]
    show (PollingRevisionState.observeReconciled statusRevision
      (run statusRevision operations) status).1 = _
    rw [PollingRevisionState.observeReconciled, hid]
  have hat : id.startsWith "at://" = true := by
    rw [realStatusId] at hid
    split_ifs at hid with hstarts
    rwa [← Option.some.inj hid]
  have hpage := observePage_spec statusRevision order statuses
    (invariant_run statusRevision (operations ++ [.observeReconciled status])).consistent
  rw [hrun]
  refine hpage.queued id ⟨statusRevision status, (run statusRevision operations).pollNumber⟩
    ?_ ?_ hat hnot
  · rw [hreconciled]
    exact OrderedMap.get_set_self
  · rw [hreconciled]

/-- After every sequence of operations the queue has no duplicate and the set has its members; at
most the limit is tracked, and one more for each record found to exist since the window was pruned
or restored; and a record comes into the queue with a page that does not have it, if it is of the
latest page or checkpoint or has been found to exist since, or because it is put back or restored.
A record found to exist counts as seen: the next page without it queues it again. -/
theorem polling_invariants (statusRevision : Status β → Str) (operations : List (Operation β)) :
    ((∀ id, id ∈ (run statusRevision operations).reconciliationSet ↔
        id ∈ (run statusRevision operations).reconciliationQueue) ∧
      (run statusRevision operations).reconciliationQueue.Nodup) ∧
    (run statusRevision operations).revisions.keys.length ≤
      MAX_TRACKED_REVISIONS + reconciledSince operations ∧
    (∀ operation id,
      id ∈ (run statusRevision (operations ++ [operation])).reconciliationQueue →
      id ∉ (run statusRevision operations).reconciliationQueue → Enters operations operation id) ∧
    ∀ status id, realStatusId status = some id → ∀ statuses order,
      id ∉ statuses.filterMap realStatusId →
      id ∈ (run statusRevision (operations ++
          [.observeReconciled status, .observePage statuses order])).reconciliationQueue ∨
        id ∉ (run statusRevision (operations ++
          [.observeReconciled status, .observePage statuses order])).revisions.keys := by
  have hinvariant := invariant_run statusRevision operations
  refine ⟨⟨hinvariant.consistent.mem_iff, hinvariant.consistent.nodup⟩, hinvariant.bounded,
    fun operation id hid hnew => ?_, fun status id hid statuses order hnot => ?_⟩
  · rw [run, List.foldl_append] at hid
    exact enters_of_step operations operation hid hnew
  · exact queued_again operations status hid statuses order hnot

/-! ### What a restart keeps -/

theorem reconciliationQueue_foldl_queueRestored (h : Consistent s) {ids : List Str}
    (hnodup : (s.reconciliationQueue ++ ids).Nodup) (hblank : ∀ id ∈ ids, id.trim ≠ []) :
    (ids.foldl queueRestored s).reconciliationQueue = s.reconciliationQueue ++ ids := by
  induction ids generalizing s with
  | nil => exact (List.append_nil _).symm
  | cons first ids ih =>
    have hnew : first ∉ s.reconciliationSet := by
      rw [h.mem_iff]
      exact fun hmem => (List.nodup_append'.1 hnodup).2.2 hmem List.mem_cons_self
    have hqueued : (s.queueReconciliation first).reconciliationQueue =
        s.reconciliationQueue ++ [first] := by
      rw [PollingRevisionState.queueReconciliation, if_neg hnew]
    rw [List.foldl_cons, queueRestored, if_neg (hblank first List.mem_cons_self),
      ih (h.queueReconciliation first) (by rwa [hqueued, List.append_assoc])
        fun id hid => hblank id (List.mem_cons_of_mem _ hid), hqueued, List.append_assoc]
    rfl

/-- After any sequence of operations, a restart from a checkpoint that fits keeps the queue in its
order and knows the revisions of the records that the latest page had or that are queued, and no
others. -/
theorem fromCheckpoint_checkpoint (statusRevision : Status β → Str)
    (operations : List (Operation β)) (hs : s = run statusRevision operations)
    (hqueue : s.reconciliationQueue.length ≤ MAX_TRACKED_REVISIONS)
    (hrevisions : s.checkpoint.revisions.length ≤ MAX_TRACKED_REVISIONS)
    (hqueued : ∀ id ∈ s.reconciliationQueue, id.trim ≠ [])
    (htracked : ∀ id ∈ s.revisions.keys, id.trim ≠ []) :
    (fromCheckpoint s.checkpoint).reconciliationQueue = s.reconciliationQueue ∧
    ∀ id, (fromCheckpoint s.checkpoint).revisions.get id = ((s.revisions.get id).filter fun entry =>
      entry.lastSeenPoll = s.pollNumber ∨ id ∈ s.reconciliationQueue).map fun entry =>
        ⟨entry.fingerprint, 1⟩ := by
  have hconsistent : Consistent s := hs ▸ (invariant_run statusRevision operations).consistent
  constructor
  · have hnodup : ([] ++ s.reconciliationQueue).Nodup := hconsistent.nodup
    have hrestored := reconciliationQueue_foldl_queueRestored
      (s := ⟨restoredRevisions s.checkpoint, [], ∅, 1⟩) agrees_empty hnodup hqueued
    have hwritten : s.checkpoint.reconciliationQueue = s.reconciliationQueue := rfl
    rw [fromCheckpoint, hwritten, List.take_of_length_le hqueue]
    exact hrestored
  · intro id
    rw [(fromCheckpoint_spec s.checkpoint).2.2.1]
    have hwritten (revision : PersistedRevision) : revision ∈ s.checkpoint.revisions ↔
        ∃ entry, s.revisions.get revision.id = some entry ∧ (entry.lastSeenPoll = s.pollNumber ∨
          revision.id ∈ s.reconciliationQueue) ∧ entry.fingerprint = revision.fingerprint := by
      rw [checkpoint, mem_persistedRevisions]
      simp only [decide_eq_true_eq, hconsistent.mem_iff]
    cases hkept : (s.revisions.get id).filter fun entry =>
        entry.lastSeenPoll = s.pollNumber ∨ id ∈ s.reconciliationQueue with
    | some entry =>
      obtain ⟨hget, hkeep⟩ := Option.filter_eq_some_iff.1 hkept
      have hnodup : (s.checkpoint.revisions.map PersistedRevision.id).Nodup := by
        dsimp only [checkpoint]
        exact nodup_persistedRevisions
      have hmem : ⟨id, entry.fingerprint⟩ ∈ s.checkpoint.revisions :=
        (hwritten ⟨id, entry.fingerprint⟩).2 ⟨entry, hget, of_decide_eq_true hkeep, rfl⟩
      exact get_restoredRevisions hnodup hrevisions hmem
        (htracked id (OrderedMap.mem_keys_of_get hget))
    | none =>
      rw [Option.map_none, OrderedMap.get_eq_none]
      intro hkey
      obtain ⟨revision, hrevision, rfl, -⟩ := mem_keys_restoredRevisions hkey
      obtain ⟨entry, hget, hkeep, -⟩ := (hwritten revision).1 hrevision
      rw [hget, Option.filter_some, if_pos (decide_eq_true hkeep)] at hkept
      cases hkept

end

/-! ### A post that has left the page -/

def post : Status Unit :=
  ⟨"at://did:plc:alice/app.bsky.feed.post/1", "at://did:plc:alice/app.bsky.feed.post/1", ()⟩

/-- A page that shows the statuses. -/
def showing (statuses : List (Status Unit)) : Operation Unit := .observePage statuses insertionOrder

/-- As many revisions as can be restored. -/
def fullCheckpoint : PersistedCheckpoint where
  revisions := (List.range MAX_TRACKED_REVISIONS).map fun n => ⟨List.replicate (n + 1) 'x', []⟩
  reconciliationQueue := []

theorem id_of_mem_fullCheckpoint {revision : PersistedRevision}
    (h : revision ∈ fullCheckpoint.revisions) : ∃ n, revision.id = List.replicate (n + 1) 'x' := by
  simp only [fullCheckpoint, List.mem_map] at h
  obtain ⟨n, -, rfl⟩ := h
  exact ⟨n, rfl⟩

theorem length_fullCheckpoint :
    MAX_TRACKED_REVISIONS ≤ (restoredRevisions fullCheckpoint).keys.length := by
  have hlength : fullCheckpoint.revisions.length = MAX_TRACKED_REVISIONS := by
    rw [fullCheckpoint, List.length_map, List.length_range]
  have hnodup : (fullCheckpoint.revisions.map PersistedRevision.id).Nodup := by
    rw [fullCheckpoint, List.map_map]
    refine List.nodup_range.map fun m n heq => ?_
    have hlen := congrArg List.length heq
    simpa using hlen
  have hsub : fullCheckpoint.revisions.map PersistedRevision.id ⊆
      (restoredRevisions fullCheckpoint).keys := by
    intro id hid
    obtain ⟨revision, hrevision, rfl⟩ := List.mem_map.1 hid
    obtain ⟨n, hn⟩ := id_of_mem_fullCheckpoint hrevision
    have hblank : revision.id.trim ≠ [] := by
      have hx : 'x' ∈ revision.id.trim := by
        rw [Str.mem_trim_iff (by decide), hn]
        exact List.mem_replicate.2 ⟨Nat.succ_ne_zero n, rfl⟩
      exact List.ne_nil_of_mem hx
    exact OrderedMap.mem_keys_of_get (get_restoredRevisions hnodup hlength.le hrevision hblank)
  have hle := (hnodup.subperm hsub).length_le
  rwa [List.length_map, hlength] at hle

theorem fromCheckpoint_checkpoint_post :
    let s := run (fun _ => []) [showing [post], showing []]
    (fromCheckpoint s.checkpoint).reconciliationQueue = s.reconciliationQueue ∧
      ∀ id, (fromCheckpoint s.checkpoint).revisions.get id =
        ((s.revisions.get id).filter fun entry => entry.lastSeenPoll = s.pollNumber ∨
          id ∈ s.reconciliationQueue).map fun entry => ⟨entry.fingerprint, 1⟩ :=
  fromCheckpoint_checkpoint _ _ rfl (by decide +kernel) (by decide +kernel) (by decide +kernel)
    (by decide +kernel)

/-- The post was not on the page before the one that queues it again, and had been found to exist;
and a record found to exist comes on top of a full window. -/
theorem not_polling_invariants :
    (run (fun _ => []) [showing [post], showing [], .takeReconciliationBatch,
      .observeReconciled post]).reconciliationQueue = [] ∧
    (run (fun _ => []) [showing [post], showing [], .takeReconciliationBatch,
      .observeReconciled post, showing []]).reconciliationQueue = [post.id] ∧
    MAX_TRACKED_REVISIONS < (run (fun _ => []) [.fromCheckpoint fullCheckpoint,
      .observeReconciled post]).revisions.keys.length := by
  refine ⟨by decide +kernel, by decide +kernel, ?_⟩
  have hrun : (run (fun _ => []) [.fromCheckpoint fullCheckpoint,
      .observeReconciled post]).revisions =
        (restoredRevisions fullCheckpoint).set post.id ⟨[], 1⟩ := by
    have hspec := fromCheckpoint_spec fullCheckpoint
    show (PollingRevisionState.observeReconciled (fun _ => [])
      (PollingRevisionState.fromCheckpoint fullCheckpoint) post).1.revisions = _
    have hid : realStatusId post = some post.id := by decide
    rw [PollingRevisionState.observeReconciled, hid, ← hspec.2.2.1, ← hspec.2.2.2]
  have hnew : post.id ∉ (restoredRevisions fullCheckpoint).keys := by
    intro hkey
    obtain ⟨revision, hrevision, hid, -⟩ := mem_keys_restoredRevisions hkey
    obtain ⟨n, hn⟩ := id_of_mem_fullCheckpoint hrevision
    have hx : ':' ∈ List.replicate (n + 1) 'x' := by
      rw [← hn, hid]
      decide
    exact absurd (List.eq_of_mem_replicate hx) (by decide)
  have hfull := length_fullCheckpoint
  rw [hrun, OrderedMap.keys_set, if_neg hnew, List.length_append, List.length_singleton]
  omega

end PollingRevisionState

end Awayuki.BlueskyPolling
