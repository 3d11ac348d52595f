import Awayuki.Kq.SourcePlan

/-!
# KQ: the scan modes

The two plans for the same sources select the same rows, whatever the estimate says.

* `pushProbe_iff`: a row passes the test of a source exactly if its key is one that the source
  yields;
* `IsSourceRow`: the rows of some sources, boosts of what the sources yield included;
* `mem_candidatePlan_rows`, `mem_probePlan_rows`: both plans select these.
-/

namespace Awayuki.Kq

/-- `… WHERE … ORDER BY s.created_at DESC, s.server_domain DESC, s.id DESC LIMIT ?`. -/
def SourceScanPlan.readPage (plan : SourceScanPlan) (db : Database) (condition : DbStatus → Bool)
    (limit : ℕ) : List DbStatus :=
  (newestFirst ((plan.rows db).filter condition)).take limit

variable {db : Database} {rows : List RowSource} {effective : List EffectiveSource} {s : DbStatus}

/-- The keys that the sources yield have the key of the row or of what it boosts. -/
def IsSourceRow (db : Database) (rows : List RowSource) (effective : List EffectiveSource)
    (s : DbStatus) : Prop :=
  (∃ row ∈ rows, s.key ∈ row.pushKeys db) ∨ s.key ∈ effectiveKeys db effective ∨
    ∃ key ∈ effectiveKeys db effective, s.reblogKey = some key

theorem pushProbe_iff (hs : s ∈ db.statuses) {row : RowSource} :
    row.pushProbe db s = true ↔ s.key ∈ row.pushKeys db := by
  cases row with
  | memberships timelineTypes accountAccts =>
    simp only [RowSource.pushProbe, RowSource.pushKeys, List.any_eq_true, List.mem_map,
      List.mem_filter, Bool.and_eq_true, decide_eq_true_eq]
    constructor
    · rintro ⟨entry, hentry, hmember, hkey⟩
      exact ⟨entry, ⟨hentry, hmember⟩, hkey⟩
    · rintro ⟨entry, ⟨hentry, hmember⟩, hkey⟩
      exact ⟨entry, hentry, hmember, hkey⟩
  | authors keys =>
    simp only [RowSource.pushProbe, RowSource.pushKeys, List.mem_map, List.mem_filter]
    constructor
    · exact fun hauthor => ⟨s, ⟨hs, hauthor⟩, rfl⟩
    · rintro ⟨s', ⟨hs', hauthor⟩, hkey⟩
      rwa [← Keyed.ext_of_nodup db.statuses_nodup hs' hs hkey]

theorem mem_probePlan_rows :
    s ∈ (probePlan rows effective).rows db ↔ s ∈ db.statuses ∧ IsSourceRow db rows effective s := by
  simp only [SourceScanPlan.rows, probePlan, fullScanSelect, List.mem_filter, Option.all_some,
    Bool.or_eq_true, List.any_eq_true, List.contains_iff_mem, Option.any_eq_true, or_assoc]
  refine and_congr_right fun hs => or_congr ?_ (or_congr Iff.rfl ?_)
  · simp only [pushProbe_iff hs]
  · constructor
    · rintro ⟨key, hreblog, hkey⟩
      exact ⟨key, hkey, hreblog⟩
    · rintro ⟨key, hkey, hreblog⟩
      exact ⟨key, hreblog, hkey⟩

theorem mem_candidatePlan_rows : s ∈ (candidatePlan rows effective).rows db ↔
    s ∈ db.statuses ∧ IsSourceRow db rows effective s := by
  simp only [SourceScanPlan.rows, candidatePlan, Option.all_none, List.filter_true,
    List.mem_flatMap, Keyed.mem_firsts_id, List.mem_append, List.mem_filter, decide_eq_true_eq,
    List.mem_map, or_assoc, IsSourceRow]
  constructor
  · rintro ⟨key, hkey, hs, rfl⟩
    refine ⟨hs, ?_⟩
    rcases hkey with hkey | hkey | ⟨key, hkey, s', ⟨hs', hreblog⟩, heq⟩
    · exact .inl hkey
    · exact .inr (.inl hkey)
    · obtain rfl := Keyed.ext_of_nodup db.statuses_nodup hs' hs heq
      exact .inr (.inr ⟨key, hkey, hreblog⟩)
  · rintro ⟨hs, hrow⟩
    refine ⟨s.key, ?_, hs, rfl⟩
    rcases hrow with hkey | hkey | ⟨key, hkey, hreblog⟩
    · exact .inl hkey
    · exact .inr (.inl hkey)
    · exact .inr (.inr ⟨key, hkey, s, ⟨hs, hreblog⟩, rfl⟩)

theorem nodup_candidatePlan_rows : ((candidatePlan rows effective).rows db).Nodup := by
  simp only [SourceScanPlan.rows, candidatePlan, Option.all_none, List.filter_true]
  refine List.nodup_flatMap.2 ⟨fun key _ => ?_, ?_⟩
  · exact (List.Nodup.of_map _ db.statuses_nodup).filter _
  · refine (List.pairwise_map.1 Keyed.nodup_firsts).imp fun {k k'} hne s hs hs' => ?_
    have hk := of_decide_eq_true (List.mem_filter.1 hs).2
    have hk' := of_decide_eq_true (List.mem_filter.1 hs').2
    exact hne (hk.symm.trans hk')

theorem nodup_probePlan_rows : ((probePlan rows effective).rows db).Nodup :=
  (List.Nodup.of_map _ db.statuses_nodup).filter _

theorem candidatePlan_perm_probePlan :
    ((candidatePlan rows effective).rows db).Perm ((probePlan rows effective).rows db) := by
  refine (List.perm_ext_iff_of_nodup nodup_candidatePlan_rows nodup_probePlan_rows).2 fun s => ?_
  rw [mem_candidatePlan_rows, mem_probePlan_rows]

/-- Rows of the database that are different have different keys. -/
theorem nodup_keys_of_subset {l : List DbStatus} (hl : l.Nodup) (hsub : ∀ s ∈ l, s ∈ db.statuses) :
    (l.map DbStatus.key).Nodup :=
  hl.map_on fun _ ha _ hb hkey => Keyed.ext_of_nodup db.statuses_nodup (hsub _ ha) (hsub _ hb) hkey

/-- Plans that select the same rows give the same pages. -/
theorem readPage_eq {plan plan' : SourceScanPlan} (hnodup : (plan.rows db).Nodup)
    (hsub : ∀ s ∈ plan.rows db, s ∈ db.statuses) (h : (plan.rows db).Perm (plan'.rows db))
    (condition : DbStatus → Bool) (limit : ℕ) :
    plan.readPage db condition limit = plan'.readPage db condition limit := by
  have hkeys := nodup_keys_of_subset hnodup hsub
  rw [SourceScanPlan.readPage, SourceScanPlan.readPage,
    newestFirst_eq (hkeys.sublist (List.filter_sublist.map _)) (h.filter condition)]

section Choice

variable [Icu] {loginAccounts : List LoginAccountIdentity} {sources : List SourceSpec}
  {conversationKeys : List StatusKey} {limit limit' : ℕ}

/-- A plan selects rows of the database, each once. -/
theorem planSourceScanWithLimit_rows :
    ((planSourceScanWithLimit db loginAccounts sources conversationKeys limit).rows db).Nodup ∧
      ∀ s ∈ (planSourceScanWithLimit db loginAccounts sources conversationKeys limit).rows db,
        s ∈ db.statuses := by
  have hall : ∀ p : DbStatus → Bool, (db.statuses.filter p).Nodup ∧
      ∀ s ∈ db.statuses.filter p, s ∈ db.statuses := fun p =>
    ⟨(List.Nodup.of_map _ db.statuses_nodup).filter _, fun s hs => (List.mem_filter.1 hs).1⟩
  simp only [planSourceScanWithLimit]
  cases sources.foldlM (pushSource db loginAccounts) ⟨[], [], [], false⟩ with
  | none => exact hall _
  | some state =>
    dsimp only
    split_ifs
    · exact hall _
    · exact ⟨nodup_candidatePlan_rows, fun s hs => (mem_candidatePlan_rows.1 hs).1⟩
    · exact hall _

/-- The planner's choice between the two plans does not change the rows. -/
theorem planSourceScanWithLimit_perm :
    ((planSourceScanWithLimit db loginAccounts sources conversationKeys limit).rows db).Perm
      ((planSourceScanWithLimit db loginAccounts sources conversationKeys limit').rows db) := by
  simp only [planSourceScanWithLimit]
  cases sources.foldlM (pushSource db loginAccounts) ⟨[], [], [], false⟩ with
  | none => exact .refl _
  | some state =>
    dsimp only
    split_ifs
    · exact .refl _
    · exact .refl _
    · exact candidatePlan_perm_probePlan
    · exact candidatePlan_perm_probePlan.symm
    · exact .refl _

end Choice

end Awayuki.Kq
