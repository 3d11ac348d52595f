import Awayuki.Sync.Reconciliation

/-!
# Local flags and a reconciliation

While a generation is scanned the user and the stream write viewer states too.  The completion
only knows the members.

* `LocallySet`, `Scanned`: read off the history of the current generation;
* `Tracked`: flags and members are what the history says;
* `local_flags_kept`: a local flag stays exactly when the scan has come across its status.
-/

namespace Awayuki.Sync

open Runs (Outstanding)

/-! ### Histories -/

def starts : Label → Bool
  | .prepare _ _ starts => starts
  | _ => false

def sets (key : EntityKey) : Label → Bool
  | .write key' value => key' = key && value == some true
  | _ => false

section Domain

variable (phase : StartupSyncPhase) (domain : Str)

/-- A write, a status saved with a page, or the start of a generation, which forgets. -/
def unsets (key : EntityKey) : Label → Bool
  | .write key' value => key' = key && value != some true
  | .save batch => (batch.flatMap (Status.viewerRows phase domain)).any fun row =>
      row.1 = key && row.2 != some true
  | label => starts label

def scans (key : EntityKey) : Label → Bool
  | .checkpoint page => key ∈ page.members domain
  | _ => false

/-- Was the flag set by someone else since the generation started, and not unset since? -/
def LocallySet (labels : List Label) (key : EntityKey) : Prop :=
  Outstanding (sets key) (unsets phase domain key) labels = true

/-- Is the status on a page with a checkpoint in the generation? -/
def Scanned (labels : List Label) (key : EntityKey) : Prop :=
  Outstanding (scans domain key) starts labels = true

/-- The flags and the members of the generation that is going on. -/
structure Tracked (labels : List Label) (s : State) : Prop where
  inStep : s.InStep
  flag : s.db.generation.isSome → ∀ key, LocallySet phase domain labels key →
    s.db.flag key = some true
  members : ∀ generation, s.db.generation = some generation → ∀ key,
    (generation, key) ∈ s.db.members ↔ Scanned domain labels key

end Domain

variable {policy : StartupSyncPolicy} {phase : StartupSyncPhase} {domain : Str} {s t u : State}
  {labels : List Label} {label : Label} {key : EntityKey}

theorem locallySet_snoc : LocallySet phase domain (labels ++ [label]) key ↔
    sets key label = true ∨ unsets phase domain key label = false ∧
      LocallySet phase domain labels key := by
  unfold LocallySet
  rw [Runs.outstanding_snoc]
  split_ifs with hsets hunsets
  · simp [hsets]
  · simp [hsets, hunsets]
  · simp [hsets, hunsets]

theorem scanned_snoc : Scanned domain (labels ++ [label]) key ↔
    scans domain key label = true ∨ starts label = false ∧ Scanned domain labels key := by
  unfold Scanned
  rw [Runs.outstanding_snoc]
  split_ifs with hscans hstarts
  · simp [hscans]
  · simp [hscans, hstarts]
  · simp [hscans, hstarts]

/-- Rows that leave a flag alone, or set it. -/
theorem foldl_update_eq {rows : List (EntityKey × Option Bool)} {flag : EntityKey → Option Bool}
    (hflag : flag key = some true)
    (h : (rows.any fun row => row.1 = key && row.2 != some true) = false) :
    rows.foldl (fun flag row => Function.update flag row.1 row.2) flag key = some true := by
  induction rows generalizing flag with
  | nil => exact hflag
  | cons row rows ih =>
    rw [List.any_cons, Bool.or_eq_false_iff] at h
    refine ih ?_ h.2
    show Function.update flag row.1 row.2 key = some true
    rw [Function.update_apply]
    split_ifs with hkey
    · have := h.1
      simpa [hkey.symm] using this
    · exact hflag

/-- What neither writes nor scans. -/
theorem Tracked.of_same (hs : Tracked phase domain labels s) (hinStep : t.InStep)
    (hdb : t.db = s.db) (hsets : ∀ key, sets key label = false)
    (hscans : ∀ key, scans domain key label = false) (hstarts : starts label = false) :
    Tracked phase domain (labels ++ [label]) t := by
  refine ⟨hinStep, fun hg key hset => ?_, fun generation hg key => ?_⟩
  · rw [locallySet_snoc, hsets] at hset
    rw [hdb] at hg ⊢
    exact hs.flag hg key (hset.resolve_left nofun).2
  · rw [hdb] at hg ⊢
    rw [scanned_snoc, hscans, hstarts, hs.members generation hg key]
    simp

theorem tracked_step (h : Step policy phase domain s label t)
    (hs : Tracked phase domain labels s) : Tracked phase domain (labels ++ [label]) t := by
  have hinStep := inStep_step h hs.inStep
  cases h with
  | @prepare db now nextGeneration plan hplan =>
    cases hstarts : db.starts plan with
    | true =>
      refine ⟨hinStep, fun _ key hset => ?_, fun generation hg key => ?_⟩
      · rw [locallySet_snoc] at hset
        rcases hset with hset | ⟨hset, -⟩
        · cases hset
        · cases hset
      · obtain ⟨-, rfl, -⟩ | ⟨hnot, -⟩ | ⟨hnot, -⟩ := Tables.plan_cases hplan
        · rw [Tables.preparePhaseAt_of_starts hstarts, scanned_snoc]
          simp [scans, starts]
        all_goals
          rw [hstarts] at hnot
          cases hnot
    | false =>
      rw [Tables.preparePhaseAt_of_not_starts hstarts] at hinStep ⊢
      refine ⟨hinStep, fun hg key hset => ?_, fun generation hg key => ?_⟩
      · rw [locallySet_snoc] at hset
        exact hs.flag (by simpa using hg) key (hset.resolve_left nofun).2
      · rw [scanned_snoc]
        have := hs.members generation (by simpa using hg) key
        simpa [scans, starts] using this
  | respond hphase hpage => exact hs.of_same hinStep rfl (fun _ => rfl) (fun _ => rfl) rfl
  | @save db scan page batch unsaved hpos hmax =>
    refine ⟨hinStep, fun hg key hset => ?_, fun generation hg key => ?_⟩
    · rw [locallySet_snoc] at hset
      obtain ⟨hnot, hset⟩ := hset.resolve_left nofun
      exact foldl_update_eq (hs.flag hg key hset) hnot
    · refine (hs.members generation hg key).trans ?_
      rw [scanned_snoc]
      simp [scans, starts]
  | retry => exact hs.of_same hinStep rfl (fun _ => rfl) (fun _ => rfl) rfl
  | @checkpoint db db' scan page hcommit =>
    obtain ⟨hgeneration, -, hflag, hmembers⟩ := Tables.commitPageCheckpoint_some hcommit
    refine ⟨hinStep, fun hg key hset => ?_, fun generation hg key => ?_⟩
    · rw [locallySet_snoc] at hset
      rw [show db'.flag = db.flag from hflag]
      exact hs.flag (hgeneration ▸ hg) key (hset.resolve_left nofun).2
    · have hg' : db.generation = some generation := hgeneration.symm.trans hg
      rw [scanned_snoc, hmembers, hs.members generation hg', (hs.inStep scan rfl).generation]
      simp [scans, starts, show db.generation = some generation from hg', or_comm]
  | @complete db db' now hcommit =>
    have hnone := Tables.generation_completePhaseAt hcommit
    refine ⟨hinStep, fun hg => ?_, fun generation hg => ?_⟩ <;>
      rw [show db'.generation = none from hnone] at hg <;> cases hg
  | fail => exact hs.of_same hinStep rfl (fun _ => rfl) (fun _ => rfl) rfl
  | @write s key' value =>
    refine ⟨hinStep, fun hg key hset => ?_, fun generation hg key => ?_⟩
    · show Function.update s.db.flag key' value key = some true
      rw [locallySet_snoc] at hset
      rw [Function.update_apply]
      split_ifs with hkey
      · subst hkey
        simpa [sets, unsets] using hset.imp_right And.left
      · have hnot : sets key (.write key' value) ≠ true := by simp [sets, Ne.symm hkey]
        exact hs.flag hg key (hset.resolve_left hnot).2
    · refine (hs.members generation hg key).trans ?_
      rw [scanned_snoc]
      simp [scans, starts]

theorem tracked_of_run (hfresh : s.Fresh) (hrun : Runs.Run (Step policy phase domain) s labels t) :
    Tracked phase domain labels t := by
  refine hrun.history ⟨fun scan hscan => ?_, fun hg => ?_, fun generation hg => ?_⟩
    fun h hstep => tracked_step hstep h
  · rw [hfresh.idle] at hscan
    cases hscan
  · rw [hfresh.generation] at hg
    cases hg
  · rw [hfresh.generation] at hg
    cases hg

/-! ### The completion -/

/-- A local flag is cleared when the scan has not come across its status. -/
theorem flag_complete {now : ℤ} {generation : Str} (hphase : phase.supportsFullReconciliation)
    (ht : Tracked phase domain labels t) (hstep : Step policy phase domain t (.complete now) u)
    (hgeneration : t.db.generation = some generation) (hset : LocallySet phase domain labels key) :
    u.db.flag key = some true ↔ Scanned domain labels key := by
  cases hstep with
  | @complete db db' now hcommit =>
    have htrue : db.flag key = some true := ht.flag (by rw [hgeneration]; rfl) key hset
    obtain ⟨-, hflag⟩ := Tables.completePhaseAt_some key hphase hgeneration hcommit
    have hmember : db.seen generation key = true ↔ Scanned domain labels key := by
      rw [← ht.members generation hgeneration key]
      simp [Tables.seen]
    rw [show db'.flag key = _ from hflag, ← hmember, htrue]
    split_ifs with h
    · simp [h.2]
    · simpa using h

/-- Do the flags that others set while the generation was going on survive? -/
def KeepsLocalFlags (phase : StartupSyncPhase) (domain : Str) (labels : List Label) (u : State) :
    Prop := ∀ key, LocallySet phase domain labels key → u.db.flag key = some true

/-- A reconciliation keeps the local flags exactly when its scan has come across all of them. -/
theorem local_flags_kept {now : ℤ} {generation : Str} (hphase : phase.supportsFullReconciliation)
    (hfresh : s.Fresh) (hrun : Runs.Run (Step policy phase domain) s labels t)
    (hstep : Step policy phase domain t (.complete now) u)
    (hgeneration : t.db.generation = some generation) :
    KeepsLocalFlags phase domain labels u ↔
      ∀ key, LocallySet phase domain labels key → Scanned domain labels key := by
  have ht := tracked_of_run hfresh hrun
  exact forall₂_congr fun key hset => flag_complete hphase ht hstep hgeneration hset

/-! ### A page and a bookmark -/

def sampleStatus : Status := ⟨"1", some true, none, none, none⟩

def sampleScan : Scan := ⟨some "g", none, none, usizeMax, ∅, 0⟩

def samplePage : Page := ⟨some "1", [sampleStatus], none⟩

/-- A scan of one page, during which the user bookmarks the status with the identifier. -/
def sampleLabels (id : Str) : List Label :=
  [.prepare 0 "g" true, .respond sampleScan ⟨[sampleStatus], none⟩, .write (id, "s") (some true),
    .save [sampleStatus], .checkpoint samplePage]

def sampleStart : State := ⟨⟨none, ∅, ∅, fun _ => none⟩, .idle⟩

/-- The scan, with its completion. -/
theorem exists_sample (id : Str) : ∃ t u,
    Runs.Run (Step ⟨0, 0⟩ .bookmarks "s") sampleStart (sampleLabels id) t ∧
      Step ⟨0, 0⟩ .bookmarks "s" t (.complete 1) u ∧ t.db.generation = some ("g" : String) :=
  ⟨_, _, Runs.run_cons.2 ⟨_, .prepare rfl, Runs.run_cons.2 ⟨_, .respond rfl rfl, Runs.run_cons.2
    ⟨_, .write, Runs.run_cons.2 ⟨_, .save (List.cons_ne_nil _ []) (show 1 ≤ 64 by omega),
      Runs.run_cons.2 ⟨_, .checkpoint rfl, .nil _⟩⟩⟩⟩⟩, .complete rfl, rfl⟩

theorem sampleStart_fresh : sampleStart.Fresh := ⟨rfl, rfl⟩

/-- Bookmarked behind the scan, the status loses its bookmark. -/
theorem not_local_flags_kept : ¬ ∀ policy phase domain s t u labels now generation,
    s.Fresh → Runs.Run (Step policy phase domain) s labels t →
    Step policy phase domain t (.complete now) u → t.db.generation = some generation →
    KeepsLocalFlags phase domain labels u := by
  intro h
  obtain ⟨t, u, hrun, hstep, hgeneration⟩ := exists_sample "2"
  have hset : LocallySet .bookmarks "s" (sampleLabels "2") ("2", "s") := by
    unfold LocallySet
    decide
  have hflag := h _ _ _ _ _ _ _ _ _ sampleStart_fresh hrun hstep hgeneration _ hset
  have hscanned := (flag_complete rfl (tracked_of_run sampleStart_fresh hrun) hstep hgeneration
    hset).1 hflag
  unfold Scanned at hscanned
  revert hscanned
  decide

/-- Bookmarked before the scan has come to it, the status keeps its bookmark. -/
theorem local_flags_kept_sample : ∃ t u,
    Runs.Run (Step ⟨0, 0⟩ .bookmarks "s") sampleStart (sampleLabels "1") t ∧
      Step ⟨0, 0⟩ .bookmarks "s" t (.complete 1) u ∧
      KeepsLocalFlags .bookmarks "s" (sampleLabels "1") u := by
  obtain ⟨t, u, hrun, hstep, hgeneration⟩ := exists_sample "1"
  refine ⟨t, u, hrun, hstep,
    (local_flags_kept rfl sampleStart_fresh hrun hstep hgeneration).2 fun key hset => ?_⟩
  have hkey : (("1", "s") : EntityKey) = key := by
    unfold LocallySet at hset
    simp [sampleLabels, Runs.Outstanding, sets, unsets, starts] at hset
    exact hset.2
  subst hkey
  unfold Scanned
  decide

end Awayuki.Sync
