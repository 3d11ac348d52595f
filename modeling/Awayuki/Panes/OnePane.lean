import Awayuki.Panes.DynamicPanes

/-!
# One pane for a resource

Panes are opened by the actions and closed again, in any order.  A session remembers the key that
every column was opened for.

* `Session.step`: what an action and a closing do;
* `OnePane`: what a step should leave;
* `Good`: what all states have as long as no profile is asked for again while it is open;
* `onePaneThroughout_iff`: exactly then there is one pane for a resource.
-/

namespace Awayuki.Panes

structure Session where
  panes : PaneSliceState
  calls : ℕ
  openedFor : Str → Str

inductive Label
  | act (action : Action)
  | close (paneIndex : ℕ)

section

variable (names : Names) (uuid : ℕ → Str)

/-- The pane that is asked for next. -/
def Session.asks (s : Session) (action : Action) : Option DynamicPaneDescriptor :=
  action.descriptor names (uuid s.calls)

def Session.openPane (s : Session) (descriptor : DynamicPaneDescriptor) : Session :=
  let result := reduceOpenOrFocusDynamicPane s.panes descriptor
  { panes := result.state
    calls := s.calls + 1
    openedFor :=
      if result.created then Function.update s.openedFor result.column.id descriptor.resourceKey
      else s.openedFor }

def Session.step (s : Session) : Label → Session
  | .act action =>
    match s.asks names uuid action with
    | some descriptor => s.openPane descriptor
    | none => s
  | .close paneIndex => { s with panes := closeDynamicPane s.panes paneIndex }

/-- Nothing but the stored columns is open. -/
def Session.start (persistedColumns : List ColumnSummary) : Session :=
  { panes :=
      { persistedColumns
        dynamicColumns := []
        activeTabs := fun _ => none
        pendingScrollPaneIndex := none }
    calls := 0
    openedFor := fun _ => [] }

def session (persistedColumns : List ColumnSummary) (labels : List Label) : Session :=
  labels.foldl (Session.step names uuid) (Session.start persistedColumns)

/-! ### What a step should leave -/

/-- No two columns were opened for one key. -/
def OpenedOnce (s : Session) : Prop :=
  (s.panes.dynamicColumns.map fun column => s.openedFor column.id).Nodup

/-- Every dynamic column has a pane of its own. -/
def OwnPanes (s : Session) : Prop :=
  (s.panes.dynamicColumns.map (·.paneIndex)).Nodup ∧
    ∀ column ∈ s.panes.dynamicColumns, ∀ persisted ∈ s.panes.persistedColumns,
      column.paneIndex ≠ persisted.paneIndex

/-- The column has the focus, and every other column is as it was. -/
def Focused (s t : Session) (column : ColumnSummary) : Prop :=
  t.panes.activeTabs column.paneIndex = some column.id ∧
    t.panes.pendingScrollPaneIndex = some column.paneIndex ∧
    t.panes.persistedColumns = s.panes.persistedColumns ∧
    ∃ column', column'.id = column.id ∧ column'.paneIndex = column.paneIndex ∧
      t.panes.dynamicColumns =
        s.panes.dynamicColumns.map fun other => if other = column then column' else other

def OnePane (s : Session) (label : Label) (t : Session) : Prop :=
  OpenedOnce t ∧ OwnPanes t ∧
    ∀ action descriptor, label = .act action → s.asks names uuid action = some descriptor →
      ∀ column ∈ s.panes.dynamicColumns, s.openedFor column.id = descriptor.resourceKey →
        Focused s t column

/-- There is one pane for a resource after every step of a run. -/
def OnePaneThroughout (persistedColumns : List ColumnSummary) (labels : List Label) : Prop :=
  ∀ before label after, labels = before ++ label :: after →
    OnePane names uuid (session names uuid persistedColumns before) label
      (session names uuid persistedColumns (before ++ [label]))

end

/-- A profile is asked for while a pane that was opened for it is open. -/
def ReopensProfile (s : Session) (label : Label) : Prop :=
  ∃ status, label = .act (.user status) ∧
    ∃ column ∈ s.panes.dynamicColumns, s.openedFor column.id = userKey status

section

variable {names : Names} {uuid : ℕ → Str} {s : Session} {descriptor : DynamicPaneDescriptor}
  {existing column : ColumnSummary} {id : Str} {label : Label} {labels : List Label}

@[simp] theorem session_snoc (persistedColumns : List ColumnSummary) (labels : List Label)
    (label : Label) : session names uuid persistedColumns (labels ++ [label]) =
      (session names uuid persistedColumns labels).step names uuid label := by
  simp [session]

/-! ### Pane indexes -/

theorem le_foldl_max (columns : List ColumnSummary) (least : ℤ) :
    least ≤ columns.foldl (fun maximum column => max maximum (column.paneIndex : ℤ)) least := by
  induction columns generalizing least with
  | nil => exact le_rfl
  | cons column columns ih => exact (le_max_left _ _).trans (ih _)

theorem paneIndex_lt_nextPaneIndex {columns : List ColumnSummary} (h : column ∈ columns) :
    column.paneIndex < nextPaneIndex columns := by
  have hle : ∀ least : ℤ, (column.paneIndex : ℤ) ≤
      columns.foldl (fun maximum column => max maximum (column.paneIndex : ℤ)) least := by
    induction columns with
    | nil => cases h
    | cons other columns ih =>
      intro least
      rcases List.mem_cons.1 h with rfl | h
      · exact (le_max_right _ _).trans (le_foldl_max _ _)
      · exact ih h _
  have := hle (-1)
  unfold nextPaneIndex
  omega

/-! ### What all states have -/

/-- The key that a column was opened for, beside the one that it has. -/
structure Keyed (key : Str) (column : ColumnSummary) : Prop where
  colon : ':' ∉ column.columnType
  kind : kind key = column.columnType
  plain : column.columnType ≠ profileType → dynamicPaneResourceKey column = key
  profile : column.columnType = profileType →
    (dynamicPaneResourceKey column).length < key.length

structure Good (uuid : ℕ → Str) (s : Session) : Prop where
  ids : (s.panes.dynamicColumns.map (·.id)).Nodup
  called : ∀ column ∈ s.panes.dynamicColumns, ∃ n < s.calls, column.id = uuid n
  openedOnce : OpenedOnce s
  ownPanes : OwnPanes s
  keyed : ∀ column ∈ s.panes.dynamicColumns, Keyed (s.openedFor column.id) column

theorem good_start (persistedColumns : List ColumnSummary) :
    Good uuid (.start persistedColumns) where
  ids := List.nodup_nil
  called := fun _ h => nomatch h
  openedOnce := List.nodup_nil
  ownPanes := ⟨List.nodup_nil, fun _ h => nomatch h⟩
  keyed := fun _ h => nomatch h

/-- A plain pane that is asked for is any that was opened for the key or has it. -/
theorem Good.openedFor_iff (h : Good uuid s) (hcolumn : column ∈ s.panes.dynamicColumns) {key : Str}
    (hkey : kind key ≠ profileType) :
    s.openedFor column.id = key ↔ dynamicPaneResourceKey column = key := by
  have hkeyed := h.keyed column hcolumn
  constructor
  · rintro rfl
    exact hkeyed.plain (hkeyed.kind ▸ hkey)
  · rintro rfl
    rw [kind_dynamicPaneResourceKey hkeyed.colon] at hkey
    exact (hkeyed.plain hkey).symm

theorem Good.eq_of_openedFor (h : Good uuid s) {a b : ColumnSummary}
    (ha : a ∈ s.panes.dynamicColumns) (hb : b ∈ s.panes.dynamicColumns)
    (heq : s.openedFor a.id = s.openedFor b.id) : a = b :=
  List.inj_on_of_nodup_map h.openedOnce ha hb heq

theorem Good.close (h : Good uuid s) (paneIndex : ℕ) :
    Good uuid { s with panes := closeDynamicPane s.panes paneIndex } := by
  have hsub : ((s.panes.dynamicColumns.filter fun column => column.paneIndex ≠ paneIndex)).Sublist
    s.panes.dynamicColumns := List.filter_sublist
  exact
    { ids := h.ids.sublist (hsub.map _)
      called := fun column hcolumn => h.called column (hsub.subset hcolumn)
      openedOnce := List.Nodup.sublist (hsub.map _) h.openedOnce
      ownPanes := ⟨h.ownPanes.1.sublist (hsub.map _), fun column hcolumn =>
        h.ownPanes.2 column (hsub.subset hcolumn)⟩
      keyed := fun column hcolumn => h.keyed column (hsub.subset hcolumn) }

/-! ### A pane is opened -/

theorem Good.openDynamicPane (h : Good uuid s) (huuid : uuid.Injective)
    (hid : descriptor.column.id = uuid s.calls)
    (hkeyed : Keyed descriptor.resourceKey descriptor.column)
    (hnew : ∀ column ∈ s.panes.dynamicColumns,
      s.openedFor column.id ≠ descriptor.resourceKey) :
    Good uuid
      { panes := (Panes.openDynamicPane s.panes descriptor).state
        calls := s.calls + 1
        openedFor := Function.update s.openedFor descriptor.column.id descriptor.resourceKey } := by
  have hfresh : ∀ column ∈ s.panes.dynamicColumns, column.id ≠ descriptor.column.id := by
    intro column hcolumn heq
    obtain ⟨n, hn, hcalled⟩ := h.called column hcolumn
    have : n = s.calls := huuid (by rw [← hcalled, heq, hid])
    omega
  have hold : ∀ column ∈ s.panes.dynamicColumns,
      Function.update s.openedFor descriptor.column.id descriptor.resourceKey column.id =
        s.openedFor column.id := fun column hcolumn =>
    Function.update_of_ne (hfresh column hcolumn) _ _
  have hindex : ∀ column ∈ s.panes.persistedColumns ++ s.panes.dynamicColumns, column.paneIndex <
      nextPaneIndex (s.panes.persistedColumns ++ s.panes.dynamicColumns) :=
    fun _ => paneIndex_lt_nextPaneIndex
  refine
    { ids := ?_, called := ?_, openedOnce := ?_, ownPanes := ⟨?_, ?_⟩, keyed := ?_ }
  · show ((s.panes.dynamicColumns ++ [_]).map _).Nodup
    rw [List.map_append, List.nodup_append]
    refine ⟨h.ids, List.nodup_singleton _, fun a ha b hb => ?_⟩
    obtain ⟨column, hcolumn, rfl⟩ := List.mem_map.1 ha
    obtain rfl := List.mem_singleton.1 hb
    exact hfresh column hcolumn
  · intro column hcolumn
    rcases List.mem_append.1 hcolumn with hcolumn | hcolumn
    · obtain ⟨n, hn, hcalled⟩ := h.called column hcolumn
      exact ⟨n, Nat.lt_succ_of_lt hn, hcalled⟩
    · obtain rfl := List.mem_singleton.1 hcolumn
      exact ⟨s.calls, Nat.lt_succ_self _, hid⟩
  · show ((s.panes.dynamicColumns ++ [_]).map _).Nodup
    rw [List.map_append, List.nodup_append]
    refine ⟨?_, List.nodup_singleton _, fun a ha b hb => ?_⟩
    · rw [List.map_congr_left hold]
      exact h.openedOnce
    · obtain ⟨column, hcolumn, rfl⟩ := List.mem_map.1 ha
      obtain rfl := List.mem_singleton.1 hb
      show Function.update s.openedFor descriptor.column.id descriptor.resourceKey column.id ≠
        Function.update s.openedFor descriptor.column.id descriptor.resourceKey
          descriptor.column.id
      rw [hold column hcolumn, Function.update_self]
      exact hnew column hcolumn
  · show ((s.panes.dynamicColumns ++ [_]).map _).Nodup
    rw [List.map_append, List.nodup_append]
    refine ⟨h.ownPanes.1, List.nodup_singleton _, fun a ha b hb => ?_⟩
    obtain ⟨column, hcolumn, rfl⟩ := List.mem_map.1 ha
    obtain rfl := List.mem_singleton.1 hb
    exact (hindex column (List.mem_append_right _ hcolumn)).ne
  · intro column hcolumn persisted hpersisted
    rcases List.mem_append.1 hcolumn with hcolumn | hcolumn
    · exact h.ownPanes.2 column hcolumn persisted hpersisted
    · obtain rfl := List.mem_singleton.1 hcolumn
      exact (hindex persisted (List.mem_append_left _ hpersisted)).ne'
  · intro column hcolumn
    rcases List.mem_append.1 hcolumn with hcolumn | hcolumn
    · show Keyed (Function.update s.openedFor descriptor.column.id descriptor.resourceKey
        column.id) column
      rw [hold column hcolumn]
      exact h.keyed column hcolumn
    · obtain rfl := List.mem_singleton.1 hcolumn
      show Keyed (Function.update s.openedFor descriptor.column.id descriptor.resourceKey
        descriptor.column.id) _
      rw [Function.update_self]
      exact ⟨hkeyed.colon, hkeyed.kind, hkeyed.plain, hkeyed.profile⟩

/-! ### A pane has the focus -/

theorem map_replace {β : Type} (f : ColumnSummary → β) (h : f column = f existing)
    (columns : List ColumnSummary) :
    (columns.map fun other => if other = existing then column else other).map f =
      columns.map f := by
  rw [List.map_map]
  refine List.map_congr_left fun other _ => ?_
  show f (if other = existing then column else other) = f other
  split_ifs with heq
  · rw [h, heq]
  · rfl

theorem id_focusDynamicPane (state : PaneSliceState) (descriptor : DynamicPaneDescriptor)
    (existing : ColumnSummary) :
    (focusDynamicPane state descriptor existing).column.id = existing.id ∧
      (focusDynamicPane state descriptor existing).column.paneIndex = existing.paneIndex := by
  unfold focusDynamicPane
  cases descriptor.updateExisting with
  | none => exact ⟨rfl, rfl⟩
  | some update => exact ⟨rfl, rfl⟩

theorem Good.dynamicColumns_focus (h : Good uuid s)
    (hexisting : existing ∈ s.panes.dynamicColumns) :
    (focusDynamicPane s.panes descriptor existing).state.dynamicColumns =
      s.panes.dynamicColumns.map fun other =>
        if other = existing then (focusDynamicPane s.panes descriptor existing).column
        else other := by
  unfold focusDynamicPane
  cases descriptor.updateExisting with
  | none =>
    show s.panes.dynamicColumns = s.panes.dynamicColumns.map fun other =>
      if other = existing then existing else other
    rw [List.map_congr_left (g := id), List.map_id]
    intro other _
    split_ifs with heq
    · exact heq.symm
    · rfl
  | some update =>
    refine List.map_congr_left fun other hother => ?_
    show (if other.id = existing.id then existing.patch (update existing) else other) =
      if other = existing then existing.patch (update existing) else other
    by_cases heq : other = existing
    · rw [if_pos heq, if_pos (congrArg (·.id) heq)]
    · rw [if_neg heq, if_neg fun hid => heq (List.inj_on_of_nodup_map h.ids hother hexisting hid)]

/-- One column is replaced by another one with its pane. -/
theorem Good.replace (h : Good uuid s) {t : Session} (hexisting : existing ∈ s.panes.dynamicColumns)
    (hid : column.id = existing.id) (hindex : column.paneIndex = existing.paneIndex)
    (hkeyed : Keyed (s.openedFor existing.id) column)
    (hpersisted : t.panes.persistedColumns = s.panes.persistedColumns)
    (hcolumns : t.panes.dynamicColumns =
      s.panes.dynamicColumns.map fun other => if other = existing then column else other)
    (hcalls : s.calls ≤ t.calls) (hopened : t.openedFor = s.openedFor) : Good uuid t := by
  have hmem : ∀ other ∈ t.panes.dynamicColumns, other = column ∨
      other ∈ s.panes.dynamicColumns := by
    intro other hother
    rw [hcolumns] at hother
    obtain ⟨old, hold, rfl⟩ := List.mem_map.1 hother
    split_ifs
    · exact .inl rfl
    · exact .inr hold
  refine
    { ids := ?_, called := ?_, openedOnce := ?_, ownPanes := ⟨?_, ?_⟩, keyed := ?_ }
  · rw [hcolumns, map_replace (·.id) hid]
    exact h.ids
  · intro other hother
    obtain ⟨n, hn, hcalled⟩ : ∃ n < s.calls, other.id = uuid n := by
      rcases hmem other hother with rfl | hother
      · exact hid ▸ h.called existing hexisting
      · exact h.called other hother
    exact ⟨n, hn.trans_le hcalls, hcalled⟩
  · unfold OpenedOnce
    rw [hcolumns, hopened, map_replace (fun other => s.openedFor other.id) (congrArg _ hid)]
    exact h.openedOnce
  · rw [hcolumns, map_replace (·.paneIndex) hindex]
    exact h.ownPanes.1
  · intro other hother persisted hp
    rw [hpersisted] at hp
    rcases hmem other hother with rfl | hother
    · exact hindex ▸ h.ownPanes.2 existing hexisting persisted hp
    · exact h.ownPanes.2 other hother persisted hp
  · intro other hother
    rw [hopened]
    rcases hmem other hother with rfl | hother
    · exact hid ▸ hkeyed
    · exact h.keyed other hother

theorem Good.focused (h : Good uuid s) {t : Session} (hexisting : existing ∈ s.panes.dynamicColumns)
    (ht : t.panes = (focusDynamicPane s.panes descriptor existing).state) :
    Focused s t existing := by
  obtain ⟨hid, hindex⟩ := id_focusDynamicPane s.panes descriptor existing
  rw [Focused, ht]
  exact ⟨Function.update_self _ _ _, rfl, rfl, _, hid, hindex, h.dynamicColumns_focus hexisting⟩

/-! ### Steps -/

theorem keyed_plain (h : Plain id descriptor) : Keyed descriptor.resourceKey descriptor.column where
  colon := h.colon
  kind := by rw [← h.key, kind_dynamicPaneResourceKey h.colon]
  plain := fun _ => h.key
  profile := fun hprofile => absurd hprofile h.notProfile

theorem keyed_openUserPane (id : Str) (status : TimelineStatus) :
    Keyed (openUserPane names id status).resourceKey (openUserPane names id status).column where
  colon := colon_notMem_profileType
  kind := kind_userKey status
  plain := fun hplain => absurd rfl hplain
  profile := fun _ => length_userKey status rfl ⟨_, rfl, rfl, rfl⟩

theorem kind_plain (h : Plain id descriptor) : kind descriptor.resourceKey ≠ profileType := by
  rw [(keyed_plain h).kind]
  exact h.notProfile

/-- A profile that has the focus keeps the key that it was opened for, and its own gets shorter. -/
theorem keyed_focusProfile {key : Str} {status : TimelineStatus} (h : Keyed key existing)
    (hmatch : dynamicPaneResourceKey existing = userKey status) (state : PaneSliceState) :
    Keyed key (focusDynamicPane state (openUserPane names id status) existing).column := by
  have htype : existing.columnType = profileType := by
    rw [← kind_dynamicPaneResourceKey h.colon, hmatch, kind_userKey]
  have hlength :
      (dynamicPaneResourceKey
        (focusDynamicPane state (openUserPane names id status) existing).column).length <
        (userKey status).length := length_userKey status htype ⟨_, rfl, rfl, rfl⟩
  exact
    { colon := h.colon
      kind := h.kind
      plain := fun hplain => absurd htype hplain
      profile := fun _ => by
        have := h.profile htype
        rw [hmatch] at this
        omega }

variable {action : Action}

theorem Good.openPane (h : Good uuid s) (huuid : uuid.Injective)
    (hasks : s.asks names uuid action = some descriptor)
    (hsafe : ¬ ReopensProfile s (.act action)) :
    Good uuid (s.openPane descriptor) ∧ ∀ column ∈ s.panes.dynamicColumns,
      s.openedFor column.id = descriptor.resourceKey →
        Focused s (s.openPane descriptor) column := by
  have hcases := descriptor_cases hasks
  -- A profile that is open is not asked for, so what is open has the key that is asked for.
  have hplain : ∀ column ∈ s.panes.dynamicColumns,
      s.openedFor column.id = descriptor.resourceKey →
        Plain (uuid s.calls) descriptor ∧
          dynamicPaneResourceKey column = descriptor.resourceKey := by
    intro column hcolumn hopened
    rcases hcases with ⟨hplain, -⟩ | ⟨status, rfl, rfl⟩
    · exact ⟨hplain, (h.openedFor_iff hcolumn (kind_plain hplain)).1 hopened⟩
    · exact absurd ⟨status, rfl, column, hcolumn, hopened⟩ hsafe
  rcases reduceOpenOrFocus_cases s.panes descriptor with
    ⟨existing, hexisting, hmatch, hresult⟩ | ⟨hnone, hresult⟩
  · have hpanes : (s.openPane descriptor).panes =
        (focusDynamicPane s.panes descriptor existing).state := by
      rw [Session.openPane, hresult]
    have hopened : (s.openPane descriptor).openedFor = s.openedFor := by
      rw [Session.openPane, hresult]
      rfl
    obtain ⟨hid, hindex⟩ := id_focusDynamicPane s.panes descriptor existing
    constructor
    · refine h.replace hexisting hid hindex ?_ (by rw [hpanes]; rfl)
        (by rw [hpanes]; exact h.dynamicColumns_focus hexisting) (Nat.le_succ _) hopened
      rcases hcases with ⟨hplain, -⟩ | ⟨status, -, rfl⟩
      · have hsame : (focusDynamicPane s.panes descriptor existing).column = existing := by
          rw [focusDynamicPane, hplain.noUpdate]
          rfl
        rw [hsame]
        exact h.keyed existing hexisting
      · exact keyed_focusProfile (h.keyed existing hexisting) hmatch _
    · intro column hcolumn hcolumnOpened
      have hkind := kind_plain (hplain column hcolumn hcolumnOpened).1
      have : column = existing := h.eq_of_openedFor hcolumn hexisting
        (hcolumnOpened.trans ((h.openedFor_iff hexisting hkind).2 hmatch).symm)
      exact this ▸ h.focused hexisting hpanes
  · have hnew : ∀ column ∈ s.panes.dynamicColumns,
        s.openedFor column.id ≠ descriptor.resourceKey := fun column hcolumn hopened =>
      hnone column hcolumn (hplain column hcolumn hopened).2
    have hkeyed : descriptor.column.id = uuid s.calls ∧
        Keyed descriptor.resourceKey descriptor.column := by
      rcases hcases with ⟨hplain, -⟩ | ⟨status, -, rfl⟩
      · exact ⟨hplain.id, keyed_plain hplain⟩
      · exact ⟨rfl, keyed_openUserPane _ _⟩
    refine ⟨?_, fun column hcolumn hopened => absurd hopened (hnew column hcolumn)⟩
    rw [Session.openPane, hresult]
    exact h.openDynamicPane huuid hkeyed.1 hkeyed.2 hnew

/-- A step that opens no profile again leaves one pane for a resource. -/
theorem Good.step (h : Good uuid s) (huuid : uuid.Injective) (hsafe : ¬ ReopensProfile s label) :
    Good uuid (s.step names uuid label) ∧
      OnePane names uuid s label (s.step names uuid label) := by
  cases label with
  | close paneIndex =>
    have hgood := h.close paneIndex
    exact ⟨hgood, hgood.openedOnce, hgood.ownPanes, fun _ _ h => nomatch h⟩
  | act action =>
    cases hasks : s.asks names uuid action with
    | none =>
      have hstep : s.step names uuid (.act action) = s := by rw [Session.step, hasks]
      rw [hstep]
      refine ⟨h, h.openedOnce, h.ownPanes, fun action' descriptor hlabel hasks' => ?_⟩
      cases hlabel
      rw [hasks] at hasks'
      cases hasks'
    | some descriptor =>
      have hstep : s.step names uuid (.act action) = s.openPane descriptor := by
        rw [Session.step, hasks]
      obtain ⟨hgood, hfocused⟩ := h.openPane huuid hasks hsafe
      rw [hstep]
      refine ⟨hgood, hgood.openedOnce, hgood.ownPanes, fun action' descriptor' hlabel hasks' => ?_⟩
      cases hlabel
      rw [hasks] at hasks'
      cases hasks'
      exact hfocused

/-- A profile that is asked for again gets a second pane, or another pane gets the focus. -/
theorem Good.not_onePane (h : Good uuid s) (hreopens : ReopensProfile s label) :
    ¬ OnePane names uuid s label (s.step names uuid label) := by
  obtain ⟨status, rfl, column, hcolumn, hopened⟩ := hreopens
  rintro ⟨honce, -, hfocus⟩
  have hstep : s.step names uuid (.act (.user status)) =
    s.openPane (openUserPane names (uuid s.calls) status) := rfl
  rw [hstep] at honce hfocus
  generalize hdescriptor : openUserPane names (uuid s.calls) status = descriptor at *
  have hkey : descriptor.resourceKey = userKey status := by rw [← hdescriptor, openUserPane]
  rcases reduceOpenOrFocus_cases s.panes descriptor with
    ⟨existing, hexisting, hmatch, hresult⟩ | ⟨-, hresult⟩
  · have hscroll := (hfocus _ _ rfl (congrArg some hdescriptor) column hcolumn
      (hopened.trans hkey.symm)).2.1
    rw [Session.openPane, hresult] at hscroll
    have hindex : existing.paneIndex = column.paneIndex := Option.some.inj hscroll
    obtain rfl := List.inj_on_of_nodup_map h.ownPanes.1 hexisting hcolumn hindex
    have hkeyed := h.keyed existing hexisting
    have htype : existing.columnType = profileType := by
      rw [← hkeyed.kind, hopened, kind_userKey]
    have hshort := hkeyed.profile htype
    rw [hmatch, hkey, hopened] at hshort
    exact lt_irrefl _ hshort
  · rw [Session.openPane, hresult] at honce
    have hnodup : ((s.panes.dynamicColumns ++
      [(Panes.openDynamicPane s.panes descriptor).column]).map fun other =>
        Function.update s.openedFor descriptor.column.id descriptor.resourceKey
          other.id).Nodup := honce
    rw [List.map_append, List.nodup_append] at hnodup
    refine hnodup.2.2 _ (List.mem_map_of_mem hcolumn) _ (List.mem_singleton_self _) ?_
    show _ = Function.update s.openedFor descriptor.column.id descriptor.resourceKey
      descriptor.column.id
    rw [Function.update_self]
    by_cases hid : column.id = descriptor.column.id
    · rw [hid, Function.update_self]
    · rw [Function.update_of_ne hid, hopened, hkey]

/-! ### Runs -/

/-- No step of a run opens a profile again. -/
def OpensNoneAgain (names : Names) (uuid : ℕ → Str) (persistedColumns : List ColumnSummary)
    (labels : List Label) : Prop :=
  ∀ before label after, labels = before ++ label :: after →
    ¬ ReopensProfile (session names uuid persistedColumns before) label

variable {persistedColumns : List ColumnSummary}

@[simp] theorem opensNoneAgain_nil : OpensNoneAgain names uuid persistedColumns [] := by
  intro before label after heq
  simp at heq

@[simp] theorem opensNoneAgain_snoc :
    OpensNoneAgain names uuid persistedColumns (labels ++ [label]) ↔
      OpensNoneAgain names uuid persistedColumns labels ∧
        ¬ ReopensProfile (session names uuid persistedColumns labels) label := by
  constructor
  · intro h
    refine ⟨?_, h labels label [] rfl⟩
    rintro before last after rfl
    exact h before last (after ++ [label]) (by simp)
  · rintro ⟨hinit, hlast⟩ before last after heq
    rcases List.eq_nil_or_concat after with rfl | ⟨after, final, rfl⟩
    · obtain ⟨rfl, hlabel⟩ := List.append_inj' heq rfl
      obtain rfl := List.singleton_inj.1 hlabel
      exact hlast
    · have heq' : labels ++ [label] = (before ++ last :: after) ++ [final] := by
        simpa using heq
      exact hinit before last after (List.append_inj_left' heq' rfl)

theorem good_session (huuid : uuid.Injective)
    (h : OpensNoneAgain names uuid persistedColumns labels) :
    Good uuid (session names uuid persistedColumns labels) := by
  induction labels using List.reverseRecOn with
  | nil => exact good_start persistedColumns
  | append_singleton labels label ih =>
    rw [opensNoneAgain_snoc] at h
    rw [session_snoc]
    exact ((ih h.1).step huuid h.2).1

theorem opensNoneAgain_of_onePane (huuid : uuid.Injective)
    (h : OnePaneThroughout names uuid persistedColumns labels) :
    OpensNoneAgain names uuid persistedColumns labels := by
  induction labels using List.reverseRecOn with
  | nil => exact opensNoneAgain_nil
  | append_singleton labels label ih =>
    have hinit : OpensNoneAgain names uuid persistedColumns labels := by
      refine ih ?_
      rintro before last after rfl
      exact h before last (after ++ [label]) (by simp)
    refine opensNoneAgain_snoc.2 ⟨hinit, fun hreopens => ?_⟩
    have hlast := h labels label [] rfl
    rw [session_snoc] at hlast
    exact (good_session huuid hinit).not_onePane hreopens hlast

/-- There is one pane for a resource throughout a run exactly if no profile is asked for again
while a pane that was opened for it is open. -/
theorem onePaneThroughout_iff (huuid : uuid.Injective) (labels : List Label) :
    OnePaneThroughout names uuid persistedColumns labels ↔
      OpensNoneAgain names uuid persistedColumns labels := by
  refine ⟨opensNoneAgain_of_onePane huuid, fun h => ?_⟩
  rintro before label after rfl
  have hprefix : OpensNoneAgain names uuid persistedColumns (before ++ [label]) := by
    rintro first last rest heq
    refine h first last (rest ++ after) ?_
    calc before ++ label :: after = (before ++ [label]) ++ after := by simp
      _ = first ++ last :: (rest ++ after) := by rw [heq]; simp
  rw [opensNoneAgain_snoc] at hprefix
  rw [session_snoc]
  exact ((good_session huuid hprefix.1).step huuid hprefix.2).2

end

/-! ### A profile is opened twice -/

/-- A post of an account on `m.example`, seen by its own account. -/
def seenStatus : TimelineStatus :=
  { id := "1".toList
    originalStatusId := "1".toList
    sourceAcct := .value "me@m.example".toList
    accountId := "7".toList
    serverDomain := "m.example".toList
    displayName := "Alice".toList
    acct := "alice@m.example".toList
    avatar := []
    createdAt := []
    notificationAccountId := .null
    notificationAcct := .null }

def englishNames : Names :=
  { default := id
    bookmarksBy := fun acct => acct
    search := fun _ query => query
    thread := "Thread".toList
    airContext := "AIR context".toList }

def letters (n : ℕ) : Str := List.replicate n 'a'

theorem letters_injective : letters.Injective := fun a b h => by
  simpa [letters] using congrArg List.length h

/-- The author of a post is opened twice, and has two panes. -/
theorem not_onePaneThroughout :
    ¬ OnePaneThroughout englishNames letters []
      [.act (.user seenStatus), .act (.user seenStatus)] := by
  intro h
  have htwice := h [.act (.user seenStatus)] (.act (.user seenStatus)) [] rfl
  exact absurd htwice.1 (by unfold OpenedOnce; decide)

/-- The bookmarks are opened twice, and a profile in between. -/
theorem onePaneThroughout_bookmarks :
    OnePaneThroughout englishNames letters []
      [.act .addBookmarks, .act (.user seenStatus), .act .addBookmarks] := by
  refine (onePaneThroughout_iff letters_injective _).2 ?_
  have hfirst : OpensNoneAgain englishNames letters [] [.act .addBookmarks] :=
    opensNoneAgain_snoc.2 ⟨opensNoneAgain_nil, fun ⟨_, h, _⟩ => nomatch h⟩
  have hsecond : OpensNoneAgain englishNames letters []
      [.act .addBookmarks, .act (.user seenStatus)] := by
    refine opensNoneAgain_snoc.2 ⟨hfirst, ?_⟩
    rintro ⟨status, h, column, hcolumn, hopened⟩
    cases h
    obtain rfl := List.mem_singleton.1 hcolumn
    exact absurd hopened (by decide)
  exact opensNoneAgain_snoc.2 ⟨hsecond, fun ⟨_, h, _⟩ => nomatch h⟩

end Awayuki.Panes
