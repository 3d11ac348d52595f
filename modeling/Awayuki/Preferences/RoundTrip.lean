import Awayuki.Preferences.Normalized

/-!
# The layout at the next start

A column is read as it was saved, if its numbers fit the table and the decoder does not find a
filter in a parameter that was stored without one.

* `parse_wrap`, `decode_encode_iff`: when the text column is read back;
* `restored`, `unchanged_restored_iff`: how a column is read;
* `saveColumns_ok`, `readColumns_map`: the rows, and the columns of the rows;
* `roundTrip_iff`: exactly when the layout is restored.
-/

namespace Awayuki.Preferences

open Kq

variable {finite : Str → Bool} {column : ColumnSummary} {request : List ColumnSummary}
  {configs : List DbColumnConfig}

/-! ### The text column -/

variable {columns : List ColumnSummary} {n : ℕ} {α : Type} {columnType : Str}
  {columnParam accountAcct : Option Str} {read : ColumnSummary} {all before : List ColumnSummary}

def filterMembers (filter : TimelineDisplayFilter) : List (Str × JsonText.Value) :=
  [("enabled".toList, .bool filter.enabled), ("excludeBoosts".toList, .bool filter.excludeBoosts),
    ("excludeMedia".toList, .bool filter.excludeMedia),
    ("includeMedia".toList, .bool filter.includeMedia)]

def paramValue : Option Str → JsonText.Value
  | none => .null
  | some param => .string param

def wrapMembers (columnParam : Option Str) (filter : TimelineDisplayFilter) :
    List (Str × JsonText.Value) :=
  [("filters".toList, .object (filterMembers filter)), ("value".toList, paramValue columnParam)]

theorem fromValue_filterMembers (filter : TimelineDisplayFilter) :
    TimelineDisplayFilter.fromValue (.object (filterMembers filter)) = some filter := rfl

theorem parse_wrap (columnParam : Option Str) (filter : TimelineDisplayFilter) :
    JsonText.parse finite 127 (wrap columnParam filter) =
      some (.object (wrapMembers columnParam filter)) := by
  have hfilter : JsonText.Reads finite 126 filter.text (.object (filterMembers filter)) := by
    refine JsonText.reads_object ?_ (List.cons_ne_nil _ _)
    exact .cons ⟨rfl, JsonText.reads_bool _⟩ (.cons ⟨rfl, JsonText.reads_bool _⟩
      (.cons ⟨rfl, JsonText.reads_bool _⟩ (.cons ⟨rfl, JsonText.reads_bool _⟩ .nil)))
  have hparam : JsonText.Reads finite 126 ((columnParam.map JsonText.quote).getD "null".toList)
      (paramValue columnParam) := by
    cases columnParam with
    | none => exact JsonText.reads_null
    | some param => exact JsonText.reads_quote param
  refine JsonText.parse_of_reads (JsonText.reads_object ?_ (List.cons_ne_nil _ _))
  exact .cons ⟨rfl, hfilter⟩ (.cons ⟨rfl, hparam⟩ .nil)

theorem wrapped_wrap (columnParam : Option Str) (filter : TimelineDisplayFilter) :
    wrapped finite (wrap columnParam filter) = some (wrapMembers columnParam filter) := by
  rw [wrapped, asObject, parse_wrap]
  rfl

theorem asStr_paramValue (columnParam : Option Str) :
    asStr (paramValue columnParam) = columnParam := by
  cases columnParam with
  | none => rfl
  | some param => rfl

theorem plainColumnParam_wrap (columnParam : Option Str) (filter : TimelineDisplayFilter) :
    plainColumnParam finite (some (wrap columnParam filter)) = columnParam := by
  rw [plainColumnParam, wrapped_wrap]
  exact asStr_paramValue columnParam

theorem decode_unsupported (hsupports : timelineTypeSupportsDisplayFilter column.columnType = false)
    (columnParam : Option Str) :
    decodeColumnParam finite column.columnType columnParam = (columnParam, none) := by
  unfold decodeColumnParam
  rw [hsupports]
  rfl

theorem decode_none (hsupports : timelineTypeSupportsDisplayFilter column.columnType = true) :
    decodeColumnParam finite column.columnType none = (none, none) := by
  unfold decodeColumnParam
  rw [hsupports]
  rfl

/-- A parameter alone is read as one, or as an object with a filter. -/
theorem decode_some (hsupports : timelineTypeSupportsDisplayFilter column.columnType = true)
    (raw : Str) :
    decodeColumnParam finite column.columnType (some raw) =
      match wrapped finite raw with
      | none => (some raw, none)
      | some members =>
        ((JsonText.get members "value".toList).bind asStr,
          (JsonText.get members "filters".toList).bind TimelineDisplayFilter.fromValue) := by
  unfold decodeColumnParam
  rw [hsupports]
  rfl

/-- A filter that is wrapped is read back with its parameter. -/
theorem decode_wrap (hsupports : timelineTypeSupportsDisplayFilter column.columnType = true)
    (columnParam : Option Str) (filter : TimelineDisplayFilter) :
    decodeColumnParam finite column.columnType (some (wrap columnParam filter)) =
      (columnParam, some filter) := by
  rw [decode_some hsupports, wrapped_wrap]
  exact Prod.ext (asStr_paramValue columnParam) (fromValue_filterMembers filter)

/-- A parameter is not what is inside it. -/
theorem value_ne_raw {raw : Str} {members : List (Str × JsonText.Value)}
    (h : wrapped finite raw = some members) :
    (JsonText.get members "value".toList).bind asStr ≠ some raw := by
  intro heq
  obtain ⟨hobject, -⟩ := Option.filter_eq_some_iff.1 h
  obtain ⟨value, hvalue, hstr⟩ := Option.bind_eq_some_iff.1 heq
  have hstring : value = .string raw := by
    cases value with
    | string s => exact congrArg _ (Option.some.inj hstr)
    | null => cases hstr
    | bool b => cases hstr
    | number text => cases hstr
    | array values => cases hstr
    | object members => cases hstr
  have hparse : JsonText.parse finite 127 raw = some (.object members) := by
    unfold asObject at hobject
    split at hobject
    · next hparse =>
      cases hobject
      exact hparse
    · cases hobject
  exact lt_irrefl _ (JsonText.length_of_member hparse (hstring ▸ hvalue))

/-! ### The type of a column -/

theorem isSome_ite_mono {p : Prop} [Decidable p] {x x' y y' : Option α}
    (hx : p → x.isSome → x'.isSome) (hy : y.isSome → y'.isSome) :
    (if p then x else y).isSome → (if p then x' else y').isSome := by
  by_cases h : p
  · rw [if_pos h, if_pos h]
    exact hx h
  · rw [if_neg h, if_neg h]
    exact hy

/-- The type asks for the parameter, or is there without it. -/
theorem fromColumnConfig_isSome {columnParam' : Option Str}
    (hbookmarks : columnType = "user_bookmarks".toList → columnParam' = columnParam)
    (hplain : (plainColumnParam finite columnParam).isSome →
      (plainColumnParam finite columnParam').isSome) :
    (TimelineType.fromColumnConfig finite columnType columnParam).isSome →
      (TimelineType.fromColumnConfig finite columnType columnParam').isSome := by
  have hmap (f : Str → TimelineType) (h : ((plainColumnParam finite columnParam).map f).isSome) :
      ((plainColumnParam finite columnParam').map f).isSome := by
    rw [Option.isSome_map] at h ⊢
    exact hplain h
  have hbind (heq : columnType = "user_bookmarks".toList)
      (h : (columnParam.bind (parseUserBookmarksColumnParam finite)).isSome) :
      (columnParam'.bind (parseUserBookmarksColumnParam finite)).isSome := by
    rwa [hbookmarks heq]
  unfold TimelineType.fromColumnConfig
  -- the six types without a parameter, the seven with one, and the bookmarks of a user
  refine isSome_ite_mono (fun _ => id) <| isSome_ite_mono (fun _ => id) <|
    isSome_ite_mono (fun _ => id) <| isSome_ite_mono (fun _ => id) <|
    isSome_ite_mono (fun _ => id) <| isSome_ite_mono (fun _ => id) ?_
  refine isSome_ite_mono (fun _ => hmap _) <| isSome_ite_mono (fun _ => hmap _) <|
    isSome_ite_mono (fun _ => hmap _) <| isSome_ite_mono (fun _ => hmap _) <|
    isSome_ite_mono (fun _ => hmap _) <| isSome_ite_mono (fun _ => hmap _) <|
    isSome_ite_mono (fun _ => hmap _) ?_
  exact isSome_ite_mono hbind id

/-- What is stored: the parameter, or the parameter and the filter. -/
theorem encode_cases (column : ColumnSummary) :
    (effectiveFilter column = .default ∧ encodeColumnParam column = column.columnParam) ∨
      (timelineTypeSupportsDisplayFilter column.columnType = true ∧
        effectiveFilter column ≠ .default ∧
        encodeColumnParam column = some (wrap column.columnParam (effectiveFilter column))) := by
  cases hsupports : timelineTypeSupportsDisplayFilter column.columnType with
  | false => exact .inl ⟨by rw [effectiveFilter, hsupports]; rfl,
      by rw [encodeColumnParam, hsupports]; rfl⟩
  | true =>
    have heffective : effectiveFilter column = column.displayFilter.getD .default := by
      rw [effectiveFilter, hsupports]
      rfl
    have hencode : encodeColumnParam column =
        if effectiveFilter column = .default then column.columnParam
        else some (wrap column.columnParam (effectiveFilter column)) := by
      rw [encodeColumnParam, hsupports, heffective]
      rfl
    by_cases hdefault : effectiveFilter column = .default
    · exact .inl ⟨hdefault, hencode.trans (if_pos hdefault)⟩
    · exact .inr ⟨rfl, hdefault, hencode.trans (if_neg hdefault)⟩

/-- A type that can be saved can be read. -/
theorem fromColumnConfig_encode
    (h : (TimelineType.fromColumnConfig finite column.columnType column.columnParam).isSome) :
    (TimelineType.fromColumnConfig finite column.columnType (encodeColumnParam column)).isSome := by
  rcases encode_cases column with ⟨-, hencode⟩ | ⟨hsupports, -, hencode⟩
  · rwa [hencode]
  · rw [hencode]
    refine fromColumnConfig_isSome (fun heq => ?_) (fun hplain => ?_) h
    · rw [heq] at hsupports
      exact absurd hsupports (by decide)
    · rw [plainColumnParam_wrap]
      cases hparam : column.columnParam with
      | none =>
        rw [hparam] at hplain
        exact absurd hplain Bool.false_ne_true
      | some param => rfl

/-! ### The column that is read -/

/-- A column as it is read. -/
def restored (finite : Str → Bool) (column : ColumnSummary) (accountAcct : Option Str) :
    ColumnSummary :=
  let decoded := decodeColumnParam finite column.columnType (encodeColumnParam column)
  { column with
    columnParam := decoded.1
    maxStatuses := (max (asI32 (max column.maxStatuses 1)) 1).toNat
    paneIndex := (max (asI32 column.paneIndex) 0).toNat
    accountAcct
    displayFilter := decoded.2
    desktopNotifications := some (column.desktopNotifications.getD true) }

theorem columnToSummary_columnConfig (accountAcct : Option Str)
    (h : (TimelineType.fromColumnConfig finite column.columnType column.columnParam).isSome) :
    columnToSummary finite (columnConfig column accountAcct) =
      some (restored finite column accountAcct) := by
  obtain ⟨timelineType, htype⟩ := Option.isSome_iff_exists.1 (fromColumnConfig_encode h)
  have hconfig : TimelineType.fromColumnConfig finite (columnConfig column accountAcct).columnType
      (columnConfig column accountAcct).columnParam = some timelineType := htype
  have hlimit : (columnConfig column accountAcct).maxStatuses =
    some (asI32 (max column.maxStatuses 1)) := rfl
  have hpane : (columnConfig column accountAcct).paneIndex = some (asI32 column.paneIndex) := rfl
  rw [columnToSummary, hconfig, Option.map_some, hlimit, hpane, Option.getD_some, Option.getD_some]
  rfl

/-! ### Numbers of 32 bits -/

theorem asI32_eq (h : n < 2147483648) : asI32 n = n := by
  unfold asI32
  exact Int.bmod_eq_of_le (by omega) (by omega)

theorem asI32_lt (n : ℕ) : asI32 n < 2147483648 := by
  unfold asI32
  exact lt_of_lt_of_le (Int.bmod_lt (by norm_num)) (by norm_num)

theorem limit_eq_iff (h : 1 ≤ n) : (max (asI32 (max n 1)) 1).toNat = n ↔ n < 2147483648 := by
  rw [Nat.max_eq_left h]
  constructor
  · intro heq
    have hlt := asI32_lt n
    omega
  · intro hlt
    rw [asI32_eq hlt]
    omega

theorem pane_eq_iff : (max (asI32 n) 0).toNat = n ↔ n < 2147483648 := by
  constructor
  · intro heq
    have hlt := asI32_lt n
    omega
  · intro hlt
    rw [asI32_eq hlt]
    omega

/-! ### When a column is unchanged -/

/-- The parameter and the filter are read back, if the parameter is not taken for another. -/
theorem decode_encode_iff (htype : read.columnType = column.columnType)
    (hread : (read.columnParam, read.displayFilter) =
      decodeColumnParam finite column.columnType (encodeColumnParam column)) :
    (read.columnParam = column.columnParam ∧ effectiveFilter read = effectiveFilter column) ↔
      KeepsParam finite column := by
  rcases encode_cases column with ⟨hdefault, hencode⟩ | ⟨hsupports, hfilter, hencode⟩
  · rw [hencode] at hread
    cases hsupports : timelineTypeSupportsDisplayFilter column.columnType with
    | false =>
      rw [decode_unsupported hsupports] at hread
      obtain ⟨hparam, -⟩ := Prod.mk.inj hread
      refine iff_of_true ⟨hparam, ?_⟩ fun h => absurd (hsupports ▸ h) Bool.false_ne_true
      rw [hdefault, effectiveFilter, htype, hsupports]
      rfl
    | true =>
      cases hparam : column.columnParam with
      | none =>
        rw [hparam, decode_none hsupports] at hread
        obtain ⟨hnone, hfilter⟩ := Prod.mk.inj hread
        refine iff_of_true ⟨hnone, ?_⟩ fun _ _ raw hraw => ?_
        · rw [hdefault, effectiveFilter, htype, hsupports, hfilter]
          rfl
        · rw [hparam] at hraw
          cases hraw
      | some raw =>
        rw [hparam, decode_some hsupports] at hread
        cases hwrapped : wrapped finite raw with
        | none =>
          rw [hwrapped] at hread
          obtain ⟨hsome, hfilter⟩ := Prod.mk.inj hread
          refine iff_of_true ⟨hsome, ?_⟩ fun _ _ raw' hraw => ?_
          · rw [hdefault, effectiveFilter, htype, hsupports, hfilter]
            rfl
          · rw [hparam] at hraw
            cases hraw
            exact hwrapped
        | some members =>
          rw [hwrapped] at hread
          obtain ⟨hvalue, -⟩ := Prod.mk.inj hread
          refine iff_of_false (fun h => value_ne_raw hwrapped (hvalue.symm.trans h.1)) fun h => ?_
          have hnone := h hsupports hdefault raw hparam
          rw [hwrapped] at hnone
          cases hnone
  · rw [hencode, decode_wrap hsupports] at hread
    obtain ⟨hparam, hsome⟩ := Prod.mk.inj hread
    refine iff_of_true ⟨hparam, ?_⟩ fun _ hdefault => absurd hdefault hfilter
    rw [effectiveFilter, htype, hsupports, hsome]
    rfl

theorem unchanged_restored_iff (accountAcct : Option Str) (hlimit : 1 ≤ column.maxStatuses) :
    Unchanged column (restored finite column accountAcct) ↔
      column.maxStatuses < 2147483648 ∧ column.paneIndex < 2147483648 ∧
        KeepsParam finite column := by
  have hdecode : ((restored finite column accountAcct).columnParam = column.columnParam ∧
      effectiveFilter (restored finite column accountAcct) = effectiveFilter column) ↔
        KeepsParam finite column := decode_encode_iff rfl rfl
  rw [← limit_eq_iff hlimit, ← pane_eq_iff,
    ← hdecode]
  constructor
  · exact fun h => ⟨h.maxStatuses, h.paneIndex, h.columnParam, h.filter⟩
  · rintro ⟨hmax, hpane, hparam, hfilter⟩
    exact { id := rfl, columnType := rfl, columnParam := hparam, name := rfl, maxStatuses := hmax,
            paneIndex := hpane, position := rfl, filter := hfilter, desktopNotifications := rfl,
            notificationSound := rfl }

/-! ### What is stored -/

def storedAcct (column : ColumnSummary) : Option Str :=
  if columnTypeIsGlobal column.columnType then none else trimmedAcct column

theorem storedAcct_of_ok (h : normalizedColumnAccountAcct column = .ok accountAcct) :
    accountAcct = storedAcct column := by
  unfold normalizedColumnAccountAcct at h
  unfold storedAcct
  split at h
  · next hglobal =>
    rw [if_pos hglobal]
    exact (Except.ok.inj h).symm
  · next hglobal =>
    rw [if_neg hglobal]
    split at h
    · next acct hacct =>
      rw [hacct]
      exact (Except.ok.inj h).symm
    · cases h

theorem columnConfigs_ok {before configs : List DbColumnConfig}
    (h : columnConfigs before columns = .ok configs) :
    configs = before ++ columns.map fun column => columnConfig column (storedAcct column) := by
  induction columns generalizing before with
  | nil =>
    rw [List.map_nil, List.append_nil]
    exact (Except.ok.inj h).symm
  | cons column columns ih =>
    rw [columnConfigs] at h
    split at h
    · cases h
    · next accountAcct hacct =>
      split at h
      · cases h
      · rw [ih h, storedAcct_of_ok hacct, List.map_cons, List.append_assoc, List.singleton_append]

section

variable [CharTable] [RegexCrate] {runtime : Runtime}

theorem isSome_of_validate (h : validateTimelineColumn finite columnType columnParam = .ok ()) :
    (TimelineType.fromColumnConfig finite columnType columnParam).isSome := by
  unfold validateTimelineColumn at h
  cases htype : TimelineType.fromColumnConfig finite columnType columnParam with
  | none =>
    rw [htype] at h
    cases h
  | some timelineType => rfl

theorem isSome_of_checkColumns (h : checkColumns finite runtime columns = .ok ()) :
    ∀ column ∈ columns,
      (TimelineType.fromColumnConfig finite column.columnType column.columnParam).isSome := by
  induction columns with
  | nil => exact List.forall_mem_nil _
  | cons column columns ih =>
    rw [checkColumns] at h
    cases hcheck : checkColumn finite runtime column with
    | error error =>
      rw [hcheck] at h
      cases h
    | ok =>
      rw [hcheck] at h
      refine List.forall_mem_cons.2 ⟨?_, ih h⟩
      unfold checkColumn at hcheck
      cases hvalidate : validateTimelineColumn finite column.columnType column.columnParam with
      | error error =>
        rw [hvalidate] at hcheck
        cases hcheck
      | ok => exact isSome_of_validate hvalidate

/-- The rows of a request that is accepted. -/
theorem saveColumns_ok (h : saveColumns finite runtime request = .ok configs) :
    (∀ column ∈ normalizedColumnRequest request,
      (TimelineType.fromColumnConfig finite column.columnType column.columnParam).isSome) ∧
    configs =
      (normalizedColumnRequest request).map fun column =>
        columnConfig column (storedAcct column) := by
  rw [saveColumns] at h
  cases hcheck : checkColumns finite runtime (normalizedColumnRequest request) with
  | error error =>
    rw [hcheck] at h
    cases h
  | ok =>
    rw [hcheck] at h
    refine ⟨isSome_of_checkColumns hcheck, ?_⟩
    cases hconfigs : columnConfigs [] (normalizedColumnRequest request) with
    | error error =>
      simp only [hconfigs] at h
      cases h
    | ok stored =>
      have hstored := columnConfigs_ok hconfigs
      rw [List.nil_append] at hstored
      simp only [hconfigs] at h
      rw [← hstored]
      dsimp only [Except.bind] at h
      split at h
      · cases h
      · exact (Except.ok.inj h).symm

end

/-! ### The rows in their order -/

/-- The row of a column, which is read as `restored`. -/
def row (column : ColumnSummary) : DbColumnConfig := columnConfig column (storedAcct column)

def reread (finite : Str → Bool) (column : ColumnSummary) : ColumnSummary :=
  restored finite column (storedAcct column)

/-- Rows that are in their order are read in it. -/
theorem readColumns_map (hne : columns ≠ []) (htypes : ∀ column ∈ columns,
      (TimelineType.fromColumnConfig finite column.columnType column.columnParam).isSome)
    (hsorted : (columns.map row).Pairwise fun a b => configKey a ≤ configKey b) :
    readColumns finite (columns.map row) = columns.map (reread finite) := by
  have hrows : ((columns.map row).insertionSort fun a b => configKey a ≤ configKey b).isEmpty =
      false := by
    rw [hsorted.insertionSort_eq, List.isEmpty_eq_false_iff, Ne, List.map_eq_nil_iff]
    exact hne
  rw [readColumns, hrows, hsorted.insertionSort_eq, List.filterMap_map]
  simp only [Bool.false_eq_true, if_false]
  rw [← List.filterMap_eq_map]
  refine List.filterMap_congr fun column hcolumn => ?_
  exact columnToSummary_columnConfig _ (htypes column hcolumn)

/-- Every column that is read is read of a row. -/
theorem mem_readColumns (hne : columns ≠ []) (htypes : ∀ column ∈ columns,
      (TimelineType.fromColumnConfig finite column.columnType column.columnParam).isSome)
    (h : read ∈ readColumns finite (columns.map row)) :
    ∃ column ∈ columns, read = reread finite column := by
  have hperm := List.perm_insertionSort (fun a b => configKey a ≤ configKey b) (columns.map row)
  have hrows : ((columns.map row).insertionSort fun a b => configKey a ≤ configKey b).isEmpty =
      false := by
    rw [hperm.isEmpty_eq, List.isEmpty_eq_false_iff, Ne, List.map_eq_nil_iff]
    exact hne
  rw [readColumns, hrows] at h
  obtain ⟨config, hconfig, hread⟩ := List.mem_filterMap.1 h
  obtain ⟨column, hcolumn, rfl⟩ := List.mem_map.1 (hperm.mem_iff.1 hconfig)
  refine ⟨column, hcolumn, ?_⟩
  rw [row, columnToSummary_columnConfig _ (htypes column hcolumn)] at hread
  exact (Option.some.inj hread).symm

/-- The rows of a normalized request are in their order, if the numbers of the panes fit. -/
theorem pairwise_rows (hpanes : ∀ column ∈ normalizedColumnRequest request,
    column.paneIndex < 2147483648) :
    ((normalizedColumnRequest request).map row).Pairwise fun a b => configKey a ≤ configKey b := by
  rw [List.pairwise_map]
  refine (pairwise_normalized request).imp_of_mem fun {a b} ha hb h => ?_
  have hpane {column : ColumnSummary} (hcolumn : column ∈ normalizedColumnRequest request) :
      (row column).paneIndex = some (column.paneIndex : ℤ) := by
    rw [← asI32_eq (hpanes column hcolumn)]
    rfl
  rw [configKey, configKey, hpane ha, hpane hb, Prod.Lex.toLex_le_toLex]
  rcases h with hlt | ⟨heq, hlt⟩
  · exact .inl (WithBot.coe_lt_coe.2 (Int.ofNat_lt.2 hlt))
  · refine .inr ⟨?_, hlt.le⟩
    rw [heq]

theorem exists_of_mem_left {β : Type} {R : α → β → Prop} {as : List α} {bs : List β}
    (h : List.Forall₂ R as bs) {a : α} (ha : a ∈ as) : ∃ b ∈ bs, R a b := by
  induction h with
  | nil => cases ha
  | cons hR h ih =>
    rcases List.mem_cons.1 ha with rfl | ha
    · exact ⟨_, List.mem_cons_self, hR⟩
    · obtain ⟨b, hb, hR⟩ := ih ha
      exact ⟨b, List.mem_cons_of_mem _ hb, hR⟩

/-! ### The layout -/

/-- The layout is numbered in its order, and read as it was saved. -/
structure RoundTrip (finite : Str → Bool) (request : List ColumnSummary)
    (configs : List DbColumnConfig) : Prop where
  dense : normalizedColumnRequest request = numbered request [] (sortedColumns request)
  idempotent : normalizedColumnRequest (normalizedColumnRequest request) =
    normalizedColumnRequest request
  unchanged : List.Forall₂ Unchanged (normalizedColumnRequest request) (readColumns finite configs)

/-- The numbers of a column fit the table, and its parameter is kept. -/
structure Restorable (finite : Str → Bool) (all : List ColumnSummary) (column : ColumnSummary) :
    Prop where
  maxStatuses : column.maxStatuses < 2147483648
  paneIndex : paneRank all column.paneIndex < 2147483648
  columnParam : KeepsParam finite column

theorem place_restorable_iff :
    Unchanged (place all before column) (restored finite (place all before column) accountAcct) ↔
      Restorable finite all column := by
  rw [unchanged_restored_iff accountAcct (le_max_right _ _)]
  constructor
  · rintro ⟨hmax, hpane, hparam⟩
    exact ⟨(le_max_left _ _).trans_lt hmax, hpane, hparam⟩
  · rintro ⟨hmax, hpane, hparam⟩
    exact ⟨max_lt hmax (by norm_num), hpane, hparam⟩

theorem forall_numbered_iff :
    (∀ column ∈ numbered all before columns, Unchanged column (reread finite column)) ↔
      ∀ column ∈ columns, Restorable finite all column := by
  induction columns generalizing before with
  | nil => exact iff_of_true (List.forall_mem_nil _) (List.forall_mem_nil _)
  | cons column columns ih =>
    rw [numbered, List.forall_mem_cons, List.forall_mem_cons, ih, reread, place_restorable_iff]

theorem paneIndex_reread_lt (column : ColumnSummary) :
    (reread finite column).paneIndex < 2147483648 := by
  have hlt := asI32_lt column.paneIndex
  have hpane : (reread finite column).paneIndex = (max (asI32 column.paneIndex) 0).toNat := rfl
  omega

section

variable [CharTable] [RegexCrate] {runtime : Runtime}

theorem forall₂_unchanged_iff (h : saveColumns finite runtime request = .ok configs) :
    List.Forall₂ Unchanged (normalizedColumnRequest request) (readColumns finite configs) ↔
      request ≠ [] ∧ ∀ column ∈ request, Restorable finite request column := by
  obtain ⟨htypes, hconfigs⟩ := saveColumns_ok h
  have hrows : configs = (normalizedColumnRequest request).map row := hconfigs
  have hdense := normalizedColumnRequest_eq request
  have hmem (P : ColumnSummary → Prop) :
      (∀ column ∈ sortedColumns request, P column) ↔ ∀ column ∈ request, P column :=
    forall_congr' fun column => by rw [(perm_sortedColumns request).mem_iff]
  have hempty : normalizedColumnRequest request = [] ↔ request = [] := by
    rw [hdense, ← List.length_eq_zero_iff, length_numbered, (perm_sortedColumns request).length_eq,
      List.length_eq_zero_iff]
  -- with numbers that fit, the rows are read in their order
  have hread (hne : request ≠ []) (hpanes : ∀ column ∈ normalizedColumnRequest request,
      column.paneIndex < 2147483648) : readColumns finite configs =
        (normalizedColumnRequest request).map (reread finite) := by
    rw [hrows]
    exact readColumns_map (mt hempty.1 hne) htypes (pairwise_rows hpanes)
  have hforall : List.Forall₂ Unchanged (normalizedColumnRequest request)
      ((normalizedColumnRequest request).map (reread finite)) ↔
        ∀ column ∈ request, Restorable finite request column := by
    rw [List.forall₂_map_right_iff, List.forall₂_same, hdense, forall_numbered_iff, hmem]
  constructor
  · intro hunchanged
    have hne : request ≠ [] := by
      intro heq
      rw [hrows, hempty.2 heq] at hunchanged
      cases hunchanged
    have hpanes : ∀ column ∈ normalizedColumnRequest request, column.paneIndex < 2147483648 := by
      intro column hcolumn
      obtain ⟨read, hmemread, hsame⟩ := exists_of_mem_left hunchanged hcolumn
      rw [hrows] at hmemread
      obtain ⟨column', -, rfl⟩ := mem_readColumns (mt hempty.1 hne) htypes hmemread
      exact hsame.paneIndex ▸ paneIndex_reread_lt column'
    rw [hread hne hpanes] at hunchanged
    exact ⟨hne, hforall.1 hunchanged⟩
  · rintro ⟨hne, hrestorable⟩
    have hpanes : ∀ column ∈ normalizedColumnRequest request, column.paneIndex < 2147483648 := by
      rw [hdense]
      intro read hnumbered
      obtain ⟨mid, column, rest, hsplit, rfl⟩ := mem_numbered hnumbered
      refine (hrestorable column ?_).paneIndex
      rw [← (perm_sortedColumns request).mem_iff, hsplit]
      exact List.mem_append_right _ List.mem_cons_self
    rw [hread hne hpanes]
    exact hforall.2 hrestorable

/-- **The layout is restored exactly when** there is a column, the limits and the panes fit
`i32`, and no parameter that is stored alone is an object with `filters`. -/
theorem roundTrip_iff (h : saveColumns finite runtime request = .ok configs) :
    RoundTrip finite request configs ↔
      request ≠ [] ∧ ∀ column ∈ request, Restorable finite request column := by
  rw [← forall₂_unchanged_iff h]
  exact ⟨fun hround => hround.unchanged, fun hunchanged =>
    ⟨normalizedColumnRequest_eq request, normalizedColumnRequest_idem request, hunchanged⟩⟩

end

/-! ### Two layouts -/

attribute [local instance] asciiCharTable noRegex

def sampleRuntime : Runtime where
  sessionKind := fun _ => none
  replaceError := fun _ => none

def sampleColumn (id columnType : String) (columnParam : Option Str) : ColumnSummary where
  id := id.toList
  columnType := columnType.toList
  columnParam := columnParam
  name := "Cats".toList
  maxStatuses := 50
  paneIndex := 7
  position := 3
  accountAcct := some "me@example.org".toList
  displayFilter := none
  desktopNotifications := none
  notificationSound := none

/-- The home timeline without boosts, and a hashtag. -/
def sampleRequest : List ColumnSummary :=
  [sampleColumn "1" "hashtag" (some "cats".toList),
    { sampleColumn "2" "home" none with displayFilter := some ⟨true, true, false, false⟩ }]

theorem roundTrip_sampleRequest :
    RoundTrip (fun _ => true) sampleRequest ((normalizedColumnRequest sampleRequest).map row) := by
  have hsaved : saveColumns (fun _ => true) sampleRuntime sampleRequest =
      .ok ((normalizedColumnRequest sampleRequest).map row) := by decide +kernel
  refine (roundTrip_iff hsaved).2 ⟨List.cons_ne_nil _ _, List.forall_mem_cons.2 ⟨?_, ?_⟩⟩
  · refine ⟨by decide, by decide, fun _ _ raw hraw => ?_⟩
    cases hraw
    decide +kernel
  · refine List.forall_mem_singleton.2 ⟨by decide, by decide, fun _ hdefault => ?_⟩
    exact absurd hdefault (by decide +kernel)

/-- A search for the text of a JSON object. -/
def jsonRequest : List ColumnSummary :=
  [sampleColumn "1" "search" (some "\x7b\"value\":\"cats\",\"filters\":\x7b\x7d\x7d".toList)]

/-- The search is saved, and is one for another text at the next start. -/
theorem not_roundTrip_jsonRequest : ∃ configs,
    saveColumns (fun _ => true) sampleRuntime jsonRequest = .ok configs ∧
      (readColumns (fun _ => true) configs).map (·.columnParam) = [some "cats".toList] ∧
      ¬RoundTrip (fun _ => true) jsonRequest configs := by
  have hsaved : saveColumns (fun _ => true) sampleRuntime jsonRequest =
      .ok ((normalizedColumnRequest jsonRequest).map row) := by decide +kernel
  refine ⟨_, hsaved, by decide +kernel, fun hround => ?_⟩
  have hkeeps := ((forall₂_unchanged_iff hsaved).1 hround.unchanged).2 _ List.mem_cons_self
  have hnone := hkeeps.columnParam rfl rfl _ rfl
  revert hnone
  decide +kernel

end Awayuki.Preferences
