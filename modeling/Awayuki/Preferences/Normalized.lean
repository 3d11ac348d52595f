import Awayuki.Preferences.Columns

/-!
# The numbers of panes and positions

`normalized_column_request` numbers the panes in their order, and the columns of each pane in
theirs.

* `paneRank`, `numbered`: the new numbers, without the maps of the loop;
* `normalizedColumnRequest_eq`: the loop gives these;
* `normalizedColumnRequest_idem`: a normalized request is left as it is.
-/

namespace Awayuki.Preferences

variable {all before rest columns : List ColumnSummary} {column : ColumnSummary} {p q : ℕ}

/-! ### The new numbers -/

variable {columns' : List ColumnSummary} {a b : ColumnSummary}

def paneSet (columns : List ColumnSummary) : Finset ℕ := (columns.map (·.paneIndex)).toFinset

/-- The number of panes before one. -/
def paneRank (columns : List ColumnSummary) (pane : ℕ) : ℕ :=
  ((paneSet columns).filter (· < pane)).card

/-- A column with the number of its pane, and after the columns of the pane before it. -/
def place (all before : List ColumnSummary) (column : ColumnSummary) : ColumnSummary :=
  { column with
    paneIndex := paneRank all column.paneIndex
    position := ((before.map (·.paneIndex)).count column.paneIndex : ℕ)
    maxStatuses := max column.maxStatuses 1 }

/-- The columns that follow others. -/
def numbered (all : List ColumnSummary) : List ColumnSummary → List ColumnSummary →
    List ColumnSummary
  | _, [] => []
  | before, column :: columns =>
    place all before column :: numbered all (before ++ [column]) columns

theorem mem_paneSet : p ∈ paneSet columns ↔ ∃ column ∈ columns, column.paneIndex = p := by
  rw [paneSet, List.mem_toFinset, List.mem_map]

theorem paneRank_lt (hp : p ∈ paneSet columns) (h : p < q) :
    paneRank columns p < paneRank columns q := by
  refine Finset.card_lt_card (Finset.ssubset_iff_of_subset ?_ |>.2 ⟨p, ?_, ?_⟩)
  · exact Finset.monotone_filter_right _ fun r _ hr => hr.trans h
  · exact Finset.mem_filter.2 ⟨hp, h⟩
  · exact fun hmem => lt_irrefl p (Finset.mem_filter.1 hmem).2

theorem paneRank_inj (hp : p ∈ paneSet columns) (hq : q ∈ paneSet columns) :
    paneRank columns p = paneRank columns q ↔ p = q := by
  refine ⟨fun h => ?_, congrArg _⟩
  rcases lt_trichotomy p q with hlt | heq | hlt
  · exact absurd h (paneRank_lt hp hlt).ne
  · exact heq
  · exact absurd h.symm (paneRank_lt hq hlt).ne

theorem paneRank_congr (h : columns.Perm columns') : paneRank columns = paneRank columns' := by
  funext pane
  rw [paneRank, paneRank, paneSet, paneSet, List.toFinset_eq_of_perm _ _ (h.map _)]

/-! ### The loop -/

/-- What the maps of the loop are after the columns before. -/
structure Numbering (all before : List ColumnSummary) (panes : List (ℕ × ℕ)) (positions : ℕ → ℕ) :
    Prop where
  lookup : ∀ p, panes.lookup p = if p ∈ paneSet before then some (paneRank all p) else none
  length : panes.length = (paneSet before).card
  positions : ∀ p ∈ paneSet all, positions (paneRank all p) = (before.map (·.paneIndex)).count p

theorem paneSet_append :
    paneSet (before ++ [column]) = insert column.paneIndex (paneSet before) := by
  ext p
  rw [paneSet, paneSet, List.map_append, List.toFinset_append, Finset.mem_union, Finset.mem_insert,
    or_comm]
  simp

/-- A pane that is new comes after all the panes before. -/
theorem paneRank_new
    (hsorted : (before ++ column :: rest).Pairwise fun a b => a.paneIndex ≤ b.paneIndex)
    (hnew : column.paneIndex ∉ paneSet before) :
    paneRank (before ++ column :: rest) column.paneIndex = (paneSet before).card := by
  obtain ⟨-, hrest, hbefore⟩ := List.pairwise_append.1 hsorted
  refine congrArg Finset.card (Finset.ext fun p => ?_)
  rw [Finset.mem_filter, mem_paneSet, mem_paneSet]
  constructor
  · rintro ⟨⟨other, hmem, rfl⟩, hlt⟩
    rcases List.mem_append.1 hmem with hmem | hmem
    · exact ⟨other, hmem, rfl⟩
    · rcases List.mem_cons.1 hmem with rfl | hmem
      · exact absurd hlt (lt_irrefl _)
      · exact absurd hlt (not_lt.2 ((List.pairwise_cons.1 hrest).1 other hmem))
  · rintro ⟨other, hmem, rfl⟩
    refine ⟨⟨other, List.mem_append_left _ hmem, rfl⟩, lt_of_le_of_ne ?_ fun heq => ?_⟩
    · exact hbefore other hmem column List.mem_cons_self
    · exact hnew (mem_paneSet.2 ⟨other, hmem, heq⟩)

theorem renumber_eq {panes : List (ℕ × ℕ)} {positions : ℕ → ℕ} (hall : all = before ++ columns)
    (hsorted : all.Pairwise fun a b => a.paneIndex ≤ b.paneIndex)
    (h : Numbering all before panes positions) :
    renumber panes positions columns = numbered all before columns := by
  induction columns generalizing before panes positions with
  | nil => rfl
  | cons column columns ih =>
    have hmem : column.paneIndex ∈ paneSet all :=
      mem_paneSet.2 ⟨column, hall ▸ List.mem_append_right _ List.mem_cons_self, rfl⟩
    have hindex : (panes.lookup column.paneIndex).getD panes.length =
        paneRank all column.paneIndex := by
      rw [h.lookup]
      split_ifs with hseen
      · rfl
      · rw [Option.getD_none, h.length, hall]
        rw [hall] at hsorted
        exact (paneRank_new hsorted hseen).symm
    rw [renumber, numbered, hindex]
    refine congrArg₂ List.cons ?_ (ih (by rw [hall, List.append_assoc]; rfl) ⟨fun p => ?_, ?_, ?_⟩)
    · rw [h.positions _ hmem]
      rfl
    · rw [paneSet_append]
      split_ifs with hseen hp hp
      · rw [h.lookup, if_pos ?_]
        rcases Finset.mem_insert.1 hp with rfl | hp
        · by_contra hnot
          rw [h.lookup, if_neg hnot] at hseen
          cases hseen
        · exact hp
      · rw [h.lookup, if_neg fun hmem => hp (Finset.mem_insert_of_mem hmem)]
      · rw [List.lookup_cons]
        by_cases heq : p = column.paneIndex
        · rw [heq, beq_self_eq_true, ← hindex]
          rw [Bool.not_eq_true, Option.isSome_eq_false_iff, Option.isNone_iff_eq_none] at hseen
          rw [hseen]
          rfl
        · rw [beq_false_of_ne heq]
          exact (h.lookup p).trans (if_pos ((Finset.mem_insert.1 hp).resolve_left heq))
      · have heq : p ≠ column.paneIndex := fun heq => hp (heq ▸ Finset.mem_insert_self _ _)
        rw [List.lookup_cons, beq_false_of_ne heq]
        exact (h.lookup p).trans (if_neg fun hmem => hp (Finset.mem_insert_of_mem hmem))
    · rw [paneSet_append]
      split_ifs with hseen
      · rw [h.length, Finset.insert_eq_of_mem]
        by_contra hnot
        rw [h.lookup, if_neg hnot] at hseen
        cases hseen
      · rw [List.length_cons, h.length, Finset.card_insert_of_notMem]
        intro hmem
        rw [h.lookup, if_pos hmem] at hseen
        exact hseen rfl
    · intro p hp
      rw [List.map_append, List.count_append]
      by_cases heq : p = column.paneIndex
      · rw [heq, Function.update_self, h.positions _ hmem]
        simp
      · have hne : paneRank all p ≠ paneRank all column.paneIndex :=
          fun hrank => heq ((paneRank_inj hp hmem).1 hrank)
        rw [Function.update_of_ne hne, h.positions p hp]
        simp [Ne.symm heq]

theorem numbered_congr {all' : List ColumnSummary} (h : paneRank all = paneRank all') :
    numbered all before columns = numbered all' before columns := by
  induction columns generalizing before with
  | nil => rfl
  | cons column columns ih => rw [numbered, numbered, ih, place, place, h]

theorem perm_sortedColumns (columns : List ColumnSummary) :
    (sortedColumns columns).Perm columns := List.perm_insertionSort _ _

theorem pairwise_sortedColumns (columns : List ColumnSummary) :
    (sortedColumns columns).Pairwise fun a b => requestKey a ≤ requestKey b :=
  List.pairwise_insertionSort _ _

theorem paneIndex_le (h : requestKey a ≤ requestKey b) : a.paneIndex ≤ b.paneIndex := by
  rcases (Prod.Lex.toLex_le_toLex).1 h with hlt | ⟨heq, -⟩
  · exact hlt.le
  · exact heq.le

/-- The columns are numbered in the order of the request. -/
theorem normalizedColumnRequest_eq (columns : List ColumnSummary) :
    normalizedColumnRequest columns = numbered columns [] (sortedColumns columns) := by
  have hsorted := (pairwise_sortedColumns columns).imp fun h => paneIndex_le h
  have hstart : Numbering (sortedColumns columns) [] [] fun _ => 0 :=
    ⟨fun _ => rfl, rfl, fun _ _ => rfl⟩
  have hall : sortedColumns columns = [] ++ sortedColumns columns := rfl
  rw [normalizedColumnRequest, renumber_eq hall hsorted hstart,
    numbered_congr (paneRank_congr (perm_sortedColumns columns))]

/-! ### Normalized requests -/

theorem map_paneIndex_numbered : (numbered all before columns).map (·.paneIndex) =
    columns.map fun column => paneRank all column.paneIndex := by
  induction columns generalizing before with
  | nil => rfl
  | cons column columns ih => rw [numbered, List.map_cons, List.map_cons, ih, place]

theorem length_numbered : (numbered all before columns).length = columns.length := by
  have hmap : (numbered all before columns).map (·.paneIndex) =
      columns.map fun column => paneRank all column.paneIndex := map_paneIndex_numbered
  simpa using congrArg List.length hmap

theorem numbered_append : numbered all before (columns ++ columns') =
      numbered all before columns ++ numbered all (before ++ columns) columns' := by
  induction columns generalizing before with
  | nil => rw [List.nil_append, numbered, List.nil_append, List.append_nil]
  | cons column columns ih =>
    rw [List.cons_append, numbered, numbered, ih, List.cons_append, List.append_assoc]
    rfl

theorem mem_numbered {read : ColumnSummary} (h : read ∈ numbered all before columns) :
    ∃ mid column rest,
      columns = mid ++ column :: rest ∧ read = place all (before ++ mid) column := by
  induction columns generalizing before with
  | nil => cases h
  | cons column columns ih =>
    rcases List.mem_cons.1 h with rfl | h
    · exact ⟨[], column, columns, rfl, by rw [List.append_nil]⟩
    · obtain ⟨mid, other, rest, rfl, rfl⟩ := ih h
      exact ⟨column :: mid, other, rest, rfl, by rw [List.append_assoc]; rfl⟩

/-- In a normalized request no two columns are at one place, and they are in their order. -/
theorem pairwise_numbered (hpanes : ∀ column ∈ columns, column.paneIndex ∈ paneSet all)
    (hsorted : columns.Pairwise fun a b => a.paneIndex ≤ b.paneIndex) :
    (numbered all before columns).Pairwise fun a b =>
      a.paneIndex < b.paneIndex ∨ (a.paneIndex = b.paneIndex ∧ a.position < b.position) := by
  induction columns generalizing before with
  | nil => exact .nil
  | cons column columns ih =>
    obtain ⟨hfirst, hsorted⟩ := List.pairwise_cons.1 hsorted
    rw [numbered, List.pairwise_cons]
    refine ⟨fun read hread => ?_, ih (fun c hc => hpanes c (List.mem_cons_of_mem _ hc)) hsorted⟩
    obtain ⟨mid, other, rest, rfl, rfl⟩ := mem_numbered hread
    have hother : other ∈ mid ++ other :: rest := List.mem_append_right _ List.mem_cons_self
    rcases (hfirst other hother).lt_or_eq with hlt | heq
    · exact .inl (paneRank_lt (hpanes column List.mem_cons_self) hlt)
    · refine .inr ⟨congrArg (paneRank all) heq, ?_⟩
      show (((before.map (·.paneIndex)).count column.paneIndex : ℕ) : ℤ) <
        (((before ++ [column] ++ mid).map (·.paneIndex)).count other.paneIndex : ℕ)
      rw [← heq, List.map_append, List.map_append, List.count_append, List.count_append]
      simp
      omega

theorem requestKey_le (h : a.paneIndex < b.paneIndex ∨
    (a.paneIndex = b.paneIndex ∧ a.position < b.position)) : requestKey a ≤ requestKey b := by
  rcases h with hlt | ⟨heq, hlt⟩
  · exact Prod.Lex.toLex_le_toLex.2 (.inl hlt)
  · exact Prod.Lex.toLex_le_toLex.2 (.inr ⟨heq, Prod.Lex.toLex_le_toLex.2 (.inl hlt)⟩)

theorem pairwise_normalized (columns : List ColumnSummary) :
    (normalizedColumnRequest columns).Pairwise fun a b =>
      a.paneIndex < b.paneIndex ∨ (a.paneIndex = b.paneIndex ∧ a.position < b.position) := by
  rw [normalizedColumnRequest_eq]
  refine pairwise_numbered (fun column hcolumn => ?_)
    ((pairwise_sortedColumns columns).imp fun h => paneIndex_le h)
  exact mem_paneSet.2 ⟨column, (perm_sortedColumns columns).mem_iff.1 hcolumn, rfl⟩

/-- The panes of a normalized request are numbered densely. -/
theorem paneRank_numbered (hp : p ∈ paneSet all) (hperm : columns.Perm all) :
    paneRank (numbered all before columns) (paneRank all p) = paneRank all p := by
  have hset : paneSet (numbered all before columns) = (paneSet all).image (paneRank all) := by
    ext r
    rw [paneSet, map_paneIndex_numbered, List.mem_toFinset, List.mem_map, Finset.mem_image]
    constructor
    · rintro ⟨column, hcolumn, rfl⟩
      exact ⟨column.paneIndex, mem_paneSet.2 ⟨column, hperm.mem_iff.1 hcolumn, rfl⟩, rfl⟩
    · rintro ⟨pane, hpane, rfl⟩
      obtain ⟨column, hcolumn, rfl⟩ := mem_paneSet.1 hpane
      exact ⟨column, hperm.mem_iff.2 hcolumn, rfl⟩
  have hfilter : ((paneSet all).image (paneRank all)).filter (· < paneRank all p) =
      ((paneSet all).filter (· < p)).image (paneRank all) := by
    ext r
    rw [Finset.mem_filter, Finset.mem_image, Finset.mem_image]
    constructor
    · rintro ⟨⟨q, hq, rfl⟩, hlt⟩
      refine ⟨q, Finset.mem_filter.2 ⟨hq, ?_⟩, rfl⟩
      by_contra hle
      rcases (not_lt.1 hle).lt_or_eq with h | h
      · exact absurd (paneRank_lt hp h) hlt.asymm
      · exact absurd hlt (h ▸ lt_irrefl _)
    · rintro ⟨q, hq, rfl⟩
      obtain ⟨hq, hlt⟩ := Finset.mem_filter.1 hq
      exact ⟨⟨q, hq, rfl⟩, paneRank_lt hq hlt⟩
  rw [paneRank, hset, hfilter, Finset.card_image_of_injOn]
  · rfl
  · intro q hq r hr h
    exact (paneRank_inj (Finset.mem_filter.1 hq).1 (Finset.mem_filter.1 hr).1).1 h

theorem count_numbered (hp : p ∈ paneSet all)
    (hpanes : ∀ column ∈ columns, column.paneIndex ∈ paneSet all) :
    ((numbered all before columns).map (·.paneIndex)).count (paneRank all p) =
      (columns.map (·.paneIndex)).count p := by
  rw [map_paneIndex_numbered]
  induction columns with
  | nil => rfl
  | cons column columns ih =>
    have hrest := ih fun c hc => hpanes c (List.mem_cons_of_mem _ hc)
    have hsame := paneRank_inj (hpanes column List.mem_cons_self) hp
    rw [List.map_cons, List.map_cons, List.count_cons, List.count_cons, hrest]
    simp only [beq_iff_eq, hsame]

theorem numbered_numbered (hperm : (before ++ columns).Perm all)
    {again : List ColumnSummary}
    (hagain : ∀ p ∈ paneSet all, paneRank again (paneRank all p) = paneRank all p) :
    numbered again (numbered all [] before) (numbered all before columns) =
      numbered all before columns := by
  induction columns generalizing before with
  | nil => rfl
  | cons column columns ih =>
    have hpane : ∀ c ∈ before ++ column :: columns, c.paneIndex ∈ paneSet all :=
      fun c hc => mem_paneSet.2 ⟨c, hperm.mem_iff.1 hc, rfl⟩
    have hcolumn := hpane column (List.mem_append_right _ List.mem_cons_self)
    have hnext : numbered all [] before ++ [place all before column] =
        numbered all [] (before ++ [column]) := by
      rw [numbered_append]
      rfl
    have hplace : place again (numbered all [] before) (place all before column) =
        place all before column := by
      have hcount : ((numbered all [] before).map (·.paneIndex)).count
          (paneRank all column.paneIndex) = (before.map (·.paneIndex)).count column.paneIndex :=
        count_numbered hcolumn fun c hc => hpane c (List.mem_append_left _ hc)
      show ColumnSummary.mk .. = ColumnSummary.mk ..
      rw [ColumnSummary.mk.injEq]
      refine ⟨rfl, rfl, rfl, rfl, ?_, hagain _ hcolumn, ?_, rfl, rfl, rfl, rfl⟩
      · show max (max column.maxStatuses 1) 1 = max column.maxStatuses 1
        omega
      · exact congrArg Int.ofNat hcount
    rw [numbered, numbered, hplace, hnext, ih (by rwa [List.append_assoc])]

/-- A normalized request is left as it is. -/
theorem normalizedColumnRequest_idem (columns : List ColumnSummary) :
    normalizedColumnRequest (normalizedColumnRequest columns) =
      normalizedColumnRequest columns := by
  have hsorted : sortedColumns (normalizedColumnRequest columns) =
      normalizedColumnRequest columns :=
    ((pairwise_normalized columns).imp fun h => requestKey_le h).insertionSort_eq
  rw [normalizedColumnRequest_eq (normalizedColumnRequest columns), hsorted,
    normalizedColumnRequest_eq columns]
  have hperm : ([] ++ sortedColumns columns).Perm columns := perm_sortedColumns columns
  exact numbered_numbered hperm fun p hp => paneRank_numbered hp (perm_sortedColumns columns)

end Awayuki.Preferences
