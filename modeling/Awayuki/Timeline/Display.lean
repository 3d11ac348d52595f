import Awayuki.Timeline.Relinking
import Awayuki.Timeline.Views
import Awayuki.Db.Order

/-!
# The order of display

The rows of a column are listed as the backend returned them, each once.  `timelineDisplayItems` of
`domain/timelineGaps.ts` then merges them with the gaps, by the times of both, newest first.

* `timelineDisplayItems`: what the list shows;
* `firstOccurrences`, `lastWritten`: the keys of a column after it is replaced, and the version
  of a row that is stored under each;
* `KeepsOrder`: the rows are shown in the backend's order, and the gaps where they belong;
* `keepsOrder_iff`: exactly if the backend's order is newest first;
* `orderThreadStatuses`: the order that `application/desktop.rs` gives a thread, whose answers are
  newer than what they answer.
-/

namespace Awayuki.Timeline.Display

open MutableTimelineEntityState

variable {β : Type}

/-! ### What the list shows -/

variable {key : StatusKey} {row : TimelineStatus β}

structure TimelineGap where
  timelineType : Str
  sourceAcct : Str
  boundaryStatusId : Str
  boundaryServerDomain : Str
  boundaryPosition : Str
  nextMaxStatusId : Str
  deriving DecidableEq

inductive TimelineDisplayItem (β : Type)
  | status (status : TimelineStatus β)
  | gap (gap : TimelineGap)
  deriving DecidableEq

namespace TimelineDisplayItem

def asStatus : TimelineDisplayItem β → Option (TimelineStatus β)
  | .status s => some s
  | .gap _ => none

/-- A status comes before a gap of the same time. -/
def kind : TimelineDisplayItem β → ℕ
  | .status _ => 0
  | .gap _ => 1

/-- The time of an item; one that cannot be read counts as `Number.NEGATIVE_INFINITY`. -/
def timestamp (env : Platform) : TimelineDisplayItem β → WithBot ℤ
  | .status s => createdAtTimestamp env (some s)
  | .gap g =>
    match env.dateParse g.boundaryPosition with
    | none => ⊥
    | some time => time

end TimelineDisplayItem

/-- An item and its place among those of its kind. -/
structure SortItem (β : Type) where
  item : TimelineDisplayItem β
  order : ℕ

/-- The comparison of the sort is not positive. -/
def comesFirst (env : Platform) (left right : SortItem β) : Bool :=
  if left.item.timestamp env ≠ right.item.timestamp env then
    right.item.timestamp env < left.item.timestamp env
  else if left.item.kind ≠ right.item.kind then left.item.kind = 0
  else left.order ≤ right.order

def sortItems (statuses : List (TimelineStatus β)) (gaps : List TimelineGap) : List (SortItem β) :=
  statuses.zipIdx.map (fun s => ⟨.status s.1, s.2⟩) ++ gaps.zipIdx.map (fun g => ⟨.gap g.1, g.2⟩)

/-- The items of a list: its rows and its gaps, sorted by their times. -/
def timelineDisplayItems (env : Platform) (statuses : List (TimelineStatus β))
    (gaps : List TimelineGap) : List (TimelineDisplayItem β) :=
  ((sortItems statuses gaps).insertionSort fun left right => comesFirst env left right).map (·.item)

/-- The rows that are shown, in their order. -/
def shown (items : List (TimelineDisplayItem β)) : List (TimelineStatus β) :=
  items.filterMap (·.asStatus)

variable {env : Platform}

theorem comesFirst_iff {left right : SortItem β} : comesFirst env left right = true ↔
    right.item.timestamp env < left.item.timestamp env ∨
      (left.item.timestamp env = right.item.timestamp env ∧
        (left.item.kind < right.item.kind ∨
          (left.item.kind = right.item.kind ∧ left.order ≤ right.order))) := by
  have hkind : ∀ item : TimelineDisplayItem β, item.kind = 0 ∨ item.kind = 1 := by
    intro item
    cases item with
    | status => exact .inl rfl
    | gap => exact .inr rfl
  have hleft := hkind left.item
  have hright := hkind right.item
  unfold comesFirst
  by_cases htime : left.item.timestamp env = right.item.timestamp env
  · rw [if_neg (not_not.2 htime)]
    simp only [htime, lt_irrefl, false_or, true_and]
    by_cases hsame : left.item.kind = right.item.kind
    · rw [if_neg (not_not.2 hsame), decide_eq_true_eq]
      omega
    · rw [if_pos hsame, decide_eq_true_eq]
      omega
  · rw [if_pos htime, decide_eq_true_eq]
    exact ⟨Or.inl, fun h => h.resolve_right fun h => htime h.1⟩

instance comesFirst_isTrans : IsTrans (SortItem β) fun left right => comesFirst env left right where
  trans a b c hab hbc := by
    rw [comesFirst_iff] at *
    rcases hab with hab | ⟨hab, hab'⟩
    · rcases hbc with hbc | ⟨hbc, -⟩
      · exact .inl (hbc.trans hab)
      · exact .inl (hbc ▸ hab)
    · rcases hbc with hbc | ⟨hbc, hbc'⟩
      · exact .inl (hab ▸ hbc)
      · exact .inr ⟨hab.trans hbc, by omega⟩

instance comesFirst_total : Std.Total fun left right : SortItem β => comesFirst env left right where
  total a b := by
    rw [comesFirst_iff, comesFirst_iff]
    rcases lt_trichotomy (a.item.timestamp env) (b.item.timestamp env) with h | h | h
    · exact .inr (.inl h)
    · rcases lt_trichotomy a.item.kind b.item.kind with hk | hk | hk
      · exact .inl (.inr ⟨h, .inl hk⟩)
      · rcases le_total a.order b.order with ho | ho
        · exact .inl (.inr ⟨h, .inr ⟨hk, ho⟩⟩)
        · exact .inr (.inr ⟨h.symm, .inr ⟨hk.symm, ho⟩⟩)
      · exact .inr (.inr ⟨h.symm, .inl hk⟩)
    · exact .inl (.inl h)

/-! ### The sort -/

section

variable (env) (statuses : List (TimelineStatus β)) (gaps : List TimelineGap)

/-- The items in the order in which they are sorted. -/
def sorted : List (SortItem β) :=
  (sortItems statuses gaps).insertionSort fun left right => comesFirst env left right

theorem pairwise_sorted :
    (sorted env statuses gaps).Pairwise fun left right => comesFirst env left right :=
  List.pairwise_insertionSort _ _

theorem shown_eq : shown (timelineDisplayItems env statuses gaps) =
    (sorted env statuses gaps).filterMap fun e => e.item.asStatus :=
  List.filterMap_map ..

/-- The rows as they are to be sorted. -/
def statusItems : List (SortItem β) := statuses.zipIdx.map fun s => ⟨.status s.1, s.2⟩

theorem filterMap_statusItems :
    (statusItems statuses).filterMap (fun e => e.item.asStatus) = statuses := by
  have hfst : ((fun e : SortItem β => e.item.asStatus) ∘ fun s : TimelineStatus β × ℕ =>
      (⟨.status s.1, s.2⟩ : SortItem β)) = fun s => some s.1 := rfl
  rw [statusItems, List.filterMap_map, hfst]
  show statuses.zipIdx.filterMap (some ∘ Prod.fst) = statuses
  rw [List.filterMap_eq_map, List.zipIdx_map_fst]

theorem filterMap_sortItems :
    (sortItems statuses gaps).filterMap (fun e => e.item.asStatus) = statuses := by
  have hgaps : (gaps.zipIdx.map fun g => (⟨.gap g.1, g.2⟩ : SortItem β)).filterMap
      (fun e => e.item.asStatus) = [] := by
    rw [List.filterMap_map]
    exact List.filterMap_eq_nil_iff.2 fun _ _ => rfl
  rw [sortItems, List.filterMap_append, hgaps, List.append_nil]
  exact filterMap_statusItems statuses

/-- Every row is shown once. -/
theorem shown_perm : (shown (timelineDisplayItems env statuses gaps)).Perm statuses := by
  rw [shown_eq]
  have hperm := (List.perm_insertionSort (fun left right => comesFirst env left right)
    (sortItems statuses gaps)).filterMap fun e => e.item.asStatus
  rw [filterMap_sortItems] at hperm
  exact hperm

/-- Rows are shown newest first. -/
theorem pairwise_shown : (shown (timelineDisplayItems env statuses gaps)).Pairwise fun a b =>
    createdAtTimestamp env (some b) ≤ createdAtTimestamp env (some a) := by
  rw [shown_eq, List.pairwise_filterMap]
  refine (pairwise_sorted env statuses gaps).imp fun {left right} h a ha b hb => ?_
  have htime : ∀ {item : TimelineDisplayItem β} {s : TimelineStatus β}, item.asStatus = some s →
      item.timestamp env = createdAtTimestamp env (some s) := by
    intro item s hs
    cases item with
    | status s' =>
      cases hs
      rfl
    | gap g => cases hs
  rw [← htime ha, ← htime hb]
  rcases comesFirst_iff.1 h with hlt | ⟨heq, -⟩
  · exact hlt.le
  · exact heq.ge

/-- Rows that are newest first stay in their order. -/
theorem shown_of_pairwise (h : statuses.Pairwise fun a b =>
      createdAtTimestamp env (some b) ≤ createdAtTimestamp env (some a)) :
    shown (timelineDisplayItems env statuses gaps) = statuses := by
  have hitems : (statusItems statuses).Pairwise fun left right => comesFirst env left right := by
    have htimes : statuses.zipIdx.Pairwise fun a b =>
        createdAtTimestamp env (some b.1) ≤ createdAtTimestamp env (some a.1) := by
      rw [← List.zipIdx_map_fst 0 statuses, List.pairwise_map] at h
      exact h
    have horders : statuses.zipIdx.Pairwise fun a b => a.2 < b.2 := by
      have hrange : (statuses.zipIdx.map Prod.snd).Pairwise (· < ·) := by
        rw [List.zipIdx_map_snd]
        exact List.pairwise_lt_range'
      exact List.pairwise_map.1 hrange
    rw [statusItems, List.pairwise_map]
    refine (htimes.and horders).imp fun {a b} hab => comesFirst_iff.2 ?_
    rcases hab.1.lt_or_eq with hlt | heq
    · exact .inl hlt
    · exact .inr ⟨heq.symm, .inr ⟨rfl, hab.2.le⟩⟩
  have hsub : (statusItems statuses).Sublist (sorted env statuses gaps) :=
    List.sublist_insertionSort hitems (List.sublist_append_left _ _)
  have hshown := hsub.filterMap fun e => e.item.asStatus
  rw [filterMap_statusItems, ← shown_eq] at hshown
  exact (hshown.eq_of_length (shown_perm env statuses gaps).length_eq.symm).symm

theorem shown_eq_iff : shown (timelineDisplayItems env statuses gaps) = statuses ↔
    statuses.Pairwise fun a b =>
      createdAtTimestamp env (some b) ≤ createdAtTimestamp env (some a) := by
  refine ⟨fun h => ?_, shown_of_pairwise env statuses gaps⟩
  have hpairwise := pairwise_shown env statuses gaps
  rwa [h] at hpairwise

/-- A gap stands after every row that is not older, and before every row that is. -/
def Placed (left right : TimelineDisplayItem β) : Prop :=
  (left.kind = 0 → right.kind = 1 → right.timestamp env ≤ left.timestamp env) ∧
    (left.kind = 1 → right.kind = 0 → right.timestamp env < left.timestamp env)

theorem pairwise_placed : (timelineDisplayItems env statuses gaps).Pairwise (Placed env) := by
  rw [timelineDisplayItems, List.pairwise_map]
  refine (pairwise_sorted env statuses gaps).imp fun {left right} h =>
    ⟨fun _ _ => ?_, fun hl hr => ?_⟩
  · rcases comesFirst_iff.1 h with hlt | ⟨heq, -⟩
    · exact hlt.le
    · exact heq.ge
  · rcases comesFirst_iff.1 h with hlt | ⟨-, hkind⟩
    · exact hlt
    · omega

end

/-! ### The rows of a column -/

section

variable (env)

/-- The version of a row that an upsert stores under a key: the posts that are quoted are stored
first, the innermost before the others. -/
def written (key : StatusKey) : TimelineStatus β → Option (TimelineStatus β)
  | .plain fields => if statusKey env fields = key then some (.plain fields) else none
  | .quoting fields quote =>
    if statusKey env fields = key then some (.quoting fields quote) else written key quote

/-- The last version of a row in a list. -/
def lastWritten (key : StatusKey) : List (TimelineStatus β) → Option (TimelineStatus β)
  | [] => none
  | status :: rest => (lastWritten key rest).or (written env key status)

/-- The keys of a list, each where it comes first. -/
def firstOccurrences (statuses : List (TimelineStatus β)) : List StatusKey :=
  (statuses.map fun s => statusKey env s.fields).foldl pushNew []

/-- The rows of a list up to the one with which a number of keys is reached. -/
def processed (limit : ℕ) : List (TimelineStatus β) → List StatusKey → List (TimelineStatus β)
  | [], _ => []
  | status :: rest, seen =>
    let seen := pushNew seen (statusKey env status.fields)
    status :: (if limit ≤ seen.length then [] else processed limit rest seen)

/-- The keys that a column lists after it is replaced. -/
def columnKeys (limit : Limit) (statuses : List (TimelineStatus β)) : List StatusKey :=
  (firstOccurrences env statuses).take (normalizeTimelineLimit limit)

/-- The time of the row that a column shows for a key. -/
def columnTime (limit : Limit) (statuses : List (TimelineStatus β)) (key : StatusKey) :
    WithBot ℤ :=
  createdAtTimestamp env
    (lastWritten env key (processed env (normalizeTimelineLimit limit) statuses []))

/-- The rows that the backend returned are newest first. -/
def NewestFirst (limit : Limit) (statuses : List (TimelineStatus β)) : Prop :=
  (columnKeys env limit statuses).Pairwise fun key key' =>
    columnTime env limit statuses key' ≤ columnTime env limit statuses key

end

variable {s : MutableTimelineEntityState β}

theorem key_of_written {status : TimelineStatus β} (h : written env key status = some row) :
    statusKey env row.fields = key := by
  induction status with
  | plain fields =>
    rw [written] at h
    split_ifs at h with hkey
    cases h
    exact hkey
  | quoting fields quote ih =>
    rw [written] at h
    split_ifs at h with hkey
    · cases h
      exact hkey
    · exact ih h

theorem key_of_lastWritten {statuses : List (TimelineStatus β)}
    (h : lastWritten env key statuses = some row) : statusKey env row.fields = key := by
  induction statuses with
  | nil => cases h
  | cons status rest ih =>
    rw [lastWritten, Option.or_eq_some_iff] at h
    rcases h with h | ⟨-, h⟩
    · exact ih h
    · exact key_of_written h

theorem written_self (status : TimelineStatus β) :
    written env (statusKey env status.fields) status = some status := by
  cases status <;> exact if_pos rfl

/-- An upsert stores its versions, and leaves the other rows alone. -/
theorem get_upsertStatusIdentity_eq (status : TimelineStatus β) (key : StatusKey) :
    (upsertStatusIdentity env status s).1.entities.get key =
      (written env key status).or (s.entities.get key) := by
  induction status generalizing s with
  | plain fields =>
    rw [upsertStatusIdentity_eq, storeStatus_entities, OrderedMap.get_set, written]
    show (if key = statusKey env fields then _ else _) = _
    by_cases hkey : statusKey env fields = key
    · rw [if_pos hkey, if_pos hkey.symm]
      rfl
    · rw [if_neg hkey, if_neg fun h => hkey h.symm]
      rfl
  | quoting fields quote ih =>
    rw [upsertStatusIdentity_eq, storeStatus_entities, OrderedMap.get_set, written]
    show (if key = statusKey env fields then _ else _) = _
    by_cases hkey : statusKey env fields = key
    · rw [if_pos hkey, if_pos hkey.symm]
      rfl
    · rw [if_neg hkey, if_neg fun h => hkey h.symm]
      exact ih

theorem foldl_pushNew_eq (seen keys : List StatusKey) :
    ∃ more, keys.foldl pushNew seen = seen ++ more := by
  induction keys generalizing seen with
  | nil => exact ⟨[], (List.append_nil seen).symm⟩
  | cons key keys ih =>
    obtain ⟨more, hmore⟩ := ih (pushNew seen key)
    rw [List.foldl_cons, hmore]
    unfold pushNew
    split_ifs
    · exact ⟨more, rfl⟩
    · exact ⟨key :: more, List.append_assoc ..⟩

/-- The loop stores the rows that it processes, and lists their keys. -/
theorem normalizeLoop_eq {limit : ℕ} (statuses : List (TimelineStatus β)) {seen : List StatusKey}
    (hseen : seen.length < limit) :
    (normalizeLoop env (some limit) statuses s seen).2.1 =
        ((statuses.map fun s => statusKey env s.fields).foldl pushNew seen).take limit ∧
      ∀ key, (normalizeLoop env (some limit) statuses s seen).1.entities.get key =
        (lastWritten env key (processed env limit statuses seen)).or (s.entities.get key) := by
  induction statuses generalizing s seen with
  | nil => exact ⟨(List.take_of_length_le hseen.le).symm, fun key => rfl⟩
  | cons status rest ih =>
    rw [normalizeLoop_cons, List.map_cons, List.foldl_cons, processed]
    dsimp only
    by_cases hmem : statusKey env status.fields ∈ seen
    · have hpush : pushNew seen (statusKey env status.fields) = seen := if_pos hmem
      obtain ⟨hkeys, hget⟩ := ih hseen (s := (upsertStatusIdentity env status s).1)
      rw [if_pos hmem, hpush, if_neg (by omega)]
      refine ⟨hkeys, fun key => ?_⟩
      rw [hget, get_upsertStatusIdentity_eq, lastWritten, Option.or_assoc]
    · have hpush : pushNew seen (statusKey env status.fields) =
          seen ++ [statusKey env status.fields] := if_neg hmem
      rw [if_neg hmem, hpush, Option.any_some]
      by_cases hfull : limit ≤ (seen ++ [statusKey env status.fields]).length
      · rw [if_pos (decide_eq_true hfull), if_pos hfull]
        refine ⟨?_, fun key => ?_⟩
        · obtain ⟨more, hmore⟩ := foldl_pushNew_eq (seen ++ [statusKey env status.fields])
            (rest.map fun s => statusKey env s.fields)
          have hlength : (seen ++ [statusKey env status.fields]).length = limit := by
            rw [List.length_append, List.length_singleton] at hfull ⊢
            omega
          rw [hmore, List.take_left' hlength]
        · exact get_upsertStatusIdentity_eq status key
      · obtain ⟨hkeys, hget⟩ := ih (not_le.1 hfull) (s := (upsertStatusIdentity env status s).1)
        rw [if_neg (by simpa using hfull), if_neg hfull]
        refine ⟨hkeys, fun key => ?_⟩
        rw [hget, get_upsertStatusIdentity_eq, lastWritten, Option.or_assoc]

theorem normalizeLoop_nil_eq (env : Platform) (s : MutableTimelineEntityState β)
    (statuses : List (TimelineStatus β)) (limit : Limit) :
    (normalizeLoop env (some (normalizeTimelineLimit limit)) statuses s []).2.1 =
        columnKeys env limit statuses ∧
      ∀ key, (normalizeLoop env (some (normalizeTimelineLimit limit)) statuses s []).1.entities.get
          key =
        (lastWritten env key (processed env (normalizeTimelineLimit limit) statuses [])).or
          (s.entities.get key) := by
  have hnil : ([] : List StatusKey).length < normalizeTimelineLimit limit :=
    normalizeTimelineLimit_pos limit
  exact normalizeLoop_eq statuses hnil

theorem isSome_lastWritten {limit : ℕ} (statuses : List (TimelineStatus β)) {seen : List StatusKey}
    (hseen : seen.length < limit)
    (h : key ∈ ((statuses.map fun s => statusKey env s.fields).foldl pushNew seen).take limit) :
    key ∈ seen ∨ (lastWritten env key (processed env limit statuses seen)).isSome = true := by
  induction statuses generalizing seen with
  | nil => exact .inl (List.mem_of_mem_take h)
  | cons status rest ih =>
    rw [List.map_cons, List.foldl_cons] at h
    have hor : (lastWritten env key (processed env limit (status :: rest) seen)).isSome = true ↔
        (lastWritten env key
          (if limit ≤ (pushNew seen (statusKey env status.fields)).length then []
          else processed env limit rest
            (pushNew seen (statusKey env status.fields)))).isSome = true ∨
        (written env key status).isSome = true := by
      rw [processed, lastWritten, Option.isSome_or, Bool.or_eq_true]
    have hpush : key ∈ pushNew seen (statusKey env status.fields) → key ∈ seen ∨
        (lastWritten env key (processed env limit (status :: rest) seen)).isSome = true := by
      intro hmem
      rcases mem_pushNew.1 hmem with hmem | rfl
      · exact .inl hmem
      · rw [hor, written_self]
        exact .inr (.inr rfl)
    by_cases hfull : limit ≤ (pushNew seen (statusKey env status.fields)).length
    · obtain ⟨more, hmore⟩ := foldl_pushNew_eq (pushNew seen (statusKey env status.fields))
        (rest.map fun s => statusKey env s.fields)
      rw [hmore, List.take_append_of_le_length hfull] at h
      exact hpush (List.mem_of_mem_take h)
    · rcases ih (not_le.1 hfull) h with hmem | hsome
      · exact hpush hmem
      · rw [hor, if_neg hfull]
        exact .inr (.inl hsome)

theorem createdAtTimestamp_of_fields {row' : TimelineStatus β} (h : row.fields = row'.fields) :
    createdAtTimestamp env (some row) = createdAtTimestamp env (some row') := by
  unfold createdAtTimestamp
  dsimp only
  rw [h]

section

variable (env) (previous : TimelineEntityState β) (columnId : Str)
  (statuses : List (TimelineStatus β)) (limit : Limit)

/-- The state after a column is replaced. -/
def replaced : TimelineEntityState β :=
  (reduceTimelineEntities env previous [.replaceColumn columnId statuses limit]).1

/-- The rows that a column has then. -/
def columnRows : List (TimelineStatus β) :=
  ((replaced env previous columnId statuses limit).timelines.get columnId).getD []

/-- The state that stores the rows and lists their keys. -/
def listed : MutableTimelineEntityState β :=
  let normalized := normalizeStatusList env previous.toMutable statuses (some limit)
  setColumnKeys (trimIf normalized.1 normalized.2.2 columnId) columnId normalized.2.1

theorem get_columnKeys_listed :
    (listed env previous columnId statuses limit).columnKeys.get columnId =
      some (columnKeys env limit statuses) := by
  unfold listed setColumnKeys
  dsimp only
  rw [OrderedMap.get_set_self]
  exact congrArg some (normalizeLoop_nil_eq env previous.toMutable statuses limit).1

theorem get_entities_listed (key : StatusKey) :
    (listed env previous columnId statuses limit).entities.get key =
      (lastWritten env key (processed env (normalizeTimelineLimit limit) statuses [])).or
        (previous.entities.get key) := by
  unfold listed
  dsimp only
  rw [entities_setColumnKeys, entities_trimIf]
  exact (normalizeLoop_nil_eq env previous.toMutable statuses limit).2 key

theorem get_columnKeys_replaced :
    (replaced env previous columnId statuses limit).columnKeys.get columnId =
      some (columnKeys env limit statuses) := by
  have hprune := (pruneUnreferencedEntities_columns env
    (relinkNestedStatuses env (listed env previous columnId statuses limit))).1
  have hrelink :
      (relinkNestedStatuses env (listed env previous columnId statuses limit)).columnKeys =
        (listed env previous columnId statuses limit).columnKeys :=
    relinkNestedStatuses_extends.columnKeys
  rw [← get_columnKeys_listed env previous columnId statuses limit, ← hrelink, ← hprune]
  rfl

/-- The column lists the keys that the backend returned, each once and in its order. -/
theorem columnRows_eq : columnRows env previous columnId statuses limit =
    (columnKeys env limit statuses).filterMap
      (replaced env previous columnId statuses limit).entities.get := by
  have htimelines : (replaced env previous columnId statuses limit).timelines = materializeTimelines
      (replaced env previous columnId statuses limit).entities
      (replaced env previous columnId statuses limit).columnKeys := rfl
  rw [columnRows, htimelines, materializeTimelines, OrderedMap.get_map, get_columnKeys_replaced]
  rfl

/-- A key of the column has the last version of its row, but for the posts that this quotes. -/
theorem get_replaced (hkey : key ∈ columnKeys env limit statuses) :
    ∃ row, (replaced env previous columnId statuses limit).entities.get key = some row ∧
      statusKey env row.fields = key ∧
      createdAtTimestamp env (some row) = columnTime env limit statuses key := by
  obtain ⟨version, hversion⟩ : ∃ version,
      lastWritten env key (processed env (normalizeTimelineLimit limit) statuses []) =
        some version := by
    rcases isSome_lastWritten statuses (normalizeTimelineLimit_pos limit) hkey with hnil | hsome
    · exact absurd hnil List.not_mem_nil
    · exact Option.isSome_iff_exists.1 hsome
  have hlisted := get_entities_listed env previous columnId statuses limit key
  rw [hversion, Option.some_or] at hlisted
  -- The quotes of the row may be relinked, its own fields stay.
  obtain ⟨get, hrelink⟩ := get_relinkNestedStatuses env
    (listed env previous columnId statuses limit) key
  rw [hlisted, Option.map_some] at hrelink
  have hfields : (relinked env (listed env previous columnId statuses limit).canonicalIndex get
      version).fields = version.fields := fields_relinked _ get version
  refine ⟨_, (@get_pruneUnreferencedEntities β env
    (relinkNestedStatuses env (listed env previous columnId statuses limit)) key _).2
      ⟨hrelink, .root ?_ ?_⟩, ?_, ?_⟩
  · rw [mem_columnRoots, relinkNestedStatuses_extends.columnKeys]
    exact ⟨columnId, .inl (by rwa [get_columnKeys_listed])⟩
  · rw [quoteLink_isSome]
    exact OrderedMap.mem_keys_of_get hrelink
  · rw [hfields]
    exact key_of_lastWritten hversion
  · rw [createdAtTimestamp_of_fields hfields, columnTime, hversion]

theorem map_columnRows {γ : Type} (f : TimelineStatus β → γ) (g : StatusKey → γ)
    (h : ∀ key ∈ columnKeys env limit statuses,
      ∀ row, (replaced env previous columnId statuses limit).entities.get key = some row →
        f row = g key) :
    (columnRows env previous columnId statuses limit).map f =
      (columnKeys env limit statuses).map g := by
  rw [columnRows_eq, List.map_filterMap, ← List.filterMap_eq_map]
  refine List.filterMap_congr fun key hkey => ?_
  obtain ⟨row, hrow, -⟩ := get_replaced env previous columnId statuses limit hkey
  rw [hrow, Option.map_some, h key hkey row hrow]
  rfl

end

/-! ### The order of display -/

section

variable (env) (previous : TimelineEntityState β) (columnId : Str)
  (statuses : List (TimelineStatus β)) (limit : Limit) (gaps : List TimelineGap)

/-- The items of a column after it is replaced. -/
def columnItems : List (TimelineDisplayItem β) :=
  timelineDisplayItems env (columnRows env previous columnId statuses limit) gaps

/-- A column that is replaced shows its rows in the backend's order, with the gaps between them. -/
structure KeepsOrder : Prop where
  /-- The column has the rows that the backend returned, each where its key comes first. -/
  keys : (columnRows env previous columnId statuses limit).map
      (fun row => statusKey env row.fields) =
    (firstOccurrences env statuses).take (normalizeTimelineLimit limit)
  /-- Without the gaps, the items are the rows of the column. -/
  rows : shown (columnItems env previous columnId statuses limit gaps) =
    columnRows env previous columnId statuses limit
  /-- If the rows are newest first, the gaps stand where they belong. -/
  gaps : NewestFirst env limit statuses →
    (columnItems env previous columnId statuses limit gaps).Pairwise (Placed env)

theorem keys_columnRows :
    (columnRows env previous columnId statuses limit).map (fun row => statusKey env row.fields) =
      columnKeys env limit statuses := by
  have hmap := map_columnRows env previous columnId statuses limit
    (fun row => statusKey env row.fields) id
  rw [List.map_id] at hmap
  refine hmap fun key hkey row hrow => ?_
  obtain ⟨row', hrow', hkey', -⟩ := get_replaced env previous columnId statuses limit hkey
  rw [hrow] at hrow'
  cases hrow'
  exact hkey'

/-- The rows of a column are newest first as those of the backend are. -/
theorem pairwise_columnRows : ((columnRows env previous columnId statuses limit).Pairwise fun a b =>
    createdAtTimestamp env (some b) ≤ createdAtTimestamp env (some a)) ↔
      NewestFirst env limit statuses := by
  have hmap := map_columnRows env previous columnId statuses limit
    (fun row => createdAtTimestamp env (some row)) (columnTime env limit statuses)
  have htimes := hmap fun key hkey row hrow => by
    obtain ⟨row', hrow', -, htime⟩ := get_replaced env previous columnId statuses limit hkey
    rw [hrow] at hrow'
    cases hrow'
    exact htime
  have hleft : ((columnRows env previous columnId statuses limit).map fun row =>
      createdAtTimestamp env (some row)).Pairwise (fun a b => b ≤ a) ↔ _ := List.pairwise_map
  have hright : ((columnKeys env limit statuses).map (columnTime env limit statuses)).Pairwise
      (fun a b => b ≤ a) ↔ NewestFirst env limit statuses := List.pairwise_map
  rw [← hleft, htimes, hright]

theorem keepsOrder_iff : KeepsOrder env previous columnId statuses limit gaps ↔
    NewestFirst env limit statuses := by
  have hrows := (shown_eq_iff env (columnRows env previous columnId statuses limit) gaps).trans
    (pairwise_columnRows env previous columnId statuses limit)
  refine ⟨fun h => hrows.1 h.rows, fun h => ⟨?_, hrows.2 h, fun _ => ?_⟩⟩
  · exact keys_columnRows env previous columnId statuses limit
  · exact pairwise_placed env _ gaps

end

/-! ### Threads -/

section

variable (statuses : List DbStatus)

def threadKey (status : DbStatus) : Str ×ₗ Str := toLex (status.createdAt, status.id)

/-- Sorted by their times, and by their ids at the same time. -/
def oldestFirst (statuses : List DbStatus) : List DbStatus :=
  statuses.insertionSort fun a b => threadKey a ≤ threadKey b

/-- The ids that the walk has come by, and the statuses that it has listed. -/
structure Walk where
  visited : List Str
  ordered : List DbStatus

/-- A status and, below it, the replies to it, as deep as the fuel goes. -/
def appendThreadStatus : ℕ → Walk → Str → Walk
  | 0, walk, _ => walk
  | fuel + 1, walk, id =>
    if id ∈ walk.visited then walk
    else
      let visited := id :: walk.visited
      match statuses.find? fun status => status.id = id with
      | none => { walk with visited }
      | some status =>
        (oldestFirst (statuses.filter fun child => child.inReplyToId = some id)).foldl
          (fun walk child => appendThreadStatus fuel walk child.id)
          ⟨visited, walk.ordered ++ [status]⟩

/-- The tree of replies from the root, and then the statuses that are not part of it.  No branch is
longer than there are statuses. -/
def orderThreadStatuses (rootId : Str) : List DbStatus :=
  let fuel := statuses.length + 1
  let walk := appendThreadStatus statuses fuel ⟨[], []⟩ rootId
  ((oldestFirst (statuses.filter fun status => status.id ∉ walk.visited)).foldl
    (fun walk status => appendThreadStatus statuses fuel walk status.id) walk).ordered

variable {statuses}

/-- What the walk keeps: it lists the statuses that it has come by, each once. -/
structure Walk.Ok (statuses : List DbStatus) (walk : Walk) : Prop where
  nodup : (walk.ordered.map (·.id)).Nodup
  mem : ∀ status, status ∈ walk.ordered ↔ status ∈ statuses ∧ status.id ∈ walk.visited

/-- What every part of the walk does. -/
structure Walk.Extends (statuses : List DbStatus) (walk walk' : Walk) : Prop where
  ok : walk'.Ok statuses
  visited : ∀ id ∈ walk.visited, id ∈ walk'.visited

variable {walk : Walk}

theorem foldl_extends {step : Walk → Str → Walk}
    (hstep : ∀ (walk : Walk) id, walk.Ok statuses → walk.Extends statuses (step walk id))
    (rows : List DbStatus) (h : walk.Ok statuses) :
    walk.Extends statuses (rows.foldl (fun walk row => step walk row.id) walk) := by
  induction rows generalizing walk with
  | nil => exact ⟨h, fun _ hid => hid⟩
  | cons row rows ih =>
    have hfirst := hstep walk row.id h
    have hrest := ih hfirst.ok
    exact ⟨hrest.ok, fun id hid => hrest.visited id (hfirst.visited id hid)⟩

theorem find_id_eq_some (hids : (statuses.map (·.id)).Nodup) {status : DbStatus} {id : Str}
    (hfind : statuses.find? (fun status => status.id = id) = some status) :
    ∀ other, other ∈ statuses ∧ other.id = id ↔ other = status := by
  have hmem := List.mem_of_find?_eq_some hfind
  have hid : status.id = id := by simpa using List.find?_some hfind
  intro other
  constructor
  · rintro ⟨hother, hotherId⟩
    exact List.inj_on_of_nodup_map hids hother hmem (hotherId.trans hid.symm)
  · rintro rfl
    exact ⟨hmem, hid⟩

/-- A status is listed when the walk comes by it. -/
theorem Walk.Ok.visit (hids : (statuses.map (·.id)).Nodup) (h : walk.Ok statuses) {id : Str}
    (hnew : id ∉ walk.visited) : Walk.Ok statuses ⟨id :: walk.visited,
      walk.ordered ++ (statuses.find? fun status => status.id = id).toList⟩ := by
  cases hfind : statuses.find? fun status => status.id = id with
  | none =>
    have hnone := List.find?_eq_none.1 hfind
    rw [Option.toList_none, List.append_nil]
    refine ⟨h.nodup, fun status => ?_⟩
    rw [h.mem, List.mem_cons]
    constructor
    · exact fun hs => ⟨hs.1, .inr hs.2⟩
    · rintro ⟨hs, heq | hvisited⟩
      · exact absurd (decide_eq_true heq) (hnone status hs)
      · exact ⟨hs, hvisited⟩
  | some found =>
    have hunique := find_id_eq_some hids hfind
    have hid : found.id = id := ((hunique found).2 rfl).2
    rw [Option.toList_some]
    refine ⟨?_, fun status => ?_⟩
    · rw [List.map_append, List.map_cons, List.map_nil, hid]
      refine h.nodup.append (List.nodup_singleton id) fun other hother heq => ?_
      rw [List.mem_singleton.1 heq] at hother
      obtain ⟨status, hstatus, hstatusId⟩ := List.mem_map.1 hother
      exact hnew (hstatusId ▸ ((h.mem status).1 hstatus).2)
    · rw [List.mem_append, List.mem_singleton, h.mem, ← hunique status, List.mem_cons, and_or_left,
        or_comm]

theorem appendThreadStatus_extends (hids : (statuses.map (·.id)).Nodup) (fuel : ℕ) (walk : Walk)
    (id : Str) (h : walk.Ok statuses) :
    walk.Extends statuses (appendThreadStatus statuses fuel walk id) := by
  induction fuel generalizing walk id with
  | zero => exact ⟨h, fun _ hid => hid⟩
  | succ fuel ih =>
    rw [appendThreadStatus]
    by_cases hvisited : id ∈ walk.visited
    · rw [if_pos hvisited]
      exact ⟨h, fun _ hid => hid⟩
    · have hvisit := h.visit hids hvisited
      rw [if_neg hvisited]
      cases hfind : statuses.find? fun status => status.id = id with
      | none =>
        rw [hfind, Option.toList_none, List.append_nil] at hvisit
        exact ⟨hvisit, fun _ hid => List.mem_cons_of_mem _ hid⟩
      | some status =>
        rw [hfind, Option.toList_some] at hvisit
        have hrest := foldl_extends ih (oldestFirst (statuses.filter fun child =>
          child.inReplyToId = some id)) hvisit
        exact ⟨hrest.ok, fun id' hid => hrest.visited id' (List.mem_cons_of_mem _ hid)⟩

/-- The walk comes by the status that it is given. -/
theorem mem_visited_appendThreadStatus (hids : (statuses.map (·.id)).Nodup) (fuel : ℕ) (walk : Walk)
    (id : Str) (h : walk.Ok statuses) :
    id ∈ (appendThreadStatus statuses (fuel + 1) walk id).visited := by
  rw [appendThreadStatus]
  by_cases hvisited : id ∈ walk.visited
  · rw [if_pos hvisited]
    exact hvisited
  · have hvisit := h.visit hids hvisited
    rw [if_neg hvisited]
    cases hfind : statuses.find? fun status => status.id = id with
    | none => exact List.mem_cons_self
    | some status =>
      rw [hfind, Option.toList_some] at hvisit
      have hrest := foldl_extends (appendThreadStatus_extends hids fuel) (oldestFirst
        (statuses.filter fun child => child.inReplyToId = some id)) hvisit
      exact hrest.visited id List.mem_cons_self

theorem mem_visited_foldl (hids : (statuses.map (·.id)).Nodup) (fuel : ℕ) (rows : List DbStatus)
    (h : walk.Ok statuses) {row : DbStatus} (hrow : row ∈ rows) :
    row.id ∈ (rows.foldl (fun walk row => appendThreadStatus statuses (fuel + 1) walk row.id)
      walk).visited := by
  induction rows generalizing walk with
  | nil => cases hrow
  | cons first rows ih =>
    have hfirst := appendThreadStatus_extends hids (fuel + 1) walk first.id h
    rcases List.mem_cons.1 hrow with rfl | hrow
    · have hrest := foldl_extends (appendThreadStatus_extends hids (fuel + 1)) rows hfirst.ok
      exact hrest.visited row.id (mem_visited_appendThreadStatus hids fuel walk row.id h)
    · exact ih hfirst.ok hrow

/-- A thread lists each of its statuses once. -/
theorem orderThreadStatuses_perm (hids : (statuses.map (·.id)).Nodup) (rootId : Str) :
    (orderThreadStatuses statuses rootId).Perm statuses := by
  have hnil : Walk.Ok statuses ⟨[], []⟩ := ⟨List.nodup_nil, fun status => by simp⟩
  have hroot := appendThreadStatus_extends hids (statuses.length + 1) ⟨[], []⟩ rootId hnil
  have hrest := foldl_extends (appendThreadStatus_extends hids (statuses.length + 1)) (oldestFirst
      (statuses.filter fun status => status.id ∉
        (appendThreadStatus statuses (statuses.length + 1) ⟨[], []⟩ rootId).visited)) hroot.ok
  refine (List.perm_ext_iff_of_nodup hrest.ok.nodup.of_map hids.of_map).2 fun status => ?_
  rw [hrest.ok.mem]
  refine ⟨fun h => h.1, fun hstatus => ⟨hstatus, ?_⟩⟩
  by_cases hvisited : status.id ∈
      (appendThreadStatus statuses (statuses.length + 1) ⟨[], []⟩ rootId).visited
  · exact hrest.visited _ hvisited
  · refine mem_visited_foldl hids _ _ hroot.ok ((List.mem_insertionSort _).2 ?_)
    exact List.mem_filter.2 ⟨hstatus, decide_eq_true hvisited⟩

end

/-! ### An example -/

/-- A status of a thread, of a second of a day. -/
def sampleReply (id : String) (time : ℕ) (inReplyToId : Option Str) : DbStatus :=
  { DbStatus.plain id.toList "alpha.example" "alice" with
    createdAt := sampleTime time, inReplyToId := inReplyToId }

/-- A post, an answer to it, and an answer to that. -/
def sampleThread : List DbStatus :=
  [sampleReply "2" 2 (some "1".toList), sampleReply "3" 3 (some "2".toList), sampleReply "1" 1 none]

example : (orderThreadStatuses sampleThread "1".toList).map (·.id) =
    ["1".toList, "2".toList, "3".toList] := by decide

/-- The rows of the thread as the frontend gets them. -/
def sampleRows : List (View Unit) :=
  (orderThreadStatuses sampleThread "1".toList).map fun status =>
    dbStatusToView ⟨fun _ _ => (), fun _ => none⟩ status none

/-- A thread is shown with the last answer first. -/
theorem not_keepsOrder : ¬ KeepsOrder samplePlatform createTimelineEntityState "thread:1".toList
    sampleRows (some 100) [] := by
  intro h
  have hnewest : NewestFirst samplePlatform (some 100) sampleRows :=
    (pairwise_columnRows samplePlatform createTimelineEntityState "thread:1".toList sampleRows
      (some 100)).1 ((shown_eq_iff samplePlatform _ []).1 h.rows)
  have hnot : ¬ NewestFirst samplePlatform (some 100) sampleRows := by
    unfold NewestFirst
    decide
  exact hnot hnewest

end Awayuki.Timeline.Display
