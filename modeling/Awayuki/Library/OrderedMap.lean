import Awayuki.Library.Keyed

/-!
# Ordered maps

Maps that remember the order in which their keys first came: setting a key that is there keeps its
place, a new key goes to the end.

* `get`, `set`, `delete`, `keys`: the operations;
* `get_set`, `get_delete`, `mem_keys`: how they compose;
* `ofList`: the map that a list of settings leaves, the last value of each key at the place where
  the key first came.
-/

/-- A list of keys with their values, in which no key comes twice. -/
structure OrderedMap (κ α : Type) where
  entries : List (κ × α)
  nodup : (entries.map Prod.fst).Nodup

namespace OrderedMap

variable {κ α : Type}

/-- The map with no keys. -/
def empty : OrderedMap κ α := ⟨[], List.nodup_nil⟩

/-- The keys in their order. -/
def keys (m : OrderedMap κ α) : List κ := m.entries.map Prod.fst

theorem nodup_keys (m : OrderedMap κ α) : m.keys.Nodup := m.nodup

/-- The values changed in their places. -/
def map {α' : Type} (f : α → α') (m : OrderedMap κ α) : OrderedMap κ α' where
  entries := m.entries.map fun e => (e.1, f e.2)
  nodup := by simpa [Function.comp_def] using m.nodup

@[simp] theorem keys_empty : (empty : OrderedMap κ α).keys = [] := rfl

variable [DecidableEq κ] {m : OrderedMap κ α} {k k' : κ} {a a' : α}

/-- The value of a key. -/
def get (m : OrderedMap κ α) (k : κ) : Option α :=
  (m.entries.find? fun e => e.1 = k).map Prod.snd

@[simp] theorem get_empty : (empty : OrderedMap κ α).get k = none := rfl

theorem get_eq_some : m.get k = some a ↔ (k, a) ∈ m.entries :=
  Keyed.map_lookup_eq_some m.nodup

theorem get_map {β : Type} (m : OrderedMap κ α) (f : α → β) (k : κ) :
    (m.map f).get k = (m.get k).map f := by
  refine Option.ext fun b => ?_
  rw [get_eq_some, Option.map_eq_some_iff, OrderedMap.map, List.mem_map]
  constructor
  · rintro ⟨e, he, heq⟩
    obtain ⟨rfl, rfl⟩ := Prod.mk.inj heq
    exact ⟨e.2, get_eq_some.2 he, rfl⟩
  · rintro ⟨a, ha, rfl⟩
    exact ⟨(k, a), get_eq_some.1 ha, rfl⟩

theorem mem_keys : k ∈ m.keys ↔ (m.get k).isSome := by
  rw [get, Option.isSome_map]
  exact List.mem_map.trans Keyed.lookup_isSome.symm

theorem get_eq_none : m.get k = none ↔ k ∉ m.keys := by
  rw [mem_keys, Option.not_isSome_iff_eq_none]

theorem mem_keys_of_get (h : m.get k = some a) : k ∈ m.keys := mem_keys.2 (by simp [h])

/-- Sets the value of a key, at its place if it has one, else at the end. -/
def set (m : OrderedMap κ α) (k : κ) (a : α) : OrderedMap κ α :=
  if h : k ∈ m.entries.map Prod.fst then
    { entries := m.entries.map fun e => if e.1 = k then (k, a) else e
      nodup := by
        have hkeys : (m.entries.map fun e => if e.1 = k then (k, a) else e).map Prod.fst =
            m.entries.map Prod.fst := by
          rw [List.map_map]
          refine List.map_congr_left fun e _ => ?_
          by_cases he : e.1 = k <;> simp [he]
        rw [hkeys]
        exact m.nodup }
  else
    { entries := m.entries ++ [(k, a)]
      nodup := by
        rw [List.map_append, List.nodup_append]
        exact ⟨m.nodup, List.nodup_singleton _, fun x hx y hy => by
          rintro rfl
          simp only [List.map_cons, List.map_nil, List.mem_singleton] at hy
          exact h (hy ▸ hx)⟩ }

theorem entries_set_of_mem (h : k ∈ m.keys) :
    (m.set k a).entries = m.entries.map fun e => if e.1 = k then (k, a) else e := by
  unfold set
  rw [dif_pos (show k ∈ m.entries.map Prod.fst from h)]

theorem entries_set_of_notMem (h : k ∉ m.keys) :
    (m.set k a).entries = m.entries ++ [(k, a)] := by
  unfold set
  rw [dif_neg (show k ∉ m.entries.map Prod.fst from h)]

theorem keys_set : (m.set k a).keys = if k ∈ m.keys then m.keys else m.keys ++ [k] := by
  unfold set keys
  split_ifs with h
  · rw [List.map_map]
    refine List.map_congr_left fun e _ => ?_
    by_cases he : e.1 = k <;> simp [he]
  · simp

theorem get_set_self : (m.set k a).get k = some a := by
  rw [get_eq_some]
  unfold set
  split_ifs with h
  · obtain ⟨e, he, hk⟩ := List.mem_map.1 h
    exact List.mem_map.2 ⟨e, he, if_pos hk⟩
  · simp

theorem get_set_of_ne (h : k' ≠ k) : (m.set k a).get k' = m.get k' := by
  refine Option.ext fun b => ?_
  rw [get_eq_some, get_eq_some]
  unfold set
  split_ifs
  · rw [List.mem_map]
    constructor
    · rintro ⟨e, he, heq⟩
      split_ifs at heq with hk
      · exact absurd (congrArg Prod.fst heq).symm h
      · exact heq ▸ he
    · exact fun hmem => ⟨_, hmem, if_neg h⟩
  · simp [h]

theorem get_set : (m.set k a).get k' = if k' = k then some a else m.get k' := by
  split_ifs with h
  · rw [h, get_set_self]
  · exact get_set_of_ne h

/-- As functions, maps are set like functions. -/
theorem get_set_eq : (m.set k a).get = Function.update m.get k (some a) := by
  funext k'
  rw [get_set, Function.update_apply]

theorem mem_keys_set : k' ∈ (m.set k a).keys ↔ k' = k ∨ k' ∈ m.keys := by
  rw [mem_keys, mem_keys, get_set]
  split_ifs with h <;> simp [h]

/-- Takes a key away. -/
def delete (m : OrderedMap κ α) (k : κ) : OrderedMap κ α where
  entries := m.entries.filter fun e => e.1 ≠ k
  nodup := m.nodup.sublist (List.filter_sublist.map _)

theorem get_delete : (m.delete k).get k' = if k' = k then none else m.get k' := by
  refine Option.ext fun b => ?_
  rw [get_eq_some, delete, List.mem_filter, ← get_eq_some]
  by_cases h : k' = k <;> simp [h]

theorem get_foldl_delete {ks : List κ} :
    (ks.foldl delete m).get k = if k ∈ ks then none else m.get k := by
  induction ks generalizing m with
  | nil => simp
  | cons k' ks ih =>
    rw [List.foldl_cons, ih, get_delete]
    by_cases h : k = k' <;> simp [h]

/-- Going through the entries and changing each at its own key changes each value once. -/
theorem get_foldl_entries {step : OrderedMap κ α → κ × α → OrderedMap κ α} {f : α → Option α}
    (hstep : ∀ m e k, m.get e.1 = some e.2 →
      (step m e).get k = if k = e.1 then f e.2 else m.get k) :
    (m.entries.foldl step m).get k = (m.get k).bind f := by
  -- The entries that are left are still as they were.
  have hgo (todo : List (κ × α)) (m' : OrderedMap κ α) (hnodup : (todo.map Prod.fst).Nodup)
      (htodo : ∀ e ∈ todo, m'.get e.1 = some e.2) :
      (todo.foldl step m').get k =
        if k ∈ todo.map Prod.fst then (m'.get k).bind f else m'.get k := by
    induction todo generalizing m' with
    | nil => simp
    | cons e todo ih =>
      obtain ⟨hnot, hnodup⟩ := List.nodup_cons.1 hnodup
      have hget (k : κ) := hstep m' e k (htodo e List.mem_cons_self)
      rw [List.foldl_cons, ih _ hnodup, hget k]
      · by_cases hk : k = e.1
        · subst hk
          simp [hnot, htodo e List.mem_cons_self]
        · rw [if_neg hk]
          simp only [List.map_cons, List.mem_cons, hk, false_or]
      · intro e' he'
        rw [hget, if_neg, htodo e' (List.mem_cons_of_mem _ he')]
        rintro heq
        exact hnot (heq ▸ List.mem_map_of_mem he')
  rw [hgo _ m m.nodup fun e he => get_eq_some.2 he]
  split_ifs with h
  · rfl
  · rw [get_eq_none.2 h]
    rfl

/-! ### The map of a list of settings -/

/-- What is left when the settings are made one after the other. -/
def ofList (l : List (κ × α)) : OrderedMap κ α := l.foldl (fun m e => m.set e.1 e.2) empty

/-- The last value that a key is set to. -/
def final (l : List (κ × α)) (k : κ) : Option α := l.reverse.findSome? fun e =>
  if e.1 = k then some e.2 else none

/-- How many settings come before the first one of a key. -/
def firstIndex (l : List (κ × α)) (k : κ) : ℕ := (l.map Prod.fst).idxOf k

variable {l : List (κ × α)} {e : κ × α}

@[simp] theorem ofList_nil : ofList ([] : List (κ × α)) = empty := rfl

theorem ofList_append_singleton : ofList (l ++ [e]) = (ofList l).set e.1 e.2 := by
  simp [ofList]

theorem final_append_singleton :
    final (l ++ [e]) k = if e.1 = k then some e.2 else final l k := by
  simp only [final, List.reverse_append, List.reverse_singleton, List.singleton_append,
    List.findSome?_cons]
  split_ifs <;> rfl

theorem get_ofList : (ofList l).get k = final l k := by
  induction l using List.reverseRecOn with
  | nil => rfl
  | append_singleton l e ih =>
    rw [ofList_append_singleton, get_set, final_append_singleton, ih]
    simp only [eq_comm]

theorem mem_keys_ofList : k ∈ (ofList l).keys ↔ k ∈ l.map Prod.fst := by
  induction l using List.reverseRecOn with
  | nil => simp
  | append_singleton l e ih =>
    rw [ofList_append_singleton, mem_keys_set, ih]
    simp [or_comm]

theorem firstIndex_inj (h : k ∈ l.map Prod.fst) : firstIndex l k = firstIndex l k' ↔ k = k' :=
  List.idxOf_inj h

theorem final_eq_none : final l k = none ↔ k ∉ l.map Prod.fst := by
  rw [← get_ofList, get_eq_none, mem_keys_ofList]

theorem mem_of_final (h : final l k = some a) : (k, a) ∈ l := by
  obtain ⟨e, he, heq⟩ := List.exists_of_findSome?_eq_some h
  split_ifs at heq with hk
  obtain rfl := Option.some.inj heq
  exact hk ▸ List.mem_reverse.1 he

/-- A map holds the final values of its own entries. -/
theorem final_entries : final m.entries k = m.get k := by
  refine Option.ext fun a => ⟨fun h => get_eq_some.2 (mem_of_final h), fun h => ?_⟩
  cases hfinal : final m.entries k with
  | none => exact absurd (List.mem_map_of_mem (get_eq_some.1 h)) (final_eq_none.1 hfinal)
  | some b => rw [← h, ← get_eq_some.2 (mem_of_final hfinal)]

/-- The keys stand in the order in which they first came. -/
theorem pairwise_keys_ofList :
    (ofList l).keys.Pairwise fun k k' => firstIndex l k < firstIndex l k' := by
  induction l using List.reverseRecOn with
  | nil => simp
  | append_singleton l e ih =>
    have hold (k : κ) (hk : k ∈ (ofList l).keys) :
        firstIndex (l ++ [e]) k = firstIndex l k := by
      rw [firstIndex, List.map_append, List.idxOf_append_of_mem (mem_keys_ofList.1 hk), firstIndex]
    have ih : (ofList l).keys.Pairwise
        fun k k' => firstIndex (l ++ [e]) k < firstIndex (l ++ [e]) k' :=
      ih.imp_of_mem fun hk hk' h => by rwa [hold _ hk, hold _ hk']
    rw [ofList_append_singleton, keys_set]
    split_ifs with h
    · exact ih
    · refine List.pairwise_append.2 ⟨ih, List.pairwise_singleton _ _, fun k hk k' hk' => ?_⟩
      obtain rfl := List.mem_singleton.1 hk'
      rw [hold k hk, firstIndex, firstIndex, List.map_append,
        List.idxOf_append_of_notMem fun hmem => h (mem_keys_ofList.2 hmem)]
      exact (List.idxOf_lt_length_of_mem (mem_keys_ofList.1 hk)).trans_le (Nat.le_add_right _ _)

/-- Of two entries, the one whose key came first stands first. -/
theorem exists_split_of_lt (h : (ofList l).get k = some a) (h' : (ofList l).get k' = some a')
    (hlt : firstIndex l k < firstIndex l k') :
    ∃ pre mid post, (ofList l).entries = pre ++ (k, a) :: mid ++ (k', a') :: post := by
  obtain ⟨pre, post, hsplit⟩ := List.append_of_mem (get_eq_some.1 h)
  have hpair := pairwise_keys_ofList (l := l)
  rw [keys, hsplit, List.map_append, List.pairwise_append] at hpair
  have hmem : (k', a') ∈ pre ++ (k, a) :: post := hsplit ▸ get_eq_some.1 h'
  rcases List.mem_append.1 hmem with hpre | hpost
  · have hbefore := hpair.2.2 k' (List.mem_map_of_mem hpre) k (by simp)
    omega
  · rcases List.mem_cons.1 hpost with heq | hpost
    · obtain ⟨rfl, rfl⟩ := Prod.mk.inj heq
      omega
    · obtain ⟨mid, post, rfl⟩ := List.append_of_mem hpost
      exact ⟨pre, mid, post, by simp [hsplit]⟩

/-- The last entry with an answer is the final one of the key that came last among them. -/
theorem findSome?_reverse_ofList {β : Type} {f : κ × α → Option β} {b : β} :
    (ofList l).entries.reverse.findSome? f = some b ↔
      ∃ k a, final l k = some a ∧ f (k, a) = some b ∧
        ∀ k' a', final l k' = some a' → f (k', a') ≠ none → firstIndex l k' ≤ firstIndex l k := by
  constructor
  · intro h
    obtain ⟨pre, e, post, hsplit, hf, hnone⟩ := List.findSome?_eq_some_iff.1 h
    have hentries : (ofList l).entries = post.reverse ++ e :: pre.reverse := by
      rw [← List.reverse_reverse (ofList l).entries, hsplit]
      simp
    refine ⟨e.1, e.2, ?_, hf, fun k' a' hfinal hsome => ?_⟩
    · rw [← get_ofList, get_eq_some, hentries]
      simp
    · have hmem := get_eq_some.1 (get_ofList.trans hfinal)
      have hpair := pairwise_keys_ofList (l := l)
      rw [keys, hentries, List.map_append, List.pairwise_append] at hpair
      rw [hentries, List.mem_append, List.mem_cons] at hmem
      rcases hmem with hmem | rfl | hmem
      · exact (hpair.2.2 _ (List.mem_map_of_mem hmem) _ (by simp)).le
      · exact le_rfl
      · exact absurd (hnone _ (List.mem_reverse.1 hmem)) hsome
  · rintro ⟨k, a, hfinal, hf, hlast⟩
    obtain ⟨pre, post, hsplit⟩ := List.append_of_mem (get_eq_some.1 (get_ofList.trans hfinal))
    refine List.findSome?_eq_some_iff.2 ⟨post.reverse, (k, a), pre.reverse, by simp [hsplit], hf,
      fun e he => ?_⟩
    by_contra hsome
    have hmem : e ∈ post := List.mem_reverse.1 he
    have hget : (ofList l).get e.1 = some e.2 := get_eq_some.2 (by simp [hsplit, hmem])
    have hle := hlast e.1 e.2 (get_ofList.symm.trans hget) hsome
    have hpair := pairwise_keys_ofList (l := l)
    rw [keys, hsplit, List.map_append, List.pairwise_append, List.map_cons,
      List.pairwise_cons] at hpair
    have hlt : firstIndex l k < firstIndex l e.1 := hpair.2.1.1 e.1 (List.mem_map_of_mem hmem)
    omega

end OrderedMap
