import Awayuki.Timeline.ThreadRows

/-!
# Threads that the limit does not cut

If a conversation has no more posts than the limit, the list of a thread is the tree of its replies.
If it has more, the rows that the `LIMIT` leaves need not have the requested status.

* `threadRoot_line`: where the loop ends that climbs to the root;
* `appendThreadStatus_fuel`, `appendThreadStatus_eq`: the walk ends, and lists a tree;
* `Connected.view`: the list of all the connected posts;
* `conversation`, `showsThread_iff`: the list is the tree of the replies exactly if the conversation
  has no more posts than the limit.
-/

namespace Awayuki.Timeline.Thread

open Display DepthFirst

variable {db P : List DbStatus} {s t k c d root parent requested : DbStatus} {n limit : ℕ}

/-! ### The root of the list -/

variable {fuel : ℕ} {walk : Walk} {seen : List Str} {rows : List DbStatus} {last : DbStatus}
  {id : Str}

section

variable (hkeys : (db.map DbStatus.key).Nodup)
  (hsubset : ∀ s ∈ P, s ∈ db ∧ s.serverDomain = requested.serverDomain)

include hkeys hsubset

theorem nodup_ids (hnodup : P.Nodup) : (P.map (·.id)).Nodup := by
  refine List.Nodup.map_on (fun s hs t ht hid => ?_) hnodup
  exact eq_of_key hkeys (hsubset s hs).1 (hsubset t ht).1 hid
    ((hsubset s hs).2.trans (hsubset t ht).2.symm)

/-- A round of the loop goes on with the parent. -/
theorem threadRoot_succ (hparents : ∀ s ∈ P, ∀ parent, parentOf db s = some parent → parent ∈ P)
    (hnodup : P.Nodup) (hs : s ∈ P) (hnew : s.id ∉ seen) : threadRoot P (fuel + 1) seen s.id =
      match parentOf db s with
      | none => some s.id
      | some parent => threadRoot P fuel (s.id :: seen) parent.id := by
  have hfind : P.find? (fun t => t.id = s.id) = some s := by
    cases hfind : P.find? fun t => t.id = s.id with
    | none => exact absurd (decide_eq_true rfl) (List.find?_eq_none.1 hfind s hs)
    | some found =>
      have hids := nodup_ids hkeys hsubset hnodup
      exact congrArg some ((find_id_eq_some hids hfind s).1 ⟨hs, rfl⟩).symm
  rw [threadRoot, if_neg hnew, hfind, Option.bind_some]
  cases hparent : parentOf db s with
  | some parent =>
    obtain ⟨-, hid, -⟩ := parentOf_eq_some hparent
    have hany : (P.any fun t => t.id = parent.id) = true :=
      List.any_eq_true.2 ⟨parent, hparents s hs parent hparent, decide_eq_true rfl⟩
    rw [hid]
    exact if_pos hany
  | none =>
    cases hid : s.inReplyToId with
    | none => rfl
    | some parentId =>
      refine if_neg fun hany => ?_
      obtain ⟨parent, hmem, heq⟩ := List.any_eq_true.1 hany
      obtain ⟨hdb, hserver⟩ := hsubset parent hmem
      have hsome := (parentOf_iff hkeys hdb (s := s)).2
        ⟨hid.trans (congrArg some (of_decide_eq_true heq).symm),
          hserver.trans (hsubset s hs).2.symm⟩
      rw [hparent] at hsome
      cases hsome

/-- The loop climbs up a line. -/
theorem threadRoot_line (hparents : ∀ s ∈ P, ∀ parent, parentOf db s = some parent → parent ∈ P)
    (hnodup : P.Nodup) (hline : Line db (s :: rows) last) (hrows : ∀ row ∈ s :: rows, row ∈ P)
    (hdistinct : (s :: rows).Nodup) (hnew : ∀ row ∈ s :: rows, row.id ∉ seen)
    (habove : ∀ parent, parentOf db last = some parent → parent.id ∈ seen ∨ parent ∈ s :: rows)
    (hfuel : (s :: rows).length < fuel) :
    threadRoot P fuel seen s.id = some (listRoot db last).id := by
  induction rows generalizing s seen fuel with
  | nil =>
    obtain rfl := hline.eq_last
    obtain ⟨fuel, rfl⟩ : ∃ n, fuel = n + 2 := ⟨fuel - 2, by simp at hfuel; omega⟩
    rw [threadRoot_succ hkeys hsubset hparents hnodup (hrows s List.mem_cons_self)
      (hnew s List.mem_cons_self), listRoot]
    cases hparent : parentOf db s with
    | none => rfl
    | some parent =>
      have hseen : parent.id ∈ s.id :: seen := by
        rcases habove parent hparent with h | h
        · exact List.mem_cons_of_mem _ h
        · exact List.mem_singleton.1 h ▸ List.mem_cons_self
      exact if_pos hseen
  | cons next rows ih =>
    obtain ⟨hparent, hrest⟩ := hline.tail
    obtain ⟨fuel, rfl⟩ : ∃ n, fuel = n + 1 := ⟨fuel - 1, by simp at hfuel; omega⟩
    rw [threadRoot_succ hkeys hsubset hparents hnodup (hrows s List.mem_cons_self)
      (hnew s List.mem_cons_self), hparent]
    obtain ⟨hne, hdistinct⟩ := List.nodup_cons.1 hdistinct
    refine ih hrest (fun row hrow => hrows row (List.mem_cons_of_mem _ hrow)) hdistinct ?_ ?_
      (Nat.lt_of_succ_lt_succ hfuel)
    · intro row hrow hmem
      have hrowP := hrows row (List.mem_cons_of_mem _ hrow)
      rcases List.mem_cons.1 hmem with hid | hmem
      · have heq := List.inj_on_of_nodup_map (nodup_ids hkeys hsubset hnodup) hrowP
          (hrows s List.mem_cons_self) hid
        exact hne (heq ▸ hrow)
      · exact hnew row (List.mem_cons_of_mem _ hrow) hmem
    · intro parent h
      rcases habove parent h with h | h
      · exact .inl (List.mem_cons_of_mem _ h)
      · rcases List.mem_cons.1 h with rfl | h
        · exact .inl List.mem_cons_self
        · exact .inr h

end

theorem threadRoot_isSome (rootId : Str) (hnodup : seen.Nodup)
    (hseen : ∀ id ∈ seen, id ∈ P.map (·.id)) (hfuel : P.length < seen.length + fuel) :
    ∃ id, threadRoot P fuel seen rootId = some id := by
  induction fuel generalizing seen rootId with
  | zero =>
    have hle := (hnodup.subperm hseen).length_le
    rw [List.length_map] at hle
    omega
  | succ fuel ih =>
    rw [threadRoot]
    by_cases hmem : rootId ∈ seen
    · exact ⟨rootId, if_pos hmem⟩
    · rw [if_neg hmem]
      cases hparent : (P.find? fun s => s.id = rootId).bind (·.inReplyToId) with
      | none => exact ⟨rootId, rfl⟩
      | some parentId =>
        obtain ⟨found, hfound, -⟩ := Option.bind_eq_some_iff.1 hparent
        have hid : found.id = rootId := by simpa using List.find?_some hfound
        have hin : rootId ∈ P.map (·.id) :=
          List.mem_map.2 ⟨found, List.mem_of_find?_eq_some hfound, hid⟩
        by_cases hany : (P.any fun s => s.id = parentId) = true
        · have hseen' : ∀ id ∈ rootId :: seen, id ∈ P.map (·.id) := by
            intro id hid
            rcases List.mem_cons.1 hid with rfl | hid
            · exact hin
            · exact hseen id hid
          obtain ⟨id, hid⟩ := ih parentId (List.nodup_cons.2 ⟨hmem, hnodup⟩) hseen'
            (by rw [List.length_cons]; omega)
          exact ⟨id, (if_pos hany).trans hid⟩
        · exact ⟨rootId, if_neg hany⟩

/-! ### The walk -/

theorem appendThreadStatus_of_mem (h : id ∈ walk.visited) :
    appendThreadStatus P fuel walk id = walk := by
  cases fuel with
  | zero => rfl
  | succ fuel => exact if_pos h

theorem subset_visited (fuel : ℕ) (walk : Walk) (id : Str) :
    walk.visited ⊆ (appendThreadStatus P fuel walk id).visited := by
  induction fuel generalizing walk id with
  | zero => exact fun _ h => h
  | succ fuel ih =>
    by_cases hmem : id ∈ walk.visited
    · rw [appendThreadStatus_of_mem hmem]
      exact fun _ h => h
    · have hfold : ∀ (rows : List DbStatus) (walk : Walk), walk.visited ⊆
          (rows.foldl (fun walk row => appendThreadStatus P fuel walk row.id) walk).visited := by
        intro rows
        induction rows with
        | nil => exact fun _ _ h => h
        | cons row rows ih' => exact fun walk _ h => ih' _ (ih walk row.id h)
      rw [appendThreadStatus, if_neg hmem]
      cases P.find? fun s => s.id = id with
      | none => exact fun _ h => List.mem_cons_of_mem _ h
      | some found => exact fun _ h => hfold _ _ (List.mem_cons_of_mem _ h)

/-- The statuses that the walk has not come by. -/
def unvisited (P : List DbStatus) (walk : Walk) : ℕ :=
  (P.filter fun s => s.id ∉ walk.visited).length

theorem unvisited_le {walk' : Walk} (h : walk.visited ⊆ walk'.visited) :
    unvisited P walk' ≤ unvisited P walk := by
  refine (List.monotone_filter_right P fun s hs => ?_).length_le
  exact decide_eq_true fun hmem => of_decide_eq_true hs (h hmem)

theorem unvisited_lt (hs : s ∈ P) (hnew : s.id ∉ walk.visited) :
    unvisited P ⟨s.id :: walk.visited, walk.ordered ++ [s]⟩ < unvisited P walk := by
  have hsub : (P.filter fun t => t.id ∉ s.id :: walk.visited).Sublist
      (P.filter fun t => t.id ∉ walk.visited) := by
    refine List.monotone_filter_right P fun t ht => ?_
    exact decide_eq_true fun hmem => of_decide_eq_true ht (List.mem_cons_of_mem _ hmem)
  refine lt_of_le_of_ne hsub.length_le fun heq => ?_
  have hmem : s ∈ P.filter fun t => t.id ∉ walk.visited :=
    List.mem_filter.2 ⟨hs, decide_eq_true hnew⟩
  rw [← hsub.eq_of_length heq, List.mem_filter] at hmem
  exact of_decide_eq_true hmem.2 List.mem_cons_self

/-- The walk ends: more fuel than there are statuses makes no difference. -/
theorem appendThreadStatus_fuel {fuel' : ℕ} (walk : Walk) (id : Str) (h : unvisited P walk < fuel)
    (h' : unvisited P walk < fuel') :
    appendThreadStatus P fuel walk id = appendThreadStatus P fuel' walk id := by
  induction fuel generalizing fuel' walk id with
  | zero => exact absurd h (Nat.not_lt_zero _)
  | succ fuel ih =>
    obtain ⟨fuel', rfl⟩ : ∃ n, fuel' = n + 1 := ⟨fuel' - 1, by omega⟩
    by_cases hmem : id ∈ walk.visited
    · rw [appendThreadStatus_of_mem hmem, appendThreadStatus_of_mem hmem]
    · rw [appendThreadStatus, appendThreadStatus, if_neg hmem, if_neg hmem]
      cases hfind : P.find? fun s => s.id = id with
      | none => rfl
      | some found =>
        obtain rfl : found.id = id := by simpa using List.find?_some hfind
        have hlt := unvisited_lt (List.mem_of_find?_eq_some hfind) hmem
        have hfold : ∀ (rows : List DbStatus) (next : Walk), unvisited P next < fuel →
            unvisited P next < fuel' →
            rows.foldl (fun walk row => appendThreadStatus P fuel walk row.id) next =
              rows.foldl (fun walk row => appendThreadStatus P fuel' walk row.id) next := by
          intro rows
          induction rows with
          | nil => exact fun _ _ _ => rfl
          | cons row rows ih' =>
            intro next h h'
            have hle := unvisited_le (P := P) (subset_visited (P := P) fuel next row.id)
            rw [List.foldl_cons, List.foldl_cons, ← ih next row.id h h']
            exact ih' _ (hle.trans_lt h) (hle.trans_lt h')
        exact hfold _ _ (by omega) (by omega)

/-- The walk when it has also come by the statuses of a list. -/
def listed (walk : Walk) (rows : List DbStatus) : Walk :=
  ⟨(rows.map (·.id)).reverse ++ walk.visited, walk.ordered ++ rows⟩

@[simp] theorem listed_nil (walk : Walk) : listed walk [] = walk := by
  simp [listed]

theorem listed_append (walk : Walk) (rows rows' : List DbStatus) :
    listed walk (rows ++ rows') = listed (listed walk rows) rows' := by
  simp [listed]

theorem mem_visited_listed :
    id ∈ (listed walk rows).visited ↔ (∃ row ∈ rows, row.id = id) ∨ id ∈ walk.visited := by
  simp [listed]

section

variable (hids : (P.map (·.id)).Nodup) (htree : Tree (branches db root) root)
  (hin : ∀ {n d}, Descends (branches db root) root n d → d ∈ P)
  (hreplies : ∀ k ∈ P,
    oldestFirst (P.filter fun child => child.inReplyToId = some k.id) = replies db k)

include hids htree hin hreplies

/-- Below a status that it has not come by, the walk lists the tree. -/
theorem appendThreadStatus_eq {l : ℕ} (hk : Descends (branches db root) root l k)
    (hfuel : ∀ {m d}, Descends (branches db root) k m d → m < fuel)
    (hnew : ∀ {m d}, Descends (branches db root) k m d → d.id ∉ walk.visited)
    (hroot : k = root ∨ root.id ∈ walk.visited) :
    appendThreadStatus P fuel walk k.id = listed walk (listing (branches db root) fuel k) := by
  induction fuel generalizing k l walk with
  | zero => exact absurd (hfuel (.refl k)) (Nat.not_lt_zero 0)
  | succ fuel ih =>
    have hkP := hin hk
    have hfind : P.find? (fun s => s.id = k.id) = some k := by
      cases hfind : P.find? fun s => s.id = k.id with
      | none => exact absurd (decide_eq_true rfl) (List.find?_eq_none.1 hfind k hkP)
      | some found => exact congrArg some ((find_id_eq_some hids hfind k).1 ⟨hkP, rfl⟩).symm
    have hvisited : root.id ∈ (listed walk [k]).visited := by
      rw [mem_visited_listed]
      rcases hroot with rfl | hroot
      · exact .inl ⟨k, List.mem_cons_self, rfl⟩
      · exact .inr hroot
    -- The root, which the walk has come by, adds nothing where it is a reply itself.
    have hfold : ∀ (rows : List DbStatus) (next : Walk), root.id ∈ next.visited → rows.Nodup →
        (∀ c ∈ rows, c = root ∨ c ∈ branches db root k) →
        (∀ c ∈ rows, c ≠ root → ∀ m d, Descends (branches db root) c m d → d.id ∉ next.visited) →
        rows.foldl (fun walk row => appendThreadStatus P fuel walk row.id) next =
          listed next ((rows.filter fun c => c ≠ root).flatMap
            (listing (branches db root) fuel)) := by
      intro rows
      induction rows with
      | nil => exact fun next _ _ _ _ => (listed_nil next).symm
      | cons c rows ih' =>
        intro next hmem hnodup hbranch hfresh
        obtain ⟨hcrows, hnodup⟩ := List.nodup_cons.1 hnodup
        have hbranch' := fun s hs => hbranch s (List.mem_cons_of_mem _ hs)
        have hfresh' := fun s hs => hfresh s (List.mem_cons_of_mem _ hs)
        rw [List.foldl_cons]
        by_cases heq : c = root
        · rw [heq, appendThreadStatus_of_mem hmem, List.filter_cons_of_neg (by simp)]
          exact ih' next hmem hnodup hbranch' hfresh'
        · have hc := (hbranch c List.mem_cons_self).resolve_left heq
          have hlist := ih (hk.snoc hc) (fun h => Nat.lt_of_succ_lt_succ (hfuel (.step hc h)))
            (fun h => hfresh c List.mem_cons_self heq _ _ h) (.inr hmem)
          rw [hlist, List.filter_cons_of_pos (by simpa using heq), List.flatMap_cons, listed_append]
          refine ih' _ (mem_visited_listed.2 (.inr hmem)) hnodup hbranch' ?_
          intro s hs hne m d hd hvis
          rcases mem_visited_listed.1 hvis with ⟨row, hrow, hid⟩ | hvis
          · obtain ⟨j, -, hj⟩ := mem_listing.1 hrow
            have hs' := (hbranch' s hs).resolve_left hne
            have hrowd : row = d := List.inj_on_of_nodup_map hids
              (hin ((hk.snoc hc).trans hj)) (hin ((hk.snoc hs').trans hd)) hid
            have hcs := htree.eq_of_descends hk hc hs' hj (hrowd ▸ hd)
            exact hcrows (hcs ▸ hs)
          · exact hfresh' s hs hne m d hd hvis
    have hnodup : (replies db k).Nodup := by
      rw [← hreplies k hkP, (perm_oldestFirst _).nodup_iff]
      exact hids.of_map.filter _
    have hstart : (⟨k.id :: walk.visited, walk.ordered ++ [k]⟩ : Walk) = listed walk [k] := rfl
    rw [appendThreadStatus, if_neg (hnew (.refl k)), hfind]
    show (oldestFirst _).foldl _ _ = _
    rw [hreplies k hkP, hstart, hfold (replies db k) _ hvisited hnodup, ← listed_append]
    · rfl
    · intro c hc
      by_cases heq : c = root
      · exact .inl heq
      · exact .inr (List.mem_filter.2 ⟨hc, decide_eq_true heq⟩)
    · intro c hc hne m d hd hvis
      have hbranch : c ∈ branches db root k := List.mem_filter.2 ⟨hc, decide_eq_true hne⟩
      rcases mem_visited_listed.1 hvis with ⟨row, hrow, hid⟩ | hvis
      · obtain rfl := List.mem_singleton.1 hrow
        have heq := List.inj_on_of_nodup_map hids hkP (hin ((hk.snoc hbranch).trans hd)) hid
        have hlevel := htree.level hk (heq ▸ (hk.snoc hbranch).trans hd)
        omega
      · exact hnew (.step hbranch hd) hvis

omit hids hreplies in
/-- No branch of the tree is as long as there are statuses. -/
theorem lt_length_of_descends {m : ℕ} (h : Descends (branches db root) root m d) :
    m < P.length := by
  have hsub : (listing (branches db root) (m + 1) root).Subperm P := by
    refine (htree.nodup_listing (.refl root)).subperm fun s hs => ?_
    obtain ⟨j, -, hj⟩ := mem_listing.1 hs
    exact hin hj
  exact (lt_length_listing h).trans_le hsub.length_le

/-- If all the statuses are below the root, the list is the tree. -/
theorem orderThreadStatuses_eq (hall : ∀ s ∈ P, ∃ n, Descends (branches db root) root n s) :
    orderThreadStatuses P root.id = listing (branches db root) (P.length + 1) root := by
  have hdeep : ∀ {m d}, Descends (branches db root) root m d → m < P.length + 1 :=
    fun h => (lt_length_of_descends htree hin h).trans (Nat.lt_succ_self _)
  have hwalk : appendThreadStatus P (P.length + 1) ⟨[], []⟩ root.id =
      listed ⟨[], []⟩ (listing (branches db root) (P.length + 1) root) :=
    appendThreadStatus_eq hids htree hin hreplies (.refl root) hdeep (fun _ => List.not_mem_nil)
      (.inl rfl)
  have hrest : (P.filter fun s => s.id ∉
      (listed ⟨[], []⟩ (listing (branches db root) (P.length + 1) root)).visited) = [] := by
    refine List.filter_eq_nil_iff.2 fun s hs hnew => of_decide_eq_true hnew ?_
    obtain ⟨n, hn⟩ := hall s hs
    exact mem_visited_listed.2 (.inl ⟨s, mem_listing.2 ⟨n, hdeep hn, hn⟩, rfl⟩)
  show Walk.ordered ((oldestFirst (P.filter fun s => s.id ∉ (appendThreadStatus P (P.length + 1)
    ⟨[], []⟩ root.id).visited)).foldl _ _) = _
  rw [hwalk, hrest]
  rfl

end

/-! ### The list -/

theorem Connected.mem_of_ancestorAt (h : Connected db P requested root) (hs : s ∈ P)
    (hn : ancestorAt db n s = some t) : t ∈ P := by
  induction n generalizing t with
  | zero =>
    cases hn
    exact hs
  | succ n ih =>
    rw [ancestorAt_succ] at hn
    obtain ⟨child, hchild, hparent⟩ := Option.bind_eq_some_iff.1 hn
    exact h.parents child (ih hchild) t hparent

theorem Connected.mem_of_descends (h : Connected db P requested root) (hk : k ∈ P)
    (hd : Descends (branches db root) k n d) : d ∈ P := by
  induction hd with
  | refl => exact hk
  | @step k c d n child rest ih =>
    obtain ⟨hc, hparent, -⟩ := mem_branches.1 child
    exact ih (h.replies k hk c hc hparent)

/-- A status that is not on a cycle is below its parent. -/
theorem Connected.mem_branches_of_parent (h : Connected db P requested root) (hs : s ∈ P)
    (hparent : parentOf db s = some parent) (hcycle : ¬ OnCycle db s) :
    s ∈ branches db root parent := by
  refine mem_branches.2 ⟨(h.subset s hs).1, hparent, ?_⟩
  rintro rfl
  rcases h.top with htop | htop
  · rw [htop] at hparent
    cases hparent
  · exact hcycle htop

theorem Connected.mem_listing (h : Connected db P requested root)
    (hkeys : (db.map DbStatus.key).Nodup) :
    s ∈ listing (branches db root) (P.length + 1) root ↔ s ∈ P := by
  rw [DepthFirst.mem_listing]
  constructor
  · rintro ⟨m, -, hm⟩
    exact h.mem_of_descends h.rootMem hm
  · intro hs
    obtain ⟨m, hm⟩ := h.below s hs
    have hlt := lt_length_of_descends (tree_branches hkeys.of_map)
      (fun hd => h.mem_of_descends h.rootMem hd) hm
    exact ⟨m, hlt.trans (Nat.lt_succ_self _), hm⟩

theorem pair_sublist_oldestFirst (hs : s ∈ rows) (ht : t ∈ rows)
    (hkey : threadKey s < threadKey t) : [s, t].Sublist (oldestFirst rows) := by
  have hsorted := pairwise_oldestFirst rows
  obtain ⟨before, after, hsplit⟩ := List.append_of_mem ((perm_oldestFirst rows).mem_iff.2 hs)
  have hmem := (perm_oldestFirst rows).mem_iff.2 ht
  rw [hsplit] at hsorted hmem ⊢
  rcases List.mem_append.1 hmem with hmem | hmem
  · have hle := (List.pairwise_append.1 hsorted).2.2 t hmem s List.mem_cons_self
    exact absurd hkey (not_lt.2 hle)
  · have hne : t ≠ s := fun heq => hkey.ne (congrArg threadKey heq.symm)
    have hafter := (List.mem_cons.1 hmem).resolve_left hne
    refine .trans ?_ (List.sublist_append_right _ _)
    exact .cons_cons s (List.singleton_sublist.2 hafter)

/-- The tree of all the connected posts is the view of the thread. -/
theorem Connected.view (h : Connected db P requested root) (hkeys : (db.map DbStatus.key).Nodup)
    (hlimit : P.length ≤ limit) :
    ThreadView db limit requested (listing (branches db root) (P.length + 1) root) := by
  have htree : Tree (branches db root) root := tree_branches hkeys.of_map
  have hmem : ∀ {s}, s ∈ listing (branches db root) (P.length + 1) root ↔ s ∈ P :=
    h.mem_listing hkeys
  refine ⟨?_, fun n _ s hs => ?_, fun s parent hparent hs hp hcycle => ?_,
    fun s t parent hs ht hsl htl hscycle htcycle hkey => ?_, fun n top hn htop _ => ?_⟩
  · exact nodup_ids hkeys (fun s hs => h.subset s (hmem.1 hs)) (htree.nodup_listing (.refl root))
  · exact hmem.2 (h.mem_of_ancestorAt h.requestedMem hs)
  · exact htree.parent_sublist (.refl root) hp hs
      (h.mem_branches_of_parent (hmem.1 hs) hparent hcycle)
  · have hsbranch := h.mem_branches_of_parent (hmem.1 hsl) hs hscycle
    have htbranch := h.mem_branches_of_parent (hmem.1 htl) ht htcycle
    have hp := hmem.2 (h.parents s (hmem.1 hsl) parent hs)
    refine htree.siblings_sublist (.refl root) hp hsl htl ?_
    have hpair : [s, t].Sublist (Thread.replies db parent) := by
      refine pair_sublist_oldestFirst ?_ ?_ hkey
      · exact List.mem_filter.2 ⟨(mem_branches.1 hsbranch).1, decide_eq_true hs⟩
      · exact List.mem_filter.2 ⟨(mem_branches.1 htbranch).1, decide_eq_true ht⟩
    have hfilter : [s, t].filter (fun c => c ≠ root) = [s, t] := by
      have hsne := (mem_branches.1 hsbranch).2.2
      have htne := (mem_branches.1 htbranch).2.2
      simp [hsne, htne]
    rw [← hfilter]
    exact hpair.filter _
  · have htopP := h.mem_of_ancestorAt h.requestedMem hn
    obtain rfl : root = top := by
      obtain ⟨m, hm⟩ := h.below top htopP
      cases m with
      | zero => exact hm.eq_of_zero
      | succ m =>
        obtain ⟨p, -, hp⟩ := hm.last
        rw [(mem_branches.1 hp).2.1] at htop
        cases htop
    have hbranches : branches db root = Thread.replies db := by
      funext k
      refine List.filter_eq_self.2 fun c hc => decide_eq_true ?_
      rintro rfl
      rw [(mem_replies.1 hc).2] at htop
      cases htop
    have hdeep : ∀ {m d}, Descends (branches db root) root m d → m < P.length :=
      fun hd => lt_length_of_descends htree (fun hd => h.mem_of_descends h.rootMem hd) hd
    rw [hbranches] at hdeep ⊢
    exact listing_eq (fun hd => (hdeep hd).trans (Nat.lt_succ_self _))
      fun hd => (hdeep hd).trans_le hlimit

/-! ### What the limit cuts -/

/-- The cached posts that share an ancestor with the requested one, or are one themselves. -/
def conversation (db : List DbStatus) (requested : DbStatus) : Set DbStatus :=
  {s | s ∈ db ∧ ∃ m n ancestor, ancestorAt db m s = some ancestor ∧
    ancestorAt db n requested = some ancestor}

theorem ancestorAt_of_descends (h : Descends (thread db root) k n d) :
    ancestorAt db n d = some k := by
  induction n generalizing d with
  | zero =>
    obtain rfl := h.eq_of_zero
    rfl
  | succ n ih =>
    obtain ⟨p, hp, hd⟩ := h.last
    show (parentOf db d).bind (ancestorAt db n) = some k
    rw [(mem_thread.1 hd).2.1, Option.bind_some]
    exact ih hp

theorem Rows.selected_subset {A : List DbStatus} (h : Rows db A limit requested last) :
    ∀ s ∈ selected db limit requested, s ∈ conversation db requested := by
  intro s hs
  obtain ⟨n, hn⟩ := h.line.reaches (List.mem_of_head? h.head)
  have hlast := (h.subset last (List.mem_of_getLast? h.line.last)).1
  rcases (h.mem s).1 hs with hs | hs
  · obtain ⟨m, hm⟩ := h.line.reaches hs
    exact ⟨(h.subset s hs).1, m, n, last, hm, hn⟩
  · obtain ⟨m, -, hm⟩ := mem_listing.1 hs
    exact ⟨mem_of_descends hlast hm, m, n, last, ancestorAt_of_descends hm, hn⟩

theorem Rows.server {A : List DbStatus} (h : Rows db A limit requested last) :
    ∀ s ∈ selected db limit requested, s ∈ db ∧ s.serverDomain = requested.serverDomain := by
  intro s hs
  refine ⟨(h.selected_subset s hs).1, ?_⟩
  have hlast := (h.subset last (List.mem_of_getLast? h.line.last)).2
  rcases (h.mem s).1 hs with hs | hs
  · exact (h.subset s hs).2
  · obtain ⟨m, -, hm⟩ := mem_listing.1 hs
    exact (server_of_descends hm).trans hlast

theorem Connected.mem_of_conversation (h : Connected db P requested root)
    (hs : s ∈ conversation db requested) : s ∈ P := by
  obtain ⟨hsdb, m, n, ancestor, hm, hn⟩ := hs
  have hancestor := h.mem_of_ancestorAt h.requestedMem hn
  clear hn
  induction m generalizing s with
  | zero =>
    cases hm
    exact hancestor
  | succ m ih =>
    obtain ⟨parent, hparent, hm⟩ := Option.bind_eq_some_iff.1 hm
    exact h.replies parent (ih (parentOf_eq_some hparent).1 hm) s hsdb hparent

/-- The rows are cut exactly if the conversation has more posts than the limit. -/
theorem length_selected_le_iff (hkeys : (db.map DbStatus.key).Nodup)
    (hseparated : Separated db requested.serverDomain) (hrequested : requested ∈ db) :
    (selected db limit requested).length ≤ limit ↔ (conversation db requested).ncard ≤ limit := by
  obtain ⟨A, last, hrows⟩ := exists_rows hkeys hseparated hrequested limit
  have hcard : (selected db limit requested).length =
      (selected db limit requested).toFinset.card :=
    (List.toFinset_card_of_nodup (List.nodup_dedup _)).symm
  constructor
  · intro h
    have hconnected := (hrows.whole hkeys h).connected fun s => Iff.rfl
    refine le_trans ?_ h
    rw [hcard, ← Set.ncard_coe_finset]
    refine Set.ncard_le_ncard (fun s hs => ?_) (Finset.finite_toSet _)
    exact List.mem_toFinset.2 (hconnected.mem_of_conversation hs)
  · intro h
    refine le_trans ?_ h
    rw [hcard, ← Set.ncard_coe_finset]
    have hfinite : (conversation db requested).Finite :=
      (List.finite_toSet db).subset fun s hs => hs.1
    exact Set.ncard_le_ncard (fun s hs => hrows.selected_subset s (List.mem_toFinset.1 hs)) hfinite

/-- The walk of the rows lists the tree. -/
theorem Connected.orderThreadStatuses_eq (h : Connected db P requested root)
    (hkeys : (db.map DbStatus.key).Nodup) (hnodup : P.Nodup) :
    orderThreadStatuses P root.id = listing (branches db root) (P.length + 1) root := by
  refine Thread.orderThreadStatuses_eq (nodup_ids hkeys h.subset hnodup)
    (tree_branches hkeys.of_map) (fun hd => h.mem_of_descends h.rootMem hd) (fun k hk => ?_) h.below
  obtain ⟨hkdb, hserver⟩ := h.subset k hk
  refine oldestFirst_congr ?_ fun a ha b hb hid => ?_
  · refine (List.perm_ext_iff_of_nodup (hnodup.filter _) (hkeys.of_map.filter _)).2 fun c => ?_
    rw [List.mem_filter, List.mem_filter, decide_eq_true_eq, decide_eq_true_eq]
    constructor
    · rintro ⟨hc, hid⟩
      obtain ⟨hcdb, hcserver⟩ := h.subset c hc
      exact ⟨hcdb, (parentOf_iff hkeys hkdb).2 ⟨hid, hserver.trans hcserver.symm⟩⟩
    · rintro ⟨hc, hparent⟩
      exact ⟨h.replies k hk c hc hparent, (parentOf_eq_some hparent).2.1⟩
  · obtain ⟨hadb, haserver⟩ := h.subset a (List.mem_filter.1 ha).1
    obtain ⟨hbdb, hbserver⟩ := h.subset b (List.mem_filter.1 hb).1
    exact eq_of_key hkeys hadb hbdb hid (haserver.trans hbserver.symm)

/-- The list has rows of the page only. -/
theorem mem_of_query {page list : List DbStatus} (hids : (page.map (·.id)).Nodup)
    (h : queryStatusThreadStatuses page id = some list) (hs : s ∈ list) : s ∈ page := by
  unfold queryStatusThreadStatuses at h
  split_ifs at h
  · cases h
    cases hs
  · obtain ⟨rootId, -, rfl⟩ := Option.map_eq_some_iff.1 h
    exact (orderThreadStatuses_perm hids rootId).mem_iff.1 hs

theorem query_isSome (page : List DbStatus) (id : Str) :
    ∃ list, queryStatusThreadStatuses page id = some list := by
  unfold queryStatusThreadStatuses
  split_ifs with hempty
  · exact ⟨[], rfl⟩
  · have hfuel : page.length < ([] : List Str).length + (page.length + 1) := by simp
    obtain ⟨rootId, hroot⟩ := threadRoot_isSome id List.nodup_nil
      (fun _ h => absurd h List.not_mem_nil) hfuel
    exact ⟨_, congrArg (Option.map _) hroot⟩

theorem clampLimit_eq (hpos : 1 ≤ limit) (hlimit : limit ≤ 500) : clampLimit limit = limit := by
  unfold clampLimit
  omega

/-- The query shows the thread exactly if the conversation has no more posts than the limit. -/
theorem showsThread_iff (db : List DbStatus) (requested : DbStatus) (limit : ℕ)
    (hkeys : (db.map DbStatus.key).Nodup) (hrequested : requested ∈ db)
    (hseparated : Separated db requested.serverDomain) (hpos : 1 ≤ limit) (hlimit : limit ≤ 500) :
    ShowsThread db limit requested ↔ (conversation db requested).ncard ≤ limit := by
  have hclamp := clampLimit_eq hpos hlimit
  rw [← length_selected_le_iff hkeys hseparated hrequested]
  constructor
  · intro h
    by_contra hlong
    -- A page without the requested status.
    obtain ⟨A, last, hrows⟩ := exists_rows hkeys hseparated hrequested limit
    have hnodup : (selected db limit requested).Nodup := List.nodup_dedup _
    have hmem : requested ∈ selected db limit requested :=
      (hrows.mem _).2 (.inl (List.mem_of_head? hrows.head))
    have hlength := List.length_erase_of_mem hmem
    have hpage : IsPage (selected db (clampLimit limit) requested) (clampLimit limit)
        (((selected db limit requested).erase requested).take limit) := by
      rw [hclamp]
      refine ⟨(hnodup.erase _).sublist (List.take_sublist _ _), fun s hs => ?_, ?_⟩
      · exact List.mem_of_mem_erase (List.mem_of_mem_take hs)
      · rw [List.length_take, hlength]
        omega
    obtain ⟨list, hlist⟩ := h.ends _ hpage
    have hview := h.view list ⟨_, hpage, hlist⟩
    have hin : requested ∈ list := hview.ancestors 0 hpos requested rfl
    have hids := nodup_ids hkeys
      (fun s hs => hrows.server s (List.mem_of_mem_erase (List.mem_of_mem_take hs)))
      ((hnodup.erase requested).sublist (List.take_sublist limit _))
    have hpage := mem_of_query hids hlist hin
    exact hnodup.not_mem_erase (List.mem_of_mem_take hpage)
  · intro h
    obtain ⟨A, last, hrows⟩ := exists_rows hkeys hseparated hrequested limit
    refine ⟨fun page hpage => ?_, fun page fuel hfuel walk id => ?_, ?_⟩
    · exact query_isSome page requested.id
    · have hle : unvisited page walk ≤ page.length := List.length_filter_le _ _
      exact appendThreadStatus_fuel walk id (by omega) (by omega)
    · rintro list ⟨page, hpage, hlist⟩
      rw [hclamp] at hpage
      have hperm : page.Perm (selected db limit requested) := by
        refine (hpage.nodup.subperm hpage.subset).perm_of_length_le ?_
        rw [hpage.length]
        omega
      obtain ⟨rest, hA⟩ : ∃ rest, A = requested :: rest := List.head?_eq_some_iff.1 hrows.head
      have hwhole := hrows.whole hkeys h
      have hconnected := hwhole.connected fun s => hperm.mem_iff
      have hfuel : A.length < page.length + 1 := by
        have hle := (hrows.nodup.subperm fun s hs =>
          hperm.mem_iff.2 ((hrows.mem s).2 (.inl hs))).length_le
        omega
      have hroot : threadRoot page (page.length + 1) [] requested.id =
          some (listRoot db last).id := by
        subst hA
        refine threadRoot_line hkeys hconnected.subset hconnected.parents hpage.nodup hrows.line
          (fun s hs => hperm.mem_iff.2 ((hrows.mem s).2 (.inl hs))) hrows.nodup
          (fun _ _ => List.not_mem_nil) (fun parent hparent => .inr (hwhole.above parent hparent))
          hfuel
      have hlength : page.length ≤ limit := hperm.length_eq.trans_le h
      have hview := hconnected.view hkeys hlength
      rw [← hconnected.orderThreadStatuses_eq hkeys hpage.nodup] at hview
      have hne : page.isEmpty = false := List.isEmpty_eq_false_iff_exists_mem.2
        ⟨requested, hconnected.requestedMem⟩
      rw [queryStatusThreadStatuses, hne, hroot] at hlist
      cases hlist
      exact hview

/-! ### Two answers -/

/-- A post and two answers to it. -/
def sampleAnswers : List DbStatus :=
  [sampleReply "1" 1 none, sampleReply "2" 2 (some "1".toList), sampleReply "3" 3 (some "1".toList)]

theorem showsThread_sampleAnswers :
    ShowsThread sampleAnswers 3 (sampleReply "3" 3 (some "1".toList)) := by
  refine (showsThread_iff sampleAnswers (sampleReply "3" 3 (some "1".toList)) 3 (by decide)
    (by decide) ?_ (by decide) (by decide)).2 ?_
  · unfold Separated
    decide
  · have hsubset : conversation sampleAnswers (sampleReply "3" 3 (some "1".toList)) ⊆
        sampleAnswers.toFinset := fun s hs => Finset.mem_coe.2 (List.mem_toFinset.2 hs.1)
    refine (Set.ncard_le_ncard hsubset (Finset.finite_toSet _)).trans ?_
    rw [Set.ncard_coe_finset]
    exact List.toFinset_card_le _

/-- The answer that is asked for is not in a list of two: the statement returns the rows with the
smaller ids. -/
theorem not_showsThread_sampleAnswers :
    ¬ ShowsThread sampleAnswers 2 (sampleReply "3" 3 (some "1".toList)) := by
  intro h
  have hresult : ThreadResult sampleAnswers 2 (sampleReply "3" 3 (some "1".toList))
      (sampleAnswers.take 2) :=
    ⟨sampleAnswers.take 2, ⟨by decide, by decide, by decide⟩, by decide⟩
  have hview := (h.view _ hresult).ancestors 0 (by decide) _ rfl
  revert hview
  decide

end Awayuki.Timeline.Thread
