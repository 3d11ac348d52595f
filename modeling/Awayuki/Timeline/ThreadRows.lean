import Awayuki.Timeline.Thread

/-!
# The rows of a thread

The rows that the statement selects are a line of ancestors, and the tree below the last of them.
If they are no more than the limit, they are all the posts that are connected by replies to the
requested one.

* `Climbs`, `Line`: what the ancestors are;
* `thread`, `branches`: what is below a status, the root apart;
* `descendants_eq`: what is below the root is a tree;
* `Rows`, `Whole`: what the rows are;
* `Connected`: what they are if there are no more than the limit.
-/

namespace Awayuki.Timeline.Thread

open Display DepthFirst

variable {last : DbStatus} {rows seen : List DbStatus}

/-- The ids of the statuses of one server have no separator. -/
def Separated (db : List DbStatus) (serverDomain : Str) : Prop :=
  ∀ s ∈ db, s.serverDomain = serverDomain → separator ∉ s.id

variable {db P : List DbStatus} {s t k c d root parent requested : DbStatus} {n limit : ℕ}

/-! ### The graph -/

theorem parentOf_eq_some (h : parentOf db s = some parent) :
    parent ∈ db ∧ s.inReplyToId = some parent.id ∧ parent.serverDomain = s.serverDomain := by
  have hfound := List.find?_some h
  exact ⟨List.mem_of_find?_eq_some h, of_decide_eq_true hfound⟩

theorem eq_of_key (hkeys : (db.map DbStatus.key).Nodup) (hs : s ∈ db) (ht : t ∈ db)
    (hid : s.id = t.id) (hserver : s.serverDomain = t.serverDomain) : s = t :=
  List.inj_on_of_nodup_map hkeys hs ht (Prod.ext hid hserver)

theorem parentOf_iff (hkeys : (db.map DbStatus.key).Nodup) (hparent : parent ∈ db) :
    parentOf db s = some parent ↔
      s.inReplyToId = some parent.id ∧ parent.serverDomain = s.serverDomain := by
  refine ⟨fun h => (parentOf_eq_some h).2, fun h => ?_⟩
  cases hfind : parentOf db s with
  | none => exact absurd (decide_eq_true h) (List.find?_eq_none.1 hfind parent hparent)
  | some found =>
    obtain ⟨hmem, hid, hserver⟩ := parentOf_eq_some hfind
    have hids : found.id = parent.id := Option.some.inj (hid.symm.trans h.1)
    rw [eq_of_key hkeys hmem hparent hids (hserver.trans h.2.symm)]

theorem ancestorAt_succ : ancestorAt db (n + 1) s = (ancestorAt db n s).bind (parentOf db) := by
  induction n generalizing s with
  | zero =>
    show (parentOf db s).bind some = _
    rw [Option.bind_fun_some]
    rfl
  | succ n ih =>
    show (parentOf db s).bind (ancestorAt db (n + 1)) = ((parentOf db s).bind _).bind _
    rw [Option.bind_assoc]
    exact congrArg _ (funext fun parent => ih)

theorem perm_oldestFirst (rows : List DbStatus) : (oldestFirst rows).Perm rows :=
  List.perm_insertionSort _ _

theorem pairwise_oldestFirst (rows : List DbStatus) :
    (oldestFirst rows).Pairwise fun a b => threadKey a ≤ threadKey b :=
  List.pairwise_insertionSort _ _

theorem id_of_threadKey (h : threadKey s = threadKey t) : s.id = t.id :=
  congrArg (fun key => (ofLex key).2) h

/-- The order of the replies does not depend on the order of the rows. -/
theorem oldestFirst_congr {rows' : List DbStatus} (hperm : rows.Perm rows')
    (hid : ∀ a ∈ rows, ∀ b ∈ rows, a.id = b.id → a = b) : oldestFirst rows = oldestFirst rows' := by
  have hsorted : (oldestFirst rows).Perm (oldestFirst rows') :=
    (perm_oldestFirst rows).trans (hperm.trans (perm_oldestFirst rows').symm)
  refine hsorted.eq_of_pairwise ?_ (pairwise_oldestFirst rows) (pairwise_oldestFirst rows')
  intro a b ha hb hab hba
  have hb' := hsorted.mem_iff.2 hb
  exact hid a ((perm_oldestFirst rows).mem_iff.1 ha) b ((perm_oldestFirst rows).mem_iff.1 hb')
    (id_of_threadKey (le_antisymm hab hba))

theorem mem_replies : c ∈ replies db k ↔ c ∈ db ∧ parentOf db c = some k := by
  rw [replies, (perm_oldestFirst _).mem_iff, List.mem_filter, decide_eq_true_eq]

/-- The rows below a status, the root apart. -/
def thread (db : List DbStatus) (root k : DbStatus) : List DbStatus :=
  db.filter fun child => parentOf db child = some k ∧ child ≠ root

/-- The replies to a status, the root apart. -/
def branches (db : List DbStatus) (root k : DbStatus) : List DbStatus :=
  (replies db k).filter fun child => child ≠ root

theorem mem_thread : c ∈ thread db root k ↔ c ∈ db ∧ parentOf db c = some k ∧ c ≠ root := by
  rw [thread, List.mem_filter, decide_eq_true_eq]

theorem mem_branches :
    c ∈ branches db root k ↔ c ∈ db ∧ parentOf db c = some k ∧ c ≠ root := by
  rw [branches, List.mem_filter, mem_replies, decide_eq_true_eq, and_assoc]

theorem tree_thread (hdb : db.Nodup) : Tree (thread db root) root where
  nodup _ := hdb.filter _
  parent h h' := by
    have hparent := (mem_thread.1 h).2.1
    rw [(mem_thread.1 h').2.1] at hparent
    exact (Option.some.inj hparent).symm
  root _ h := (mem_thread.1 h).2.2 rfl

theorem tree_branches (hdb : db.Nodup) : Tree (branches db root) root where
  nodup _ := ((perm_oldestFirst _).nodup_iff.2 (hdb.filter _)).filter _
  parent h h' := by
    have hparent := (mem_branches.1 h).2.1
    rw [(mem_branches.1 h').2.1] at hparent
    exact (Option.some.inj hparent).symm
  root _ h := (mem_branches.1 h).2.2 rfl

/-- What is below a status is of its server. -/
theorem server_of_descends (h : Descends (thread db root) k n d) :
    d.serverDomain = k.serverDomain := by
  induction h with
  | refl => rfl
  | step child rest ih => exact ih.trans (parentOf_eq_some (mem_thread.1 child).2.1).2.2.symm

theorem mem_of_descends (hk : k ∈ db) (h : Descends (thread db root) k n d) : d ∈ db := by
  induction h with
  | refl => exact hk
  | step child rest ih => exact ih (mem_thread.1 child).1

/-! ### The ancestors -/

/-- What the rows of `ancestors` are: each is the parent of the row before it, and the last has no
parent, or one that is among the rows, or it is as far up as the depth allows. -/
structure Climbs (db : List DbStatus) (depth : ℕ) (seen : List DbStatus) (s : DbStatus)
    (rows : List DbStatus) : Prop where
  head : rows.head? = some s
  chain : rows.IsChain fun child parent => parentOf db child = some parent
  nodup : rows.Nodup
  fresh : ∀ row ∈ rows, row = s ∨ row ∉ seen
  subset : ∀ row ∈ rows, row ∈ db ∧ row.serverDomain = s.serverDomain
  ends : ∀ last ∈ rows.getLast?, rows.length = depth + 1 ∨
    ∀ parent, parentOf db last = some parent → parent ∈ seen ∨ parent ∈ rows

theorem Climbs.single (hs : s ∈ db) {depth : ℕ}
    (h : depth = 0 ∨ ∀ parent, parentOf db s = some parent → parent ∈ seen) :
    Climbs db depth seen s [s] where
  head := rfl
  chain := .singleton s
  nodup := List.nodup_singleton s
  fresh row hrow := .inl (List.mem_singleton.1 hrow)
  subset row hrow := by
    obtain rfl := List.mem_singleton.1 hrow
    exact ⟨hs, rfl⟩
  ends last hlast := by
    obtain rfl : s = last := Option.some.inj hlast
    refine h.imp (fun h => ?_) fun h parent hparent => .inl (h parent hparent)
    rw [h, List.length_singleton]

theorem Climbs.cons {depth : ℕ} (hs : s ∈ db) (hseen : s ∈ seen)
    (hparent : parentOf db s = some parent) (hnew : parent ∉ seen)
    (h : Climbs db depth (seen ++ [parent]) parent rows) :
    Climbs db (depth + 1) seen s (s :: rows) := by
  obtain ⟨rest, rfl⟩ : ∃ rest, rows = parent :: rest := by
    have hhead := h.head
    cases rows with
    | nil => cases hhead
    | cons first rest =>
      cases hhead
      exact ⟨rest, rfl⟩
  have hfresh : ∀ row ∈ parent :: rest, row ∉ seen := by
    intro row hrow
    rcases h.fresh row hrow with rfl | hrow
    · exact hnew
    · exact fun h => hrow (List.mem_append_left _ h)
  refine ⟨rfl, .cons_cons hparent h.chain, ?_, ?_, ?_, ?_⟩
  · exact List.nodup_cons.2 ⟨fun h => hfresh s h hseen, h.nodup⟩
  · intro row hrow
    exact (List.mem_cons.1 hrow).imp_right (hfresh row)
  · intro row hrow
    rcases List.mem_cons.1 hrow with rfl | hrow
    · exact ⟨hs, rfl⟩
    · obtain ⟨hmem, hserver⟩ := h.subset row hrow
      exact ⟨hmem, hserver.trans (parentOf_eq_some hparent).2.2⟩
  · intro last hlast
    rw [List.getLast?_cons_cons] at hlast
    refine (h.ends last hlast).imp (congrArg (· + 1)) fun h above habove => ?_
    rcases h above habove with hmem | hmem
    · rcases List.mem_append.1 hmem with hmem | hmem
      · exact .inl hmem
      · obtain rfl := List.mem_singleton.1 hmem
        exact .inr (List.mem_cons_of_mem _ List.mem_cons_self)
    · exact .inr (List.mem_cons_of_mem _ hmem)

/-- The text of a branch tells which statuses of the server it has come by. -/
theorem notOn_iff (hkeys : (db.map DbStatus.key).Nodup) {serverDomain : Str}
    (hseparated : Separated db serverDomain)
    (hseen : ∀ s ∈ seen, s ∈ db ∧ s.serverDomain = serverDomain) (hc : c ∈ db)
    (hserver : c.serverDomain = serverDomain) :
    notOn (pathText (seen.map (·.id))) c.id = true ↔ c ∉ seen := by
  have hids : ∀ other ∈ seen.map (·.id), separator ∉ other := by
    intro other hother
    obtain ⟨s, hs, rfl⟩ := List.mem_map.1 hother
    exact hseparated s (hseen s hs).1 (hseen s hs).2
  rw [notOn_path hids (hseparated c hc hserver), not_iff_not, List.mem_map]
  constructor
  · rintro ⟨s, hs, hid⟩
    obtain ⟨hmem, hserver'⟩ := hseen s hs
    rwa [← eq_of_key hkeys hmem hc hid (hserver'.trans hserver.symm)]
  · exact fun h => ⟨c, h, rfl⟩

theorem climbs_ancestors (hkeys : (db.map DbStatus.key).Nodup)
    (hseparated : Separated db s.serverDomain) (depth : ℕ) (hs : s ∈ seen)
    (hseen : ∀ row ∈ seen, row ∈ db ∧ row.serverDomain = s.serverDomain) :
    Climbs db depth seen s (ancestors db depth (pathText (seen.map (·.id))) s) := by
  have hmem : s ∈ db := (hseen s hs).1
  induction depth generalizing s seen with
  | zero => exact .single hmem (.inl rfl)
  | succ depth ih =>
    rw [ancestors]
    cases hparent : parentOf db s with
    | none => exact .single hmem (.inr fun parent h => by rw [hparent] at h; cases h)
    | some parent =>
      obtain ⟨hpmem, -, hserver⟩ := parentOf_eq_some hparent
      have hguard := notOn_iff hkeys hseparated hseen hpmem hserver
      show Climbs db (depth + 1) seen s (s :: if _ then _ else _)
      by_cases hnew : parent ∈ seen
      · rw [if_neg fun h => hguard.1 h hnew]
        refine .single hmem (.inr fun other h => ?_)
        rw [hparent] at h
        exact Option.some.inj h ▸ hnew
      · have hids : extendPath (pathText (seen.map (·.id))) parent.id =
            pathText ((seen ++ [parent]).map (·.id)) := by
          rw [extendPath_pathText, List.map_append]
          rfl
        rw [if_pos (hguard.2 hnew), hids]
        refine .cons hmem hs hparent hnew (ih ?_ ?_ ?_ hpmem)
        · rwa [hserver]
        · exact List.mem_append_right _ List.mem_cons_self
        · intro row hrow
          rw [hserver]
          rcases List.mem_append.1 hrow with hrow | hrow
          · exact hseen row hrow
          · obtain rfl := List.mem_singleton.1 hrow
            exact ⟨hpmem, hserver⟩

/-! ### The descendants -/

theorem children_eq (hkeys : (db.map DbStatus.key).Nodup) (hk : k ∈ db) :
    children db k = db.filter fun child => parentOf db child = some k := by
  refine List.filter_congr fun child _ => decide_eq_decide.2 ?_
  rw [parentOf_iff hkeys hk, @eq_comm _ k.serverDomain]

/-- The rows of `descendants` are the tree below the root: a branch comes by a status a second time
only where it comes by the root. -/
theorem descendants_eq (hkeys : (db.map DbStatus.key).Nodup)
    (hseparated : Separated db root.serverDomain) (hroot : root ∈ db) (depth : ℕ)
    {line : List DbStatus} {l : ℕ} (hk : Descends (thread db root) root l k)
    (hline : ∀ s ∈ line, ∃ j ≤ l, Descends (thread db root) root j s) (hmem : root ∈ line) :
    descendants db depth (pathText (line.map (·.id))) k =
      listing (thread db root) (depth + 1) k := by
  have htree : Tree (thread db root) root := tree_thread hkeys.of_map
  induction depth generalizing k l line with
  | zero =>
    rw [descendants, listing]
    refine congrArg (k :: ·) (List.flatMap_eq_nil_iff.2 fun _ _ => rfl).symm
  | succ depth ih =>
    have hseen : ∀ s ∈ line, s ∈ db ∧ s.serverDomain = root.serverDomain := by
      intro s hs
      obtain ⟨j, -, hj⟩ := hline s hs
      exact ⟨mem_of_descends hroot hj, server_of_descends hj⟩
    have hkdb := mem_of_descends hroot hk
    have hguard : ((children db k).filter fun child =>
        notOn (pathText (line.map (·.id))) child.id) = thread db root k := by
      rw [children_eq hkeys hkdb, List.filter_filter, thread]
      refine List.filter_congr fun child hchild => ?_
      by_cases hparent : parentOf db child = some k
      · have hserver : child.serverDomain = root.serverDomain :=
          (parentOf_eq_some hparent).2.2.symm.trans (server_of_descends hk)
        have hon := notOn_iff hkeys hseparated hseen hchild hserver
        have hline' : child ∉ line ↔ child ≠ root := by
          refine ⟨fun h heq => h (heq ▸ hmem), fun hne h => ?_⟩
          obtain ⟨j, hj, hchildj⟩ := hline child h
          have hlevel := htree.level hchildj (hk.snoc (mem_thread.2 ⟨hchild, hparent, hne⟩))
          omega
        rw [decide_eq_true hparent, Bool.and_true, Bool.eq_iff_iff, hon, hline', decide_eq_true_eq]
        exact ⟨fun h => ⟨hparent, h⟩, fun h => h.2⟩
      · rw [decide_eq_false hparent, Bool.and_false, eq_comm, decide_eq_false_iff_not]
        exact fun h => hparent h.1
    rw [descendants, listing, hguard]
    refine congrArg (k :: ·) (List.flatMap_congr fun child hchild => ?_)
    have hsnoc := hk.snoc hchild
    have hpath : extendPath (pathText (line.map (·.id))) child.id =
        pathText ((line ++ [child]).map (·.id)) := by
      rw [extendPath_pathText, List.map_append]
      rfl
    rw [hpath]
    refine ih hsnoc (fun s hs => ?_) (List.mem_append_left _ hmem)
    rcases List.mem_append.1 hs with hs | hs
    · obtain ⟨j, hj, h⟩ := hline s hs
      exact ⟨j, by omega, h⟩
    · obtain rfl := List.mem_singleton.1 hs
      exact ⟨l + 1, le_rfl, hsnoc⟩

/-! ### The rows, if there are no more than the limit -/

/-- A line of statuses up to a last one, each the parent of the one before it. -/
structure Line (db rows : List DbStatus) (last : DbStatus) : Prop where
  chain : rows.IsChain fun child parent => parentOf db child = some parent
  last : rows.getLast? = some last

theorem Line.tail (h : Line db (s :: t :: rows) last) :
    parentOf db s = some t ∧ Line db (t :: rows) last := by
  cases h.chain with
  | cons_cons hparent hrest => exact ⟨hparent, hrest, by rw [← h.last, List.getLast?_cons_cons]⟩

theorem Line.eq_last (h : Line db [s] last) : s = last := Option.some.inj h.last

/-- The last of a line is an ancestor of every status of it. -/
theorem Line.reaches (h : Line db rows last) (hs : s ∈ rows) :
    ∃ n, ancestorAt db n s = some last := by
  induction rows generalizing s with
  | nil => cases hs
  | cons first rows ih =>
    cases rows with
    | nil =>
      obtain rfl := (List.mem_singleton.1 hs).trans h.eq_last
      exact ⟨0, rfl⟩
    | cons second rows =>
      obtain ⟨hparent, hrest⟩ := h.tail
      rcases List.mem_cons.1 hs with rfl | hs
      · obtain ⟨n, hn⟩ := ih hrest List.mem_cons_self
        refine ⟨n + 1, ?_⟩
        show (parentOf db s).bind (ancestorAt db n) = some last
        rw [hparent]
        exact hn
      · exact ih hrest hs

/-- Every status of a line is below the last. -/
theorem Line.descends (h : Line db rows last) (hnodup : rows.Nodup) (hdb : ∀ s ∈ rows, s ∈ db)
    (hs : s ∈ rows) : ∃ n, Descends (thread db last) last n s := by
  induction rows generalizing s with
  | nil => cases hs
  | cons first rows ih =>
    obtain ⟨hnew, hnodup⟩ := List.nodup_cons.1 hnodup
    cases rows with
    | nil =>
      obtain rfl := (List.mem_singleton.1 hs).trans h.eq_last
      exact ⟨0, .refl s⟩
    | cons second rows =>
      obtain ⟨hparent, hrest⟩ := h.tail
      have hbelow := fun {s} =>
        ih (s := s) hrest hnodup fun s hs => hdb s (List.mem_cons_of_mem _ hs)
      rcases List.mem_cons.1 hs with rfl | hs
      · obtain ⟨n, hn⟩ := hbelow List.mem_cons_self
        have hne : s ≠ last := fun heq => hnew (heq ▸ List.mem_of_getLast? hrest.last)
        exact ⟨n + 1, hn.snoc (mem_thread.2 ⟨hdb s List.mem_cons_self, hparent, hne⟩)⟩
      · exact hbelow hs

/-- All the posts that are connected by replies to the requested one, and the root that the list
begins with. -/
structure Connected (db P : List DbStatus) (requested root : DbStatus) : Prop where
  subset : ∀ s ∈ P, s ∈ db ∧ s.serverDomain = requested.serverDomain
  requestedMem : requested ∈ P
  rootMem : root ∈ P
  parents : ∀ s ∈ P, ∀ parent, parentOf db s = some parent → parent ∈ P
  replies : ∀ s ∈ P, ∀ c ∈ db, parentOf db c = some s → c ∈ P
  below : ∀ s ∈ P, ∃ n, Descends (branches db root) root n s
  top : parentOf db root = none ∨ OnCycle db root

/-- The root of the list for the last of the ancestors. -/
def listRoot (db : List DbStatus) (last : DbStatus) : DbStatus := (parentOf db last).getD last

/-- What the rows are made of: a line of ancestors, and what is below the last of them. -/
structure Rows (db A : List DbStatus) (limit : ℕ) (requested last : DbStatus) : Prop where
  line : Line db A last
  head : A.head? = some requested
  nodup : A.Nodup
  ends : A.length = limit + 1 ∨ ∀ parent, parentOf db last = some parent → parent ∈ A
  subset : ∀ s ∈ A, s ∈ db ∧ s.serverDomain = requested.serverDomain
  mem : ∀ s, s ∈ selected db limit requested ↔
    s ∈ A ∨ s ∈ listing (thread db last) (limit + 1) last

/-- What they are made of if there are no more than the limit. -/
structure Whole (db A : List DbStatus) (limit : ℕ) (requested last : DbStatus) : Prop
    extends Rows db A limit requested last where
  above : ∀ parent, parentOf db last = some parent → parent ∈ A
  below : ∀ s, s ∈ selected db limit requested ↔ ∃ n, Descends (thread db last) last n s

theorem exists_rows (hkeys : (db.map DbStatus.key).Nodup)
    (hseparated : Separated db requested.serverDomain) (hrequested : requested ∈ db) (limit : ℕ) :
    ∃ A last, Rows db A limit requested last := by
  have hseen : ∀ row ∈ [requested], row ∈ db ∧ row.serverDomain = requested.serverDomain := by
    intro row hrow
    obtain rfl := List.mem_singleton.1 hrow
    exact ⟨hrequested, rfl⟩
  have hclimbs := climbs_ancestors hkeys hseparated limit List.mem_cons_self hseen
  rw [List.map_cons, List.map_nil, ← startPath_eq] at hclimbs
  obtain ⟨last, hlast⟩ : ∃ last, (ancestors db limit (startPath requested.id) requested).getLast? =
      some last := by
    refine Option.isSome_iff_exists.1 (List.getLast?_isSome.2 fun hnil => ?_)
    have hhead := hclimbs.head
    rw [hnil] at hhead
    cases hhead
  have hroot : root db limit requested = last := by rw [root, hlast, Option.getD_some]
  obtain ⟨hlastdb, hlastserver⟩ := hclimbs.subset last (List.mem_of_getLast? hlast)
  have hdescendants : descendants db limit (startPath last.id) last =
      listing (thread db last) (limit + 1) last := by
    rw [startPath_eq]
    have hline : ∀ s ∈ [last], ∃ j ≤ 0, Descends (thread db last) last j s := by
      intro s hs
      obtain rfl := List.mem_singleton.1 hs
      exact ⟨0, le_rfl, .refl s⟩
    exact descendants_eq hkeys (hlastserver ▸ hseparated) hlastdb limit (.refl last) hline
      List.mem_cons_self
  refine ⟨_, last, ⟨hclimbs.chain, hlast⟩, hclimbs.head, hclimbs.nodup, ?_, hclimbs.subset,
    fun s => ?_⟩
  · refine (hclimbs.ends last hlast).imp_right fun h parent hparent => ?_
    rcases h parent hparent with hmem | hmem
    · rw [List.mem_singleton.1 hmem]
      exact List.mem_of_head? hclimbs.head
    · exact hmem
  · rw [selected, List.mem_dedup, List.mem_append, hroot, hdescendants]

theorem Rows.whole {A : List DbStatus} (h : Rows db A limit requested last)
    (hkeys : (db.map DbStatus.key).Nodup) (hlimit : (selected db limit requested).length ≤ limit) :
    Whole db A limit requested last := by
  have htree : Tree (thread db last) last := tree_thread hkeys.of_map
  have hlength : (listing (thread db last) (limit + 1) last).length ≤ limit := by
    have hnodup := htree.nodup_listing (n := limit + 1) (.refl last)
    exact (hnodup.subperm fun s hs => (h.mem s).2 (.inr hs)).length_le.trans hlimit
  refine ⟨h, h.ends.resolve_left fun hdeep => ?_, fun s => ?_⟩
  · have := (h.nodup.subperm fun s hs => (h.mem s).2 (.inl hs)).length_le
    omega
  · rw [h.mem]
    constructor
    · rintro (hs | hs)
      · exact h.line.descends h.nodup (fun s hs => (h.subset s hs).1) hs
      · obtain ⟨n, -, hn⟩ := mem_listing.1 hs
        exact ⟨n, hn⟩
    · rintro ⟨n, hn⟩
      have := mem_listing_of_length_le hlength hn
      exact .inr (mem_listing.2 ⟨n, by omega, hn⟩)

theorem Whole.connected {A : List DbStatus} (h : Whole db A limit requested last)
    (hP : ∀ s, s ∈ P ↔ s ∈ selected db limit requested) :
    Connected db P requested (listRoot db last) := by
  have hbelow : ∀ s, s ∈ P ↔ ∃ n, Descends (thread db last) last n s :=
    fun s => (hP s).trans (h.below s)
  have hin : ∀ s ∈ A, s ∈ P := fun s hs => (hP s).2 ((h.mem s).2 (.inl hs))
  have hlast : last ∈ A := List.mem_of_getLast? h.line.last
  obtain ⟨hlastdb, hlastserver⟩ := h.subset last hlast
  have hparents : ∀ s ∈ P, ∀ parent, parentOf db s = some parent → parent ∈ P := by
    intro s hs parent hparent
    obtain ⟨n, hn⟩ := (hbelow s).1 hs
    cases n with
    | zero =>
      obtain rfl := hn.eq_of_zero
      exact hin parent (h.above parent hparent)
    | succ n =>
      obtain ⟨above, habove, hs⟩ := hn.last
      rw [(mem_thread.1 hs).2.1] at hparent
      exact (hbelow parent).2 ⟨n, Option.some.inj hparent ▸ habove⟩
  have hroot : listRoot db last = last ∨ parentOf db last = some (listRoot db last) := by
    cases hparent : parentOf db last with
    | none => exact .inl (congrArg (·.getD last) hparent)
    | some parent => exact .inr (congrArg some (congrArg (·.getD last) hparent).symm)
  have hrootA : listRoot db last ∈ A := by
    rcases hroot with hroot | hroot
    · rwa [hroot]
    · exact h.above _ hroot
  refine ⟨fun s hs => ?_, hin _ (List.mem_of_head? h.head), hin _ hrootA, hparents, ?_, ?_, ?_⟩
  · obtain ⟨n, hn⟩ := (hbelow s).1 hs
    exact ⟨mem_of_descends hlastdb hn, (server_of_descends hn).trans hlastserver⟩
  · intro s hs c hc hparent
    by_cases heq : c = last
    · exact hin c (heq ▸ hlast)
    · obtain ⟨n, hn⟩ := (hbelow s).1 hs
      exact (hbelow c).2 ⟨n + 1, hn.snoc (mem_thread.2 ⟨hc, hparent, heq⟩)⟩
  · intro s hs
    obtain ⟨n, hn⟩ := (hbelow s).1 hs
    -- A branch that begins at the last ancestor begins again where it comes by the root.
    clear hs
    induction n generalizing s with
    | zero =>
      obtain rfl := hn.eq_of_zero
      rcases hroot with hroot | hroot
      · rw [hroot]
        exact ⟨0, .refl _⟩
      · by_cases heq : last = listRoot db last
        · rw [← heq]
          exact ⟨0, .refl _⟩
        · exact ⟨1, .step (mem_branches.2 ⟨hlastdb, hroot, heq⟩) (.refl _)⟩
    | succ n ih =>
      obtain ⟨above, habove, hs⟩ := hn.last
      obtain ⟨hsdb, hparent, -⟩ := mem_thread.1 hs
      by_cases heq : s = listRoot db last
      · exact ⟨0, heq ▸ .refl _⟩
      · obtain ⟨m, hm⟩ := ih above habove
        exact ⟨m + 1, hm.snoc (mem_branches.2 ⟨hsdb, hparent, heq⟩)⟩
  · rcases hroot with hroot | hroot
    · rw [hroot]
      cases hparent : parentOf db last with
      | none => exact .inl rfl
      | some parent =>
        have heq : listRoot db last = parent := congrArg (·.getD last) hparent
        exact .inr ⟨0, by
          show (parentOf db last).bind some = some last
          rw [hparent, Option.bind_fun_some, ← heq, hroot]⟩
    · obtain ⟨n, hn⟩ := h.line.reaches hrootA
      exact .inr ⟨n, by rw [ancestorAt_succ, hn, Option.bind_some, hroot]⟩

end Awayuki.Timeline.Thread
