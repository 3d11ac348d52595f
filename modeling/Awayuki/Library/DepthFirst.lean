import Mathlib.Tactic
import Mathlib.Data.List.Nodup

/-!
# Depth-first listings

Every key has a list of children.  The listing of a key has the key itself, and then the listings of
its children one after the other.

* `listing`: the keys down to a depth;
* `Descends`: a key is so many steps below another;
* `Tree`: no key is the child of two, and the root is the child of none;
* `Tree.nodup_listing`, `Tree.parent_sublist`, `Tree.siblings_sublist`: what the listing of a part
  of a tree is like;
* `mem_listing_of_length_le`: a listing that is shorter than deep is complete.
-/

namespace DepthFirst

variable {κ : Type*} (children : κ → List κ)

/-- The key and what is below it, as deep as so many levels. -/
def listing : ℕ → κ → List κ
  | 0, _ => []
  | n + 1, k => k :: (children k).flatMap (listing n)

/-- The second key is so many steps below the first. -/
inductive Descends : κ → ℕ → κ → Prop
  | refl (k : κ) : Descends k 0 k
  | step {k c d : κ} {n : ℕ} (child : c ∈ children k) (rest : Descends c n d) :
      Descends k (n + 1) d

variable {children} {children' : κ → List κ} {root k k' c d p s t : κ} {n n' m m' l : ℕ}

/-! ### Steps -/

theorem Descends.trans (h : Descends children k n c) (h' : Descends children c m d) :
    Descends children k (n + m) d := by
  induction h with
  | refl => rwa [Nat.zero_add]
  | @step _ _ _ n child rest ih =>
    rw [Nat.add_right_comm]
    exact .step child (ih h')

theorem Descends.snoc (h : Descends children k n p) (hchild : c ∈ children p) :
    Descends children k (n + 1) c := h.trans (.step hchild (.refl c))

theorem Descends.last (h : Descends children k (n + 1) d) :
    ∃ p, Descends children k n p ∧ d ∈ children p := by
  induction n generalizing k with
  | zero =>
    cases h with
    | step child rest =>
      cases rest
      exact ⟨k, .refl k, child⟩
  | succ n ih =>
    cases h with
    | step child rest =>
      obtain ⟨p, hp, hd⟩ := ih rest
      exact ⟨p, .step child hp, hd⟩

theorem Descends.eq_of_zero (h : Descends children k 0 d) : k = d := by
  cases h
  rfl

theorem Descends.mono (hsub : ∀ k, children k ⊆ children' k) (h : Descends children k n d) :
    Descends children' k n d := by
  induction h with
  | refl => exact .refl _
  | step child rest ih => exact .step (hsub _ child) ih

/-- There is something at every level above. -/
theorem Descends.above (h : Descends children k n d) (hle : m ≤ n) :
    ∃ c, Descends children k m c := by
  induction n generalizing d with
  | zero =>
    obtain rfl := Nat.le_zero.1 hle
    exact ⟨d, h⟩
  | succ n ih =>
    rcases Nat.le_succ_iff.1 hle with hle | rfl
    · obtain ⟨p, hp, -⟩ := h.last
      exact ih hp hle
    · exact ⟨d, h⟩

theorem mem_listing : d ∈ listing children n k ↔ ∃ m < n, Descends children k m d := by
  induction n generalizing k with
  | zero => simp [listing]
  | succ n ih =>
    rw [listing, List.mem_cons, List.mem_flatMap]
    constructor
    · rintro (rfl | ⟨c, hc, hd⟩)
      · exact ⟨0, n.succ_pos, .refl d⟩
      · obtain ⟨m, hm, h⟩ := ih.1 hd
        exact ⟨m + 1, Nat.succ_lt_succ hm, .step hc h⟩
    · rintro ⟨m, hm, h⟩
      cases h with
      | refl => exact .inl rfl
      | step child rest => exact .inr ⟨_, child, ih.2 ⟨_, Nat.lt_of_succ_lt_succ hm, rest⟩⟩

theorem mem_listing_self (hn : 0 < n) : k ∈ listing children n k := mem_listing.2 ⟨0, hn, .refl k⟩

/-! ### The depth of a listing -/

theorem length_listing_le :
    (listing children n k).length ≤ (listing children (n + 1) k).length := by
  induction n generalizing k with
  | zero => exact Nat.zero_le _
  | succ n ih =>
    rw [listing, listing, List.length_cons, List.length_cons, List.length_flatMap,
      List.length_flatMap]
    exact Nat.succ_le_succ (List.sum_le_sum fun c _ => ih)

/-- A listing has something at every level. -/
theorem lt_length_listing (h : Descends children k n d) :
    n < (listing children (n + 1) k).length := by
  induction h with
  | refl k => exact Nat.succ_pos _
  | @step k c d n child rest ih =>
    have hle : (listing children (n + 1) c).length ≤
        ((children k).flatMap (listing children (n + 1))).length :=
      (List.sublist_flatten_of_mem (List.mem_map_of_mem child)).length_le
    rw [listing, List.length_cons]
    omega

/-- A listing that is shorter than deep has all that is below the key. -/
theorem mem_listing_of_length_le (hlength : (listing children (n + 1) k).length ≤ n)
    (h : Descends children k m d) : m < n := by
  by_contra hle
  obtain ⟨c, hc⟩ := h.above (not_lt.1 hle)
  have := lt_length_listing hc
  omega

/-- The listings of a key are the same as soon as they have all that is below it. -/
theorem listing_eq (hn : ∀ {m d}, Descends children k m d → m < n)
    (hn' : ∀ {m d}, Descends children k m d → m < n') :
    listing children n k = listing children n' k := by
  induction n generalizing n' k with
  | zero => exact absurd (hn (.refl k)) (Nat.not_lt_zero 0)
  | succ n ih =>
    cases n' with
    | zero => exact absurd (hn' (.refl k)) (Nat.not_lt_zero 0)
    | succ n' =>
      rw [listing, listing]
      refine congrArg (k :: ·) (List.flatMap_congr fun c hc => ?_)
      exact ih (fun h => Nat.lt_of_succ_lt_succ (hn (.step hc h)))
        fun h => Nat.lt_of_succ_lt_succ (hn' (.step hc h))

theorem listing_congr (h : ∀ {m d}, Descends children k m d → children d = children' d) :
    listing children n k = listing children' n k := by
  induction n generalizing k with
  | zero => rfl
  | succ n ih =>
    rw [listing, listing, ← h (.refl k)]
    exact congrArg (k :: ·) (List.flatMap_congr fun c hc => ih fun hd => h (.step hc hd))

/-! ### Trees -/

/-- What is below the root is a tree. -/
structure Tree (children : κ → List κ) (root : κ) : Prop where
  nodup : ∀ k, (children k).Nodup
  parent : ∀ {k k' c}, c ∈ children k → c ∈ children k' → k = k'
  root : ∀ k, root ∉ children k

namespace Tree

/-- A key has one level. -/
theorem level (h : Tree children root) (hn : Descends children root n d)
    (hm : Descends children root m d) : n = m := by
  induction n generalizing m d with
  | zero =>
    obtain rfl := hn.eq_of_zero
    cases m with
    | zero => rfl
    | succ m =>
      obtain ⟨p, -, hp⟩ := hm.last
      exact absurd hp (h.root p)
  | succ n ih =>
    obtain ⟨p, hp, hd⟩ := hn.last
    cases m with
    | zero =>
      obtain rfl := hm.eq_of_zero
      exact absurd hd (h.root p)
    | succ m =>
      obtain ⟨p', hp', hd'⟩ := hm.last
      obtain rfl := h.parent hd hd'
      rw [ih hp hp']

/-- What is so many steps above a key is one key. -/
theorem above (h : Tree children root) (hn : Descends children k n d)
    (hn' : Descends children k' n d) : k = k' := by
  induction n generalizing d with
  | zero => exact hn.eq_of_zero.trans hn'.eq_of_zero.symm
  | succ n ih =>
    obtain ⟨p, hp, hd⟩ := hn.last
    obtain ⟨p', hp', hd'⟩ := hn'.last
    obtain rfl := h.parent hd hd'
    exact ih hp hp'

/-- What is below two children of one key does not exist. -/
theorem eq_of_descends (h : Tree children root) (hk : Descends children root l k)
    (hc : c ∈ children k) (hs : s ∈ children k) (hn : Descends children c n d)
    (hm : Descends children s m d) : c = s := by
  have hlevel := h.level ((hk.snoc hc).trans hn) ((hk.snoc hs).trans hm)
  obtain rfl : n = m := by omega
  exact h.above hn hm

theorem nodup_listing (h : Tree children root) (hk : Descends children root l k) :
    (listing children n k).Nodup := by
  induction n generalizing l k with
  | zero => exact List.nodup_nil
  | succ n ih =>
    rw [listing, List.nodup_cons, List.nodup_flatMap]
    refine ⟨fun hmem => ?_, fun c hc => ih (hk.snoc hc), (h.nodup k).imp_of_mem ?_⟩
    · obtain ⟨c, hc, hkc⟩ := List.mem_flatMap.1 hmem
      obtain ⟨m, -, hm⟩ := mem_listing.1 hkc
      have := h.level hk ((hk.snoc hc).trans hm)
      omega
    · intro c s hc hs hne d hdc hds
      obtain ⟨m, -, hm⟩ := mem_listing.1 hdc
      obtain ⟨m', -, hm'⟩ := mem_listing.1 hds
      exact hne (h.eq_of_descends hk hc hs hm hm')

/-- What is listed below a child is listed with it. -/
theorem mem_listing_child (h : Tree children root) (hk : Descends children root l k)
    (hc : c ∈ children k) (hd : d ∈ listing children (n + 1) k) (hm : Descends children c m d) :
    d ∈ listing children n c := by
  obtain ⟨m', hlt, hm'⟩ := mem_listing.1 hd
  have := h.level (hk.trans hm') ((hk.snoc hc).trans hm)
  exact mem_listing.2 ⟨m, by omega, hm⟩

/-- A key is listed before its children. -/
theorem parent_sublist (h : Tree children root) (hk : Descends children root l k)
    (hp : p ∈ listing children n k) (hc : c ∈ listing children n k) (hchild : c ∈ children p) :
    [p, c].Sublist (listing children n k) := by
  induction n generalizing l k with
  | zero => cases hp
  | succ n ih =>
    obtain ⟨m, hlt, hm⟩ := mem_listing.1 hp
    cases hm with
    | refl =>
      have hne : c ≠ p := by
        rintro rfl
        have := h.level hk (hk.snoc hchild)
        omega
      rw [listing, List.cons_sublist_cons, List.singleton_sublist]
      exact (List.mem_cons.1 hc).resolve_left hne
    | @step _ c' _ m child rest =>
      have hp' := h.mem_listing_child hk child hp rest
      have hc' := h.mem_listing_child hk child hc (rest.snoc hchild)
      refine (ih (hk.snoc child) hp' hc').trans (.trans ?_ (List.sublist_cons_self _ _))
      exact List.sublist_flatten_of_mem (List.mem_map_of_mem child)

theorem pair_sublist_flatMap {f : κ → List κ} {keys : List κ} (h : [s, t].Sublist keys)
    (hs : s ∈ f s) (ht : t ∈ f t) : [s, t].Sublist (keys.flatMap f) := by
  induction keys with
  | nil => cases h
  | cons k keys ih =>
    rw [List.flatMap_cons]
    cases h with
    | cons _ h => exact (ih h).trans (List.sublist_append_right _ _)
    | cons_cons _ h =>
      refine (List.singleton_sublist.2 hs).append (List.singleton_sublist.2 ?_)
      exact List.mem_flatMap.2 ⟨t, List.singleton_sublist.1 h, ht⟩

/-- Children are listed in their order. -/
theorem siblings_sublist (h : Tree children root) (hk : Descends children root l k)
    (hp : p ∈ listing children n k) (hs : s ∈ listing children n k)
    (ht : t ∈ listing children n k) (hst : [s, t].Sublist (children p)) :
    [s, t].Sublist (listing children n k) := by
  induction n generalizing l k with
  | zero => cases hp
  | succ n ih =>
    have hsc : s ∈ children p := hst.subset List.mem_cons_self
    have htc : t ∈ children p := hst.subset (List.mem_cons_of_mem _ List.mem_cons_self)
    obtain ⟨m, hlt, hm⟩ := mem_listing.1 hp
    cases hm with
    | refl =>
      refine .trans ?_ (List.sublist_cons_self _ _)
      exact pair_sublist_flatMap hst (h.mem_listing_child hk hsc hs (.refl s))
        (h.mem_listing_child hk htc ht (.refl t))
    | @step _ c' _ m child rest =>
      have hp' := h.mem_listing_child hk child hp rest
      have hs' := h.mem_listing_child hk child hs (rest.snoc hsc)
      have ht' := h.mem_listing_child hk child ht (rest.snoc htc)
      refine (ih (hk.snoc child) hp' hs' ht').trans (.trans ?_ (List.sublist_cons_self _ _))
      exact List.sublist_flatten_of_mem (List.mem_map_of_mem child)

end Tree

end DepthFirst
