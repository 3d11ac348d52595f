import Mathlib.Tactic
import Mathlib.Data.List.Basic

/-!
# Pages after a cursor

A query is asked again and again, each time from where the last page ended.

* `filter_after`, `filter_suffix`: in a list that descends, what comes after an element, or below
  any bound;
* `continues_iff`: a page goes on where the last one ended, or the fault is seen;
* `Chain`: the pages of a query, up to an empty one;
* `Chain.flatten`, `exists_chain`: they are all there is, once.
-/

namespace Cursor

variable {α γ κ : Type} {entries : List α} {key : α → κ} {place : ℕ}

/-- What is less than an element of a list that descends comes after it. -/
theorem filter_after [LinearOrder κ] {before after : List α} {x : α}
    (h : (before ++ x :: after).Pairwise fun a b => key b < key a) :
    (before ++ x :: after).filter (fun a => key a < key x) = after := by
  obtain ⟨-, hafter, hbefore⟩ := List.pairwise_append.1 h
  rw [List.filter_append, List.filter_cons_of_neg (by simp), List.filter_eq_nil_iff.2,
    List.filter_eq_self.2, List.nil_append]
  · intro a ha
    exact decide_eq_true (List.rel_of_pairwise_cons hafter ha)
  · intro a ha
    have hlt := hbefore a ha x List.mem_cons_self
    simpa using hlt.le

/-- What is less than a bound is at the end of a list that descends. -/
theorem filter_suffix [LinearOrder κ] (h : entries.Pairwise fun a b => key b < key a) (bound : κ) :
    entries.filter (fun a => key a < bound) <:+ entries := by
  induction entries with
  | nil => exact List.suffix_rfl
  | cons a entries ih =>
    by_cases ha : key a < bound
    · have hall : ∀ b ∈ a :: entries, decide (key b < bound) = true := by
        intro b hb
        rcases List.mem_cons.1 hb with rfl | hb
        · exact decide_eq_true ha
        · exact decide_eq_true ((List.rel_of_pairwise_cons h hb).trans ha)
      rw [List.filter_eq_self.2 hall]
    · rw [List.filter_cons_of_neg (by simpa using ha)]
      exact (ih h.of_cons).trans (List.suffix_cons a entries)

/-- A filter leaves what is after a place if it parts the list there. -/
theorem filter_eq_drop_iff {f : α → Bool} : entries.filter f = entries.drop place ↔
      (∀ a ∈ entries.take place, f a = false) ∧ ∀ a ∈ entries.drop place, f a = true := by
  have hsplit : entries.filter f =
      (entries.take place).filter f ++ (entries.drop place).filter f := by
    rw [← List.filter_append, List.take_append_drop]
  constructor
  · intro h
    have hafter : ∀ a ∈ entries.drop place, f a = true := by
      intro a ha
      rw [← h] at ha
      exact List.of_mem_filter ha
    rw [hsplit, List.filter_eq_self.2 hafter, List.append_left_eq_self,
      List.filter_eq_nil_iff] at h
    exact ⟨fun a ha => by simpa using h a ha, hafter⟩
  · rintro ⟨hbefore, hafter⟩
    rw [hsplit, List.filter_eq_self.2 hafter, List.append_left_eq_self, List.filter_eq_nil_iff]
    intro a ha
    rw [hbefore a ha]
    exact Bool.false_ne_true

/-- In a list without repetition, a page taken from what is after some place goes on from another
place only if they are the same; an empty page goes on only from the end. -/
theorem continues_iff {rest : List α} (hnodup : entries.Nodup) (hrest : rest <:+ entries) {size : ℕ}
    (hsize : 0 < size) (hplace : place ≤ entries.length) :
    (entries.take place ++ rest.take size <+: entries ∧
      (rest.take size = [] → entries.take place = entries)) ↔ rest = entries.drop place := by
  constructor
  · rintro ⟨hbegin, hend⟩
    obtain ⟨before, hbefore⟩ := hrest
    have hdrop : rest = entries.drop before.length := by
      rw [← hbefore, List.drop_left]
    by_cases hempty : rest.take size = []
    · have hnil : rest = [] := by
        rcases List.take_eq_nil_iff.1 hempty with hzero | hnil
        · omega
        · exact hnil
      rw [hnil, eq_comm, List.drop_eq_nil_iff]
      exact (List.take_eq_self_iff _).1 (hend hempty)
    · have hlt : place < (entries.take place ++ rest.take size).length := by
        have hpos := List.length_pos_iff.2 hempty
        rw [List.length_append, List.length_take]
        omega
      have hin : place < entries.length := hlt.trans_le hbegin.length_le
      have hat : before.length < entries.length := by
        by_contra hge
        rw [List.drop_eq_nil_of_le (by omega)] at hdrop
        exact hempty (by rw [hdrop, List.take_nil])
      have hplaced : entries[before.length]? = entries[place]? := by
        obtain ⟨tail, htail⟩ := hbegin
        have hlength : (entries.take place).length = place := List.length_take_of_le hplace
        calc entries[before.length]? = rest[0]? := by
              rw [hdrop, List.getElem?_drop, Nat.add_zero]
          _ = (rest.take size)[0]? := (List.getElem?_take_of_lt hsize).symm
          _ = (entries.take place ++ rest.take size)[place]? := by
              rw [List.getElem?_append_right hlength.le, hlength, Nat.sub_self]
          _ = (entries.take place ++ rest.take size ++ tail)[place]? :=
              (List.getElem?_append_left hlt).symm
          _ = entries[place]? := by rw [htail]
      rw [hdrop, (List.getElem?_inj hat hnodup).1 hplaced]
  · rintro rfl
    refine ⟨?_, fun hempty => ?_⟩
    · rw [← List.take_add]
      exact List.take_prefix _ _
    · rcases List.take_eq_nil_iff.1 hempty with hzero | hnil
      · omega
      · exact (List.take_eq_self_iff _).2 (List.drop_eq_nil_iff.1 hnil)

/-- The pages that a query gives, each asked for at the last element of the one before. -/
inductive Chain (ask : γ → Option (List α)) (next : α → γ) : γ → List (List α) → Prop
  | done {c : γ} (h : ask c = some []) : Chain ask next c []
  | turn {c : γ} {page : List α} {last : α} {pages : List (List α)} (h : ask c = some page)
      (hlast : page.getLast? = some last) (rest : Chain ask next (next last) pages) :
      Chain ask next c (page :: pages)

/-- At an element of what is left, what comes after it is left. -/
def Advances (next : α → γ) (left : γ → List α) : Prop :=
  ∀ c before x after, left c = before ++ x :: after → left (next x) = after

variable {ask : γ → Option (List α)} {next : α → γ} {left : γ → List α} {limit : ℕ} {c : γ}

/-- Skipping some at first changes nothing later. -/
theorem Advances.drop {skip : γ → ℕ} (h : Advances next left)
    (hskip : ∀ c, ∀ x ∈ left c, skip (next x) = 0) :
    Advances next fun c => (left c).drop (skip c) := by
  intro c before x after hleft
  dsimp only at hleft ⊢
  have hall : left c = ((left c).take (skip c) ++ before) ++ x :: after := by
    rw [List.append_assoc, ← hleft, List.take_append_drop]
  have hx : x ∈ left c := by
    rw [hall]
    simp
  rw [hskip c x hx, List.drop_zero]
  exact h c _ x after hall

/-- After a page the rest is left. -/
theorem Advances.left_next (hadvances : Advances next left) {last : α}
    (hlast : ((left c).take limit).getLast? = some last) :
    left (next last) = (left c).drop limit := by
  obtain ⟨before, hbefore⟩ := List.getLast?_eq_some_iff.1 hlast
  refine hadvances c before last _ ?_
  calc left c = (left c).take limit ++ (left c).drop limit := (List.take_append_drop _ _).symm
    _ = before ++ last :: (left c).drop limit := by rw [hbefore, List.append_assoc]; rfl

theorem Chain.flatten (hlimit : 0 < limit) (hadvances : Advances next left)
    (hask : ∀ c page, ask c = some page → page = (left c).take limit) {pages : List (List α)}
    (h : Chain ask next c pages) : pages.flatten = left c := by
  induction h with
  | @done c h =>
    have hnil := hask c [] h
    rw [eq_comm, List.take_eq_nil_iff] at hnil
    exact (hnil.resolve_left (by omega)).symm
  | @turn c page last pages h hlast rest ih =>
    obtain rfl := hask c page h
    rw [List.flatten_cons, ih, hadvances.left_next hlast, List.take_append_drop]

/-- If the query returns whenever it is asked, there are such pages. -/
theorem exists_chain (hlimit : 0 < limit) (hadvances : Advances next left)
    (hask : ∀ c page, ask c = some page → page = (left c).take limit)
    (hreturns : ∀ c, (ask c).isSome = true) : ∃ pages, Chain ask next c pages := by
  induction hlength : (left c).length using Nat.strong_induction_on generalizing c with
  | _ n ih =>
    obtain ⟨page, hpage⟩ := Option.isSome_iff_exists.1 (hreturns c)
    have heq := hask c page hpage
    cases hlast : page.getLast? with
    | none =>
      rw [List.getLast?_eq_none_iff] at hlast
      exact ⟨[], .done (hlast ▸ hpage)⟩
    | some last =>
      have hnext : (left (next last)).length < n := by
        rw [heq] at hlast
        rw [hadvances.left_next hlast, List.length_drop, hlength]
        have hpos : (left c).length ≠ 0 := fun hzero => by
          simp [List.length_eq_zero_iff.1 hzero] at hlast
        omega
      obtain ⟨pages, hpages⟩ := ih _ hnext rfl
      exact ⟨page :: pages, .turn hpage hlast hpages⟩

end Cursor
