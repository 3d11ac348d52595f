import Mathlib.Tactic
import Mathlib.Data.List.TakeWhile

/-!
# Agendas

Lists whose entries stand in the order of their times, a new entry behind those of its time.

* `put`: a new entry; `perm_put`, `Ordered.put`;
* `InTurn`: the live entries stand in a finer order;
* `InTurn.put`, `InTurn.restore`: when entries are put in their turn.
-/

namespace Agenda

variable {α : Type} {time : α → ℕ} {a b : α} {l : List α}

def put (time : α → ℕ) (a : α) (l : List α) : List α :=
  l.takeWhile (fun b => time b ≤ time a) ++ a :: l.dropWhile fun b => time b ≤ time a

theorem perm_put (a : α) (l : List α) : (put time a l).Perm (a :: l) := by
  unfold put
  refine List.perm_middle.trans (.cons a ?_)
  rw [List.takeWhile_append_dropWhile]

theorem mem_put : b ∈ put time a l ↔ b = a ∨ b ∈ l := by
  rw [(perm_put a l).mem_iff, List.mem_cons]

/-- A relation between the entries, when it holds between the new one and those around it. -/
theorem pairwise_put {S : α → α → Prop} (h : l.Pairwise S)
    (hbefore : ∀ b ∈ l.takeWhile (fun b => time b ≤ time a), S b a)
    (hafter : ∀ b ∈ l.dropWhile (fun b => time b ≤ time a), S a b) :
    (put time a l).Pairwise S := by
  have hsplit := List.takeWhile_append_dropWhile (p := fun b => decide (time b ≤ time a)) (l := l)
  rw [← hsplit, List.pairwise_append] at h
  obtain ⟨hstart, hrest, hcross⟩ := h
  unfold put
  rw [List.pairwise_append, List.pairwise_cons]
  refine ⟨hstart, ⟨hafter, hrest⟩, fun b hb c hc => ?_⟩
  rcases List.mem_cons.1 hc with rfl | hc
  · exact hbefore b hb
  · exact hcross b hb c hc

/-- The entries stand in the order of their times. -/
def Ordered (time : α → ℕ) (l : List α) : Prop := l.Pairwise fun a b => time a ≤ time b

theorem Ordered.lt_of_mem_dropWhile (h : Ordered time l) {limit : ℕ}
    (hb : b ∈ l.dropWhile fun b => time b ≤ limit) : limit < time b := by
  induction l with
  | nil => cases hb
  | cons c l ih =>
    obtain ⟨hc, hl⟩ := List.pairwise_cons.1 h
    rw [List.dropWhile_cons] at hb
    split_ifs at hb with hle
    · exact ih hl hb
    · have hlt : limit < time c := by simpa using hle
      rcases List.mem_cons.1 hb with rfl | hb
      · exact hlt
      · exact hlt.trans_le (hc b hb)

theorem le_of_mem_takeWhile {limit : ℕ} (hb : b ∈ l.takeWhile fun b => time b ≤ limit) :
    time b ≤ limit := by
  simpa using List.mem_takeWhile_imp hb

theorem Ordered.put (h : Ordered time l) (a : α) : Ordered time (put time a l) :=
  pairwise_put h (fun _ hb => le_of_mem_takeWhile hb) fun _ hb => (h.lt_of_mem_dropWhile hb).le

/-! ### Live entries -/

/-- The live entries stand in the order. -/
def InTurn (live : α → Prop) (R : α → α → Prop) (l : List α) : Prop :=
  l.Pairwise fun a b => live a → live b → R a b

variable {live : α → Prop} {R : α → α → Prop}

theorem InTurn.mono {live' : α → Prop} (h : InTurn live R l) (hlive : ∀ a, live' a → live a) :
    InTurn live' R l :=
  List.Pairwise.imp (fun h ha hb => h (hlive _ ha) (hlive _ hb)) h

theorem InTurn.put (h : InTurn live R l) (hordered : Ordered time l)
    (hbefore : ∀ b ∈ l, live b → time b ≤ time a → R b a)
    (hafter : ∀ b ∈ l, live b → time a < time b → R a b) : InTurn live R (put time a l) := by
  refine pairwise_put h (fun b hb hlive _ => ?_) fun b hb _ hlive => ?_
  · exact hbefore b ((List.takeWhile_prefix _).subset hb) hlive (le_of_mem_takeWhile hb)
  · exact hafter b ((List.dropWhile_suffix _).subset hb) hlive (hordered.lt_of_mem_dropWhile hb)

/-- Entries that had been taken out are put back in their turn, if none of those that have come
meanwhile has their time. -/
theorem InTurn.restore {due : List α} (h : InTurn live R l) (hordered : Ordered time l)
    (hdue : InTurn live R due) (hR : ∀ a b, time a < time b → R a b)
    (hcross : ∀ d ∈ due, ∀ b ∈ l, live d → live b → R b d ∨ time d < time b) :
    InTurn live R (due.foldl (fun l d => Agenda.put time d l) l) ∧
      Ordered time (due.foldl (fun l d => Agenda.put time d l) l) := by
  induction due generalizing l with
  | nil => exact ⟨h, hordered⟩
  | cons d due ih =>
    obtain ⟨hfirst, hdue⟩ := List.pairwise_cons.1 hdue
    by_cases hd : live d
    · have hput : InTurn live R (Agenda.put time d l) := by
        refine h.put hordered (fun b hb hlive hle => ?_) fun b _ _ hlt => hR d b hlt
        rcases hcross d List.mem_cons_self b hb hd hlive with hR | hlt
        · exact hR
        · exact absurd hle (not_le.2 hlt)
      refine ih hput (hordered.put d) hdue fun d' hd' b hb hlive' hlive => ?_
      rcases mem_put.1 hb with rfl | hb
      · exact .inl (hfirst d' hd' hd hlive')
      · exact hcross d' (List.mem_cons_of_mem _ hd') b hb hlive' hlive
    · have hput : InTurn live R (Agenda.put time d l) :=
        pairwise_put h (fun _ _ _ hlive => absurd hlive hd) fun _ _ hlive => absurd hlive hd
      refine ih hput (hordered.put d) hdue fun d' hd' b hb hlive' hlive => ?_
      rcases mem_put.1 hb with rfl | hb
      · exact absurd hlive hd
      · exact hcross d' (List.mem_cons_of_mem _ hd') b hb hlive' hlive

theorem perm_restore (due l : List α) :
    (due.foldl (fun l d => put time d l) l).Perm (due ++ l) := by
  induction due generalizing l with
  | nil => exact .refl l
  | cons d due ih =>
    refine (ih (put time d l)).trans (((perm_put d l).append_left due).trans ?_)
    exact List.perm_middle

end Agenda
