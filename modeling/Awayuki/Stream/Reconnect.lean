import Mathlib.Tactic
import Awayuki.Text

/-!
# Streams: attempts to reconnect

The slots of `services/reconnect_budget.rs`, which the streams of all accounts reserve before they
connect. Instants and durations are in milliseconds.

* `reservations_staggered`: attempts at one server are a gap apart, and wait for nothing else.
-/

namespace Awayuki.Stream

def serverReconnectGap : ℕ := 250

structure ReconnectBudget where
  gap : ℕ
  nextSlots : Str → Option ℕ

namespace ReconnectBudget

def new (gap : ℕ) : ReconnectBudget := ⟨gap, fun _ => none⟩

/-- `reserve_at`, with the delay that it returns. -/
def reserveAt (budget : ReconnectBudget) (server : Str) (now : ℕ) : ℕ × ReconnectBudget :=
  let slots := fun s => (budget.nextSlots s).filter (now < ·)
  let slot := max ((slots server).getD now) now
  (slot - now,
    { budget with nextSlots := Function.update slots server (some (slot + budget.gap)) })

/-- A call of `wait_for_server_slot`, and when it returns. -/
structure Reservation where
  server : Str
  now : ℕ
  slot : ℕ
  deriving DecidableEq

/-- The calls of `wait_for_server_slot` in the order in which they come to hold the lock, each with
the instant that it took before. -/
def reservations (budget : ReconnectBudget) : List (Str × ℕ) → List Reservation
  | [] => []
  | (server, now) :: calls =>
    let reserved := budget.reserveAt server now
    ⟨server, now, now + reserved.1⟩ :: reserved.2.reservations calls

variable (budget : ReconnectBudget) {calls : List (Str × ℕ)} {server : Str}
  {bound latest lag now : ℕ}

theorem reserveAt_slot : now + (budget.reserveAt server now).1 =
    max (((budget.nextSlots server).filter (now < ·)).getD now) now := by
  simp only [reserveAt]
  omega

theorem nextSlots_reserveAt (other : Str) :
    (budget.reserveAt server now).2.nextSlots other =
      if other = server then some (now + (budget.reserveAt server now).1 + budget.gap)
      else (budget.nextSlots other).filter (now < ·) := by
  rw [reserveAt_slot]
  simp only [reserveAt, Function.update_apply]

/-- A slot that is dropped has passed, and the latest call stands for it. -/
theorem le_getD_filter (now : ℕ) {next : Option ℕ} (h : bound ≤ next.getD latest) :
    bound ≤ (next.filter (now < ·)).getD (max latest now) := by
  cases next with
  | none => exact le_max_of_le_left h
  | some next =>
    by_cases hnext : now < next
    · simpa [Option.filter, hnext] using h
    · simp only [Option.getD_some] at h
      simp only [Option.filter, hnext, decide_false, Bool.false_eq_true, if_false, Option.getD_none]
      omega

theorem le_slot (hbound : bound ≤ (budget.nextSlots server).getD latest) (hlag : lag ≤ budget.gap)
    (hlatest : ∀ call ∈ calls, latest ≤ call.2 + lag)
    (hcalls : calls.Pairwise fun a b => a.2 ≤ b.2 + lag) :
    ∀ r ∈ budget.reservations calls, r.server = server → bound ≤ r.slot + lag := by
  induction calls generalizing budget latest with
  | nil => exact fun r hr => absurd hr List.not_mem_nil
  | cons call calls ih =>
    obtain ⟨other, now⟩ := call
    obtain ⟨hfirst, hcalls⟩ := List.pairwise_cons.1 hcalls
    have hnow : latest ≤ now + lag := hlatest _ List.mem_cons_self
    have hretained := le_getD_filter now hbound
    have hslot : other = server → bound ≤ now + (budget.reserveAt other now).1 + lag := by
      rintro rfl
      rw [reserveAt_slot]
      cases hnext : (budget.nextSlots other).filter (now < ·) with
      | none =>
        rw [hnext, Option.getD_none] at hretained
        omega
      | some next =>
        rw [hnext, Option.getD_some] at hretained
        simp only [Option.getD_some]
        omega
    intro r hr
    rcases List.mem_cons.1 hr with rfl | hr
    · exact hslot
    · have hlatest : ∀ call ∈ calls, max latest now ≤ call.2 + lag := fun call hcall =>
        max_le (hlatest call (List.mem_cons_of_mem _ hcall)) (hfirst call hcall)
      refine ih (budget.reserveAt other now).2 ?_ hlag hlatest hcalls r hr
      rw [nextSlots_reserveAt]
      split_ifs with hserver
      · have := hslot hserver.symm
        rw [Option.getD_some]
        omega
      · exact hretained

/-- An attempt waits for the slot that the budget has for its server, or a gap after another. -/
theorem needed {before after : List Reservation} {r : Reservation}
    (h : budget.reservations calls = before ++ r :: after) :
    r.slot = r.now ∨ r.now < r.slot ∧ (budget.nextSlots r.server = some r.slot ∨
      ∃ e ∈ before, e.server = r.server ∧ r.slot = e.slot + budget.gap) := by
  induction calls generalizing budget before with
  | nil => simp [reservations] at h
  | cons call calls ih =>
    obtain ⟨server, now⟩ := call
    cases before with
    | nil =>
      obtain ⟨rfl, -⟩ := List.cons_eq_cons.1 h
      dsimp only
      rw [reserveAt_slot]
      cases hnext : (budget.nextSlots server).filter (now < ·) with
      | none => exact .inl (max_self now)
      | some next =>
        obtain ⟨hsome, hlt⟩ := Option.filter_eq_some_iff.1 hnext
        have hslot : max next now = next := max_eq_left (of_decide_eq_true hlt).le
        rw [Option.getD_some, hslot]
        exact .inr ⟨of_decide_eq_true hlt, .inl hsome⟩
    | cons first before =>
      obtain ⟨rfl, htail⟩ := List.cons_eq_cons.1 h
      refine (ih _ htail).imp_right (And.imp_right ?_)
      rintro (hnext | ⟨e, he, hgap⟩)
      · rw [nextSlots_reserveAt] at hnext
        split_ifs at hnext with hserver
        · exact .inr ⟨_, List.mem_cons_self, hserver.symm, (Option.some_inj.1 hnext).symm⟩
        · exact .inl (Option.filter_eq_some_iff.1 hnext).1
      · exact .inr ⟨e, List.mem_cons_of_mem _ he, hgap⟩

theorem staggered (hlag : lag ≤ budget.gap) (hcalls : calls.Pairwise fun a b => a.2 ≤ b.2 + lag) :
    (budget.reservations calls).Pairwise fun e r =>
      e.server = r.server → e.slot + budget.gap ≤ r.slot + lag := by
  induction calls generalizing budget with
  | nil => exact .nil
  | cons call calls ih =>
    obtain ⟨hfirst, hcalls⟩ := List.pairwise_cons.1 hcalls
    refine .cons (fun r hr hserver => ?_) (ih (budget.reserveAt call.1 call.2).2 hlag hcalls)
    refine le_slot (budget.reserveAt call.1 call.2).2 ?_ hlag hfirst hcalls r hr hserver.symm
    rw [nextSlots_reserveAt, if_pos rfl, Option.getD_some]

/-- Where no call comes to hold the lock more than a gap after one that took a later instant, the
attempts at a server are a gap apart up to that lag, and an attempt that waits does so for a gap. -/
theorem reservations_staggered (gap : ℕ) (hlag : lag ≤ gap)
    (hcalls : calls.Pairwise fun a b => a.2 ≤ b.2 + lag) :
    ((new gap).reservations calls).Pairwise
        (fun e r => e.server = r.server → e.slot + gap ≤ r.slot + lag) ∧
      ∀ before r after, (new gap).reservations calls = before ++ r :: after → r.slot = r.now ∨
        r.now < r.slot ∧ ∃ e ∈ before, e.server = r.server ∧ r.slot = e.slot + gap := by
  refine ⟨staggered (new gap) hlag hcalls, fun before r after h => (needed _ h).imp_right ?_⟩
  rintro ⟨hwaits, hnext | hearlier⟩
  · cases hnext
  · exact ⟨hwaits, hearlier⟩

/-- Two accounts of one server, and between them a call for another server that came to hold the
lock late. -/
theorem reservations_staggered_late :
    ((new serverReconnectGap).reservations [(['a'], 5), (['b'], 3), (['a'], 5)]).Pairwise
        (fun e r => e.server = r.server → e.slot + 250 ≤ r.slot + 2) ∧
      (new serverReconnectGap).reservations [(['a'], 5), (['b'], 3), (['a'], 5)] =
        [⟨['a'], 5, 5⟩, ⟨['b'], 3, 3⟩, ⟨['a'], 5, 255⟩] :=
  ⟨(reservations_staggered serverReconnectGap (by decide) (by decide)).1, by decide⟩

end ReconnectBudget

end Awayuki.Stream
