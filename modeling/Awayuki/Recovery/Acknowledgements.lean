import Awayuki.Recovery.Coordinator

/-!
# What the coordinator acknowledges

A write whose answer is lost, or that the native process refuses, may have changed what is stored
since the write that was completed last.  A request that is equal to that one is then skipped, and
its calls resolve.

* `Shape.step`: what every step keeps, whatever happens to the writes;
* `Held.step`: what a step keeps that takes nothing for stored that is not;
* `acksTrue_iff`: the acknowledgements of a run are true exactly if all its steps are such.
-/

namespace Awayuki.Recovery.Coordinator

variable {C V : Type} {drafts : Drafts C V} {json : Json V} {uuid : ℕ → Str} {w : World C V}

/-! ### The native process -/

variable {request : RecoveryWrite C} {generation : Str} {values : Values C}

theorem stored_of_checkpoint_ok {native : State V} {value : V} {blocked : Bool}
    (h : (native.checkpoint json value blocked generation).1 = .ok ()) :
    (native.checkpoint json value blocked generation).2.stored.checkpoint = json.saved value ∧
      (native.checkpoint json value blocked generation).2.stored.recoveryBlocked = blocked := by
  rcases checkpoint_cases json native value blocked generation with
    ⟨error, heq, -⟩ | ⟨-, error, heq⟩ | ⟨-, heq⟩
  · rw [heq] at h
    cases h
  · rw [heq] at h
    cases h
  · rw [heq]
    exact ⟨rfl, rfl⟩

theorem Carries.stores {flight : Flight} (h : Carries drafts flight values) {native : State V}
    (hanswered : Answered drafts json native flight) (hok : flight.answer = some (.ok ())) :
    Stores drafts json native values := by
  obtain ⟨hcheckpoint, hblocked⟩ := hanswered hok
  refine ⟨?_, hblocked.trans h.blocked.symm⟩
  rw [h.text, Option.map_some, hcheckpoint]

theorem carries_of_signature {flight : Flight}
    (h : signature drafts request = some flight.request) :
    Carries drafts flight request.toValues := by
  obtain ⟨text, htext, hflight⟩ := Option.map_eq_some_iff.1 h
  exact ⟨by rw [htext, ← hflight], by rw [← hflight]⟩

/-! ### The loop -/

theorem drain_none (h : w.pending = none) :
    w.drain drafts = { w with phase := .finishing true } := by
  rw [World.drain, h]

/-- The loop fails, skips the request, or sends it. -/
theorem drain_cases (h : w.pending = some request) :
    w.drain drafts = ({ w with pending := none } : World C V).fail ∨
    (∃ sent, signature drafts request = some sent ∧ w.lastCompletedSignature = some sent ∧
      w.drain drafts = { w with pending := none, phase := .finishing true }) ∨
    ∃ sent, signature drafts request = some sent ∧ w.drain drafts =
      { w with pending := none, phase := .writing, inFlight := w.inFlight ++ [⟨sent, none⟩] } := by
  cases hsent : signature drafts request with
  | none =>
    left
    rw [World.drain, h]
    simp only [hsent]
  | some sent =>
    right
    by_cases hlast : w.lastCompletedSignature = some sent
    · refine .inl ⟨sent, rfl, hlast, ?_⟩
      rw [World.drain, h]
      simp only [hsent]
      exact if_pos hlast
    · refine .inr ⟨sent, rfl, ?_⟩
      rw [World.drain, h]
      simp only [hsent]
      exact if_neg hlast

/-- The loop may go on: no write is on its way. -/
structure Resting (w : World C V) : Prop where
  ready : ∃ generation, w.handshake = .ready generation
  inFlight : w.inFlight = []
  pending : ∀ request, w.pending = some request → Last w request.toValues
  waiting : ∀ call ∈ w.waiting, call < w.calls.length

/-! ### What every step keeps -/

theorem Shape.of_idle (hphase : w.phase = .idle) (hpending : w.pending = none)
    (hinFlight : w.inFlight = []) (hwaiting : w.waiting = []) : Shape drafts json w where
  unready h := absurd hphase h
  idle _ := ⟨hpending, hinFlight, hwaiting⟩
  writing h := by
    rw [hphase] at h
    cases h
  finishing _ h := by
    rw [hphase] at h
    cases h
  awaited _ h := by
    rw [hphase] at h
    cases h
  pending _ h := by
    rw [hpending] at h
    cases h
  waiting call h := by
    rw [hwaiting] at h
    cases h

theorem Shape.of_finishing {fulfilled : Bool} (hphase : w.phase = .finishing fulfilled)
    (h : Resting w) (hfailed : fulfilled = false → w.waiting = [])
    (hawaited : fulfilled = true → w.pending ≠ none → w.calls.length - 1 ∈ w.waiting) :
    Shape drafts json w where
  unready _ := h.ready
  idle hidle := by
    rw [hphase] at hidle
    cases hidle
  writing hwriting := by
    rw [hphase] at hwriting
    cases hwriting
  finishing _ hfinishing := by
    rw [hphase] at hfinishing
    cases hfinishing
    exact ⟨h.inFlight, hfailed⟩
  awaited request hfinishing hpending _ := by
    rw [hphase] at hfinishing
    cases hfinishing
    exact hawaited rfl (by rw [hpending]; exact Option.some_ne_none request)
  pending := h.pending
  waiting := h.waiting

theorem Shape.of_writing {flight : Flight} (hphase : w.phase = .writing)
    (hready : ∃ generation, w.handshake = .ready generation) (hinFlight : w.inFlight = [flight])
    (hanswered : Answered drafts json w.native flight)
    (hcarries : w.pending = none → ∃ values, Last w values ∧ Carries drafts flight values)
    (hpending : ∀ request, w.pending = some request → Last w request.toValues)
    (hwaiting : ∀ call ∈ w.waiting, call < w.calls.length) : Shape drafts json w where
  unready _ := hready
  idle h := by
    rw [hphase] at h
    cases h
  writing _ := ⟨flight, hinFlight, hanswered, hcarries⟩
  finishing _ h := by
    rw [hphase] at h
    cases h
  awaited _ h := by
    rw [hphase] at h
    cases h
  pending := hpending
  waiting := hwaiting

theorem Resting.fail (h : Resting w) : Shape drafts json w.fail :=
  .of_finishing rfl ⟨h.ready, h.inFlight, h.pending, fun _ h => absurd h List.not_mem_nil⟩
    (fun _ => rfl) fun h => by cases h

theorem Resting.shape_drain (h : Resting w) : Shape drafts json (w.drain drafts) := by
  cases hpending : w.pending with
  | none =>
    rw [drain_none hpending]
    exact .of_finishing rfl ⟨h.ready, h.inFlight, h.pending, h.waiting⟩ (fun h => by cases h)
      fun _ hsome => absurd hpending hsome
  | some request =>
    have htaken : Resting ({ w with pending := none } : World C V) :=
      ⟨h.ready, h.inFlight, (fun _ h => by cases h), h.waiting⟩
    rcases drain_cases hpending with heq | ⟨sent, -, -, heq⟩ | ⟨sent, hsent, heq⟩
    · rw [heq]
      exact htaken.fail
    · rw [heq]
      exact .of_finishing rfl ⟨h.ready, h.inFlight, htaken.pending, h.waiting⟩ (fun h => by cases h)
        fun _ hsome => absurd rfl hsome
    · rw [heq]
      refine .of_writing rfl h.ready (by rw [h.inFlight]; rfl) (fun hok => by cases hok)
        (fun _ => ⟨request.toValues, h.pending request hpending, ?_⟩) htaken.pending h.waiting
      exact carries_of_signature hsent

/-! ### The calls -/

/-- What a call of `setBlocked` leaves for the loop. -/
def asked (w : World C V) (reason : Str) (blocked : Bool) (generation : Str) : World C V :=
  { w with
    blockers := w.block reason blocked
    calls := w.calls ++ [w.values reason blocked]
    pending := some { w.values reason blocked with generation }
    waiting := if w.phase = .finishing false then w.waiting else w.waiting ++ [w.calls.length] }

section

variable (reason : Str) (blocked : Bool)

theorem setBlocked_ready (h : w.handshake = .ready generation) :
    w.setBlocked drafts reason blocked =
      ((asked w reason blocked generation).flush drafts, []) := by
  unfold World.setBlocked
  split
  · next generation' hgeneration =>
    rw [h] at hgeneration
    cases hgeneration
    rfl
  · next hunready => exact absurd h (hunready generation)

theorem setBlocked_unready (h : ∀ generation, w.handshake ≠ .ready generation) :
    w.setBlocked drafts reason blocked =
      ({ w with blockers := w.block reason blocked, calls := w.calls ++ [w.values reason blocked] },
        [w.calls.length]) := by
  unfold World.setBlocked
  cases hhandshake : w.handshake with
  | ready generation => exact absurd hhandshake (h generation)
  | none => rfl
  | failed => rfl

theorem last_asked (generation : Str) : ∀ request,
    (asked w reason blocked generation).pending = some request →
      Last (asked w reason blocked generation) request.toValues := by
  intro request h
  cases h
  exact List.getLast?_concat

theorem waiting_asked (generation : Str) (h : ∀ call ∈ w.waiting, call < w.calls.length) :
    ∀ call ∈ (asked w reason blocked generation).waiting,
      call < (asked w reason blocked generation).calls.length := by
  have hlength : (asked w reason blocked generation).calls.length = w.calls.length + 1 :=
    List.length_append
  have hold : ∀ call ∈ w.waiting, call < w.calls.length + 1 :=
    fun call hcall => (h call hcall).trans (Nat.lt_succ_self _)
  intro call hcall
  rw [hlength]
  change call ∈ (if w.phase = .finishing false then _ else _) at hcall
  split_ifs at hcall
  · exact hold call hcall
  · rcases List.mem_append.1 hcall with hcall | hcall
    · exact hold call hcall
    · rw [List.mem_singleton.1 hcall]
      exact Nat.lt_succ_self _

theorem Shape.setBlocked (h : Shape drafts json w) :
    Shape drafts json (w.setBlocked drafts reason blocked).1 := by
  by_cases hready : ∃ generation, w.handshake = .ready generation
  · obtain ⟨generation, hgeneration⟩ := hready
    rw [setBlocked_ready reason blocked hgeneration]
    have hlast := last_asked (w := w) reason blocked generation
    have hwaiting := waiting_asked reason blocked generation h.waiting
    show Shape drafts json (if w.phase = .idle then _ else _)
    cases hphase : w.phase with
    | idle =>
      rw [if_pos rfl]
      exact Resting.shape_drain ⟨⟨generation, hgeneration⟩, (h.idle hphase).2.1, hlast, hwaiting⟩
    | writing =>
      rw [if_neg fun h => by cases h]
      obtain ⟨flight, hflight, hanswered, -⟩ := h.writing hphase
      exact .of_writing hphase ⟨generation, hgeneration⟩ hflight hanswered (fun h => by cases h)
        hlast hwaiting
    | finishing fulfilled =>
      rw [if_neg fun h => by cases h]
      obtain ⟨hflight, hfailed⟩ := h.finishing fulfilled hphase
      refine .of_finishing hphase ⟨⟨generation, hgeneration⟩, hflight, hlast, hwaiting⟩ ?_ ?_
      · rintro rfl
        exact (if_pos hphase).trans (hfailed rfl)
      · rintro rfl -
        have happend : (asked w reason blocked generation).waiting =
            w.waiting ++ [w.calls.length] := if_neg (by rw [hphase]; simp)
        have hcalls : (asked w reason blocked generation).calls.length = w.calls.length + 1 :=
          List.length_append
        rw [happend, hcalls]
        exact List.mem_append_right _ List.mem_cons_self
  · have hunready := not_exists.1 hready
    have hidle : w.phase = .idle := by
      by_contra hphase
      exact hready (h.unready hphase)
    rw [setBlocked_unready reason blocked hunready]
    obtain ⟨hpending, hinFlight, hwaiting⟩ := h.idle hidle
    exact .of_idle hidle hpending hinFlight hwaiting

end

theorem Shape.of_draft (h : Shape drafts json w) (checkpoint : Option C) (blockers : List Str) :
    Shape drafts json { w with checkpoint, blockers } :=
  ⟨h.unready, h.idle, h.writing, h.finishing, h.awaited, h.pending, h.waiting⟩

theorem call_eq {action : Action C} {w' : World C V} {reason : Str} {blocked : Bool}
    (h : w.call drafts action = some (w', reason, blocked)) :
    ∃ checkpoint blockers, w' = { w with checkpoint, blockers } := by
  cases action with
  | setBlocked reason blocked =>
    cases h
    exact ⟨w.checkpoint, w.blockers, rfl⟩
  | save checkpoint blocked =>
    simp only [World.call] at h
    split at h
    · split at h
      · cases h
        exact ⟨w.checkpoint, w.blockers, rfl⟩
      · cases h
        exact ⟨_, _, rfl⟩
    · cases h
  | restore accountAcct answered => cases h
  | perform => cases h
  | respond answered => cases h
  | finalize => cases h

/-! ### The steps -/

theorem Shape.forAccount (h : Shape drafts json w) (accountAcct : Option Str) :
    Shape drafts json (w.forAccount drafts accountAcct) := by
  unfold World.forAccount
  split_ifs
  · exact h
  · exact h.of_draft none w.blockers

theorem Shape.restore (h : Shape drafts json w) (accountAcct : Option Str) (answered : Bool) :
    Shape drafts json (w.restore drafts uuid accountAcct answered) := by
  unfold World.restore
  split
  · exact h
  · exact h.forAccount accountAcct
  · next hhandshake =>
    have hidle : w.phase = .idle := by
      by_contra hphase
      obtain ⟨generation, hready⟩ := h.unready hphase
      rw [hhandshake] at hready
      cases hready
    obtain ⟨hpending, hinFlight, hwaiting⟩ := h.idle hidle
    have hnew : ∀ native handshake checkpoint,
        Shape drafts json { w with native, handshake, checkpoint } :=
      fun _ _ _ => .of_idle hidle hpending hinFlight hwaiting
    cases w.native.restore uuid with
    | mk answer native =>
      cases answer with
      | error error => exact hnew _ _ _
      | ok restored =>
        show Shape drafts json (if _ then _ else _)
        split_ifs
        · exact Shape.forAccount (hnew _ _ _) accountAcct
        · exact hnew _ _ _

/-- The write that is on its way, when its promise settles. -/
theorem Shape.flight (h : Shape drafts json w) {flight : Flight} {flights : List Flight}
    (hinFlight : w.inFlight = flight :: flights) : w.phase = .writing ∧ flights = [] ∧
      Answered drafts json w.native flight ∧
      (w.pending = none → ∃ values, Last w values ∧ Carries drafts flight values) := by
  cases hphase : w.phase with
  | idle =>
    rw [(h.idle hphase).2.1] at hinFlight
    cases hinFlight
  | finishing fulfilled =>
    rw [(h.finishing fulfilled hphase).1] at hinFlight
    cases hinFlight
  | writing =>
    obtain ⟨flight', hflight, hanswered, hcarries⟩ := h.writing hphase
    rw [hinFlight] at hflight
    obtain ⟨rfl, rfl⟩ := List.cons_eq_cons.1 hflight
    exact ⟨rfl, rfl, hanswered, hcarries⟩

theorem Shape.perform (h : Shape drafts json w) :
    Shape drafts json (w.perform drafts json) := by
  unfold World.perform
  split
  · next request flights hinFlight =>
    obtain ⟨hphase, rfl, -, hcarries⟩ := h.flight hinFlight
    show Shape drafts json { w with
      native := (w.native.checkpoint json _ _ _).2
      inFlight := [⟨request, some (w.native.checkpoint json _ _ _).1⟩] }
    refine .of_writing hphase (h.unready (by rw [hphase]; simp)) rfl (fun hok => ?_) ?_ h.pending
      h.waiting
    · exact stored_of_checkpoint_ok (Option.some.inj hok)
    · intro hnone
      obtain ⟨values, hlast, htext, hblocked⟩ := hcarries hnone
      exact ⟨values, hlast, htext, hblocked⟩
  · exact h

theorem Shape.respond (h : Shape drafts json w) (answered : Bool) :
    Shape drafts json (w.respond drafts answered) := by
  unfold World.respond
  cases hinFlight : w.inFlight with
  | nil => exact h
  | cons flight flights =>
    obtain ⟨hphase, rfl, -, -⟩ := h.flight hinFlight
    have hready := h.unready (by rw [hphase]; simp)
    have hfail : Shape drafts json ({ w with inFlight := [] } : World C V).fail :=
      Resting.fail ⟨hready, rfl, h.pending, h.waiting⟩
    cases answered with
    | false => exact hfail
    | true =>
      dsimp only
      rw [if_pos rfl]
      cases flight.answer with
      | none => exact h
      | some answer =>
        cases answer with
        | error error => exact hfail
        | ok answer => exact Resting.shape_drain ⟨hready, rfl, h.pending, h.waiting⟩

theorem Shape.finalize (h : Shape drafts json w) :
    Shape drafts json (w.finalize drafts).1 := by
  unfold World.finalize
  cases hphase : w.phase with
  | idle => exact h
  | writing => exact h
  | finishing fulfilled =>
    obtain ⟨hinFlight, -⟩ := h.finishing fulfilled hphase
    show Shape drafts json (Prod.fst (if _ then _ else _))
    cases hpending : w.pending with
    | none => exact .of_idle rfl rfl hinFlight rfl
    | some request =>
      exact Resting.shape_drain ⟨h.unready (by rw [hphase]; simp), hinFlight, h.pending, h.waiting⟩

theorem Shape.next (h : Shape drafts json w) (action : Action C) :
    Shape drafts json (next drafts json uuid w action) := by
  unfold Coordinator.next step
  cases hcall : w.call drafts action with
  | some call =>
    obtain ⟨w', reason, blocked⟩ := call
    obtain ⟨checkpoint, blockers, rfl⟩ := call_eq hcall
    exact (h.of_draft checkpoint blockers).setBlocked reason blocked
  | none =>
    cases action with
    | save checkpoint blocked => exact h
    | setBlocked reason blocked => cases hcall
    | restore accountAcct answered => exact h.restore accountAcct answered
    | perform => exact h.perform
    | respond answered => exact h.respond answered
    | finalize => exact h.finalize

/-- One write is on its way at most. -/
theorem Shape.length_inFlight (h : Shape drafts json w) : w.inFlight.length ≤ 1 := by
  cases hphase : w.phase with
  | idle => rw [(h.idle hphase).2.1]; exact Nat.zero_le 1
  | finishing fulfilled => rw [(h.finishing fulfilled hphase).1]; exact Nat.zero_le 1
  | writing =>
    obtain ⟨flight, hflight, -⟩ := h.writing hphase
    rw [hflight]
    exact le_rfl

/-! ### What is taken for stored -/

section

variable {action : Action C} {w' : World C V} {reason : Str} {blocked : Bool}
  (hcall : w.call drafts action = some (w', reason, blocked))

include hcall

theorem taken_of_unready (h : ∀ generation, w'.handshake ≠ .ready generation) :
    takenForStored drafts w action = some (w'.values reason blocked) := by
  simp only [takenForStored, hcall]

theorem taken_of_ready (h : w'.handshake = .ready generation) : takenForStored drafts w action =
      if w'.phase = .idle ∧ w'.lastCompletedSignature.isSome ∧
          signature drafts { w'.values reason blocked with generation } = w'.lastCompletedSignature
      then some (w'.values reason blocked) else none := by
  simp only [takenForStored, hcall]
  split
  · next generation' hready =>
    rw [h] at hready
    cases hready
    rfl
  · next hunready => exact absurd h (hunready generation)

theorem next_call :
    step drafts json uuid w action = w'.setBlocked drafts reason blocked := by
  simp only [step, hcall]

end

theorem taken_of_finalize {fulfilled : Bool} (hphase : w.phase = .finishing fulfilled)
    (hpending : w.pending = some request) : takenForStored drafts w .finalize =
      if w.waiting ≠ [] ∧ w.lastCompletedSignature.isSome ∧
          signature drafts request = w.lastCompletedSignature
      then some request.toValues else none := by
  simp only [takenForStored, World.call, hphase, hpending]

theorem held_of_phase (h : w.phase ≠ .finishing true) : Held drafts json w :=
  fun hphase => absurd hphase h

/-- A loop that skips a request holds if it is stored already. -/
theorem held_drain (hlast : ∀ request, w.pending = some request → Last w request.toValues)
    (hnone : w.pending = none → w.waiting ≠ [] →
      ∃ values, Last w values ∧ Stores drafts json w.native values)
    (hsame : ∀ request sent, w.pending = some request → signature drafts request = some sent →
      w.lastCompletedSignature = some sent → w.waiting ≠ [] →
        Stores drafts json w.native request.toValues) : Held drafts json (w.drain drafts) := by
  cases hpending : w.pending with
  | none =>
    rw [drain_none hpending]
    exact fun _ _ hwaiting => hnone hpending hwaiting
  | some request =>
    rcases drain_cases hpending with heq | ⟨sent, hsent, hcompleted, heq⟩ |
      ⟨sent, -, heq⟩
    · rw [heq]
      exact held_of_phase (by simp [World.fail])
    · rw [heq]
      exact fun _ _ hwaiting => ⟨request.toValues, hlast request hpending,
        hsame request sent hpending hsent hcompleted hwaiting⟩
    · rw [heq]
      exact held_of_phase (by simp)

theorem Held.call {action : Action C} {w' : World C V} {reason : Str} {blocked : Bool}
    (hshape : Shape drafts json w') (hnative : w'.native = w.native)
    (hcall : w.call drafts action = some (w', reason, blocked))
    (hintact : Intact drafts json w action) :
    Held drafts json (w'.setBlocked drafts reason blocked).1 := by
  by_cases hready : ∃ generation, w'.handshake = .ready generation
  · obtain ⟨generation, hgeneration⟩ := hready
    rw [setBlocked_ready reason blocked hgeneration]
    show Held drafts json (if w'.phase = .idle then _ else _)
    by_cases hphase : w'.phase = .idle
    · rw [if_pos hphase]
      refine held_drain (last_asked reason blocked generation) (fun h => by cases h) ?_
      intro request sent hpending hsent hcompleted _
      cases hpending
      show Stores drafts json w'.native _
      rw [hnative]
      refine hintact _ ?_
      rw [taken_of_ready hcall hgeneration, if_pos]
      exact ⟨hphase, by rw [show w'.lastCompletedSignature = some sent from hcompleted]; rfl,
        hsent.trans hcompleted.symm⟩
    · rw [if_neg hphase]
      exact fun _ hpending => by cases hpending
  · have hunready := not_exists.1 hready
    have hidle : w'.phase = .idle := by
      by_contra hphase
      exact hready (hshape.unready hphase)
    rw [setBlocked_unready reason blocked hunready]
    exact held_of_phase (by rw [hidle]; simp)

theorem phase_restore (accountAcct : Option Str) (answered : Bool) :
    (w.restore drafts uuid accountAcct answered).phase = w.phase := by
  have hforAccount : ∀ w : World C V, (w.forAccount drafts accountAcct).phase = w.phase := by
    intro w
    unfold World.forAccount
    split_ifs
    · rfl
    · rfl
  unfold World.restore
  split
  · rfl
  · exact hforAccount w
  · cases w.native.restore uuid with
    | mk answer native =>
      cases answer with
      | error error => rfl
      | ok restored =>
        show World.phase (if _ then _ else _) = w.phase
        split_ifs
        · exact hforAccount _
        · rfl

theorem Held.restore (hheld : Held drafts json w) (h : Shape drafts json w)
    (accountAcct : Option Str) (answered : Bool) :
    Held drafts json (w.restore drafts uuid accountAcct answered) := by
  by_cases hphase : w.phase = .finishing true
  · obtain ⟨generation, hready⟩ := h.unready (by rw [hphase]; simp)
    have heq : w.restore drafts uuid accountAcct answered = w.forAccount drafts accountAcct := by
      rw [World.restore, hready]
    rw [heq]
    unfold World.forAccount
    split_ifs
    · exact hheld
    · exact hheld
  · exact held_of_phase (by rwa [phase_restore])

theorem Held.perform (hheld : Held drafts json w) (h : Shape drafts json w) :
    Held drafts json (w.perform drafts json) := by
  unfold World.perform
  split
  · next request flights hinFlight =>
    have hphase := (h.flight hinFlight).1
    refine held_of_phase ?_
    show w.phase ≠ _
    rw [hphase]
    simp
  · exact hheld

theorem Held.respond (hheld : Held drafts json w) (h : Shape drafts json w) (answered : Bool) :
    Held drafts json (w.respond drafts answered) := by
  unfold World.respond
  cases hinFlight : w.inFlight with
  | nil => exact hheld
  | cons flight flights =>
    obtain ⟨-, rfl, hanswered, hcarries⟩ := h.flight hinFlight
    have hfail : Held drafts json ({ w with inFlight := [] } : World C V).fail :=
      held_of_phase (by simp [World.fail])
    cases answered with
    | false => exact hfail
    | true =>
      dsimp only
      rw [if_pos rfl]
      cases hanswer : flight.answer with
      | none => exact hheld
      | some answer =>
        cases answer with
        | error error => exact hfail
        | ok answer =>
          refine held_drain h.pending (fun hnone _ => ?_)
            fun request sent _ hsent hcompleted _ => ?_
          · obtain ⟨values, hlast, hvalues⟩ := hcarries hnone
            exact ⟨values, hlast, hvalues.stores hanswered hanswer⟩
          · -- A request that is skipped here is the one that has just been written.
            have hsame : signature drafts request = some flight.request :=
              hsent.trans hcompleted.symm
            exact (carries_of_signature hsame).stores hanswered hanswer

theorem Held.finalize (hheld : Held drafts json w) (h : Shape drafts json w)
    (hintact : Intact drafts json w .finalize) : Held drafts json (w.finalize drafts).1 := by
  unfold World.finalize
  split
  · next fulfilled hphase =>
    cases hpending : w.pending with
    | none => exact held_of_phase (by simp)
    | some request =>
      refine held_drain h.pending (fun hnone => ?_)
        fun request' sent hsome hsent hcompleted hne => ?_
      · rw [hpending] at hnone
        cases hnone
      · rw [hpending] at hsome
        cases hsome
        refine hintact _ ?_
        rw [taken_of_finalize hphase hpending, if_pos]
        exact ⟨hne, by rw [hcompleted]; rfl, hsent.trans hcompleted.symm⟩
  · exact hheld

/-- A step that takes nothing for stored that is not keeps what it acknowledges. -/
theorem Held.next (hheld : Held drafts json w) (h : Shape drafts json w) {action : Action C}
    (hintact : Intact drafts json w action) :
    Held drafts json (next drafts json uuid w action) := by
  unfold Coordinator.next
  cases hcall : w.call drafts action with
  | some call =>
    obtain ⟨w', reason, blocked⟩ := call
    rw [next_call hcall]
    obtain ⟨checkpoint, blockers, rfl⟩ := call_eq hcall
    exact Held.call (w := w) (h.of_draft checkpoint blockers) rfl hcall hintact
  | none =>
    simp only [step, hcall]
    cases action with
    | save checkpoint blocked => exact hheld
    | setBlocked reason blocked => cases hcall
    | restore accountAcct answered => exact hheld.restore h accountAcct answered
    | perform => exact hheld.perform h
    | respond answered => exact hheld.respond h answered
    | finalize => exact hheld.finalize h hintact

/-! ### What is acknowledged -/

theorem acknowledged_of_last (h : Shape drafts json w) (hlast : Last w values)
    (hstores : Stores drafts json w.native values) {call : ℕ} (hcall : call ∈ w.waiting) :
    Acknowledged drafts json w call := by
  refine ⟨values, ?_, hstores⟩
  obtain ⟨before, hcalls⟩ := List.getLast?_eq_some_iff.1 hlast
  have hlt := h.waiting call hcall
  rw [hcalls, List.length_append, List.length_singleton] at hlt
  rw [hcalls, List.drop_append_of_le_length (by omega)]
  exact List.mem_append_right _ List.mem_cons_self

theorem acksTrue_finalize (hheld : Held drafts json w) (h : Shape drafts json w) :
    AcksTrue drafts json uuid w .finalize := by
  have hstep : step drafts json uuid w .finalize = w.finalize drafts := rfl
  intro call hcall
  unfold Coordinator.next
  rw [hstep] at hcall ⊢
  unfold World.finalize at hcall ⊢
  split at hcall
  · next fulfilled hphase =>
    cases hpending : w.pending with
    | some request =>
      rw [hpending] at hcall
      cases hcall
    | none =>
      rw [hpending] at hcall
      have hne : w.waiting ≠ [] := List.ne_nil_of_mem hcall
      cases fulfilled with
      | false => exact absurd ((h.finishing false hphase).2 rfl) hne
      | true =>
        obtain ⟨values, hlast, hstores⟩ := hheld hphase hpending hne
        obtain ⟨values', hmem, hstores'⟩ := acknowledged_of_last h hlast hstores hcall
        exact ⟨values', hmem, hstores'⟩
  · cases hcall

theorem acksTrue_of_intact (hheld : Held drafts json w) (h : Shape drafts json w)
    {action : Action C} (hintact : Intact drafts json w action) :
    AcksTrue drafts json uuid w action := by
  cases hcall : w.call drafts action with
  | some call =>
    obtain ⟨w', reason, blocked⟩ := call
    intro index hindex
    unfold Coordinator.next
    rw [next_call hcall] at hindex ⊢
    by_cases hready : ∃ generation, w'.handshake = .ready generation
    · obtain ⟨generation, hgeneration⟩ := hready
      rw [setBlocked_ready reason blocked hgeneration] at hindex
      cases hindex
    · have hunready := not_exists.1 hready
      have hstores := hintact _ (taken_of_unready hcall hunready)
      rw [setBlocked_unready reason blocked hunready] at hindex ⊢
      obtain rfl := List.mem_singleton.1 hindex
      obtain ⟨checkpoint, blockers, rfl⟩ := call_eq hcall
      refine ⟨_, ?_, hstores⟩
      simp
  | none =>
    have hnil : action ≠ .finalize → (step drafts json uuid w action).2 = [] := by
      intro hne
      simp only [step, hcall]
      cases action with
      | finalize => exact absurd rfl hne
      | save checkpoint blocked => rfl
      | setBlocked reason blocked => rfl
      | restore accountAcct answered => rfl
      | perform => rfl
      | respond answered => rfl
    by_cases hfinalize : action = .finalize
    · rw [hfinalize]
      exact acksTrue_finalize hheld h
    · intro index hindex
      rw [hnil hfinalize] at hindex
      cases hindex

theorem drain_same {sent : Signature} (h : w.pending = some request)
    (hsent : signature drafts request = some sent)
    (hcompleted : w.lastCompletedSignature = some sent) :
    w.drain drafts = { w with pending := none, phase := .finishing true } := by
  rw [World.drain, h]
  simp only [hsent]
  exact if_pos hcompleted

/-- What waits for a loop that has ended well is acknowledged by the finalizer. -/
theorem acknowledged_of_closed (hphase : w.phase = .finishing true) (hpending : w.pending = none)
    (hclosed : AcksTrue drafts json uuid w .finalize) {call : ℕ} (hcall : call ∈ w.waiting) :
    Acknowledged drafts json w call := by
  have hstep : step drafts json uuid w .finalize =
      ({ w with phase := .idle, waiting := [] }, w.waiting) := by
    show w.finalize drafts = _
    unfold World.finalize
    split
    · next fulfilled _ => exact if_neg (by rw [hpending]; simp)
    · next hnot => exact absurd hphase (hnot true)
  have hacks := hclosed call (by rw [hstep]; exact hcall)
  unfold Coordinator.next at hacks
  rw [hstep] at hacks
  exact hacks

theorem stores_of_acknowledged_last (hlast : Last w values)
    (h : Acknowledged drafts json w (w.calls.length - 1)) : Stores drafts json w.native values := by
  obtain ⟨values', hmem, hstores⟩ := h
  obtain ⟨before, hcalls⟩ := List.getLast?_eq_some_iff.1 hlast
  have hdrop : w.calls.drop (w.calls.length - 1) = [values] := by
    rw [hcalls, List.length_append, List.length_singleton, Nat.add_sub_cancel, List.drop_left]
  rw [hdrop] at hmem
  rwa [← List.mem_singleton.1 hmem]

/-- What is taken for stored and is not is acknowledged, at once or when the loop has ended. -/
theorem intact_of_acksTrue (h : Shape drafts json w) {action : Action C}
    (hacks : AcksTrue drafts json uuid w action)
    (hclosed : AcksTrue drafts json uuid (next drafts json uuid w action) .finalize) :
    Intact drafts json w action := by
  intro values htaken
  cases hcall : w.call drafts action with
  | some call =>
    obtain ⟨w', reason, blocked⟩ := call
    obtain ⟨checkpoint, blockers, hw'⟩ := call_eq hcall
    have hnative : w'.native = w.native := by rw [hw']
    rw [← hnative]
    unfold AcksTrue Coordinator.next at hacks
    unfold Coordinator.next at hclosed
    rw [next_call hcall] at hacks hclosed
    by_cases hready : ∃ generation, w'.handshake = .ready generation
    · obtain ⟨generation, hgeneration⟩ := hready
      rw [taken_of_ready hcall hgeneration] at htaken
      split_ifs at htaken with hsame
      cases htaken
      obtain ⟨hidle, hsome, hsame⟩ := hsame
      obtain ⟨sent, hcompleted⟩ := Option.isSome_iff_exists.1 hsome
      have hdrain : (asked w' reason blocked generation).drain drafts =
          { asked w' reason blocked generation with pending := none, phase := .finishing true } :=
        drain_same rfl (hsame.trans hcompleted) hcompleted
      have hflush : (asked w' reason blocked generation).flush drafts =
          (asked w' reason blocked generation).drain drafts := if_pos hidle
      rw [setBlocked_ready reason blocked hgeneration, hflush, hdrain] at hclosed
      have hmem : w'.calls.length ∈ (asked w' reason blocked generation).waiting := by
        have happend : (asked w' reason blocked generation).waiting =
            w'.waiting ++ [w'.calls.length] := if_neg (by rw [hidle]; simp)
        rw [happend]
        exact List.mem_append_right _ List.mem_cons_self
      have hacknowledged := acknowledged_of_closed rfl rfl hclosed hmem
      have hlength : (asked w' reason blocked generation).calls.length - 1 = w'.calls.length := by
        show (w'.calls ++ [w'.values reason blocked]).length - 1 = w'.calls.length
        rw [List.length_append]
        rfl
      rw [← hlength] at hacknowledged
      have hlast : Last ({ asked w' reason blocked generation with
          pending := none, phase := .finishing true } : World C V) (w'.values reason blocked) :=
        List.getLast?_concat
      have hstores := stores_of_acknowledged_last hlast hacknowledged
      exact hstores
    · have hunready := not_exists.1 hready
      rw [taken_of_unready hcall hunready] at htaken
      cases htaken
      rw [setBlocked_unready reason blocked hunready] at hacks
      obtain ⟨values', hmem, hstores⟩ := hacks w'.calls.length List.mem_cons_self
      rw [List.drop_left] at hmem
      rwa [← List.mem_singleton.1 hmem]
  | none =>
    -- Only the finalizer takes a request up without a call.
    have hfinalize : ∃ request fulfilled, action = .finalize ∧ w.pending = some request ∧
        w.phase = .finishing fulfilled := by
      simp only [takenForStored, hcall] at htaken
      split at htaken
      · next request fulfilled hpending hphase => exact ⟨request, fulfilled, rfl, hpending, hphase⟩
      · cases htaken
    obtain ⟨request, fulfilled, rfl, hpending, hphase⟩ := hfinalize
    rw [taken_of_finalize hphase hpending] at htaken
    split_ifs at htaken with hsame
    cases htaken
    obtain ⟨hwaiting, hsome, hsame⟩ := hsame
    obtain ⟨sent, hcompleted⟩ := Option.isSome_iff_exists.1 hsome
    obtain rfl : fulfilled = true := by
      cases fulfilled with
      | true => rfl
      | false => exact absurd ((h.finishing false hphase).2 rfl) hwaiting
    have hnext : next drafts json uuid w .finalize =
        { w with pending := none, phase := .finishing true } := by
      rw [← drain_same hpending (hsame.trans hcompleted) hcompleted]
      show (w.finalize drafts).1 = _
      unfold World.finalize
      split
      · exact congrArg Prod.fst (if_pos (by rw [hpending]; rfl))
      · next hnot => exact absurd hphase (hnot true)
    rw [hnext] at hclosed
    have hacknowledged := acknowledged_of_closed rfl rfl hclosed
      (h.awaited request hphase hpending hwaiting)
    exact stores_of_acknowledged_last (h.pending request hpending) hacknowledged

/-! ### Whole runs -/

/-- What a run keeps whose steps take nothing for stored that is not. -/
structure Sound (drafts : Drafts C V) (json : Json V) (w : World C V) : Prop where
  shape : Shape drafts json w
  held : Held drafts json w

theorem shape_start (native : State V) : Shape drafts json (World.start native : World C V) :=
  .of_idle rfl rfl rfl rfl

/-- In every run one write is on its way at most; and the acknowledgements are true, whenever the
loop is let end, exactly if every step takes nothing for stored that is not. -/
theorem acksTrue_iff (drafts : Drafts C V) (json : Json V) (uuid : ℕ → Str) (native : State V)
    (actions : List (Action C)) :
    (actions.foldl (next drafts json uuid) (World.start native)).inFlight.length ≤ 1 ∧
    ((∀ before, before <+: actions → Guarded.Throughout (next drafts json uuid)
        (AcksTrue drafts json uuid) (World.start native) (before ++ [.finalize])) ↔
      Guarded.Throughout (next drafts json uuid) (Intact drafts json) (World.start native)
        actions) := by
  have hstart : Sound drafts json (World.start native : World C V) :=
    ⟨shape_start native, held_of_phase (by simp [World.start])⟩
  have hshape : Shape drafts json (actions.foldl (next drafts json uuid) (World.start native)) :=
    Guarded.invariant_foldl (fun w action (h : Shape drafts json w) => h.next action) hstart.shape
      actions
  refine ⟨hshape.length_inFlight, Guarded.shows_iff_throughout .finalize
    (fun w action (h : Sound drafts json w) hintact => ?_) (fun w action h hintact => ?_)
    (fun w h => ?_) (fun w action h hacks hclosed => ?_) hstart actions⟩
  · exact ⟨h.shape.next action, h.held.next h.shape hintact⟩
  · exact acksTrue_of_intact h.held h.shape hintact
  · exact acksTrue_finalize h.held h.shape
  · exact intact_of_acksTrue h.shape hacks hclosed

/-! ### A lost answer -/

/-- Drafts that are texts. -/
def sampleDrafts : Drafts Str Str := ⟨fun _ => "alice".toList, some, id, id⟩

def sampleJson : Json Str := ⟨fun text => text = "null".toList, fun text => some text.length⟩

def sampleUuid (n : ℕ) : Str := List.replicate (n + 1) 'a'

/-- A submission blocks recovery and ends; the answer to the second write is lost.  The next
submission then blocks recovery again. -/
def lostAnswer : List (Action Str) :=
  [.restore none true, .setBlocked "submit".toList true, .perform, .respond true, .finalize,
    .setBlocked "submit".toList false, .perform, .respond false, .finalize,
    .setBlocked "submit".toList true]

/-- It is told that recovery is blocked, and the native process allows it. -/
theorem not_acksTrue_lostAnswer : ¬ Guarded.Throughout (next sampleDrafts sampleJson sampleUuid)
    (AcksTrue sampleDrafts sampleJson sampleUuid) (World.start State.default)
    (lostAnswer ++ [.finalize]) := by
  intro h
  have hlast := (Guarded.throughout_append.1 h).2.1 2 (by decide)
  revert hlast
  unfold Acknowledged Stores
  decide

example : ((lostAnswer ++ [Action.finalize]).foldl (next sampleDrafts sampleJson sampleUuid)
    (World.start State.default)).native.recoveryAllowed = true := by decide

end Awayuki.Recovery.Coordinator
