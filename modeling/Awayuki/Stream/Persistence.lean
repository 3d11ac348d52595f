import Awayuki.Library.Runs
import Awayuki.Stream.MicroBatch

/-!
# The queue of batches that are written

`enqueue_persistence_batch` and `start_persistence_worker` of `services/streaming_service.rs`: the
streams of an account put their batches into one bounded queue, and one worker writes them.  A
stream that finds the queue full drops its batch and sets a flag; the worker asks for a snapshot
when it has emptied the queue and finds the flag set.

* `State.step`: the streams and the worker, one atomic step each;
* `Announced`: no batch has been dropped since the last `Resync`;
* `Lost`: the worker is about to find the flag clear while a stream has yet to set it;
* `announced_iff_never_lost`: what is dropped is announced as long as that does not happen.
-/

namespace Awayuki.Persistence

open MicroBatch Runs

def PERSISTENCE_QUEUE_CAPACITY : ℕ := 64

/-! ### The parties -/

structure PersistenceBatch (α : Type) where
  events : List (ProcessedEvent α)
  streamType : StreamType

/-- Does writing an event change the cache? -/
def changesCache {α : Type} : ProcessedEvent α → Bool
  | .update _ | .statusUpdate _ | .delete _ => true
  | .notification notification => notification.status.isSome
  | .resync => false

/-- Where the worker is in its loop. -/
inductive Worker (α : Type)
  | waiting
  | persisting (batch : PersistenceBatch α)
  | failed (batch : PersistenceBatch α)
  | committed (batch : PersistenceBatch α)
  | testing
  | swapping
  | resyncing
  | stopped

inductive TrySend
  | ok | full | closed
  deriving DecidableEq

/-- The queue, the worker, the flag, and the streams that have not been able to send and have not
set the flag yet. -/
structure State (ι α : Type) where
  queue : List (PersistenceBatch α)
  worker : Worker α
  lagged : Bool
  announcing : Finset ι
  generation : ℕ

inductive Action (ι α : Type)
  /-- `sender.try_send(batch)` of a stream -/
  | trySend (stream : ι) (batch : PersistenceBatch α) (result : TrySend)
  /-- `lagged.swap(true)`, or `lagged.store(true)` when the queue is closed -/
  | setLagged (stream : ι)
  /-- `receiver.recv()` -/
  | receive
  /-- `persist_event_batch`, with its result -/
  | persist (persisted : Bool)
  /-- `lagged.store(true)` after a write that failed -/
  | storeLagged
  /-- `CacheCommitted`, if the cache has changed -/
  | commit (alive : Bool)
  /-- `receiver.is_empty()` -/
  | testEmpty
  /-- `lagged.swap(false)` -/
  | swapLagged
  /-- `clock.resync()` and the `Resync`; is there anyone to receive it? -/
  | sendResync (alive : Bool)

variable {ι α : Type}

def State.start : State ι α := ⟨[], .waiting, false, ∅, 1⟩

/-- The worker drops its end of the queue when it stops. -/
def State.trySend (s : State ι α) : TrySend :=
  match s.worker with
  | .stopped => .closed
  | _ => if s.queue.length < PERSISTENCE_QUEUE_CAPACITY then .ok else .full

section Step

variable [DecidableEq ι]

/-- `try_send`: the batch is in the queue, or the stream has to set the flag. -/
def State.sent (s : State ι α) (stream : ι) (batch : PersistenceBatch α) : TrySend → State ι α
  | .ok => { s with queue := s.queue ++ [batch] }
  | .full | .closed => { s with announcing := insert stream s.announcing }

def State.step (s : State ι α) : Action ι α → Option (State ι α)
  | .trySend stream batch result =>
    if stream ∉ s.announcing ∧ result = s.trySend then some (s.sent stream batch result) else none
  | .setLagged stream =>
    if stream ∈ s.announcing then
      some { s with lagged := true, announcing := s.announcing.erase stream }
    else none
  | .receive =>
    match s.worker, s.queue with
    | .waiting, batch :: queue => some { s with queue := queue, worker := .persisting batch }
    | _, _ => none
  | .persist persisted =>
    match s.worker with
    | .persisting batch =>
      some { s with worker := if persisted then .committed batch else .failed batch }
    | _ => none
  | .storeLagged =>
    match s.worker with
    | .failed batch => some { s with lagged := true, worker := .persisting batch }
    | _ => none
  | .commit alive =>
    match s.worker with
    | .committed batch =>
      some { s with
        worker := if batch.events.any changesCache && !alive then .stopped else .testing }
    | _ => none
  | .testEmpty =>
    match s.worker with
    | .testing => some { s with worker := if s.queue.isEmpty then .swapping else .waiting }
    | _ => none
  | .swapLagged =>
    match s.worker with
    | .swapping =>
      some { s with lagged := false, worker := if s.lagged then .resyncing else .waiting }
    | _ => none
  | .sendResync alive =>
    match s.worker with
    | .resyncing =>
      some { s with
        generation := s.generation + 1
        worker := if alive then .waiting else .stopped }
    | _ => none

/-- The histories of the queue. -/
abbrev Reaches (history : List (Action ι α)) (s : State ι α) : Prop :=
  Run (fun s action t => State.step s action = some t) .start history s

end Step

/-! ### What is announced -/

def Action.drops : Action ι α → Bool
  | .trySend _ _ .full => true
  | _ => false

def Action.resyncs : Action ι α → Bool
  | .sendResync true => true
  | _ => false

/-- Every batch that was dropped was dropped before the last `Resync`. -/
def Announced (history : List (Action ι α)) : Prop :=
  Outstanding Action.drops Action.resyncs history = false

/-- Nothing is under way. -/
structure Quiescent (s : State ι α) : Prop where
  queue : s.queue = []
  worker : s.worker = .waiting
  announcing : s.announcing = ∅

section Lost

variable [DecidableEq ι]

def Action.dropsOf (stream : ι) : Action ι α → Bool
  | .trySend stream' _ .full => stream' = stream
  | _ => false

def Action.settles (stream : ι) : Action ι α → Bool
  | .setLagged stream' => stream' = stream
  | .sendResync true => true
  | _ => false

/-- A stream is between its two steps, and there has been no `Resync` since the first. -/
def Unannounced (stream : ι) (history : List (Action ι α)) : Prop :=
  Outstanding (Action.dropsOf stream) (Action.settles stream) history = true

/-- The queue is empty and the flag is clear, but a stream has yet to set it. -/
structure Lost (history : List (Action ι α)) (s : State ι α) : Prop where
  queue : s.queue = []
  lagged : s.lagged = false
  unannounced : ∃ stream ∈ s.announcing, Unannounced stream history

/-- The worker never takes the flag when that is so. -/
def NeverLost (history : List (Action ι α)) : Prop :=
  ∀ before after s, history = before ++ Action.swapLagged :: after → Reaches before s →
    ¬ Lost before s

end Lost

/-! ### What is outstanding will be announced -/

/-- The worker will look at the flag again. -/
def Worker.Busy : Worker α → Prop
  | .persisting _ | .failed _ | .committed _ | .testing | .swapping => True
  | .waiting | .resyncing | .stopped => False

variable {history : List (Action ι α)} {s t : State ι α} {action : Action ι α}

/-- The queue is not empty when it is full. -/
theorem queue_ne_nil_of_full (h : s.trySend = .full) : s.queue ≠ [] := by
  intro hqueue
  have hroom : s.queue.length < PERSISTENCE_QUEUE_CAPACITY := by
    rw [hqueue]
    exact Nat.succ_pos _
  unfold State.trySend at h
  split at h
  · cases h
  · rw [if_pos hroom] at h
    cases h

theorem stopped_of_closed (h : s.trySend = .closed) : s.worker = .stopped := by
  unfold State.trySend at h
  split at h
  · assumption
  · split_ifs at h

variable [DecidableEq ι]

/-- Someone knows of a dropped batch. -/
def Known (history : List (Action ι α)) (s : State ι α) : Prop :=
  s.lagged = true ∨ ∃ stream ∈ s.announcing, Unannounced stream history

/-- A dropped batch is known, and the worker will ask again; or it has asked, or it has stopped. -/
def Pending (history : List (Action ι α)) (s : State ι α) : Prop :=
  s.worker = .stopped ∨ s.worker = .resyncing ∨
    Known history s ∧ (s.queue ≠ [] ∨ s.worker.Busy)

def Invariant (history : List (Action ι α)) (s : State ι α) : Prop :=
  Outstanding Action.drops Action.resyncs history = true → Pending history s

theorem Invariant.announced (h : Invariant history s) (hs : Quiescent s) : Announced history := by
  rw [Announced, Bool.eq_false_iff]
  intro hout
  rcases h hout with hworker | hworker | ⟨-, hqueue | hworker⟩
  · rw [hs.worker] at hworker
    cases hworker
  · rw [hs.worker] at hworker
    cases hworker
  · exact hqueue hs.queue
  · rw [hs.worker] at hworker
    exact hworker

/-- What an action leaves known. -/
theorem Known.mono (h : Known history s) (hlagged : s.lagged = true → t.lagged = true)
    (hannouncing : s.announcing ⊆ t.announcing)
    (hsettles : ∀ stream, action.settles stream = false) :
    Known (history ++ [action]) t := by
  rcases h with hset | ⟨stream, hmem, hunannounced⟩
  · exact .inl (hlagged hset)
  · refine .inr ⟨stream, hannouncing hmem, ?_⟩
    rw [Unannounced, outstanding_snoc, hsettles stream, if_neg Bool.false_ne_true, hunannounced,
      ite_self]

omit [DecidableEq ι] in
theorem outstanding_of_snoc (hdrops : action.drops = false)
    (h : Outstanding Action.drops Action.resyncs (history ++ [action]) = true) :
    Outstanding Action.drops Action.resyncs history = true := by
  rw [outstanding_snoc, hdrops, if_neg Bool.false_ne_true] at h
  split_ifs at h
  exact h

/-- An action of the worker on its way to the test of the flag. -/
theorem Pending.busy (h : Pending history s) (hworker : s.worker.Busy)
    (hlagged : s.lagged = true → t.lagged = true) (hannouncing : s.announcing = t.announcing)
    (hsettles : ∀ stream, action.settles stream = false) (hbusy : t.queue ≠ [] ∨ t.worker.Busy) :
    Pending (history ++ [action]) t := by
  rcases h with hstopped | hresyncing | ⟨hknown, -⟩
  · rw [hstopped] at hworker
    exact hworker.elim
  · rw [hresyncing] at hworker
    exact hworker.elim
  · exact .inr (.inr ⟨hknown.mono hlagged hannouncing.subset hsettles, hbusy⟩)

/-- What every step keeps, when the worker does not take the flag too early. -/
theorem Invariant.step (h : Invariant history s) (hstep : s.step action = some t)
    (hlost : action = .swapLagged → ¬ Lost history s) : Invariant (history ++ [action]) t := by
  intro hout
  cases action with
  | trySend stream batch result =>
    change (if _ then some (s.sent stream batch result) else none) = some t at hstep
    split_ifs at hstep with hcond
    obtain ⟨hmem, rfl⟩ := hcond
    cases hresult : s.trySend with
    | ok =>
      rw [hresult] at hstep hout
      cases hstep
      rcases h (outstanding_of_snoc rfl hout) with hstopped | hresyncing | ⟨hknown, -⟩
      · exact .inl hstopped
      · exact .inr (.inl hresyncing)
      · exact .inr (.inr ⟨hknown.mono id subset_rfl fun _ => rfl,
          .inl (List.append_ne_nil_of_right_ne_nil _ (List.cons_ne_nil _ _))⟩)
    | full =>
      rw [hresult] at hstep
      cases hstep
      refine .inr (.inr ⟨.inr ⟨stream, Finset.mem_insert_self _ _, ?_⟩,
        .inl (queue_ne_nil_of_full hresult)⟩)
      rw [Unannounced, outstanding_snoc]
      exact if_pos (decide_eq_true rfl)
    | closed =>
      rw [hresult] at hstep
      cases hstep
      exact .inl (stopped_of_closed hresult)
  | setLagged stream =>
    change (if _ then some _ else none) = some t at hstep
    split_ifs at hstep
    cases hstep
    rcases h (outstanding_of_snoc rfl hout) with hstopped | hresyncing | ⟨-, hbusy⟩
    · exact .inl hstopped
    · exact .inr (.inl hresyncing)
    · exact .inr (.inr ⟨.inl rfl, hbusy⟩)
  | receive =>
    have hpending := h (outstanding_of_snoc rfl hout)
    obtain ⟨queue, worker, lagged, announcing, generation⟩ := s
    cases worker <;> cases queue <;> cases hstep
    rcases hpending with hstopped | hresyncing | ⟨hknown, -⟩
    · cases hstopped
    · cases hresyncing
    · exact .inr (.inr ⟨hknown.mono id subset_rfl fun _ => rfl, .inr trivial⟩)
  | persist persisted =>
    have hpending := h (outstanding_of_snoc rfl hout)
    obtain ⟨queue, worker, lagged, announcing, generation⟩ := s
    cases worker <;> cases hstep
    refine hpending.busy trivial id rfl (fun _ => rfl) (.inr ?_)
    cases persisted <;> trivial
  | storeLagged =>
    have hpending := h (outstanding_of_snoc rfl hout)
    obtain ⟨queue, worker, lagged, announcing, generation⟩ := s
    cases worker <;> cases hstep
    exact hpending.busy trivial (fun _ => rfl) rfl (fun _ => rfl) (.inr trivial)
  | commit alive =>
    have hpending := h (outstanding_of_snoc rfl hout)
    obtain ⟨queue, worker, lagged, announcing, generation⟩ := s
    cases worker <;> cases hstep
    split_ifs
    · exact .inl rfl
    · exact hpending.busy trivial id rfl (fun _ => rfl) (.inr trivial)
  | testEmpty =>
    have hpending := h (outstanding_of_snoc rfl hout)
    obtain ⟨queue, worker, lagged, announcing, generation⟩ := s
    cases worker <;> cases hstep
    refine hpending.busy trivial id rfl (fun _ => rfl) ?_
    cases queue with
    | nil => exact .inr trivial
    | cons batch queue => exact .inl (List.cons_ne_nil _ _)
  | swapLagged =>
    have hpending := h (outstanding_of_snoc rfl hout)
    have hnot := hlost rfl
    obtain ⟨queue, worker, lagged, announcing, generation⟩ := s
    cases worker <;> cases hstep
    cases lagged with
    | true => exact .inr (.inl rfl)
    | false =>
      rcases hpending with hstopped | hresyncing | ⟨hlagged | hunannounced, -⟩
      · cases hstopped
      · cases hresyncing
      · cases hlagged
      · -- the stream has yet to set the flag, so there is a batch left to be received
        have hqueue : queue ≠ [] := fun hnil => hnot ⟨hnil, rfl, hunannounced⟩
        have hknown : Known history (ι := ι) (α := α)
          ⟨queue, .swapping, false, announcing, generation⟩ := .inr hunannounced
        exact .inr (.inr ⟨hknown.mono id subset_rfl fun _ => rfl, .inl hqueue⟩)
  | sendResync alive =>
    obtain ⟨queue, worker, lagged, announcing, generation⟩ := s
    cases worker <;> cases hstep
    cases alive with
    | true =>
      rw [outstanding_snoc] at hout
      cases hout
    | false => exact .inl rfl

theorem NeverLost.of_snoc (h : NeverLost (history ++ [action])) : NeverLost history := by
  rintro before after s rfl
  exact h before (after ++ [action]) s (by simp)

/-- In a run in which the flag is never taken too early, what is dropped is known. -/
theorem invariant_of_neverLost (hrun : Reaches history s) (h : NeverLost history) :
    Invariant history s := by
  induction hrun with
  | nil => exact fun hout => absurd hout Bool.false_ne_true
  | snoc run last ih =>
    refine (ih h.of_snoc).step last ?_
    rintro rfl
    exact h _ [] _ rfl run

/-! ### What is lost stays so -/

/-- The streams set the flag, one after the other. -/
theorem run_setLagged (s : State ι α) (hne : s.announcing.Nonempty) : ∃ streams : List ι,
    Run (fun s action t => State.step s action = some t) s (streams.map Action.setLagged)
      { s with lagged := true, announcing := ∅ } := by
  obtain ⟨stream, hmem⟩ := hne
  have hstep : s.step (.setLagged stream) =
      some { s with lagged := true, announcing := s.announcing.erase stream } := if_pos hmem
  generalize hrest : s.announcing.erase stream = rest at hstep
  suffices hrun : ∀ (rest : Finset ι), ∃ streams : List ι,
      Run (fun s action t => State.step s action = some t)
        { s with lagged := true, announcing := rest } (streams.map Action.setLagged)
        { s with lagged := true, announcing := ∅ } by
    obtain ⟨streams, hrun⟩ := hrun rest
    exact ⟨stream :: streams, run_cons.2 ⟨_, hstep, hrun⟩⟩
  intro rest
  induction rest using Finset.induction_on with
  | empty => exact ⟨[], .nil _⟩
  | insert stream rest hnot ih =>
    obtain ⟨streams, hrun⟩ := ih
    refine ⟨stream :: streams, run_cons.2 ⟨_, ?_, hrun⟩⟩
    refine (if_pos (Finset.mem_insert_self stream rest)).trans ?_
    rw [Finset.erase_insert hnot]

theorem outstanding_of_unannounced {stream : ι} (h : Unannounced stream history) :
    Outstanding Action.drops Action.resyncs history = true := by
  unfold Unannounced at h
  induction history using List.reverseRecOn with
  | nil => cases h
  | append_singleton history action ih =>
    rw [outstanding_snoc] at h ⊢
    have hdrops : action.dropsOf stream = true → action.drops = true := by
      intro hd
      cases action with
      | trySend stream' batch result =>
        cases result with
        | full => rfl
        | ok => cases hd
        | closed => cases hd
      | _ => cases hd
    have hresyncs : action.resyncs = true → action.settles stream = true := by
      intro hr
      cases action with
      | sendResync alive =>
        cases alive with
        | true => rfl
        | false => cases hr
      | _ => cases hr
    by_cases hopens : action.drops = true
    · rw [hopens]
      rfl
    · rw [if_neg fun hd => hopens (hdrops hd)] at h
      rw [if_neg hopens]
      split_ifs at h with hsettles
      rw [if_neg fun hr => hsettles (hresyncs hr)]
      exact ih h

theorem swapping_of_step (h : s.step .swapLagged = some t) : s.worker = .swapping := by
  obtain ⟨queue, worker, lagged, announcing, generation⟩ := s
  cases worker <;> cases h
  rfl

/-- When the flag is taken too early, the queue can come to rest with a batch unannounced. -/
theorem exists_quiescent_of_lost (hrun : Reaches history s) (hworker : s.worker = .swapping)
    (h : Lost history s) : ∃ streams : List ι, ∃ t, Quiescent t ∧
      Reaches (history ++ Action.swapLagged :: streams.map Action.setLagged) t ∧
      ¬ Announced (history ++ Action.swapLagged :: streams.map Action.setLagged) := by
  obtain ⟨stream, hmem, hunannounced⟩ := h.unannounced
  obtain ⟨queue, worker, lagged, announcing, generation⟩ := s
  obtain rfl : queue = [] := h.queue
  obtain rfl : lagged = false := h.lagged
  obtain rfl : worker = .swapping := hworker
  obtain ⟨streams, hsettle⟩ := run_setLagged
    (⟨[], .waiting, false, announcing, generation⟩ : State ι α) ⟨stream, hmem⟩
  refine ⟨streams, _, ⟨rfl, rfl, rfl⟩, hrun.append (run_cons.2 ⟨_, rfl, hsettle⟩), ?_⟩
  have hquiet : ∀ action ∈ (.swapLagged :: streams.map Action.setLagged : List (Action ι α)),
      action.drops = false ∧ action.resyncs = false := by
    intro action hmem
    rcases List.mem_cons.1 hmem with rfl | hmem
    · exact ⟨rfl, rfl⟩
    · obtain ⟨stream, -, rfl⟩ := List.mem_map.1 hmem
      exact ⟨rfl, rfl⟩
  rw [Announced, Bool.not_eq_false]
  have hout := outstanding_of_unannounced hunannounced
  generalize (.swapLagged :: streams.map Action.setLagged : List (Action ι α)) = after at hquiet
  induction after using List.reverseRecOn with
  | nil => rwa [List.append_nil]
  | append_singleton after action ih =>
    rw [← List.append_assoc, outstanding_snoc, (hquiet action (by simp)).1,
      (hquiet action (by simp)).2]
    exact ih fun action hmem => hquiet action (List.mem_append_left _ hmem)

/-- What was dropped has been announced whenever the queue has come to rest, as long as the worker
never takes the flag too early; where it does, the queue can come to rest without that. -/
theorem announced_iff_never_lost {history : List (Action ι α)} {s : State ι α}
    (hrun : Reaches history s) :
    (NeverLost history → ∀ before after t, history = before ++ after → Reaches before t →
      Quiescent t → Announced before) ∧
    (¬ NeverLost history → ∃ before after, history = before ++ after ∧ ∃ streams : List ι, ∃ t,
      Reaches (before ++ streams.map Action.setLagged) t ∧ Quiescent t ∧
        ¬ Announced (before ++ streams.map Action.setLagged)) := by
  constructor
  · rintro hnever before after t rfl hbefore hquiet
    have hprefix : NeverLost before := by
      rintro before' after' s' rfl
      exact hnever before' (after' ++ after) s' (by simp)
    exact (invariant_of_neverLost hbefore hprefix).announced hquiet
  · intro hnot
    unfold NeverLost at hnot
    push Not at hnot
    obtain ⟨before, after, u, rfl, hbefore, hlost⟩ := hnot
    obtain ⟨v, hbefore', hafter⟩ := run_append.1 hrun
    obtain ⟨w, hswap, -⟩ := run_cons.1 hafter
    obtain rfl : u = v :=
      Option.some_inj.1 ((run_iff_foldlM.1 hbefore).symm.trans (run_iff_foldlM.1 hbefore'))
    obtain ⟨streams, t, hquiet, hreaches, hannounced⟩ :=
      exists_quiescent_of_lost hbefore (swapping_of_step hswap) hlost
    have hassoc : before ++ Action.swapLagged :: streams.map Action.setLagged =
        before ++ [Action.swapLagged] ++ streams.map Action.setLagged := by simp
    rw [hassoc] at hreaches hannounced
    exact ⟨before ++ [.swapLagged], after, by simp, streams, t, hreaches, hquiet, hannounced⟩

/-! ### A batch that is dropped in silence -/

/-- A stream fills the queue and finds it full; before it sets the flag, the worker empties the
queue and finds the flag clear. -/
def overflow : List (Action Unit Unit) :=
  let batch : PersistenceBatch Unit := ⟨[.delete ['1']], .user⟩
  let send : Action Unit Unit := .trySend () batch .ok
  let turn : List (Action Unit Unit) := [.receive, .persist true, .commit true, .testEmpty]
  List.replicate PERSISTENCE_QUEUE_CAPACITY send ++
    Action.trySend () batch .full :: (List.replicate PERSISTENCE_QUEUE_CAPACITY turn).flatten ++
    [Action.swapLagged, Action.setLagged ()]

def State.isQuiescent (s : State Unit Unit) : Bool :=
  match s with
  | ⟨[], .waiting, _, announcing, _⟩ => announcing = ∅
  | _ => false

theorem quiescent_of_isQuiescent {s : State Unit Unit} (h : s.isQuiescent = true) :
    Quiescent s := by
  obtain ⟨queue, worker, lagged, announcing, generation⟩ := s
  cases queue <;> cases worker <;> try cases h
  exact ⟨rfl, rfl, of_decide_eq_true h⟩

theorem overflow_reaches : ∃ s, Reaches overflow s ∧ Quiescent s := by
  have hrun : (overflow.foldlM State.step .start).any State.isQuiescent = true := by
    decide +kernel
  obtain ⟨s, hs, hquiet⟩ := (Option.any_eq_true _ _).1 hrun
  exact ⟨s, run_iff_foldlM.2 hs, quiescent_of_isQuiescent hquiet⟩

theorem overflow_not_announced : ¬ Announced overflow := by
  unfold Announced
  decide +kernel

/-- A batch can be dropped, and the queue come to rest, without a `Resync`. -/
theorem not_always_announced : ¬ ∀ (history : List (Action Unit Unit)) (s : State Unit Unit),
    Reaches history s → Quiescent s → Announced history := by
  intro h
  obtain ⟨s, hreaches, hquiet⟩ := overflow_reaches
  exact overflow_not_announced (h overflow s hreaches hquiet)

theorem overflow_lost : ¬ NeverLost overflow := by
  obtain ⟨s, hreaches, hquiet⟩ := overflow_reaches
  intro hnever
  exact overflow_not_announced
    ((announced_iff_never_lost hreaches).1 hnever overflow [] s (by simp) hreaches hquiet)

end Awayuki.Persistence
