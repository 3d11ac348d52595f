import Awayuki.Requests.Accounting

/-!
# The request scheduler: safety

* `Quiet`: what is cancelled or superseded stays so, and nothing is resolved;
* `Doomed`, `Overlooked`: the requests that are not resolved any more, and those that a
  cancellation misses;
* `scheduler_safe`: what holds after every run.
-/

namespace Awayuki.Requests

variable {V E : Type}

namespace RequestScheduler

variable {s s' s'' : RequestScheduler V E} {r request : QueuedRequest} {order : ℕ}
  {e : Running V E}

/-! ### What is over stays so -/

/-- Nothing is taken back, and nothing is resolved. -/
structure Quiet (s s' : RequestScheduler V E) : Prop where
  limits : s'.limits = s.limits
  aborted : s.aborted ⊆ s'.aborted
  generations : ∀ key, s.generations key ≤ s'.generations key
  unresolved : ∀ r v, (r, .ok v) ∈ s'.settled → (r, .ok v) ∈ s.settled

theorem Quiet.refl (s : RequestScheduler V E) : Quiet s s :=
  ⟨rfl, List.Subset.refl _, fun _ => le_rfl, fun _ _ h => h⟩

theorem Quiet.trans (h : Quiet s s') (h' : Quiet s' s'') : Quiet s s'' where
  limits := h'.limits.trans h.limits
  aborted := List.Subset.trans h.aborted h'.aborted
  generations key := (h.generations key).trans (h'.generations key)
  unresolved r v hr := h.unresolved r v (h'.unresolved r v hr)

theorem quiet_foldl {α : Type} {f : RequestScheduler V E → α → RequestScheduler V E}
    (hf : ∀ s a, Quiet s (f s a)) (l : List α) (s : RequestScheduler V E) :
    Quiet s (l.foldl f s) := by
  induction l generalizing s with
  | nil => exact Quiet.refl s
  | cons a l ih => exact (hf s a).trans (ih (f s a))

theorem quiet_rejectCancelledQueuedRequests : Quiet s s.rejectCancelledQueuedRequests where
  limits := rfl
  aborted := List.Subset.refl _
  generations _ := le_rfl
  unresolved r v hr := by
    rcases List.mem_append.1 hr with hr | hr
    · exact hr
    · obtain ⟨request, -, hrequest⟩ := List.mem_map.1 hr
      cases hrequest

theorem quiet_pumpLoop (steps : ℕ) : Quiet s (s.pumpLoop steps) := by
  induction steps generalizing s with
  | zero => exact Quiet.refl s
  | succ steps ih =>
    rw [pumpLoop]
    split
    next => exact Quiet.refl s
    next request _ =>
      have hstart : Quiet s ({ s with queue := s.queue.eraseP s.startable }.start request) :=
        ⟨rfl, List.Subset.refl _, fun _ => le_rfl, fun _ _ h => h⟩
      exact hstart.trans ih

theorem quiet_pump : Quiet s s.pump := by
  have hsort : Quiet s.rejectCancelledQueuedRequests s.rejectCancelledQueuedRequests.sortQueue :=
    ⟨rfl, List.Subset.refl _, fun _ => le_rfl, fun _ _ h => h⟩
  exact (quiet_rejectCancelledQueuedRequests.trans hsort).trans (quiet_pumpLoop _)

theorem quiet_abort (s : RequestScheduler V E) (r : QueuedRequest) : Quiet s (s.abort r) :=
  ⟨rfl, List.subset_append_left _ _, fun _ => le_rfl, fun _ _ h => h⟩

theorem quiet_abortKey (key : Str) : Quiet s (s.abortKey key) := by
  have hqueued := quiet_foldl quiet_abort (s.queue.filter fun r => r.key = key) s
  unfold abortKey abortActive
  split
  next r _ => exact hqueued.trans (quiet_abort _ r)
  next => exact hqueued

theorem quiet_cancel (s : RequestScheduler V E) (key : Str) : Quiet s (s.cancel key) :=
  (quiet_abortKey key).trans quiet_pump

theorem quiet_enqueue (options : RequestScheduleOptions) : Quiet s (s.enqueue options) where
  limits := rfl
  aborted := List.Subset.refl _
  generations key := by
    show _ ≤ Function.update s.generations options.key _ key
    by_cases hkey : key = options.key
    · rw [hkey, Function.update_self]
      exact Nat.le_succ _
    · rw [Function.update_of_ne hkey]
  unresolved _ _ h := h

theorem quiet_schedule (options : RequestScheduleOptions) : Quiet s (s.schedule options) := by
  unfold schedule
  split_ifs
  · exact ((quiet_cancel s options.key).trans (quiet_enqueue options)).trans quiet_pump
  · exact (quiet_enqueue options).trans quiet_pump

theorem quiet_settle (order : ℕ) (outcome : Except (Reason E) V) :
    Quiet s (s.settle order outcome) := by
  unfold settle
  split
  · exact Quiet.refl s
  · exact ⟨rfl, List.Subset.refl _, fun _ => le_rfl, fun _ _ h => h⟩

theorem quiet_finish (order : ℕ) : Quiet s (s.finish order) := by
  unfold finish
  split
  next request _ =>
    have hrelease : Quiet s (s.release request) :=
      ⟨rfl, List.Subset.refl _, fun _ => le_rfl, fun _ _ h => h⟩
    exact hrelease.trans quiet_pump
  next => exact Quiet.refl s

/-- Only `then` resolves a promise, and only one whose request is current. -/
theorem handle_spec (order : ℕ) : (s.handle order).limits = s.limits ∧
    (s.handle order).aborted = s.aborted ∧ (s.handle order).generations = s.generations ∧
    ∀ r v, (r, .ok v) ∈ (s.handle order).settled → (r, .ok v) ∈ s.settled ∨ s.isCurrent r := by
  unfold handle
  split
  next request outcome _ =>
    refine ⟨rfl, rfl, rfl, fun r v hr => ?_⟩
    rcases List.mem_append.1 hr with hr | hr
    · exact Or.inl hr
    · right
      obtain ⟨rfl, hv⟩ := Prod.mk.inj (List.mem_singleton.1 hr)
      cases outcome with
      | error => cases hv
      | ok value =>
        rw [settlement] at hv
        split_ifs at hv with hcurrent
        exact hcurrent
  next => exact ⟨rfl, rfl, rfl, fun r v hr => Or.inl hr⟩

theorem quiet_step {event : Event V E} (h : ∀ order, event ≠ .handle order) :
    Quiet s (s.step event) := by
  cases event with
  | schedule options => exact quiet_schedule options
  | cancel key => exact quiet_cancel s key
  | cancelPrefix start => exact quiet_foldl quiet_cancel _ s
  | cancelAll => exact quiet_foldl quiet_cancel _ s
  | settle order outcome => exact quiet_settle order outcome
  | handle order => exact absurd rfl (h order)
  | finish order => exact quiet_finish order

/-- Any event: what it resolves is current. -/
theorem step_spec (event : Event V E) : (s.step event).limits = s.limits ∧
    s.aborted ⊆ (s.step event).aborted ∧
    (∀ key, s.generations key ≤ (s.step event).generations key) ∧
    ∀ r v, (r, .ok v) ∈ (s.step event).settled → (r, .ok v) ∈ s.settled ∨ s.isCurrent r := by
  by_cases h : ∃ order, event = .handle order
  · obtain ⟨order, rfl⟩ := h
    obtain ⟨hlimits, haborted, hgenerations, hsettled⟩ := handle_spec (s := s) order
    exact ⟨hlimits, fun o ho => haborted ▸ ho, fun key => le_of_eq (congrFun hgenerations key).symm,
      hsettled⟩
  · have hquiet : Quiet s (s.step event) := quiet_step fun order heq => h ⟨order, heq⟩
    exact ⟨hquiet.limits, hquiet.aborted, hquiet.generations,
      fun r v hr => Or.inl (hquiet.unresolved r v hr)⟩

/-- The request is aborted, or there is a newer generation of its key. -/
def Doomed (s : RequestScheduler V E) (r : QueuedRequest) : Prop :=
  r.order ∈ s.aborted ∨ r.generation < s.generations r.key

theorem Doomed.not_isCurrent (h : Doomed s r) : ¬ s.isCurrent r := by
  rintro ⟨haborted, hgeneration⟩
  rcases h with h | h
  · exact haborted h
  · omega

theorem Doomed.step (h : Doomed s r) (event : Event V E) : Doomed (s.step event) r := by
  obtain ⟨-, haborted, hgenerations, -⟩ := step_spec (s := s) event
  exact h.imp (fun h => haborted h) fun h => h.trans_le (hgenerations r.key)

/-- What is doomed is never resolved again. -/
theorem Doomed.run (h : Doomed s r) {events : List (Event V E)} {v : V}
    (hr : (r, .ok v) ∈ (s.run events).settled) : (r, .ok v) ∈ s.settled := by
  induction events generalizing s with
  | nil => exact hr
  | cons event events ih =>
    obtain ⟨-, -, -, hsettled⟩ := step_spec (s := s) event
    exact (hsettled r v (ih (h.step event) hr)).resolve_right h.not_isCurrent

theorem limits_run (events : List (Event V E)) : (s.run events).limits = s.limits := by
  induction events generalizing s with
  | nil => rfl
  | cons event events ih =>
    obtain ⟨hlimits, -⟩ := step_spec (s := s) event
    exact ih.trans hlimits

/-! ### What a cancellation reaches -/

/-- A request whose promise is not settled. -/
def Pending (s : RequestScheduler V E) (r : QueuedRequest) : Prop :=
  r ∈ s.queue ∨ ∃ e ∈ s.running, e.request = r ∧ e.phase ≠ .settled

/-- The newest generation of its key has been started, and `active` has another request there: an
older generation that was started later. -/
def Overlooked (s : RequestScheduler V E) (r : QueuedRequest) : Prop :=
  r ∈ s.started ∧ s.isCurrent r ∧ s.active.get r.key ≠ some r

/-- Nothing is left to do to abort the request, or cancelling its key does. -/
def Reached (s : RequestScheduler V E) (r : QueuedRequest) : Prop :=
  r.order ∈ s.aborted ∨ r ∈ s.queue ∨ s.active.get r.key = some r

theorem Reached.aborted (h : Reached s r) : r.order ∈ (s.cancel r.key).aborted := by
  rcases h with h | h
  · exact (quiet_cancel s r.key).aborted h
  · obtain ⟨-, -, -, -, haborted⟩ := abortKey_spec (s := s) r.key
    exact quiet_pump.aborted (haborted r rfl h)

/-- Cancelling starts nothing, so that it takes nothing out of another's reach. -/
theorem Reached.cancel (h : Reached s r) (hs : Inv s) (key : Str) : Reached (s.cancel key) r := by
  obtain ⟨hqueue, hactive, hlimits, hrunning, -⟩ := abortKey_spec (s := s) key
  have hbusy : ∀ r ∈ (s.abortKey key).queue,
      (s.abortKey key).limits r.lane ≤ (s.abortKey key).runningByLane r.lane := by
    rw [hqueue, hlimits, hrunning]
    exact hs.busy
  have hcancel : s.cancel key = (s.abortKey key).rejectCancelledQueuedRequests.sortQueue :=
    pump_of_busy hbusy
  rcases h with h | h | h
  · exact Or.inl ((quiet_cancel s key).aborted h)
  · rw [hcancel]
    by_cases haborted : r.order ∈ (s.abortKey key).aborted
    · exact Or.inl haborted
    · refine Or.inr (Or.inl (mem_queue_sorted.2 ⟨?_, haborted⟩))
      rw [hqueue]
      exact h
  · right
    right
    rw [hcancel]
    show (s.abortKey key).active.get r.key = some r
    rw [hactive]
    exact h

theorem Reached.foldl_cancel (h : Reached s r) (hs : Inv s) {keys : List Str}
    (hkey : r.key ∈ keys) : r.order ∈ (keys.foldl RequestScheduler.cancel s).aborted := by
  induction keys generalizing s with
  | nil => exact absurd hkey List.not_mem_nil
  | cons key keys ih =>
    by_cases hfirst : r.key = key
    · subst hfirst
      exact (quiet_foldl quiet_cancel keys _).aborted h.aborted
    · exact ih (h.cancel hs key) (hs.toCore.cancel key) (List.mem_of_ne_of_mem hfirst hkey)

theorem mem_keySet {keys : List Str} {key : Str} (h : key ∈ keys) : key ∈ keySet keys := by
  have hhas := Collect.has_collect_of_mem [] (fun k : Str => beq_self_eq_true k) h
  obtain ⟨k, hk, hequal⟩ := Collect.has_iff.1 hhas
  rw [← beq_iff_eq.1 hequal]
  exact hk

theorem lt_generations_schedule (options : RequestScheduleOptions) :
    s.generations options.key < (s.schedule options).generations options.key := by
  have henqueue : ∀ t : RequestScheduler V E,
      t.generations options.key < (t.enqueue options).generations options.key := by
    intro t
    show _ < Function.update t.generations options.key _ options.key
    rw [Function.update_self]
    exact Nat.lt_succ_self _
  unfold schedule
  split_ifs
  · exact ((quiet_cancel s options.key).generations options.key).trans_lt
      ((henqueue _).trans_le (quiet_pump.generations _))
  · exact (henqueue s).trans_le (quiet_pump.generations _)

/-- A pending request is doomed when its key is cancelled, unless it is overlooked. -/
theorem Inv.doomed (h : Inv s) {event : Event V E} (hevent : event.Dismisses r.key)
    (hpending : Pending s r) (hseen : ¬ Overlooked s r) : Doomed (s.step event) r := by
  have hheld : r ∈ s.queue ++ s.started := by
    rcases hpending with hr | ⟨e, he, rfl, -⟩
    · exact List.mem_append_left _ hr
    · exact List.mem_append_right _ (List.mem_map_of_mem he)
  by_cases hcurrent : s.isCurrent r
  · have hfound : r ∈ s.queue ∨ s.active.get r.key = some r := by
      rcases List.mem_append.1 hheld with hr | hr
      · exact Or.inl hr
      · right
        by_contra hactive
        exact hseen ⟨hr, hcurrent, hactive⟩
    have hreached : Reached s r := Or.inr hfound
    cases event with
    | schedule options =>
      right
      have hkey : options.key = r.key := hevent
      have hlt := lt_generations_schedule (s := s) options
      rw [hkey, hcurrent.2] at hlt
      exact hlt
    | cancel key =>
      obtain rfl : key = r.key := hevent
      exact Or.inl hreached.aborted
    | cancelPrefix start =>
      refine Or.inl (hreached.foldl_cancel h (mem_keySet (List.mem_append.2 ?_)))
      rcases hfound with hr | hactive
      · exact Or.inl (List.mem_map_of_mem (List.mem_filter.2 ⟨hr, hevent⟩))
      · exact Or.inr (List.mem_filter.2 ⟨OrderedMap.mem_keys_of_get hactive, hevent⟩)
    | cancelAll =>
      refine Or.inl (hreached.foldl_cancel h (mem_keySet (List.mem_append.2 ?_)))
      rcases hfound with hr | hactive
      · exact Or.inl (List.mem_map_of_mem hr)
      · exact Or.inr (OrderedMap.mem_keys_of_get hactive)
    | settle => exact hevent.elim
    | handle => exact hevent.elim
    | finish => exact hevent.elim
  · refine Doomed.step ?_ event
    by_cases haborted : r.order ∈ s.aborted
    · exact Or.inl haborted
    · right
      refine lt_of_le_of_ne (h.generation_le r hheld) fun heq => ?_
      exact hcurrent ⟨haborted, heq.symm⟩

theorem Inv.unresolved (h : Inv s) (hpending : Pending s r) (result : Except (Reason E) V) :
    (r, result) ∉ s.settled := by
  intro hmem
  have horder : r.order ∈ s.settledOrders := List.mem_map_of_mem hmem
  rcases hpending with hr | ⟨e, he, rfl, hphase⟩
  · exact h.waiting r hr horder
  · exact hphase ((h.settled_iff e he).1 horder)

/-- Tasks that go on have requests that were started, except for those of cancelled requests. -/
theorem Inv.countP_tasks_le (h : Inv s) (lane : RequestLane) :
    s.tasks.countP (fun t => t.lane = lane ∧ t.order ∉ s.aborted) ≤ s.limits lane := by
  have hsub : s.tasks.filter (fun t => t.lane = lane ∧ t.order ∉ s.aborted) ⊆
      s.started.filter fun r => r.lane = lane := by
    intro t ht
    obtain ⟨ht, hlane⟩ := List.mem_filter.1 ht
    rw [decide_eq_true_eq] at hlane
    have hrace := h.racing t ht hlane.2
    refine List.mem_filter.2 ⟨List.mem_map_of_mem hrace, ?_⟩
    rw [decide_eq_true_eq]
    exact hlane.1
  have hnodup : s.tasks.Nodup := by
    have horders : (orders s.tasks).Nodup :=
      h.nodup_tasks.sublist (orders_sublist (List.sublist_append_right _ _))
    exact List.Nodup.of_map _ horders
  have hsubperm := (hnodup.filter _).subperm hsub
  calc s.tasks.countP (fun t => t.lane = lane ∧ t.order ∉ s.aborted)
      ≤ s.started.countP fun r => r.lane = lane := by
        rw [List.countP_eq_length_filter, List.countP_eq_length_filter]
        exact hsubperm.length_le
    _ = s.runningByLane lane := by rw [h.counted lane, countP_started]
    _ ≤ s.limits lane := h.bounded lane

/-! ### Every run -/

/-- What the scheduler guarantees in a state. -/
structure Safe (limits : RequestLane → ℕ) (s : RequestScheduler V E) : Prop where
  /-- No lane has more requests started than its limit. -/
  started : ∀ lane, s.started.countP (fun r => r.lane = lane) ≤ limits lane
  /-- Of the tasks that go on, only those of cancelled requests are not counted. -/
  tasks : ∀ lane, s.tasks.countP (fun t => t.lane = lane ∧ t.order ∉ s.aborted) ≤ limits lane
  /-- No promise is settled twice. -/
  once : s.settledOrders.Nodup
  /-- Only the newest generation of a key is resolved, and only if it is not aborted. -/
  newest : ∀ (event : Event V E) r v, (r, .ok v) ∈ (s.step event).settled →
    (r, .ok v) ∈ s.settled ∨ s.isCurrent r
  /-- A request whose key is cancelled is not resolved any more, unless it is overlooked. -/
  cancelled : ∀ (event : Event V E) r, event.Dismisses r.key → s.Pending r → ¬ s.Overlooked r →
    ∀ events v, (r, .ok v) ∉ ((s.step event).run events).settled
  /-- No request is lost. -/
  kept : ∀ order < s.order,
    order ∈ orders s.queue ∨ order ∈ orders s.started ∨ order ∈ s.settledOrders
  /-- A request waits only while its lane is full. -/
  busy : ∀ r ∈ s.queue, s.started.countP (fun r' => r'.lane = r.lane) = limits r.lane

theorem Inv.safe (h : Inv s) : Safe s.limits s where
  started lane := by
    rw [← countP_started, ← h.counted lane]
    exact h.bounded lane
  tasks := h.countP_tasks_le
  once := h.nodup_settled
  newest event := (step_spec event).2.2.2
  cancelled event r hevent hpending hseen events v hr := by
    have hquiet : Quiet s (s.step event) := quiet_step fun order heq => by
      rw [heq] at hevent
      exact hevent
    have hstep := (h.doomed hevent hpending hseen).run hr
    exact h.unresolved hpending _ (hquiet.unresolved r v hstep)
  kept order horder := by
    have hcomplete := (h.complete order).1 horder
    rwa [orders_append, List.mem_append, or_assoc] at hcomplete
  busy r hr := by
    rw [← countP_started, ← h.counted r.lane]
    exact le_antisymm (h.bounded r.lane) (h.busy r hr)

/-- After every run the scheduler is safe. -/
theorem scheduler_safe (limits : RequestLane → ℕ) (events : List (Event V E)) :
    Safe limits ((create limits : RequestScheduler V E).run events) := by
  have hinv := (inv_create limits : Inv (create limits : RequestScheduler V E)).run events
  have hlimits := limits_run (s := (create limits : RequestScheduler V E)) events
  have hsafe := hinv.safe
  rwa [hlimits] at hsafe

/-! ### Two runs -/

/-- A request of the timeline lane. -/
def sampleOptions (key : String) (lane : RequestLane) : RequestScheduleOptions where
  key := key.toList
  lane
  priority := none
  replace := some false

/-- A task that does not end is cancelled, and its place is taken. -/
def overrunning : List (Event ℕ ℕ) :=
  [.schedule (sampleOptions "a" .timeline), .cancel "a".toList, .handle 0, .finish 0,
    .schedule (sampleOptions "b" .timeline)]

/-- The first generation of `k` waits for the timeline lane while the second is started in another
one; it is started later, and cancelled in place of the second. -/
def overtaking : List (Event ℕ ℕ) :=
  [.schedule (sampleOptions "a" .timeline), .schedule (sampleOptions "k" .timeline),
    .schedule (sampleOptions "k" .analytics), .settle 0 (.ok 0), .handle 0, .finish 0,
    .cancel "k".toList, .settle 2 (.ok 7), .handle 2]

/-- Two tasks go on in a lane with room for one, and a generation is resolved after it has been
cancelled. -/
theorem not_scheduler_safe :
    ((create fun _ => 1).run overrunning).tasks.map (·.lane) = [.timeline, .timeline] ∧
      ((create fun _ => 1).run overtaking).settled.map (fun e => (e.1.key, e.1.generation, e.2)) =
        [("a".toList, 1, .ok 0), ("k".toList, 2, .ok 7)] := by
  decide +kernel

end RequestScheduler

end Awayuki.Requests
