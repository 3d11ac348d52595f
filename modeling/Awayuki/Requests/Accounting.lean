import Awayuki.Requests.Scheduler

/-!
# The request scheduler: accounting

Every request that was scheduled is in the queue, started or settled, and the counters of the lanes
count the started ones.

* `Core`: what holds between any two statements;
* `Inv`: what holds between two events, when whatever is in the queue waits for its lane.
-/

namespace Awayuki.Requests

variable {V E : Type}

namespace RequestScheduler

/-! ### The entries of a run -/

variable {requests requests' : List QueuedRequest}

def orders (requests : List QueuedRequest) : List ℕ := requests.map (·.order)

def started (s : RequestScheduler V E) : List QueuedRequest := s.running.map (·.request)

def settledOrders (s : RequestScheduler V E) : List ℕ := s.settled.map (·.1.order)

variable {s s' s'' : RequestScheduler V E} {r request : QueuedRequest} {order : ℕ}
  {e : Running V E}

theorem mem_orders (h : r ∈ requests) : r.order ∈ orders requests := List.mem_map_of_mem h

@[simp] theorem orders_cons (requests : List QueuedRequest) :
    orders (r :: requests) = r.order :: orders requests := rfl

@[simp] theorem orders_append (requests requests' : List QueuedRequest) :
    orders (requests ++ requests') = orders requests ++ orders requests' := List.map_append

theorem orders_perm (h : requests.Perm requests') :
    (orders requests).Perm (orders requests') := h.map _

theorem orders_sublist (h : requests.Sublist requests') :
    (orders requests).Sublist (orders requests') := h.map _

theorem perm_of_find? {α : Type} {p : α → Bool} {l : List α} {a : α} (h : l.find? p = some a) :
    l.Perm (a :: l.eraseP p) := by
  induction l with
  | nil => cases h
  | cons b l ih =>
    by_cases hb : p b = true
    · rw [List.find?_cons_of_pos hb] at h
      rw [List.eraseP_cons_of_pos hb, Option.some.inj h]
    · rw [List.find?_cons_of_neg hb] at h
      rw [List.eraseP_cons_of_neg hb]
      exact ((ih h).cons b).trans (List.Perm.swap a b _)

/-- What holds between any two statements: the counters count the started requests, no lane has
more than its limit, and each request that was scheduled is in the queue, started or settled. -/
structure Core (s : RequestScheduler V E) : Prop where
  counted : ∀ lane, s.runningByLane lane = s.running.countP fun e => e.request.lane = lane
  bounded : ∀ lane, s.runningByLane lane ≤ s.limits lane
  nodup_held : (orders (s.queue ++ s.started)).Nodup
  nodup_settled : s.settledOrders.Nodup
  settled_iff : ∀ e ∈ s.running, e.request.order ∈ s.settledOrders ↔ e.phase = .settled
  waiting : ∀ r ∈ s.queue, r.order ∉ s.settledOrders
  complete : ∀ order, order < s.order ↔
    order ∈ orders (s.queue ++ s.started) ∨ order ∈ s.settledOrders
  generation_le : ∀ r ∈ s.queue ++ s.started, r.generation ≤ s.generations r.key
  nodup_tasks : (orders (s.queue ++ s.tasks)).Nodup
  tasks_lt : ∀ t ∈ s.tasks, t.order < s.order
  racing : ∀ t ∈ s.tasks, t.order ∉ s.aborted → ⟨t, .racing⟩ ∈ s.running
  aborted_lt : ∀ order ∈ s.aborted, order < s.order
  active_lt : ∀ key r, s.active.get key = some r → r.order < s.order

/-- What holds between two events: whatever is in the queue waits for room in its lane. -/
structure Inv (s : RequestScheduler V E) : Prop extends Core s where
  unaborted : ∀ r ∈ s.queue, r.order ∉ s.aborted
  busy : ∀ r ∈ s.queue, s.limits r.lane ≤ s.runningByLane r.lane

theorem inv_create (limits : RequestLane → ℕ) : Inv (create limits : RequestScheduler V E) where
  counted _ := rfl
  bounded _ := Nat.zero_le _
  nodup_held := List.nodup_nil
  nodup_settled := List.nodup_nil
  settled_iff _ h := absurd h List.not_mem_nil
  waiting _ h := absurd h List.not_mem_nil
  complete order := by simp [create, orders, started, settledOrders]
  generation_le _ h := absurd h List.not_mem_nil
  nodup_tasks := List.nodup_nil
  tasks_lt _ h := absurd h List.not_mem_nil
  racing _ h := absurd h List.not_mem_nil
  aborted_lt _ h := absurd h List.not_mem_nil
  active_lt key r h := by simp [create] at h
  unaborted _ h := absurd h List.not_mem_nil
  busy _ h := absurd h List.not_mem_nil

theorem Core.lt_of_mem (h : Core s) (hr : r ∈ s.queue ++ s.started) : r.order < s.order :=
  (h.complete r.order).2 (Or.inl (mem_orders hr))

theorem Core.perm (h : Core s) {queue : List QueuedRequest} (hperm : s.queue.Perm queue) :
    Core { s with queue } := by
  have hheld : (s.queue ++ s.started).Perm (queue ++ s.started) := hperm.append_right _
  have htasks : (s.queue ++ s.tasks).Perm (queue ++ s.tasks) := hperm.append_right _
  have hmem : ∀ r, r ∈ queue → r ∈ s.queue := fun r hr => hperm.mem_iff.2 hr
  exact { h with
    nodup_held := (orders_perm hheld).nodup_iff.1 h.nodup_held
    waiting := fun r hr => h.waiting r (hmem r hr)
    complete := fun order => by
      rw [h.complete order]
      exact or_congr_left (orders_perm hheld).mem_iff
    generation_le := fun r hr => h.generation_le r (hheld.mem_iff.2 hr)
    nodup_tasks := (orders_perm htasks).nodup_iff.1 h.nodup_tasks }

/-! ### The loop of `pump` -/

theorem Core.sortQueue (h : Core s) : Core s.sortQueue :=
  h.perm (List.perm_insertionSort _ _).symm

theorem Core.rejectCancelledQueuedRequests (h : Core s) :
    Core s.rejectCancelledQueuedRequests := by
  have hsub : (s.queue.filter fun r => r.order ∉ s.aborted).Sublist s.queue := List.filter_sublist
  have hsettled : s.rejectCancelledQueuedRequests.settledOrders =
      s.settledOrders ++ orders (s.queue.filter fun r => r.order ∈ s.aborted) := by
    simp [settledOrders, orders, RequestScheduler.rejectCancelledQueuedRequests, Function.comp_def]
  have hrejected : ∀ order, order ∈ orders (s.queue.filter fun r => r.order ∈ s.aborted) ↔
      order ∈ orders s.queue ∧ order ∈ s.aborted := by
    intro order
    simp only [orders, List.mem_map, List.mem_filter, decide_eq_true_eq]
    constructor
    · rintro ⟨r, ⟨hr, haborted⟩, rfl⟩
      exact ⟨⟨r, hr, rfl⟩, haborted⟩
    · rintro ⟨⟨r, hr, rfl⟩, haborted⟩
      exact ⟨r, ⟨hr, haborted⟩, rfl⟩
  have hretained : ∀ order, order ∈ orders s.rejectCancelledQueuedRequests.queue ↔
      order ∈ orders s.queue ∧ order ∉ s.aborted := by
    intro order
    simp only [orders, RequestScheduler.rejectCancelledQueuedRequests, List.mem_map,
      List.mem_filter, decide_eq_true_eq]
    constructor
    · rintro ⟨r, ⟨hr, haborted⟩, rfl⟩
      exact ⟨⟨r, hr, rfl⟩, haborted⟩
    · rintro ⟨⟨r, hr, rfl⟩, haborted⟩
      exact ⟨r, ⟨hr, haborted⟩, rfl⟩
  have hheld := h.nodup_held
  rw [orders_append, List.nodup_append'] at hheld
  obtain ⟨hqueue, hstarted, hdisjoint⟩ := hheld
  exact { h with
    nodup_held := h.nodup_held.sublist (orders_sublist (hsub.append_right _))
    nodup_settled := by
      rw [hsettled, List.nodup_append']
      refine ⟨h.nodup_settled, hqueue.sublist (List.filter_sublist.map _), ?_⟩
      intro order hold hnew
      obtain ⟨r, hr, rfl⟩ := List.mem_map.1 ((hrejected order).1 hnew).1
      exact h.waiting r hr hold
    settled_iff := fun e he => by
      rw [hsettled, List.mem_append, ← h.settled_iff e he]
      refine or_iff_left fun hnew => ?_
      exact hdisjoint ((hrejected _).1 hnew).1 (mem_orders (List.mem_map_of_mem he))
    waiting := fun r hr => by
      have hkept := (hretained r.order).1 (mem_orders hr)
      rw [hsettled, List.mem_append, not_or]
      exact ⟨h.waiting r (hsub.subset hr), fun hnew => hkept.2 ((hrejected _).1 hnew).2⟩
    complete := fun order => by
      refine (h.complete order).trans ?_
      rw [hsettled, List.mem_append]
      show _ ↔ order ∈ orders (_ ++ s.started) ∨ _
      rw [orders_append, orders_append, List.mem_append, List.mem_append, hretained, hrejected]
      tauto
    generation_le := fun r hr => h.generation_le r ((hsub.append_right _).subset hr)
    nodup_tasks := h.nodup_tasks.sublist (orders_sublist (hsub.append_right _)) }

theorem Core.start (h : Core s) {rest : List QueuedRequest}
    (hqueue : s.queue.Perm (request :: rest))
    (hroom : s.runningByLane request.lane < s.limits request.lane) :
    Core ({ s with queue := rest }.start request) := by
  have hs := h.perm hqueue
  have hmove : ∀ requests : List QueuedRequest,
      (request :: rest ++ requests).Perm (rest ++ (requests ++ [request])) := by
    intro requests
    rw [← List.append_assoc]
    exact (List.perm_append_singleton request (rest ++ requests)).symm
  have hstarted : ({ s with queue := rest }.start request).started = s.started ++ [request] := by
    simp [started, RequestScheduler.start]
  have hfresh := hs.waiting request List.mem_cons_self
  have hheld := hmove s.started
  exact {
    counted := fun lane => by
      show Function.update s.runningByLane request.lane _ lane = (s.running ++ [_]).countP _
      rw [List.countP_append, List.countP_singleton, ← h.counted lane]
      by_cases hlane : lane = request.lane
      · rw [hlane, Function.update_self]
        simp
      · rw [Function.update_of_ne hlane]
        simp [Ne.symm hlane]
    bounded := fun lane => by
      show Function.update s.runningByLane request.lane _ lane ≤ s.limits lane
      by_cases hlane : lane = request.lane
      · rw [hlane, Function.update_self]
        exact hroom
      · rw [Function.update_of_ne hlane]
        exact h.bounded lane
    nodup_held := by
      rw [hstarted]
      exact (orders_perm hheld).nodup_iff.1 hs.nodup_held
    nodup_settled := h.nodup_settled
    settled_iff := fun e he => by
      rcases List.mem_append.1 he with he | he
      · exact h.settled_iff e he
      · obtain rfl := List.mem_singleton.1 he
        exact iff_of_false hfresh (by simp)
    waiting := fun r hr => hs.waiting r (List.mem_cons_of_mem _ hr)
    complete := fun order => by
      rw [hstarted]
      exact (hs.complete order).trans (or_congr_left (orders_perm hheld).mem_iff)
    generation_le := fun r hr => by
      rw [hstarted] at hr
      exact hs.generation_le r (hheld.mem_iff.2 hr)
    nodup_tasks := (orders_perm (hmove s.tasks)).nodup_iff.1 hs.nodup_tasks
    tasks_lt := fun t ht => by
      rcases List.mem_append.1 ht with ht | ht
      · exact h.tasks_lt t ht
      · obtain rfl := List.mem_singleton.1 ht
        exact hs.lt_of_mem List.mem_cons_self
    racing := fun t ht haborted => by
      rcases List.mem_append.1 ht with ht | ht
      · exact List.mem_append_left _ (h.racing t ht haborted)
      · obtain rfl := List.mem_singleton.1 ht
        exact List.mem_append_right _ (List.mem_singleton_self _)
    aborted_lt := h.aborted_lt
    active_lt := fun key r hr => by
      have hget : (s.active.set request.key request).get key = some r := hr
      rw [OrderedMap.get_set] at hget
      split_ifs at hget
      · obtain rfl := Option.some.inj hget
        exact hs.lt_of_mem List.mem_cons_self
      · exact h.active_lt key r hget }

/-- `pump` leaves nothing in the queue for which there is room. -/
theorem Core.pumpLoop (h : Core s) (hunaborted : ∀ r ∈ s.queue, r.order ∉ s.aborted) {steps : ℕ}
    (hsteps : s.queue.length ≤ steps) : Inv (s.pumpLoop steps) := by
  induction steps generalizing s with
  | zero =>
    have hempty : s.queue = [] := List.length_eq_zero_iff.1 (Nat.le_zero.1 hsteps)
    exact { h with
      unaborted := hunaborted
      busy := fun r hr => by
        rw [RequestScheduler.pumpLoop, hempty] at hr
        exact absurd hr List.not_mem_nil }
  | succ steps ih =>
    rw [RequestScheduler.pumpLoop]
    split
    next hnone =>
      refine { h with unaborted := hunaborted, busy := fun r hr => ?_ }
      have hnot := List.find?_eq_none.1 hnone r hr
      rw [startable, decide_eq_true_eq, not_and, not_lt] at hnot
      exact hnot (hunaborted r hr)
    next request hsome =>
      have hperm := perm_of_find? hsome
      have hstartable := List.find?_some hsome
      rw [startable, decide_eq_true_eq] at hstartable
      refine ih (h.start hperm hstartable.2) (fun r hr => ?_) ?_
      · exact hunaborted r (List.eraseP_subset hr)
      · have hlength := hperm.length_eq
        rw [List.length_cons] at hlength
        show (s.queue.eraseP s.startable).length ≤ steps
        omega

theorem mem_queue_sorted :
    r ∈ s.rejectCancelledQueuedRequests.sortQueue.queue ↔ r ∈ s.queue ∧ r.order ∉ s.aborted := by
  show r ∈ List.insertionSort _ _ ↔ _
  rw [(List.perm_insertionSort _ _).mem_iff]
  show r ∈ s.queue.filter _ ↔ _
  rw [List.mem_filter, decide_eq_true_eq]

theorem Core.pump (h : Core s) : Inv s.pump := by
  refine h.rejectCancelledQueuedRequests.sortQueue.pumpLoop (fun r hr => ?_) ?_
  · exact (mem_queue_sorted.1 hr).2
  · show (List.insertionSort _ _).length ≤ _
    rw [List.length_insertionSort]
    exact List.length_filter_le _ _

/-- Where there is no room, `pump` only clears the queue. -/
theorem pump_of_busy (h : ∀ r ∈ s.queue, s.limits r.lane ≤ s.runningByLane r.lane) :
    s.pump = s.rejectCancelledQueuedRequests.sortQueue := by
  have hnone : s.rejectCancelledQueuedRequests.sortQueue.queue.find?
      s.rejectCancelledQueuedRequests.sortQueue.startable = none := by
    rw [List.find?_eq_none]
    intro r hr
    have hbusy := h r (mem_queue_sorted.1 hr).1
    rw [startable, decide_eq_true_eq, not_and, not_lt]
    exact fun _ => hbusy
  rw [RequestScheduler.pump]
  cases s.queue.length with
  | zero => rfl
  | succ n => rw [RequestScheduler.pumpLoop, hnone]

/-! ### Cancelling, scheduling and settling -/

@[simp] theorem started_advance (order : ℕ) (next : Running V E → Phase V E) :
    (s.advance order next).started = s.started := by
  rw [started, started, advance, List.map_map]
  refine List.map_congr_left fun e _ => ?_
  by_cases h : e.request.order = order <;> simp [h]

theorem countP_started (lane : RequestLane) :
    s.running.countP (fun e => e.request.lane = lane) =
      s.started.countP fun r => r.lane = lane := by
  rw [started, List.countP_map]
  rfl

theorem mem_running_advance {next : Running V E → Phase V E} :
    e ∈ (s.advance order next).running ↔ (e.request.order ≠ order ∧ e ∈ s.running) ∨
      ∃ e' ∈ s.running, e'.request.order = order ∧ e = { e' with phase := next e' } := by
  rw [advance, List.mem_map]
  constructor
  · rintro ⟨e', he', rfl⟩
    by_cases h : e'.request.order = order
    · exact Or.inr ⟨e', he', h, if_pos h⟩
    · rw [if_neg h]
      exact Or.inl ⟨h, he'⟩
  · rintro (⟨h, he⟩ | ⟨e', he', h, rfl⟩)
    · exact ⟨e, he, if_neg h⟩
    · exact ⟨e', he', if_pos h⟩

theorem decide_eq_settled {outcome : Except (Reason E) V} {phase : Phase V E} :
    phase.decide outcome = .settled ↔ phase = .settled := by
  cases phase <;> simp [Phase.decide]

theorem Core.eq_of_entry (h : Core s) {e' : Running V E} (he : e ∈ s.running)
    (he' : e' ∈ s.running) (horder : e.request.order = e'.request.order) : e = e' := by
  have hnodup : (s.running.map fun e => e.request.order).Nodup := by
    have hsub : (orders s.started).Sublist (orders (s.queue ++ s.started)) :=
      orders_sublist (List.sublist_append_right _ _)
    have horders : orders s.started = s.running.map fun e => e.request.order := by
      simp [orders, started, Function.comp_def]
    rw [← horders]
    exact h.nodup_held.sublist hsub
  exact List.inj_on_of_nodup_map hnodup he he' horder

theorem Core.mem_of_entry? (h : s.entry? order = some e) :
    e ∈ s.running ∧ e.request.order = order := by
  refine ⟨List.mem_of_find?_eq_some h, ?_⟩
  simpa using List.find?_some h

/-- A phase is changed, not to or from `settled`, and no race goes on without its task. -/
theorem Core.advance (h : Core s) (next : Running V E → Phase V E)
    (hsettled : ∀ e, next e = .settled ↔ e.phase = .settled)
    (hracing : ∀ t ∈ s.tasks, t.order ∉ s.aborted → t.order ≠ order) :
    Core (s.advance order next) where
  counted lane := by
    rw [countP_started, started_advance, ← countP_started]
    exact h.counted lane
  bounded := h.bounded
  nodup_held := by
    rw [started_advance]
    exact h.nodup_held
  nodup_settled := h.nodup_settled
  settled_iff e he := by
    rcases mem_running_advance.1 he with ⟨-, he⟩ | ⟨e', he', -, rfl⟩
    · exact h.settled_iff e he
    · rw [hsettled]
      exact h.settled_iff e' he'
  waiting := h.waiting
  complete order := by
    rw [started_advance]
    exact h.complete order
  generation_le r hr := by
    rw [started_advance] at hr
    exact h.generation_le r hr
  nodup_tasks := h.nodup_tasks
  tasks_lt := h.tasks_lt
  racing t ht haborted :=
    mem_running_advance.2 (Or.inl ⟨hracing t ht haborted, h.racing t ht haborted⟩)
  aborted_lt := h.aborted_lt
  active_lt := h.active_lt

theorem Core.abort (h : Core s) (hr : r.order < s.order) : Core (s.abort r) := by
  have haborted : Core { s with aborted := s.aborted ++ [r.order] } :=
    { h with
      racing := fun t ht hnot => h.racing t ht fun hin => hnot (List.mem_append_left _ hin)
      aborted_lt := fun order horder => by
        rcases List.mem_append.1 horder with horder | horder
        · exact h.aborted_lt order horder
        · rw [List.mem_singleton.1 horder]
          exact hr }
  refine haborted.advance _ (fun e => decide_eq_settled) fun t _ hnot horder => ?_
  apply hnot
  rw [horder]
  exact List.mem_append_right _ (List.mem_singleton_self _)

theorem Core.foldl_abort (h : Core s) (hlt : ∀ r ∈ requests, r.order < s.order) :
    Core (requests.foldl RequestScheduler.abort s) := by
  induction requests generalizing s with
  | nil => exact h
  | cons r requests ih =>
    have hr := h.abort (hlt r List.mem_cons_self)
    exact ih hr fun r' hr' => hlt r' (List.mem_cons_of_mem _ hr')

theorem Core.abortActive (h : Core s) (key : Str) : Core (s.abortActive key) := by
  unfold RequestScheduler.abortActive
  split
  next r hr => exact h.abort (h.active_lt key r hr)
  next => exact h

/-- Aborting leaves everything but the controllers and the races as it is. -/
theorem foldl_abort (requests : List QueuedRequest) :
    (requests.foldl abort s).aborted = s.aborted ++ orders requests ∧
      (requests.foldl abort s).queue = s.queue ∧ (requests.foldl abort s).active = s.active ∧
      (requests.foldl abort s).limits = s.limits ∧
      (requests.foldl abort s).runningByLane = s.runningByLane := by
  induction requests generalizing s with
  | nil => exact ⟨(List.append_nil _).symm, rfl, rfl, rfl, rfl⟩
  | cons r requests ih =>
    obtain ⟨haborted, hrest⟩ := ih (s := s.abort r)
    refine ⟨?_, hrest⟩
    rw [List.foldl_cons, haborted]
    show s.aborted ++ [r.order] ++ _ = s.aborted ++ (r.order :: _)
    rw [List.append_assoc]
    rfl

theorem Core.abortKey (h : Core s) (key : Str) : Core (s.abortKey key) := by
  refine (h.foldl_abort fun r hr => ?_).abortActive key
  exact h.lt_of_mem (List.mem_append_left _ (List.mem_of_mem_filter hr))

theorem abortActive_spec (key : Str) :
    (s.abortActive key).queue = s.queue ∧ (s.abortActive key).active = s.active ∧
      (s.abortActive key).limits = s.limits ∧
      (s.abortActive key).runningByLane = s.runningByLane ∧
      s.aborted ⊆ (s.abortActive key).aborted := by
  unfold abortActive
  split
  next => exact ⟨rfl, rfl, rfl, rfl, List.subset_append_left _ _⟩
  next => exact ⟨rfl, rfl, rfl, rfl, List.Subset.refl _⟩

theorem aborted_abortActive {key : Str} (h : s.active.get key = some r) :
    r.order ∈ (s.abortActive key).aborted := by
  rw [abortActive, h]
  exact List.mem_append_right _ (List.mem_singleton_self _)

/-- What `cancel` aborts, and that it does nothing else before it calls `pump`. -/
theorem abortKey_spec (key : Str) :
    (s.abortKey key).queue = s.queue ∧ (s.abortKey key).active = s.active ∧
      (s.abortKey key).limits = s.limits ∧ (s.abortKey key).runningByLane = s.runningByLane ∧
      ∀ r : QueuedRequest, r.key = key → r ∈ s.queue ∨ s.active.get key = some r →
        r.order ∈ (s.abortKey key).aborted := by
  obtain ⟨haborted, hqueue, hactive, hlimits, hrunning⟩ :=
    foldl_abort (s := s) (s.queue.filter fun r => r.key = key)
  obtain ⟨hqueue', hactive', hlimits', hrunning', hsub⟩ :=
    abortActive_spec (s := (s.queue.filter fun r => r.key = key).foldl abort s) key
  refine ⟨hqueue'.trans hqueue, hactive'.trans hactive, hlimits'.trans hlimits,
    hrunning'.trans hrunning, ?_⟩
  rintro r hkey (hr | hr)
  · apply hsub
    rw [haborted]
    exact List.mem_append_right _ (mem_orders (List.mem_filter.2 ⟨hr, by simpa using hkey⟩))
  · exact aborted_abortActive (by rw [hactive]; exact hr)

theorem Core.cancel (h : Core s) (key : Str) : Inv (s.cancel key) := (h.abortKey key).pump

theorem Inv.foldl_cancel (h : Inv s) (keys : List Str) :
    Inv (keys.foldl RequestScheduler.cancel s) := by
  induction keys generalizing s with
  | nil => exact h
  | cons key keys ih => exact ih (h.toCore.cancel key)

theorem Core.enqueue (h : Core s) (options : RequestScheduleOptions) :
    Core (s.enqueue options) := by
  have hfresh : s.order ∉ orders (s.queue ++ s.started) ∧ s.order ∉ s.settledOrders := by
    rw [← not_or, ← h.complete]
    exact lt_irrefl _
  have htasks : s.order ∉ orders (s.queue ++ s.tasks) := by
    intro hmem
    obtain ⟨t, ht, horder⟩ := List.mem_map.1 hmem
    rcases List.mem_append.1 ht with ht | ht
    · exact hfresh.1 (horder ▸ mem_orders (List.mem_append_left _ ht))
    · exact absurd (h.tasks_lt t ht) (by omega)
  generalize hnew : (⟨options.key, options.lane, options.priority.getD 0, s.order,
    s.generations options.key + 1⟩ : QueuedRequest) = new
  have horder : new.order = s.order := by rw [← hnew]
  have hqueue : (s.enqueue options).queue = s.queue ++ [new] := by rw [← hnew]; rfl
  have hmove : ∀ requests : List QueuedRequest,
      (s.queue ++ [new] ++ requests).Perm (new :: (s.queue ++ requests)) := fun requests =>
    (List.perm_append_singleton new s.queue).append_right requests
  have hmono : ∀ key, s.generations key ≤ (s.enqueue options).generations key := by
    intro key
    show _ ≤ Function.update s.generations options.key _ key
    by_cases hkey : key = options.key
    · rw [hkey, Function.update_self]
      exact Nat.le_succ _
    · rw [Function.update_of_ne hkey]
  exact {
    counted := h.counted
    bounded := h.bounded
    nodup_held := by
      rw [hqueue, (orders_perm (hmove _)).nodup_iff]
      have hnew : new.order ∉ orders (s.queue ++ s.started) := by
        rw [horder]
        exact hfresh.1
      exact List.nodup_cons.2 ⟨hnew, h.nodup_held⟩
    nodup_settled := h.nodup_settled
    settled_iff := h.settled_iff
    waiting := fun r hr => by
      rw [hqueue, List.mem_append, List.mem_singleton] at hr
      rcases hr with hr | rfl
      · exact h.waiting r hr
      · rw [horder]
        exact hfresh.2
    complete := fun order => by
      rw [hqueue, (orders_perm (hmove _)).mem_iff, orders_cons, List.mem_cons, horder, or_assoc]
      show order < s.order + 1 ↔ order = s.order ∨ order ∈ orders (s.queue ++ s.started) ∨ _
      rw [Nat.lt_succ_iff_lt_or_eq, h.complete order, or_comm]
      exact Iff.rfl
    generation_le := fun r hr => by
      rw [hqueue, (hmove _).mem_iff, List.mem_cons] at hr
      rcases hr with rfl | hr
      · rw [← hnew]
        show s.generations options.key + 1 ≤
          Function.update s.generations options.key (s.generations options.key + 1) options.key
        rw [Function.update_self]
      · exact (h.generation_le r hr).trans (hmono r.key)
    nodup_tasks := by
      rw [hqueue, (orders_perm (hmove _)).nodup_iff]
      have hnew : new.order ∉ orders (s.queue ++ s.tasks) := by
        rw [horder]
        exact htasks
      exact List.nodup_cons.2 ⟨hnew, h.nodup_tasks⟩
    tasks_lt := fun t ht => (h.tasks_lt t ht).trans (Nat.lt_succ_self _)
    racing := h.racing
    aborted_lt := fun order horder => (h.aborted_lt order horder).trans (Nat.lt_succ_self _)
    active_lt := fun key r hr => (h.active_lt key r hr).trans (Nat.lt_succ_self _) }

theorem Inv.schedule (h : Inv s) (options : RequestScheduleOptions) :
    Inv (s.schedule options) := by
  unfold RequestScheduler.schedule
  split_ifs
  · exact ((h.toCore.cancel options.key).toCore.enqueue options).pump
  · exact (h.toCore.enqueue options).pump

theorem Inv.settle (h : Inv s) (order : ℕ) (outcome : Except (Reason E) V) :
    Inv (s.settle order outcome) := by
  unfold RequestScheduler.settle
  split
  next => exact h
  next task hfound =>
    have hperm := perm_of_find? hfound
    obtain rfl : task.order = order := by simpa using List.find?_some hfound
    have hsub : ∀ t ∈ s.tasks.eraseP fun t => t.order = task.order, t ∈ s.tasks :=
      fun t ht => List.eraseP_subset ht
    have hnodup : (orders (task :: s.tasks.eraseP fun t => t.order = task.order)).Nodup := by
      have htasks : (orders s.tasks).Nodup :=
        h.nodup_tasks.sublist (orders_sublist (List.sublist_append_right _ _))
      exact (orders_perm hperm).nodup_iff.1 htasks
    have hcore : Core { s with tasks := s.tasks.eraseP fun t => t.order = task.order } :=
      { h.toCore with
        nodup_tasks := h.nodup_tasks.sublist
          (orders_sublist ((List.Sublist.refl _).append List.eraseP_sublist))
        tasks_lt := fun t ht => h.tasks_lt t (hsub t ht)
        racing := fun t ht haborted => h.racing t (hsub t ht) haborted }
    have hnot := (List.nodup_cons.1 hnodup).1
    have hother : ∀ t ∈ s.tasks.eraseP fun t => t.order = task.order, t.order ≠ task.order := by
      intro t ht horder
      have hmem := mem_orders ht
      rw [horder] at hmem
      exact hnot hmem
    have hadvanced := hcore.advance (fun e => e.phase.decide outcome)
      (fun e => decide_eq_settled) fun t ht _ => hother t ht
    exact { hadvanced with unaborted := h.unaborted, busy := h.busy }

theorem Inv.handle (h : Inv s) (order : ℕ) : Inv (s.handle order) := by
  unfold RequestScheduler.handle
  split
  next request outcome hentry =>
    obtain ⟨he, rfl⟩ := Core.mem_of_entry? hentry
    have hunsettled : request.order ∉ s.settledOrders := fun hmem => by
      cases (h.settled_iff _ he).1 hmem
    have hstarted : request ∈ s.started := List.mem_map_of_mem he
    generalize s.settlement request outcome = result
    have hsettled : ∀ running,
        ({ s with settled := s.settled ++ [(request, result)], running } :
          RequestScheduler V E).settledOrders = s.settledOrders ++ [request.order] := by
      intro running
      simp [settledOrders]
    have hcore : Core ({ s with settled := s.settled ++ [(request, result)] }.advance
        request.order fun _ => .settled) := {
      counted := fun lane => by
        rw [countP_started, started_advance, ← countP_started]
        exact h.counted lane
      bounded := h.bounded
      nodup_held := by
        rw [started_advance]
        exact h.nodup_held
      nodup_settled := by
        rw [RequestScheduler.advance, hsettled, List.nodup_append']
        exact ⟨h.nodup_settled, List.nodup_singleton _, by simpa using hunsettled⟩
      settled_iff := fun e he' => by
        rw [RequestScheduler.advance, hsettled, List.mem_append, List.mem_singleton]
        rcases mem_running_advance.1 he' with ⟨hother, he'⟩ | ⟨e', he', horder, rfl⟩
        · rw [or_iff_left hother]
          exact h.settled_iff e he'
        · exact iff_of_true (Or.inr horder) rfl
      waiting := fun r hr => by
        rw [RequestScheduler.advance, hsettled, List.mem_append, List.mem_singleton, not_or]
        refine ⟨h.waiting r hr, fun horder => ?_⟩
        have hnodup := h.nodup_held
        rw [orders_append, List.nodup_append'] at hnodup
        refine hnodup.2.2 (mem_orders hr) ?_
        rw [horder]
        exact mem_orders hstarted
      complete := fun order => by
        rw [started_advance, RequestScheduler.advance, hsettled, List.mem_append,
          List.mem_singleton]
        show _ ↔ order ∈ orders (s.queue ++ s.started) ∨ _
        rw [← or_assoc, ← h.complete order, iff_comm, or_iff_left_iff_imp]
        rintro rfl
        exact h.lt_of_mem (List.mem_append_right _ hstarted)
      generation_le := fun r hr => by
        rw [started_advance] at hr
        exact h.generation_le r hr
      nodup_tasks := h.nodup_tasks
      tasks_lt := h.tasks_lt
      racing := fun t ht haborted => by
        have hrace := h.racing t ht haborted
        refine mem_running_advance.2 (Or.inl ⟨fun horder => ?_, hrace⟩)
        cases h.eq_of_entry hrace he horder
      aborted_lt := h.aborted_lt
      active_lt := h.active_lt }
    exact { hcore with unaborted := h.unaborted, busy := h.busy }
  next => exact h

theorem Core.release (h : Core s) (hentry : s.entry? request.order = some ⟨request, .settled⟩) :
    Core (s.release request) := by
  obtain ⟨he, -⟩ := Core.mem_of_entry? hentry
  have hperm := perm_of_find? hentry
  have hsub : ∀ e ∈ s.running.eraseP fun e => e.request.order = request.order, e ∈ s.running :=
    fun e he => List.eraseP_subset he
  have hstarted : (s.release request).started.Sublist s.started := List.eraseP_sublist.map _
  have hheld : s.started.Perm (request :: (s.release request).started) := hperm.map _
  exact {
    counted := fun lane => by
      have hcount := hperm.countP_eq fun e => e.request.lane = lane
      rw [← h.counted lane, List.countP_cons] at hcount
      show Function.update s.runningByLane request.lane _ lane = List.countP _ (s.running.eraseP _)
      by_cases hlane : lane = request.lane
      · subst hlane
        rw [Function.update_self, hcount]
        simp
      · rw [Function.update_of_ne hlane, hcount]
        simp [Ne.symm hlane]
    bounded := fun lane => by
      show Function.update s.runningByLane request.lane _ lane ≤ s.limits lane
      by_cases hlane : lane = request.lane
      · subst hlane
        rw [Function.update_self]
        exact (Nat.sub_le _ _).trans (h.bounded _)
      · rw [Function.update_of_ne hlane]
        exact h.bounded lane
    nodup_held := h.nodup_held.sublist (orders_sublist ((List.Sublist.refl _).append hstarted))
    nodup_settled := h.nodup_settled
    settled_iff := fun e he => h.settled_iff e (hsub e he)
    waiting := h.waiting
    complete := fun order => by
      have hmem : order ∈ orders s.started ↔
          order = request.order ∨ order ∈ orders (s.release request).started :=
        (orders_perm hheld).mem_iff.trans List.mem_cons
      have hsettled : request.order ∈ s.settledOrders := (h.settled_iff _ he).2 rfl
      have hover : order = request.order → order ∈ s.settledOrders := by
        rintro rfl
        exact hsettled
      refine (h.complete order).trans ?_
      show _ ↔ order ∈ orders (s.queue ++ _) ∨ order ∈ s.settledOrders
      rw [orders_append, orders_append, List.mem_append, List.mem_append, hmem]
      tauto
    generation_le := fun r hr =>
      h.generation_le r (((List.Sublist.refl _).append hstarted).subset hr)
    nodup_tasks := h.nodup_tasks
    tasks_lt := h.tasks_lt
    racing := fun t ht haborted => by
      have hrace := hperm.mem_iff.1 (h.racing t ht haborted)
      exact (List.mem_cons.1 hrace).resolve_left fun heq => by cases heq
    aborted_lt := h.aborted_lt
    active_lt := fun key r hr => by
      have hget : (if _ then s.active.delete request.key else s.active).get key = some r := hr
      split_ifs at hget
      · rw [OrderedMap.get_delete] at hget
        split_ifs at hget
        exact h.active_lt key r hget
      · exact h.active_lt key r hget }

theorem Inv.finish (h : Inv s) (order : ℕ) : Inv (s.finish order) := by
  unfold RequestScheduler.finish
  split
  next request hentry =>
    obtain ⟨-, rfl⟩ := Core.mem_of_entry? hentry
    exact (h.toCore.release hentry).pump
  next => exact h

theorem Inv.step (h : Inv s) (event : Event V E) : Inv (s.step event) := by
  cases event with
  | schedule options => exact h.schedule options
  | cancel key => exact h.toCore.cancel key
  | cancelPrefix start => exact h.foldl_cancel _
  | cancelAll => exact h.foldl_cancel _
  | settle order outcome => exact h.settle order outcome
  | handle order => exact h.handle order
  | finish order => exact h.finish order

theorem Inv.run (h : Inv s) (events : List (Event V E)) : Inv (s.run events) := by
  induction events generalizing s with
  | nil => exact h
  | cons event events ih => exact ih (h.step event)

end RequestScheduler

end Awayuki.Requests
