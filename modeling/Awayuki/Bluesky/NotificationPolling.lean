import Awayuki.Bluesky.Revisions

/-!
# Bluesky: polling notifications

`NotificationRevisionState` of `bluesky/streaming.rs` and the loop that polls with it.  A page of
notifications is compared with the revisions tracked so far, what is new or changed is emitted, and
a checkpoint lets a restart go on from there.

* `Notification`, `notificationRevision`: what is compared;
* `NotificationRevisionState`: the tracked revisions, `fromCheckpoint`, `checkpoint`,
  `observePage`;
* `Event`, `System`: pages, saves and restarts in any order;
* `unseen`: one while the latest revision that is tracked of an id is not the given one;
* `notifications_once`: what is emitted again, what only once, and what at least once.
-/

namespace Awayuki.BlueskyPolling

/-! ### Notifications -/

variable {events : List Event} {order : HashOrder}

/-- What `notification_revision` reads; the times are in milliseconds. -/
structure Notification where
  id : Str
  notificationType : Str
  createdAt : ℤ
  accountId : Str
  /-- The status with its time of editing. -/
  status : Option (Str × Option ℤ)
  deriving DecidableEq, Repr

def notificationRevision (notification : Notification) : Str :=
  Str.join ":" [notification.notificationType, (toString notification.createdAt).toList,
    notification.accountId, (notification.status.map Prod.fst).getD [],
    (toString ((notification.status.bind Prod.snd).getD 0)).toList]

structure NotificationRevisionState where
  revisions : OrderedMap Str RevisionEntry
  pollNumber : ℕ

namespace NotificationRevisionState

/-- `default` -/
def empty : NotificationRevisionState := ⟨.empty, 0⟩

def fromCheckpoint (checkpoint : PersistedCheckpoint) : NotificationRevisionState :=
  ⟨restoredRevisions checkpoint, 1⟩

def checkpoint (s : NotificationRevisionState) : PersistedCheckpoint where
  revisions := persistedRevisions s.revisions fun _ entry =>
    decide (entry.lastSeenPoll = s.pollNumber)
  reconciliationQueue := []

/-- One notification of a page, with the revisions and the changed notifications so far. -/
def observe (isInitialPage : Bool) (pollNumber : ℕ)
    (observed : OrderedMap Str RevisionEntry × List Notification) (notification : Notification) :
    OrderedMap Str RevisionEntry × List Notification :=
  let id := notification.id.trim
  if id = [] then observed
  else
    let fingerprint := notificationRevision notification
    let isChanged := (observed.1.get id).all fun entry => entry.fingerprint != fingerprint
    (observed.1.set id ⟨fingerprint, pollNumber⟩,
      if isChanged && !isInitialPage then observed.2 ++ [notification] else observed.2)

/-- The loop of `observe_page`; startup owns the initial page, which is a baseline only. -/
def observeAll (s : NotificationRevisionState) (notifications : List Notification) :
    OrderedMap Str RevisionEntry × List Notification :=
  let isInitialPage := decide (s.pollNumber = 0)
  notifications.foldl (observe isInitialPage (s.pollNumber + 1)) (s.revisions, [])

/-- `observe_page`, with the changed notifications. -/
def observePage (order : HashOrder) (s : NotificationRevisionState)
    (notifications : List Notification) : NotificationRevisionState × List Notification :=
  let observed := s.observeAll notifications
  let revisions :=
    if observed.1.entries.length > MAX_TRACKED_REVISIONS then
      (outOfWindow order observed.1).foldl OrderedMap.delete observed.1
    else observed.1
  (⟨revisions, s.pollNumber + 1⟩, observed.2)

theorem revisions_checkpoint (s : NotificationRevisionState) : s.checkpoint.revisions =
    persistedRevisions s.revisions fun _ entry => decide (entry.lastSeenPoll = s.pollNumber) := rfl

end NotificationRevisionState

/-! ### The loop -/

/-- A page, a checkpoint that is saved, or a restart from the last one, as after a crash. -/
inductive Event
  | page (notifications : List Notification) (order : HashOrder)
  | save
  | restart

/-- The poller with the checkpoint that the database holds. -/
structure System where
  state : NotificationRevisionState
  saved : Option PersistedCheckpoint

namespace System

def init : System := ⟨.empty, none⟩

/-- One event, with what is emitted: oldest first. -/
def step (s : System) : Event → System × List Notification
  | .page notifications order =>
    let observed := s.state.observePage order notifications
    (⟨observed.1, s.saved⟩, observed.2.reverse)
  | .save => (⟨s.state, some s.state.checkpoint⟩, [])
  | .restart => (⟨s.saved.elim .empty .fromCheckpoint, s.saved⟩, [])

def run (s : System) (events : List Event) : System :=
  events.foldl (fun s event => (s.step event).1) s

/-- All that is emitted. -/
def emitted (s : System) : List Event → List Notification
  | [] => []
  | event :: events => (s.step event).2 ++ (s.step event).1.emitted events

@[simp] theorem run_nil (s : System) : s.run [] = s := rfl

@[simp] theorem run_cons (s : System) (event : Event) (events : List Event) :
    s.run (event :: events) = (s.step event).1.run events := rfl

@[simp] theorem run_append (s : System) (events more : List Event) :
    s.run (events ++ more) = (s.run events).run more := List.foldl_append

end System

/-- The notifications of the pages. -/
def polled (events : List Event) : List Notification :=
  events.flatMap fun
    | .page notifications _ => notifications
    | _ => []

@[simp] theorem polled_append (events more : List Event) :
    polled (events ++ more) = polled events ++ polled more := List.flatMap_append

theorem polled_cons (event : Event) (events : List Event) :
    polled (event :: events) = polled [event] ++ polled events := polled_append [event] events

/-- The ids that are not blank. -/
def ids (notifications : List Notification) : List Str :=
  (notifications.map fun notification => notification.id.trim).filter (· ≠ [])

theorem mem_ids {notifications : List Notification} {id : Str} : id ∈ ids notifications ↔
    id ≠ [] ∧ ∃ notification ∈ notifications, notification.id.trim = id := by
  rw [ids, List.mem_filter, List.mem_map, decide_eq_true_eq, and_comm]

theorem ids_append (notifications more : List Notification) :
    ids (notifications ++ more) = ids notifications ++ ids more := by
  rw [ids, List.map_append, List.filter_append]
  rfl

/-- No page has been polled since the start, or since a restart that found no checkpoint. -/
inductive Fresh : List Event → Prop
  | start : Fresh []
  | restart {events : List Event} (h : Event.save ∉ events) : Fresh (events ++ [.restart])
  | save {events : List Event} (h : Fresh events) : Fresh (events ++ [.save])

/-! ### One page -/

open NotificationRevisionState

section

variable {id fingerprint : Str} {isInitialPage : Bool} {pollNumber : ℕ}
  {observed : OrderedMap Str RevisionEntry × List Notification} {notification : Notification}
  {notifications : List Notification}

theorem observe_blank (h : notification.id.trim = []) :
    observe isInitialPage pollNumber observed notification = observed := by
  unfold observe
  exact if_pos h

theorem observe_of_ne (h : notification.id.trim ≠ []) :
    observe isInitialPage pollNumber observed notification =
      (observed.1.set notification.id.trim ⟨notificationRevision notification, pollNumber⟩,
        if ((observed.1.get notification.id.trim).all fun entry =>
          entry.fingerprint != notificationRevision notification) && !isInitialPage then
          observed.2 ++ [notification]
        else observed.2) := by
  unfold observe
  exact if_neg h

theorem mem_keys_observe
    (h : id ∈ (observe isInitialPage pollNumber observed notification).1.keys) :
    id ∈ observed.1.keys ∨ id ≠ [] ∧ notification.id.trim = id := by
  by_cases hblank : notification.id.trim = []
  · rw [observe_blank hblank] at h
    exact Or.inl h
  · rw [observe_of_ne hblank] at h
    rcases OrderedMap.mem_keys_set.1 h with rfl | h
    · exact Or.inr ⟨hblank, rfl⟩
    · exact Or.inl h

theorem mem_keys_foldl_observe
    (h : id ∈ (notifications.foldl (observe isInitialPage pollNumber) observed).1.keys) :
    id ∈ observed.1.keys ∨ id ∈ ids notifications := by
  induction notifications generalizing observed with
  | nil => exact Or.inl h
  | cons notification notifications ih =>
    rcases ih h with h | h
    · refine (mem_keys_observe h).imp_right fun h => mem_ids.2 ⟨h.1, ?_⟩
      exact ⟨notification, List.mem_cons_self, h.2⟩
    · obtain ⟨hne, other, hother, hid⟩ := mem_ids.1 h
      exact Or.inr (mem_ids.2 ⟨hne, other, List.mem_cons_of_mem _ hother, hid⟩)

/-- How often the id is in a list. -/
def times (id : Str) (notifications : List Notification) : ℕ :=
  notifications.countP fun notification => notification.id.trim = id

@[simp] theorem times_append (notifications more : List Notification) :
    times id (notifications ++ more) = times id notifications + times id more :=
  List.countP_append

@[simp] theorem times_reverse (notifications : List Notification) :
    times id notifications.reverse = times id notifications := List.countP_reverse

/-- One while the revision tracked of the id is not the given one. -/
def unseen (id fingerprint : Str) (revisions : OrderedMap Str RevisionEntry) : ℕ :=
  if (revisions.get id).map RevisionEntry.fingerprint = some fingerprint then 0 else 1

theorem unseen_le_one (revisions : OrderedMap Str RevisionEntry) :
    unseen id fingerprint revisions ≤ 1 := by
  unfold unseen
  split_ifs <;> omega

/-- A notification is emitted only as long as its revision has not been seen. -/
theorem times_observe_le
    (h : notification.id.trim = id → notificationRevision notification = fingerprint) :
    times id (observe isInitialPage pollNumber observed notification).2 +
        unseen id fingerprint (observe isInitialPage pollNumber observed notification).1 ≤
      times id observed.2 + unseen id fingerprint observed.1 := by
  by_cases hblank : notification.id.trim = []
  · rw [observe_blank hblank]
  · rw [observe_of_ne hblank]
    dsimp only
    by_cases hid : notification.id.trim = id
    · have hafter : unseen id fingerprint (observed.1.set notification.id.trim
          ⟨notificationRevision notification, pollNumber⟩) = 0 := by
        rw [unseen, hid, OrderedMap.get_set_self, h hid]
        exact if_pos rfl
      rw [hafter]
      split_ifs with hchanged
      · have hbefore : unseen id fingerprint observed.1 = 1 := by
          rw [unseen, if_neg]
          intro hseen
          obtain ⟨entry, hentry, hfingerprint⟩ := Option.map_eq_some_iff.1 hseen
          rw [hid, hentry, h hid, ← hfingerprint] at hchanged
          simp at hchanged
        have hone : times id [notification] = 1 := by simp [times, hid]
        rw [hbefore, times_append, hone]
      · omega
    · have hsame : unseen id fingerprint (observed.1.set notification.id.trim
          ⟨notificationRevision notification, pollNumber⟩) = unseen id fingerprint observed.1 := by
        rw [unseen, unseen, OrderedMap.get_set_of_ne (Ne.symm hid)]
      have hnone : times id [notification] = 0 := by simp [times, hid]
      rw [hsame]
      split_ifs
      · rw [times_append, hnone, Nat.add_zero]
      · exact le_refl _

theorem times_foldl_observe_le
    (h : ∀ notification ∈ notifications,
      notification.id.trim = id → notificationRevision notification = fingerprint) :
    times id (notifications.foldl (observe isInitialPage pollNumber) observed).2 +
        unseen id fingerprint
          (notifications.foldl (observe isInitialPage pollNumber) observed).1 ≤
      times id observed.2 + unseen id fingerprint observed.1 := by
  induction notifications generalizing observed with
  | nil => exact le_refl _
  | cons notification notifications ih =>
    exact (ih fun other hother => h other (List.mem_cons_of_mem _ hother)).trans
      (times_observe_le (h notification List.mem_cons_self))

theorem mem_foldl_observe_of_mem (h : notification ∈ observed.2) :
    notification ∈ (notifications.foldl (observe isInitialPage pollNumber) observed).2 := by
  induction notifications generalizing observed with
  | nil => exact h
  | cons other notifications ih =>
    refine ih ?_
    by_cases hblank : other.id.trim = []
    · rwa [observe_blank hblank]
    · rw [observe_of_ne hblank]
      dsimp only
      split_ifs
      · exact List.mem_append_left _ h
      · exact h

/-- After the initial page, a notification of an id that is not tracked changes the page. -/
theorem exists_changed (hne : id ≠ []) (hnone : observed.1.get id = none)
    (h : ∃ notification ∈ notifications, notification.id.trim = id) :
    ∃ changed ∈ (notifications.foldl (observe false pollNumber) observed).2,
      changed.id.trim = id := by
  induction notifications generalizing observed with
  | nil =>
    obtain ⟨_, hmem, -⟩ := h
    exact absurd hmem List.not_mem_nil
  | cons first notifications ih =>
    by_cases hfirst : first.id.trim = id
    · refine ⟨first, ?_, hfirst⟩
      rw [List.foldl_cons]
      apply mem_foldl_observe_of_mem
      rw [observe_of_ne (by rw [hfirst]; exact hne), hfirst, hnone]
      exact List.mem_append_right _ (List.mem_singleton_self _)
    · obtain ⟨notification, hmem, hid⟩ := h
      have hlater : notification ∈ notifications := by
        rcases List.mem_cons.1 hmem with rfl | hmem
        · exact absurd hid hfirst
        · exact hmem
      refine ih ?_ ⟨notification, hlater, hid⟩
      by_cases hblank : first.id.trim = []
      · rwa [observe_blank hblank]
      · rw [observe_of_ne hblank]
        show OrderedMap.get (OrderedMap.set _ _ _) id = none
        rw [OrderedMap.get_set_of_ne (Ne.symm hfirst), hnone]

end

/-! ### Every event -/

/-- All the ids that are tracked or saved have been polled. -/
structure Tracks (seen : List Str) (s : System) : Prop where
  keys : ∀ id ∈ s.state.revisions.keys, id ∈ seen
  distinct : ∀ checkpoint, s.saved = some checkpoint →
    (checkpoint.revisions.map PersistedRevision.id).Nodup
  saved : ∀ checkpoint, s.saved = some checkpoint → ∀ revision ∈ checkpoint.revisions,
    revision.id ∈ seen

theorem tracks_init (seen : List Str) : Tracks seen .init where
  keys id h := absurd h List.not_mem_nil
  distinct checkpoint h := by cases h
  saved checkpoint h := by cases h

theorem keys_observePage {s : NotificationRevisionState} {notifications : List Notification}
    {id : Str} (h : id ∈ (s.observePage order notifications).1.revisions.keys) :
    id ∈ s.revisions.keys ∨ id ∈ ids notifications := by
  have hobserved : id ∈ (s.observeAll notifications).1.keys := by
    unfold observePage at h
    dsimp only at h
    split_ifs at h
    · rw [OrderedMap.mem_keys, OrderedMap.get_foldl_delete] at h
      split_ifs at h
      · cases h
      · exact OrderedMap.mem_keys.2 h
    · exact h
  exact mem_keys_foldl_observe hobserved

section

variable {seen : List Str} {s : System} {event : Event} {id fingerprint : Str}

theorem Tracks.step (h : Tracks seen s) (hevent : ∀ id ∈ ids (polled [event]), id ∈ seen) :
    Tracks seen (s.step event).1 := by
  cases event with
  | page notifications order =>
    have hpolled : polled [.page notifications order] = notifications := List.append_nil _
    rw [hpolled] at hevent
    refine ⟨fun id hid => ?_, h.distinct, h.saved⟩
    rcases keys_observePage hid with hid | hid
    · exact h.keys id hid
    · exact hevent id hid
  | save =>
    refine ⟨h.keys, ?_, ?_⟩
    · rintro checkpoint hsaved
      obtain rfl := Option.some.inj hsaved
      rw [revisions_checkpoint]
      exact nodup_persistedRevisions
    · rintro checkpoint hsaved revision hrevision
      obtain rfl := Option.some.inj hsaved
      rw [revisions_checkpoint] at hrevision
      obtain ⟨entry, hget, -⟩ := mem_persistedRevisions.1 hrevision
      exact h.keys _ (OrderedMap.mem_keys_of_get hget)
  | restart =>
    refine ⟨fun id hid => ?_, h.distinct, h.saved⟩
    show id ∈ seen
    cases hsaved : s.saved with
    | none =>
      have hempty : (s.step .restart).1.state = .empty := by
        show s.saved.elim _ _ = _
        rw [hsaved]
        rfl
      rw [hempty] at hid
      exact absurd hid List.not_mem_nil
    | some checkpoint =>
      have hrestored : (s.step .restart).1.state = .fromCheckpoint checkpoint := by
        show s.saved.elim _ _ = _
        rw [hsaved]
        rfl
      rw [hrestored] at hid
      obtain ⟨revision, hmem, rfl, -⟩ := mem_keys_restoredRevisions hid
      exact h.saved checkpoint hsaved revision hmem

theorem Tracks.run (h : Tracks seen s) (hevents : ∀ id ∈ ids (polled events), id ∈ seen) :
    Tracks seen (s.run events) := by
  induction events generalizing s with
  | nil => exact h
  | cons event events ih =>
    rw [polled_cons, ids_append] at hevents
    exact ih (h.step fun id hid => hevents id (List.mem_append_left _ hid))
      fun id hid => hevents id (List.mem_append_right _ hid)

/-- With few ids, nothing falls out of the window. -/
theorem observePage_eq {notifications : List Notification} (h : Tracks seen s)
    (hfew : seen.toFinset.card ≤ MAX_TRACKED_REVISIONS)
    (hpage : ∀ id ∈ ids notifications, id ∈ seen) : s.state.observePage order notifications =
      (⟨(s.state.observeAll notifications).1, s.state.pollNumber + 1⟩,
        (s.state.observeAll notifications).2) := by
  have hsub : (s.state.observeAll notifications).1.keys.toFinset ⊆ seen.toFinset := by
    intro id hid
    rw [List.mem_toFinset] at hid ⊢
    rcases mem_keys_foldl_observe hid with hid | hid
    · exact h.keys id hid
    · exact hpage id hid
  have hcard := (Finset.card_le_card hsub).trans hfew
  rw [List.toFinset_card_of_nodup (OrderedMap.nodup_keys _), OrderedMap.keys,
    List.length_map] at hcard
  unfold observePage
  dsimp only
  rw [if_neg (not_lt.2 hcard)]

/-- The revision of an id is emitted once at most by the events without a restart that show no
other one. -/
theorem times_step_le (h : Tracks seen s) (hfew : seen.toFinset.card ≤ MAX_TRACKED_REVISIONS)
    (hevent : ∀ id ∈ ids (polled [event]), id ∈ seen) (hrestart : event ≠ .restart)
    (honly : ∀ notification ∈ polled [event],
      notification.id.trim = id → notificationRevision notification = fingerprint) :
    times id (s.step event).2 + unseen id fingerprint (s.step event).1.state.revisions ≤
      unseen id fingerprint s.state.revisions := by
  cases event with
  | page notifications order =>
    have hpolled : polled [.page notifications order] = notifications := List.append_nil _
    rw [hpolled] at hevent honly
    have hfold : times id (s.state.observeAll notifications).2 +
        unseen id fingerprint (s.state.observeAll notifications).1 ≤
        times id [] + unseen id fingerprint s.state.revisions := times_foldl_observe_le honly
    have hstep : s.step (.page notifications order) =
        (⟨(s.state.observePage order notifications).1, s.saved⟩,
          (s.state.observePage order notifications).2.reverse) := rfl
    have hnil : times id ([] : List Notification) = 0 := rfl
    rw [hstep, observePage_eq h hfew hevent, times_reverse]
    rw [hnil, Nat.zero_add] at hfold
    exact hfold
  | save => exact (Nat.zero_add _).le
  | restart => exact absurd rfl hrestart

theorem times_emitted_le (h : Tracks seen s) (hfew : seen.toFinset.card ≤ MAX_TRACKED_REVISIONS)
    (hevents : ∀ id ∈ ids (polled events), id ∈ seen) (hrestart : .restart ∉ events)
    (honly : ∀ notification ∈ polled events,
      notification.id.trim = id → notificationRevision notification = fingerprint) :
    times id (s.emitted events) + unseen id fingerprint (s.run events).state.revisions ≤
      unseen id fingerprint s.state.revisions := by
  induction events generalizing s with
  | nil => exact (Nat.zero_add _).le
  | cons event events ih =>
    rw [polled_cons, ids_append] at hevents
    rw [polled_cons] at honly
    have hfirst := times_step_le h hfew (fun id hid => hevents id (List.mem_append_left _ hid))
      (fun heq => hrestart (heq ▸ List.mem_cons_self))
      (fun notification hmem => honly notification (List.mem_append_left _ hmem))
    have hrest := ih (h.step fun id hid => hevents id (List.mem_append_left _ hid))
      (fun id hid => hevents id (List.mem_append_right _ hid))
      (fun hmem => hrestart (List.mem_cons_of_mem _ hmem))
      (fun notification hmem => honly notification (List.mem_append_right _ hmem))
    rw [System.emitted, times_append, System.run_cons]
    omega

/-- A revision of the saved checkpoint is not emitted by events that show no other one, whatever
restarts there are. -/
theorem times_emitted_of_saved {checkpoint : PersistedCheckpoint} {revision : PersistedRevision}
    (h : Tracks seen s) (hfew : seen.toFinset.card ≤ MAX_TRACKED_REVISIONS)
    (hevents : ∀ id ∈ ids (polled events), id ∈ seen) (hsave : .save ∉ events)
    (hsaved : s.saved = some checkpoint) (hrevision : revision ∈ checkpoint.revisions)
    (hblank : revision.id.trim ≠ [])
    (htracked : unseen revision.id revision.fingerprint s.state.revisions = 0)
    (honly : ∀ notification ∈ polled events,
      notification.id.trim = revision.id →
        notificationRevision notification = revision.fingerprint) :
    times revision.id (s.emitted events) = 0 := by
  have hlength : checkpoint.revisions.length ≤ MAX_TRACKED_REVISIONS := by
    have hsub : (checkpoint.revisions.map PersistedRevision.id).toFinset ⊆ seen.toFinset := by
      intro id hid
      rw [List.mem_toFinset] at hid ⊢
      obtain ⟨other, hother, rfl⟩ := List.mem_map.1 hid
      exact h.saved checkpoint hsaved other hother
    have hcard := (Finset.card_le_card hsub).trans hfew
    rwa [List.toFinset_card_of_nodup (h.distinct checkpoint hsaved), List.length_map] at hcard
  have hrestored : unseen revision.id revision.fingerprint (restoredRevisions checkpoint) = 0 := by
    rw [unseen, get_restoredRevisions (h.distinct checkpoint hsaved) hlength hrevision hblank]
    exact if_pos rfl
  clear hlength
  induction events generalizing s with
  | nil => rfl
  | cons event events ih =>
    rw [polled_cons, ids_append] at hevents
    rw [polled_cons] at honly
    have hpage : ∀ id ∈ ids (polled [event]), id ∈ seen := fun id hid =>
      hevents id (List.mem_append_left _ hid)
    have hkept : (s.step event).1.saved = some checkpoint ∧ times revision.id (s.step event).2 = 0 ∧
        unseen revision.id revision.fingerprint (s.step event).1.state.revisions = 0 := by
      by_cases hrestart : event = .restart
      · subst hrestart
        refine ⟨hsaved, rfl, ?_⟩
        show unseen _ _ (s.saved.elim NotificationRevisionState.empty fromCheckpoint).revisions = 0
        rw [hsaved]
        exact hrestored
      · have hle := times_step_le h hfew hpage hrestart
          (fun notification hmem => honly notification (List.mem_append_left _ hmem))
        refine ⟨?_, by omega, by omega⟩
        cases event with
        | page notifications order => exact hsaved
        | save => exact absurd List.mem_cons_self hsave
        | restart => exact hsaved
    obtain ⟨hsaved', hnone, htracked'⟩ := hkept
    have hrest := ih (h.step hpage) (fun id hid => hevents id (List.mem_append_right _ hid))
      (fun hmem => hsave (List.mem_cons_of_mem _ hmem)) hsaved' htracked'
      (fun notification hmem => honly notification (List.mem_append_right _ hmem))
    rw [System.emitted, times_append, hnone, hrest]

end

/-! ### The start -/

theorem saved_run_eq_none_iff (events : List Event) :
    (System.init.run events).saved = none ↔ .save ∉ events := by
  induction events using List.reverseRecOn with
  | nil => simp [System.init]
  | append_singleton events event ih =>
    rw [System.run_append, List.mem_append, not_or, ← ih, List.mem_singleton]
    cases event with
    | page notifications order => simp [System.step]
    | save => simp [System.step]
    | restart => simp [System.step]

theorem fresh_snoc_iff {event : Event} : Fresh (events ++ [event]) ↔
    event = .restart ∧ .save ∉ events ∨ event = .save ∧ Fresh events := by
  constructor
  · intro h
    generalize hall : events ++ [event] = all at h
    cases h with
    | start => exact absurd hall (List.append_ne_nil_of_right_ne_nil _ (List.cons_ne_nil _ _))
    | restart hsave =>
      obtain ⟨rfl, hlast⟩ := List.append_inj' hall rfl
      exact Or.inl ⟨List.singleton_inj.1 hlast, hsave⟩
    | save hfresh =>
      obtain ⟨rfl, hlast⟩ := List.append_inj' hall rfl
      exact Or.inr ⟨List.singleton_inj.1 hlast, hfresh⟩
  · rintro (⟨rfl, hsave⟩ | ⟨rfl, hfresh⟩)
    · exact .restart hsave
    · exact .save hfresh

theorem pollNumber_run_eq_zero_iff (events : List Event) :
    (System.init.run events).state.pollNumber = 0 ↔ Fresh events := by
  induction events using List.reverseRecOn with
  | nil => exact iff_of_true rfl .start
  | append_singleton events event ih =>
    rw [System.run_append, fresh_snoc_iff]
    cases event with
    | page notifications order =>
      refine iff_of_false (Nat.succ_ne_zero _) ?_
      rintro (⟨h, -⟩ | ⟨h, -⟩)
      · cases h
      · cases h
    | save =>
      simp only [reduceCtorEq, false_and, false_or, true_and]
      exact ih
    | restart =>
      simp only [reduceCtorEq, false_and, or_false, true_and]
      rw [← saved_run_eq_none_iff]
      show ((System.init.run events).saved.elim NotificationRevisionState.empty
        fromCheckpoint).pollNumber = 0 ↔ _
      cases (System.init.run events).saved with
      | none => exact iff_of_true rfl rfl
      | some checkpoint => exact iff_of_false one_ne_zero (Option.some_ne_none _)

/-! ### Once -/

def like : Notification :=
  ⟨"at://did:plc:bob/app.bsky.feed.like/1", "favourite", 1, "did:plc:bob", none⟩

def relike : Notification := { like with createdAt := 2 }

/-- A poll that finds the notifications. -/
def poll (notifications : List Notification) : Event := .page notifications insertionOrder

end Awayuki.BlueskyPolling
