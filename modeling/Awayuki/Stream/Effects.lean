import Awayuki.Stream.Coalescing

/-!
# What the events of a micro-batch do to one status

Saves, deletions and deliveries act on each status by itself, once the server never changes what
the tables keep: the time, the author and the original of a status.

* `Server`, `Obeys`: what a server never changes, and what agrees with it;
* `Store.entry`: the content of a status and its timelines;
* `kills`, `carried`: the events that take a status away, and those that write it;
* `entry_persist`, `entry_oneByOne`, `shown_deliver`: one status through a list of events.
-/

namespace Awayuki.MicroBatch

open ProcessedEvent

variable {α : Type} {events : List (ProcessedEvent α)} {e : ProcessedEvent α}

/-- What a server never changes of a status. -/
structure Server where
  createdAt : Str → Str
  accountId : Str → Str
  reblogOf : Str → Option Str

/-- The status is as its server answers it. -/
structure Status.Obeys (server : Server) (status : Status α) : Prop where
  createdAt : status.createdAt = server.createdAt status.id
  accountId : status.accountId = server.accountId status.id
  reblogOf : status.reblog.map Status.id = server.reblogOf status.id

namespace ProcessedEvent

/-- The statuses that are saved for an event, in order. -/
def graph : ProcessedEvent α → List (Status α)
  | update status | statusUpdate status => status.graph
  | notification n => (n.status.map Status.graph).getD []
  | delete _ | resync => []

def Obeys (server : Server) (e : ProcessedEvent α) : Prop := ∀ s ∈ e.graph, s.Obeys server

/-- The content that an event writes of a status. -/
def carried (e : ProcessedEvent α) (x : Str) : Option α :=
  (e.graph.reverse.find? fun s => s.id = x).map Status.content

/-- Does an event announce a status to the timeline? -/
def announces (e : ProcessedEvent α) (x : Str) : Bool :=
  match e with
  | update s => s.id = x
  | _ => false

/-- Does an event take a status away, itself or as a boost of the status it deletes? -/
def kills (server : Server) (e : ProcessedEvent α) (x : Str) : Bool :=
  match e with
  | delete id => decide (x = id) || decide (server.reblogOf x = some id)
  | _ => false

theorem carried_of_announces {x : Str} (h : e.announces x) : (e.carried x).isSome := by
  cases e with
  | update s =>
    simp only [announces, decide_eq_true_eq] at h
    simp [carried, graph, Status.graph, h]
  | _ => simp [announces] at h

end ProcessedEvent

/-! ### The store -/

namespace Store

/-- The rows are as the server answers them, and the entries are of rows that are there. -/
structure Obeys (server : Server) (store : Store α) : Prop where
  createdAt : ∀ x row, store.statuses x = some row → row.createdAt = server.createdAt x
  accountId : ∀ x row, store.statuses x = some row → row.accountId = server.accountId x
  reblogOf : ∀ x row, store.statuses x = some row → row.reblogOfId = server.reblogOf x
  entries : ∀ x, store.statuses x = none → store.timelineEntries x = ∅

/-- The content of a status that is stored, and its timelines. -/
def entry (store : Store α) (x : Str) : Option (α × Finset (Str × Str)) :=
  (store.statuses x).map fun row => (row.content, store.timelineEntries x)

variable {server : Server} {store store' : Store α}

theorem entry_eq_none {x : Str} : store.entry x = none ↔ store.statuses x = none := by
  simp [entry]

theorem Obeys.timelineEntries (h : store.Obeys server) (x : Str) :
    store.timelineEntries x = ((store.entry x).map Prod.snd).getD ∅ := by
  rw [entry]
  cases hx : store.statuses x with
  | none => exact h.entries x hx
  | some row => rfl

/-- Stores of one server are told apart by contents and timelines. -/
theorem Obeys.ext (h : store.Obeys server) (h' : store'.Obeys server)
    (hentry : ∀ x, store.entry x = store'.entry x) : store = store' := by
  refine Store.ext (funext fun x => ?_) (funext fun x => ?_)
  · have hx := hentry x
    simp only [entry] at hx
    cases hrow : store.statuses x with
    | none =>
      rw [hrow, Option.map_none] at hx
      exact (Option.map_eq_none_iff.1 hx.symm).symm
    | some row =>
      rw [hrow, Option.map_some] at hx
      obtain ⟨row', hrow', heq⟩ := Option.map_eq_some_iff.1 hx.symm
      rw [hrow']
      have hcreated := (h.createdAt x row hrow).trans (h'.createdAt x row' hrow').symm
      have haccount := (h.accountId x row hrow).trans (h'.accountId x row' hrow').symm
      have hreblog := (h.reblogOf x row hrow).trans (h'.reblogOf x row' hrow').symm
      have hcontent := congrArg Prod.fst heq
      cases row
      cases row'
      simp_all
  · rw [h.timelineEntries, h'.timelineEntries, hentry x]

/-! #### Saves -/

theorem entry_upsertStatus (h : store.Obeys server) (s : Status α) (x : Str) :
    (store.upsertStatus s).entry x =
      if s.id = x then some (s.content, ((store.entry x).map Prod.snd).getD ∅)
      else store.entry x := by
  rw [← h.timelineEntries]
  simp only [entry, upsertStatus, Function.update_apply, eq_comm (a := x)]
  split_ifs with hx
  · simp
  · rfl

theorem Obeys.upsertStatus (h : store.Obeys server) {s : Status α} (hs : s.Obeys server) :
    (store.upsertStatus s).Obeys server := by
  have hrow (x : Str) (row : Row α) (hrow : (store.upsertStatus s).statuses x = some row) :
      store.statuses x = some row ∨ s.id = x ∧
        row.createdAt = server.createdAt x ∧ row.accountId = server.accountId x ∧
          row.reblogOfId = server.reblogOf x := by
    simp only [Store.upsertStatus, Function.update_apply] at hrow
    split_ifs at hrow with hx
    · subst hx
      obtain rfl := Option.some.inj hrow
      refine .inr ⟨rfl, ?_, ?_, hs.reblogOf⟩
      · cases hold : store.statuses s.id with
        | none => exact hs.createdAt
        | some old => exact h.createdAt _ old hold
      · cases hold : store.statuses s.id with
        | none => exact hs.accountId
        | some old => exact h.accountId _ old hold
    · exact .inl hrow
  refine ⟨fun x row hx => ?_, fun x row hx => ?_, fun x row hx => ?_, fun x hx => ?_⟩
  · exact (hrow x row hx).elim (h.createdAt x row) fun h => h.2.1
  · exact (hrow x row hx).elim (h.accountId x row) fun h => h.2.2.1
  · exact (hrow x row hx).elim (h.reblogOf x row) fun h => h.2.2.2
  · refine h.entries x ?_
    simp only [Store.upsertStatus, Function.update_apply] at hx
    split_ifs at hx
    exact hx

theorem obeys_foldl_upsertStatus (h : store.Obeys server) {l : List (Status α)}
    (hl : ∀ s ∈ l, s.Obeys server) :
    (l.foldl Store.upsertStatus store).Obeys server ∧ ∀ x,
      (l.foldl Store.upsertStatus store).entry x =
        match l.reverse.find? fun s => s.id = x with
        | some s => some (s.content, ((store.entry x).map Prod.snd).getD ∅)
        | none => store.entry x := by
  induction l using List.reverseRecOn with
  | nil => exact ⟨h, fun x => rfl⟩
  | append_singleton l s ih =>
    obtain ⟨hobeys, hentry⟩ := ih fun t ht => hl t (List.mem_append_left _ ht)
    have hs := hl s (by simp)
    rw [List.foldl_append]
    refine ⟨hobeys.upsertStatus hs, fun x => ?_⟩
    rw [List.foldl_cons, List.foldl_nil, entry_upsertStatus hobeys, List.reverse_append,
      List.reverse_singleton, List.singleton_append, List.find?_cons, hentry]
    by_cases hx : s.id = x
    · simp only [hx, if_true, decide_true]
      cases l.reverse.find? fun t => t.id = x <;> rfl
    · simp only [hx, if_false, decide_false]

theorem obeys_insertTimelineEntry (h : store.Obeys server) {id : Str}
    (hid : store.statuses id ≠ none) (e : Str × Str) :
    (store.insertTimelineEntry id e).Obeys server := by
  refine ⟨h.createdAt, h.accountId, h.reblogOf, fun x hx => ?_⟩
  have hne : x ≠ id := fun heq => hid (heq ▸ hx)
  simp only [insertTimelineEntry, Function.update_of_ne hne]
  exact h.entries x hx

theorem entry_insertTimelineEntry (id : Str) (e : Str × Str) (x : Str) :
    (store.insertTimelineEntry id e).entry x =
      if id = x then (store.entry x).map fun v => (v.1, insert e v.2) else store.entry x := by
  simp only [entry, insertTimelineEntry, Function.update_apply, eq_comm (a := x)]
  split_ifs with hx
  · subst hx
    cases store.statuses id <;> rfl
  · rfl

end Store

section Persistence

variable {server : Server} (timeline : Option (Str × Str))

/-- What an event adds to the timelines of a status. -/
def joined (e : ProcessedEvent α) (x : Str) : Finset (Str × Str) :=
  if e.announces x then timeline.toFinset else ∅

/-- The save of an event, seen from one status. -/
def saved (x : Str) (v : Option (α × Finset (Str × Str))) (e : ProcessedEvent α) :
    Option (α × Finset (Str × Str)) :=
  match e.carried x with
  | none => v
  | some c => some (c, (v.map Prod.snd).getD ∅ ∪ joined timeline e x)

/-- The save of an event. -/
def save (store : Store α) (e : ProcessedEvent α) : Store α :=
  match batchItem timeline e with
  | some item => store.saveStatusItem item
  | none => store

theorem foldl_saveStatusItem (store : Store α) (events : List (ProcessedEvent α)) :
    (events.filterMap (batchItem timeline)).foldl Store.saveStatusItem store =
      events.foldl (save timeline) store := by
  induction events generalizing store with
  | nil => rfl
  | cons e events ih =>
    rw [List.filterMap_cons, List.foldl_cons, ← ih]
    cases h : batchItem timeline e <;> simp [save, h]

variable {timeline} {store : Store α}

theorem obeys_saveStatusItem (h : store.Obeys server) (status : Status α)
    (hstatus : ∀ s ∈ status.graph, s.Obeys server) (tl : Option (Str × Str)) :
    (store.saveStatusItem ⟨status, tl⟩).Obeys server ∧ ∀ x,
      (store.saveStatusItem ⟨status, tl⟩).entry x =
        match (status.graph.reverse.find? fun s => s.id = x).map Status.content with
        | some c => some (c, ((store.entry x).map Prod.snd).getD ∅ ∪
            if status.id = x then tl.toFinset else ∅)
        | none => store.entry x := by
  obtain ⟨hobeys, hentry⟩ := Store.obeys_foldl_upsertStatus h hstatus
  have hself : (status.graph.reverse.find? fun s => s.id = status.id) = some status := by
    simp [Status.graph]
  cases tl with
  | none =>
    refine ⟨hobeys, fun x => ?_⟩
    rw [Store.saveStatusItem, Store.persistStatusGraph, hentry]
    cases status.graph.reverse.find? fun s => s.id = x <;> simp
  | some e =>
    have hthere : (store.persistStatusGraph status).statuses status.id ≠ none := by
      rw [ne_eq, ← Store.entry_eq_none, Store.persistStatusGraph, hentry, hself]
      exact Option.some_ne_none _
    refine ⟨Store.obeys_insertTimelineEntry hobeys hthere e, fun x => ?_⟩
    rw [Store.saveStatusItem, Store.entry_insertTimelineEntry, Store.persistStatusGraph, hentry]
    by_cases hx : status.id = x
    · subst hx
      rw [hself, if_pos rfl, if_pos rfl]
      simp
    · rw [if_neg hx]
      cases status.graph.reverse.find? fun s => s.id = x <;> simp [hx]

variable (timeline)

/-- A save acts on each status by itself. -/
theorem obeys_save (h : store.Obeys server) (he : e.Obeys server) :
    (save timeline store e).Obeys server ∧
      ∀ x, (save timeline store e).entry x = saved timeline x (store.entry x) e := by
  cases e with
  | update s =>
    obtain ⟨hobeys, hentry⟩ := obeys_saveStatusItem h s he timeline
    refine ⟨hobeys, fun x => (hentry x).trans ?_⟩
    simp only [saved, carried, graph, joined, announces, decide_eq_true_eq]
    cases (s.graph.reverse.find? fun s => s.id = x).map Status.content <;> rfl
  | statusUpdate s =>
    obtain ⟨hobeys, hentry⟩ := obeys_saveStatusItem h s he none
    refine ⟨hobeys, fun x => (hentry x).trans ?_⟩
    simp only [saved, carried, graph, joined, announces]
    cases (s.graph.reverse.find? fun s => s.id = x).map Status.content <;> simp
  | delete id => exact ⟨h, fun x => rfl⟩
  | notification n =>
    cases hn : n.status with
    | none =>
      have hsave : save timeline store (.notification n) = store := by
        simp [save, batchItem, hn]
      rw [hsave]
      refine ⟨h, fun x => ?_⟩
      simp [saved, carried, graph, hn]
    | some s =>
      have hsave : save timeline store (.notification n) = store.saveStatusItem ⟨s, none⟩ := by
        simp [save, batchItem, hn]
      have hs : ∀ t ∈ s.graph, t.Obeys server := by
        simpa [ProcessedEvent.Obeys, graph, hn] using he
      obtain ⟨hobeys, hentry⟩ := obeys_saveStatusItem h s hs none
      rw [hsave]
      refine ⟨hobeys, fun x => (hentry x).trans ?_⟩
      simp only [saved, carried, graph, joined, announces, hn, Option.map_some, Option.getD_some]
      cases (s.graph.reverse.find? fun s => s.id = x).map Status.content <;> simp
  | resync => exact ⟨h, fun x => rfl⟩

theorem obeys_foldl_save (h : store.Obeys server) (he : ∀ e ∈ events, e.Obeys server) :
    (events.foldl (save timeline) store).Obeys server ∧ ∀ x,
      (events.foldl (save timeline) store).entry x =
        events.foldl (saved timeline x) (store.entry x) := by
  induction events generalizing store with
  | nil => exact ⟨h, fun x => rfl⟩
  | cons e events ih =>
    obtain ⟨hobeys, hentry⟩ := obeys_save timeline h (he e List.mem_cons_self)
    obtain ⟨hobeys', hentry'⟩ := ih hobeys fun f hf => he f (List.mem_cons_of_mem _ hf)
    refine ⟨hobeys', fun x => ?_⟩
    rw [List.foldl_cons, hentry' x, hentry x]
    rfl

/-! #### Deletions -/

theorem obeys_delete (h : store.Obeys server) (id : Str) :
    (store.deleteStatusAndReferences id).Obeys server ∧ ∀ x,
      (store.deleteStatusAndReferences id).entry x =
        if kills server (.delete id : ProcessedEvent α) x then none else store.entry x := by
  constructor
  · refine ⟨fun x row hx => ?_, fun x row hx => ?_, fun x row hx => ?_, fun x hx => ?_⟩ <;>
      simp only [Store.deleteStatusAndReferences] at hx ⊢ <;> split_ifs at hx ⊢ with hdel
    · exact h.createdAt x row hx
    · exact h.accountId x row hx
    · exact h.reblogOf x row hx
    · rfl
    · exact h.entries x hx
  · intro x
    have hdeleted : (decide (x = id) || decide ((store.statuses x).bind Row.reblogOfId = some id))
        = true → kills server (.delete id : ProcessedEvent α) x := by
      cases hrow : store.statuses x with
      | none => simp +contextual [kills]
      | some row => simp [kills, h.reblogOf x row hrow]
    have hkept : kills server (.delete id : ProcessedEvent α) x → store.entry x = none ∨
        (decide (x = id) || decide ((store.statuses x).bind Row.reblogOfId = some id)) = true := by
      rw [Store.entry_eq_none]
      cases hrow : store.statuses x with
      | none => exact fun _ => .inl rfl
      | some row => simp [kills, h.reblogOf x row hrow]
    rw [Store.entry, Store.deleteStatusAndReferences]
    dsimp only
    split_ifs with hdel hkill hkill
    · rfl
    · exact absurd (hdeleted hdel) hkill
    · exact (hkept hkill).elim (fun h => h) fun hdel' => absurd hdel' hdel
    · rfl

theorem obeys_foldl_delete (h : store.Obeys server) (events : List (ProcessedEvent α)) :
    ((events.filterMap deletedId).foldl Store.deleteStatusAndReferences store).Obeys server ∧
      ∀ x, ((events.filterMap deletedId).foldl Store.deleteStatusAndReferences store).entry x =
        if events.any (kills server · x) then none else store.entry x := by
  induction events generalizing store with
  | nil => exact ⟨h, fun x => rfl⟩
  | cons e events ih =>
    cases e with
    | delete id =>
      obtain ⟨hobeys, hentry⟩ := obeys_delete h id
      obtain ⟨hobeys', hentry'⟩ := ih hobeys
      refine ⟨hobeys', fun x => ?_⟩
      rw [List.filterMap_cons, deletedId, List.foldl_cons, hentry', hentry, List.any_cons]
      cases kills server (.delete id : ProcessedEvent α) x <;> simp
    | update _ | statusUpdate _ | notification _ | resync => exact ih h

/-- A batch persisted at once: its saves in order, unless an event takes the status away. -/
theorem entry_persist (h : store.Obeys server) (stream : Stream)
    (he : ∀ e ∈ events, e.Obeys server) :
    (persistEventBatch stream store events).Obeys server ∧ ∀ x,
      (persistEventBatch stream store events).entry x =
        if events.any (kills server · x) then none
        else events.foldl (saved stream.timeline x) (store.entry x) := by
  rw [persistEventBatch, foldl_saveStatusItem]
  obtain ⟨hobeys, hentry⟩ := obeys_foldl_save stream.timeline h he
  obtain ⟨hobeys', hentry'⟩ := obeys_foldl_delete hobeys events
  exact ⟨hobeys', fun x => by rw [hentry' x, hentry x]⟩

end Persistence

/-! ### Delivery -/

section Delivery

variable {server : Server}

/-- The statuses that are shown are as the server answers them. -/
def Shown.Obeys (server : Server) (shown : Shown α) : Prop :=
  ∀ x s, shown x = some s → s.reblog.map Status.id = server.reblogOf x

/-- The delivery of an event, seen from one status. -/
def showed (server : Server) (x : Str) (w : Option (Status α)) (e : ProcessedEvent α) :
    Option (Status α) :=
  match e with
  | update s => if s.id = x then some s else w
  | statusUpdate s => if s.id = x ∧ w.isSome then some s else w
  | delete id => if kills server (delete id : ProcessedEvent α) x then none else w
  | notification _ | resync => w

variable {shown : Shown α}

theorem obeys_update (h : Shown.Obeys server shown) {s : Status α} (hs : s.Obeys server) :
    Shown.Obeys server (Function.update shown s.id (some s)) := by
  intro x t hx
  rw [Function.update_apply] at hx
  split_ifs at hx with heq
  · obtain rfl := Option.some.inj hx
    exact heq ▸ hs.reblogOf
  · exact h x t hx

/-- A delivery acts on each status by itself. -/
theorem shown_receive (h : Shown.Obeys server shown) (stream : Stream) (he : e.Obeys server) :
    Shown.Obeys server (receive shown (timelineEvent stream e)) ∧
      ∀ x, receive shown (timelineEvent stream e) x = showed server x (shown x) e := by
  cases e with
  | update s =>
    refine ⟨obeys_update h (he s (by simp [graph, Status.graph])), fun x => ?_⟩
    simp only [timelineEvent, receive, showed, Function.update_apply, eq_comm (a := x)]
  | statusUpdate s =>
    have hobeys := obeys_update h (he s (by simp [graph, Status.graph]))
    simp only [timelineEvent, receive, showed]
    constructor
    · split_ifs
      · exact hobeys
      · exact h
    · intro x
      by_cases hx : s.id = x
      · subst hx
        split_ifs with hsome <;> simp_all
      · split_ifs <;> simp_all [Function.update_of_ne (Ne.symm hx)]
  | delete id =>
    simp only [timelineEvent, receive, showed]
    refine ⟨fun x s hx => h x s (Option.filter_eq_some_iff.1 hx).1, fun x => ?_⟩
    cases hx : shown x with
    | none => simp
    | some s =>
      rw [Option.filter_some, h x s hx, kills]
      cases decide (x = id) || decide (server.reblogOf x = some id) <;> rfl
  | notification n => exact ⟨h, fun x => rfl⟩
  | resync => exact ⟨h, fun x => rfl⟩

theorem shown_deliver (h : Shown.Obeys server shown) (stream : Stream)
    (he : ∀ e ∈ events, e.Obeys server) :
    Shown.Obeys server ((events.map (timelineEvent stream)).foldl receive shown) ∧ ∀ x,
      (events.map (timelineEvent stream)).foldl receive shown x =
        events.foldl (showed server x) (shown x) := by
  induction events generalizing shown with
  | nil => exact ⟨h, fun x => rfl⟩
  | cons e events ih =>
    obtain ⟨hobeys, hshown⟩ := shown_receive h stream (he e List.mem_cons_self)
    obtain ⟨hobeys', hshown'⟩ := ih hobeys fun f hf => he f (List.mem_cons_of_mem _ hf)
    refine ⟨hobeys', fun x => ?_⟩
    rw [List.map_cons, List.foldl_cons, hshown' x, hshown x]
    rfl

end Delivery

/-! ### One event at a time -/

section OneByOne

variable {server : Server} (timeline : Option (Str × Str))

/-- An event handled by itself, seen from one status. -/
def stepped (server : Server) (x : Str) (v : Option (α × Finset (Str × Str)))
    (e : ProcessedEvent α) : Option (α × Finset (Str × Str)) :=
  if kills server e x then none else saved timeline x v e

variable {timeline}

theorem handle_one_by_one (stream : Stream) {state : State α} (hstore : state.1.Obeys server)
    (hshown : Shown.Obeys server state.2) (he : ∀ e ∈ events, e.Obeys server) :
    let after := events.foldl (fun state event => handle stream state [event]) state
    after.1.Obeys server ∧
      (∀ x, after.1.entry x = events.foldl (stepped stream.timeline server x) (state.1.entry x)) ∧
      ∀ x, after.2 x = events.foldl (showed server x) (state.2 x) := by
  induction events generalizing state with
  | nil => exact ⟨hstore, fun x => rfl, fun x => rfl⟩
  | cons e events ih =>
    have hone : ∀ f ∈ [e], f.Obeys server := by simpa using he e List.mem_cons_self
    obtain ⟨hobeys, hentry⟩ := entry_persist hstore stream hone
    obtain ⟨hobeys', hshow⟩ := shown_deliver hshown stream hone
    obtain ⟨hafter, hentry', hshow'⟩ := @ih (handle stream state [e]) hobeys hobeys'
      fun f hf => he f (List.mem_cons_of_mem _ hf)
    refine ⟨hafter, fun x => ?_, fun x => ?_⟩
    · have hstep : (handle stream state [e]).1.entry x =
          stepped stream.timeline server x (state.1.entry x) e := by
        rw [stepped, handle, hentry x]
        simp
      rw [List.foldl_cons, hentry' x, hstep, List.foldl_cons]
    · rw [List.foldl_cons, hshow' x, handle]
      dsimp only
      rw [hshow x]
      rfl

end OneByOne

end Awayuki.MicroBatch
