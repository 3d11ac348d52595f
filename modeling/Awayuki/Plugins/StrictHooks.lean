import Awayuki.Plugins.Manager

/-!
# Plugins: strict hooks

A token for a hook is the revision of the plugin set.  It must not outlive the set: whatever
changes which loads have registered a hook has to change the revision.

* `registered`: the loads that have registered a hook, in the order of their ids;
* `Marks`: the revision tells whether the loads are the same, which composes over steps;
* `marks_step_iff`: every step marks its changes, but for a reload that stops too early;
* `StrictHooks`: a checked hook run invokes the loads its token was issued for.
-/

namespace Awayuki.Plugins

/-- The load of a record that has registered the hook. -/
def registration (hook : PluginHook) (e : Str × PluginRecord) : Option (Str × ℕ) :=
  if PluginActor.hasHook hook e.2 then some (e.1, e.2.generation) else none

namespace PluginActor

variable {β : Type} {hook : PluginHook} {t : PluginActor} {event : Event β} {result : Value β}
  {events : List (Event β)} {finishesBy : ℕ} {next : Value β} {invoked : List (Invocation β)}
  {token : PluginHookToken}

/-- The loads, by id and generation, that have registered the hook. -/
def registered (s : PluginActor) (hook : PluginHook) : List (Str × ℕ) :=
  s.plugins.parts (registration hook)

theorem mem_registered {s : PluginActor} {load : Str × ℕ} : load ∈ s.registered hook ↔
      ∃ e ∈ s.plugins.entries, hasHook hook e.2 = true ∧ (e.1, e.2.generation) = load := by
  simp only [registered, SortedMap.parts, List.mem_filterMap, registration]
  refine exists_congr fun e => and_congr_right fun _ => ?_
  split_ifs with h
  · simp [h]
  · simp [h]

/-- Each load stands once, in the order of the ids. -/
theorem pairwise_registered (s : PluginActor) (hook : PluginHook) :
    (s.registered hook).Pairwise fun a b => a.1 < b.1 := by
  refine List.pairwise_filterMap.2 (s.plugins.sorted.imp fun hlt => ?_)
  intro a ha b hb
  unfold registration at ha hb
  split_ifs at ha hb
  cases ha
  cases hb
  exact hlt

/-! ### Marked changes -/

/-- The revision does not go back, and it stays only while the loads of every hook do. -/
structure Marks (s t : PluginActor) : Prop where
  le : s.revision ≤ t.revision
  same : t.revision = s.revision → ∀ hook, t.registered hook = s.registered hook

theorem Marks.of_eq {s : PluginActor} (hrevision : t.revision = s.revision)
    (h : ∀ hook, t.registered hook = s.registered hook) : Marks s t :=
  ⟨hrevision.ge, fun _ => h⟩

theorem Marks.refl (s : PluginActor) : Marks s s := .of_eq rfl fun _ => rfl

theorem Marks.of_lt {s : PluginActor} (h : s.revision < t.revision) : Marks s t :=
  ⟨h.le, fun heq => absurd heq h.ne'⟩

theorem Marks.trans {s u : PluginActor} (h : Marks s t) (h' : Marks t u) : Marks s u := by
  refine ⟨h.le.trans h'.le, fun heq hook => ?_⟩
  have hfirst : t.revision = s.revision := le_antisymm (heq ▸ h'.le) h.le
  have hsecond : u.revision = t.revision := heq.trans hfirst.symm
  rw [h'.same hsecond hook, h.same hfirst hook]

section Commands

variable (world : World β) {s : PluginActor}

theorem marks_reloadPluginInner (s : PluginActor) (pluginId : Str) :
    Marks s (s.reloadPluginInner world pluginId).2 := by
  unfold reloadPluginInner
  cases h : s.plugins.get pluginId with
  | none =>
    simp only [takeGeneration, h]
    exact .of_eq rfl fun _ => rfl
  | some record =>
    simp only [takeGeneration, h]
    exact .of_lt (Nat.lt_succ_self _)

theorem marks_unloadPluginInner (s : PluginActor) (pluginId : Str) :
    Marks s (s.unloadPluginInner pluginId).2 := by
  unfold unloadPluginInner
  cases h : s.plugins.get pluginId with
  | none =>
    simp only [takeGeneration, h]
    exact .of_eq rfl fun _ => rfl
  | some record =>
    simp only [takeGeneration, h]
    exact .of_lt (Nat.lt_succ_self _)

theorem marks_poison (s : PluginActor) (failure : Str × Str) : Marks s (s.poison failure) :=
  .of_lt (Nat.lt_succ_self _)

theorem marks_foldl_poison (failures : List (Str × Str)) (s : PluginActor) :
    Marks s (failures.foldl poison s) := by
  induction failures generalizing s with
  | nil => exact .refl s
  | cons failure failures ih => exact (marks_poison s failure).trans (ih _)

theorem marks_invokeComposeButtonInner (s : PluginActor) (pluginId buttonId : Str)
    (generation : ℕ) (compose : Value β) :
    Marks s (s.invokeComposeButtonInner world pluginId buttonId generation compose).2 := by
  unfold invokeComposeButtonInner
  cases s.plugins.get pluginId with
  | none => exact .refl s
  | some record =>
    dsimp only
    split_ifs
    · exact .refl s
    · cases record.runtime with
      | none => exact .refl s
      | some runtime =>
        dsimp only
        cases invokeComposeButton world runtime pluginId buttonId compose with
        | ok value => exact .refl s
        | error error =>
          dsimp only
          split_ifs
          · exact marks_poison s _
          · exact .refl s

theorem marks_pumpOneEventLoop (s : PluginActor) : Marks s (s.pumpOneEventLoop world) := by
  unfold pumpOneEventLoop
  cases s.nextPumped with
  | none => exact .of_eq rfl fun _ => rfl
  | some nextId =>
    dsimp only
    cases world.background nextId with
    | none => exact .of_eq rfl fun _ => rfl
    | some error => exact .of_lt (Nat.lt_succ_self _)

/-! ### Reloading all plugins -/

/-- A discovered file registers nothing by itself. -/
theorem registered_discover (s : PluginActor) (file : Str × Str) (hook : PluginHook) :
    (s.discover file).registered hook = s.registered hook :=
  SortedMap.parts_upsert rfl fun _ => rfl

theorem foldl_discover (files : List (Str × Str)) (s : PluginActor) :
    (files.foldl discover s).revision = s.revision ∧
      ∀ hook, (files.foldl discover s).registered hook = s.registered hook := by
  induction files generalizing s with
  | nil => exact ⟨rfl, fun _ => rfl⟩
  | cons file files ih =>
    obtain ⟨hrevision, hregistered⟩ := ih (s.discover file)
    exact ⟨hrevision, fun hook => (hregistered hook).trans (registered_discover s file hook)⟩

theorem marks_reloadEach (finishesBy : Option ℕ) (ids : List Str) (s : PluginActor) :
    Marks s (reloadEach world finishesBy ids s).2 := by
  induction ids generalizing s with
  | nil => exact .of_lt (Nat.lt_succ_self _)
  | cons id ids ih =>
    unfold reloadEach
    cases stopsAt world finishesBy id with
    | some error => exact .refl s
    | none =>
      have hone := marks_reloadPluginInner world s id
      dsimp only
      cases hreload : s.reloadPluginInner world id with
      | mk result t =>
        rw [hreload] at hone
        cases result with
        | ok => exact hone.trans (ih t)
        | error error => exact hone

theorem keys_foldl_discover (files : List (Str × Str)) (s : PluginActor) {id : Str}
    (h : id ∈ files.map Prod.fst ∨ id ∈ s.plugins.keys) :
    id ∈ (files.foldl discover s).plugins.keys := by
  induction files generalizing s with
  | nil => exact h.resolve_left List.not_mem_nil
  | cons file files ih =>
    refine ih (s.discover file) ?_
    rcases h with h | h
    · rcases List.mem_cons.1 h with rfl | h
      · exact .inr (SortedMap.mem_keys_upsert.2 (.inl rfl))
      · exact .inl h
    · exact .inr (SortedMap.mem_keys_upsert.2 (.inr h))

/-- A loop that reloads a plugin, or has none to reload, advances the revision. -/
theorem reloadEach_lt {finishesBy : Option ℕ} {ids : List Str}
    (hruns : ∀ id ∈ ids.head?, stopsAt world finishesBy id = none)
    (hkey : ∀ id ∈ ids.head?, id ∈ s.plugins.keys) :
    s.revision < (reloadEach world finishesBy ids s).2.revision := by
  cases ids with
  | nil => exact Nat.lt_succ_self _
  | cons id ids =>
    obtain ⟨record, hrecord⟩ := Option.isSome_iff_exists.1 (SortedMap.mem_keys.1 (hkey id rfl))
    have hreload : ∃ t, s.reloadPluginInner world id = (.ok (), t) ∧ t.revision = s.revision + 1 := by
      unfold reloadPluginInner
      simp only [takeGeneration, hrecord]
      exact ⟨_, rfl, rfl⟩
    obtain ⟨t, ht, hrevision⟩ := hreload
    rw [reloadEach, hruns id rfl]
    dsimp only
    rw [ht]
    have hle := (marks_reloadEach world finishesBy ids t).le
    dsimp only
    omega

/-- No load is removed by a reload that stops before it has reloaded anything. -/
def ReloadMeets (finishesBy : Option ℕ) (s : PluginActor) : Prop :=
  ∀ discovered, world.discovered = .ok discovered →
    (∃ id ∈ discovered.keys.head?, stopsAt world finishesBy id ≠ none) →
    ∀ e ∈ s.plugins.entries, discovered.get e.1 = none → ∀ hook, hasHook hook e.2 = false

/-- The removal of records takes their loads. -/
theorem registered_removeUndiscovered {discovered : SortedMap Str Str} :
    (∀ hook, (s.removeUndiscovered discovered).registered hook = s.registered hook) ↔
      ∀ e ∈ s.plugins.entries, discovered.get e.1 = none → ∀ hook, hasHook hook e.2 = false := by
  constructor
  · intro h e he hgone hook
    rw [← Bool.not_eq_true]
    intro hhook
    have hload := mem_registered.2 ⟨e, he, hhook, rfl⟩
    rw [← h hook] at hload
    obtain ⟨e', he', -, hsame⟩ := mem_registered.1 hload
    have hkept : (discovered.get e'.1).isSome = true := (List.mem_filter.1 he').2
    rw [(Prod.mk.inj hsame).1, hgone] at hkept
    cases hkept
  · intro h hook
    refine SortedMap.parts_retain fun e he hgone => if_neg ?_
    rw [h e he (by simpa using hgone) hook]
    exact Bool.false_ne_true

theorem marks_reloadAllInner_iff {finishesBy : Option ℕ} :
    Marks s (s.reloadAllInner world finishesBy).2 ↔ ReloadMeets world finishesBy s := by
  unfold reloadAllInner ReloadMeets
  cases hworld : world.discovered with
  | error error => exact iff_of_true (.refl s) nofun
  | ok discovered =>
    obtain ⟨hrevision, hregistered⟩ :=
      foldl_discover discovered.entries (s.removeUndiscovered discovered)
    -- the state in which the loop begins has the revision of before
    have hloop := marks_reloadEach world finishesBy discovered.keys
      (discovered.entries.foldl discover (s.removeUndiscovered discovered))
    have hkept := @registered_removeUndiscovered s discovered
    simp only [← hregistered] at hkept
    dsimp only
    constructor
    · rintro hmarks _ ⟨⟩ ⟨id, hid, hstops⟩
      refine hkept.1 ?_
      cases hkeys : discovered.keys with
      | nil =>
        rw [hkeys] at hid
        cases hid
      | cons first ids =>
        rw [hkeys] at hid hmarks
        obtain rfl : first = id := by simpa using hid
        obtain ⟨error, herror⟩ := Option.ne_none_iff_exists'.1 hstops
        rw [reloadEach, herror] at hmarks
        exact hmarks.same hrevision
    · intro hmeets
      by_cases hfirst : ∃ id ∈ discovered.keys.head?, stopsAt world finishesBy id ≠ none
      · have hsame : Marks s (discovered.entries.foldl discover (s.removeUndiscovered discovered)) :=
          .of_eq hrevision (hkept.2 (hmeets discovered rfl hfirst))
        exact hsame.trans hloop
      · refine .of_lt (hrevision.symm.trans_lt ?_)
        refine reloadEach_lt world (fun id hid => ?_) (fun id hid => ?_)
        · by_contra hstops
          exact hfirst ⟨id, hid, hstops⟩
        · exact keys_foldl_discover _ _ (.inl (List.mem_of_mem_head? hid))

/-! ### Every step -/

/-- A command meets the condition unless it is such a reload. -/
def CommandMeets (finishesBy : ℕ) (s : PluginActor) : Command β → Prop
  | .reloadAll => ReloadMeets world (some finishesBy) s
  | _ => True

theorem marks_handle_iff {command : Command β} :
    Marks s (s.handle world finishesBy command).2 ↔ CommandMeets world finishesBy s command := by
  cases command with
  | snapshot | hookToken => exact iff_of_true (.refl s) trivial
  | reloadAll =>
    rw [CommandMeets, ← marks_reloadAllInner_iff world]
    unfold handle
    cases s.reloadAllInner world (some finishesBy) with
    | mk result t =>
      cases result with
      | ok => exact ⟨fun h => ⟨h.le, h.same⟩, fun h => ⟨h.le, h.same⟩⟩
      | error error => exact Iff.rfl
  | reloadPlugin pluginId =>
    refine iff_of_true ?_ trivial
    have hmarks := marks_reloadPluginInner world s pluginId
    unfold handle
    dsimp only
    cases hreload : s.reloadPluginInner world pluginId with
    | mk result t =>
      rw [hreload] at hmarks
      cases result <;> exact hmarks
  | unloadPlugin pluginId =>
    refine iff_of_true ?_ trivial
    have hmarks := marks_unloadPluginInner s pluginId
    unfold handle
    dsimp only
    cases hunload : s.unloadPluginInner pluginId with
    | mk result t =>
      rw [hunload] at hmarks
      cases result <;> exact hmarks
  | runHook => exact iff_of_true (marks_foldl_poison _ s) trivial
  | runHookChecked hook token value =>
    refine iff_of_true ?_ trivial
    unfold handle
    dsimp only
    split_ifs
    · exact .refl s
    · exact .refl s
    · exact marks_foldl_poison _ s
  | runHookBestEffort => exact iff_of_true (marks_foldl_poison _ s) trivial
  | invokeComposeButton pluginId buttonId generation compose =>
    exact iff_of_true (marks_invokeComposeButtonInner world s _ _ _ _) trivial

end Commands

/-- The stop flag is nothing that the revision has to tell of. -/
theorem Marks.stop {s : PluginActor} {stop : Bool} : Marks s { t with stop := stop } ↔ Marks s t :=
  ⟨fun h => ⟨h.le, h.same⟩, fun h => ⟨h.le, h.same⟩⟩

/-- Does the thread carry out the event, if it is a reload of all plugins, with no load removed
before it stops? -/
def Meets (s : PluginActor) : Event β → Prop
  | .command queued receivedAt world => s.stop = false → receivedAt < queued.startsBy →
      CommandMeets world queued.finishesBy s queued.command
  | .pump _ => True

/-- Every step marks its changes, but for a reload that removes a load and stops then. -/
theorem marks_step_iff {s : PluginActor} : Marks s (s.step event).2 ↔ s.Meets event := by
  unfold step Meets
  cases hstop : s.stop with
  | true =>
    cases event with
    | command => exact iff_of_true (.refl s) (fun h => by cases h)
    | pump => exact iff_of_true (.refl s) trivial
  | false =>
    cases event with
    | command queued receivedAt world =>
      dsimp only
      rw [if_neg Bool.false_ne_true]
      split_ifs with hexpired
      · exact iff_of_true (Marks.stop.2 (.refl s)) fun _ hlt => absurd hexpired (not_le.2 hlt)
      · rw [Marks.stop, marks_handle_iff]
        exact ⟨fun h _ _ => h, fun h => h rfl (not_le.1 hexpired)⟩
    | pump world =>
      exact iff_of_true (Marks.stop.2 (marks_pumpOneEventLoop world s)) trivial

/-! ### Metadata -/

section Metadata

variable {value : Value β}

theorem get_foldl_reassertKey (original : Str → Option β) (keys : List Str)
    (members : OrderedMap Str β) (key : Str) :
    ((keys.zip (keys.map original)).foldl reassertKey members).get key =
      if key ∈ keys then original key else members.get key := by
  induction keys generalizing members with
  | nil => rfl
  | cons first keys ih =>
    rw [List.map_cons, List.zip_cons_cons, List.foldl_cons, ih]
    have hfirst : (reassertKey members (first, original first)).get key =
        if key = first then original first else members.get key := by
      unfold reassertKey
      cases horiginal : original first with
      | some value => exact OrderedMap.get_set
      | none => exact OrderedMap.get_delete
    rw [hfirst]
    by_cases hmem : key ∈ keys
    · rw [if_pos hmem, if_pos (List.mem_cons_of_mem _ hmem)]
    · rw [if_neg hmem]
      by_cases hkey : key = first
      · rw [if_pos hkey, if_pos (by simp [hkey]), hkey]
      · rw [if_neg hkey, if_neg (by simp [hkey, hmem])]

/-- The protected members of a value that a callback returned are those of the original. -/
theorem get_reassert (hobject : next.isObject = true) {key : Str}
    (hkey : key ∈ PROTECTED_HOOK_METADATA) :
    (reassertProtectedHookMetadata next (protectedHookMetadata value)).get key = value.get key := by
  cases next with
  | object members =>
    exact (get_foldl_reassertKey value.get PROTECTED_HOOK_METADATA members key).trans (if_pos hkey)
  | other => cases hobject

end Metadata

/-! ### A chain of callbacks -/

/-- Each callback is given what the last one returned, with the metadata put back, and the result
is what the last of them returned. -/
inductive Threads (metadata : List (Option β)) : Value β → List (Invocation β) → Value β → Prop
  | nil (value : Value β) : Threads metadata value [] value
  | cons {invocation : Invocation β} {invoked : List (Invocation β)} {result : Value β}
      (rest : Threads metadata (reassertProtectedHookMetadata invocation.output metadata) invoked
        result) : Threads metadata invocation.input (invocation :: invoked) result

theorem isObject_of_invokeHook {world : World β} {pluginId : Str} {value : Value β}
    (h : invokeHook world pluginId hook value = .ok next) : next.isObject = true := by
  unfold invokeHook at h
  cases hcallback : world.callback pluginId value with
  | error error =>
    rw [hcallback] at h
    cases h
  | ok result =>
    rw [hcallback] at h
    dsimp only at h
    split_ifs at h with hobject
    cases h
    exact hobject

/-- A run of a hook that succeeds has invoked the loads that have registered it. -/
theorem runHookLoop_ok {world : World β} {metadata : List (Option β)}
    {records : List (Str × PluginRecord)} {value : Value β}
    (h : (runHookLoop world hook finishesBy metadata records value).result = .ok result) :
    let run := runHookLoop world hook finishesBy metadata records value
    (run.invoked.map fun c => (c.id, c.generation)) = records.filterMap (registration hook) ∧
      Threads metadata value run.invoked result ∧ (∀ c ∈ run.invoked, c.output.isObject = true) ∧
      run.poisoned = [] := by
  induction records generalizing value with
  | nil =>
    cases h
    exact ⟨rfl, .nil _, nofun, rfl⟩
  | cons e records ih =>
    obtain ⟨pluginId, record⟩ := e
    unfold runHookLoop at h ⊢
    cases hhook : hasHook hook record with
    | false =>
      rw [hhook] at h
      have hnone : registration hook (pluginId, record) = none :=
        if_neg (by simp [hhook])
      rw [List.filterMap_cons, hnone]
      exact ih h
    | true =>
      have hsome : registration hook (pluginId, record) = some (pluginId, record.generation) :=
        if_pos hhook
      rw [hhook] at h
      rw [List.filterMap_cons, hsome]
      simp only [Bool.not_true, Bool.false_eq_true, if_false] at h ⊢
      split_ifs at h ⊢
      cases hinvoke : invokeHook world pluginId hook value with
      | error error =>
        rw [hinvoke] at h
        cases h
      | ok next =>
        rw [hinvoke] at h
        obtain ⟨hloads, hthreads, hobjects, hpoisoned⟩ := ih h
        have hchain := @Threads.cons β metadata ⟨pluginId, record.generation, value, next⟩ _ _
          hthreads
        dsimp only
        refine ⟨?_, hchain, ?_, hpoisoned⟩
        · rw [List.map_cons, hloads]
        · rintro c hc
          rcases List.mem_cons.1 hc with rfl | hc
          · exact isObject_of_invokeHook hinvoke
          · exact hobjects c hc

/-- All along the chain the protected members are those of the original. -/
theorem Threads.metadata {value first : Value β}
    (h : Threads (protectedHookMetadata value) first invoked result)
    (hobjects : ∀ c ∈ invoked, c.output.isObject = true)
    (hfirst : ∀ key ∈ PROTECTED_HOOK_METADATA, first.get key = value.get key) :
    (∀ c ∈ invoked, ∀ key ∈ PROTECTED_HOOK_METADATA, c.input.get key = value.get key) ∧
      ∀ key ∈ PROTECTED_HOOK_METADATA, result.get key = value.get key := by
  induction h with
  | nil => exact ⟨nofun, hfirst⟩
  | @cons invocation invoked result rest ih =>
    obtain ⟨hinputs, hresult⟩ := ih (fun c hc => hobjects c (List.mem_cons_of_mem _ hc))
      fun key hkey => get_reassert (hobjects invocation List.mem_cons_self) hkey
    refine ⟨fun c hc => ?_, hresult⟩
    rcases List.mem_cons.1 hc with rfl | hc
    · exact hfirst
    · exact hinputs c hc

/-! ### Runs -/

/-- The state after the events. -/
def after (s : PluginActor) (events : List (Event β)) : PluginActor :=
  events.foldl (fun s event => (s.step event).2) s

theorem after_append (s : PluginActor) (events events' : List (Event β)) :
    s.after (events ++ events') = (s.after events).after events' :=
  List.foldl_append

theorem after_cons (s : PluginActor) (event : Event β) (events : List (Event β)) :
    s.after (event :: events) = (s.step event).2.after events := rfl

/-- No event of the run is a reload that removes a load and stops then. -/
def MeetsAll (s : PluginActor) (events : List (Event β)) : Prop :=
  ∀ before event rest, events = before ++ event :: rest → (s.after before).Meets event

theorem MeetsAll.tail {s : PluginActor} (h : s.MeetsAll (event :: events)) :
    (s.step event).2.MeetsAll events := by
  rintro before next rest rfl
  exact h (event :: before) next rest rfl

theorem marks_after {s : PluginActor} (h : s.MeetsAll events) : Marks s (s.after events) := by
  induction events generalizing s with
  | nil => exact .refl s
  | cons event events ih =>
    exact (marks_step_iff.2 (h [] event events rfl)).trans (ih h.tail)

theorem revision_le_handle (s : PluginActor) (world : World β) (finishesBy : ℕ)
    (command : Command β) : s.revision ≤ (s.handle world finishesBy command).2.revision := by
  cases command with
  | reloadAll =>
    have hle : s.revision ≤ (s.reloadAllInner world (some finishesBy)).2.revision := by
      unfold reloadAllInner
      cases world.discovered with
      | error error => exact le_refl _
      | ok discovered =>
        have hdiscover := (foldl_discover discovered.entries (s.removeUndiscovered discovered)).1
        exact hdiscover.ge.trans (marks_reloadEach world (some finishesBy) discovered.keys _).le
    unfold handle
    dsimp only
    cases hreload : s.reloadAllInner world (some finishesBy) with
    | mk result t =>
      rw [hreload] at hle
      cases result <;> exact hle
  | _ =>
    refine ((marks_handle_iff world).2 ?_).le
    trivial

/-- No step takes the revision back. -/
theorem revision_le_step (s : PluginActor) (event : Event β) :
    s.revision ≤ (s.step event).2.revision := by
  unfold step
  split_ifs
  · cases event <;> exact le_refl _
  · cases event with
    | command queued receivedAt world =>
      dsimp only
      split_ifs
      · exact le_refl _
      · exact revision_le_handle s world queued.finishesBy queued.command
    | pump world => exact (marks_pumpOneEventLoop world s).le

theorem revision_le_after (s : PluginActor) (events : List (Event β)) :
    s.revision ≤ (s.after events).revision := by
  induction events generalizing s with
  | nil => exact le_refl _
  | cons event events ih => exact (revision_le_step s event).trans (ih _)

/-- In a run of fewer than `2 ^ 64` changes the `u64` is their number. -/
theorem revision64_eq {s : PluginActor} (h : (s.after events).revision < 2 ^ 64) :
    s.revision64 = s.revision :=
  Nat.mod_eq_of_lt ((revision_le_after s events).trans_lt h)

/-! ### Strict hooks -/

/-- The thread issues a token for the hook. -/
def Issues (s : PluginActor) (event : Event β) (hook : PluginHook) (token : PluginHookToken) :
    Prop :=
  ∃ queued receivedAt world, event = .command queued receivedAt world ∧
    queued.command = .hookToken hook ∧ (s.step event).1 = some (.token (.ok (some token)))

/-- A checked run of the hook with the token succeeds. -/
def RunsChecked (s : PluginActor) (event : Event β) (hook : PluginHook) (token : PluginHookToken)
    (value : Value β) (result : Value β) (invoked : List (Invocation β)) : Prop :=
  ∃ queued receivedAt world, event = .command queued receivedAt world ∧
    queued.command = .runHookChecked hook token value ∧
    (s.step event).1 = some (.value (.ok result) invoked)

/-- The invocations of a checked run, for a token that was issued when these loads had registered
the hook. -/
structure Checked (loads : List (Str × ℕ)) (value result : Value β)
    (invoked : List (Invocation β)) : Prop where
  /-- Every load is invoked once, in the order of the ids. -/
  loads : (invoked.map fun c => (c.id, c.generation)) = loads
  ascending : (invoked.map fun c => c.id).Pairwise (· < ·)
  /-- Each is given the value of the one before. -/
  threads : Threads (protectedHookMetadata value) value invoked result
  inputs : ∀ c ∈ invoked, ∀ key ∈ PROTECTED_HOOK_METADATA, c.input.get key = value.get key
  result : ∀ key ∈ PROTECTED_HOOK_METADATA, result.get key = value.get key

/-- No plugin that was to check a value is passed over. -/
structure StrictHooks (s : PluginActor) (events : List (Event β)) : Prop where
  /-- The revision changes whenever the loads of a hook do. -/
  revised : ∀ before event rest, events = before ++ event :: rest → ∀ hook,
    (s.after (before ++ [event])).registered hook ≠ (s.after before).registered hook →
      (s.after (before ++ [event])).revision64 ≠ (s.after before).revision64
  /-- A checked run with a token invokes the loads it was issued for. -/
  checked : ∀ before issue between use rest hook hook' token value result invoked,
    events = before ++ issue :: (between ++ use :: rest) →
    Issues (s.after before) issue hook token →
    RunsChecked (s.after (before ++ issue :: between)) use hook' token value result invoked →
      hook' = hook ∧ Checked ((s.after before).registered hook) value result invoked

theorem Issues.token_eq {s : PluginActor} (h : s.Issues event hook token) :
    token = ⟨s.revision64, hook⟩ := by
  obtain ⟨⟨startsBy, finishesBy, command⟩, receivedAt, world, rfl, rfl, hreply⟩ := h
  unfold step at hreply
  split_ifs at hreply
  · cases hreply
  · dsimp only at hreply
    split_ifs at hreply
    · cases hreply
    · simp only [handle, Option.some.injEq, Reply.token.injEq, Except.ok.injEq] at hreply
      split_ifs at hreply
      exact (Option.some.inj hreply).symm

/-- A checked run that succeeds invokes the loads that have registered the hook. -/
theorem RunsChecked.checked {s : PluginActor} {value : Value β}
    (h : s.RunsChecked event hook token value result invoked) :
    token = ⟨s.revision64, hook⟩ ∧ Checked (s.registered hook) value result invoked := by
  obtain ⟨⟨startsBy, finishesBy, command⟩, receivedAt, world, rfl, rfl, hreply⟩ := h
  unfold step at hreply
  split_ifs at hreply
  · cases hreply
  · dsimp only at hreply
    split_ifs at hreply
    · cases hreply
    · simp only [handle] at hreply
      split_ifs at hreply with hmatch hhas
      · cases hreply
      · cases hreply
      · obtain ⟨hresult, rfl⟩ := Reply.value.inj (Option.some.inj hreply)
        obtain ⟨hloads, hthreads, hobjects, -⟩ := runHookLoop_ok hresult
        obtain ⟨hinputs, hcarried⟩ := hthreads.metadata hobjects fun _ _ => rfl
        refine ⟨?_, hloads, ?_, hthreads, hinputs, hcarried⟩
        · obtain ⟨revision, hook'⟩ := token
          simpa [PluginHookToken.matches'] using hmatch
        · have hpairs := s.pairwise_registered hook
          rw [registered, SortedMap.parts, ← hloads, List.pairwise_map] at hpairs
          exact List.pairwise_map.2 hpairs

/-- A run is strict exactly if no reload removes a load and then stops before it has reloaded
anything. -/
theorem strictHooks_iff (world : World β) (events : List (Event β))
    (hchanges : ((start world).after events).revision < 2 ^ 64) :
    StrictHooks (start world) events ↔ (start world).MeetsAll events := by
  generalize start world = s at hchanges ⊢
  constructor
  · rintro h before event rest rfl
    have hlast : s.after (before ++ [event]) = ((s.after before).step event).2 := by
      rw [after_append]
      rfl
    refine marks_step_iff.1 ⟨revision_le_step _ event, fun heq hook => ?_⟩
    by_contra hne
    rw [← hlast] at heq hne
    exact h.revised before event rest rfl hook hne (by rw [revision64, revision64, heq])
  · intro h
    refine ⟨?_, ?_⟩
    · rintro before event rest rfl hook hne
      have hlast : s.after (before ++ [event]) = ((s.after before).step event).2 := by
        rw [after_append]
        rfl
      rw [after_append, after_cons] at hchanges
      have hmarks := marks_step_iff.2 (h before event rest rfl)
      have hle := revision_le_step (s.after before) event
      rw [hlast] at hne ⊢
      rw [revision64_eq hchanges, revision64, Nat.mod_eq_of_lt (hle.trans_lt
        ((revision_le_after _ rest).trans_lt hchanges))]
      exact fun heq => hne (hmarks.same heq hook)
    · rintro before issue between use rest hook hook' token value result invoked rfl hissues hruns
      obtain ⟨htoken, hchecked⟩ := hruns.checked
      rw [hissues.token_eq] at htoken
      obtain ⟨hrevision, rfl⟩ := PluginHookToken.mk.inj htoken
      have hsplit : s.after (before ++ issue :: (between ++ use :: rest)) =
          (s.after (before ++ issue :: between)).after (use :: rest) := by
        rw [← after_append, List.append_assoc, List.cons_append]
      rw [hsplit] at hchanges
      have hmiddle := (revision_le_after _ (use :: rest)).trans_lt hchanges
      have hmarks : Marks (s.after before) (s.after (before ++ issue :: between)) := by
        rw [after_append]
        refine marks_after fun front event back heq => ?_
        have hmeets := h (before ++ front) event (back ++ use :: rest) (by
          rw [← List.cons_append, heq]
          simp)
        rwa [after_append] at hmeets
      rw [after_append] at hmiddle hrevision hmarks hchecked
      rw [revision64_eq hmiddle, revision64, Nat.mod_eq_of_lt hmiddle] at hrevision
      rw [hmarks.same hrevision.symm hook] at hchecked
      exact ⟨rfl, hchecked⟩

/-! ### Two plugins -/

def bothFiles : SortedMap Str Str := ⟨[("a.js", "/a.js"), ("b.js", "/b.js")], by decide⟩

def oneFile : SortedMap Str Str := ⟨[("b.js", "/b.js")], List.pairwise_singleton _ _⟩

/-- Plugins that check every post and let it pass. -/
def sampleWorld (discovered : SortedMap Str Str) (now : ℕ) : World ℕ where
  discovered := .ok discovered
  now := fun _ => now
  stop := fun _ => false
  stopped := false
  stays := fun _ h => h
  isFile := fun _ => true
  load := fun _ _ => .ok ⟨{.beforeCreatePost}, [], 1⟩
  callback := fun _ value => .ok value
  background := fun _ => none

def sampleValue : Value ℕ := .object .empty

def issueToken : Event ℕ :=
  .command ⟨34000, 34000, .hookToken .beforeCreatePost⟩ 0 (sampleWorld bothFiles 0)

/-- A checked run with the token of the first two loads. -/
def useToken : Event ℕ :=
  .command ⟨134000, 164000, .runHookChecked .beforeCreatePost ⟨3, .beforeCreatePost⟩ sampleValue⟩
    100000 (sampleWorld oneFile 100000)

/-- The file of one plugin is gone, and too little time is left to reload the other. -/
def lateReload : Event ℕ :=
  .command ⟨34000, 64000, .reloadAll⟩ 33999 (sampleWorld oneFile 34001)

theorem strictHooks_iff_twoCommands :
    StrictHooks (start (sampleWorld bothFiles 0)) [issueToken, useToken] := by
  refine (strictHooks_iff _ _ (by decide +kernel)).2 fun before event rest heq => ?_
  have hmem : event ∈ [issueToken, useToken] := heq ▸ by simp
  rcases List.mem_cons.1 hmem with rfl | hmem
  · exact fun _ _ => trivial
  · rw [List.mem_singleton.1 hmem]
    exact fun _ _ => trivial

/-- The post leaves without the plugin whose file is gone. -/
theorem not_strictHooks :
    ¬ StrictHooks (start (sampleWorld bothFiles 0)) [issueToken, lateReload, useToken] := by
  intro h
  have hchecked := (h.checked [] issueToken [lateReload] useToken [] .beforeCreatePost
    .beforeCreatePost ⟨3, .beforeCreatePost⟩ sampleValue _ _ rfl ⟨_, _, _, rfl, rfl, rfl⟩
    ⟨_, _, _, rfl, rfl, rfl⟩).2.loads
  revert hchecked
  decide +kernel

end PluginActor

end Awayuki.Plugins
