import Awayuki.Text
import Awayuki.Library.OrderedMap
import Awayuki.Library.SortedMap
import Mathlib.Data.Finset.Basic

/-!
# Plugins: the manager

The actor of `plugins/manager.rs`: one thread that loads plugins and runs their callbacks, one
command after the other.  What the file system, the clock and the JavaScript engine answer while a
command is handled is its `World`.

* `PluginActor`: the plugins by id, with the revision of their set;
* `reloadAllInner`, `reloadPluginInner`, `unloadPluginInner`: the commands that change the set;
* `runHookInner`, `runHookBestEffortInner`: a value on its way through the callbacks of a hook;
* `handle`, `pumpOneEventLoop`, `step`: the loop of the thread.

The `u64` revision is the number of changes modulo `2 ^ 64`.
-/

namespace Awayuki.Plugins

inductive PluginHook
  | beforeCreatePost | afterCreatePost | beforeBoost | afterBoost | beforeFavorite | afterFavorite
  | beforeBookmark | afterBookmark | beforeDeletePost | afterDeletePost
  deriving DecidableEq, Repr

def PluginHook.asStr : PluginHook → Str
  | .beforeCreatePost => "beforeCreatePost"
  | .afterCreatePost => "afterCreatePost"
  | .beforeBoost => "beforeBoost"
  | .afterBoost => "afterBoost"
  | .beforeFavorite => "beforeFavorite"
  | .afterFavorite => "afterFavorite"
  | .beforeBookmark => "beforeBookmark"
  | .afterBookmark => "afterBookmark"
  | .beforeDeletePost => "beforeDeletePost"
  | .afterDeletePost => "afterDeletePost"

/-- Wrapping addition of one. -/
def wrappingSucc (n : ℕ) : ℕ := (n + 1) % 2 ^ 64

structure PluginHookToken where
  revision : ℕ
  hook : PluginHook
  deriving DecidableEq, Repr

def PluginHookToken.matches' (token : PluginHookToken) (revision : ℕ) (hook : PluginHook) : Bool :=
  token.revision == revision && token.hook == hook

inductive PluginState
  | loaded | unloaded | error
  deriving DecidableEq, Repr

/-! ### Values -/

/-- A JSON value: an object with its members, or anything else. -/
inductive Value (β : Type)
  | object (members : OrderedMap Str β)
  | other (value : β)

namespace Value

variable {β : Type}

def get : Value β → Str → Option β
  | .object members, key => members.get key
  | .other _, _ => none

def isObject : Value β → Bool
  | .object _ => true
  | .other _ => false

end Value

def PROTECTED_HOOK_METADATA : List Str :=
  ["_awayukiAction", "_awayukiActingAccountAcct", "actingAccountAcct", "operationId"]

section Metadata

variable {β : Type}

def protectedHookMetadata (value : Value β) : List (Option β) :=
  PROTECTED_HOOK_METADATA.map value.get

def reassertKey (members : OrderedMap Str β) (entry : Str × Option β) : OrderedMap Str β :=
  match entry.2 with
  | some original => members.set entry.1 original
  | none => members.delete entry.1

def reassertProtectedHookMetadata (value : Value β) (metadata : List (Option β)) : Value β :=
  match value with
  | .object members => .object ((PROTECTED_HOOK_METADATA.zip metadata).foldl reassertKey members)
  | .other value => .other value

end Metadata

/-! ### Records -/

structure PluginExecutionError where
  message : Str
  poisonRuntime : Bool
  deriving DecidableEq, Repr

structure ComposeButtonDescriptor where
  pluginId : Str
  buttonId : Str
  generation : ℕ
  icon : Str
  label : Option Str
  deriving DecidableEq, Repr

structure PluginRuntime where
  hooks : Finset PluginHook
  composeButtons : List ComposeButtonDescriptor
  version : ℕ

structure PluginRecord where
  id : Str
  path : Str
  version : Option ℕ
  state : PluginState
  generation : ℕ
  error : Option Str
  runtime : Option PluginRuntime

def PluginRecord.new (id path : Str) : PluginRecord where
  id := id
  path := path
  version := none
  state := .unloaded
  generation := 0
  error := none
  runtime := none

def PluginRecord.stopRuntime (record : PluginRecord) : PluginRecord := { record with runtime := none }

def PluginRecord.poisonRuntime (record : PluginRecord) (message : Str) : PluginRecord :=
  { record.stopRuntime with
    generation := wrappingSucc record.generation
    state := .error
    error := some message }

structure PluginActor where
  revision : ℕ
  nextGeneration : ℕ
  plugins : SortedMap Str PluginRecord
  directoryError : Option Str
  lastPumpedPlugin : Option Str
  stop : Bool

def PROMISE_DEADLINE : ℕ := 30000

/-- What is answered from outside while a command is handled: the plugin files of the directory by
id, the clock and the stop flag when the turn of a plugin comes, whether its file is there and what
loading it gives, what its callbacks return, and the error of its background jobs.  A stop flag
that was seen stays set. -/
structure World (β : Type) where
  discovered : Except Str (SortedMap Str Str)
  now : Str → ℕ
  stop : Str → Bool
  stopped : Bool
  stays : ∀ id, stop id = true → stopped = true
  isFile : Str → Bool
  load : Str → ℕ → Except Str PluginRuntime
  callback : Str → Value β → Except PluginExecutionError (Value β)
  background : Str → Option PluginExecutionError

namespace PluginActor

variable {β : Type} (world : World β)

/-! ### The set of plugins -/

def takeGeneration (s : PluginActor) : PluginActor :=
  { s with nextGeneration := max (wrappingSucc s.nextGeneration) 1 }

def notDiscovered (pluginId : Str) : Str :=
  "plugin `".toList ++ pluginId ++ "` was not discovered".toList

/-- A record after `reload_plugin_inner`. -/
def reloadRecord (pluginId : Str) (generation : ℕ) (record : PluginRecord) : PluginRecord :=
  let record := { record.stopRuntime with
    generation := generation
    version := none
    error := none
    state := .unloaded }
  if !world.isFile record.path then
    { record with
      error := some ("plugin file `".toList ++ record.path ++ "` does not exist".toList)
      state := .error }
  else
    match world.load pluginId generation with
    | .ok runtime =>
      { record with version := some runtime.version, runtime := some runtime, state := .loaded }
    | .error error => { record with error := some error, state := .error }

def reloadPluginInner (s : PluginActor) (pluginId : Str) : Except Str Unit × PluginActor :=
  let generation := s.nextGeneration
  let s := s.takeGeneration
  match s.plugins.get pluginId with
  | none => (.error (notDiscovered pluginId), s)
  | some _ => (.ok (), { s with
      plugins := s.plugins.adjust pluginId (reloadRecord world pluginId generation)
      revision := s.revision + 1 })

def unloadRecord (generation : ℕ) (record : PluginRecord) : PluginRecord :=
  { record.stopRuntime with generation := generation, state := .unloaded, error := none }

def unloadPluginInner (s : PluginActor) (pluginId : Str) : Except Str Unit × PluginActor :=
  let generation := s.nextGeneration
  let s := s.takeGeneration
  match s.plugins.get pluginId with
  | none => (.error (notDiscovered pluginId), s)
  | some _ => (.ok (), { s with
      plugins := s.plugins.adjust pluginId (unloadRecord generation)
      revision := s.revision + 1 })

/-- The records that are no longer discovered are removed. -/
def removeUndiscovered (s : PluginActor) (discovered : SortedMap Str Str) : PluginActor :=
  { s with plugins := s.plugins.retain fun id => (discovered.get id).isSome }

/-- `entry(id).and_modify(…).or_insert_with(…)` -/
def discover (s : PluginActor) (file : Str × Str) : PluginActor :=
  { s with plugins := s.plugins.upsert file.1 fun
      | some record => { record with path := file.2 }
      | none => .new file.1 file.2 }

/-- Does `reload_all` stop before it reloads the plugin? -/
def stopsAt (finishesBy : Option ℕ) (id : Str) : Option Str :=
  if world.stop id then some "plugin runtime is shutting down"
  else if finishesBy.any fun deadline => deadline - world.now id < PROMISE_DEADLINE then
    some "plugin runtime command expired while reloading all plugins"
  else none

/-- The loop of `reload_all` over the discovered plugins. -/
def reloadEach (finishesBy : Option ℕ) : List Str → PluginActor → Except Str Unit × PluginActor
  | [], s => (.ok (), { s with revision := s.revision + 1 })
  | id :: ids, s =>
    match stopsAt world finishesBy id with
    | some error => (.error error, s)
    | none =>
      match s.reloadPluginInner world id with
      | (.ok (), s) => reloadEach finishesBy ids s
      | (.error error, s) => (.error error, s)

def reloadAllInner (s : PluginActor) (finishesBy : Option ℕ) : Except Str Unit × PluginActor :=
  match world.discovered with
  | .error error => (.error error, s)
  | .ok discovered =>
    reloadEach world finishesBy discovered.keys
      (discovered.entries.foldl discover (s.removeUndiscovered discovered))

/-- A runtime that has gone out of control is stopped. -/
def poison (s : PluginActor) (failure : Str × Str) : PluginActor :=
  { s with
    plugins := s.plugins.adjust failure.1 fun record => record.poisonRuntime failure.2
    revision := s.revision + 1 }

/-! ### Hooks -/

def hasHook (hook : PluginHook) (record : PluginRecord) : Bool :=
  record.runtime.any fun runtime => decide (hook ∈ runtime.hooks)

def hasHookInner (s : PluginActor) (hook : PluginHook) : Bool :=
  s.plugins.entries.any fun e => hasHook hook e.2

/-- A callback that was invoked, with what it was given and what it returned. -/
structure Invocation (β : Type) where
  id : Str
  generation : ℕ
  input : Value β
  output : Value β

/-- What came of the callbacks of a hook: the invocations that succeeded, and the runtimes that
have to be stopped with the messages. -/
structure HookRun (β γ : Type) where
  result : γ
  invoked : List (Invocation β)
  poisoned : List (Str × Str)

def budgetError (hook : PluginHook) : Str :=
  "plugin hook chain ".toList ++ hook.asStr ++
    " reached its aggregate deadline before the next callback".toList

def hookFailure (pluginId : Str) (hook : PluginHook) (error : PluginExecutionError) : Str :=
  "plugin `".toList ++ pluginId ++ "` ".toList ++ hook.asStr ++ " failed: ".toList ++ error.message

/-- `invoke_hook`, for a hook that is registered. -/
def invokeHook (pluginId : Str) (hook : PluginHook) (value : Value β) :
    Except PluginExecutionError (Value β) :=
  match world.callback pluginId value with
  | .ok result =>
    if result.isObject then .ok result
    else .error ⟨"hook `".toList ++ hook.asStr ++ "` must return an object".toList, false⟩
  | .error error => .error error

/-- Is there too little time for another callback? -/
def lacksBudget (finishesBy : ℕ) (pluginId : Str) : Bool :=
  decide (finishesBy - world.now pluginId < PROMISE_DEADLINE)

def runHookLoop (hook : PluginHook) (finishesBy : ℕ) (metadata : List (Option β)) :
    List (Str × PluginRecord) → Value β → HookRun β (Except Str (Value β))
  | [], value => ⟨.ok value, [], []⟩
  | (pluginId, record) :: records, value =>
    if !hasHook hook record then runHookLoop hook finishesBy metadata records value
    else if lacksBudget world finishesBy pluginId then ⟨.error (budgetError hook), [], []⟩
    else
      match invokeHook world pluginId hook value with
      | .ok nextValue =>
        let run := runHookLoop hook finishesBy metadata records
          (reassertProtectedHookMetadata nextValue metadata)
        { run with invoked := ⟨pluginId, record.generation, value, nextValue⟩ :: run.invoked }
      | .error error =>
        let message := hookFailure pluginId hook error
        ⟨.error message, [], if error.poisonRuntime then [(pluginId, message)] else []⟩

def runHookInner (s : PluginActor) (hook : PluginHook) (value : Value β) (finishesBy : ℕ) :
    HookRun β (Except Str (Value β)) × PluginActor :=
  let run := runHookLoop world hook finishesBy (protectedHookMetadata value) s.plugins.entries value
  (run, run.poisoned.foldl poison s)

def runHookBestEffortLoop (hook : PluginHook) (finishesBy : ℕ) (metadata : List (Option β)) :
    List (Str × PluginRecord) → Value β → HookRun β (Value β)
  | [], value => ⟨value, [], []⟩
  | (pluginId, record) :: records, value =>
    if !hasHook hook record then runHookBestEffortLoop hook finishesBy metadata records value
    else if lacksBudget world finishesBy pluginId then ⟨value, [], []⟩
    else
      match invokeHook world pluginId hook value with
      | .ok nextValue =>
        let run := runHookBestEffortLoop hook finishesBy metadata records
          (reassertProtectedHookMetadata nextValue metadata)
        { run with invoked := ⟨pluginId, record.generation, value, nextValue⟩ :: run.invoked }
      | .error error =>
        let run := runHookBestEffortLoop hook finishesBy metadata records value
        if error.poisonRuntime then
          { run with poisoned := (pluginId, hookFailure pluginId hook error) :: run.poisoned }
        else run

def runHookBestEffortInner (s : PluginActor) (hook : PluginHook) (value : Value β)
    (finishesBy : ℕ) : HookRun β (Value β) × PluginActor :=
  let run := runHookBestEffortLoop world hook finishesBy (protectedHookMetadata value)
    s.plugins.entries value
  (run, run.poisoned.foldl poison s)

/-! ### Compose buttons and background jobs -/

/-- `PluginRuntime::invoke_compose_button` -/
def invokeComposeButton (runtime : PluginRuntime) (pluginId buttonId : Str) (compose : Value β) :
    Except PluginExecutionError (Value β) :=
  match runtime.composeButtons.find? fun button => button.buttonId = buttonId with
  | none =>
    .error ⟨"compose button `".toList ++ buttonId ++ "` is not registered".toList, false⟩
  | some _ =>
    match world.callback pluginId compose with
    | .ok result =>
      if result.isObject then .ok result
      else .error ⟨"compose button onClick must return an object", false⟩
    | .error error => .error error

def staleGeneration (generation current : ℕ) : Str :=
  "stale compose button generation ".toList ++ (toString generation).toList ++
    "; current generation is ".toList ++ (toString current).toList

def buttonFailure (pluginId buttonId : Str) (error : PluginExecutionError) : Str :=
  "plugin `".toList ++ pluginId ++ "` compose button `".toList ++ buttonId ++
    "` failed: ".toList ++ error.message

def invokeComposeButtonInner (s : PluginActor) (pluginId buttonId : Str) (generation : ℕ)
    (compose : Value β) : Except Str (Value β) × PluginActor :=
  match s.plugins.get pluginId with
  | none => (.error (notDiscovered pluginId), s)
  | some record =>
    if generation ≠ record.generation then
      (.error (staleGeneration generation record.generation), s)
    else
      match record.runtime with
      | none => (.error ("plugin `".toList ++ pluginId ++ "` is not loaded".toList), s)
      | some runtime =>
        match invokeComposeButton world runtime pluginId buttonId compose with
        | .ok value => (.ok value, s)
        | .error error =>
          let message := buttonFailure pluginId buttonId error
          (.error message, if error.poisonRuntime then s.poison (pluginId, message) else s)

/-- The plugin whose jobs run next: the first loaded one behind the last, or the first. -/
def nextPumped (s : PluginActor) : Option Str :=
  let loaded := (s.plugins.entries.filter fun e => e.2.runtime.isSome).map Prod.fst
  (loaded.find? fun id => s.lastPumpedPlugin.all fun last => last < id) <|> loaded.head?

def pumpOneEventLoop (s : PluginActor) : PluginActor :=
  match s.nextPumped with
  | none => { s with lastPumpedPlugin := none }
  | some nextId =>
    let s := { s with lastPumpedPlugin := some nextId }
    match world.background nextId with
    | some error => s.poison (nextId, error.message)
    | none => s

end PluginActor

/-! ### Commands -/

inductive Command (β : Type)
  | snapshot
  | reloadAll
  | reloadPlugin (pluginId : Str)
  | unloadPlugin (pluginId : Str)
  | hookToken (hook : PluginHook)
  | runHook (hook : PluginHook) (value : Value β)
  | runHookChecked (hook : PluginHook) (token : PluginHookToken) (value : Value β)
  | runHookBestEffort (hook : PluginHook) (value : Value β)
  | invokeComposeButton (pluginId buttonId : Str) (generation : ℕ) (compose : Value β)

structure PluginInfo where
  id : Str
  path : Str
  version : Option ℕ
  state : PluginState
  generation : ℕ
  error : Option Str
  deriving DecidableEq, Repr

def PluginRecord.info (record : PluginRecord) : PluginInfo where
  id := record.id
  path := record.path
  version := record.version
  state := record.state
  generation := record.generation
  error := record.error

structure PluginSnapshot where
  revision : ℕ
  plugins : List PluginInfo
  composeButtons : List ComposeButtonDescriptor
  deriving DecidableEq, Repr

/-- What a command is answered with; a hook run comes with the callbacks it has invoked. -/
inductive Reply (β : Type)
  | snapshot (result : Except Str PluginSnapshot)
  | token (result : Except Str (Option PluginHookToken))
  | value (result : Except Str (Value β)) (invoked : List (PluginActor.Invocation β))
  | bestEffort (value : Value β) (invoked : List (PluginActor.Invocation β))

def Command.reject {β : Type} (message : Str) : Command β → Reply β
  | .snapshot | .reloadAll | .reloadPlugin _ | .unloadPlugin _ => .snapshot (.error message)
  | .hookToken _ => .token (.error message)
  | .runHook .. | .runHookChecked .. | .invokeComposeButton .. => .value (.error message) []
  | .runHookBestEffort _ value => .bestEffort value []

namespace PluginActor

variable {β : Type} (world : World β)

/-- The `u64` that the code keeps as the revision. -/
def revision64 (s : PluginActor) : ℕ := s.revision % 2 ^ 64

def snapshotInner (s : PluginActor) : PluginSnapshot where
  revision := s.revision64
  plugins := s.plugins.entries.map fun e => e.2.info
  composeButtons := s.plugins.entries.flatMap fun e =>
    e.2.runtime.elim [] PluginRuntime.composeButtons

def staleToken (hook : PluginHook) : Str :=
  "stale plugin hook token for ".toList ++ hook.asStr ++
    "; plugin set changed before invocation".toList

def noLongerRegistered (hook : PluginHook) : Str :=
  "plugin hook ".toList ++ hook.asStr ++ " is no longer registered".toList

def handle (s : PluginActor) (finishesBy : ℕ) : Command β → Reply β × PluginActor
  | .snapshot =>
    (.snapshot (match s.directoryError with
      | some error => .error error
      | none => .ok s.snapshotInner), s)
  | .reloadAll =>
    match s.reloadAllInner world (some finishesBy) with
    | (.ok (), s) => (.snapshot (.ok s.snapshotInner), { s with directoryError := none })
    | (.error error, s) => (.snapshot (.error error), s)
  | .reloadPlugin pluginId =>
    match s.reloadPluginInner world pluginId with
    | (.ok (), s) => (.snapshot (.ok s.snapshotInner), s)
    | (.error error, s) => (.snapshot (.error error), s)
  | .unloadPlugin pluginId =>
    match s.unloadPluginInner pluginId with
    | (.ok (), s) => (.snapshot (.ok s.snapshotInner), s)
    | (.error error, s) => (.snapshot (.error error), s)
  | .hookToken hook =>
    (.token (.ok (if s.hasHookInner hook then some ⟨s.revision64, hook⟩ else none)), s)
  | .runHook hook value =>
    let (run, s) := s.runHookInner world hook value finishesBy
    (.value run.result run.invoked, s)
  | .runHookChecked hook token value =>
    if !token.matches' s.revision64 hook then (.value (.error (staleToken hook)) [], s)
    else if !s.hasHookInner hook then (.value (.error (noLongerRegistered hook)) [], s)
    else
      let (run, s) := s.runHookInner world hook value finishesBy
      (.value run.result run.invoked, s)
  | .runHookBestEffort hook value =>
    let (run, s) := s.runHookBestEffortInner world hook value finishesBy
    (.bestEffort run.result run.invoked, s)
  | .invokeComposeButton pluginId buttonId generation compose =>
    let (result, s) := s.invokeComposeButtonInner world pluginId buttonId generation compose
    (.value result [], s)

end PluginActor

/-! ### The thread -/

structure QueuedCommand (β : Type) where
  startsBy : ℕ
  finishesBy : ℕ
  command : Command β

/-- What the thread does next: it receives a command at a time, or none comes. -/
inductive Event (β : Type)
  | command (queued : QueuedCommand β) (receivedAt : ℕ) (world : World β)
  | pump (world : World β)

namespace PluginActor

variable {β : Type}

/-- An iteration of the loop, which answers nothing more once it has seen the stop flag. -/
def step (s : PluginActor) (event : Event β) : Option (Reply β) × PluginActor :=
  if s.stop then
    match event with
    | .command queued _ _ => (some (queued.command.reject "plugin runtime is shutting down"), s)
    | .pump _ => (none, s)
  else
    match event with
    | .command queued receivedAt world =>
      if receivedAt ≥ queued.startsBy then
        (some (queued.command.reject "plugin runtime command expired before execution"),
          { s with stop := world.stopped })
      else
        let (reply, s) := s.handle world queued.finishesBy queued.command
        (some reply, { s with stop := world.stopped })
    | .pump world => (none, { s.pumpOneEventLoop world with stop := world.stopped })

/-- The actor before it has loaded anything. -/
def new : PluginActor where
  revision := 0
  nextGeneration := 1
  plugins := .empty
  directoryError := none
  lastPumpedPlugin := none
  stop := false

/-- The actor when its loop begins. -/
def start (world : World β) : PluginActor :=
  match new.reloadAllInner world none with
  | (.ok (), s) => { s with stop := world.stopped }
  | (.error error, s) => { s with directoryError := some error, stop := world.stopped }

end PluginActor

end Awayuki.Plugins
