import Awayuki.Timeline.Origins

/-!
# Actions on posts

`actionStatus` of `store/actions/statusMutationActions.ts`: the flags of the acting account are read
for the post, the action is shown at once, and what the server answers replaces the post; when the
request fails, the copy of the post that was taken before the action does.

* `Store`: the rows, the actions under way, and the places that show a post of their own;
* `deliver`: a batch of the stream;
* `begin`, `showViewerState`, `showOptimistic`, `confirm`, `fail`: the action, await by await;
* `failedAction`: an action that fails, with the batches that arrive meanwhile.
-/

namespace Awayuki.Timeline

/-! ### Posts -/

/-- The fields of a post that actions concern; the others are the one field `other`. -/
structure PostRest (γ : Type) where
  favourited : Bool
  favouritesCount : ℤ
  reblogged : Bool
  reblogsCount : ℤ
  bookmarked : Bool
  other : γ
  deriving DecidableEq

variable {γ : Type}

abbrev Post (γ : Type) := TimelineStatus (PostRest γ)

inductive StatusAction
  | favourite | unfavourite | reblog | unreblog | bookmark | unbookmark
  deriving DecidableEq, Repr

namespace StatusAction

/-- `optimisticStatusActionPatch`, as the fields that it takes from the post. -/
def optimistic (action : StatusAction) (status : PostRest γ) : PostRest γ :=
  match action with
  | .favourite =>
    { status with
      favourited := true
      favouritesCount :=
        if status.favourited then status.favouritesCount else status.favouritesCount + 1 }
  | .unfavourite =>
    { status with
      favourited := false
      favouritesCount :=
        if status.favourited then max 0 (status.favouritesCount - 1) else status.favouritesCount }
  | .reblog =>
    { status with
      reblogged := true
      reblogsCount := if status.reblogged then status.reblogsCount else status.reblogsCount + 1 }
  | .unreblog =>
    { status with
      reblogged := false
      reblogsCount :=
        if status.reblogged then max 0 (status.reblogsCount - 1) else status.reblogsCount }
  | .bookmark => { status with bookmarked := true }
  | .unbookmark => { status with bookmarked := false }

/-- The flag and the count of the action, from one post to another. -/
def copy (action : StatusAction) (source target : PostRest γ) : PostRest γ :=
  match action with
  | .favourite | .unfavourite =>
    { target with favourited := source.favourited, favouritesCount := source.favouritesCount }
  | .reblog | .unreblog =>
    { target with reblogged := source.reblogged, reblogsCount := source.reblogsCount }
  | .bookmark | .unbookmark => { target with bookmarked := source.bookmarked }

/-- `desiredViewerFlag`, compared with the flag of the post. -/
def isDone (action : StatusAction) (status : PostRest γ) : Bool :=
  match action with
  | .favourite => status.favourited
  | .unfavourite => !status.favourited
  | .reblog => status.reblogged
  | .unreblog => !status.reblogged
  | .bookmark => status.bookmarked
  | .unbookmark => !status.bookmarked

end StatusAction

/-- What `status_viewer_states` says of one post; nothing is read as `false`. -/
structure ViewerState where
  favourited : Bool := false
  reblogged : Bool := false
  bookmarked : Bool := false

def ViewerState.showOn (viewer : ViewerState) (status : PostRest γ) : PostRest γ :=
  { status with
    favourited := viewer.favourited
    reblogged := viewer.reblogged
    bookmarked := viewer.bookmarked }

/-- `{ ...status, rest }` -/
def TimelineStatus.withRest (status : Post γ) (rest : PostRest γ) : Post γ :=
  .mk { status.fields with rest } status.quote

/-! ### The store -/

inductive MutationPhase
  | pending | confirmed | uncertain | failed
  deriving DecidableEq, Repr

structure StatusMutationState (γ : Type) where
  operationId : ℕ
  phase : MutationPhase
  beforeImage : Post γ
  error : Option Str := none

/-- `mediaPreview` and `composeTarget` are the posts that the media preview and the compose area
show. -/
structure Store (γ : Type) where
  timeline : TimelineEntityState (PostRest γ)
  statusMutations : OrderedMap StatusKey (StatusMutationState γ)
  mediaPreview : Option (Post γ)
  composeTarget : Option (Post γ)

namespace Store

variable (env : Platform) (s : Store γ)

def statusForCanonical (target : Post γ) : Option (Post γ) :=
  ((s.timeline.canonicalIndex.get (canonicalStatusKey env target.fields)).map
    canonicalAliasKeys).bind fun keys => keys.findSome? s.timeline.entities.get

def resolvedEntityFor (status : Post γ) : Option (Post γ) :=
  (s.timeline.entities.get (statusKey env status.fields)).or (s.statusForCanonical env status)

/-- `entityPatch` -/
def reduce (operations : List (TimelineEntityOperation (PostRest γ))) : Store γ :=
  { s with timeline := (reduceTimelineEntities env s.timeline operations).1 }

def sameCanonical (left right : Post γ) : Bool :=
  canonicalStatusKey env left.fields = canonicalStatusKey env right.fields

def syncResolvedConsumers (target resolved : Post γ) : Store γ :=
  let sync (status : Post γ) := if sameCanonical env status target then resolved else status
  { s with mediaPreview := s.mediaPreview.map sync, composeTarget := s.composeTarget.map sync }

def syncAllConsumers : Store γ :=
  let sync (status : Post γ) := (s.resolvedEntityFor env status).getD status
  { s with mediaPreview := s.mediaPreview.map sync, composeTarget := s.composeTarget.map sync }

/-- A batch of stream updates. -/
def deliver (operations : List (TimelineEntityOperation (PostRest γ))) : Store γ :=
  (s.reduce env operations).syncAllConsumers env

def setMutation (canonical : StatusKey) (mutation : StatusMutationState γ) : Store γ :=
  { s with statusMutations := s.statusMutations.set canonical mutation }

def mutationIsCurrent (canonical : StatusKey) (operationId : ℕ) : Bool :=
  (s.statusMutations.get canonical).any fun mutation => mutation.operationId = operationId

/-! ### The action -/

/-- To the request for the flags; `none` while another action on the post is pending. -/
def begin (status : Post γ) (operationId : ℕ) : Option (Post γ × Store γ) :=
  let canonical := canonicalStatusKey env status.fields
  if (s.statusMutations.get canonical).any fun mutation => mutation.phase = .pending then none
  else
    let current := (s.resolvedEntityFor env status).getD status
    some (current, s.setMutation canonical ⟨operationId, .pending, current, none⟩)

/-- The flags of the acting account are read, and shown. -/
def showViewerState (canonical : StatusKey) (operationId : ℕ) (displayed : Post γ)
    (viewer : ViewerState) : Post γ × Store γ :=
  let current := displayed.withRest (viewer.showOn displayed.fields.rest)
  let s := s.reduce env [.patchCanonical displayed { rest := viewer.showOn }]
  let s := s.setMutation canonical ⟨operationId, .pending, current, none⟩
  (current, s.syncResolvedConsumers env displayed current)

/-- The action is shown, and requested. -/
def showOptimistic (canonical : StatusKey) (operationId : ℕ) (current : Post γ)
    (action : StatusAction) : Store γ :=
  let wanted := action.optimistic current.fields.rest
  let s := s.reduce env [.patchCanonical current { rest := action.copy wanted }]
  let optimistic := (s.resolvedEntityFor env current).getD (current.withRest wanted)
  let s := s.setMutation canonical ⟨operationId, .pending, current, none⟩
  s.syncResolvedConsumers env current optimistic

/-- The request has failed, unless its response was lost. -/
def fail (canonical : StatusKey) (operationId : ℕ) (current : Post γ) (uncertain : Bool)
    (error : Str) : Store γ :=
  if uncertain then s.setMutation canonical ⟨operationId, .uncertain, current, some error⟩
  else
    let s := s.reduce env [.replaceCanonical current current]
    let s := s.setMutation canonical ⟨operationId, .failed, current, some error⟩
    s.syncResolvedConsumers env current current

end Store

/-! ### Actions that fail -/

/-- What arrives while an action is under way: before the flags are read, while the user is asked,
and while the request is in flight. -/
structure Meanwhile (γ : Type) where
  reading : List (List (TimelineEntityOperation (PostRest γ)))
  asking : List (List (TimelineEntityOperation (PostRest γ)))
  requesting : List (List (TimelineEntityOperation (PostRest γ)))

/-- The copy of the post from before the action, and the store when the failure arrives and
after it. -/
structure FailedAction (γ : Type) where
  beforeImage : Post γ
  atFailure : Store γ
  afterFailure : Store γ

/-- An action that fails with an error. -/
def failedAction (env : Platform) (s : Store γ) (status : Post γ) (action : StatusAction)
    (operationId : ℕ) (viewer : ViewerState) (meanwhile : Meanwhile γ) (error : Str) :
    Option (FailedAction γ) :=
  let canonical := canonicalStatusKey env status.fields
  (s.begin env status operationId).bind fun begun =>
    let s := meanwhile.reading.foldl (Store.deliver env) begun.2
    if !s.mutationIsCurrent canonical operationId then none
    else
      let (current, s) := s.showViewerState env canonical operationId begun.1 viewer
      -- The action is confirmed without a request.
      if action.isDone current.fields.rest then none
      else
        let s := meanwhile.asking.foldl (Store.deliver env) s
        if !s.mutationIsCurrent canonical operationId then none
        else
          let s := s.showOptimistic env canonical operationId current action
          let s := meanwhile.requesting.foldl (Store.deliver env) s
          if !s.mutationIsCurrent canonical operationId then none
          else some ⟨current, s, s.fail env canonical operationId current false error⟩

end Awayuki.Timeline
