import Awayuki.Text

/-!
# Compose: the media queue

`useComposeMediaQueue` of `features/compose/useComposeMediaQueue.ts`: the attachments of a post,
the slots that uploads have been promised, and the previews that the queue has to give back.

* `Attachment`, `UploadLoop`, `MediaQueue`: the references of the hook, and the calls of
  `uploadFiles` and `uploadDroppedPaths` that wait for an upload;
* `revokeOwnedPreview`, `releasePendingSlot`, `resetQueueResources`, `setAttachments`;
* `uploadFiles`, `uploadDroppedPaths`, `completed`, `failed`: the two loops, from `await` to
  `await`;
* `remove`, `move`, `replaceWithIds`, `clear`, `accountEffect`, `layoutEffect`;
* `applyPluginMediaIds`: the call of `replaceWithIds` in `ComposeAreaController.tsx`;
* `step`: everything that may happen.

What the callbacks of one render have in common is `Render`; a `localId` is the number of the
upload, an object URL that of its `createObjectURL`.
-/

namespace Awayuki.Compose

/-- The ids that the queue gives are random, and so no server's. -/
inductive AttachmentId
  | localId (n : ℕ)
  | mediaId (id : Str)
  deriving DecidableEq

inductive PreviewSrc
  | object (url : ℕ)
  | remote (src : Str)
  deriving DecidableEq

def PreviewSrc.isObject : PreviewSrc → Bool
  | .object _ => true
  | .remote _ => false

structure Attachment where
  id : AttachmentId
  filename : Str
  previewSrc : PreviewSrc
  uploading : Bool
  mediaType : Str
  /-- The account and the generation of its upload. -/
  upload : Option (Str × ℕ)
  deriving DecidableEq

structure File where
  name : Str
  type : Str

inductive Source
  | file (file : File)
  | path (path : Str)

/-- What an upload is answered with. -/
structure Uploaded where
  id : Str
  url : Option Str
  remoteUrl : Option Str
  previewUrl : Option Str
  mediaType : Option Str
  type : Option Str

/-- A call of `uploadFiles` or `uploadDroppedPaths` at its `await`. -/
structure UploadLoop where
  actingAccountAcct : Str
  generation : ℕ
  localId : ℕ
  source : Source
  previewSrc : PreviewSrc
  queued : List (ℕ × Source)

/-- An attachment that the compose area has kept over a reload. -/
structure InitialAttachment where
  id : Str
  filename : Str
  previewSrc : Str
  mediaType : Str

structure MediaQueue where
  attachments : List Attachment
  /-- The React state, and whether its last value is still to be rendered. -/
  state : List Attachment
  unrendered : Bool
  generation : ℕ
  activeAcct : Option Str
  occupiedSlots : ℕ
  pendingSlots : List ℕ
  ownedPreviews : List ℕ
  previewsPendingRevoke : List ℕ
  /-- The object URLs that have been created and not been revoked. -/
  objectUrls : List ℕ
  nextUrl : ℕ
  nextLocalId : ℕ
  loops : List UploadLoop

/-- What a render of the hook gives to its callbacks. -/
structure Render where
  activeAcct : Option Str
  editing : Bool
  uploadSupported : Bool

inductive Label
  | uploadFiles (render : Render) (files : List File)
  | uploadDroppedPaths (render : Render) (paths : List Str)
  | progress (loop : ℕ)
  | completed (loop : ℕ) (uploaded : Uploaded)
  | failed (loop : ℕ)
  | remove (index : ℕ)
  | move (source target : ℕ)
  | replaceWithIds (ids : List AttachmentId)
  | applyPluginMediaIds (currentMediaIds mediaIds : List AttachmentId)
  | clear
  | accountEffect (activeAcct : Option Str)
  | layoutEffect

/-! ### Files -/

def browserFileMediaType (file : File) : Str :=
  if Str.startsWith "video/".toList file.type then "video".toList
  else if Str.startsWith "audio/".toList file.type then "audio".toList
  else if file.type = "image/gif".toList ∨ file.type = "image/apng".toList then file.type
  else if Str.startsWith "image/".toList file.type then "image".toList
  else "unknown".toList

/-- The last part of a path that is not empty. -/
def filenameFromPath (path : Str) : Str :=
  (((path.splitOnP fun c => c = '/' || c = '\\').filter (· ≠ [])).getLast?).getD "media".toList

def Source.filename : Source → Str
  | .file upload => upload.name
  | .path dropped => filenameFromPath dropped

def Source.mediaType : Source → Str
  | .file upload => browserFileMediaType upload
  | .path _ => "unknown".toList

def preserveAnimatedOriginal (file : File) : Bool :=
  file.type = "image/gif".toList ∨ file.type = "image/apng".toList

/-- `String.prototype.trim` leaves something. -/
def hasText (s : Str) : Bool :=
  s.any fun c => !(Str.isWhitespace c && c.toNat != 0x85 || c.toNat == 0xfeff)

/-- The preview of a file that has been uploaded, if the server has one. -/
def remotePreview (file : File) (uploaded : Uploaded) : Option Str :=
  ((if preserveAnimatedOriginal file then
      [uploaded.url, uploaded.remoteUrl, uploaded.previewUrl]
    else [uploaded.previewUrl, uploaded.url, uploaded.remoteUrl]).filterMap id).find? hasText

def effectiveMediaType (file : File) (uploaded : Uploaded) : Str :=
  let uploadedMediaType :=
    (uploaded.mediaType.or uploaded.type).getD (browserFileMediaType file)
  if uploadedMediaType = "image".toList ∧ preserveAnimatedOriginal file then file.type
  else uploadedMediaType

namespace MediaQueue

def create (activeAcct : Option Str) (initialAttachments : List InitialAttachment) : MediaQueue :=
  let attachments := initialAttachments.map fun initial =>
    { id := .mediaId initial.id, filename := initial.filename
      previewSrc := .remote initial.previewSrc, uploading := false
      mediaType := initial.mediaType, upload := none }
  { attachments
    state := attachments
    unrendered := false
    generation := 1
    activeAcct
    occupiedSlots := attachments.length
    pendingSlots := []
    ownedPreviews := []
    previewsPendingRevoke := []
    objectUrls := []
    nextUrl := 0
    nextLocalId := 0
    loops := [] }

variable (s : MediaQueue)

/-! ### References -/

def setAttachments (next : List Attachment) : MediaQueue :=
  { s with attachments := next, state := next, unrendered := true }

def revokeUrl (url : ℕ) : MediaQueue :=
  { s with
    ownedPreviews := s.ownedPreviews.filter (· ≠ url)
    objectUrls := s.objectUrls.filter fun other => ¬ (other = url ∧ url ∈ s.ownedPreviews) }

def revokeOwnedPreview : PreviewSrc → MediaQueue
  | .object url => s.revokeUrl url
  | .remote _ => s

def releasePendingSlot (localId : ℕ) : MediaQueue :=
  if localId ∈ s.pendingSlots then
    { s with
      pendingSlots := s.pendingSlots.filter (· ≠ localId)
      occupiedSlots := s.occupiedSlots - 1 }
  else s

def resetQueueResources : MediaQueue :=
  { s with
    generation := s.generation + 1
    pendingSlots := []
    occupiedSlots := 0
    previewsPendingRevoke := []
    objectUrls := s.objectUrls.filter (· ∉ s.ownedPreviews)
    ownedPreviews := []
    attachments := [] }

def clear : MediaQueue := s.resetQueueResources.setAttachments []

/-- The layout effect, when a render has been committed. -/
def layoutEffect : MediaQueue :=
  if s.unrendered then
    { s.previewsPendingRevoke.foldl revokeUrl { s with attachments := s.state } with
      previewsPendingRevoke := []
      unrendered := false }
  else s

/-- The effect that follows the active account; what it was before is what the effect has seen
last. -/
def accountEffect (activeAcct : Option Str) : MediaQueue :=
  if s.activeAcct = activeAcct then s else { s with activeAcct }.clear

/-! ### Uploads -/

/-- The checks that an upload makes again after every `await`. -/
def Current (actingAccountAcct : Str) (generation localId : ℕ) : Prop :=
  generation = s.generation ∧ s.activeAcct = some actingAccountAcct ∧ localId ∈ s.pendingSlots

instance decidableCurrent (actingAccountAcct : Str) (generation localId : ℕ) :
    Decidable (s.Current actingAccountAcct generation localId) :=
  inferInstanceAs (Decidable (_ ∧ _ ∧ _))

/-- `createObjectURL`, for a file. -/
def createPreview : Source → PreviewSrc × MediaQueue
  | .file _ =>
    (.object s.nextUrl,
      { s with
        nextUrl := s.nextUrl + 1
        objectUrls := s.nextUrl :: s.objectUrls
        ownedPreviews := s.nextUrl :: s.ownedPreviews })
  | .path _ => (.remote [], s)

/-- The next upload of a loop is listed and awaited. -/
def startUpload (actingAccountAcct : Str) (generation localId : ℕ) (source : Source)
    (queued : List (ℕ × Source)) : MediaQueue :=
  let (previewSrc, s) := s.createPreview source
  { s.setAttachments (s.attachments ++
      [{ id := .localId localId, filename := source.filename, previewSrc, uploading := true
         mediaType := source.mediaType, upload := some (actingAccountAcct, generation) }]) with
    loops := s.loops ++ [⟨actingAccountAcct, generation, localId, source, previewSrc, queued⟩] }

/-- The loop over what has been queued, up to its next `await`. -/
def resume (s : MediaQueue) (actingAccountAcct : Str) (generation : ℕ) :
    List (ℕ × Source) → MediaQueue
  | [] => s
  | (localId, source) :: queued =>
    if s.Current actingAccountAcct generation localId then
      s.startUpload actingAccountAcct generation localId source queued
    else s.resume actingAccountAcct generation queued

section

variable (maxAttachments : ℕ)

/-- Slots are reserved for as many sources as are available, and the loop is started. -/
def upload (render : Render) (sources : List Source) : MediaQueue :=
  match render.activeAcct with
  | none => s
  | some actingAccountAcct =>
    if render.editing ∨ actingAccountAcct = [] ∨ ¬ render.uploadSupported then s
    else
      let available := maxAttachments - s.occupiedSlots
      let queued := (sources.take available).mapIdx fun i source => (s.nextLocalId + i, source)
      { s with
        nextLocalId := s.nextLocalId + queued.length
        pendingSlots := s.pendingSlots ++ queued.map Prod.fst
        occupiedSlots := s.occupiedSlots + queued.length }.resume
          actingAccountAcct s.generation queued

def uploadFiles (render : Render) (files : List File) : MediaQueue :=
  s.upload maxAttachments render (files.map .file)

def uploadDroppedPaths (render : Render) (paths : List Str) : MediaQueue :=
  s.upload maxAttachments render (paths.map .path)

end

/-- The attachment of an upload gets what the server has answered. -/
def settled (loop : UploadLoop) (uploaded : Uploaded) (attachment : Attachment) : Attachment :=
  match loop.source with
  | .file file =>
    { attachment with
      id := .mediaId uploaded.id
      filename := file.name
      mediaType := effectiveMediaType file uploaded
      previewSrc := ((remotePreview file uploaded).map .remote).getD loop.previewSrc
      uploading := false }
  | .path path =>
    { attachment with
      id := .mediaId uploaded.id
      filename := filenameFromPath path
      mediaType := uploaded.mediaType.getD attachment.mediaType
      previewSrc := .remote
        ((uploaded.previewUrl.or (uploaded.url.or uploaded.remoteUrl)).getD [])
      uploading := false }

/-- The preview that is given back when the attachment shows that of the server. -/
def replacedPreview (loop : UploadLoop) (uploaded : Uploaded) : List ℕ :=
  match loop.source, loop.previewSrc with
  | .file file, .object url => if (remotePreview file uploaded).isSome then [url] else []
  | _, _ => []

def settle (loop : UploadLoop) (uploaded : Uploaded) : MediaQueue :=
  { s.setAttachments (s.attachments.map fun attachment =>
      if attachment.id = .localId loop.localId then settled loop uploaded attachment
      else attachment) with
    previewsPendingRevoke := s.previewsPendingRevoke ++ replacedPreview loop uploaded
    pendingSlots := s.pendingSlots.filter (· ≠ loop.localId) }

/-- An upload is answered, and its loop goes on. -/
def completed (i : ℕ) (uploaded : Uploaded) : Option MediaQueue :=
  s.loops[i]?.map fun loop =>
    let s := { s with loops := s.loops.eraseIdx i }
    let s :=
      if s.Current loop.actingAccountAcct loop.generation loop.localId then s.settle loop uploaded
      else s.revokeOwnedPreview loop.previewSrc
    s.resume loop.actingAccountAcct loop.generation loop.queued

/-- An upload fails or is aborted, and its loop goes on. -/
def failed (i : ℕ) : Option MediaQueue :=
  s.loops[i]?.map fun loop =>
    let s := { s with loops := s.loops.eraseIdx i }
    let s' := (s.revokeOwnedPreview loop.previewSrc).releasePendingSlot loop.localId
    let s :=
      if s.Current loop.actingAccountAcct loop.generation loop.localId then
        s'.setAttachments (s'.attachments.filter (·.id ≠ .localId loop.localId))
      else s'
    s.resume loop.actingAccountAcct loop.generation loop.queued

/-- The progress of a file changes what is shown of it. -/
def progress (i : ℕ) : Option MediaQueue :=
  s.loops[i]?.bind fun loop =>
    match loop.source with
    | .path _ => none
    | .file _ =>
      if s.Current loop.actingAccountAcct loop.generation loop.localId then
        some (s.setAttachments s.attachments)
      else some s

/-! ### The list of attachments -/

/-- What is given up with an attachment that is dropped from the list. -/
def drop (target : Attachment) : MediaQueue :=
  { s with
    pendingSlots := s.pendingSlots.filter fun n => target.id ≠ AttachmentId.localId n
    previewsPendingRevoke :=
      s.previewsPendingRevoke.filter fun url => target.previewSrc ≠ PreviewSrc.object url
  }.revokeOwnedPreview target.previewSrc

def remove (index : ℕ) : MediaQueue :=
  match s.attachments[index]? with
  | none => s
  | some target =>
    { s.drop target with occupiedSlots := s.occupiedSlots - 1 }.setAttachments
      (s.attachments.eraseIdx index)

def moveQueueItem (items : List Attachment) (source target : ℕ) : List Attachment :=
  if source = target ∨ items.length ≤ source ∨ items.length ≤ target then items
  else
    match items[source]? with
    | none => items
    | some item => (items.eraseIdx source).insertIdx target item

def move (source target : ℕ) : MediaQueue :=
  if source = target then s else s.setAttachments (moveQueueItem s.attachments source target)

/-- The attachment that `currentById` has for an id: the last one with it. -/
def currentById (attachments : List Attachment) (id : AttachmentId) : Option Attachment :=
  attachments.reverse.find? (·.id = id)

/-- The attachments with the given ids, each id once. -/
def retained (attachments : List Attachment) (seen : List AttachmentId) :
    List AttachmentId → List Attachment
  | [] => []
  | id :: ids =>
    if id ∈ seen then retained attachments seen ids
    else (currentById attachments id).toList ++ retained attachments (id :: seen) ids

def replaceWithIds (ids : List AttachmentId) : MediaQueue :=
  let next := retained s.attachments [] ids
  let dropped := s.attachments.filter fun attachment => attachment.id ∉ next.map (·.id)
  { dropped.foldl drop s with occupiedSlots := next.length }.setAttachments next

/-- Has a plugin button chosen other attachments than it was given, and are they still the same? -/
def takesPluginMediaIds (currentMediaIds mediaIds : List AttachmentId) : Bool :=
  !s.attachments.any (·.uploading) && s.attachments.map (·.id) = currentMediaIds &&
    mediaIds.all (· ∈ currentMediaIds) && mediaIds ≠ currentMediaIds

def applyPluginMediaIds (currentMediaIds mediaIds : List AttachmentId) : MediaQueue :=
  if s.takesPluginMediaIds currentMediaIds mediaIds then s.replaceWithIds mediaIds else s

def step (maxAttachments : ℕ) : Label → Option MediaQueue
  | .uploadFiles render files => some (s.uploadFiles maxAttachments render files)
  | .uploadDroppedPaths render paths => some (s.uploadDroppedPaths maxAttachments render paths)
  | .progress i => s.progress i
  | .completed i uploaded => s.completed i uploaded
  | .failed i => s.failed i
  | .remove index => some (s.remove index)
  | .move source target => some (s.move source target)
  | .replaceWithIds ids => some (s.replaceWithIds ids)
  | .applyPluginMediaIds current ids => some (s.applyPluginMediaIds current ids)
  | .clear => some s.clear
  | .accountEffect activeAcct => some (s.accountEffect activeAcct)
  | .layoutEffect => some s.layoutEffect

end MediaQueue

end Awayuki.Compose
