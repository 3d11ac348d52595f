import Awayuki.Text
import Awayuki.Library.BufferedFile
import Awayuki.Library.OrderedMap
import Awayuki.Library.Runs

/-!
# Media uploads

`MediaUploadManager` of `state/media_upload.rs`: an upload is begun with the length of the file,
gets it in chunks, and is finished or cancelled.  What the file system makes of each request comes
with the call.

* `State` with the calls, under the source's names, and `validateMediaPath`;
* `acknowledged`, `declared`: what a history says of an upload;
* `Undisturbed`: nothing goes wrong in a way that the code does not make good;
* `AllOrNothing`: a finished file is the acknowledged one, and else nothing is left of it;
* `upload_allOrNothing`: all runs of undisturbed calls.
-/

namespace Awayuki.MediaUpload

open BufferedFile Runs

/-! ### Types of media -/

abbrev Bytes := List UInt8

def MAX_UPLOAD_BYTES : ℕ := 256 * 1024 * 1024

def MAX_CHUNK_BYTES : ℕ := 256 * 1024

/-- In milliseconds. -/
def UPLOAD_TTL : ℕ := 10 * 60 * 1000

inductive MediaUploadError
  | empty | tooLarge | chunkTooLarge | unsupportedType | mimeMismatch | invalidCapability
  | incomplete | io
  deriving DecidableEq, Repr

def ascii (s : String) : Bytes := s.toList.map fun c => UInt8.ofNat c.toNat

def detectMime (header : Bytes) : Option Str :=
  if [0xff, 0xd8, 0xff].isPrefixOf header then some "image/jpeg"
  else if [0x89, 0x50, 0x4e, 0x47, 0x0d, 0x0a, 0x1a, 0x0a].isPrefixOf header then some "image/png"
  else if (ascii "GIF87a").isPrefixOf header || (ascii "GIF89a").isPrefixOf header then
    some "image/gif"
  else if (ascii "RIFF").isPrefixOf header && (header.drop 8).take 4 == ascii "WEBP" then
    some "image/webp"
  else if (header.drop 4).take 4 == ascii "ftyp" then some "video/mp4"
  else if [0x1a, 0x45, 0xdf, 0xa3].isPrefixOf header then some "video/webm"
  else if (ascii "ID3").isPrefixOf header || [0xff, 0xfb].isPrefixOf header then some "audio/mpeg"
  else if (ascii "OggS").isPrefixOf header then some "audio/ogg"
  else none

def extensionForMime (mime : Str) : Option Str :=
  [("image/jpeg".toList, "jpg".toList), ("image/png", "png"), ("image/gif", "gif"),
    ("image/webp", "webp"), ("video/mp4", "mp4"), ("video/webm", "webm"), ("audio/mpeg", "mp3"),
    ("audio/ogg", "ogg")].lookup mime

/-- `Path::file_name` on Unix. -/
def fileName (path : Str) : Option Str :=
  match ((path.splitOnP (· == '/')).filter fun part => part ≠ [] ∧ part ≠ ['.']).getLast? with
  | some name => if name = "..".toList then none else some name
  | none => none

/-- `Path::extension`: a name that only begins with a dot has none. -/
def pathExtension (path : Str) : Option Str :=
  (fileName path).bind fun name =>
    match name.rsplitOnce '.' with
    | some (before, after) => if before = [] then none else some after
    | none => none

def filenameMatchesMime (filename extension : Str) : Bool :=
  let actual := ((pathExtension filename).getD []).toAsciiLowercase
  actual == extension || (extension == "jpg".toList && actual == "jpeg".toList)

/-! ### The manager -/

/-- The file of an upload in the directory for temporary ones; the id is a fresh UUID, here a
number. -/
structure TempPath where
  id : ℕ
  extension : Str
  deriving DecidableEq, Repr

def TempPath.fileName (path : TempPath) : Str :=
  "awayuki-upload-".toList ++ Nat.toDigits 16 path.id ++ "." ++ path.extension

structure PendingUpload where
  path : TempPath
  actingAccountAcct : Str
  mimeType : Str
  expected : ℕ
  written : ℕ
  createdAt : ℕ

structure UploadProgress where
  written : ℕ
  total : ℕ
  deriving DecidableEq, Repr

structure CompletedUpload where
  path : TempPath
  actingAccountAcct : Str
  deriving DecidableEq, Repr

/-- The pending uploads, and the temporary files with what their handles have taken. -/
structure State where
  pending : OrderedMap ℕ PendingUpload
  files : OrderedMap TempPath (File UInt8)
  nextId : ℕ

/-- The clock, the files that can be removed, and whether the new one can be created. -/
structure BeginIo where
  now : ℕ
  removes : TempPath → Bool
  created : Bool

/-- Looking at a file: whether `metadata` and `open` succeed, and how much is read. -/
structure ReadIo where
  metadata : Bool
  opened : Bool
  read : Option ℕ

structure FinishIo where
  flush : Outcome
  synced : Bool
  validation : ReadIo
  removed : Bool

def validateMediaPath (io : ReadIo) (content : Bytes) (path : TempPath)
    (declaredMime : Option Str) : Except MediaUploadError Unit :=
  if !io.metadata then .error .io
  else if content.length = 0 then .error .empty
  else if content.length > MAX_UPLOAD_BYTES then .error .tooLarge
  else if !io.opened then .error .io
  else
    match io.read with
    | none => .error .io
    | some read =>
      match detectMime (content.take (min read 16)) with
      | none => .error .unsupportedType
      | some detected =>
        if declaredMime.any (· ≠ detected) then .error .mimeMismatch
        else
          match extensionForMime detected with
          | none => .error .unsupportedType
          | some extension =>
            if !filenameMatchesMime path.fileName extension then .error .mimeMismatch else .ok ()

namespace State

def init : State := ⟨.empty, .empty, 0⟩

/-- An upload is given up, and its file removed if that succeeds. -/
def removeUpload (s : State) (id : ℕ) (removes : TempPath → Bool) : State :=
  match s.pending.get id with
  | none => s
  | some upload =>
    { s with
      pending := s.pending.delete id
      files := if removes upload.path then s.files.delete upload.path else s.files }

/-- `remove_expired` -/
def removeExpired (s : State) (now : ℕ) (removes : TempPath → Bool) : State :=
  let expired := (s.pending.entries.filter fun e =>
    decide (now - e.2.createdAt ≥ UPLOAD_TTL)).map Prod.fst
  expired.foldl (fun s id => s.removeUpload id removes) s

def «begin» (s : State) (actingAccountAcct filename mimeType : Str) (expected : ℕ) (io : BeginIo) :
    State × Except MediaUploadError ℕ :=
  if expected = 0 then (s, .error .empty)
  else if expected > MAX_UPLOAD_BYTES then (s, .error .tooLarge)
  else
    match extensionForMime mimeType with
    | none => (s, .error .unsupportedType)
    | some extension =>
      if !filenameMatchesMime filename extension then (s, .error .mimeMismatch)
      else
        let s := s.removeExpired io.now io.removes
        let id := s.nextId
        let path : TempPath := ⟨id, extension⟩
        if !io.created then ({ s with nextId := id + 1 }, .error .io)
        else
          ({ pending :=
              s.pending.set id ⟨path, actingAccountAcct, mimeType, expected, 0, io.now⟩
             files := s.files.set path .empty
             nextId := id + 1 }, .ok id)

def append (s : State) (id : ℕ) (chunk : Bytes) (outcome : Outcome) :
    State × Except MediaUploadError UploadProgress :=
  if chunk.length > MAX_CHUNK_BYTES then (s, .error .chunkTooLarge)
  else
    match s.pending.get id with
    | none => (s, .error .invalidCapability)
    | some upload =>
      let next := upload.written + chunk.length
      if next > upload.expected ∨ next > MAX_UPLOAD_BYTES then (s, .error .tooLarge)
      else
        let wrote := ((s.files.get upload.path).getD .empty).writeAll chunk outcome
        let s := { s with files := s.files.set upload.path wrote.1 }
        if !wrote.2 then (s, .error .io)
        else
          ({ s with pending := s.pending.set id { upload with written := next } },
            .ok ⟨next, upload.expected⟩)

/-- After the length has been checked, an error leaves the file. -/
def finish (s : State) (id : ℕ) (io : FinishIo) :
    State × Except MediaUploadError CompletedUpload :=
  match s.pending.get id with
  | none => (s, .error .invalidCapability)
  | some upload =>
    let s := { s with pending := s.pending.delete id }
    if upload.written ≠ upload.expected then
      ({ s with files := if io.removed then s.files.delete upload.path else s.files },
        .error .incomplete)
    else
      let flushed := ((s.files.get upload.path).getD .empty).flush io.flush
      let s := { s with files := s.files.set upload.path flushed.1 }
      if !flushed.2 then (s, .error .io)
      else if !io.synced then (s, .error .io)
      else
        match validateMediaPath io.validation flushed.1.onDisk upload.path
            (some upload.mimeType) with
        | .error e => (s, .error e)
        | .ok _ => (s, .ok ⟨upload.path, upload.actingAccountAcct⟩)

def cancel (s : State) (id : ℕ) (removed : Bool) : State := s.removeUpload id fun _ => removed

def cancelAccount (s : State) (actingAccountAcct : Str) (removes : TempPath → Bool) : State :=
  let ids := (s.pending.entries.filter fun e =>
    e.2.actingAccountAcct == actingAccountAcct).map Prod.fst
  ids.foldl (fun s id => s.removeUpload id removes) s

end State

/-! ### Calls -/

inductive Call
  | «begin» (actingAccountAcct filename mimeType : Str) (expected : ℕ) (io : BeginIo)
  | append (id : ℕ) (chunk : Bytes) (outcome : Outcome)
  | finish (id : ℕ) (io : FinishIo)
  | cancel (id : ℕ) (removed : Bool)
  | cancelAccount (actingAccountAcct : Str) (removes : TempPath → Bool)

inductive Reply
  | begun (result : Except MediaUploadError ℕ)
  | appended (result : Except MediaUploadError UploadProgress)
  | finished (result : Except MediaUploadError CompletedUpload)
  | cancelled

def State.step (s : State) : Call → State × Reply
  | .begin actingAccountAcct filename mimeType expected io =>
    ((s.begin actingAccountAcct filename mimeType expected io).1,
      .begun (s.begin actingAccountAcct filename mimeType expected io).2)
  | .append id chunk outcome =>
    ((s.append id chunk outcome).1, .appended (s.append id chunk outcome).2)
  | .finish id io => ((s.finish id io).1, .finished (s.finish id io).2)
  | .cancel id removed => (s.cancel id removed, .cancelled)
  | .cancelAccount actingAccountAcct removes =>
    (s.cancelAccount actingAccountAcct removes, .cancelled)

/-- The chunk of the upload that a call has got acknowledged. -/
def acknowledgedBy (id : ℕ) : Call × Reply → Bytes
  | (.append id' chunk _, .appended (.ok _)) => if id' = id then chunk else []
  | _ => []

/-- The length with which a call has begun the upload. -/
def declaredBy (id : ℕ) : Call × Reply → Option ℕ
  | (.begin _ _ _ expected _, .begun (.ok id')) => if id' = id then some expected else none
  | _ => none

/-- The acknowledged chunks of an upload, in order. -/
def acknowledged (history : List (Call × Reply)) (id : ℕ) : Bytes :=
  history.flatMap (acknowledgedBy id)

def declared (history : List (Call × Reply)) (id : ℕ) : Option ℕ :=
  history.findSome? (declaredBy id)

/-! ### What the code makes good -/

/-- The file is flushed and synced, and is of the declared type. -/
def Completes (s : State) (upload : PendingUpload) (io : FinishIo) : Prop :=
  io.flush = .ok ∧ io.synced = true ∧
    validateMediaPath io.validation ((s.files.get upload.path).getD .empty).total upload.path
      (some upload.mimeType) = .ok ()

/-- A write that fails leaves what was acknowledged, and nothing of its own chunk; a file that is to
be removed can be; and a finish that has all the bytes does not fail after all. -/
def Undisturbed (s : State) : Call → Prop
  | .append id chunk outcome => ∀ upload, s.pending.get id = some upload →
    chunk.length ≤ MAX_CHUNK_BYTES → upload.written + chunk.length ≤ upload.expected →
      outcome.Spares ((s.files.get upload.path).getD .empty)
  | .finish id io => ∀ upload, s.pending.get id = some upload →
    (upload.written ≠ upload.expected → io.removed = true) ∧
      (upload.written = upload.expected → Completes s upload io)
  | .cancel id removed => s.pending.get id ≠ none → removed = true
  | _ => True

/-- A call that is undisturbed, with its reply. -/
def Step (s : State) (label : Call × Reply) (t : State) : Prop :=
  s.step label.1 = (t, label.2) ∧ Undisturbed s label.1

/-- A finished file is the acknowledged chunks and as long as was declared; of an upload that does
not get finished, or is cancelled, there is neither a file nor an entry. -/
structure AllOrNothing (history : List (Call × Reply)) (s : State) (call : Call) (reply : Reply)
    (t : State) : Prop where
  all : ∀ id io completed, call = .finish id io → reply = .finished (.ok completed) →
    t.files.get completed.path = some ⟨acknowledged history id, []⟩ ∧
      declared history id = some (acknowledged history id).length
  nothing : ∀ id upload, s.pending.get id = some upload →
    ((∃ io e, call = .finish id io ∧ reply = .finished (.error e)) ∨
      ∃ removed, call = .cancel id removed) →
    t.files.get upload.path = none ∧ t.pending.get id = none

/-! ### Registered uploads -/

theorem acknowledged_snoc (history : List (Call × Reply)) (label : Call × Reply) (id : ℕ) :
    acknowledged (history ++ [label]) id = acknowledged history id ++ acknowledgedBy id label := by
  rw [acknowledged, List.flatMap_append, List.flatMap_singleton]
  rfl

theorem declared_snoc (history : List (Call × Reply)) (label : Call × Reply) (id : ℕ) :
    declared (history ++ [label]) id = (declared history id).or (declaredBy id label) := by
  rw [declared, List.findSome?_append, List.findSome?_singleton]
  rfl

/-- The file of a pending upload has what was acknowledged. -/
structure Registered (history : List (Call × Reply)) (s : State) (id : ℕ)
    (upload : PendingUpload) : Prop where
  path : upload.path.id = id
  bound : id < s.nextId
  declared : declared history id = some upload.expected
  written : upload.written = (acknowledged history id).length
  content : ∃ file, s.files.get upload.path = some file ∧ file.total = acknowledged history id

structure Invariant (history : List (Call × Reply)) (s : State) : Prop where
  registered : ∀ id upload, s.pending.get id = some upload → Registered history s id upload
  fresh : ∀ id, s.nextId ≤ id → acknowledged history id = [] ∧ declared history id = none

theorem invariant_init : Invariant [] .init where
  registered id upload h := by cases h
  fresh id h := ⟨rfl, rfl⟩

section

variable {history : List (Call × Reply)} {s : State} {label : Call × Reply} {id : ℕ}

/-- What is done to one upload, and said of it, leaves the others. -/
theorem Invariant.of_frame {history' : List (Call × Reply)} {t : State}
    (h : Invariant history s) (id : ℕ) (hnext : s.nextId ≤ t.nextId)
    (hhistory : ∀ id', id' ≠ id → acknowledged history' id' = acknowledged history id' ∧
      MediaUpload.declared history' id' = MediaUpload.declared history id')
    (hpending : ∀ id', id' ≠ id → t.pending.get id' = s.pending.get id')
    (hfiles : ∀ path : TempPath, path.id ≠ id → t.files.get path = s.files.get path)
    (hone : ∀ upload, t.pending.get id = some upload → Registered history' t id upload)
    (hfresh : t.nextId ≤ id →
      acknowledged history' id = [] ∧ MediaUpload.declared history' id = none) :
    Invariant history' t := by
  refine ⟨fun id' upload hget => ?_, fun id' hid' => ?_⟩
  · by_cases hid : id' = id
    · subst hid
      exact hone upload hget
    · rw [hpending id' hid] at hget
      have hregistered := h.registered id' upload hget
      refine ⟨hregistered.path, hregistered.bound.trans_le hnext, ?_, ?_, ?_⟩
      · rw [(hhistory id' hid).2]
        exact hregistered.declared
      · rw [(hhistory id' hid).1]
        exact hregistered.written
      · rw [hfiles upload.path (by rw [hregistered.path]; exact hid), (hhistory id' hid).1]
        exact hregistered.content
  · by_cases hid : id' = id
    · subst hid
      exact hfresh hid'
    · rw [(hhistory id' hid).1, (hhistory id' hid).2]
      exact h.fresh id' (hnext.trans hid')

/-- A call that gets nothing acknowledged and begins no upload. -/
def Silent (label : Call × Reply) : Prop :=
  ∀ id, acknowledgedBy id label = [] ∧ declaredBy id label = none

theorem Silent.snoc (h : Silent label) (id : ℕ) :
    acknowledged (history ++ [label]) id = acknowledged history id ∧
      MediaUpload.declared (history ++ [label]) id = MediaUpload.declared history id := by
  rw [acknowledged_snoc, declared_snoc, (h id).1, (h id).2, List.append_nil, Option.or_none]
  exact ⟨rfl, rfl⟩

theorem Invariant.silent (h : Invariant history s) (hlabel : Silent label) :
    Invariant (history ++ [label]) s := by
  refine h.of_frame s.nextId (le_refl _) (fun id _ => hlabel.snoc id) (fun _ _ => rfl)
    (fun _ _ => rfl) ?_ fun hid => ?_
  · intro upload hget
    exact absurd (h.registered _ _ hget).bound (lt_irrefl _)
  · rw [(hlabel.snoc s.nextId).1, (hlabel.snoc s.nextId).2]
    exact h.fresh s.nextId hid

theorem pending_removeUpload (s : State) (id : ℕ) (removes : TempPath → Bool) (id' : ℕ) :
    (s.removeUpload id removes).pending.get id' =
      if id' = id then none else s.pending.get id' := by
  unfold State.removeUpload
  cases hget : s.pending.get id with
  | none =>
    split_ifs with hid
    · rw [hid, hget]
    · rfl
  | some upload => exact OrderedMap.get_delete

theorem Invariant.removeUpload (h : Invariant history s) (id : ℕ) (removes : TempPath → Bool) :
    Invariant history (s.removeUpload id removes) := by
  have hnone : ∀ upload, (s.removeUpload id removes).pending.get id ≠ some upload := by
    intro upload
    rw [pending_removeUpload, if_pos rfl]
    exact Option.some_ne_none upload |>.symm
  have hnext : s.nextId ≤ (s.removeUpload id removes).nextId := by
    unfold State.removeUpload
    cases s.pending.get id <;> exact le_refl _
  refine h.of_frame id hnext (fun _ _ => ⟨rfl, rfl⟩) ?_ ?_
    (fun upload hget => absurd hget (hnone upload)) fun hid => h.fresh id (hnext.trans hid)
  · intro id' hid
    rw [pending_removeUpload, if_neg hid]
  · intro path hpath
    unfold State.removeUpload
    cases hget : s.pending.get id with
    | none => rfl
    | some upload =>
      have hne : path ≠ upload.path := by
        rintro rfl
        exact hpath (h.registered id upload hget).path
      show (if removes upload.path then s.files.delete upload.path else s.files).get path = _
      split_ifs
      · rw [OrderedMap.get_delete, if_neg hne]
      · rfl

theorem Invariant.removeUploads (h : Invariant history s) (ids : List ℕ)
    (removes : TempPath → Bool) :
    Invariant history (ids.foldl (fun s id => s.removeUpload id removes) s) := by
  induction ids generalizing s with
  | nil => exact h
  | cons id ids ih => exact ih (h.removeUpload id removes)

/-! ### The calls -/

theorem Invariant.begin (h : Invariant history s) (actingAccountAcct filename mimeType : Str)
    (expected : ℕ) (io : BeginIo) :
    Invariant (history ++ [(.begin actingAccountAcct filename mimeType expected io,
        .begun (s.begin actingAccountAcct filename mimeType expected io).2)])
      (s.begin actingAccountAcct filename mimeType expected io).1 := by
  have herror : ∀ e, Silent (.begin actingAccountAcct filename mimeType expected io,
      .begun (.error e)) := fun e id => ⟨rfl, rfl⟩
  unfold State.begin
  by_cases hempty : expected = 0
  · rw [if_pos hempty]
    exact h.silent (herror _)
  rw [if_neg hempty]
  by_cases hlarge : expected > MAX_UPLOAD_BYTES
  · rw [if_pos hlarge]
    exact h.silent (herror _)
  rw [if_neg hlarge]
  cases hextension : extensionForMime mimeType with
  | none => exact h.silent (herror _)
  | some extension =>
    dsimp only
    by_cases hmatches : (!filenameMatchesMime filename extension) = true
    · rw [if_pos hmatches]
      exact h.silent (herror _)
    rw [if_neg hmatches]
    have hcleared : Invariant history (s.removeExpired io.now io.removes) := h.removeUploads _ _
    set cleared := s.removeExpired io.now io.removes
    by_cases hfailed : (!io.created) = true
    · rw [if_pos hfailed]
      refine Invariant.silent (hcleared.of_frame cleared.nextId (Nat.le_succ _)
        (fun _ _ => ⟨rfl, rfl⟩) (fun _ _ => rfl) (fun _ _ => rfl) ?_ fun hid => ?_) (herror _)
      · intro upload hget
        exact absurd (hcleared.registered _ _ hget).bound (lt_irrefl _)
      · exact absurd hid (Nat.not_succ_le_self _)
    · rw [if_neg hfailed]
      have hfresh := hcleared.fresh cleared.nextId (le_refl _)
      have hack : ∀ id, acknowledgedBy id (.begin actingAccountAcct filename mimeType expected io,
          .begun (.ok cleared.nextId)) = [] := fun id => rfl
      refine hcleared.of_frame cleared.nextId (Nat.le_succ _) (fun id hid => ?_)
        (fun id hid => OrderedMap.get_set_of_ne hid) (fun path hpath => ?_) ?_ fun hid => ?_
      · have hdeclared : declaredBy id (.begin actingAccountAcct filename mimeType expected io,
            .begun (.ok cleared.nextId)) = none := if_neg (Ne.symm hid)
        rw [acknowledged_snoc, declared_snoc, hack, hdeclared, List.append_nil, Option.or_none]
        exact ⟨rfl, rfl⟩
      · exact OrderedMap.get_set_of_ne fun heq => hpath (congrArg TempPath.id heq)
      · intro upload hget
        have hupload : some _ = some upload := OrderedMap.get_set_self.symm.trans hget
        obtain rfl := Option.some.inj hupload
        have hdeclared : declaredBy cleared.nextId
            (.begin actingAccountAcct filename mimeType expected io,
              .begun (.ok cleared.nextId)) = some expected := if_pos rfl
        refine ⟨rfl, Nat.lt_succ_self _, ?_, ?_, .empty, OrderedMap.get_set_self, ?_⟩
        · rw [declared_snoc, hfresh.2, hdeclared]
          rfl
        · rw [acknowledged_snoc, hack, hfresh.1]
          rfl
        · rw [acknowledged_snoc, hack, hfresh.1]
          rfl
      · exact absurd hid (Nat.not_succ_le_self _)

theorem Invariant.append (h : Invariant history s) (id : ℕ) (chunk : Bytes) (outcome : Outcome)
    (hundisturbed : Undisturbed s (.append id chunk outcome)) :
    Invariant (history ++ [(.append id chunk outcome, .appended (s.append id chunk outcome).2)])
      (s.append id chunk outcome).1 := by
  have herror : ∀ e, Silent (.append id chunk outcome, .appended (.error e)) := fun e id =>
    ⟨rfl, rfl⟩
  unfold State.append
  by_cases hchunk : chunk.length > MAX_CHUNK_BYTES
  · rw [if_pos hchunk]
    exact h.silent (herror _)
  rw [if_neg hchunk]
  cases hget : s.pending.get id with
  | none => exact h.silent (herror _)
  | some upload =>
    dsimp only
    by_cases hlarge : upload.written + chunk.length > upload.expected ∨
        upload.written + chunk.length > MAX_UPLOAD_BYTES
    · rw [if_pos hlarge]
      exact h.silent (herror _)
    rw [if_neg hlarge]
    rw [not_or, not_lt, not_lt] at hlarge
    have hregistered := h.registered id upload hget
    obtain ⟨file, hfile, htotal⟩ := hregistered.content
    have hspares := hundisturbed upload hget (not_lt.1 hchunk) hlarge.1
    rw [hfile, Option.getD_some] at hspares ⊢
    have hwrote := total_writeAll chunk hspares
    have hother : ∀ path : TempPath, path.id ≠ id →
        (s.files.set upload.path (file.writeAll chunk outcome).1).get path = s.files.get path := by
      intro path hpath
      refine OrderedMap.get_set_of_ne ?_
      rintro rfl
      exact hpath hregistered.path
    by_cases hfailed : (!(file.writeAll chunk outcome).2) = true
    · rw [if_pos hfailed]
      have hflag : (file.writeAll chunk outcome).2 = false := by simpa using hfailed
      rw [hflag, if_neg Bool.false_ne_true, List.append_nil] at hwrote
      refine Invariant.silent (h.of_frame id (le_refl _)
        (fun _ _ => ⟨rfl, rfl⟩) (fun _ _ => rfl) hother ?_ fun hid => h.fresh id hid) (herror _)
      intro upload' hget'
      obtain rfl : upload = upload' := Option.some.inj (hget.symm.trans hget')
      exact ⟨hregistered.path, hregistered.bound, hregistered.declared, hregistered.written, _,
        OrderedMap.get_set_self, hwrote.trans htotal⟩
    · rw [if_neg hfailed]
      have hflag : (file.writeAll chunk outcome).2 = true := by simpa using hfailed
      rw [hflag, if_pos rfl] at hwrote
      have hack : ∀ progress, acknowledgedBy id (.append id chunk outcome,
          .appended (.ok progress)) = chunk := fun progress => if_pos rfl
      have hdeclared : ∀ id' progress, declaredBy id' (.append id chunk outcome,
          .appended (.ok progress)) = none := fun id' progress => rfl
      refine h.of_frame id (le_refl _) (fun id' hid => ?_)
        (fun id' hid => OrderedMap.get_set_of_ne hid) hother ?_ fun hid => ?_
      · have hnone : ∀ progress, acknowledgedBy id' (.append id chunk outcome,
            .appended (.ok progress)) = [] := fun progress => if_neg (Ne.symm hid)
        rw [acknowledged_snoc, declared_snoc, hnone, hdeclared, List.append_nil, Option.or_none]
        exact ⟨rfl, rfl⟩
      · intro upload' hget'
        have hupload : some _ = some upload' := OrderedMap.get_set_self.symm.trans hget'
        obtain rfl := Option.some.inj hupload
        refine ⟨hregistered.path, hregistered.bound, ?_, ?_, _, OrderedMap.get_set_self, ?_⟩
        · rw [declared_snoc, hdeclared, Option.or_none]
          exact hregistered.declared
        · rw [acknowledged_snoc, hack, List.length_append, ← hregistered.written]
        · rw [acknowledged_snoc, hack, ← htotal]
          exact hwrote
      · exact absurd hregistered.bound (not_lt.2 hid)

variable {upload : PendingUpload}

/-- What any finish of a pending upload leaves of the others. -/
theorem finish_frame (id : ℕ) (io : FinishIo) (hget : s.pending.get id = some upload) :
    (s.finish id io).1.nextId = s.nextId ∧
      (s.finish id io).1.pending = s.pending.delete id ∧
      ∀ path, path ≠ upload.path → (s.finish id io).1.files.get path = s.files.get path := by
  unfold State.finish
  rw [hget]
  dsimp only
  by_cases hwritten : upload.written ≠ upload.expected
  · rw [if_pos hwritten]
    refine ⟨rfl, rfl, fun path hpath => ?_⟩
    show (if io.removed = true then s.files.delete upload.path else s.files).get path = _
    split_ifs
    · rw [OrderedMap.get_delete, if_neg hpath]
    · rfl
  · rw [if_neg hwritten]
    have hset : ∀ file, ∀ path, path ≠ upload.path →
        (s.files.set upload.path file).get path = s.files.get path := fun file path hpath =>
      OrderedMap.get_set_of_ne hpath
    split
    · exact ⟨rfl, rfl, hset _⟩
    · split
      · exact ⟨rfl, rfl, hset _⟩
      · split
        · exact ⟨rfl, rfl, hset _⟩
        · exact ⟨rfl, rfl, hset _⟩

theorem finish_of_none (id : ℕ) (io : FinishIo) (hget : s.pending.get id = none) :
    s.finish id io = (s, .error .invalidCapability) := by
  unfold State.finish
  rw [hget]

theorem Invariant.finish (h : Invariant history s) (id : ℕ) (io : FinishIo) :
    Invariant (history ++ [(.finish id io, .finished (s.finish id io).2)]) (s.finish id io).1 := by
  have hsilent : Silent (.finish id io, .finished (s.finish id io).2) := fun id => ⟨rfl, rfl⟩
  refine Invariant.silent ?_ hsilent
  cases hget : s.pending.get id with
  | none =>
    rw [finish_of_none id io hget]
    exact h
  | some upload =>
    obtain ⟨hnext, hpending, hfiles⟩ := finish_frame id io hget
    refine h.of_frame id hnext.ge (fun _ _ => ⟨rfl, rfl⟩) (fun id' hid => ?_)
      (fun path hpath => hfiles path ?_) (fun upload' hget' => ?_)
      fun hid => h.fresh id (hnext.symm.le.trans hid)
    · rw [hpending, OrderedMap.get_delete, if_neg hid]
    · rintro rfl
      exact hpath (h.registered id upload hget).path
    · rw [hpending, OrderedMap.get_delete, if_pos rfl] at hget'
      cases hget'

theorem Invariant.step {t : State} (h : Invariant history s) (hstep : Step s label t) :
    Invariant (history ++ [label]) t := by
  obtain ⟨call, reply⟩ := label
  obtain ⟨hstep, hundisturbed⟩ := hstep
  obtain rfl : (s.step call).1 = t := congrArg Prod.fst hstep
  obtain rfl : (s.step call).2 = reply := congrArg Prod.snd hstep
  cases call with
  | «begin» actingAccountAcct filename mimeType expected io =>
    exact h.begin actingAccountAcct filename mimeType expected io
  | append id chunk outcome => exact h.append id chunk outcome hundisturbed
  | finish id io => exact h.finish id io
  | cancel id removed =>
    have hsilent : Silent (.cancel id removed, .cancelled) := fun id => ⟨rfl, rfl⟩
    exact (h.removeUpload id fun _ => removed).silent hsilent
  | cancelAccount actingAccountAcct removes =>
    have hsilent : Silent (.cancelAccount actingAccountAcct removes, .cancelled) := fun id =>
      ⟨rfl, rfl⟩
    exact (h.removeUploads _ _).silent hsilent

theorem invariant_run (hrun : Run Step .init history s) : Invariant history s :=
  hrun.history invariant_init fun h hstep => h.step hstep

/-! ### All or nothing -/

variable {io : FinishIo}

/-- A finish that has all the bytes succeeds if it is undisturbed. -/
theorem finish_of_written {file : File UInt8} (hget : s.pending.get id = some upload)
    (hwritten : upload.written = upload.expected) (hfile : s.files.get upload.path = some file)
    (hcompletes : Completes s upload io) : s.finish id io = ({ s with
        pending := s.pending.delete id
        files := s.files.set upload.path ⟨file.total, []⟩ },
      .ok ⟨upload.path, upload.actingAccountAcct⟩) := by
  obtain ⟨hflush, hsynced, hvalid⟩ := hcompletes
  rw [hfile, Option.getD_some] at hvalid
  unfold State.finish
  rw [hget]
  dsimp only
  rw [if_neg (not_not.2 hwritten), hfile, Option.getD_some, hflush, flush_ok]
  dsimp only
  rw [hsynced, hvalid]
  rfl

theorem finish_of_not_written (hget : s.pending.get id = some upload)
    (hwritten : upload.written ≠ upload.expected) (hremoved : io.removed = true) :
    s.finish id io = ({ s with
        pending := s.pending.delete id
        files := s.files.delete upload.path }, .error .incomplete) := by
  unfold State.finish
  rw [hget]
  dsimp only
  rw [if_pos hwritten, if_pos hremoved]

/-- In every run of undisturbed calls, an upload is finished as it was acknowledged, or nothing is
left of it. -/
theorem upload_allOrNothing {t : State} {call : Call} {reply : Reply}
    (hrun : Run Step .init history s) (hstep : Step s (call, reply) t) :
    AllOrNothing history s call reply t := by
  have h := invariant_run hrun
  obtain ⟨hstep, hundisturbed⟩ := hstep
  obtain rfl : (s.step call).1 = t := congrArg Prod.fst hstep
  obtain rfl : (s.step call).2 = reply := congrArg Prod.snd hstep
  refine ⟨?_, ?_⟩
  · rintro id io completed rfl hreply
    have hok : (s.finish id io).2 = .ok completed := Reply.finished.inj hreply
    show (s.finish id io).1.files.get _ = _ ∧ _
    cases hget : s.pending.get id with
    | none =>
      rw [finish_of_none id io hget] at hok
      cases hok
    | some upload =>
      have hregistered := h.registered id upload hget
      obtain ⟨file, hfile, htotal⟩ := hregistered.content
      by_cases hwritten : upload.written = upload.expected
      · have hfinish := finish_of_written hget hwritten hfile
          ((hundisturbed upload hget).2 hwritten)
        rw [hfinish] at hok ⊢
        obtain rfl := Except.ok.inj hok
        refine ⟨?_, ?_⟩
        · rw [← htotal]
          exact OrderedMap.get_set_self
        · rw [hregistered.declared, ← hwritten, hregistered.written]
      · have hfinish := finish_of_not_written hget hwritten
          ((hundisturbed upload hget).1 hwritten)
        rw [hfinish] at hok
        cases hok
  · rintro id upload hget (⟨io, e, rfl, hreply⟩ | ⟨removed, rfl⟩)
    · have herror : (s.finish id io).2 = .error e := Reply.finished.inj hreply
      show (s.finish id io).1.files.get _ = _ ∧ (s.finish id io).1.pending.get id = none
      by_cases hwritten : upload.written = upload.expected
      · obtain ⟨file, hfile, -⟩ := (h.registered id upload hget).content
        have hfinish := finish_of_written hget hwritten hfile
          ((hundisturbed upload hget).2 hwritten)
        rw [hfinish] at herror
        cases herror
      · have hfinish := finish_of_not_written hget hwritten
          ((hundisturbed upload hget).1 hwritten)
        rw [hfinish]
        refine ⟨?_, ?_⟩
        · show (s.files.delete upload.path).get upload.path = none
          rw [OrderedMap.get_delete, if_pos rfl]
        · show (s.pending.delete id).get id = none
          rw [OrderedMap.get_delete, if_pos rfl]
    · have hremoved : removed = true :=
        hundisturbed (by rw [hget]; exact Option.some_ne_none upload)
      refine ⟨?_, ?_⟩
      · show (s.removeUpload id fun _ => removed).files.get upload.path = none
        unfold State.removeUpload
        rw [hget]
        show (if removed = true then s.files.delete upload.path else s.files).get upload.path = none
        rw [if_pos hremoved, OrderedMap.get_delete, if_pos rfl]
      · show (s.removeUpload id fun _ => removed).pending.get id = none
        rw [pending_removeUpload, if_pos rfl]

end

/-! ### Uploads of a picture -/

def pngHeader : Bytes := [0x89, 0x50, 0x4e, 0x47, 0x0d, 0x0a, 0x1a, 0x0a]

def beginPng (expected : ℕ) : Call :=
  .begin "alice@example.test" "image.png" "image/png" expected ⟨0, fun _ => true, true⟩

/-- The file system makes no trouble. -/
def smooth : FinishIo := ⟨.ok, true, ⟨true, true, some 16⟩, true⟩

/-- The calls with their replies, and the state they lead to. -/
def play (calls : List Call) : State × List (Call × Reply) :=
  calls.foldl (fun played call => ((played.1.step call).1,
    played.2 ++ [(call, (played.1.step call).2)])) (.init, [])

theorem upload_allOrNothing_png :
    AllOrNothing (play [beginPng 8, .append 0 pngHeader .ok]).2
      (play [beginPng 8, .append 0 pngHeader .ok]).1 (.finish 0 smooth)
      (.finished (.ok ⟨⟨0, "png"⟩, "alice@example.test"⟩))
      (play [beginPng 8, .append 0 pngHeader .ok, .finish 0 smooth]).1 := by
  have hbegin : Step .init (beginPng 8, .begun (.ok 0)) (play [beginPng 8]).1 := ⟨rfl, trivial⟩
  have happend : Step (play [beginPng 8]).1
      (.append 0 pngHeader .ok, .appended (.ok ⟨8, 8⟩))
      (play [beginPng 8, .append 0 pngHeader .ok]).1 := ⟨rfl, fun _ _ _ _ => trivial⟩
  refine upload_allOrNothing (.snoc (.snoc (.nil _) hbegin) happend) ⟨rfl, fun upload hget => ?_⟩
  have hupload : some ⟨⟨0, "png"⟩, "alice@example.test", "image/png", 8, 8, 0⟩ = some upload := hget
  obtain rfl := Option.some.inj hupload
  exact ⟨fun _ => rfl, fun _ => ⟨rfl, rfl, rfl⟩⟩

/-- A file of another type than was declared. -/
def mislabelled : State × List (Call × Reply) :=
  play [beginPng 6, .append 0 (ascii "GIF89a") .ok]

/-- A chunk that was acknowledged and is lost with the failure of the next, which is sent again. -/
def resent : State × List (Call × Reply) :=
  play [beginPng 12, .append 0 pngHeader .ok, .append 0 (ascii "da") .ok,
    .append 0 (ascii "ta") (.error 0), .append 0 (ascii "ta") .ok]

/-- The finish fails and the file stays; and it succeeds without the lost chunk. -/
theorem not_upload_allOrNothing :
    ((mislabelled.1.finish 0 smooth).2 = .error .mimeMismatch ∧
      (mislabelled.1.finish 0 smooth).1.files.get ⟨0, "png"⟩ = some ⟨ascii "GIF89a", []⟩) ∧
    (resent.1.finish 0 smooth).2 = .ok ⟨⟨0, "png"⟩, "alice@example.test"⟩ ∧
      acknowledged resent.2 0 = pngHeader ++ ascii "data" ∧
      (resent.1.finish 0 smooth).1.files.get ⟨0, "png"⟩ =
        some ⟨pngHeader ++ ascii "ta", []⟩ := by
  decide +kernel

end Awayuki.MediaUpload
