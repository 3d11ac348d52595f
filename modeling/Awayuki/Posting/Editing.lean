import Awayuki.Outbox.Delivery
import Awayuki.Bluesky.CreateStatus

/-!
# Editing a post

`edit_own_status` of `application/status.rs` and the `edit_status` of the adapters.  Mastodon and
Paon have a request for it; for Misskey the note is deleted and a new one created.  The outbox
delivers an edit again after an error.

* `Server`: the posts of an account;
* `editStatus`: what each provider is asked for;
* `editOwnStatus`: one attempt, of which any request may fail or be lost;
* `Edits`: the post is never lost, and a success is the post with its new text;
* `edits_iff`: exactly if the requests of the first attempt that deletes the note get there, and
  the post has nothing that its edit leaves out.
-/

namespace Awayuki.Posting

open Request Outbox Bluesky

/-! ### Capabilities -/

inductive StatusOperation
  | favourite | unfavourite | reblog | unreblog | bookmark | unbookmark | vote | edit | delete
  deriving DecidableEq, Repr

structure StatusCapabilities where
  favourite : Bool
  reblog : Bool
  bookmark : Bool
  vote : Bool
  edit : Bool
  delete : Bool
  deriving DecidableEq, Repr

def StatusCapabilities.supports (c : StatusCapabilities) : StatusOperation → Bool
  | .favourite | .unfavourite => c.favourite
  | .reblog | .unreblog => c.reblog
  | .bookmark | .unbookmark => c.bookmark
  | .vote => c.vote
  | .edit => c.edit
  | .delete => c.delete

/-- The `status` of `capabilities_for_kind`. -/
def capabilitiesForKind : ServerKind → StatusCapabilities
  | .mastodon | .paon | .misskey => ⟨true, true, true, true, true, true⟩
  | .bluesky => ⟨true, true, true, false, true, true⟩

theorem supports_edit (kind : ServerKind) : (capabilitiesForKind kind).supports .edit = true := by
  cases kind <;> rfl

/-! ### Posts on a server -/

structure Poll where
  options : List Str
  multiple : Bool
  deriving DecidableEq, Repr

structure Post where
  text : Str
  replyTo : Option Str
  media : List Str
  poll : Option Poll
  quote : Option Str
  deriving DecidableEq, Repr

/-- A post of text only. -/
def Post.Plain (post : Post) : Prop :=
  post.replyTo = none ∧ post.media = [] ∧ post.poll = none ∧ post.quote = none

/-- The posts of an account by their ids, and the id that the next one gets. -/
structure Server where
  posts : ℕ → Option Post
  next : ℕ
  fresh : ∀ id, next ≤ id → posts id = none

namespace Server

def insert (s : Server) (post : Post) : Server where
  posts := Function.update s.posts s.next (some post)
  next := s.next + 1
  fresh id hid := by
    rw [Function.update_of_ne (by omega)]
    exact s.fresh id (by omega)

def remove (s : Server) (id : ℕ) : Server where
  posts := Function.update s.posts id none
  next := s.next
  fresh id' hid := by
    by_cases heq : id' = id
    · rw [heq, Function.update_self]
    · rw [Function.update_of_ne heq]
      exact s.fresh id' hid

/-- A post is changed, if it is there. -/
def modify (s : Server) (id : ℕ) (change : Post → Post) : Server where
  posts := Function.update s.posts id ((s.posts id).map change)
  next := s.next
  fresh id' hid := by
    by_cases heq : id' = id
    · rw [heq, Function.update_self, s.fresh id (by omega), Option.map_none]
    · rw [Function.update_of_ne heq]
      exact s.fresh id' hid

variable {s : Server} {id : ℕ} {post : Post}

theorem lt_next (h : s.posts id = some post) : id < s.next := by
  by_contra hle
  rw [s.fresh id (not_lt.1 hle)] at h
  cases h

@[simp] theorem insert_posts_self (s : Server) (post : Post) :
    (s.insert post).posts s.next = some post := Function.update_self ..

theorem insert_posts_of_ne (hne : id ≠ s.next) : (s.insert post).posts id = s.posts id :=
  Function.update_of_ne hne ..

@[simp] theorem remove_posts_self (s : Server) (id : ℕ) : (s.remove id).posts id = none :=
  Function.update_self ..

@[simp] theorem remove_next (s : Server) (id : ℕ) : (s.remove id).next = s.next := rfl

@[simp] theorem modify_posts_self (s : Server) (id : ℕ) (change : Post → Post) :
    (s.modify id change).posts id = (s.posts id).map change := Function.update_self ..

end Server

/-! ### Adapters -/

/-- The body of `/api/notes/create`. -/
structure NoteBody where
  text : Option Str
  replyId : Option Str
  renoteId : Option Str
  fileIds : Option (List Str)
  cw : Option Str
  visibility : Option Str
  poll : Option CreatePollParams
  deriving DecidableEq, Repr

def visibilityToMisskey (visibility : Str) : Str :=
  if visibility = "public".toList then "public"
  else if visibility = "unlisted".toList then "home"
  else if visibility = "private".toList then "followers"
  else if visibility = "direct".toList then "specified"
  else "public"

/-- The warning of a note; without one it is `null` or left out. -/
def noteCw (params : CreateStatusParams) : Option Str :=
  match params.sensitive with
  | some sensitive =>
    match params.spoilerText with
    | some cw => some cw
    | none => if sensitive then some [] else none
  | none => params.spoilerText.filter (· ≠ [])

def noteBody (params : CreateStatusParams) : NoteBody where
  text := params.status
  replyId := params.inReplyToId
  renoteId := params.quoteId
  fileIds := params.mediaIds
  cw := noteCw params
  visibility := params.visibility.map visibilityToMisskey
  poll := params.poll

/-- The note that a server makes of a body. -/
def NoteBody.post (body : NoteBody) : Post where
  text := body.text.getD []
  replyTo := body.replyId
  media := body.fileIds.getD []
  poll := body.poll.map fun poll => ⟨poll.options, poll.multiple.getD false⟩
  quote := body.renoteId

def createNote (body : NoteBody) (s : Server) : Except Str ℕ × Server :=
  (.ok s.next, s.insert body.post)

def deleteNote (id : ℕ) (s : Server) : Except Str Unit × Server :=
  if (s.posts id).isSome then (.ok (), s.remove id) else (.error "NO_SUCH_NOTE", s)

/-- Which data of a post an edit that does not mention them leaves as they are. -/
structure Omissions where
  media : Bool
  poll : Bool
  deriving DecidableEq, Repr

/-- What a Mastodon server makes of a post that is edited.  What it answers and quotes cannot be
changed. -/
def Post.edited (keeps : Omissions) (params : CreateStatusParams) (post : Post) : Post where
  text := params.status.getD post.text
  replyTo := post.replyTo
  media := params.mediaIds.getD (if keeps.media then post.media else [])
  poll := match params.poll with
    | some poll => some ⟨poll.options, poll.multiple.getD false⟩
    | none => if keeps.poll then post.poll else none
  quote := post.quote

def putStatus (keeps : Omissions) (id : ℕ) (params : CreateStatusParams) (s : Server) :
    Except Str ℕ × Server :=
  if (s.posts id).isSome then (.ok id, s.modify id (·.edited keeps params))
  else (.error "Record not found", s)

/-- What one attempt meets: the session with its account, whether the post is resolved for it, the
outcomes of the requests in their order, and whether the result is saved. -/
structure Attempt where
  session : Except Str Str
  resolved : Except Str Unit
  first : Outcome Str
  second : Outcome Str
  saved : Except Str Unit

section

variable (kind : ServerKind) (keeps : Omissions)

/-- `edit_status` of the adapters. -/
def editStatus (attempt : Attempt) (id : ℕ) (params : CreateStatusParams) (s : Server) :
    Except Str ℕ × Server :=
  match kind with
  | .mastodon | .paon => perform attempt.first (putStatus keeps id params) s
  | .misskey =>
    match perform attempt.first (deleteNote id) s with
    | (.ok _, s) => perform attempt.second (createNote (noteBody params)) s
    | (.error error, s) => (.error error, s)
  | .bluesky => (.error "Bluesky does not support editing posts", s)

/-! ### Attempts -/

/-- A request to edit a post, with the id that its identity is resolved to. -/
structure EditStatusRequest where
  remoteId : ℕ
  accountId : Str
  status : Str
  visibility : Option Str
  spoilerText : Option Str
  sensitive : Option Bool
  deriving DecidableEq, Repr

/-- The parameters of an edit leave out everything that the request does not have. -/
def EditStatusRequest.params (request : EditStatusRequest) : CreateStatusParams where
  idempotencyKey := none
  status := some request.status.trim
  inReplyToId := none
  mediaIds := none
  sensitive := request.sensitive
  spoilerText := request.spoilerText
  visibility := request.visibility
  language := none
  quoteId := none
  poll := none

/-- `edit_own_status`: the id of the post that is returned, or an error. -/
def editOwnStatus (request : EditStatusRequest) (attempt : Attempt) (s : Server) :
    Except Str ℕ × Server :=
  if request.status.trim = [] then (.error "Post text is empty", s)
  else
    match attempt.session with
    | .error error => (.error error, s)
    | .ok accountId =>
      if accountId ≠ request.accountId then
        (.error "Acting account does not own this post", s)
      else if !(capabilitiesForKind kind).supports .edit then
        (.error "status operation is not supported: Edit", s)
      else
        match attempt.resolved with
        | .error error => (.error error, s)
        | .ok _ =>
          match editStatus kind keeps attempt request.remoteId request.params s with
          | (.error error, s) => (.error error, s)
          | (.ok id, s) =>
            match attempt.saved with
            | .error error => (.error error, s)
            | .ok _ => (.ok id, s)

/-- The server after some attempts. -/
def deliver (request : EditStatusRequest) : Server → List Attempt → Server
  | s, [] => s
  | s, attempt :: attempts =>
    deliver request (editOwnStatus kind keeps request attempt s).2 attempts

/-! ### What an attempt does -/

/-- Does the attempt get to the adapter? -/
def Attempt.Sends (request : EditStatusRequest) (attempt : Attempt) : Prop :=
  request.status.trim ≠ [] ∧ attempt.session = .ok request.accountId ∧ attempt.resolved = .ok ()

variable {kind keeps} {request : EditStatusRequest} {attempt : Attempt} {s : Server}

theorem editOwnStatus_of_not_sends (h : ¬ attempt.Sends request) :
    ∃ error, editOwnStatus kind keeps request attempt s = (.error error, s) := by
  unfold editOwnStatus
  rw [supports_edit]
  by_cases htext : request.status.trim = []
  · rw [if_pos htext]
    exact ⟨_, rfl⟩
  · rw [if_neg htext]
    cases hsession : attempt.session with
    | error error => exact ⟨_, rfl⟩
    | ok accountId =>
      by_cases haccount : accountId = request.accountId
      · cases hresolved : attempt.resolved with
        | error error => exact ⟨error, by rw [haccount]; simp⟩
        | ok _ => exact absurd ⟨htext, haccount ▸ hsession, hresolved⟩ h
      · dsimp only
        rw [if_pos haccount]
        exact ⟨_, rfl⟩

/-- An attempt that gets to the adapter does what the adapter does, and succeeds if the result is
saved. -/
theorem editOwnStatus_of_sends (h : attempt.Sends request) :
    (editOwnStatus kind keeps request attempt s).2 =
        (editStatus kind keeps attempt request.remoteId request.params s).2 ∧
      ∀ id, (editOwnStatus kind keeps request attempt s).1 = .ok id ↔
        (editStatus kind keeps attempt request.remoteId request.params s).1 = .ok id ∧
          attempt.saved = .ok () := by
  obtain ⟨htext, hsession, hresolved⟩ := h
  unfold editOwnStatus
  rw [supports_edit, if_neg htext, hsession, hresolved]
  simp only [ne_eq, not_true_eq_false, if_false, Bool.not_true, Bool.false_eq_true]
  cases editStatus kind keeps attempt request.remoteId request.params s with
  | mk result s' =>
    cases result with
    | error error => exact ⟨rfl, fun id => iff_of_false (fun h => by cases h) fun h => by cases h.1⟩
    | ok id =>
      cases attempt.saved with
      | error error =>
        exact ⟨rfl, fun id => iff_of_false (fun h => by cases h) fun h => by cases h.2⟩
      | ok _ => exact ⟨rfl, fun id => ⟨fun h => ⟨h, rfl⟩, fun h => h.1⟩⟩

theorem editOwnStatus_error (h : ∀ id,
      (editStatus kind keeps attempt request.remoteId request.params s).1 ≠ .ok id) (id : ℕ) :
    (editOwnStatus kind keeps request attempt s).1 ≠ .ok id := by
  by_cases hsends : attempt.Sends request
  · exact fun hok => h id (((editOwnStatus_of_sends hsends).2 id).1 hok).1
  · obtain ⟨error, herror⟩ := @editOwnStatus_of_not_sends kind keeps request attempt s hsends
    rw [herror]
    exact fun hok => by cases hok

/-! ### Misskey -/

/-- Does the attempt delete the note, if it is there? -/
def Attempt.Deletes (request : EditStatusRequest) (attempt : Attempt) : Prop :=
  attempt.Sends request ∧ attempt.first.reaches = true

/-- The note that an edit creates. -/
def EditStatusRequest.note (request : EditStatusRequest) : Post :=
  (noteBody request.params).post

/-- An attempt after the note has been deleted fails. -/
theorem misskey_of_none (hnone : s.posts request.remoteId = none) :
    (editOwnStatus .misskey keeps request attempt s).2 = s ∧
      ∀ id, (editOwnStatus .misskey keeps request attempt s).1 ≠ .ok id := by
  have hedit : ∃ error, editStatus .misskey keeps attempt request.remoteId request.params s =
      (.error error, s) := by
    unfold editStatus
    cases attempt.first <;> simp [perform, deleteNote, hnone]
  obtain ⟨error, hedit⟩ := hedit
  refine ⟨?_, editOwnStatus_error fun id hok => ?_⟩
  · by_cases hsends : attempt.Sends request
    · rw [(editOwnStatus_of_sends hsends).1, hedit]
    · obtain ⟨error, herror⟩ := @editOwnStatus_of_not_sends .misskey keeps request attempt s hsends
      rw [herror]
  · rw [hedit] at hok
    cases hok

/-- An attempt that does not delete the note leaves it alone, and fails. -/
theorem misskey_of_not_deletes (h : ¬ attempt.Deletes request) :
    (editOwnStatus .misskey keeps request attempt s).2 = s ∧
      ∀ id, (editOwnStatus .misskey keeps request attempt s).1 ≠ .ok id := by
  by_cases hsends : attempt.Sends request
  · have hfailed : ∃ error, attempt.first = .failed error := by
      cases hfirst : attempt.first with
      | failed error => exact ⟨error, rfl⟩
      | lost error => exact absurd ⟨hsends, by rw [hfirst]; rfl⟩ h
      | answered => exact absurd ⟨hsends, by rw [hfirst]; rfl⟩ h
    obtain ⟨error, hfirst⟩ := hfailed
    have hedit : editStatus .misskey keeps attempt request.remoteId request.params s =
        (.error error, s) := by
      simp [editStatus, perform, hfirst]
    refine ⟨?_, editOwnStatus_error fun id hok => ?_⟩
    · rw [(editOwnStatus_of_sends hsends).1, hedit]
    · rw [hedit] at hok
      cases hok
  · obtain ⟨error, herror⟩ := @editOwnStatus_of_not_sends .misskey keeps request attempt s hsends
    rw [herror]
    exact ⟨rfl, fun id hok => by cases hok⟩

/-- An attempt that deletes the note creates another, if both requests get there. -/
theorem misskey_of_deletes (h : attempt.Deletes request)
    (hsome : (s.posts request.remoteId).isSome = true) :
    (editOwnStatus .misskey keeps request attempt s).2 =
        (if attempt.first = .answered ∧ attempt.second.reaches = true then
          (s.remove request.remoteId).insert request.note
        else s.remove request.remoteId) ∧
      ∀ id, (editOwnStatus .misskey keeps request attempt s).1 = .ok id ↔
        attempt.first = .answered ∧ attempt.second = .answered ∧ attempt.saved = .ok () ∧
          id = s.next := by
  obtain ⟨hsends, hreaches⟩ := h
  obtain ⟨hstate, hresult⟩ := @editOwnStatus_of_sends .misskey keeps request attempt s hsends
  rw [hstate]
  simp only [hresult]
  unfold editStatus
  cases hfirst : attempt.first with
  | failed error =>
    rw [hfirst] at hreaches
    cases hreaches
  | lost error =>
    simp [perform, deleteNote, hsome]
  | answered =>
    simp only [perform, deleteNote, hsome, if_true, true_and]
    cases hsecond : attempt.second with
    | failed error => simp [Outcome.reaches]
    | lost error => simp [Outcome.reaches, createNote, EditStatusRequest.note]
    | answered =>
      simp [createNote, EditStatusRequest.note, Outcome.reaches, eq_comm, and_comm]

/-! ### Mastodon and Paon -/

variable (keeps)

theorem editStatus_put (hkind : kind = .mastodon ∨ kind = .paon) :
    editStatus kind keeps attempt request.remoteId request.params s =
      perform attempt.first (putStatus keeps request.remoteId request.params) s := by
  rcases hkind with rfl | rfl <;> rfl

variable (attempt) in
theorem put_state (hkind : kind = .mastodon ∨ kind = .paon)
    (hsome : (s.posts request.remoteId).isSome = true) :
    (editOwnStatus kind keeps request attempt s).2 = s ∨
      (editOwnStatus kind keeps request attempt s).2 =
        s.modify request.remoteId (·.edited keeps request.params) := by
  by_cases hsends : attempt.Sends request
  · rw [(editOwnStatus_of_sends hsends).1, editStatus_put keeps hkind, perform_state, putStatus,
      if_pos hsome]
    cases attempt.first.reaches
    · exact .inl rfl
    · exact .inr rfl
  · obtain ⟨error, herror⟩ := @editOwnStatus_of_not_sends kind keeps request attempt s hsends
    exact .inl (congrArg Prod.snd herror)

theorem put_ok (hkind : kind = .mastodon ∨ kind = .paon)
    (hsome : (s.posts request.remoteId).isSome = true) (id : ℕ) :
    (editOwnStatus kind keeps request attempt s).1 = .ok id ↔
      attempt.Sends request ∧ attempt.first = .answered ∧ attempt.saved = .ok () ∧
        id = request.remoteId := by
  by_cases hsends : attempt.Sends request
  · rw [(editOwnStatus_of_sends hsends).2, editStatus_put keeps hkind, perform_eq_ok, putStatus,
      if_pos hsome]
    simp only [Except.ok.injEq, hsends, true_and]
    exact ⟨fun h => ⟨h.1.1, h.2, h.1.2.symm⟩, fun h => ⟨⟨h.1, h.2.2.symm⟩, h.2.1⟩⟩
  · obtain ⟨error, herror⟩ := @editOwnStatus_of_not_sends kind keeps request attempt s hsends
    rw [herror]
    exact iff_of_false (fun h => by cases h) fun h => hsends h.1

theorem put_state_of_ok (hkind : kind = .mastodon ∨ kind = .paon)
    (hsome : (s.posts request.remoteId).isSome = true) (hsends : attempt.Sends request)
    (hfirst : attempt.first = .answered) :
    (editOwnStatus kind keeps request attempt s).2 =
      s.modify request.remoteId (·.edited keeps request.params) := by
  rw [(editOwnStatus_of_sends hsends).1, editStatus_put keeps hkind, perform_state, putStatus,
    if_pos hsome, hfirst]
  rfl

theorem edited_edited (post : Post) :
    (post.edited keeps request.params).edited keeps request.params =
      post.edited keeps request.params := by
  unfold Post.edited EditStatusRequest.params
  cases keeps.media <;> cases keeps.poll <;> rfl

theorem text_edited (post : Post) : (post.edited keeps request.params).text = request.status.trim :=
  rfl

/-- An edit changes the text only, if the server keeps what is left out, or there is nothing. -/
theorem edited_eq_iff (post : Post) : post.edited keeps request.params =
      { post with text := request.status.trim } ↔
    (keeps.media = true ∨ post.media = []) ∧ (keeps.poll = true ∨ post.poll = none) := by
  unfold Post.edited EditStatusRequest.params
  cases keeps.media <;> cases keeps.poll <;> simp [eq_comm]

theorem note_eq_iff (post : Post) :
    request.note = { post with text := request.status.trim } ↔ post.Plain := by
  unfold EditStatusRequest.note NoteBody.post noteBody EditStatusRequest.params Post.Plain
  simp [eq_comm]

/-! ### Runs -/

variable (kind request) in
/-- A run of attempts to edit a post neither loses it, nor succeeds with another. -/
structure Edits (original : Post) (s : Server) (attempts : List Attempt) : Prop where
  /-- After an attempt that fails there is the post, or the edited one, which has its id or a new
  one. -/
  kept : ∀ before attempt after, attempts = before ++ attempt :: after → ∀ error s',
    editOwnStatus kind keeps request attempt (deliver kind keeps request s before) =
      (.error error, s') →
    s'.posts request.remoteId = some original ∨
      ∃ id post, (id = request.remoteId ∨ s.next ≤ id) ∧ s'.posts id = some post ∧
        post.text = request.status.trim
  /-- An attempt that succeeds returns the post with its new text. -/
  edited : ∀ before attempt after, attempts = before ++ attempt :: after → ∀ id s',
    editOwnStatus kind keeps request attempt (deliver kind keeps request s before) = (.ok id, s') →
    s'.posts id = some { original with text := request.status.trim }

variable (kind request) in
/-- When do attempts edit a post? -/
def SafeEdits (original : Post) (attempts : List Attempt) : Prop :=
  match kind with
  | .mastodon | .paon =>
    ∀ attempt ∈ attempts, attempt.Sends request → attempt.first = .answered →
      attempt.saved = .ok () →
        (keeps.media = true ∨ original.media = []) ∧ (keeps.poll = true ∨ original.poll = none)
  | .misskey =>
    ∀ before attempt after, attempts = before ++ attempt :: after →
      (∀ earlier ∈ before, ¬ earlier.Deletes request) → attempt.Deletes request →
        attempt.first = .answered ∧ attempt.second.reaches = true ∧
          (attempt.second = .answered → attempt.saved = .ok () → original.Plain)
  | .bluesky => True

theorem deliver_append (before after : List Attempt) :
    deliver kind keeps request s (before ++ after) =
      deliver kind keeps request (deliver kind keeps request s before) after := by
  induction before generalizing s with
  | nil => rfl
  | cons attempt before ih => exact ih

/-- Up to the first attempt that deletes it, the note is left alone. -/
theorem deliver_misskey_of_not_deletes {before : List Attempt}
    (h : ∀ earlier ∈ before, ¬ earlier.Deletes request) :
    deliver .misskey keeps request s before = s := by
  induction before with
  | nil => rfl
  | cons attempt before ih =>
    rw [deliver, (misskey_of_not_deletes (h attempt List.mem_cons_self)).1]
    exact ih fun earlier hearlier => h earlier (List.mem_cons_of_mem _ hearlier)

/-- After that, nothing changes. -/
theorem deliver_misskey_of_none {after : List Attempt} (hnone : s.posts request.remoteId = none) :
    deliver .misskey keeps request s after = s := by
  induction after with
  | nil => rfl
  | cons attempt after ih => rw [deliver, (misskey_of_none hnone).1, ih]

variable {original : Post}

/-- While a post is edited, it is as it was or as it is edited. -/
theorem deliver_put (hkind : kind = .mastodon ∨ kind = .paon)
    (horiginal : s.posts request.remoteId = some original) (attempts : List Attempt) :
    (deliver kind keeps request s attempts).posts request.remoteId = some original ∨
      (deliver kind keeps request s attempts).posts request.remoteId =
        some (original.edited keeps request.params) := by
  induction attempts using List.reverseRecOn with
  | nil => exact .inl horiginal
  | append_singleton attempts attempt ih =>
    rw [deliver_append]
    show (editOwnStatus kind keeps request attempt _).2.posts _ = _ ∨
      (editOwnStatus kind keeps request attempt _).2.posts _ = _
    have hsome :
        ((deliver kind keeps request s attempts).posts request.remoteId).isSome = true := by
      rcases ih with h | h <;> rw [h] <;> rfl
    rcases put_state keeps attempt hkind hsome with hsame | hput
    · rw [hsame]
      exact ih
    · rw [hput, Server.modify_posts_self]
      rcases ih with h | h
      · rw [h]
        exact .inr rfl
      · rw [h, Option.map_some, edited_edited keeps]
        exact .inr rfl

theorem deliver_put_isSome (hkind : kind = .mastodon ∨ kind = .paon)
    (horiginal : s.posts request.remoteId = some original) (attempts : List Attempt) :
    ((deliver kind keeps request s attempts).posts request.remoteId).isSome = true := by
  rcases deliver_put keeps hkind horiginal attempts with h | h <;> rw [h] <;> rfl

/-- What an attempt that succeeds leaves. -/
theorem put_posts_of_ok (hkind : kind = .mastodon ∨ kind = .paon)
    (horiginal : s.posts request.remoteId = some original) (before : List Attempt)
    (hsends : attempt.Sends request) (hfirst : attempt.first = .answered) :
    (editOwnStatus kind keeps request attempt (deliver kind keeps request s before)).2.posts
      request.remoteId = some (original.edited keeps request.params) := by
  rw [put_state_of_ok keeps hkind (deliver_put_isSome keeps hkind horiginal before) hsends hfirst,
    Server.modify_posts_self]
  rcases deliver_put keeps hkind horiginal before with h | h
  · rw [h]
    rfl
  · rw [h, Option.map_some, edited_edited keeps]

theorem edits_put_iff (hkind : kind = .mastodon ∨ kind = .paon)
    (horiginal : s.posts request.remoteId = some original) (attempts : List Attempt) :
    Edits kind keeps request original s attempts ↔
      ∀ attempt ∈ attempts, attempt.Sends request → attempt.first = .answered →
        attempt.saved = .ok () →
          (keeps.media = true ∨ original.media = []) ∧
            (keeps.poll = true ∨ original.poll = none) := by
  constructor
  · intro h attempt hattempt hsends hfirst hsaved
    obtain ⟨before, after, rfl⟩ := List.mem_iff_append.1 hattempt
    have hok := (put_ok keeps hkind (deliver_put_isSome keeps hkind horiginal before)
      request.remoteId).2 ⟨hsends, hfirst, hsaved, rfl⟩
    have hpost := h.edited before attempt after rfl request.remoteId _ (Prod.ext hok rfl)
    rw [put_posts_of_ok keeps hkind horiginal before hsends hfirst] at hpost
    exact (edited_eq_iff keeps original).1 (Option.some.inj hpost)
  · intro h
    refine ⟨fun before attempt _ _ error s' heq => ?_,
      fun before attempt after hsplit id s' heq => ?_⟩
    · have hrun := deliver_put keeps hkind horiginal (before ++ [attempt])
      rw [deliver_append] at hrun
      change (editOwnStatus kind keeps request attempt _).2.posts _ = _ ∨
        (editOwnStatus kind keeps request attempt _).2.posts _ = _ at hrun
      rw [heq] at hrun
      exact hrun.imp_right fun hedited => ⟨_, _, .inl rfl, hedited, text_edited keeps original⟩
    · have hok := (put_ok keeps hkind (deliver_put_isSome keeps hkind horiginal before) id).1
        (congrArg Prod.fst heq)
      obtain ⟨hsends, hfirst, hsaved, rfl⟩ := hok
      have hpost := put_posts_of_ok keeps hkind horiginal before hsends hfirst
      rw [heq] at hpost
      have hmem : attempt ∈ attempts := by
        rw [hsplit]
        exact List.mem_append_right _ List.mem_cons_self
      rw [hpost, (edited_eq_iff keeps original).2 (h attempt hmem hsends hfirst hsaved)]

/-- After a note is deleted without another created, it is lost. -/
theorem lost_remove : ¬ ((s.remove request.remoteId).posts request.remoteId = some original ∨
      ∃ id post, (id = request.remoteId ∨ s.next ≤ id) ∧
        (s.remove request.remoteId).posts id = some post ∧ post.text = request.status.trim) := by
  rintro (h | ⟨id, post, hid | hid, hpost, -⟩)
  · rw [Server.remove_posts_self] at h
    cases h
  · rw [hid, Server.remove_posts_self] at hpost
    cases hpost
  · rw [(s.remove request.remoteId).fresh id hid] at hpost
    cases hpost

/-- A list has a first member with a property, or none. -/
theorem exists_first {α : Type*} (P : α → Prop) (l : List α) : (∀ a ∈ l, ¬ P a) ∨
    ∃ before a after, l = before ++ a :: after ∧ (∀ b ∈ before, ¬ P b) ∧ P a := by
  induction l with
  | nil => exact .inl (List.forall_mem_nil _)
  | cons a l ih =>
    by_cases ha : P a
    · exact .inr ⟨[], a, l, rfl, List.forall_mem_nil _, ha⟩
    · rcases ih with h | ⟨before, a', after, rfl, hbefore, ha'⟩
      · exact .inl (List.forall_mem_cons.2 ⟨ha, h⟩)
      · exact .inr ⟨a :: before, a', after, rfl, List.forall_mem_cons.2 ⟨ha, hbefore⟩, ha'⟩

/-- While a note is edited, it has not been deleted, or there is the new one instead. -/
theorem misskey_run (horiginal : s.posts request.remoteId = some original) {attempts : List Attempt}
    (h : ∀ before attempt after, attempts = before ++ attempt :: after →
      (∀ earlier ∈ before, ¬ earlier.Deletes request) → attempt.Deletes request →
        attempt.first = .answered ∧ attempt.second.reaches = true ∧
          (attempt.second = .answered → attempt.saved = .ok () → original.Plain))
    {before after : List Attempt} (hsplit : attempts = before ++ after) :
    (deliver .misskey keeps request s before = s ∧
      ∀ earlier ∈ before, ¬ earlier.Deletes request) ∨
    (deliver .misskey keeps request s before = (s.remove request.remoteId).insert request.note ∧
      (deliver .misskey keeps request s before).posts request.remoteId = none) := by
  rcases exists_first (·.Deletes request) before with hno | ⟨first, a, last, rfl, hfirst, ha⟩
  · exact .inl ⟨deliver_misskey_of_not_deletes keeps hno, hno⟩
  · right
    have hsome : (s.posts request.remoteId).isSome = true := by
      rw [horiginal]
      rfl
    have hgone : ((s.remove request.remoteId).insert request.note).posts request.remoteId =
        none := by
      have hne : request.remoteId ≠ (s.remove request.remoteId).next :=
        (Server.lt_next horiginal).ne
      rw [Server.insert_posts_of_ne hne, Server.remove_posts_self]
    obtain ⟨hanswered, hreaches, -⟩ := h first a (last ++ after) (by rw [hsplit]; simp) hfirst ha
    have hstate := (@misskey_of_deletes keeps request a s ha hsome).1
    rw [if_pos ⟨hanswered, hreaches⟩] at hstate
    have hdeliver : deliver .misskey keeps request s (first ++ a :: last) =
        (s.remove request.remoteId).insert request.note := by
      rw [deliver_append, deliver_misskey_of_not_deletes keeps hfirst, deliver, hstate,
        deliver_misskey_of_none keeps hgone]
    exact ⟨hdeliver, by rw [hdeliver, hgone]⟩

theorem edits_misskey_iff (horiginal : s.posts request.remoteId = some original)
    (attempts : List Attempt) : Edits .misskey keeps request original s attempts ↔
      ∀ before attempt after, attempts = before ++ attempt :: after →
        (∀ earlier ∈ before, ¬ earlier.Deletes request) → attempt.Deletes request →
          attempt.first = .answered ∧ attempt.second.reaches = true ∧
            (attempt.second = .answered → attempt.saved = .ok () → original.Plain) := by
  have hsome : (s.posts request.remoteId).isSome = true := by
    rw [horiginal]
    rfl
  constructor
  · intro h before attempt after hsplit hbefore hdeletes
    have hdeliver : deliver .misskey keeps request s before = s :=
      deliver_misskey_of_not_deletes keeps hbefore
    obtain ⟨hstate, hresult⟩ := @misskey_of_deletes keeps request attempt s hdeletes hsome
    by_cases hreplaced : attempt.first = .answered ∧ attempt.second.reaches = true
    · refine ⟨hreplaced.1, hreplaced.2, fun hsecond hsaved => ?_⟩
      have hpost := h.edited before attempt after hsplit s.next
        (editOwnStatus .misskey keeps request attempt s).2 (by
          rw [hdeliver]
          exact Prod.ext ((hresult s.next).2 ⟨hreplaced.1, hsecond, hsaved, rfl⟩) rfl)
      rw [hstate, if_pos hreplaced] at hpost
      change ((s.remove request.remoteId).insert request.note).posts
        (s.remove request.remoteId).next = _ at hpost
      rw [Server.insert_posts_self] at hpost
      exact (note_eq_iff original).1 (Option.some.inj hpost)
    · rw [if_neg hreplaced] at hstate
      cases hanswer : (editOwnStatus .misskey keeps request attempt s).1 with
      | ok id =>
        obtain ⟨hfirst, hsecond, -⟩ := (hresult id).1 hanswer
        exact absurd ⟨hfirst, by rw [hsecond]; rfl⟩ hreplaced
      | error error =>
        have hkept := h.kept before attempt after hsplit error (s.remove request.remoteId) (by
          rw [hdeliver]
          exact Prod.ext hanswer hstate)
        exact absurd hkept lost_remove
  · intro h
    have hkept : ∀ s', s' = (s.remove request.remoteId).insert request.note →
        s'.posts request.remoteId = some original ∨
          ∃ id post, (id = request.remoteId ∨ s.next ≤ id) ∧ s'.posts id = some post ∧
            post.text = request.status.trim := by
      rintro _ rfl
      exact .inr ⟨s.next, request.note, .inr (le_refl _), Server.insert_posts_self _ _, rfl⟩
    constructor
    · intro before attempt after hsplit error s' heq
      rcases misskey_run keeps horiginal h hsplit with ⟨hdeliver, hdeletes⟩ | ⟨hdeliver, hnone⟩
      · rw [hdeliver] at heq
        by_cases hattempt : attempt.Deletes request
        · obtain ⟨hfirst, hsecond, -⟩ := h before attempt after hsplit hdeletes hattempt
          have hstate := (@misskey_of_deletes keeps request attempt s hattempt hsome).1
          rw [if_pos ⟨hfirst, hsecond⟩, heq] at hstate
          exact hkept s' hstate
        · have hstate := (@misskey_of_not_deletes keeps request attempt s hattempt).1
          rw [heq] at hstate
          change s' = s at hstate
          rw [hstate]
          exact .inl horiginal
      · have hstate := (@misskey_of_none keeps request attempt _ hnone).1
        rw [heq, hdeliver] at hstate
        exact hkept s' hstate
    · intro before attempt after hsplit id s' heq
      rcases misskey_run keeps horiginal h hsplit with ⟨hdeliver, hdeletes⟩ | ⟨hdeliver, hnone⟩
      · rw [hdeliver] at heq
        by_cases hattempt : attempt.Deletes request
        · obtain ⟨hfirst, hreaches, hplain⟩ := h before attempt after hsplit hdeletes hattempt
          obtain ⟨hstate, hresult⟩ := @misskey_of_deletes keeps request attempt s hattempt hsome
          obtain ⟨-, hsecond, hsaved, rfl⟩ := (hresult id).1 (congrArg Prod.fst heq)
          rw [if_pos ⟨hfirst, hreaches⟩, heq] at hstate
          have hnote : request.note = { original with text := request.status.trim } :=
            (note_eq_iff original).2 (hplain hsecond hsaved)
          rw [← hnote]
          change s' = _ at hstate
          rw [hstate]
          exact Server.insert_posts_self (s.remove request.remoteId) _
        · exact absurd (congrArg Prod.fst heq)
            ((@misskey_of_not_deletes keeps request attempt s hattempt).2 id)
      · exact absurd (congrArg Prod.fst heq) ((@misskey_of_none keeps request attempt _ hnone).2 id)

/-- Attempts edit a post, whichever of their requests fail, exactly if they are safe. -/
theorem edits_iff (kind : ServerKind) (request : EditStatusRequest) {original : Post}
    (horiginal : s.posts request.remoteId = some original) (attempts : List Attempt) :
    Edits kind keeps request original s attempts ↔
      SafeEdits kind keeps request original attempts := by
  cases kind with
  | mastodon => exact edits_put_iff keeps (.inl rfl) horiginal attempts
  | paon => exact edits_put_iff keeps (.inr rfl) horiginal attempts
  | misskey => exact edits_misskey_iff keeps horiginal attempts
  | bluesky =>
    have herror : ∀ attempt s, ∃ error,
        editOwnStatus .bluesky keeps request attempt s = (.error error, s) := by
      intro attempt s
      by_cases hsends : attempt.Sends request
      · have hstate := @editOwnStatus_of_sends .bluesky keeps request attempt s hsends
        cases hanswer : (editOwnStatus .bluesky keeps request attempt s).1 with
        | ok id =>
          have hok := ((hstate.2 id).1 hanswer).1
          cases hok
        | error error => exact ⟨error, Prod.ext hanswer hstate.1⟩
      · exact editOwnStatus_of_not_sends hsends
    have hdeliver : ∀ attempts, deliver .bluesky keeps request s attempts = s := by
      intro attempts
      induction attempts with
      | nil => rfl
      | cons attempt attempts ih =>
        obtain ⟨error, h⟩ := herror attempt s
        rw [deliver, h]
        exact ih
    refine iff_of_true ⟨fun before attempt _ _ error s' heq => ?_,
      fun before attempt _ _ id s' heq => ?_⟩ trivial
    · obtain ⟨error', h⟩ := herror attempt s
      rw [hdeliver, h] at heq
      cases heq
      exact .inl horiginal
    · obtain ⟨error', h⟩ := herror attempt s
      rw [hdeliver, h] at heq
      cases heq

end

/-! ### An example -/

/-- A server with one post. -/
def sampleServer (post : Post) : Server where
  posts := fun id => if id = 0 then some post else none
  next := 1
  fresh id hid := if_neg (by omega)

def samplePost : Post := ⟨"helo".toList, none, [], none, none⟩

def sampleRequest : EditStatusRequest where
  remoteId := 0
  accountId := "1".toList
  status := "hello".toList
  visibility := none
  spoilerText := none
  sensitive := none

def sampleAttempt (second : Outcome Str) : Attempt where
  session := .ok "1".toList
  resolved := .ok ()
  first := .answered
  second := second
  saved := .ok ()

theorem edits_iff_plain : (sampleServer samplePost).posts sampleRequest.remoteId = some samplePost ∧
    (Edits .misskey ⟨false, false⟩ sampleRequest samplePost (sampleServer samplePost)
        [sampleAttempt .answered] ↔
      SafeEdits .misskey ⟨false, false⟩ sampleRequest samplePost [sampleAttempt .answered]) :=
  ⟨rfl, edits_iff ⟨false, false⟩ .misskey sampleRequest rfl [sampleAttempt .answered]⟩

/-- The note is deleted, and the request for the new one fails. -/
theorem not_edits : ¬ Edits .misskey ⟨true, true⟩ sampleRequest samplePost
    (sampleServer samplePost) [sampleAttempt (.failed "timeout".toList)] := by
  intro h
  exact lost_remove (h.kept [] _ [] rfl "timeout".toList _ rfl)

end Awayuki.Posting
