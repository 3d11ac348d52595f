import Awayuki.Text
import Awayuki.Library.Request

/-!
# Misskey: actions on a post

`favourite`, `unfavourite`, `reblog`, `unreblog`, `bookmark` and `unbookmark` of
`misskey/endpoints.rs`.  Each is a sequence of requests, any of which may fail before or after it
has had its effect.

* `Server`: what a server knows of the account and of the notes;
* `perform`: an action, with what becomes of its requests;
* `Honest`: success means that the account has the relation to the note that was asked for, and
  nothing but renotes is deleted;
* `Careful`: what that needs of the requests;
* `honest_iff`: it needs just that.
-/

namespace Awayuki.Misskey

open Request

inductive MastodonError
  | api (status : ℕ) (message : Str)
  | other (message : Str)
  deriving DecidableEq

/-- A note; one that only renotes has nothing of its own. -/
structure MisskeyNote where
  id : Str
  userId : Str
  renoteId : Option Str
  replyId : Option Str
  text : Option Str
  cw : Option Str
  files : List Str
  hasPoll : Bool
  deriving DecidableEq

/-- The note renotes another one, and has nothing of its own. -/
def MisskeyNote.PureRenoteOf (note : MisskeyNote) (id : Str) : Prop :=
  note.renoteId = some id ∧ note.replyId = none ∧ note.text = none ∧ note.cw = none ∧
    note.files = [] ∧ note.hasPoll = false

instance decidablePureRenoteOf (note : MisskeyNote) (id : Str) : Decidable (note.PureRenoteOf id) :=
  inferInstanceAs (Decidable (_ ∧ _))

/-! ### The server -/

/-- The notes, the newest first, and what the account has done to them. -/
structure Server where
  me : Str
  notes : List MisskeyNote
  reaction : Str → Option Str
  favorite : Str → Bool
  nextId : Str

namespace Server

variable (s : Server)

def has (id : Str) : Bool := s.notes.any fun note => note.id = id

def invalid {α : Type} : Except MastodonError α × Server := (.error (.api 400 []), s)

/-- `notes/show` -/
def show' (id : Str) : Except MastodonError MisskeyNote × Server :=
  match s.notes.find? fun note => note.id = id with
  | some note => (.ok note, s)
  | none => s.invalid

/-- `notes/reactions/create`: another reaction is replaced, the same one is refused. -/
def reactionsCreate (id reaction : Str) : Except MastodonError Unit × Server :=
  if s.has id = true ∧ s.reaction id ≠ some reaction then
    (.ok (), { s with reaction := Function.update s.reaction id (some reaction) })
  else s.invalid

/-- `notes/reactions/delete` -/
def reactionsDelete (id : Str) : Except MastodonError Unit × Server :=
  if (s.reaction id).isSome then
    (.ok (), { s with reaction := Function.update s.reaction id none })
  else s.invalid

/-- `notes/create` with nothing but a `renoteId` -/
def renote (id : Str) : Except MastodonError MisskeyNote × Server :=
  let note : MisskeyNote :=
    { id := s.nextId
      userId := s.me
      renoteId := some id
      replyId := none
      text := none
      cw := none
      files := []
      hasPoll := false }
  if s.has id then (.ok note, { s with notes := note :: s.notes }) else s.invalid

/-- `notes/renotes`: quotes are among them. -/
def renotes (id : Str) (limit : ℕ) : Except MastodonError (List MisskeyNote) × Server :=
  (.ok ((s.notes.filter fun note => note.renoteId = some id).take limit), s)

/-- `notes/delete` -/
def delete (id : Str) : Except MastodonError Unit × Server :=
  if s.notes.any fun note => note.id = id ∧ note.userId = s.me then
    (.ok (), { s with notes := s.notes.filter fun note => ¬ (note.id = id ∧ note.userId = s.me) })
  else s.invalid

/-- `favorites/create` of `notes` and of `i` -/
def favoritesCreate (id : Str) : Except MastodonError Unit × Server :=
  if s.has id = true ∧ s.favorite id = false then
    (.ok (), { s with favorite := Function.update s.favorite id true })
  else s.invalid

/-- `favorites/delete` of `notes` and of `i` -/
def favoritesDelete (id : Str) : Except MastodonError Unit × Server :=
  if s.favorite id = true then
    (.ok (), { s with favorite := Function.update s.favorite id false })
  else s.invalid

end Server

/-! ### Actions -/

abbrev Result := Except MastodonError MisskeyNote × Server

/-- What becomes of the requests of an action: of the first and the second one, of those that
delete a note, and of the last one. -/
structure Outcomes where
  first : Outcome MastodonError
  second : Outcome MastodonError
  deletes : Str → Outcome MastodonError
  fetch : Outcome MastodonError

variable (o : Outcomes) (id : Str) (s : Server)

def getStatus : Result := perform o.fetch (fun s => s.show' id) s

/-- "Already reacted" is treated as success: any answer with status 400. -/
def MastodonError.isAlreadyReacted : MastodonError → Bool
  | .api status _ => status = 400
  | .other _ => false

def orAlreadyReacted : Except MastodonError Unit → Except MastodonError Unit
  | .ok value => .ok value
  | .error error => if error.isAlreadyReacted then .ok () else .error error

def favourite : Result :=
  let reacted := perform o.first (fun s => s.reactionsCreate id "⭐".toList) s
  match orAlreadyReacted reacted.1 with
  | .ok _ => getStatus o id reacted.2
  | .error error => (.error error, reacted.2)

def unfavourite : Result :=
  getStatus o id (perform o.first (fun s => s.reactionsDelete id) s).2

def reblog : Result := perform o.first (fun s => s.renote id) s

/-- The loop of `unreblog`. -/
def deleteOwn (me : Str) : List MisskeyNote → Server → Server
  | [], s => s
  | renote :: renotes, s =>
    if renote.userId = me then
      deleteOwn me renotes (perform (o.deletes renote.id) (fun s => s.delete renote.id) s).2
    else deleteOwn me renotes s

/-- `unwrap_or_default`. -/
def orEmpty {α : Type} : Except MastodonError (List α) → List α
  | .ok list => list
  | .error _ => []

def unreblog : Result :=
  let renotes := orEmpty (perform o.first (fun s => s.renotes id 100) s).1
  match (perform o.second (fun s => ((.ok s.me : Except MastodonError Str), s)) s).1 with
  | .ok me => getStatus o id (deleteOwn o me renotes s)
  | .error error => (.error error, s)

/-- An endpoint, and the one of the same name that some servers have in its place. -/
def orElse (operation : Server → Except MastodonError Unit × Server) : Result :=
  let first := perform o.first operation s
  match first.1 with
  | .ok _ => getStatus o id first.2
  | .error _ =>
    let second := perform o.second operation first.2
    match second.1 with
    | .ok _ => getStatus o id second.2
    | .error error => (.error error, second.2)

def bookmark : Result := orElse o id s fun s => s.favoritesCreate id

def unbookmark : Result := orElse o id s fun s => s.favoritesDelete id

inductive Action
  | favourite | unfavourite | reblog | unreblog | bookmark | unbookmark
  deriving DecidableEq

def Action.perform : Action → Result
  | .favourite => Misskey.favourite o id s
  | .unfavourite => Misskey.unfavourite o id s
  | .reblog => Misskey.reblog o id s
  | .unreblog => Misskey.unreblog o id s
  | .bookmark => Misskey.bookmark o id s
  | .unbookmark => Misskey.unbookmark o id s

/-! ### Honesty -/

/-- The relation of the account to the note that an action asks for. -/
def Action.Requested (id : Str) (s : Server) : Action → Prop
  | .favourite => s.reaction id ≠ none
  | .unfavourite => s.reaction id = none
  | .reblog => ∃ note ∈ s.notes, note.userId = s.me ∧ note.PureRenoteOf id
  | .unreblog => ∀ note ∈ s.notes, note.userId = s.me → ¬ note.PureRenoteOf id
  | .bookmark => s.favorite id = true
  | .unbookmark => s.favorite id = false

structure Honest (action : Action) : Prop where
  success : (∃ note, (action.perform o id s).1 = .ok note) →
    action.Requested id (action.perform o id s).2
  deletes : action = .unreblog → ∀ note ∈ s.notes, note.userId = s.me →
    note ∉ (action.perform o id s).2.notes → note.PureRenoteOf id

/-! ### What honesty needs -/

/-- The last request is answered with the note. -/
def Fetches : Prop := o.fetch = .answered ∧ s.has id = true

/-- What `unreblog` is told of: a hundred renotes and quotes at most. -/
def listed : List MisskeyNote :=
  if o.first = .answered then (s.notes.filter fun note => note.renoteId = some id).take 100 else []

/-- The request that deletes the note is sent and reaches the server. -/
def Deletes (note : MisskeyNote) : Prop :=
  o.second = .answered ∧ note ∈ listed o id s ∧ note.userId = s.me ∧
    (o.deletes note.id).reaches = true

def Careful : Action → Prop
  | .favourite => Fetches o id s → s.reaction id = none →
      ∀ error, o.first = .failed error → error.isAlreadyReacted = false
  | .unfavourite => Fetches o id s → s.reaction id ≠ none → o.first.reaches = true
  | .unreblog => (∀ note ∈ s.notes, Deletes o id s note → note.PureRenoteOf id) ∧
      (Fetches o id s → o.second = .answered → ∀ note ∈ s.notes, note.userId = s.me →
        note.PureRenoteOf id → Deletes o id s note)
  | _ => True

section

variable {o : Outcomes} {id : Str} {s : Server}

/-! ### The last request -/

variable {reaction : Str}

theorem Server.has_iff : s.has id = true ↔ ∃ note ∈ s.notes, note.id = id := by
  simp [Server.has]

theorem Server.show'_eq_ok :
    (∃ note, (s.show' id).1 = .ok note) ↔ s.has id = true := by
  unfold Server.show'
  cases hfind : s.notes.find? fun note => note.id = id with
  | none =>
    rw [Server.has_iff]
    refine iff_of_false (fun ⟨_, h⟩ => nomatch h) fun ⟨note, hnote, hid⟩ => ?_
    exact absurd (decide_eq_true hid) (List.find?_eq_none.1 hfind note hnote)
  | some note =>
    rw [Server.has_iff]
    refine iff_of_true ⟨note, rfl⟩ ⟨note, List.mem_of_find?_eq_some hfind, ?_⟩
    simpa using List.find?_some hfind

@[simp] theorem Server.show'_state : (s.show' id).2 = s := by
  unfold Server.show'
  split
  · rfl
  · rfl

@[simp] theorem getStatus_state : (getStatus o id s).2 = s := by
  rw [getStatus, perform_state, Server.show'_state]
  split_ifs
  · rfl
  · rfl

theorem getStatus_ok : (∃ note, (getStatus o id s).1 = .ok note) ↔ Fetches o id s := by
  simp only [getStatus, perform_eq_ok, exists_and_left, Server.show'_eq_ok, Fetches]

/-! ### Reactions -/

theorem Server.reactionsCreate_has : (s.reactionsCreate id reaction).2.has id = s.has id := by
  unfold Server.reactionsCreate
  split_ifs
  · rfl
  · rfl

/-- A reaction to a note that is there is made, or was there before. -/
theorem Server.reaction_reactionsCreate (h : s.has id = true) :
    (s.reactionsCreate id reaction).2.reaction id ≠ none := by
  unfold Server.reactionsCreate
  split_ifs with hnew
  · show Function.update s.reaction id (some reaction) id ≠ none
    rw [Function.update_self]
    exact Option.some_ne_none _
  · have hsame : s.reaction id = some reaction := by
      by_contra hne
      exact hnew ⟨h, hne⟩
    show s.reaction id ≠ none
    rw [hsame]
    exact Option.some_ne_none _

theorem Server.reaction_reactionsDelete : (s.reactionsDelete id).2.reaction id = none := by
  unfold Server.reactionsDelete
  split_ifs with hsome
  · exact Function.update_self _ _ _
  · show s.reaction id = none
    simpa using hsome

theorem Server.has_reactionsDelete : (s.reactionsDelete id).2.has id = s.has id := by
  unfold Server.reactionsDelete
  split_ifs
  · rfl
  · rfl

/-- The server after the first request of `favourite`. -/
def reacted (o : Outcomes) (id : Str) (s : Server) : Server :=
  (perform o.first (fun s => s.reactionsCreate id "⭐".toList) s).2

theorem favourite_state : (favourite o id s).2 = reacted o id s := by
  unfold favourite
  dsimp only
  cases orAlreadyReacted (perform o.first (fun s => s.reactionsCreate id "⭐".toList) s).1 with
  | ok _ => exact getStatus_state
  | error _ => rfl

theorem favourite_ok : (∃ note, (favourite o id s).1 = .ok note) ↔
    (∃ value, orAlreadyReacted (perform o.first (fun s => s.reactionsCreate id "⭐".toList) s).1 =
      .ok value) ∧ Fetches o id (reacted o id s) := by
  unfold favourite
  dsimp only
  cases orAlreadyReacted (perform o.first (fun s => s.reactionsCreate id "⭐".toList) s).1 with
  | ok value => rw [getStatus_ok, reacted, and_iff_right ⟨value, rfl⟩]
  | error error => exact iff_of_false (fun ⟨_, h⟩ => nomatch h) fun ⟨⟨_, h⟩, _⟩ => nomatch h

theorem fetches_reacted : Fetches o id (reacted o id s) ↔ Fetches o id s := by
  unfold Fetches reacted
  rw [perform_state]
  split_ifs
  · rw [Server.reactionsCreate_has]
  · rfl

theorem honest_favourite : Honest o id s .favourite ↔ Careful o id s .favourite := by
  constructor
  · intro h hfetches hnone error hfirst
    by_contra halready
    have hok : ∃ note, (favourite o id s).1 = .ok note := by
      refine favourite_ok.2 ⟨⟨(), ?_⟩, fetches_reacted.2 hfetches⟩
      rw [hfirst]
      exact if_pos (by simpa using halready)
    have hrequested : (favourite o id s).2.reaction id ≠ none := h.success hok
    rw [favourite_state, reacted, hfirst] at hrequested
    exact hrequested hnone
  · intro h
    refine ⟨fun hok => ?_, fun haction => nomatch haction⟩
    show (favourite o id s).2.reaction id ≠ none
    obtain ⟨⟨value, hvalue⟩, hfetches⟩ := favourite_ok.1 hok
    rw [fetches_reacted] at hfetches
    rw [favourite_state, reacted, perform_state]
    split_ifs with hreaches
    · exact Server.reaction_reactionsCreate hfetches.2
    · -- The first request did not get there, and its error is not taken for success.
      intro hnone
      cases hfirst : o.first with
      | failed error =>
        rw [hfirst] at hvalue
        change (if error.isAlreadyReacted then _ else _) = _ at hvalue
        rw [if_neg (by simp [h hfetches hnone error hfirst])] at hvalue
        cases hvalue
      | lost error => exact hreaches (by rw [hfirst]; rfl)
      | answered => exact hreaches (by rw [hfirst]; rfl)

theorem honest_unfavourite : Honest o id s .unfavourite ↔ Careful o id s .unfavourite := by
  have hstate : (unfavourite o id s).2 = (perform o.first (fun s => s.reactionsDelete id) s).2 :=
    getStatus_state
  have hok : (∃ note, (unfavourite o id s).1 = .ok note) ↔ Fetches o id s := by
    rw [unfavourite, getStatus_ok, Fetches, Fetches, perform_state]
    split_ifs
    · rw [Server.has_reactionsDelete]
    · rfl
  constructor
  · intro h hfetches hreacted
    have hrequested : (unfavourite o id s).2.reaction id = none := h.success (hok.2 hfetches)
    rw [hstate, perform_state] at hrequested
    by_contra hreaches
    rw [if_neg hreaches] at hrequested
    exact hreacted hrequested
  · intro h
    refine ⟨fun hresult => ?_, fun haction => nomatch haction⟩
    show (unfavourite o id s).2.reaction id = none
    rw [hstate, perform_state]
    split_ifs with hreaches
    · exact Server.reaction_reactionsDelete
    · by_contra hreacted
      exact hreaches (h (hok.1 hresult) hreacted)

/-! ### Renotes and bookmarks -/

theorem honest_reblog : Honest o id s .reblog := by
  refine ⟨fun ⟨note, hok⟩ => ?_, fun haction => nomatch haction⟩
  obtain ⟨hfirst, hok⟩ := perform_eq_ok.1 hok
  have hstate : (reblog o id s).2 = (s.renote id).2 := by rw [reblog, hfirst]; rfl
  show ∃ note ∈ (reblog o id s).2.notes, note.userId = (reblog o id s).2.me ∧ _
  rw [hstate]
  unfold Server.renote at hok ⊢
  dsimp only at hok ⊢
  split_ifs at hok ⊢
  · exact ⟨_, List.mem_cons_self, rfl, rfl, rfl, rfl, rfl, rfl, rfl⟩
  · cases hok

variable {outcome : Outcome MastodonError} {operation : Server → Except MastodonError Unit × Server}
  {P : Server → Prop}

/-- What an operation brings about when it succeeds has been brought about for who sees it. -/
theorem perform_success {value : Unit}
    (hoperation : ∀ s value, (operation s).1 = .ok value → P (operation s).2)
    (hok : (perform outcome operation s).1 = .ok value) : P (perform outcome operation s).2 := by
  obtain ⟨rfl, hok⟩ := perform_eq_ok.1 hok
  exact hoperation s value hok

theorem orElse_success (hoperation : ∀ s value, (operation s).1 = .ok value → P (operation s).2)
    (hok : ∃ note, (orElse o id s operation).1 = .ok note) : P (orElse o id s operation).2 := by
  unfold orElse at hok ⊢
  dsimp only at hok ⊢
  cases hfirst : (perform o.first operation s).1 with
  | ok value =>
    show P (getStatus o id _).2
    rw [getStatus_state]
    exact perform_success hoperation hfirst
  | error error =>
    rw [hfirst] at hok
    dsimp only at hok ⊢
    cases hsecond : (perform o.second operation (perform o.first operation s).2).1 with
    | ok value =>
      show P (getStatus o id _).2
      rw [getStatus_state]
      exact perform_success hoperation hsecond
    | error error =>
      rw [hsecond] at hok
      obtain ⟨_, hok⟩ := hok
      cases hok

theorem honest_bookmark : Honest o id s .bookmark := by
  refine ⟨fun hok => ?_, fun haction => nomatch haction⟩
  refine orElse_success (P := fun s => s.favorite id = true) (fun s value hvalue => ?_) hok
  unfold Server.favoritesCreate at hvalue ⊢
  split_ifs at hvalue ⊢
  · exact Function.update_self _ _ _
  · cases hvalue

theorem honest_unbookmark : Honest o id s .unbookmark := by
  refine ⟨fun hok => ?_, fun haction => nomatch haction⟩
  refine orElse_success (P := fun s => s.favorite id = false) (fun s value hvalue => ?_) hok
  unfold Server.favoritesDelete at hvalue ⊢
  split_ifs at hvalue ⊢
  · exact Function.update_self _ _ _
  · cases hvalue

/-! ### Taking a renote back -/

/-- Notes have ids of their own, and none renotes itself. -/
structure Server.WellFormed (s : Server) : Prop where
  unique : (s.notes.map (·.id)).Nodup
  noSelf : ∀ note ∈ s.notes, note.renoteId ≠ some note.id

@[simp] theorem Server.me_perform_delete (outcome : Outcome MastodonError) (i : Str) :
    (perform outcome (fun s => s.delete i) s).2.me = s.me := by
  rw [perform_state]
  unfold Server.delete
  split_ifs
  · rfl
  · rfl
  · rfl

variable {note : MisskeyNote}

theorem Server.mem_perform_delete {i : Str} :
    note ∈ (perform outcome (fun s => s.delete i) s).2.notes ↔
      note ∈ s.notes ∧ ¬ (outcome.reaches = true ∧ note.id = i ∧ note.userId = s.me) := by
  rw [perform_state]
  by_cases hreaches : outcome.reaches = true
  · rw [if_pos hreaches]
    unfold Server.delete
    split_ifs with hany
    · rw [List.mem_filter, decide_eq_true_eq]
      exact and_congr_right fun _ => not_congr (by simp [hreaches])
    · refine ⟨fun hnote => ⟨hnote, fun h => hany ?_⟩, fun h => h.1⟩
      exact List.any_eq_true.2 ⟨note, hnote, by simpa using h.2⟩
  · rw [if_neg hreaches]
    simp [hreaches]

variable {renotes : List MisskeyNote}

theorem me_deleteOwn {me : Str} : (deleteOwn o me renotes s).me = s.me := by
  induction renotes generalizing s with
  | nil => rfl
  | cons renote renotes ih =>
    unfold deleteOwn
    split_ifs
    · rw [ih, Server.me_perform_delete]
    · exact ih

/-- What the loop leaves. -/
theorem mem_deleteOwn : note ∈ (deleteOwn o s.me renotes s).notes ↔
      note ∈ s.notes ∧ ¬ (note.userId = s.me ∧ (o.deletes note.id).reaches = true ∧
        ∃ renote ∈ renotes, renote.userId = s.me ∧ renote.id = note.id) := by
  induction renotes generalizing s with
  | nil => simp [deleteOwn]
  | cons renote renotes ih =>
    unfold deleteOwn
    split_ifs with hown
    · have hrest := ih (s := (perform (o.deletes renote.id) (fun s => s.delete renote.id) s).2)
      rw [Server.me_perform_delete] at hrest
      rw [hrest, Server.mem_perform_delete]
      constructor
      · rintro ⟨⟨hnote, hkept⟩, hnone⟩
        refine ⟨hnote, ?_⟩
        rintro ⟨huser, hreaches, other, hother, hme, hid⟩
        rcases List.mem_cons.1 hother with rfl | hother
        · exact hkept ⟨hid ▸ hreaches, hid.symm, huser⟩
        · exact hnone ⟨huser, hreaches, other, hother, hme, hid⟩
      · rintro ⟨hnote, hnone⟩
        refine ⟨⟨hnote, ?_⟩, ?_⟩
        · rintro ⟨hreaches, hid, huser⟩
          exact hnone ⟨huser, hid ▸ hreaches, renote, List.mem_cons_self, hown, hid.symm⟩
        · rintro ⟨huser, hreaches, other, hother, hme, hid⟩
          exact hnone ⟨huser, hreaches, other, List.mem_cons_of_mem _ hother, hme, hid⟩
    · rw [ih]
      simp [hown]

theorem mem_listed (h : note ∈ listed o id s) : note ∈ s.notes ∧ note.renoteId = some id := by
  unfold listed at h
  split_ifs at h
  · simpa using List.mem_of_mem_take h
  · cases h

/-- The server when the loop has ended. -/
def cleared (o : Outcomes) (id : Str) (s : Server) : Server := deleteOwn o s.me (listed o id s) s

theorem unreblog_cases :
    (o.second = .answered ∧ unreblog o id s = getStatus o id (cleared o id s)) ∨
      o.second ≠ .answered ∧ ∃ error, unreblog o id s = (.error error, s) := by
  have hlisted : orEmpty (perform o.first (fun s => s.renotes id 100) s).1 = listed o id s := by
    unfold listed
    cases o.first with
    | failed error => rfl
    | lost error => rfl
    | answered => rfl
  unfold unreblog
  rw [hlisted]
  cases o.second with
  | failed error => exact .inr ⟨nofun, error, rfl⟩
  | lost error => exact .inr ⟨nofun, error, rfl⟩
  | answered => exact .inl ⟨rfl, rfl⟩

theorem mem_cleared (hs : s.WellFormed) (hsecond : o.second = .answered) :
    note ∈ (cleared o id s).notes ↔ note ∈ s.notes ∧ ¬ Deletes o id s note := by
  rw [cleared, mem_deleteOwn]
  refine and_congr_right fun hnote => not_congr ?_
  constructor
  · rintro ⟨huser, hreaches, renote, hrenote, -, hid⟩
    obtain rfl := List.inj_on_of_nodup_map hs.unique (mem_listed hrenote).1 hnote hid
    exact ⟨hsecond, hrenote, huser, hreaches⟩
  · rintro ⟨-, hlisted, huser, hreaches⟩
    exact ⟨huser, hreaches, note, hlisted, huser, rfl⟩

theorem has_cleared (hs : s.WellFormed) (hsecond : o.second = .answered) :
    (cleared o id s).has id = s.has id := by
  rw [Bool.eq_iff_iff, Server.has_iff, Server.has_iff]
  refine exists_congr fun note => and_congr_left fun hid => ?_
  rw [mem_cleared hs hsecond]
  refine ⟨fun h => h.1, fun hnote => ⟨hnote, fun hdeletes => ?_⟩⟩
  have hself := (mem_listed hdeletes.2.1).2
  rw [← hid] at hself
  exact hs.noSelf note hnote hself

theorem honest_unreblog (hs : s.WellFormed) :
    Honest o id s .unreblog ↔ Careful o id s .unreblog := by
  have hme : (cleared o id s).me = s.me := me_deleteOwn
  rcases unreblog_cases (o := o) (s := s) with ⟨hsecond, hresult⟩ | ⟨hsecond, error, hresult⟩
  · have hstate : (unreblog o id s).2 = cleared o id s := by
      rw [hresult]
      exact getStatus_state
    have hok : (∃ note, (unreblog o id s).1 = .ok note) ↔ Fetches o id s := by
      rw [hresult, getStatus_ok, Fetches, Fetches, has_cleared hs hsecond]
    constructor
    · intro h
      refine ⟨fun note hnote hdeletes => ?_, fun hfetches _ note hnote huser hpure => ?_⟩
      · refine h.deletes rfl note hnote hdeletes.2.2.1 ?_
        show note ∉ (unreblog o id s).2.notes
        rw [hstate, mem_cleared hs hsecond]
        exact fun hkept => hkept.2 hdeletes
      · by_contra hdeletes
        have hrequested : ∀ note ∈ (unreblog o id s).2.notes,
          note.userId = (unreblog o id s).2.me → ¬ note.PureRenoteOf id :=
            h.success (hok.2 hfetches)
        rw [hstate, hme] at hrequested
        exact hrequested note ((mem_cleared hs hsecond).2 ⟨hnote, hdeletes⟩) huser hpure
    · rintro ⟨honly, hall⟩
      constructor
      · intro hresult'
        show ∀ note ∈ (unreblog o id s).2.notes, note.userId = (unreblog o id s).2.me →
          ¬ note.PureRenoteOf id
        rw [hstate, hme]
        intro note hnote huser hpure
        obtain ⟨hnote, hdeletes⟩ := (mem_cleared hs hsecond).1 hnote
        exact hdeletes (hall (hok.1 hresult') hsecond note hnote huser hpure)
      · intro _ note hnote huser hgone
        change note ∉ (unreblog o id s).2.notes at hgone
        rw [hstate, mem_cleared hs hsecond] at hgone
        refine honly note hnote ?_
        by_contra hdeletes
        exact hgone ⟨hnote, hdeletes⟩
  · refine iff_of_true ⟨fun hok => ?_, fun _ note hnote _ hgone => ?_⟩
      ⟨fun note _ hdeletes => absurd hdeletes.1 hsecond, fun _ h => absurd h hsecond⟩
    · obtain ⟨note, hok⟩ := hok
      change (unreblog o id s).1 = _ at hok
      rw [hresult] at hok
      cases hok
    · change note ∉ (unreblog o id s).2.notes at hgone
      rw [hresult] at hgone
      exact absurd hnote hgone

/-- An action is honest exactly if its requests meet its condition. -/
theorem honest_iff (hs : s.WellFormed) (action : Action) :
    Honest o id s action ↔ Careful o id s action := by
  cases action with
  | favourite => exact honest_favourite
  | unfavourite => exact honest_unfavourite
  | reblog => exact iff_of_true honest_reblog trivial
  | unreblog => exact honest_unreblog hs
  | bookmark => exact iff_of_true honest_bookmark trivial
  | unbookmark => exact iff_of_true honest_unbookmark trivial

end

/-! ### A quote is deleted -/

/-- A note of another user, and one of the account that has it as its `renoteId`. -/
def quotedServer (text : Option Str) : Server where
  me := "me".toList
  notes := [⟨"2".toList, "me".toList, some "1".toList, none, text, none, [], false⟩,
    ⟨"1".toList, "alice".toList, none, none, some "hello".toList, none, [], false⟩]
  reaction _ := none
  favorite _ := false
  nextId := "3".toList

def allAnswered : Outcomes := ⟨.answered, .answered, fun _ => .answered, .answered⟩

theorem wellFormed_quotedServer (text : Option Str) : (quotedServer text).WellFormed where
  unique := by
    show ["2".toList, "1".toList].Nodup
    decide
  noSelf := by
    intro note hnote
    rcases List.mem_cons.1 hnote with rfl | hnote
    · show some "1".toList ≠ some "2".toList
      decide
    · obtain rfl := List.mem_singleton.1 hnote
      exact nofun

/-- A renote is taken back. -/
theorem honest_unreblog_renote :
    Honest allAnswered "1".toList (quotedServer none) .unreblog := by
  refine (honest_iff (wellFormed_quotedServer none) .unreblog).2 ⟨?_, ?_⟩
  · intro note _ hdeletes
    have hlisted : note ∈ [(⟨"2".toList, "me".toList, some "1".toList, none, none, none, [],
      false⟩ : MisskeyNote)] := hdeletes.2.1
    obtain rfl := List.mem_singleton.1 hlisted
    decide
  · intro _ _ note hnote huser _
    rcases List.mem_cons.1 hnote with rfl | hnote
    · exact ⟨rfl, List.mem_singleton_self _, rfl, rfl⟩
    · obtain rfl := List.mem_singleton.1 hnote
      exact absurd huser (by decide)

/-- A quote with a text of its own is deleted like a renote. -/
theorem not_honest_unreblog :
    ¬ Honest allAnswered "1".toList (quotedServer (some "so true".toList)) .unreblog := by
  intro h
  have hpure := h.deletes rfl _ List.mem_cons_self rfl (by decide)
  exact absurd hpure (by decide)

end Awayuki.Misskey
