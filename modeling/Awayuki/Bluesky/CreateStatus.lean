import Awayuki.Text
import Awayuki.Library.Request

/-!
# Bluesky: creating a post

`create_status` of `bluesky/endpoints.rs`.  The record of a post is put together from lookups of
the posts it answers and quotes, and created under a key that the operation id determines, so that
a second attempt finds the record of the first.

* `idempotencyRecordKey`: the key, which is always a valid one;
* `Attempt`: what becomes of the requests of one attempt;
* `createStatus`: one attempt against the records of the account;
* `Delivers`: one record, with what was asked for, and success only with it;
* `delivers_iff`: exactly if the lookups for the reply succeed in the attempt that creates it.
-/

namespace Awayuki.Bluesky

open Request

/-! ### Record keys -/

def S32 : Str := "234567abcdefghijklmnopqrstuvwxyz"

/-- The last `n` digits of a number in base 32. -/
def encodeDigits : ℕ → ℕ → Str
  | 0, _ => []
  | n + 1, value => encodeDigits n (value / 32) ++ [S32.getD (value % 32) '2']

/-- `Tid::new` -/
def isTid (text : Str) : Bool :=
  text.length == 13 && text.head?.any (fun c => decide (c ∈ "234567abcdefghij".toList)) &&
    text.all fun c => decide (c ∈ S32)

/-- The first eight bytes of a digest, as a number of 63 bits. -/
def leading63 (digest : List UInt8) : ℕ :=
  (digest.take 8).foldl (fun n byte => n * 256 + byte.toNat) 0 % 2 ^ 63

/-- The digest is that of SHA-256. -/
def idempotencyRecordKey (sha256 : Str → List UInt8) (operationId : Str) : Except Str Str :=
  let encoded := encodeDigits 13 (leading63 (sha256 operationId))
  if isTid encoded then .ok encoded else .error "TID does not match expected format"

theorem digit_mem : ∀ n < 32, S32.getD n '2' ∈ S32 := by decide

theorem length_encodeDigits (n value : ℕ) : (encodeDigits n value).length = n := by
  induction n generalizing value with
  | zero => rfl
  | succ n ih => rw [encodeDigits, List.length_append, ih, List.length_singleton]

theorem mem_encodeDigits {n value : ℕ} {c : Char} (h : c ∈ encodeDigits n value) : c ∈ S32 := by
  induction n generalizing value with
  | zero => cases h
  | succ n ih =>
    rcases List.mem_append.1 h with h | h
    · exact ih h
    · rw [List.mem_singleton.1 h]
      exact digit_mem _ (Nat.mod_lt _ (by decide))

theorem head_encodeDigits (n value : ℕ) :
    (encodeDigits (n + 1) value).head? = some (S32.getD (value / 32 ^ n % 32) '2') := by
  induction n generalizing value with
  | zero => simp [encodeDigits]
  | succ n ih =>
    rw [encodeDigits, List.head?_append, ih, Nat.div_div_eq_div_mul, ← Nat.pow_succ']
    rfl

/-- The key of an operation is always valid. -/
theorem idempotencyRecordKey_ok (sha256 : Str → List UInt8) (operationId : Str) :
    idempotencyRecordKey sha256 operationId =
      .ok (encodeDigits 13 (leading63 (sha256 operationId))) := by
  have hlt : leading63 (sha256 operationId) < 2 ^ 63 := Nat.mod_lt _ (by decide)
  have hhead : ∀ digit < 8, S32.getD digit '2' ∈ "234567abcdefghij".toList := by decide
  have htop : leading63 (sha256 operationId) / 32 ^ 12 % 32 < 8 :=
    (Nat.mod_le _ _).trans_lt (Nat.div_lt_of_lt_mul (by omega))
  have htid : isTid (encodeDigits 13 (leading63 (sha256 operationId))) = true := by
    have hdigits : ((encodeDigits 13 (leading63 (sha256 operationId))).all
        fun c => decide (c ∈ S32)) = true :=
      List.all_eq_true.2 fun c hc => decide_eq_true (mem_encodeDigits hc)
    rw [isTid, length_encodeDigits, head_encodeDigits, Option.any_some,
      decide_eq_true (hhead _ htop), hdigits]
    rfl
  rw [idempotencyRecordKey, if_pos htid]

/-! ### One attempt -/

structure StrongRef where
  uri : Str
  cid : Str
  deriving DecidableEq, Repr

structure ReplyRef where
  root : StrongRef
  parent : StrongRef
  deriving DecidableEq, Repr

/-- A post as the server shows it, and whether its record can be decoded. -/
structure PostView where
  uri : Str
  cid : Str
  reply : Option ReplyRef
  decodes : Bool
  deriving DecidableEq, Repr

def PostView.strongRef (post : PostView) : StrongRef := ⟨post.uri, post.cid⟩

structure CreatePollParams where
  options : List Str
  expiresIn : ℤ
  multiple : Option Bool
  hideTotals : Option Bool
  deriving DecidableEq, Repr

structure CreateStatusParams where
  idempotencyKey : Option Str
  status : Option Str
  inReplyToId : Option Str
  mediaIds : Option (List Str)
  sensitive : Option Bool
  spoilerText : Option Str
  visibility : Option Str
  language : Option Str
  quoteId : Option Str
  poll : Option CreatePollParams
  deriving DecidableEq, Repr

structure PostRecord where
  createdAt : Str
  text : Str
  reply : Option ReplyRef
  embed : Option StrongRef
  deriving DecidableEq, Repr

/-- A post of the account: what `get_posts` returns for a record. -/
structure Status where
  id : Str
  record : PostRecord
  deriving DecidableEq, Repr

/-- The answer to a lookup of one post. -/
inductive Answer
  | failed (error : Str)
  | missing
  | found
  deriving DecidableEq, Repr

/-- What one attempt meets: is there a session, the answers to its lookups in their order, the
time, a key in case it has none of its own, and whether a record that exists can be fetched. -/
structure Attempt where
  session : Bool
  parentRef : Answer
  parentPost : Answer
  quote : Answer
  now : Str
  freshKey : Str
  create : Outcome Str
  fetch : Answer

/-- The records of the account by their URIs. -/
abbrev Records := List (Str × PostRecord)

section CreateStatus

variable (posts : Str → PostView) (did : Str) (sha256 : Str → List UInt8)

def getPosts (answer : Answer) (uri : Str) : Except Str (List PostView) :=
  match answer with
  | .failed error => .error ("get_posts failed: ".toList ++ error)
  | .missing => .ok []
  | .found => .ok [posts uri]

def fetchStrongRef (answer : Answer) (uri : Str) : Except Str StrongRef := do
  match ← getPosts posts answer uri with
  | [] => .error "Bluesky post not found"
  | post :: _ => .ok post.strongRef

/-- The root of the thread of a post that is answered. -/
def replyRoot (parentStrong : StrongRef) (parentPostView : PostView) : StrongRef :=
  if parentPostView.decodes then
    match parentPostView.reply with
    | some parentReply => parentReply.root
    | none => parentStrong
  else parentStrong

def buildReplyRef (attempt : Attempt) (parentUri : Str) : Except Str ReplyRef := do
  let parentStrong ← fetchStrongRef posts attempt.parentRef parentUri
  match ← getPosts posts attempt.parentPost parentUri with
  | [] => .error "Bluesky reply parent not found"
  | parentPostView :: _ => .ok ⟨replyRoot parentStrong parentPostView, parentStrong⟩

def recordUri (rkey : Str) : Str :=
  "at://".toList ++ did ++ "/app.bsky.feed.post/".toList ++ rkey

/-- `get_status`, for a post of the account. -/
def getStatus (answer : Answer) (records : Records) (uri : Str) : Except Str Status :=
  match answer with
  | .failed error => .error ("get_posts failed: ".toList ++ error)
  | .missing => .error "Bluesky post not found"
  | .found =>
    match records.find? fun r => r.1 = uri with
    | some r => .ok ⟨r.1, r.2⟩
    | none => .error "Bluesky post not found"

def taken (records : Records) (uri : Str) : Bool := records.any fun r => r.1 = uri

/-- `create_record` on the server, which refuses a key that is taken. -/
def createRecord (uri : Str) (record : PostRecord) (records : Records) :
    Except Str Str × Records :=
  if taken records uri then (.error "record already exists", records)
  else (.ok uri, records ++ [(uri, record)])

/-- The post that is quoted: its lookup has to succeed. -/
def quoteEmbed (attempt : Attempt) : Option Str → Except Str (Option StrongRef)
  | some quoteUri => (fetchStrongRef posts attempt.quote quoteUri).map some
  | none => .ok none

/-- The record of a post.  A reply whose lookups fail becomes a post of its own. -/
def assemble (params : CreateStatusParams) (attempt : Attempt) : Except Str PostRecord := do
  let reply := params.inReplyToId.bind fun replyTo =>
    (buildReplyRef posts attempt replyTo).toOption
  let embed ← quoteEmbed posts attempt params.quoteId
  return ⟨attempt.now, params.status.getD [], reply, embed⟩

def createStatus (params : CreateStatusParams) (attempt : Attempt) (records : Records) :
    Except Str Status × Records :=
  if !attempt.session then (.error "Bluesky agent has no session", records)
  else
    match assemble posts params attempt with
    | .error error => (.error error, records)
    | .ok record =>
      match params.idempotencyKey with
      | none =>
        match perform attempt.create (createRecord (recordUri did attempt.freshKey) record)
          records with
        | (.ok uri, records) => (getStatus attempt.fetch records uri, records)
        | (.error error, records) =>
          (.error ("create_record(post) failed: ".toList ++ error), records)
      | some key =>
        match idempotencyRecordKey sha256 key with
        | .error error => (.error error, records)
        | .ok rkey =>
          match perform attempt.create (createRecord (recordUri did rkey) record) records with
          | (.ok uri, records) => (getStatus attempt.fetch records uri, records)
          | (.error error, records) =>
            match getStatus attempt.fetch records (recordUri did rkey) with
            | .ok status => (.ok status, records)
            | .error _ => (.error ("create_record(post) failed: ".toList ++ error), records)

/-! ### Attempts of one operation -/

/-- The post that an operation makes. -/
def operationUri (operationId : Str) : Str :=
  recordUri did (encodeDigits 13 (leading63 (sha256 operationId)))

/-- Is the post that is quoted found, if there is one? -/
def Attempt.quotes (attempt : Attempt) (params : CreateStatusParams) : Bool :=
  params.quoteId.isNone || attempt.quote == .found

/-- Does the attempt get a record to the server, unless there is one? -/
def Attempt.creates (attempt : Attempt) (params : CreateStatusParams) : Bool :=
  attempt.session && attempt.quotes params && attempt.create.reaches

/-- The reference to the post that is answered, if its lookups succeed. -/
def Attempt.reply (attempt : Attempt) (params : CreateStatusParams) : Option ReplyRef :=
  params.inReplyToId.bind fun replyTo =>
    if attempt.parentRef = .found ∧ attempt.parentPost = .found then
      some ⟨replyRoot (posts replyTo).strongRef (posts replyTo), (posts replyTo).strongRef⟩
    else none

/-- The record that the attempt creates. -/
def Attempt.record (attempt : Attempt) (params : CreateStatusParams) : PostRecord where
  createdAt := attempt.now
  text := params.status.getD []
  reply := attempt.reply posts params
  embed := params.quoteId.map fun quoteUri => (posts quoteUri).strongRef

theorem taken_eq_false {records : Records} {uri : Str} :
    taken records uri = false ↔ ∀ r ∈ records, r.1 ≠ uri := by
  simp [taken]

variable {posts did sha256} {params : CreateStatusParams} {attempt : Attempt} {records : Records}

variable (posts) in
theorem fetchStrongRef_eq (answer : Answer) (uri : Str) :
    (answer = .found ∧ fetchStrongRef posts answer uri = .ok (posts uri).strongRef) ∨
      (answer ≠ .found ∧ ∃ error, fetchStrongRef posts answer uri = .error error) := by
  cases answer with
  | failed error => exact .inr ⟨Answer.noConfusion, _, rfl⟩
  | missing => exact .inr ⟨Answer.noConfusion, _, rfl⟩
  | found => exact .inl ⟨rfl, rfl⟩

variable (posts) in
theorem buildReplyRef_toOption (attempt : Attempt) (parentUri : Str) :
    (buildReplyRef posts attempt parentUri).toOption =
      if attempt.parentRef = .found ∧ attempt.parentPost = .found then
        some ⟨replyRoot (posts parentUri).strongRef (posts parentUri), (posts parentUri).strongRef⟩
      else none := by
  unfold buildReplyRef
  rcases fetchStrongRef_eq posts attempt.parentRef parentUri with
    ⟨href, hok⟩ | ⟨href, error, herror⟩
  · rw [hok, href]
    cases attempt.parentPost <;> rfl
  · rw [herror, if_neg fun h => href h.1]
    rfl

variable (posts) in
/-- Only the lookup of the post that is quoted stops an attempt. -/
theorem assemble_eq (attempt : Attempt) (params : CreateStatusParams) :
    (attempt.quotes params = true ∧
      assemble posts params attempt = .ok (attempt.record posts params)) ∨
    (attempt.quotes params = false ∧ ∃ error, assemble posts params attempt = .error error) := by
  have hreply : (params.inReplyToId.bind fun replyTo =>
      (buildReplyRef posts attempt replyTo).toOption) = attempt.reply posts params := by
    unfold Attempt.reply
    congr 1
    funext replyTo
    exact buildReplyRef_toOption posts attempt replyTo
  unfold assemble Attempt.record Attempt.quotes
  rw [hreply]
  cases hquote : params.quoteId with
  | none => exact .inl ⟨rfl, rfl⟩
  | some quoteUri =>
    rw [quoteEmbed]
    rcases fetchStrongRef_eq posts attempt.quote quoteUri with
      ⟨hfound, hok⟩ | ⟨hnot, error, herror⟩
    · rw [hok]
      exact .inl ⟨beq_iff_eq.2 hfound, rfl⟩
    · rw [herror]
      exact .inr ⟨beq_eq_false_iff_ne.2 hnot, error, rfl⟩

/-- What is fetched is among the records. -/
theorem getStatus_ok {answer : Answer} {uri : Str} {status : Status}
    (h : getStatus answer records uri = .ok status) :
    status.id = uri ∧ (uri, status.record) ∈ records := by
  cases answer with
  | failed error => cases h
  | missing => cases h
  | found =>
    rw [getStatus] at h
    cases hfind : records.find? fun r => r.1 = uri with
    | none =>
      rw [hfind] at h
      cases h
    | some r =>
      rw [hfind] at h
      cases h
      have huri : r.1 = uri := by simpa using List.find?_some hfind
      refine ⟨huri, ?_⟩
      rw [← huri]
      exact List.mem_of_find?_eq_some hfind

theorem createRecord_records (uri : Str) (record : PostRecord) (records : Records) :
    (createRecord uri record records).2 =
      if taken records uri = false then records ++ [(uri, record)] else records := by
  unfold createRecord
  cases taken records uri <;> rfl

theorem createRecord_ok {uri uri' : Str} {record : PostRecord}
    (h : (createRecord uri record records).1 = .ok uri') : uri' = uri := by
  unfold createRecord at h
  split_ifs at h
  cases h
  rfl

variable (posts did sha256 params) in
/-- The records after an attempt that gets to its create request. -/
def Attempt.created (operationId : Str) (attempt : Attempt) (records : Records) : Records :=
  (perform attempt.create (createRecord (operationUri did sha256 operationId)
    (attempt.record posts params)) records).2

/-- An attempt at an operation stops before it creates a record, or what it returns is fetched after
that. -/
theorem createStatus_cases {operationId : Str} (hkey : params.idempotencyKey = some operationId)
    (attempt : Attempt) (records : Records) :
    ((attempt.session && attempt.quotes params) = false ∧
      ∃ error, createStatus posts did sha256 params attempt records = (.error error, records)) ∨
    ((attempt.session && attempt.quotes params) = true ∧
      ∃ answer, createStatus posts did sha256 params attempt records =
          (answer, attempt.created posts did sha256 params operationId records) ∧
        ∀ status, answer = .ok status →
          getStatus attempt.fetch (attempt.created posts did sha256 params operationId records)
            (operationUri did sha256 operationId) = .ok status) := by
  unfold createStatus Attempt.created operationUri
  cases attempt.session with
  | false => exact .inl ⟨rfl, _, rfl⟩
  | true =>
    rcases assemble_eq posts attempt params with ⟨hquote, hok⟩ | ⟨hquote, error, herror⟩
    · rw [hok, hkey]
      dsimp only
      rw [idempotencyRecordKey_ok, Bool.true_and, Bool.not_true, if_neg (by decide)]
      dsimp only
      refine .inr ⟨hquote, ?_⟩
      cases hcreate : perform attempt.create
        (createRecord (recordUri did (encodeDigits 13 (leading63 (sha256 operationId))))
          (attempt.record posts params)) records with
      | mk answer records' =>
        cases answer with
        | ok uri =>
          refine ⟨_, rfl, fun status hstatus => ?_⟩
          have huri := createRecord_ok (perform_eq_ok.1 (congrArg Prod.fst hcreate)).2
          rw [huri] at hstatus
          exact hstatus
        | error error =>
          dsimp only
          cases hget : getStatus attempt.fetch records'
            (recordUri did (encodeDigits 13 (leading63 (sha256 operationId)))) with
          | ok status => exact ⟨_, rfl, fun status' hstatus => hstatus⟩
          | error error' => exact ⟨_, rfl, fun status hstatus => by cases hstatus⟩
    · rw [herror]
      exact .inl ⟨hquote, _, rfl⟩

/-- An attempt at an operation creates its record, if it gets to the server and there is none. -/
theorem createStatus_records {operationId : Str} (hkey : params.idempotencyKey = some operationId)
    (attempt : Attempt) (records : Records) :
    (createStatus posts did sha256 params attempt records).2 =
      if attempt.creates params = true ∧
          taken records (operationUri did sha256 operationId) = false then
        records ++ [(operationUri did sha256 operationId, attempt.record posts params)]
      else records := by
  unfold Attempt.creates
  rcases createStatus_cases hkey attempt records with
    ⟨hstops, error, heq⟩ | ⟨hgoes, answer, heq, -⟩
  · rw [heq, hstops]
    rfl
  · rw [heq, hgoes, Bool.true_and]
    show attempt.created posts did sha256 params operationId records = _
    rw [Attempt.created, perform_state, createRecord_records, ← ite_and]

/-- A status that is returned is a record, under the URI of the operation. -/
theorem createStatus_ok {operationId : Str} (hkey : params.idempotencyKey = some operationId)
    {status : Status} (h : (createStatus posts did sha256 params attempt records).1 = .ok status) :
    status.id = operationUri did sha256 operationId ∧
      (operationUri did sha256 operationId, status.record) ∈
        (createStatus posts did sha256 params attempt records).2 := by
  rcases createStatus_cases hkey attempt records with
    ⟨-, error, heq⟩ | ⟨-, answer, heq, hanswer⟩
  · rw [heq] at h
    cases h
  · rw [heq] at h ⊢
    exact getStatus_ok (hanswer status h)

/-! ### Deliveries -/

variable (posts did sha256 params) in
/-- The records after some attempts. -/
def deliver : Records → List Attempt → Records
  | records, [] => records
  | records, attempt :: attempts =>
    deliver (createStatus posts did sha256 params attempt records).2 attempts

variable (posts) in
/-- What an answer to a post refers to: the post, and the root of its thread. -/
def requestedReply (replyTo : Str) : ReplyRef where
  root := ((posts replyTo).reply.map (·.root)).getD (posts replyTo).strongRef
  parent := (posts replyTo).strongRef

variable (posts params) in
/-- A record with what was asked for. -/
structure Carries (record : PostRecord) : Prop where
  text : record.text = params.status.getD []
  reply : record.reply = params.inReplyToId.map (requestedReply posts)
  embed : record.embed = params.quoteId.map fun quoteUri => (posts quoteUri).strongRef

variable (posts did sha256 params) in
/-- Some attempts at an operation deliver the post once and as it was asked for. -/
structure Delivers (operationId : Str) (records : Records) (attempts : List Attempt) : Prop where
  /-- There is at most one record, and it is what was asked for. -/
  once : ∃ created, deliver posts did sha256 params records attempts = records ++ created ∧
    created.length ≤ 1 ∧ ∀ r ∈ created,
      r.1 = operationUri did sha256 operationId ∧ Carries posts params r.2
  /-- An attempt that succeeds returns the record. -/
  returned : ∀ before attempt after, attempts = before ++ attempt :: after → ∀ status,
    (createStatus posts did sha256 params attempt
      (deliver posts did sha256 params records before)).1 = .ok status →
    status.id = operationUri did sha256 operationId ∧
      (operationUri did sha256 operationId, status.record) ∈
        (createStatus posts did sha256 params attempt
          (deliver posts did sha256 params records before)).2

variable (posts) in
/-- The attempt finds the post that is answered and, from it, the root of its thread. -/
def Attempt.ResolvesReply (attempt : Attempt) (replyTo : Str) : Prop :=
  attempt.parentRef = .found ∧ attempt.parentPost = .found ∧
    ((posts replyTo).decodes = true ∨
      ∀ reply, (posts replyTo).reply = some reply → reply.root = (posts replyTo).strongRef)

theorem replyRoot_eq_iff (parentUri : Str) :
    replyRoot (posts parentUri).strongRef (posts parentUri) =
        (requestedReply posts parentUri).root ↔
      ((posts parentUri).decodes = true ∨
        ∀ reply, (posts parentUri).reply = some reply →
          reply.root = (posts parentUri).strongRef) := by
  unfold replyRoot requestedReply
  cases (posts parentUri).decodes with
  | true => cases (posts parentUri).reply <;> simp
  | false =>
    cases (posts parentUri).reply with
    | none => simp
    | some reply =>
      simp only [Bool.false_eq_true, if_false, Option.map_some, Option.getD_some, false_or,
        Option.some.injEq, forall_eq']
      exact eq_comm

/-- The record of an attempt carries what was asked for, if the lookups for the reply succeed. -/
theorem carries_record_iff (attempt : Attempt) :
    Carries posts params (attempt.record posts params) ↔
      ∀ replyTo, params.inReplyToId = some replyTo → attempt.ResolvesReply posts replyTo := by
  have hreply : Carries posts params (attempt.record posts params) ↔
      attempt.reply posts params = params.inReplyToId.map (requestedReply posts) :=
    ⟨fun h => h.reply, fun h => ⟨rfl, h, rfl⟩⟩
  rw [hreply, Attempt.reply]
  cases params.inReplyToId with
  | none => simp
  | some replyTo =>
    simp only [Option.bind_some, Option.map_some, Option.some.injEq, forall_eq']
    unfold Attempt.ResolvesReply
    rw [← replyRoot_eq_iff, ← and_assoc]
    by_cases hfound : attempt.parentRef = .found ∧ attempt.parentPost = .found
    · rw [if_pos hfound, Option.some.injEq, ReplyRef.mk.injEq]
      exact ⟨fun h => ⟨hfound, h.1⟩, fun h => ⟨h.2, rfl⟩⟩
    · rw [if_neg hfound]
      exact iff_of_false (Option.some_ne_none _).symm fun h => hfound h.1

theorem taken_append (records : Records) (uri : Str) (record : PostRecord) :
    taken (records ++ [(uri, record)]) uri = true := by
  simp [taken]

/-- Once there is a record, attempts leave it alone. -/
theorem deliver_of_taken {operationId : Str} (hkey : params.idempotencyKey = some operationId)
    (attempts : List Attempt)
    (htaken : taken records (operationUri did sha256 operationId) = true) :
    deliver posts did sha256 params records attempts = records := by
  induction attempts with
  | nil => rfl
  | cons attempt attempts ih =>
    rw [deliver, createStatus_records hkey, if_neg fun h => by simp [htaken] at h, ih]

/-- The first attempt that gets to the server creates the record. -/
theorem deliver_eq {operationId : Str} (hkey : params.idempotencyKey = some operationId)
    (attempts : List Attempt) (hnew : ∀ r ∈ records, r.1 ≠ operationUri did sha256 operationId) :
    deliver posts did sha256 params records attempts =
      records ++ ((attempts.find? (·.creates params)).map fun attempt =>
        (operationUri did sha256 operationId, attempt.record posts params)).toList := by
  induction attempts with
  | nil => exact (List.append_nil records).symm
  | cons attempt attempts ih =>
    rw [deliver, createStatus_records hkey, taken_eq_false.2 hnew]
    by_cases hcreates : attempt.creates params = true
    · have hfind : (attempt :: attempts).find? (·.creates params) = some attempt :=
        List.find?_cons_of_pos hcreates
      rw [if_pos ⟨hcreates, rfl⟩, deliver_of_taken hkey attempts (taken_append _ _ _), hfind]
      rfl
    · have hfind : (attempt :: attempts).find? (·.creates params) =
          attempts.find? (·.creates params) := List.find?_cons_of_neg hcreates
      rw [if_neg fun h => hcreates h.1, ih, hfind]

/-- Deliveries of an operation that has no record yet are right exactly if the lookups for the
reply succeed in the first attempt that creates one. -/
theorem delivers_iff {operationId : Str} (hkey : params.idempotencyKey = some operationId)
    (hnew : ∀ r ∈ records, r.1 ≠ operationUri did sha256 operationId) (attempts : List Attempt) :
    Delivers posts did sha256 params operationId records attempts ↔
      ∀ replyTo, params.inReplyToId = some replyTo →
        ∀ attempt, attempts.find? (·.creates params) = some attempt →
          attempt.ResolvesReply posts replyTo := by
  have hdeliver := @deliver_eq posts did sha256 params records operationId hkey attempts hnew
  constructor
  · intro h replyTo hreply attempt hfind
    obtain ⟨created, hcreated, -, hcarries⟩ := h.once
    rw [hdeliver, hfind] at hcreated
    have hmem : (operationUri did sha256 operationId, attempt.record posts params) ∈ created := by
      rw [← List.append_cancel_left hcreated]
      exact List.mem_singleton.2 rfl
    exact (carries_record_iff attempt).1 (hcarries _ hmem).2 replyTo hreply
  · intro h
    refine ⟨⟨_, hdeliver, ?_, ?_⟩, fun _ _ _ _ _ hok => createStatus_ok hkey hok⟩
    · rw [Option.length_toList]
      split_ifs <;> omega
    · intro r hr
      rw [Option.mem_toList, Option.map_eq_some_iff] at hr
      obtain ⟨attempt, hfind, rfl⟩ := hr
      exact ⟨rfl, (carries_record_iff attempt).2 fun replyTo hreply =>
        h replyTo hreply attempt hfind⟩

end CreateStatus

/-! ### An example -/

/-- A reply to the second post of a thread. -/
def sampleReply : CreateStatusParams where
  idempotencyKey := some "op".toList
  status := some "hello".toList
  inReplyToId := some "at://did:plc:bob/app.bsky.feed.post/2".toList
  mediaIds := none
  sensitive := some false
  spoilerText := none
  visibility := some "public".toList
  language := none
  quoteId := none
  poll := none

def samplePosts (uri : Str) : PostView where
  uri := uri
  cid := "cid".toList
  reply := some ⟨⟨"root".toList, "cid".toList⟩, ⟨"root".toList, "cid".toList⟩⟩
  decodes := true

/-- An attempt of which every request but the first lookup succeeds. -/
def sampleAttempt (parentRef : Answer) : Attempt where
  session := true
  parentRef := parentRef
  parentPost := .found
  quote := .missing
  now := "2024-01-01T00:00:00Z".toList
  freshKey := []
  create := .answered
  fetch := .found

/-- All requests succeed, and then the same attempt is made again. -/
theorem delivers_iff_reply : (∀ r ∈ ([] : Records),
      r.1 ≠ operationUri "did:plc:alice".toList (fun _ => []) "op".toList) ∧
    (Delivers samplePosts "did:plc:alice".toList (fun _ => []) sampleReply "op".toList []
        [sampleAttempt .found, sampleAttempt .found] ↔
      ∀ replyTo, sampleReply.inReplyToId = some replyTo →
        ∀ attempt, [sampleAttempt .found, sampleAttempt .found].find?
            (·.creates sampleReply) = some attempt →
          attempt.ResolvesReply samplePosts replyTo) :=
  ⟨fun _ h => (List.not_mem_nil h).elim,
    delivers_iff rfl (fun _ h => (List.not_mem_nil h).elim) _⟩

/-- The lookup of the post that is answered fails: the answer becomes a post of its own, and is
returned as a success. -/
theorem not_delivers : ¬ Delivers samplePosts "did:plc:alice".toList (fun _ => []) sampleReply
    "op".toList [] [sampleAttempt (.failed "timeout".toList)] := by
  intro h
  obtain ⟨created, hcreated, -, hcarries⟩ := h.once
  have hmem : (operationUri "did:plc:alice".toList (fun _ => []) "op".toList,
      (sampleAttempt (.failed "timeout".toList)).record samplePosts sampleReply) ∈ created := by
    rw [← List.nil_append created, ← hcreated]
    exact List.mem_singleton.2 rfl
  have hreply := (hcarries _ hmem).2.reply
  cases hreply

end Awayuki.Bluesky
