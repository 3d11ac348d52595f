import Awayuki.Search.Segments

/-!
# The OAuth callback

During a login the browser is sent to `http://127.0.0.1:<port>/callback`, where a listener of the
application waits for it.  Any process of the machine can connect to the listener.

* `readRequest`, `parseCallbackRequest`, `constantTimeEq`: what becomes of a connection;
* `serve`: one round of the loop, `waitForValidRequest`: the loop;
* `Authentic`: the request is the callback of this login;
* `Legitimate`: how a session may end;
* `secure_iff`: it ends in no other way if and only if every other connection takes its answer and
  shows its `Host` and its target where they belong.
-/

namespace Awayuki.OAuth

open Str
open Search (utf8Bytes utf8Bytes_prefix_iff)

/-! ### Requests -/

inductive CallbackError
  | io
  | timeout
  | authorizationRejected (reason : Str)
  deriving DecidableEq, Repr

def maxRequestBytes : ℕ := 8 * 1024

def callbackPath : Str := "/callback"

/-- How the bytes of a peer end: it closes, the connection breaks, or nothing comes for five
seconds. -/
inductive Ending
  | closed | failed | silent
  deriving DecidableEq, Repr

/-- `String::from_utf8`. -/
def fromUtf8 (bytes : List UInt8) : Except CallbackError Str :=
  match String.fromUTF8? bytes.toByteArray with
  | some text => .ok text.toList
  | none => .error .io

/-- The loop of `read_request` over the chunks that are read. -/
def readRequest (ending : Ending) (request : List UInt8) :
    List (List UInt8) → Except CallbackError Str
  | [] =>
    match ending with
    | .closed => fromUtf8 request
    | .failed => .error .io
    | .silent => .error .timeout
  | chunk :: chunks =>
    if chunk.isEmpty then fromUtf8 request
    else if ([13, 10, 13, 10] : List UInt8) <:+: request ++ chunk then fromUtf8 (request ++ chunk)
    else if maxRequestBytes ≤ (request ++ chunk).length then .error .io
    else readRequest ending (request ++ chunk) chunks

/-- `str::split("\r\n")`. -/
def splitCrlf : Str → List Str
  | [] => [[]]
  | '\r' :: '\n' :: rest => [] :: splitCrlf rest
  | c :: rest =>
    match splitCrlf rest with
    | [] => [[c]]
    | line :: lines => (c :: line) :: lines

/-- What the `url` crate tells of an address. -/
structure Url where
  path : Str
  queryPairs : List (Str × Str)

/-- A key of the map that the pairs are collected into: the last pair counts. -/
def Url.get (url : Url) (key : Str) : Option Str :=
  (url.queryPairs.reverse.find? fun pair => pair.1 = key).map Prod.snd

/-- The value of the first line with the name `Host`. -/
def hostOf (lines : List Str) : Option Str :=
  lines.findSome? fun line =>
    (splitOnce ':' line).bind fun pair =>
      if pair.1.eqIgnoreAsciiCase "host" then some (trim pair.2) else none

def expectedHost (port : ℕ) : Str := "127.0.0.1:" ++ Nat.toDigits 10 port

section Parse

variable (parseUrl : Str → Option Url) (port : ℕ)

def parseCallbackRequest (request : Str) : Except String Url :=
  let lines := splitCrlf request
  match splitWhitespace (lines.headD []) with
  | [] => .error "callback method must be GET"
  | method :: rest =>
    if method ≠ "GET".toList then .error "callback method must be GET"
    else
      match rest with
      | [] => .error "missing request target"
      | target :: rest =>
        if rest.length ≠ 1 then .error "malformed request line"
        else
          match hostOf lines.tail with
          | none => .error "missing Host header"
          | some host =>
            if host ≠ expectedHost port then .error "unexpected Host header"
            else
              match parseUrl ("http://" ++ host ++ target) with
              | none => .error "invalid callback target"
              | some url =>
                if url.path ≠ callbackPath then .error "unexpected callback path"
                else .ok url

end Parse

def constantTimeEq (left right : List UInt8) : Bool :=
  if left.length ≠ right.length then false
  else (left.zip right).foldl (fun difference pair => difference ||| (pair.1 ^^^ pair.2)) 0 == 0

/-! ### The loop -/

/-- A connection: does it come from the loopback, what is read from it, and can the response be
written? -/
structure Connection where
  loopback : Bool
  chunks : List (List UInt8)
  ending : Ending
  responds : Bool

/-- What `accept` returns. -/
inductive Arrival
  | accepted (connection : Connection)
  | failed

/-- The listener of a login: its port, and what it waits for. -/
structure Login where
  parseUrl : Str → Option Url
  port : ℕ
  requiredParams : List (Str × Str)
  resultKeys : List Str

abbrev Outcome := Except CallbackError (Str × Str)

namespace Login

variable (login : Login)

def accepts (url : Url) : Bool :=
  login.requiredParams.all fun param =>
    (url.get param.1).any fun actual => constantTimeEq (utf8Bytes actual) (utf8Bytes param.2)

def result (url : Url) : Option (Str × Str) :=
  login.resultKeys.findSome? fun key => (url.get key).map fun value => (key, value)

/-- Writes a response: on an error the loop is left. -/
def respond (connection : Connection) (after : Option Outcome) : Option Outcome :=
  if connection.responds then after else some (.error .io)

/-- One round of the loop: how the session ends, if it does. -/
def serve : Arrival → Option Outcome
  | .failed => some (.error .io)
  | .accepted connection =>
    if !connection.loopback then respond connection none
    else
      match readRequest connection.ending [] connection.chunks with
      | .error _ => respond connection none
      | .ok request =>
        match parseCallbackRequest login.parseUrl login.port request with
        | .error _ => respond connection none
        | .ok url =>
          if !login.accepts url then respond connection none
          else
            match url.get "error" with
            | some error =>
              respond connection (some (.error (.authorizationRejected (error.take 128))))
            | none =>
              match login.result url with
              | some result => respond connection (some (.ok result))
              | none => respond connection none

/-- How the session ends on the arrivals, if it does. -/
def waitForValidRequest (arrivals : List Arrival) : Option Outcome :=
  arrivals.findSome? login.serve

/-! ### The callback of a login -/

/-- The lines between the request line and the first empty line. -/
def headerLines (request : Str) : List Str := (splitCrlf request).tail.takeWhile (· ≠ [])

/-- A `GET` request whose target and host make an address of the callback path; `lines` are where
the host is looked for. -/
structure Requests (lines : List Str) (request : Str) (target : Str) (url : Url) : Prop where
  method : ∃ version, splitWhitespace ((splitCrlf request).headD []) =
    ["GET".toList, target, version]
  host : hostOf lines = some (expectedHost login.port)
  address : login.parseUrl ("http://" ++ expectedHost login.port ++ target) = some url
  path : url.path = callbackPath

/-- Every required parameter has its expected value. -/
def HasParams (url : Url) : Prop :=
  ∀ param ∈ login.requiredParams, url.get param.1 = some param.2

/-- The connection brings a request for the callback path with the expected `Host` header and the
required parameters. -/
structure Authentic (connection : Connection) (url : Url) : Prop where
  loopback : connection.loopback = true
  requests : ∃ request target,
    readRequest connection.ending [] connection.chunks = .ok request ∧
      login.Requests (headerLines request) request target url ∧ ['/'] <+: target
  params : login.HasParams url

/-- The parameters tell how the login went. -/
def Answers (url : Url) : Prop := (url.get "error").isSome ∨ (login.result url).isSome

/-- An authentic connection ends the session with what it tells; the session may also fail on its
answer. -/
def Legitimate (arrival : Arrival) (outcome : Outcome) : Prop :=
  ∃ connection url, arrival = .accepted connection ∧ login.Authentic connection url ∧
    match outcome with
    | .ok (key, value) => key ∈ login.resultKeys ∧ url.get key = some value
    | .error (.authorizationRejected reason) =>
      ∃ error, url.get "error" = some error ∧ reason = error.take 128
    | .error _ => login.Answers url

/-- In every run of the listener the session ends only as it may. -/
def Secure (arrivals : List Arrival) : Prop :=
  ∀ before arrival after outcome, arrivals = before ++ arrival :: after →
    login.waitForValidRequest before = none →
      login.waitForValidRequest (before ++ [arrival]) = some outcome →
        login.Legitimate arrival outcome

/-- The connection brings the parameters of the callback in a request that is none: its only
`Host` stands after the head, or its target is no path. -/
def Disguised (connection : Connection) : Prop :=
  connection.loopback = true ∧ ∃ request target url,
    readRequest connection.ending [] connection.chunks = .ok request ∧
      login.Requests (splitCrlf request).tail request target url ∧ login.HasParams url ∧
        login.Answers url ∧ (hostOf (headerLines request) = none ∨ ¬ ['/'] <+: target)

/-- The arrival is the callback, or another connection that takes its answer. -/
def Answerable : Arrival → Prop
  | .failed => False
  | .accepted connection =>
    (∃ url, login.Authentic connection url ∧ login.Answers url) ∨
      connection.responds = true ∧ ¬ login.Disguised connection

end Login

/-! ### Pieces -/

theorem utf8Bytes_injective {s t : Str} (h : utf8Bytes s = utf8Bytes t) : s = t := by
  have hst : s <+: t := utf8Bytes_prefix_iff.1 (h ▸ List.prefix_refl _)
  have hts : t <+: s := utf8Bytes_prefix_iff.1 (h ▸ List.prefix_refl _)
  exact hst.eq_of_length (le_antisymm hst.length_le hts.length_le)

theorem foldl_difference {pairs : List (UInt8 × UInt8)} {difference : UInt8} :
    pairs.foldl (fun difference pair => difference ||| (pair.1 ^^^ pair.2)) difference = 0 ↔
      difference = 0 ∧ ∀ pair ∈ pairs, pair.1 = pair.2 := by
  induction pairs generalizing difference with
  | nil => simp
  | cons pair pairs ih =>
    rw [List.foldl_cons, ih, UInt8.or_eq_zero_iff, UInt8.xor_eq_zero_iff, List.forall_mem_cons]
    exact and_assoc

/-- The comparison in constant time is equality. -/
theorem constantTimeEq_iff {left right : List UInt8} :
    constantTimeEq left right = true ↔ left = right := by
  unfold constantTimeEq
  split
  · next hlength =>
    exact ⟨fun h => (by cases h), fun h => absurd (congrArg List.length h) hlength⟩
  · next hlength =>
    have hlength : left.length = right.length := not_not.1 hlength
    rw [beq_iff_eq, foldl_difference]
    constructor
    · rintro ⟨-, hpairs⟩
      refine List.ext_getElem hlength fun i hl hr => ?_
      have hlt : i < (left.zip right).length := by rw [List.length_zip]; omega
      simpa using hpairs _ (List.getElem_mem hlt)
    · rintro rfl
      refine ⟨rfl, fun pair hpair => ?_⟩
      rw [List.zip_eq_zipWith] at hpair
      obtain ⟨i, hi, rfl⟩ := List.getElem_of_mem hpair
      simp

namespace Login

variable {login : Login} {connection : Connection} {url : Url}

theorem accepts_iff : login.accepts url = true ↔ login.HasParams url := by
  simp only [accepts, List.all_eq_true, Option.any_eq_true, HasParams]
  refine forall₂_congr fun param _ => ?_
  constructor
  · rintro ⟨actual, hget, heq⟩
    rw [hget, utf8Bytes_injective (constantTimeEq_iff.1 heq)]
  · exact fun hget => ⟨param.2, hget, constantTimeEq_iff.2 rfl⟩

theorem of_result {key value : Str} (h : login.result url = some (key, value)) :
    key ∈ login.resultKeys ∧ url.get key = some value := by
  obtain ⟨key', hmem, hmap⟩ := List.exists_of_findSome?_eq_some h
  obtain ⟨value', hget, heq⟩ := Option.map_eq_some_iff.1 hmap
  cases heq
  exact ⟨hmem, hget⟩

/-- What `parse_callback_request` accepts. -/
theorem parseCallbackRequest_eq_ok {request : Str} :
    parseCallbackRequest login.parseUrl login.port request = .ok url ↔
      ∃ target, login.Requests (splitCrlf request).tail request target url := by
  constructor
  · intro h
    unfold parseCallbackRequest at h
    dsimp only at h
    split at h
    · cases h
    · next method rest hline =>
      split at h
      · cases h
      · next hmethod =>
        split at h
        · cases h
        · next target rest =>
          split at h
          · cases h
          · next hrest =>
            obtain ⟨version, rfl⟩ := List.length_eq_one_iff.1 (not_not.1 hrest)
            split at h
            · cases h
            · next host hhost =>
              split at h
              · cases h
              · next hexpected =>
                split at h
                · cases h
                · next url' haddress =>
                  split at h
                  · cases h
                  · next hpath =>
                    cases h
                    have hexpected := not_not.1 hexpected
                    exact ⟨target, ⟨version, by rw [hline, not_not.1 hmethod]⟩,
                      hexpected ▸ hhost, hexpected ▸ haddress, not_not.1 hpath⟩
  · rintro ⟨target, ⟨version, hline⟩, hhost, haddress, hpath⟩
    simp only [parseCallbackRequest, hline, hhost, haddress, hpath, ne_eq, not_true_eq_false,
      if_false, List.length_singleton]

/-- The host of the head is the one that the code finds. -/
theorem hostOf_of_takeWhile {lines : List Str} {p : Str → Bool} {host : Str}
    (h : hostOf (lines.takeWhile p) = some host) : hostOf lines = some host := by
  rw [← List.takeWhile_append_dropWhile (p := p) (l := lines)]
  unfold hostOf at h ⊢
  rw [List.findSome?_append, h]
  rfl

/-- The code takes the connection for the callback. -/
def Taken (login : Login) (connection : Connection) (url : Url) : Prop :=
  connection.loopback = true ∧ ∃ request target,
    readRequest connection.ending [] connection.chunks = .ok request ∧
      login.Requests (splitCrlf request).tail request target url ∧ login.HasParams url

/-- What the code takes for the callback is the callback or a disguise of it. -/
theorem Taken.authentic_or_disguised (h : login.Taken connection url)
    (hanswers : login.Answers url) :
    login.Authentic connection url ∨ login.Disguised connection := by
  obtain ⟨hloopback, request, target, hread, hrequests, hparams⟩ := h
  by_cases htarget : ['/'] <+: target
  · cases hhead : hostOf (headerLines request) with
    | none =>
      exact .inr ⟨hloopback, request, target, url, hread, hrequests, hparams, hanswers, .inl hhead⟩
    | some host =>
      have hsame := hostOf_of_takeWhile hhead
      rw [hrequests.host] at hsame
      exact .inl ⟨hloopback, ⟨request, target, hread, ⟨hrequests.method, hhead.trans hsame.symm,
        hrequests.address, hrequests.path⟩, htarget⟩, hparams⟩
  · exact .inr ⟨hloopback, request, target, url, hread, hrequests, hparams, hanswers, .inr htarget⟩

/-- A disguise is not authentic. -/
theorem Disguised.not_authentic (h : login.Disguised connection) (url : Url) :
    ¬ login.Authentic connection url := by
  rintro ⟨-, ⟨request, target, hread, hrequests, htarget⟩, -⟩
  obtain ⟨-, request', target', url', hread', hrequests', -, -, hdisguise⟩ := h
  rw [hread] at hread'
  cases hread'
  rcases hdisguise with hnone | hnot
  · rw [hrequests.host] at hnone
    cases hnone
  · obtain ⟨version, hline⟩ := hrequests.method
    obtain ⟨version', hline'⟩ := hrequests'.method
    rw [hline] at hline'
    cases hline'
    exact hnot htarget

/-! ### One round -/

theorem serve_of_not_responds (h : connection.responds = false) :
    login.serve (.accepted connection) = some (.error .io) := by
  have hrespond (after : Option Outcome) : respond connection after = some (.error .io) := by
    rw [respond, h]
    rfl
  rw [serve]
  split
  · exact hrespond _
  · split
    · exact hrespond _
    · split
      · exact hrespond _
      · split
        · exact hrespond _
        · split
          · exact hrespond _
          · split <;> exact hrespond _

/-- When the response can be written, the session ends as the parameters of a taken connection
tell. -/
theorem serve_eq_some (h : connection.responds = true) {outcome : Outcome} :
    login.serve (.accepted connection) = some outcome ↔ ∃ url, login.Taken connection url ∧
      ((∃ error, url.get "error" = some error ∧
          outcome = .error (.authorizationRejected (error.take 128))) ∨
        (url.get "error" = none ∧ ∃ result, login.result url = some result ∧
          outcome = .ok result)) := by
  have hrespond (after : Option Outcome) : respond connection after = after := by
    rw [respond, h]
    rfl
  simp only [serve, hrespond]
  constructor
  · intro hserve
    split at hserve
    · cases hserve
    · next hloopback =>
      split at hserve
      · cases hserve
      · next request hread =>
        split at hserve
        · cases hserve
        · next url hparse =>
          split at hserve
          · cases hserve
          · next haccepts =>
            obtain ⟨target, hrequests⟩ := parseCallbackRequest_eq_ok.1 hparse
            have htaken : login.Taken connection url :=
              ⟨by simpa using hloopback, request, target, hread, hrequests,
                accepts_iff.1 (by simpa using haccepts)⟩
            refine ⟨url, htaken, ?_⟩
            split at hserve
            · next error herror =>
              exact .inl ⟨error, herror, (Option.some.inj hserve).symm⟩
            · next hnone =>
              split at hserve
              · next result hresult =>
                exact .inr ⟨hnone, result, hresult, (Option.some.inj hserve).symm⟩
              · cases hserve
  · rintro ⟨url, ⟨hloopback, request, target, hread, hrequests, hparams⟩, hend⟩
    have hparse := parseCallbackRequest_eq_ok.2 ⟨target, hrequests⟩
    simp only [hloopback, hread, hparse, accepts_iff.2 hparams, Bool.not_true, Bool.false_eq_true,
      if_false]
    rcases hend with ⟨error, herror, rfl⟩ | ⟨hnone, result, hresult, rfl⟩
    · rw [herror]
    · rw [hnone, hresult]

/-- A taken connection that answers ends the session. -/
theorem exists_serve (h : login.Taken connection url) (hanswers : login.Answers url) :
    ∃ outcome, login.serve (.accepted connection) = some outcome := by
  cases hresponds : connection.responds with
  | false => exact ⟨_, serve_of_not_responds hresponds⟩
  | true =>
    cases herror : url.get "error" with
    | some error => exact ⟨_, (serve_eq_some hresponds).2 ⟨url, h, .inl ⟨error, herror, rfl⟩⟩⟩
    | none =>
      have hresult : (login.result url).isSome := by
        rcases hanswers with herror' | hresult
        · rw [herror] at herror'
          cases herror'
        · exact hresult
      obtain ⟨result, hresult⟩ := Option.isSome_iff_exists.1 hresult
      exact ⟨_, (serve_eq_some hresponds).2 ⟨url, h, .inr ⟨herror, result, hresult, rfl⟩⟩⟩

/-- What a taken connection tells makes the end legitimate when the connection is authentic. -/
theorem legitimate_of_authentic (hauthentic : login.Authentic connection url)
    {outcome : Outcome}
    (h : (∃ error, url.get "error" = some error ∧
        outcome = .error (.authorizationRejected (error.take 128))) ∨
      (url.get "error" = none ∧ ∃ result, login.result url = some result ∧ outcome = .ok result)) :
    login.Legitimate (.accepted connection) outcome := by
  refine ⟨connection, url, rfl, hauthentic, ?_⟩
  rcases h with ⟨error, herror, rfl⟩ | ⟨-, ⟨key, value⟩, hresult, rfl⟩
  · exact ⟨error, herror, rfl⟩
  · exact of_result hresult

theorem answers_of_end {outcome : Outcome}
    (h : (∃ error, url.get "error" = some error ∧
        outcome = .error (.authorizationRejected (error.take 128))) ∨
      (url.get "error" = none ∧ ∃ result, login.result url = some result ∧ outcome = .ok result)) :
    login.Answers url := by
  rcases h with ⟨error, herror, -⟩ | ⟨-, result, hresult, -⟩
  · exact .inl (by rw [herror]; rfl)
  · exact .inr (by rw [hresult]; rfl)

/-- A round ends the session only as it may if and only if the arrival is answerable. -/
theorem legitimate_iff (arrival : Arrival) :
    (∀ outcome, login.serve arrival = some outcome → login.Legitimate arrival outcome) ↔
      login.Answerable arrival := by
  cases arrival with
  | failed =>
    refine ⟨fun h => ?_, fun h => h.elim⟩
    obtain ⟨connection, url, heq, -⟩ := h (.error .io) rfl
    cases heq
  | accepted connection =>
    constructor
    · intro h
      cases hresponds : connection.responds with
      | false =>
        -- the session fails on the response, so the connection must be the callback
        obtain ⟨connection', url, heq, hauthentic, hanswers⟩ :=
          h _ (serve_of_not_responds hresponds)
        cases heq
        exact .inl ⟨url, hauthentic, hanswers⟩
      | true =>
        refine .inr ⟨hresponds, fun hdisguised => ?_⟩
        obtain ⟨hloopback, request, target, url, hread, hrequests, hparams, hanswers, -⟩ :=
          id hdisguised
        obtain ⟨outcome, hserve⟩ := exists_serve ⟨hloopback, request, target, hread, hrequests,
          hparams⟩ hanswers
        obtain ⟨connection', url', heq, hauthentic, -⟩ := h outcome hserve
        cases heq
        exact hdisguised.not_authentic url' hauthentic
    · rintro (⟨url, hauthentic, hanswers⟩ | ⟨hresponds, hdisguised⟩) outcome hserve
      · cases hresponds : connection.responds with
        | false =>
          rw [serve_of_not_responds hresponds] at hserve
          cases hserve
          exact ⟨connection, url, rfl, hauthentic, hanswers⟩
        | true =>
          obtain ⟨url', htaken, hend⟩ := (serve_eq_some hresponds).1 hserve
          rcases htaken.authentic_or_disguised (answers_of_end hend) with hauthentic' | hdisguised
          · exact legitimate_of_authentic hauthentic' hend
          · exact absurd hauthentic (hdisguised.not_authentic url)
      · obtain ⟨url, htaken, hend⟩ := (serve_eq_some hresponds).1 hserve
        rcases htaken.authentic_or_disguised (answers_of_end hend) with hauthentic | hdisguised'
        · exact legitimate_of_authentic hauthentic hend
        · exact absurd hdisguised' hdisguised

/-! ### Runs of the listener -/

theorem wait_append_singleton {before : List Arrival} (h : login.waitForValidRequest before = none)
    (arrival : Arrival) :
    login.waitForValidRequest (before ++ [arrival]) = login.serve arrival := by
  unfold waitForValidRequest at h ⊢
  rw [List.findSome?_append, h, List.findSome?_singleton]
  rfl

/-- Whatever arrives, the session ends only through the callback of the login if and only if every
arrival that the listener comes to is the callback, or another connection that takes its answer and
is no disguise of the callback. -/
theorem secure_iff (login : Login) (arrivals : List Arrival) :
    login.Secure arrivals ↔ ∀ before arrival after, arrivals = before ++ arrival :: after →
      login.waitForValidRequest before = none → login.Answerable arrival := by
  constructor
  · intro h before arrival after heq hwait
    refine (legitimate_iff arrival).1 fun outcome hserve => ?_
    exact h before arrival after outcome heq hwait ((wait_append_singleton hwait _).trans hserve)
  · intro h before arrival after outcome heq hwait hend
    refine (legitimate_iff arrival).2 (h before arrival after heq hwait) outcome ?_
    rw [← hend, wait_append_singleton hwait]

/-- The listener of a login on Mastodon. -/
def sample : Login := ⟨fun _ => none, 49152, [("state", "expected-state")], ["code"]⟩

/-- A peer that breaks the connection before it has sent anything. -/
def brokenPeer : Connection := ⟨true, [], .failed, false⟩

theorem not_secure : ¬ ∀ (login : Login) (arrivals : List Arrival), login.Secure arrivals := by
  intro h
  obtain ⟨connection, url, heq, ⟨-, ⟨request, target, hread, -⟩, -⟩, -⟩ :=
    h sample [.accepted brokenPeer] [] (.accepted brokenPeer) [] (.error .io) rfl rfl rfl
  cases heq
  cases hread

end Login

end Awayuki.OAuth
