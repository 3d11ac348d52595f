import Awayuki.Outbox.Serial

/-!
# Compose outbox: the worker

The worker of `services/compose_outbox.rs`: at startup it recovers the rows of the last process,
then it claims rows and delivers them, up to four at a time.  A process may stop at any point, and
a query may fail at any point.

* `settle`: what `deliver` does with the result of a delivery;
* `System`: the table and, while the application runs, its deliveries;
* `WorkerStep`: everything that may happen next, with what is seen of it.
-/

namespace Awayuki.Outbox

/-! ### Providers and errors -/

inductive ServerKind
  | mastodon | paon | misskey | bluesky
  deriving DecidableEq, Repr

/-- The providers that recognise a post that they were sent before. -/
def ServerKind.idempotent : ServerKind → Bool
  | .mastodon | .paon | .bluesky => true
  | .misskey => false

inductive AppErrorCode
  | authenticationExpired | rateLimited | timeout | validation | databaseBusy
  | capabilityUnsupported | cancelled | ipcResponseLost | internal
  deriving DecidableEq, Repr

def AppErrorCode.messageKey : AppErrorCode → Str
  | .authenticationExpired => "errors.authentication_expired"
  | .rateLimited => "errors.rate_limited"
  | .timeout => "errors.timeout"
  | .validation => "errors.validation"
  | .databaseBusy => "errors.database_busy"
  | .capabilityUnsupported => "errors.capability_unsupported"
  | .cancelled => "errors.cancelled"
  | .ipcResponseLost => "errors.ipc_response_lost"
  | .internal => "errors.internal"

/-- `retry_is_unambiguous`: the provider has not accepted the post. -/
def AppErrorCode.unambiguous (code : AppErrorCode) : Bool :=
  code == .rateLimited || code == .databaseBusy

/-- `delivery_may_be_ambiguous`. -/
def AppErrorCode.ambiguous (code : AppErrorCode) : Bool := code == .timeout || code == .internal

/-- An error, with the `retryAfterSeconds` of its details. -/
structure AppError where
  code : AppErrorCode
  messageKey : Str
  retryAfterSeconds : Option ℕ
  deriving DecidableEq, Repr

inductive AdapterErrorCode
  | unauthorized | rateLimited | timeout | unsupported | invalidResponse | transport | internal
  deriving DecidableEq, Repr

structure AdapterError where
  code : AdapterErrorCode
  retryAfterSeconds : Option ℕ
  deriving DecidableEq, Repr

def AdapterErrorCode.appErrorCode : AdapterErrorCode → AppErrorCode
  | .unauthorized => .authenticationExpired
  | .rateLimited => .rateLimited
  | .timeout => .timeout
  | .unsupported => .capabilityUnsupported
  | .invalidResponse | .transport | .internal => .internal

/-- `AppError::from_adapter`. -/
def AppError.fromAdapter (source : AdapterError) : AppError where
  code := source.code.appErrorCode
  messageKey := source.code.appErrorCode.messageKey
  retryAfterSeconds := source.retryAfterSeconds

/-- Of the errors that a provider answers with, only rate limiting is unambiguous. -/
theorem AppError.unambiguous_fromAdapter {source : AdapterError} :
    (AppError.fromAdapter source).code.unambiguous = true ↔ source.code = .rateLimited := by
  obtain ⟨code, retryAfter⟩ := source
  cases code <;> simp [fromAdapter, AdapterErrorCode.appErrorCode, AppErrorCode.unambiguous]

/-! ### Settling a delivery -/

def MAX_AUTOMATIC_ATTEMPTS : ℕ := 6
def MAX_CONCURRENT_DELIVERIES : ℕ := 4

/-- `retry_delay`, in seconds. -/
def retryDelay (attempts : ℕ) (error : AppError) : ℕ :=
  match error.retryAfterSeconds with
  | some seconds => max 1 (min seconds 3600)
  | none =>
    match attempts with
    | 0 | 1 => 5
    | 2 => 15
    | 3 => 45
    | 4 => 120
    | _ => 300

/-- The posted status, as far as the outbox keeps it. -/
structure Posted where
  originalStatusId : Str
  serverDomain : Str
  deriving DecidableEq, Repr

/-- The formatting of a time in milliseconds that the code asks of `chrono`. -/
class Chrono where
  rfc3339 : ℕ → Str

/-- Does `deliver` put the row back into the queue? -/
def shouldRetry (idempotentProvider : Bool) (attempts : ℕ) (code : AppErrorCode) : Bool :=
  attempts < MAX_AUTOMATIC_ATTEMPTS &&
    (code.unambiguous || idempotentProvider && code.ambiguous)

/-- The end of `deliver`: the row is marked by the result. -/
def settle [Chrono] (t : Table) (idempotentProvider : Bool) (row : ComposeOutboxRow)
    (result : Except AppError Posted) (clock : ℕ) : Table :=
  let timestamp := Chrono.rfc3339 clock
  match result with
  | .ok posted =>
    (t.markSucceeded row.id posted.originalStatusId posted.serverDomain timestamp).2
  | .error error =>
    if shouldRetry idempotentProvider row.attempts error.code then
      let nextAttemptAt := Chrono.rfc3339 (clock + 1000 * retryDelay row.attempts error)
      (t.markRetrying row.id error.messageKey nextAttemptAt timestamp).2
    else if error.code.ambiguous && !idempotentProvider then
      (t.markUncertain row.id "errors.delivery_uncertain" timestamp).2
    else (t.markFailed row.id error.messageKey timestamp).2

/-! ### The system -/

/-- How far a delivery has come.  Once the session has been looked up, it knows whether the
provider is idempotent. -/
inductive Stage
  | claimed
  | preparing (idempotentProvider : Bool)
  | handedOver (idempotentProvider accepted : Bool)
  | ended (idempotentProvider : Bool) (result : Except AppError Posted)

structure Delivery where
  row : ComposeOutboxRow
  stage : Stage

/-- What the worker is doing. -/
inductive Phase
  | starting
  | recovered
  | resuming (rows : List ComposeOutboxRow)
  | working
  | stopped

structure Process where
  phase : Phase
  deliveries : List Delivery

/-- `process` is `none` while the application does not run. -/
structure System where
  table : Table
  process : Option Process

def System.init : System := ⟨.empty, none⟩

/-- What may happen.  The flag of `handOver` is whether the provider accepts the post. -/
inductive Event
  | enqueue (loginAccounts : List Str) (id : Str) (operationKind : OperationKind)
      (actingAccountAcct payloadJson now : Str)
  | retry (id now : Str)
  | cancel (id now : Str)
  | start
  | recoverInterrupted (now : Str) (persisted : Bool)
  | list (read : Bool)
  | resume (id : Str) (signedIn : Bool) (now : Str) (persisted : Bool)
  | work
  | claim (row : ComposeOutboxRow) (now : Str)
  | lookUp (id : Str) (signedIn : Bool)
  | fail (id : Str) (error : AppError)
  | handOver (id : Str) (accepted : Bool)
  | answer (id : Str) (result : Except AdapterError Posted)
  | edit (id : Str) (result : Except AppError Posted)
  | settle (id : Str) (clock : ℕ) (persisted : Bool)
  | stop
  | crash

/-- The session of an account, if it is signed in, is idempotent as its provider is. -/
def idempotentSession (serverKind : Str → ServerKind) (acct : Str) (signedIn : Bool) : Bool :=
  signedIn && (serverKind acct.trim).idempotent

/-- One step of the system, for accounts whose providers are of the given kinds.  An adapter
reports rate limiting only for a post that the provider has rejected. -/
inductive WorkerStep [Chrono] (serverKind : Str → ServerKind) : System → Event → System → Prop
  | enqueue (t process loginAccounts id operationKind actingAccountAcct payloadJson now) :
      WorkerStep serverKind ⟨t, some process⟩
        (.enqueue loginAccounts id operationKind actingAccountAcct payloadJson now)
        ⟨t.apply (.enqueue loginAccounts id operationKind actingAccountAcct payloadJson now),
          some process⟩
  | retry (t process id now) :
      WorkerStep serverKind ⟨t, some process⟩ (.retry id now)
        ⟨t.apply (.retry id now), some process⟩
  | cancel (t process id now) :
      WorkerStep serverKind ⟨t, some process⟩ (.cancel id now)
        ⟨t.apply (.cancel id now), some process⟩
  | start (t) : WorkerStep serverKind ⟨t, none⟩ .start ⟨t, some ⟨.starting, []⟩⟩
  | recoverInterrupted (t deliveries now persisted) :
      WorkerStep serverKind ⟨t, some ⟨.starting, deliveries⟩⟩ (.recoverInterrupted now persisted)
        ⟨if persisted then t.recoverInterrupted now else t, some ⟨.recovered, deliveries⟩⟩
  | list (t deliveries read) :
      WorkerStep serverKind ⟨t, some ⟨.recovered, deliveries⟩⟩ (.list read)
        ⟨t, some ⟨.resuming (if read then t.list.filter recoverable else []), deliveries⟩⟩
  | resume (t row rows deliveries signedIn now persisted) :
      WorkerStep serverKind ⟨t, some ⟨.resuming (row :: rows), deliveries⟩⟩
        (.resume row.id signedIn now persisted)
        ⟨if persisted then
            resume (idempotentSession serverKind · signedIn) now t row
          else t, some ⟨.resuming rows, deliveries⟩⟩
  | work (t deliveries) :
      WorkerStep serverKind ⟨t, some ⟨.resuming [], deliveries⟩⟩ .work
        ⟨t, some ⟨.working, deliveries⟩⟩
  | claim (t deliveries row now) (room : deliveries.length < MAX_CONCURRENT_DELIVERIES)
      (due : t.hasDue now = true) (claimed : (t.claimNext now).1 = some row) :
      WorkerStep serverKind ⟨t, some ⟨.working, deliveries⟩⟩ (.claim row now)
        ⟨(t.claimNext now).2, some ⟨.working, deliveries ++ [⟨row, .claimed⟩]⟩⟩
  | lookUp (t before after row signedIn) :
      WorkerStep serverKind ⟨t, some ⟨.working, before ++ ⟨row, .claimed⟩ :: after⟩⟩
        (.lookUp row.id signedIn)
        ⟨t, some ⟨.working, before ++ ⟨row, .preparing
          (idempotentSession serverKind row.actingAccountAcct signedIn)⟩ :: after⟩⟩
  | fail (t before after row idempotentProvider error) :
      WorkerStep serverKind
        ⟨t, some ⟨.working, before ++ ⟨row, .preparing idempotentProvider⟩ :: after⟩⟩
        (.fail row.id error)
        ⟨t, some ⟨.working,
          before ++ ⟨row, .ended idempotentProvider (.error error)⟩ :: after⟩⟩
  | handOver (t before after row idempotentProvider accepted)
      (post : row.operationKind = .post) :
      WorkerStep serverKind
        ⟨t, some ⟨.working, before ++ ⟨row, .preparing idempotentProvider⟩ :: after⟩⟩
        (.handOver row.id accepted)
        ⟨t, some ⟨.working, before ++ ⟨row, .handedOver idempotentProvider accepted⟩ :: after⟩⟩
  | answer (t before after row idempotentProvider accepted result)
      (honest : ∀ error, result = .error error → error.code = .rateLimited → accepted = false) :
      WorkerStep serverKind
        ⟨t, some ⟨.working, before ++ ⟨row, .handedOver idempotentProvider accepted⟩ :: after⟩⟩
        (.answer row.id result)
        ⟨t, some ⟨.working, before ++ ⟨row, .ended idempotentProvider
          (result.mapError AppError.fromAdapter)⟩ :: after⟩⟩
  | edit (t before after row idempotentProvider result) (edit : row.operationKind = .edit) :
      WorkerStep serverKind
        ⟨t, some ⟨.working, before ++ ⟨row, .preparing idempotentProvider⟩ :: after⟩⟩
        (.edit row.id result)
        ⟨t, some ⟨.working, before ++ ⟨row, .ended idempotentProvider result⟩ :: after⟩⟩
  | settle (t before after row idempotentProvider result clock persisted) :
      WorkerStep serverKind
        ⟨t, some ⟨.working, before ++ ⟨row, .ended idempotentProvider result⟩ :: after⟩⟩
        (.settle row.id clock persisted)
        ⟨if persisted then settle t idempotentProvider row result clock else t,
          some ⟨.working, before ++ after⟩⟩
  | stop (t deliveries) :
      WorkerStep serverKind ⟨t, some ⟨.working, deliveries⟩⟩ .stop ⟨t, some ⟨.stopped, []⟩⟩
  | crash (t process) : WorkerStep serverKind ⟨t, some process⟩ .crash ⟨t, none⟩

end Awayuki.Outbox
