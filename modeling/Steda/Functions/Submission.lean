import Steda.Functions.Failure

/-!
# Task submission and result lookup

`validateSubmission` is the validation and normalization block of
`steda.spawn_task`; `spawnTask` inserts the normalized request or, when its
idempotency key is taken, compares it with the stored one.
-/

namespace Steda

open Postgres Transaction

/-- A normalized submission request. -/
structure Submission where
  name : String
  params : Json
  headers : Option Json
  retryStrategy : Json
  maxAttempts : Nat
  cancellation : Option Json
  idempotencyKey : Option String

/-- Keys of the spawn options. -/
def spawnOptionKeys : List String :=
  ["headers", "maxAttempts", "retryStrategy", "cancellation", "idempotencyKey"]

/-- Attempt budget of a request without one. -/
def defaultMaxAttempts : Nat := 5

/-- Absent, null and empty headers are stored as NULL. -/
def normalizeHeaders (options : Json) : Except SqlError (Option Json) :=
  match options.field? "headers" with
  | none | some .null | some (.object []) => .ok none
  | some (.object fields) => .ok (some (.object fields))
  | some _ => .error .headersNotObject

/-- The attempt budget of the options. -/
def normalizeMaxAttempts (options : Json) : Except SqlError Nat :=
  match options.field? "maxAttempts" with
  | none => .ok defaultMaxAttempts
  | some (.number value) =>
      if !value.isWhole ∨ value.ltInt 1 ∨ value.gtInt maxInteger then
        .error .maxAttemptsOutOfRange
      else .ok value.trunc.toNat
  | some _ => .error .maxAttemptsNotNumber

/-- The idempotency key of the options. -/
def idempotencyKeyOption (options : Json) : Except SqlError (Option String) :=
  match options.field? "idempotencyKey" with
  | none => .ok none
  | some (.string key) => .ok (some key)
  | some _ => .error .idempotencyKeyNotString

/-- Validation and normalization of a spawn request. -/
def validateSubmission (space : Char → Bool) (taskName : Option String)
    (params options : Option Json) : Except SqlError Submission := do
  let options := options.getD Json.emptyObject
  if !options.isObject then throw .optionsNotObject
  if let some key := unknownKey? options spawnOptionKeys then throw (.optionsUnknownKey key)
  match taskName with
  | none => throw .taskNameMissing
  | some name =>
      if isBlank space name then throw .taskNameMissing
      if maxNameBytes < name.utf8ByteSize then throw .taskNameTooLong
      let headers ← normalizeHeaders options
      let maxAttempts ← normalizeMaxAttempts options
      let cancellation ← validateCancellationPolicy (options.field? "cancellation")
      let idempotencyKey ← idempotencyKeyOption options
      let retryStrategy := (options.field? "retryStrategy").getD defaultRetryStrategy
      if let some key := idempotencyKey then
        if isBlank space key then throw .idempotencyKeyEmpty
        if maxNameBytes < key.utf8ByteSize then throw .idempotencyKeyTooLong
      let _ ← retryDelaySeconds retryStrategy 1
      return {
        name := name
        params := params.getD .null
        headers := headers
        retryStrategy := retryStrategy
        maxAttempts := maxAttempts
        cancellation := cancellation
        idempotencyKey := idempotencyKey }

/-- The task row of a new submission. -/
def Submission.taskRow (request : Submission) (taskId runId : Uuid) (nowAt : Timestamp) :
    TaskRow where
  id := taskId
  name := request.name
  params := request.params
  headers := request.headers
  retryStrategy := request.retryStrategy
  initialMaxAttempts := request.maxAttempts
  maxAttempts := request.maxAttempts
  cancellation := request.cancellation
  enqueueAt := nowAt
  firstStartedAt := none
  state := .pending
  attempts := 1
  lastAttemptRun := runId
  cancelledAt := none
  idempotencyKey := request.idempotencyKey

/-- The stored request of a task agrees with a new one in all compared
columns.  The budget is compared with `initial_max_attempts`. -/
def Submission.matches (request : Submission) (task : TaskRow) : Bool :=
  task.name == request.name && task.params.eqv request.params &&
    Json.eqvNullable task.headers request.headers &&
    task.retryStrategy.eqv request.retryStrategy &&
    task.initialMaxAttempts == request.maxAttempts &&
    Json.eqvNullable task.cancellation request.cancellation

/-- The row `spawn_task` returns. -/
structure SpawnResult where
  taskId : Uuid
  created : Bool
  deriving DecidableEq

/-- The lookup after a conflicting insert.  When no row holds the key any more
every compared column is NULL and differs from the request. -/
def compareExisting (request : Submission) (key : String) : Sql SpawnResult := do
  let visible ← snapshot
  match visible.findKey key with
  | none => .raise (.idempotencyConflict key)
  | some existing =>
      if request.matches existing then return { taskId := existing.id, created := false }
      else .raise (.idempotencyConflict key)

/-- `steda.spawn_task`. -/
def spawnTask (space : Char → Bool) (taskName : Option String)
    (params options : Option Json) : Sql SpawnResult := do
  let taskId ← uuidv7
  let runId ← uuidv7
  let nowAt ← currentTime
  let request ← Program.ofExcept (validateSubmission space taskName params options)
  if ← change (.insertTask (request.taskRow taskId runId nowAt)) then
    let _ ← change (.insertRun (RunRow.fresh runId taskId 1 .pending nowAt))
    return { taskId := taskId, created := true }
  else
    match request.idempotencyKey with
    | none => .raise .insertConflictWithoutKey
    | some key => compareExisting request key

/-- The row `get_task_result` returns. -/
structure TaskResult where
  taskName : String
  state : State
  result : Option Json
  failureReason : Option Json

/-- `steda.get_task_result`. -/
def getTaskResult (taskId : Uuid) : Sql (Option TaskResult) := do
  let visible ← snapshot
  return (visible.findTask taskId).map fun task =>
    let run := visible.findRun task.lastAttemptRun
    { taskName := task.name
      state := task.state
      result := if task.state = .completed then run.bind RunRow.result else none
      failureReason := if task.state = .failed then run.bind RunRow.failureReason else none }

end Steda
