import Steda.Client.TaskContext
import Steda.Client.WorkerLoop
import Steda.Postgres.Double

/-!
# Spawn options

`normalize_spawn_options` checks the options of a submission and writes them as
the JSON that `steda.spawn_task` reads.  How a double is printed is a parameter.
-/

namespace Steda

open Postgres

/-! ## Options -/

/-- `Duration::as_secs_f64`: seconds and fraction are rounded before their sum. -/
def Duration.asSecsF64 (duration : Duration) : Binary64 :=
  .nearest (roundToDouble duration.seconds.toNat +
    roundToDouble (duration.nanoseconds.val / 1000000000))

/-- `RetryStrategy`. -/
inductive RetryStrategy
  | fixed (delay : Duration)
  | exponential (initialDelay : Duration) (factor : Binary64) (maxDelay : Option Duration)
  | none

/-- `CancellationPolicy`. -/
structure CancellationPolicy where
  maxDuration : Option Duration
  maxDelay : Option Duration

/-- `JsonObject`.  Every key occurs once. -/
structure JsonObject where
  fields : List (String × Json)
  distinct : (fields.map Prod.fst).Nodup

/-- `SpawnConfig`. -/
structure SpawnConfig where
  maxAttempts : Option UInt32
  retryStrategy : Option RetryStrategy
  headers : Option JsonObject
  cancellation : Option CancellationPolicy
  idempotencyKey : Option String

/-! ## Checks -/

/-- `MAX_TASK_NAME_BYTES`. -/
def maxTaskNameBytes : Nat := 1024

/-- `MAX_IDEMPOTENCY_KEY_BYTES`. -/
def maxIdempotencyKeyBytes : Nat := 1024

/-- `MAX_DATABASE_DELAY_SECONDS`. -/
def maxDatabaseDelaySeconds : Nat := i32Max

/-- `validate_task_name`. -/
def validateTaskName (name : String) : Except Error Unit :=
  if trimIsEmpty name then .error (.invalidOptions "task name must be provided")
  else if maxTaskNameBytes < name.utf8ByteSize then
    .error (.invalidOptions s!"task name must be at most {maxTaskNameBytes} bytes")
  else .ok ()

/-- `validate_retry_delay`. -/
def validateRetryDelay (delay : Duration) (label : String) : Except Error Unit :=
  if delay.asSecsF64.gt maxDatabaseDelaySeconds then
    .error (.invalidOptions s!"{label} must be at most {maxDatabaseDelaySeconds} seconds")
  else .ok ()

/-- `validate_retry_strategy`. -/
def validateRetryStrategy : RetryStrategy → Except Error Unit
  | .fixed delay => validateRetryDelay delay "retry delay"
  | .exponential initialDelay factor maxDelay => do
      validateRetryDelay initialDelay "retry initial delay"
      if !factor.isFinite || factor.le 0 then
        throw (.invalidOptions "retry factor must be finite and greater than zero")
      match maxDelay with
      | some maxDelay => validateRetryDelay maxDelay "retry maximum delay"
      | none => pure ()
  | .none => .ok ()

/-- The check of an idempotency key. -/
def validateIdempotencyKey (key : String) : Except Error Unit :=
  if trimIsEmpty key then .error (.invalidOptions "idempotency_key must not be empty")
  else if maxIdempotencyKeyBytes < key.utf8ByteSize then
    .error (.invalidOptions s!"idempotency_key must be at most {maxIdempotencyKeyBytes} bytes")
  else .ok ()

/-- `validate_spawn_options`. -/
def validateSpawnOptions (options : SpawnConfig) : Except Error Unit := do
  if options.maxAttempts = some 0 then
    throw (.invalidOptions "max_attempts must be at least 1")
  match options.retryStrategy with
  | some strategy => validateRetryStrategy strategy
  | none => pure ()
  match options.idempotencyKey with
  | some key => validateIdempotencyKey key
  | none => pure ()

/-! ## Conversions -/

/-- `database_positive_i32`. -/
def databasePositiveI32 (value : UInt32) (label : String) : Except Error Nat :=
  if value = 0 then .error (.invalidOptions s!"{label} must be at least 1")
  else
    match i32TryFrom value.toNat with
    | some value => .ok value
    | none => .error (.invalidOptions s!"{label} must be at most {i32Max}")

/-- `duration_seconds_i64`. -/
def durationSecondsI64 (duration : Duration) (label : String) : Except Error Nat :=
  let seconds := duration.seconds.toNat + if 0 < duration.nanoseconds.val then 1 else 0
  if seconds < 2 ^ 64 then
    if seconds ≤ maxBigint then .ok seconds
    else
      .error (.invalidOptions s!"{label} must round to at most {maxBigint} seconds")
  else .error (.invalidOptions s!"{label} is too large to represent")

/-- `json!` on an integer. -/
def jsonInteger (value : Nat) : Json := .number (.ofInt value)

/-- `json!` on a double.  JSON has neither NaN nor infinities. -/
def jsonDouble (print : Double → Numeric) : Binary64 → Json
  | .finite double => .number (print double)
  | .nan | .infinite _ => .null

/-- The field of a map that is inserted when its value is given. -/
def inserted (key : String) (value : Option Json) : List (String × Json) :=
  (value.map fun value => (key, value)).toList

/-- `retry_strategy_json`. -/
def retryStrategyJson (print : Double → Numeric) (strategy : RetryStrategy) :
    Except Error Json := do
  validateRetryStrategy strategy
  return match strategy with
    | .fixed delay =>
        .object [("kind", .string "fixed"), ("baseSeconds", jsonDouble print delay.asSecsF64)]
    | .exponential initialDelay factor maxDelay =>
        .object ([("kind", .string "exponential"),
          ("baseSeconds", jsonDouble print initialDelay.asSecsF64),
          ("factor", jsonDouble print factor)] ++
            inserted "maxSeconds" (maxDelay.map fun delay => jsonDouble print delay.asSecsF64))
    | .none => .object [("kind", .string "none")]

/-- The fields of a cancellation policy. -/
def cancellationFields (cancellation : CancellationPolicy) :
    Except Error (List (String × Json)) := do
  let maxDuration ← cancellation.maxDuration.mapM fun duration =>
    durationSecondsI64 duration "cancellation max_duration"
  let maxDelay ← cancellation.maxDelay.mapM fun duration =>
    durationSecondsI64 duration "cancellation max_delay"
  return inserted "maxDuration" (maxDuration.map jsonInteger) ++
    inserted "maxDelay" (maxDelay.map jsonInteger)

/-- An object, unless it has no fields. -/
def nonemptyObject : List (String × Json) → Option Json
  | [] => none
  | fields => some (.object fields)

/-- `normalize_spawn_options`. -/
def normalizeSpawnOptions (print : Double → Numeric) (options : SpawnConfig) :
    Except Error (List (String × Json)) := do
  validateSpawnOptions options
  let headers := options.headers.bind fun headers => nonemptyObject headers.fields
  let maxAttempts ← options.maxAttempts.mapM fun maxAttempts =>
    databasePositiveI32 maxAttempts "max_attempts"
  let retryStrategy ← options.retryStrategy.mapM (retryStrategyJson print)
  let cancellation ← options.cancellation.mapM cancellationFields
  return inserted "headers" headers ++ inserted "maxAttempts" (maxAttempts.map jsonInteger) ++
    inserted "retryStrategy" retryStrategy ++
    inserted "cancellation" (cancellation.bind nonemptyObject) ++
    inserted "idempotencyKey" (options.idempotencyKey.map Json.string)

end Steda
