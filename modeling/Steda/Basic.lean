import Mathlib.Order.Defs.LinearOrder
import Steda.Postgres.Json

/-!
# Identifiers, times, states, and the errors of the stored functions

Times are microsecond counts.  Every `RAISE EXCEPTION` of the modelled
functions is one constructor of `SqlError`, next to the errors PostgreSQL
raises on their behalf; `sqlstate` and `message` give the code and the text a
client sees.
-/

namespace Steda

open Postgres

/-! ## Fallible checks -/

/-- A check that raises under a condition passes when the condition fails. -/
theorem except_guard_ok {ε α : Type} {condition : Prop} [Decidable condition] {error : ε}
    {rest : Except ε α} {value : α} :
    (do if condition then throw error
        rest) = Except.ok value ↔ ¬condition ∧ rest = .ok value := by
  by_cases holds : condition <;>
    simp [holds, bind, Except.bind, throw, throwThe, MonadExceptOf.throw]

theorem except_last_guard_ok {ε : Type} {condition : Prop} [Decidable condition] {error : ε} :
    (if condition then throw error else pure () : Except ε Unit) = .ok () ↔ ¬condition := by
  by_cases holds : condition <;> simp [holds, pure, Except.pure, throw, throwThe,
    MonadExceptOf.throw]

/-- A check that raises under a condition fails with its own error or later. -/
theorem except_guard_error {ε α : Type} {condition : Prop} [Decidable condition]
    {error other : ε} {rest : Except ε α} :
    (do if condition then throw error
        rest) = Except.error other ↔
      (condition ∧ error = other) ∨ (¬condition ∧ rest = .error other) := by
  by_cases holds : condition <;>
    simp [holds, bind, Except.bind, throw, throwThe, MonadExceptOf.throw]

/-- Every error a computation may fail with meets a condition. -/
def OnlyRaises {ε α : Type} (allowed : ε → Prop) (outcome : Except ε α) : Prop :=
  ∀ error, outcome = .error error → allowed error

section OnlyRaises

variable {ε α β : Type} {allowed : ε → Prop}

theorem onlyRaises_ok (value : α) : OnlyRaises allowed (.ok value) := by
  intro error impossible
  cases impossible

theorem onlyRaises_error {error : ε} (allows : allowed error) :
    OnlyRaises allowed (.error error : Except ε α) := by
  intro other same
  cases same
  exact allows

theorem onlyRaises_guard {condition : Prop} [Decidable condition] {error : ε}
    {rest : Except ε α} (allows : allowed error) (later : OnlyRaises allowed rest) :
    OnlyRaises allowed (do if condition then throw error
                           rest) := by
  intro other failed
  rcases except_guard_error.mp failed with ⟨_, same⟩ | ⟨_, failedLater⟩
  · exact same ▸ allows
  · exact later other failedLater

theorem onlyRaises_bind {outcome : Except ε α} {next : α → Except ε β}
    (first : OnlyRaises allowed outcome)
    (later : ∀ value, outcome = .ok value → OnlyRaises allowed (next value)) :
    OnlyRaises allowed (outcome >>= next) := by
  cases outcome with
  | error error => exact onlyRaises_error (first error rfl)
  | ok value => exact later value rfl

end OnlyRaises

theorem except_bind_ok {ε α β : Type} {outcome : Except ε α} {next : α → Except ε β}
    {value : β} :
    (outcome >>= next) = .ok value ↔ ∃ middle, outcome = .ok middle ∧ next middle = .ok value := by
  cases outcome <;> simp [bind, Except.bind]

/-! ## Identifiers, times and states -/

/-- A point in time, in microseconds. -/
abbrev Timestamp := Int

/-- A `timestamptz` that a caller may give: a point in time, or `infinity`, which
is after all of them.  The clock reads points in time only, and `-infinity` is
never stored. -/
inductive Timestamptz
  | point (time : Timestamp)
  | infinity
  deriving DecidableEq

namespace Timestamptz

instance : Coe Timestamp Timestamptz := ⟨point⟩

/-- One `timestamptz` is not after another. -/
protected def le : Timestamptz → Timestamptz → Prop
  | point earlier, point later => earlier ≤ later
  | _, infinity => True
  | infinity, point _ => False

/-- One `timestamptz` is before another. -/
protected def lt : Timestamptz → Timestamptz → Prop
  | point earlier, point later => earlier < later
  | point _, infinity => True
  | infinity, _ => False

instance : LE Timestamptz := ⟨Timestamptz.le⟩

instance : LT Timestamptz := ⟨Timestamptz.lt⟩

instance decidableLE : DecidableLE Timestamptz
  | point earlier, point later => inferInstanceAs (Decidable (earlier ≤ later))
  | point _, infinity => isTrue trivial
  | infinity, infinity => isTrue trivial
  | infinity, point _ => isFalse id

instance decidableLT : DecidableLT Timestamptz
  | point earlier, point later => inferInstanceAs (Decidable (earlier < later))
  | point _, infinity => isTrue trivial
  | infinity, infinity => isFalse id
  | infinity, point _ => isFalse id

@[simp] theorem point_le_point {earlier later : Timestamp} :
    point earlier ≤ point later ↔ earlier ≤ later := Iff.rfl

@[simp] theorem point_lt_point {earlier later : Timestamp} :
    point earlier < point later ↔ earlier < later := Iff.rfl

@[simp] theorem le_infinity (time : Timestamptz) : time ≤ infinity := by
  cases time <;> trivial

@[simp] theorem point_lt_infinity (time : Timestamp) : point time < infinity := trivial

@[simp] theorem not_infinity_le (time : Timestamp) : ¬infinity ≤ point time := id

@[simp] theorem not_infinity_lt (time : Timestamptz) : ¬infinity < time := by
  cases time <;> exact id

instance : LinearOrder Timestamptz where
  le_refl time := by cases time <;> simp
  le_trans first second third := by
    cases first <;> cases second <;> cases third <;> simp
    exact le_trans
  le_antisymm first second := by
    cases first <;> cases second <;> simp
    exact le_antisymm
  le_total first second := by
    cases first <;> cases second <;> simp
    exact le_total _ _
  lt_iff_le_not_ge first second := by
    cases first <;> cases second <;> simp
    exact le_of_lt
  toDecidableLE := decidableLE
  toDecidableLT := decidableLT

end Timestamptz

/-- Microseconds per second. -/
def second : Int := 1000000

/-- Identifiers of tasks and runs, ordered as their bytes are. -/
abbrev Uuid := Nat

/-- Text of an identifier: 32 hexadecimal digits in five groups. -/
def Uuid.text (id : Uuid) : String :=
  let digits := Nat.toDigits 16 id
  let padded := List.replicate (32 - digits.length) '0' ++ digits
  let group (start length : Nat) := (padded.drop start).take length
  String.ofList <| group 0 8 ++ ['-'] ++ group 8 4 ++ ['-'] ++ group 12 4 ++ ['-'] ++
    group 16 4 ++ ['-'] ++ padded.drop 20

/-- States shared by tasks and runs. -/
inductive State
  | pending
  | running
  | sleeping
  | completed
  | failed
  | cancelled
  deriving DecidableEq, Repr

namespace State

/-- The states nothing leaves on its own: completed, failed, cancelled. -/
def terminal : State → Bool
  | .completed | .failed | .cancelled => true
  | _ => false

/-- The states of the one active run of a task. -/
def active : State → Bool
  | .pending | .running | .sleeping => true
  | _ => false

/-- The states a claim starts from. -/
def claimable : State → Bool
  | .pending | .sleeping => true
  | _ => false

theorem active_eq_not_terminal (state : State) : state.active = !state.terminal := by
  cases state <;> rfl

theorem active_of_claimable {state : State} (claimable : state.claimable) : state.active := by
  cases state <;> simp_all [State.claimable, active]

/-- The stored text of a state. -/
def text : State → String
  | .pending => "pending"
  | .running => "running"
  | .sleeping => "sleeping"
  | .completed => "completed"
  | .failed => "failed"
  | .cancelled => "cancelled"

end State

/-- Errors of the stored functions. -/
inductive SqlError
  | runNotFound (run : Uuid)
  | taskForRunNotFound (task run : Uuid)
  | taskCancelled
  | runAlreadyFailed (run : Uuid)
  | runNotRunning (run : Uuid)
  | notAuthoritativeAttempt (run task : Uuid)
  | noFiniteLease (run : Uuid)
  | leaseNotExpired (run : Uuid)
  | leaseExpired (run : Uuid)
  | taskNotFound (task : Uuid)
  | taskNotFailed (task : Uuid)
  | retryDeadlineElapsed (task : Uuid)
  | expiredRunNotAuthoritative (run task : Uuid)
  | renewForSecondsNotPositive
  | unsupportedSupervisionState (run : Uuid) (state : State)
  | runningRunNotAuthoritative (run task : Uuid)
  | noFiniteClaim (run : Uuid)
  | reapLimitNotPositive
  | cancelLimitNotPositive
  | workerIdMissing
  | leaseSecondsNotPositive
  | quantityNotPositive
  | taskNamesMissing
  | taskNamesBlank
  | checkpointNameMissing
  | checkpointNameTooLong
  | runNotOfTask (run task : Uuid)
  | checkpointDeadlineElapsed
  | optionsNotObject
  | optionsUnknownKey (key : String)
  | taskNameMissing
  | taskNameTooLong
  | headersNotObject
  | maxAttemptsNotNumber
  | maxAttemptsOutOfRange
  | idempotencyKeyNotString
  | idempotencyKeyEmpty
  | idempotencyKeyTooLong
  | insertConflictWithoutKey
  | idempotencyConflict (key : String)
  | cancellationNotObject
  | cancellationEmpty
  | cancellationUnknownKey (key : String)
  | cancellationNotNumber (key : String)
  | cancellationOutOfRange (key : String)
  | strategyNotObject
  | attemptTooSmall
  | kindNotString
  | kindMissing
  | noneUnknownKey (key : String)
  | fixedUnknownKey (key : String)
  | fixedRequiresBase
  | baseNotNumber
  | baseOutOfRange
  | exponentialUnknownKey (key : String)
  | exponentialRequiresBase
  | exponentialRequiresFactor
  | factorNotNumber
  | maxNotNumber
  | factorOutOfRange
  | maxOutOfRange
  | unsupportedKind (kind : String)
  | invalidNumber
  | invalidBigint (text : String)
  | bigintOutOfRange (text : String)
  | integerOutOfRange
  | unicodeNull
  | notNullViolation (column : String)
  | checkViolation (column : String)
  | uniqueViolation (constraint : String)
  | foreignKeyViolation (constraint : String)
  deriving DecidableEq

namespace SqlError

/-- The SQLSTATE of an error.  A plain `RAISE EXCEPTION` has `P0001`. -/
def sqlstate : SqlError → String
  | .taskCancelled | .checkpointDeadlineElapsed => "ST001"
  | .runAlreadyFailed _ => "ST002"
  | .leaseExpired _ => "ST003"
  | .idempotencyConflict _ => "ST004"
  | .invalidBigint _ => "22P02"
  | .bigintOutOfRange _ | .integerOutOfRange => "22003"
  | .unicodeNull => "22P05"
  | .notNullViolation _ => "23502"
  | .checkViolation _ => "23514"
  | .uniqueViolation _ => "23505"
  | .foreignKeyViolation _ => "23503"
  | _ => "P0001"

/-- The text of an error raised in the named queue. -/
def message (queue : String) : SqlError → String
  | .runNotFound run => s!"Run \"{run.text}\" not found in queue \"{queue}\""
  | .taskForRunNotFound task run =>
      s!"Task \"{task.text}\" for run \"{run.text}\" not found in queue \"{queue}\""
  | .taskCancelled => "Task has been cancelled"
  | .runAlreadyFailed run => s!"Run \"{run.text}\" has already failed in queue \"{queue}\""
  | .runNotRunning run => s!"Run \"{run.text}\" is not currently running in queue \"{queue}\""
  | .notAuthoritativeAttempt run task =>
      s!"Run \"{run.text}\" is not the authoritative running attempt for task \"{task.text}\" in queue \"{queue}\""
  | .noFiniteLease run =>
      s!"Running run \"{run.text}\" does not have a finite lease in queue \"{queue}\""
  | .leaseNotExpired run => s!"Lease for run \"{run.text}\" has not expired in queue \"{queue}\""
  | .leaseExpired run => s!"Lease for run \"{run.text}\" has expired in queue \"{queue}\""
  | .taskNotFound task => s!"Task \"{task.text}\" not found in queue \"{queue}\""
  | .taskNotFailed task => s!"Task \"{task.text}\" is not currently failed in queue \"{queue}\""
  | .retryDeadlineElapsed task =>
      s!"Task \"{task.text}\" cannot be retried in queue \"{queue}\": cancellation deadline has elapsed"
  | .expiredRunNotAuthoritative run task =>
      s!"Expired run \"{run.text}\" is not authoritative for task \"{task.text}\" in queue \"{queue}\""
  | .renewForSecondsNotPositive => "renew_for_seconds must be > 0 when provided"
  | .unsupportedSupervisionState run state =>
      s!"Run \"{run.text}\" has unsupported supervision state \"{state.text}\" in queue \"{queue}\""
  | .runningRunNotAuthoritative run task =>
      s!"Running run \"{run.text}\" is not authoritative for task \"{task.text}\" in queue \"{queue}\""
  | .noFiniteClaim run =>
      s!"Running run \"{run.text}\" does not have a finite claim in queue \"{queue}\""
  | .reapLimitNotPositive => "reap_limit must be > 0"
  | .cancelLimitNotPositive => "cancel_limit must be > 0"
  | .workerIdMissing => "worker_id must be provided"
  | .leaseSecondsNotPositive => "lease_seconds must be > 0"
  | .quantityNotPositive => "quantity must be > 0"
  | .taskNamesMissing => "task_names must contain at least one capability"
  | .taskNamesBlank => "task_names cannot contain empty capabilities"
  | .checkpointNameMissing => "checkpoint_name must be provided"
  | .checkpointNameTooLong => "checkpoint_name must be at most 1024 bytes"
  | .runNotOfTask run task =>
      s!"Run \"{run.text}\" does not belong to task \"{task.text}\" in queue \"{queue}\""
  | .checkpointDeadlineElapsed => "Task cancellation deadline has elapsed"
  | .optionsNotObject => "spawn options must be a JSON object"
  | .optionsUnknownKey key => s!"spawn options do not support key \"{key}\""
  | .taskNameMissing => "task_name must be provided"
  | .taskNameTooLong => "task_name must be at most 1024 bytes"
  | .headersNotObject => "headers must be a JSON object"
  | .maxAttemptsNotNumber => "maxAttempts must be a JSON integer"
  | .maxAttemptsOutOfRange => "maxAttempts must be an integer between 1 and 2147483647"
  | .idempotencyKeyNotString => "idempotencyKey must be a JSON string"
  | .idempotencyKeyEmpty => "idempotency_key must not be empty"
  | .idempotencyKeyTooLong => "idempotency_key must be at most 1024 bytes"
  | .insertConflictWithoutKey =>
      "Task insert unexpectedly conflicted without an idempotency key"
  | .idempotencyConflict key =>
      s!"Idempotency key \"{key}\" was already used for a different task request"
  | .cancellationNotObject => "cancellation policy must be a JSON object"
  | .cancellationEmpty => "cancellation policy must define maxDelay or maxDuration"
  | .cancellationUnknownKey key => s!"cancellation policy does not support key \"{key}\""
  | .cancellationNotNumber key => s!"cancellation {key} must be a whole number of seconds"
  | .cancellationOutOfRange key =>
      s!"cancellation {key} must be a whole number between 0 and 9223372036854775807 seconds"
  | .strategyNotObject => "retry strategy must be a JSON object"
  | .attemptTooSmall => "retry attempt must be at least 1"
  | .kindNotString => "retry strategy kind must be a string"
  | .kindMissing => "retry strategy kind must be provided"
  | .noneUnknownKey key => s!"retry strategy kind none does not support key \"{key}\""
  | .fixedUnknownKey key => s!"fixed retry strategy does not support key \"{key}\""
  | .fixedRequiresBase => "fixed retry strategy requires baseSeconds"
  | .baseNotNumber => "retry baseSeconds must be a JSON number"
  | .baseOutOfRange =>
      "retry baseSeconds must be finite and between 0 and 2147483647 seconds"
  | .exponentialUnknownKey key => s!"exponential retry strategy does not support key \"{key}\""
  | .exponentialRequiresBase => "exponential retry strategy requires baseSeconds"
  | .exponentialRequiresFactor => "exponential retry strategy requires factor"
  | .factorNotNumber => "retry factor must be a JSON number"
  | .maxNotNumber => "retry maxSeconds must be a JSON number"
  | .factorOutOfRange => "retry factor must be finite and greater than zero"
  | .maxOutOfRange =>
      "retry maxSeconds must be finite and between 0 and 2147483647 seconds"
  | .unsupportedKind kind => s!"unsupported retry strategy kind \"{kind}\""
  | .invalidNumber => "retry strategy contains an invalid number"
  | .invalidBigint text => s!"invalid input syntax for type bigint: \"{text}\""
  | .bigintOutOfRange text => s!"value \"{text}\" is out of range for type bigint"
  | .integerOutOfRange => "integer out of range"
  | .unicodeNull => "unsupported Unicode escape sequence"
  | .notNullViolation column =>
      s!"null value in column \"{column}\" violates not-null constraint"
  | .checkViolation column => s!"new row violates check constraint on \"{column}\""
  | .uniqueViolation constraint =>
      s!"duplicate key value violates unique constraint \"{constraint}\""
  | .foreignKeyViolation constraint =>
      s!"insert or update violates foreign key constraint \"{constraint}\""

end SqlError
end Steda
