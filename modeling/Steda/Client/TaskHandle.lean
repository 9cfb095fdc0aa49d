import Steda.Client.SpawnOptions
import Steda.Client.TaskResult
import Steda.QueueStorage
import Steda.Serde.Record

/-!
# References and results of tasks

`TaskRef` with its stored form, the typed decoding of a result snapshot, and
the polling loop that waits for a terminal one.
-/

namespace Steda

open Postgres

/-! ## References -/

/-- `TaskId`, of 128 bits. -/
abbrev TaskId := { id : Uuid // id < 2 ^ 128 }

/-- `validate_queue_name` of the client. -/
def Client.validateQueueName (queueName : String) : Except Error String :=
  if trimIsEmpty queueName then .error .missingQueueName
  else if maxQueueNameBytes < queueName.utf8ByteSize then
    .error (.queueNameTooLong queueName maxQueueNameBytes)
  else .ok queueName

/-- A validated name is returned as it is. -/
theorem Client.validateQueueName_ok {queueName validated : String}
    (accepted : Client.validateQueueName queueName = .ok validated) :
    Client.validateQueueName validated = .ok validated ∧ validated = queueName ∧
      validated.utf8ByteSize ≤ maxQueueNameBytes := by
  have same := accepted
  unfold Client.validateQueueName at same
  split at same
  · cases same
  · split at same
    · cases same
    · next short =>
        obtain rfl := Except.ok.inj same
        exact ⟨accepted, rfl, not_lt.mp short⟩

/-- `TaskRef`.  Every way to one validates both names. -/
structure TaskRef where
  queueName : String
  taskName : String
  taskId : TaskId
  queueNamed : Client.validateQueueName queueName = .ok queueName
  taskNamed : validateTaskName taskName = .ok ()

/-- `TaskRefWire`. -/
structure TaskRefWire where
  queueName : String
  taskName : String
  taskId : TaskId

/-- A parser of identifiers, which reads their own text back, and the printing of
the errors about other values. -/
structure UuidParser extends Serde.Printer where
  parse : String → Except String TaskId
  parse_text : ∀ id : TaskId, parse (Uuid.text id.val) = .ok id

/-- `TaskId::deserialize`. -/
def UuidParser.read (parser : UuidParser) : Json → Except String TaskId
  | .string text => parser.parse text
  | other => .error (Serde.invalidType parser.toPrinter other "a formatted UUID string")

/-- `TaskRefWire::serialize`. -/
def TaskRefWire.serialize (wire : TaskRefWire) : Json :=
  .object [("queueName", .string wire.queueName), ("taskName", .string wire.taskName),
    ("taskId", .string (Uuid.text wire.taskId.val))]

/-- `TaskRefWire::deserialize`.  The fields of an object are visited by name. -/
def TaskRefWire.deserialize (parser : UuidParser) : Json → Except String TaskRefWire
  | .object fields => do
      let queueName ← Serde.readField fields "queueName" (Serde.readString parser.toPrinter)
      let taskId ← Serde.readField fields "taskId" parser.read
      let taskName ← Serde.readField fields "taskName" (Serde.readString parser.toPrinter)
      let queueName ← Serde.required "queueName" none queueName
      let taskName ← Serde.required "taskName" none taskName
      let taskId ← Serde.required "taskId" none taskId
      return { queueName := queueName, taskName := taskName, taskId := taskId }
  | .array [] => .error (Serde.tooShort 0 "TaskRefWire" 3)
  | .array [queueName] => do
      let _ ← Serde.readString parser.toPrinter queueName
      throw (Serde.tooShort 1 "TaskRefWire" 3)
  | .array [queueName, taskName] => do
      let _ ← Serde.readString parser.toPrinter queueName
      let _ ← Serde.readString parser.toPrinter taskName
      throw (Serde.tooShort 2 "TaskRefWire" 3)
  | .array (queueName :: taskName :: taskId :: rest) => do
      let queueName ← Serde.readString parser.toPrinter queueName
      let taskName ← Serde.readString parser.toPrinter taskName
      let taskId ← parser.read taskId
      if rest.isEmpty then
        return { queueName := queueName, taskName := taskName, taskId := taskId }
      else throw (Serde.tooLong (rest.length + 3))
  | other => .error (Serde.invalidType parser.toPrinter other "struct TaskRefWire")

/-- `TaskRef::serialize`. -/
def TaskRef.serialize (reference : TaskRef) : Json :=
  TaskRefWire.serialize
    { queueName := reference.queueName, taskName := reference.taskName,
      taskId := reference.taskId }

/-- What `TaskRef::deserialize` fails with. -/
inductive TaskRefError
  | malformed (text : String)
  | invalid (error : Error)

/-- The checks of `TaskRef::deserialize`. -/
def TaskRefWire.validate (wire : TaskRefWire) : Except TaskRefError TaskRef :=
  match taskNamed : validateTaskName wire.taskName with
  | .error error => .error (.invalid error)
  | .ok () =>
      match queueNamed : Client.validateQueueName wire.queueName with
      | .error error => .error (.invalid error)
      | .ok queueName =>
          .ok
            { queueName := queueName, taskName := wire.taskName, taskId := wire.taskId,
              queueNamed := (Client.validateQueueName_ok queueNamed).1,
              taskNamed := taskNamed }

/-- `TaskRef::deserialize`. -/
def TaskRef.deserialize (parser : UuidParser) (json : Json) : Except TaskRefError TaskRef := do
  let wire ← (TaskRefWire.deserialize parser json).mapError TaskRefError.malformed
  wire.validate

/-! ## Results -/

/-- An error of the decoder as the client reports it. -/
def SnapshotError.toError : SnapshotError → Error
  | .taskNameMismatch taskId expected actual => .taskNameMismatch taskId expected actual
  | .completedWithoutResult taskId =>
      .other s!"completed task {Uuid.text taskId} has no persisted result"
  | .failedWithoutFailure taskId =>
      .other s!"failed task {Uuid.text taskId} has no persisted failure"

/-- `fetch_task_result_snapshot` once the database has answered. -/
def fetchedSnapshot (queue taskName : String) (taskId : Uuid) :
    Except SqlError (Option TaskResult) → Except Error (Option TaskResultSnapshot)
  | .error error => .error (.database (error.received queue))
  | .ok row => (fetchTaskResultSnapshot taskName taskId row).mapError SnapshotError.toError

/-- `TaskResultSnapshot::is_terminal`. -/
def TaskResultSnapshot.isTerminal : TaskResultSnapshot → Bool
  | .completed _ | .failed _ | .cancelled => true
  | _ => false

/-- `TaskSnapshot`. -/
inductive TaskSnapshot (Output : Type)
  | pending
  | running
  | sleeping
  | completed (result : Output)
  | failed (failure : Json)
  | cancelled

/-- `decode_snapshot`. -/
def decodeSnapshot {Output : Type} (codec : Codec Output) :
    TaskResultSnapshot → Except Error (TaskSnapshot Output)
  | .pending => .ok .pending
  | .running => .ok .running
  | .sleeping => .ok .sleeping
  | .completed result => (codec.fromValue result).map .completed
  | .failed failure => .ok (.failed failure)
  | .cancelled => .ok .cancelled

/-- `decode_result`. -/
def decodeResult {Output : Type} (codec : Codec Output) :
    TaskResultSnapshot → Except Error Output
  | .completed result => codec.fromValue result
  | .failed failure => .error (.taskFailed failure)
  | .cancelled => .error .cancelled
  | .pending | .running | .sleeping =>
      .error (.other "task result wait returned a non-terminal snapshot")

/-! ## Polling -/

/-- `INITIAL_RESULT_BACKOFF`, in nanoseconds. -/
def initialResultBackoff : Nat := 50000000

/-- `MAX_RESULT_BACKOFF`, in nanoseconds. -/
def maxResultBackoff : Nat := 1000000000

/-- What a turn of the loop of `await_task_result_snapshot` ends with: it
returns, or it sleeps and takes the next turn with another delay. -/
inductive PollTurn
  | finished (result : Except Error TaskResultSnapshot)
  | sleeping (duration delay : Nat)

/-- A turn of the loop of `await_task_result_snapshot`, from what the poll
fetched and the time elapsed by then. -/
def pollTurn (taskId : Uuid) (timeout : Option Nat) (delay : Nat)
    (fetched : Except Error (Option TaskResultSnapshot)) (elapsed : Nat) : PollTurn :=
  match fetched with
  | .error error => .finished (.error error)
  | .ok none => .finished (.error (.taskNotFound taskId))
  | .ok (some snapshot) =>
      if snapshot.isTerminal then .finished (.ok snapshot)
      else
        match timeout with
        | some timeout =>
            if timeout ≤ elapsed then
              .finished (.error
                (.timeout s!"timed out waiting for task {Uuid.text taskId}"))
            else
              let delay := min delay (timeout - elapsed)
              .sleeping delay (min (delay * 2) maxResultBackoff)
        | none => .sleeping delay (min (delay * 2) maxResultBackoff)

/-- The loop of `await_task_result_snapshot` between two turns.  It sleeps at
least until a time, or it has returned. -/
inductive Poller
  | waiting (delay earliest : Nat)
  | returned (result : Except Error TaskResultSnapshot)

/-- The loop before its first turn. -/
def Poller.start : Poller := .waiting initialResultBackoff 0

/-- The loop after a turn. -/
def PollTurn.next (elapsed : Nat) : PollTurn → Poller
  | .finished result => .returned result
  | .sleeping duration delay => .waiting delay (elapsed + duration)

/-- What a poll fetched, and the time elapsed by then. -/
structure Poll where
  fetched : Except Error (Option TaskResultSnapshot)
  elapsed : Nat

/-- The loop takes a turn once its sleep is over. -/
inductive Poller.Step (taskId : Uuid) (timeout : Option Nat) : Poller → Poll → Poller → Prop
  | turn {delay earliest : Nat} {poll : Poll} (slept : earliest ≤ poll.elapsed) :
      Step taskId timeout (.waiting delay earliest) poll
        ((pollTurn taskId timeout delay poll.fetched poll.elapsed).next poll.elapsed)

end Steda
