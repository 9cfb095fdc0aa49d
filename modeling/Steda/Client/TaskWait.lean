import Mathlib.Logic.Equiv.Defs
import Steda.Client.TaskHandle

/-!
# Task waits

`TaskContext::await_task` on the contexts of one queue: the call polls a task of
another queue until it is terminal, decodes its output, and checkpoints the
output with the name of the task.  Other queues have worlds of their own, which
other clients move on.
-/

namespace Steda

open Postgres Transaction

/-! ## Wait checkpoints -/

/-- `TaskWaitCheckpoint`. -/
structure TaskWaitCheckpoint (Output : Type) where
  taskName : String
  output : Output

namespace TaskWaitCheckpoint

variable {Output : Type}

/-- `TaskWaitCheckpoint::serialize`. -/
def serialize (codec : Codec Output) (checkpoint : TaskWaitCheckpoint Output) :
    Except String Json := do
  let output ← codec.encode checkpoint.output
  return .object [("taskName", .string checkpoint.taskName), ("output", output)]

/-- `TaskWaitCheckpoint::deserialize`.  An optional output may be missing. -/
def deserialize (codec : Codec Output) (absent : Option Output) :
    Json → Except String (TaskWaitCheckpoint Output)
  | .object fields => do
      let output ← Serde.readField fields "output" codec.decode
      let taskName ← Serde.readField fields "taskName" (Serde.readString codec.toPrinter)
      let taskName ← Serde.required "taskName" none taskName
      let output ← Serde.required "output" absent output
      return { taskName := taskName, output := output }
  | .array [] => .error (Serde.tooShort 0 "TaskWaitCheckpoint" 2)
  | .array [taskName] => do
      let _ ← Serde.readString codec.toPrinter taskName
      throw (Serde.tooShort 1 "TaskWaitCheckpoint" 2)
  | .array (taskName :: output :: rest) => do
      let taskName ← Serde.readString codec.toPrinter taskName
      let output ← codec.decode output
      if rest.isEmpty then return { taskName := taskName, output := output }
      else throw (Serde.tooLong (rest.length + 2))
  | other => .error (Serde.invalidType codec.toPrinter other "struct TaskWaitCheckpoint")

/-- A wait checkpoint that has been encoded is decoded unchanged. -/
theorem deserialize_serialize {codec : Codec Output} (absent : Option Output)
    {checkpoint : TaskWaitCheckpoint Output} {json : Json}
    (serialized : serialize codec checkpoint = .ok json) :
    deserialize codec absent json = .ok checkpoint := by
  unfold serialize at serialized
  cases encoded : codec.encode checkpoint.output with
  | error text =>
      rw [encoded] at serialized
      cases serialized
  | ok output =>
      rw [encoded] at serialized
      obtain rfl := Except.ok.inj serialized
      have decoded := codec.decode_encode encoded
      simp only [deserialize, Serde.readField_cons_self,
        Serde.readField_cons_ne (show "output" ≠ "taskName" by decide), decoded,
        Serde.readString_string]
      rfl

/-- The JSON of wait checkpoints. -/
def codec (output : Codec Output) (absent : Option Output) :
    Codec (TaskWaitCheckpoint Output) where
  toPrinter := output.toPrinter
  encode := serialize output
  decode := deserialize output absent
  decode_encode := deserialize_serialize absent

end TaskWaitCheckpoint

/-! ## Waits -/

/-- The name the output of an awaited task is stored under. -/
def taskWaitName (queueName : String) (taskId : Uuid) : String :=
  "$await-task:" ++ queueName ++ ":" ++ taskId.text

/-- The first check of `await_task_ref`, and the name of its checkpoint. -/
def awaitName (queue : String) (task : TaskRef) : Except Error String :=
  if task.queueName = queue then
    .error (.invalidOptions
      ("TaskContext::await_task cannot wait on tasks in the same queue because this can " ++
        "deadlock workers. Spawn the child in a different queue."))
  else .ok (taskWaitName task.queueName task.taskId)

/-- The last check of `await_task_ref`. -/
def checkTaskName {Output : Type} (task : TaskRef) (checkpoint : TaskWaitCheckpoint Output) :
    Except Error Output :=
  if checkpoint.taskName = task.taskName then .ok checkpoint.output
  else .error (.taskNameMismatch task.taskId task.taskName checkpoint.taskName)

/-- How far the body of a wait has come.  It polls, or it has returned. -/
inductive WaitBody (Output : Type)
  | idle
  | polling (poller : Poller)
  | returned (result : Except Error (TaskWaitCheckpoint Output))

/-- The body of a wait after its loop went on. -/
def WaitBody.after {Output : Type} (codec : Codec Output) (taskName : String) :
    Poller → WaitBody Output
  | .waiting delay earliest => .polling (.waiting delay earliest)
  | .returned (.error error) => .returned (.error error)
  | .returned (.ok snapshot) =>
      .returned ((decodeResult codec snapshot).map fun output =>
        { taskName := taskName, output := output })

/-- A wait of a call: the arguments of `await_task_ref`, and its body. -/
structure TaskWait (Child : String → Uuid → Type) where
  task : TaskRef
  timeout : Option Nat
  body : WaitBody (Child task.queueName task.taskId)

section Network

variable {Output : String → Type} {Child : String → Uuid → Type}

/-- The output types of awaited tasks.  The checkpoints of waits are stored as
wait checkpoints are. -/
structure WaitEncoding (encoding : Encoding Output) (Child : String → Uuid → Type) where
  child : ∀ queueName taskId, Codec (Child queueName taskId)
  absent : ∀ queueName taskId, Option (Child queueName taskId)
  checkpoint : ∀ queueName taskId,
    TaskWaitCheckpoint (Child queueName taskId) ≃ Output (taskWaitName queueName taskId)
  encodes : ∀ queueName taskId checkpoint_,
    (encoding.output (taskWaitName queueName taskId)).encode
        (checkpoint queueName taskId checkpoint_) =
      TaskWaitCheckpoint.serialize (child queueName taskId) checkpoint_
  decodes : ∀ queueName taskId json,
    (encoding.output (taskWaitName queueName taskId)).decode json =
      (TaskWaitCheckpoint.deserialize (child queueName taskId) (absent queueName taskId) json).map
        (checkpoint queueName taskId)

variable {encoding : Encoding Output}

/-- What `checkpoint` does when the body of a wait is over. -/
inductive WaitBody.Settles (waiting : WaitEncoding encoding Child) {queueName : String}
    {taskId : Uuid} : WaitBody (Child queueName taskId) →
      CheckpointPhase (Output (taskWaitName queueName taskId)) → Prop
  | persisting (checkpoint : TaskWaitCheckpoint (Child queueName taskId)) :
      Settles waiting (.returned (.ok checkpoint))
        (.persisting (waiting.checkpoint queueName taskId checkpoint))
  | unserializable (checkpoint : TaskWaitCheckpoint (Child queueName taskId)) {error : Error}
      (refused : (encoding.output (taskWaitName queueName taskId)).toValue
        (waiting.checkpoint queueName taskId checkpoint) = .error error) :
      Settles waiting (.returned (.ok checkpoint)) (.returned (.error error))
  | failed (error : Error) : Settles waiting (.returned (.error error)) (.returned (.error error))
  | dropped (body : WaitBody (Child queueName taskId)) : Settles waiting body .dropped

/-! ## The system -/

/-- The contexts of one queue, the other queues, and the waits between them. -/
structure QueueNetwork (Output : String → Type) (Child : String → Uuid → Type) where
  own : Runtime Output
  others : String → World
  waits : Nat → Option (TaskWait Child)

/-- A step of the queues. -/
inductive NetworkEvent
  | own (event : RuntimeEvent)
  | other (queueName : String) (call : Call)
  | polled (id : Nat) (queueName : String) (call : Call)
  | unanswered (id : Nat)

/-- The step of the contexts in a step of the queues. -/
def NetworkEvent.own? : NetworkEvent → Option RuntimeEvent
  | .own event => some event
  | _ => none

/-- The call another queue serves in a step. -/
def NetworkEvent.served? (queueName : String) : NetworkEvent → Option Call
  | .other name call | .polled _ name call => if name = queueName then some call else none
  | _ => none

/-- A call writes a checkpoint under a name. -/
def Operation.Checkpoints (operation : Operation) (name : String) : Prop :=
  ∃ taskId state runId, operation = .setTaskCheckpointState taskId (some name) state runId

namespace QueueNetwork

/-- Queues without contexts. -/
def start (initial : World) (others : String → World) : QueueNetwork Output Child where
  own := { world := initial, contexts := fun _ => none, calls := fun _ => none }
  others := others
  waits := fun _ => none

/-- The queues after another one served a call. -/
def withOther (network : QueueNetwork Output Child) (queueName : String) (world : World) :
    QueueNetwork Output Child :=
  { network with others := Function.update network.others queueName world }

/-- The queues with a new version of a wait. -/
def withWait (network : QueueNetwork Output Child) (id : Nat) (wait : TaskWait Child) :
    QueueNetwork Output Child :=
  { network with waits := Function.update network.waits id (some wait) }

/-- The queues after the contexts went on. -/
def withOwn (network : QueueNetwork Output Child) (own : Runtime Output) :
    QueueNetwork Output Child :=
  { network with own := own }

@[simp] theorem withWait_waits (network : QueueNetwork Output Child) (id other : Nat)
    (wait : TaskWait Child) : (network.withWait id wait).waits other =
      if other = id then some wait else network.waits other :=
  Function.update_apply _ _ _ _

@[simp] theorem withWait_own (network : QueueNetwork Output Child) (id : Nat)
    (wait : TaskWait Child) : (network.withWait id wait).own = network.own := rfl

@[simp] theorem withOwn_waits (network : QueueNetwork Output Child) (own : Runtime Output) :
    (network.withOwn own).waits = network.waits := rfl

@[simp] theorem withOwn_own (network : QueueNetwork Output Child) (own : Runtime Output) :
    (network.withOwn own).own = own := rfl

/-- A step of the contexts that has nothing to do with the body of a wait.  Only
contexts write the checkpoints of waits. -/
def Apart (network : QueueNetwork Output Child) (after : Runtime Output) : RuntimeEvent → Prop
  | .served call => ∀ queueName taskId, ¬call.operation.Checkpoints (taskWaitName queueName taskId)
  | .began id => ∀ call, after.calls id = some call →
      ∀ queueName taskId, call.name ≠ taskWaitName queueName taskId
  | .moved id event => (network.waits id).isSome → event ≠ .execute ∧
      ∀ call, network.own.calls id = some call → call.work ≠ .checkpoint .executing
  | .opened _ _ | .answered _ _ => True

end QueueNetwork

/-- A step of the queues. -/
inductive QueueNetwork.Step (space : Char → Bool) (waiting : WaitEncoding encoding Child)
    (queue : String) :
    QueueNetwork Output Child → NetworkEvent → QueueNetwork Output Child → Prop
  /-- Another queue serves another client. -/
  | other {network : QueueNetwork Output Child} {queueName : String} {call : Call} {world : World}
      (different : queueName ≠ queue)
      (serves : Served space (network.others queueName) call world) :
      Step space waiting queue network (.other queueName call) (network.withOther queueName world)
  /-- The contexts go on, apart from the bodies of waits. -/
  | own {network : QueueNetwork Output Child} {event : RuntimeEvent} {after : Runtime Output}
      (steps : Runtime.Step space encoding queue network.own event after)
      (apart : network.Apart after event) :
      Step space waiting queue network (.own event) (network.withOwn after)
  /-- `await_task_ref` is called on a clone of a context. -/
  | began {network : QueueNetwork Output Child} {id context : Nat} {task : TaskRef}
      {timeout : Option Nat} (unused : network.own.calls id = none)
      (opened : (network.own.contexts context).isSome)
      (named : awaitName queue task = .ok (taskWaitName task.queueName task.taskId)) :
      Step space waiting queue network (.own (.began id))
        ((network.withOwn (network.own.withCall id
            { context := context, name := taskWaitName task.queueName task.taskId,
              work := .checkpoint .waiting, statement := none })).withWait id
          { task := task, timeout := timeout, body := .idle })
  /-- `checkpoint` calls the body of a wait. -/
  | executed {network : QueueNetwork Output Child} {id : Nat} {wait : TaskWait Child}
      {after : Runtime Output} (isWait : network.waits id = some wait)
      (steps : Runtime.Step space encoding queue network.own (.moved id .execute) after) :
      Step space waiting queue network (.own (.moved id .execute))
        ((network.withOwn after).withWait id { wait with body := .polling .start })
  /-- The queue of the awaited task answers a poll. -/
  | polled {network : QueueNetwork Output Child} {id index : Nat} {task : TaskRef}
      {timeout : Option Nat} {poller next : Poller} {statement : Option Statement}
      {outcome : Except SqlError (Option TaskResult)} {world : World} {elapsed : Nat}
      (isWait : network.waits id = some ⟨task, timeout, .polling poller⟩)
      (executing : network.own.calls id = some ⟨index, taskWaitName task.queueName task.taskId,
        .checkpoint .executing, statement⟩)
      (serves : Served space (network.others task.queueName)
        ⟨.getTaskResult task.taskId, outcome⟩ world)
      (steps : Poller.Step task.taskId timeout poller
        ⟨fetchedSnapshot task.queueName task.taskName task.taskId outcome, elapsed⟩ next) :
      Step space waiting queue network
        (.polled id task.queueName ⟨.getTaskResult task.taskId, outcome⟩)
        ((network.withOther task.queueName world).withWait id
          { task := task, timeout := timeout,
            body := .after (waiting.child task.queueName task.taskId) task.taskName next })
  /-- A poll fails on its way, or its reply is lost. -/
  | unanswered {network : QueueNetwork Output Child} {id index : Nat} {task : TaskRef}
      {timeout : Option Nat} {poller next : Poller} {statement : Option Statement}
      {error : SqlxError} {elapsed : Nat}
      (isWait : network.waits id = some ⟨task, timeout, .polling poller⟩)
      (executing : network.own.calls id = some ⟨index, taskWaitName task.queueName task.taskId,
        .checkpoint .executing, statement⟩)
      (steps : Poller.Step task.taskId timeout poller ⟨.error (.database error), elapsed⟩ next) :
      Step space waiting queue network (.unanswered id)
        (network.withWait id
          { task := task, timeout := timeout,
            body := .after (waiting.child task.queueName task.taskId) task.taskName next })
  /-- `checkpoint` learns what the body of a wait returned, or is dropped. -/
  | settled {network : QueueNetwork Output Child} {id index : Nat} {task : TaskRef}
      {timeout : Option Nat} {body : WaitBody (Child task.queueName task.taskId)}
      {phase : CheckpointPhase (Output (taskWaitName task.queueName task.taskId))}
      {statement later : Option Statement} {event : CallEvent} {after : Runtime Output}
      (isWait : network.waits id = some ⟨task, timeout, body⟩)
      (executing : network.own.calls id = some ⟨index, taskWaitName task.queueName task.taskId,
        .checkpoint .executing, statement⟩)
      (steps : Runtime.Step space encoding queue network.own (.moved id event) after)
      (isNext : after.calls id = some ⟨index, taskWaitName task.queueName task.taskId,
        .checkpoint phase, later⟩)
      (settles : body.Settles waiting phase) :
      Step space waiting queue network (.own (.moved id event)) (network.withOwn after)

/-- Steps of the queues from empty ones without contexts. -/
structure QueueNetwork.Run (space : Char → Bool) (waiting : WaitEncoding encoding Child)
    (queue : String) (initial : World) (others : String → World) (events : List NetworkEvent)
    (final : QueueNetwork Output Child) : Prop where
  empty : ∃ cleanupTtl cleanupLimit, initial.store = Queue.empty cleanupTtl cleanupLimit
  fresh : Function.Injective initial.idents
  othersEmpty : ∀ queueName, ∃ cleanupTtl cleanupLimit,
    (others queueName).store = Queue.empty cleanupTtl cleanupLimit
  othersFresh : ∀ queueName, Function.Injective (others queueName).idents
  trace : Trace (QueueNetwork.Step space waiting queue) (.start initial others) events final

end Network

end Steda
