import Steda.Client.Errors
import Steda.History
import Steda.Serde.Record

/-!
# The task context

`TaskContext::checkpoint` and `TaskContext::sleep_until_inner` on the clones of
one context: a lock for each checkpoint name, a cache of committed checkpoints,
and statements whose replies may be lost.  Contexts of other attempts, other
clients and the database take steps in between.
-/

namespace Steda

open Postgres Transaction

/-! ## Durable names -/

/-- The character property `White_Space`. -/
def isWhiteSpace (char : Char) : Bool :=
  let code := char.toNat
  (9 ≤ code && code ≤ 13) || code == 32 || code == 0x85 || code == 0xA0 || code == 0x1680 ||
    (0x2000 ≤ code && code ≤ 0x200A) || code == 0x2028 || code == 0x2029 || code == 0x202F ||
    code == 0x205F || code == 0x3000

/-- `trim().is_empty()`. -/
def trimIsEmpty (text : String) : Bool := text.toList.all isWhiteSpace

/-- `MAX_WORKFLOW_STORAGE_NAME_BYTES`. -/
def maxWorkflowStorageNameBytes : Nat := 1024

/-- `workflow_storage_name`. -/
def workflowStorageName (namespace_ name : String) : Except Error String :=
  if trimIsEmpty name then .error (.invalidOptions "workflow identity must not be empty")
  else
    let maximum := maxWorkflowStorageNameBytes - namespace_.utf8ByteSize
    if maximum < name.utf8ByteSize then
      .error (.invalidOptions s!"workflow identity must be at most {maximum} bytes")
    else .ok (namespace_ ++ name)

/-- `keyed_workflow_storage_name`. -/
def keyedWorkflowStorageName (namespace_ name key : String) : Except Error String :=
  if trimIsEmpty name then .error (.invalidOptions "workflow identity must not be empty")
  else if trimIsEmpty key then
    .error (.invalidOptions "workflow instance key must not be empty")
  else
    let identity := toString name.utf8ByteSize ++ ":" ++ name ++ key
    let maximum := maxWorkflowStorageNameBytes - namespace_.utf8ByteSize
    if maximum < identity.utf8ByteSize then
      .error (.invalidOptions s!"keyed workflow identity must be at most {maximum} bytes")
    else .ok (namespace_ ++ identity)

/-- What a checkpoint stands for. -/
inductive WorkflowIdentity
  | step (name : String)
  | keyedStep (name key : String)
  | taskWait (queue : String) (task : Uuid)

/-- The name a checkpoint is stored under. -/
def WorkflowIdentity.storageName : WorkflowIdentity → Except Error String
  | .step name => workflowStorageName "$step:" name
  | .keyedStep name key => keyedWorkflowStorageName "$step-keyed:" name key
  | .taskWait queue task => .ok ("$await-task:" ++ queue ++ ":" ++ task.text)

/-- The name the wake time of a sleep is stored under. -/
def sleepStorageName (name : String) : Except Error String := workflowStorageName "$sleep:" name

/-! ## Stored values -/

/-- The JSON of a serializable type, and the printing of the errors about other
values.  A value that has been encoded is decoded unchanged. -/
structure Codec (Output : Type) extends Serde.Printer where
  encode : Output → Except String Json
  decode : Json → Except String Output
  decode_encode : ∀ {value json}, encode value = .ok json → decode json = .ok value

/-- `serde_json::to_value`. -/
def Codec.toValue {Output : Type} (codec : Codec Output) (value : Output) : Except Error Json :=
  (codec.encode value).mapError Error.serialization

/-- `serde_json::from_value`. -/
def Codec.fromValue {Output : Type} (codec : Codec Output) (json : Json) :
    Except Error Output :=
  (codec.decode json).mapError Error.serialization

/-- The types of a workflow: the output of every checkpoint, and wake times. -/
structure Encoding (Output : String → Type) where
  output : ∀ name, Codec (Output name)
  wakeAt : Codec Timestamp

/-! ## Contexts -/

/-- `TaskContextInner`, up to what durable calls use. -/
structure TaskContext where
  taskId : Uuid
  runId : Uuid
  checkpointCache : String → Option Json
  checkpointLocks : String → Option Nat

namespace TaskContext

/-- The rows of a checkpoint listing as a map. -/
def cacheOf (rows : List (String × Json)) : String → Option Json :=
  rows.foldl (fun cache row => Function.update cache row.1 (some row.2)) fun _ => none

/-- `TaskContext::new` with the checkpoints the database has listed. -/
def new (taskId runId : Uuid) (rows : List (String × Json)) : TaskContext where
  taskId := taskId
  runId := runId
  checkpointCache := cacheOf rows
  checkpointLocks := fun _ => none

/-- `TaskContext::cache_checkpoint`. -/
def cacheCheckpoint (context : TaskContext) (name : String) (state : Json) : TaskContext :=
  { context with checkpointCache := Function.update context.checkpointCache name (some state) }

/-- The context after a call takes, keeps or drops the guard of a name. -/
def guard (context : TaskContext) (name : String) (call : Nat) (holds : Bool) : TaskContext :=
  { context with
    checkpointLocks := Function.update context.checkpointLocks name
      (if holds then some call
        else (context.checkpointLocks name).filter fun holder => holder != call) }

/-- The statement of `persist_checkpoint`. -/
def persistCheckpoint (context : TaskContext) (name : String) (value : Json) : Operation :=
  .setTaskCheckpointState context.taskId (some name) (some value) context.runId

/-- The statement of `schedule_run`. -/
def scheduleRun (context : TaskContext) (wakeAt : Timestamp) : Operation :=
  .scheduleRun context.runId (some wakeAt)

end TaskContext

/-! ## Calls -/

/-- A statement on its way to the database or back. -/
inductive Statement
  | sent (operation : Operation)
  | answered (call : Call)

/-- How far `checkpoint` has come. -/
inductive CheckpointPhase (Output : Type)
  | waiting
  | entered
  | executing
  | persisting (value : Output)
  | returned (result : Except Error Output)
  | dropped

/-- How far `sleep_until_inner` has come. -/
inductive SleepPhase
  | waiting
  | entered
  | persisting
  | scheduling (actualWakeAt : Timestamp)
  | returned (result : Except Error Unit)
  | dropped

/-- What a call does under its name. -/
inductive Work (Output : Type)
  | checkpoint (phase : CheckpointPhase Output)
  | sleep (wakeAt : Timestamp) (phase : SleepPhase)

/-- The call waits for the guard of its name. -/
def Work.waits {Output : Type} : Work Output → Bool
  | .checkpoint .waiting | .sleep _ .waiting => true
  | _ => false

/-- The call waits for the database. -/
def Work.awaits {Output : Type} : Work Output → Bool
  | .checkpoint (.persisting _) | .sleep _ .persisting | .sleep _ (.scheduling _) => true
  | _ => false

/-- The call holds the guard of its name. -/
def Work.holds {Output : Type} : Work Output → Bool
  | .checkpoint .entered | .checkpoint .executing | .sleep _ .entered => true
  | work => work.awaits

/-- The call after it took the guard. -/
def Work.enter {Output : Type} : Work Output → Work Output
  | .checkpoint _ => .checkpoint .entered
  | .sleep wakeAt _ => .sleep wakeAt .entered

/-- The call after it returned an error. -/
def Work.fail {Output : Type} (error : Error) : Work Output → Work Output
  | .checkpoint _ => .checkpoint (.returned (.error error))
  | .sleep wakeAt _ => .sleep wakeAt (.returned (.error error))

/-- The call after its future was dropped. -/
def Work.drop {Output : Type} : Work Output → Work Output
  | .checkpoint _ => .checkpoint .dropped
  | .sleep wakeAt _ => .sleep wakeAt .dropped

/-- A call of `checkpoint` or `sleep_until_inner` on a clone of a context, and
its last statement. -/
structure ContextCall (Output : String → Type) where
  context : Nat
  name : String
  work : Work (Output name)
  statement : Option Statement

/-- What a call does in one step.  `receive` stores a state in the cache. -/
inductive CallEvent
  | enter
  | replay
  | execute
  | fail
  | send
  | receive (state : Json)
  | finish

/-- The result of a call, from the answer of `schedule_run`. -/
def ScheduleOutcome.result : ScheduleOutcome → Except Error Unit
  | .ready => .ok ()
  | .suspended => .error .suspended
  | .cancelled => .error .cancelled

section Steps

variable {Output : String → Type}

/-- A step of a call on its context. -/
inductive ContextCall.Step (encoding : Encoding Output) (queue : String)
    (context : TaskContext) : ContextCall Output → CallEvent → ContextCall Output → Prop
  /-- `checkpoint_lock.lock().await` yields the guard. -/
  | enter {call : ContextCall Output} (waiting : call.work.waits = true)
      (free : context.checkpointLocks call.name = none) :
      Step encoding queue context call .enter { call with work := call.work.enter }
  /-- `checkpoint` finds its name in the cache. -/
  | replay {call : ContextCall Output} {state : Json}
      (entered : call.work = .checkpoint .entered)
      (cached : context.checkpointCache call.name = some state) :
      Step encoding queue context call .replay
        { call with
          work := .checkpoint (.returned ((encoding.output call.name).fromValue state)) }
  /-- `checkpoint` calls its body. -/
  | execute {call : ContextCall Output} (entered : call.work = .checkpoint .entered)
      (missing : context.checkpointCache call.name = none) :
      Step encoding queue context call .execute { call with work := .checkpoint .executing }
  /-- The body returns an error. -/
  | fail {call : ContextCall Output} (error : Error)
      (executing : call.work = .checkpoint .executing) :
      Step encoding queue context call .fail { call with work := call.work.fail error }
  /-- The value of the body is sent to the database. -/
  | persist {call : ContextCall Output} {value : Output call.name} {serialized : Json}
      (executing : call.work = .checkpoint .executing)
      (encoded : (encoding.output call.name).toValue value = .ok serialized) :
      Step encoding queue context call .send
        { call with
          work := .checkpoint (.persisting value)
          statement := some (.sent (context.persistCheckpoint call.name serialized)) }
  /-- The value of the body has no JSON. -/
  | unserializable {call : ContextCall Output} {value : Output call.name} {error : Error}
      (executing : call.work = .checkpoint .executing)
      (refused : (encoding.output call.name).toValue value = .error error) :
      Step encoding queue context call .finish { call with work := call.work.fail error }
  /-- `checkpoint` learns the committed state. -/
  | persisted {call : ContextCall Output} {value : Output call.name} {taskId runId : Uuid}
      {name : Option String} {serialized : Option Json} {result : CheckpointResult}
      {state : Json} (persisting : call.work = .checkpoint (.persisting value))
      (answered : call.statement = some
        (.answered ⟨.setTaskCheckpointState taskId name serialized runId, .ok result⟩))
      (committed : result.checkpointState = some state) :
      Step encoding queue context call (.receive state)
        { call with
          work := .checkpoint (.returned
            (if result.written then .ok value
              else (encoding.output call.name).fromValue state)) }
  /-- `sleep_until_inner` finds its name in the cache. -/
  | replaySleep {call : ContextCall Output} {wakeAt actualWakeAt : Timestamp} {state : Json}
      (entered : call.work = .sleep wakeAt .entered)
      (cached : context.checkpointCache call.name = some state)
      (decoded : encoding.wakeAt.fromValue state = .ok actualWakeAt) :
      Step encoding queue context call .replay
        { call with
          work := .sleep wakeAt (.scheduling actualWakeAt)
          statement := some (.sent (context.scheduleRun actualWakeAt)) }
  /-- The cached wake time cannot be read. -/
  | unreadable {call : ContextCall Output} {wakeAt : Timestamp} {state : Json} {error : Error}
      (entered : call.work = .sleep wakeAt .entered)
      (cached : context.checkpointCache call.name = some state)
      (refused : encoding.wakeAt.fromValue state = .error error) :
      Step encoding queue context call .finish { call with work := call.work.fail error }
  /-- The requested wake time is sent to the database. -/
  | persistSleep {call : ContextCall Output} {wakeAt : Timestamp} {serialized : Json}
      (entered : call.work = .sleep wakeAt .entered)
      (missing : context.checkpointCache call.name = none)
      (encoded : encoding.wakeAt.toValue wakeAt = .ok serialized) :
      Step encoding queue context call .send
        { call with
          work := .sleep wakeAt .persisting
          statement := some (.sent (context.persistCheckpoint call.name serialized)) }
  /-- The requested wake time has no JSON. -/
  | unserializableSleep {call : ContextCall Output} {wakeAt : Timestamp} {error : Error}
      (entered : call.work = .sleep wakeAt .entered)
      (missing : context.checkpointCache call.name = none)
      (refused : encoding.wakeAt.toValue wakeAt = .error error) :
      Step encoding queue context call .finish { call with work := call.work.fail error }
  /-- `sleep_until_inner` learns the committed wake time. -/
  | persistedSleep {call : ContextCall Output} {wakeAt actualWakeAt : Timestamp}
      {taskId runId : Uuid} {name : Option String} {serialized : Option Json}
      {result : CheckpointResult} {state : Json}
      (persisting : call.work = .sleep wakeAt .persisting)
      (answered : call.statement = some
        (.answered ⟨.setTaskCheckpointState taskId name serialized runId, .ok result⟩))
      (committed : result.checkpointState = some state)
      (decoded : encoding.wakeAt.fromValue state = .ok actualWakeAt) :
      Step encoding queue context call (.receive state)
        { call with
          work := .sleep wakeAt (.scheduling actualWakeAt)
          statement := some (.sent (context.scheduleRun actualWakeAt)) }
  /-- The committed wake time cannot be read. -/
  | persistedUnreadable {call : ContextCall Output} {wakeAt : Timestamp}
      {taskId runId : Uuid} {name : Option String} {serialized : Option Json}
      {result : CheckpointResult} {state : Json} {error : Error}
      (persisting : call.work = .sleep wakeAt .persisting)
      (answered : call.statement = some
        (.answered ⟨.setTaskCheckpointState taskId name serialized runId, .ok result⟩))
      (committed : result.checkpointState = some state)
      (refused : encoding.wakeAt.fromValue state = .error error) :
      Step encoding queue context call (.receive state) { call with work := call.work.fail error }
  /-- The run has been scheduled. -/
  | scheduled {call : ContextCall Output} {wakeAt actualWakeAt : Timestamp} {runId : Uuid}
      {requested : Option Timestamptz} {outcome : ScheduleOutcome}
      (scheduling : call.work = .sleep wakeAt (.scheduling actualWakeAt))
      (answered : call.statement = some
        (.answered ⟨.scheduleRun runId requested, .ok outcome⟩)) :
      Step encoding queue context call .finish
        { call with work := .sleep wakeAt (.returned outcome.result) }
  /-- The database has refused the statement. -/
  | refused {call : ContextCall Output} {operation : Operation} {error : SqlError}
      (awaits : call.work.awaits = true)
      (answered : call.statement = some (.answered ⟨operation, .error error⟩)) :
      Step encoding queue context call .finish
        { call with work := call.work.fail (mapSqlxError (error.received queue)) }
  /-- The statement failed on its way, or its reply was lost. -/
  | lost {call : ContextCall Output} (error : SqlxError) (awaits : call.work.awaits = true) :
      Step encoding queue context call .finish
        { call with work := call.work.fail (mapSqlxError error) }
  /-- The call panics or its future is dropped. -/
  | drop {call : ContextCall Output} (live : call.work.waits = true ∨ call.work.holds = true) :
      Step encoding queue context call .finish { call with work := call.work.drop }

/-! ## The system -/

/-- A database with the contexts and calls of its clients. -/
structure Runtime (Output : String → Type) where
  world : World
  contexts : Nat → Option TaskContext
  calls : Nat → Option (ContextCall Output)

/-- A step of the system. -/
inductive RuntimeEvent
  | served (call : Call)
  | opened (context : Nat) (call : Call)
  | began (call : Nat)
  | moved (call : Nat) (event : CallEvent)
  | answered (id : Nat) (call : Call)

/-- The call the database serves in a step. -/
def RuntimeEvent.call? : RuntimeEvent → Option Call
  | .served call | .opened _ call | .answered _ call => some call
  | .began _ | .moved _ _ => none

/-- The cache after a step of a call. -/
def TaskContext.afterEvent (context : TaskContext) (name : String) : CallEvent → TaskContext
  | .receive state => context.cacheCheckpoint name state
  | _ => context

namespace Runtime

/-- The system with a new version of a context. -/
def withContext (runtime : Runtime Output) (index : Nat) (context : TaskContext) :
    Runtime Output :=
  { runtime with contexts := Function.update runtime.contexts index (some context) }

/-- The system with a new version of a call. -/
def withCall (runtime : Runtime Output) (id : Nat) (call : ContextCall Output) :
    Runtime Output :=
  { runtime with calls := Function.update runtime.calls id (some call) }

/-- The system after the database served a call. -/
def withWorld (runtime : Runtime Output) (world : World) : Runtime Output :=
  { runtime with world := world }

/-- The system after a call on a context went on. -/
def put (runtime : Runtime Output) (id : Nat) (context : TaskContext)
    (call : ContextCall Output) : Runtime Output :=
  (runtime.withContext call.context (context.guard call.name id call.work.holds)).withCall id call

@[simp] theorem withContext_contexts (runtime : Runtime Output) (index other : Nat)
    (context : TaskContext) : (runtime.withContext index context).contexts other =
      if other = index then some context else runtime.contexts other :=
  Function.update_apply _ _ _ _

@[simp] theorem withContext_calls (runtime : Runtime Output) (index : Nat)
    (context : TaskContext) : (runtime.withContext index context).calls = runtime.calls := rfl

@[simp] theorem withCall_calls (runtime : Runtime Output) (id other : Nat)
    (call : ContextCall Output) : (runtime.withCall id call).calls other =
      if other = id then some call else runtime.calls other :=
  Function.update_apply _ _ _ _

@[simp] theorem withCall_contexts (runtime : Runtime Output) (id : Nat)
    (call : ContextCall Output) : (runtime.withCall id call).contexts = runtime.contexts := rfl

@[simp] theorem withWorld_contexts (runtime : Runtime Output) (world : World) :
    (runtime.withWorld world).contexts = runtime.contexts := rfl

@[simp] theorem withWorld_calls (runtime : Runtime Output) (world : World) :
    (runtime.withWorld world).calls = runtime.calls := rfl

end Runtime

/-- A step of the system of one queue. -/
inductive Runtime.Step (space : Char → Bool) (encoding : Encoding Output) (queue : String) :
    Runtime Output → RuntimeEvent → Runtime Output → Prop
  /-- The database serves another client. -/
  | served {runtime : Runtime Output} {call : Call} {world : World}
      (serves : Served space runtime.world call world) :
      Step space encoding queue runtime (.served call) (runtime.withWorld world)
  /-- `TaskContext::new` for a claimed run. -/
  | opened {runtime : Runtime Output} {context : Nat} {taskId runId : Uuid}
      {rows : List (String × Json)} {world : World} (unused : runtime.contexts context = none)
      (serves : Served space runtime.world
        ⟨.getTaskCheckpointStates taskId runId, .ok rows⟩ world) :
      Step space encoding queue runtime
        (.opened context ⟨.getTaskCheckpointStates taskId runId, .ok rows⟩)
        ((runtime.withContext context (.new taskId runId rows)).withWorld world)
  /-- `step`, `step_keyed` or a task wait is called on a clone of a context. -/
  | began {runtime : Runtime Output} {id context : Nat} {identity : WorkflowIdentity}
      {name : String} (unused : runtime.calls id = none)
      (opened : (runtime.contexts context).isSome) (named : identity.storageName = .ok name) :
      Step space encoding queue runtime (.began id)
        (runtime.withCall id
          { context := context, name := name, work := .checkpoint .waiting,
            statement := none })
  /-- `sleep_until`, or `sleep_for` once its wake time is known, is called. -/
  | beganSleep {runtime : Runtime Output} {id context : Nat} {sleep name : String}
      {wakeAt : Timestamp} (unused : runtime.calls id = none)
      (opened : (runtime.contexts context).isSome) (named : sleepStorageName sleep = .ok name) :
      Step space encoding queue runtime (.began id)
        (runtime.withCall id
          { context := context, name := name, work := .sleep wakeAt .waiting,
            statement := none })
  /-- A call goes on. -/
  | moved {runtime : Runtime Output} {id : Nat} {context : TaskContext}
      {call next : ContextCall Output} {event : CallEvent} (isCall : runtime.calls id = some call)
      (isContext : runtime.contexts call.context = some context)
      (steps : ContextCall.Step encoding queue context call event next) :
      Step space encoding queue runtime (.moved id event)
        (runtime.put id (context.afterEvent call.name event) next)
  /-- The database serves the statement of a call, which may have given up. -/
  | answered {runtime : Runtime Output} {id : Nat} {call : ContextCall Output}
      {operation : Operation} {outcome : Except SqlError operation.Result} {world : World}
      (isCall : runtime.calls id = some call) (sent : call.statement = some (.sent operation))
      (serves : Served space runtime.world ⟨operation, outcome⟩ world) :
      Step space encoding queue runtime (.answered id ⟨operation, outcome⟩)
        ((runtime.withCall id
          { call with statement := some (.answered ⟨operation, outcome⟩) }).withWorld world)

/-- Steps of the system from an empty queue without contexts. -/
structure Runtime.Run (space : Char → Bool) (encoding : Encoding Output) (queue : String)
    (initial : World) (events : List RuntimeEvent) (final : Runtime Output) : Prop where
  empty : ∃ cleanupTtl cleanupLimit, initial.store = Queue.empty cleanupTtl cleanupLimit
  fresh : Function.Injective initial.idents
  trace : Trace (Runtime.Step space encoding queue)
    { world := initial, contexts := fun _ => none, calls := fun _ => none } events final

end Steps

end Steda
