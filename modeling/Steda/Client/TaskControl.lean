import Mathlib.Logic.Function.Basic
import Steda.Client.TaskHandle
import Steda.History

/-!
# Control of tasks

`TaskHandle::cancel` and `TaskHandle::retry`.  A call first checks that its
reference still names the task, and then acts in a transaction of its own; other
clients are served before, between and after the two.
-/

namespace Steda

open Postgres Transaction

/-! ## The two statements -/

/-- `Queue::ensure_task_ref` once the snapshot is fetched. -/
def ensureTaskRef (taskId : Uuid) : Except Error (Option TaskResultSnapshot) → Except Error Unit
  | .error error => .error error
  | .ok none => .error (.taskNotFound taskId)
  | .ok (some _) => .ok ()

/-- `Queue::cancel_task_with` once the database has answered. -/
def cancelTaskWith (queue : String) : Except SqlError Bool → Except Error Unit
  | .error error => .error (.database (error.received queue))
  | .ok _ => .ok ()

/-- `Queue::retry_task_with` once the database has answered. -/
def retryTaskWith (queue : String) : Except SqlError Uuid → Except Error Uuid
  | .error error => .error (.database (error.received queue))
  | .ok runId => .ok runId

/-- `TaskHandle::cancel` and `TaskHandle::retry`. -/
inductive ControlAction
  | cancel
  | retry
deriving DecidableEq

namespace ControlAction

/-- What a call returns. -/
@[reducible] def Result : ControlAction → Type
  | .cancel => Unit
  | .retry => Uuid

/-- The stored function a call acts by. -/
@[reducible] def operation (taskId : Uuid) : ControlAction → Operation
  | .cancel => .cancelTask taskId
  | .retry => .retryTask taskId

/-- What a call returns once the database has answered. -/
def received (queue : String) (taskId : Uuid) : (action : ControlAction) →
    Except SqlError (action.operation taskId).Result → Except Error action.Result
  | .cancel, outcome => cancelTaskWith queue outcome
  | .retry, outcome => retryTaskWith queue outcome

end ControlAction

/-! ## Calls -/

/-- How far a call has come. -/
inductive ControlPhase (Result : Type)
  | checking
  | acting
  | returned (result : Except Error Result)

/-- A call after its check. -/
def ControlPhase.checked {Result : Type} : Except Error Unit → ControlPhase Result
  | .error error => .returned (.error error)
  | .ok () => .acting

/-- A call of a handle, with the reference of the handle. -/
structure ControlCall where
  task : TaskRef
  action : ControlAction
  phase : ControlPhase action.Result

/-- A queue and the calls of handles on it. -/
structure ControlledQueue where
  world : World
  calls : Nat → Option ControlCall

/-- A step of a queue with handles. -/
inductive ControlEvent
  | served (call : Call)
  | began (id : Nat)
  | checked (id : Nat) (call : Call)
  | acted (id : Nat) (call : Call)
  | unheard (id : Nat) (call : Call)
  | unsent (id : Nat)

/-- The call the queue serves in a step. -/
def ControlEvent.served? : ControlEvent → Option Call
  | .served call | .checked _ call | .acted _ call | .unheard _ call => some call
  | .began _ | .unsent _ => none

namespace ControlledQueue

/-- A queue before any call. -/
def start (initial : World) : ControlledQueue where
  world := initial
  calls := fun _ => none

/-- The queue has served a call. -/
def withWorld (system : ControlledQueue) (world : World) : ControlledQueue :=
  { system with world := world }

/-- A new version of a call. -/
def withCall (system : ControlledQueue) (id : Nat) (call : ControlCall) : ControlledQueue :=
  { system with calls := Function.update system.calls id (some call) }

@[simp] theorem withWorld_world (system : ControlledQueue) (world : World) :
    (system.withWorld world).world = world := rfl

@[simp] theorem withWorld_calls (system : ControlledQueue) (world : World) :
    (system.withWorld world).calls = system.calls := rfl

@[simp] theorem withCall_world (system : ControlledQueue) (id : Nat) (call : ControlCall) :
    (system.withCall id call).world = system.world := rfl

@[simp] theorem withCall_calls (system : ControlledQueue) (id other : Nat) (call : ControlCall) :
    (system.withCall id call).calls other =
      if other = id then some call else system.calls other :=
  Function.update_apply _ _ _ _

end ControlledQueue

/-- A step of a queue with handles.  A call whose reply is lost, or whose future
is dropped while the database is at work, is unheard. -/
inductive ControlledQueue.Step (space : Char → Bool) (queue : String) :
    ControlledQueue → ControlEvent → ControlledQueue → Prop
  /-- The queue serves another client. -/
  | served {system : ControlledQueue} {call : Call} {world : World}
      (serves : Served space system.world call world) :
      Step space queue system (.served call) (system.withWorld world)
  /-- A handle of the queue is asked to act. -/
  | began {system : ControlledQueue} {id : Nat} {task : TaskRef} {action : ControlAction}
      (unused : system.calls id = none) (attached : task.queueName = queue) :
      Step space queue system (.began id)
        (system.withCall id { task := task, action := action, phase := .checking })
  /-- The database answers the check. -/
  | checked {system : ControlledQueue} {id : Nat} {task : TaskRef} {action : ControlAction}
      {outcome : Except SqlError (Option TaskResult)} {world : World}
      (isCall : system.calls id = some ⟨task, action, .checking⟩)
      (serves : Served space system.world ⟨.getTaskResult task.taskId, outcome⟩ world) :
      Step space queue system (.checked id ⟨.getTaskResult task.taskId, outcome⟩)
        ((system.withWorld world).withCall id
          { task := task, action := action,
            phase := .checked (ensureTaskRef task.taskId
              (fetchedSnapshot queue task.taskName task.taskId outcome)) })
  /-- The database answers the action. -/
  | acted {system : ControlledQueue} {id : Nat} {task : TaskRef} {action : ControlAction}
      {outcome : Except SqlError (action.operation task.taskId).Result} {world : World}
      (isCall : system.calls id = some ⟨task, action, .acting⟩)
      (serves : Served space system.world ⟨action.operation task.taskId, outcome⟩ world) :
      Step space queue system (.acted id ⟨action.operation task.taskId, outcome⟩)
        ((system.withWorld world).withCall id
          { task := task, action := action,
            phase := .returned (action.received queue task.taskId outcome) })
  /-- The database acts, and its answer is lost. -/
  | unheard {system : ControlledQueue} {id : Nat} {task : TaskRef} {action : ControlAction}
      {outcome : Except SqlError (action.operation task.taskId).Result} {world : World}
      (isCall : system.calls id = some ⟨task, action, .acting⟩)
      (serves : Served space system.world ⟨action.operation task.taskId, outcome⟩ world)
      (error : SqlxError) :
      Step space queue system (.unheard id ⟨action.operation task.taskId, outcome⟩)
        ((system.withWorld world).withCall id
          { task := task, action := action, phase := .returned (.error (.database error)) })
  /-- A statement does not reach the database. -/
  | unsent {system : ControlledQueue} {id : Nat} {task : TaskRef} {action : ControlAction}
      {phase : ControlPhase action.Result}
      (isCall : system.calls id = some ⟨task, action, phase⟩)
      (open_ : phase = .checking ∨ phase = .acting) (error : SqlxError) :
      Step space queue system (.unsent id)
        (system.withCall id
          { task := task, action := action, phase := .returned (.error (.database error)) })

/-- Steps of a queue with handles from an empty one. -/
structure ControlledQueue.Run (space : Char → Bool) (queue : String) (initial : World)
    (events : List ControlEvent) (final : ControlledQueue) : Prop where
  empty : ∃ cleanupTtl cleanupLimit, initial.store = Queue.empty cleanupTtl cleanupLimit
  fresh : Function.Injective initial.idents
  trace : Trace (ControlledQueue.Step space queue) (.start initial) events final

end Steda
