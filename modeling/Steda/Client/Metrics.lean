import Mathlib.Logic.Function.Basic
import Steda.Client.Execution

/-!
# Queue metrics

The counters of a queue handle, the guard that counts one attempt, and the
attempts of all workers of the handle.  Every attempt starts a guard when
`execute_task` is called and ends it once: it finishes it with an outcome, or it
returns or is dropped without one.
-/

namespace Steda

open Postgres Transaction

/-! ## Counters -/

/-- The counters of `QueueMetrics`. -/
inductive QueueCounter
  | claimedRuns
  | claimErrors
  | executions
  | completedExecutions
  | failedExecutions
  | leaseLostExecutions
  | cancelledExecutions
  | suspendedExecutions
  | unhandledExecutions
  | executionDurationNanoseconds
deriving DecidableEq

/-- `u64::MAX`. -/
def u64Max : Nat := 2 ^ 64 - 1

/-- `u64::try_from`, or the largest value. -/
def u64OrMax (value : Nat) : UInt64 :=
  UInt64.ofNat (min value u64Max)

/-- `u64::saturating_add`. -/
def saturatingAdd (left right : UInt64) : UInt64 :=
  u64OrMax (left.toNat + right.toNat)

/-- `QueueMetrics`. -/
abbrev QueueMetrics : Type := QueueCounter → UInt64

namespace QueueMetrics

/-- `QueueMetrics::new`. -/
def new : QueueMetrics := fun _ => 0

/-- `QueueMetrics::increment`. -/
def increment (metrics : QueueMetrics) (counter : QueueCounter) (value : UInt64) : QueueMetrics :=
  Function.update metrics counter (saturatingAdd (metrics counter) value)

/-- `QueueMetrics::record_claimed`. -/
def recordClaimed (metrics : QueueMetrics) (count : Nat) : QueueMetrics :=
  metrics.increment .claimedRuns (u64OrMax count)

/-- `QueueMetrics::record_claim_error`. -/
def recordClaimError (metrics : QueueMetrics) : QueueMetrics :=
  metrics.increment .claimErrors 1

end QueueMetrics

/-! ## The guard of an attempt -/

/-- `ExecutionOutcome`. -/
inductive ExecutionOutcome
  | completed
  | failed
  | leaseLost
  | cancelled
  | suspended
deriving DecidableEq

/-- How the guard of an attempt ends. -/
inductive GuardEnd
  | finished (outcome : ExecutionOutcome)
  | dropped
deriving DecidableEq

namespace ExecutionOutcome

/-- The counter of an outcome. -/
def counter : ExecutionOutcome → QueueCounter
  | .completed => .completedExecutions
  | .failed => .failedExecutions
  | .leaseLost => .leaseLostExecutions
  | .cancelled => .cancelledExecutions
  | .suspended => .suspendedExecutions

/-- `execution_outcome_from_supervision`, for a run that is not running. -/
def fromSupervision : RunSupervision → Option ExecutionOutcome
  | .running => none
  | .completed => some .completed
  | .failed => some .failed
  | .cancelled => some .cancelled
  | .suspended => some .suspended
  | .leaseLost => some .leaseLost

end ExecutionOutcome

/-- The counter of the way a guard ends. -/
def GuardEnd.counter : GuardEnd → QueueCounter
  | .finished outcome => outcome.counter
  | .dropped => .unhandledExecutions

/-- The increments of `TaskExecution::record` and of `TaskExecution::drop`, in
their order, with the elapsed time in nanoseconds. -/
def GuardEnd.increments (guardEnd : GuardEnd) (elapsed : Nat) : List (QueueCounter × UInt64) :=
  [(.executions, 1), (guardEnd.counter, 1), (.executionDurationNanoseconds, u64OrMax elapsed)]

/-! ## The outcome of an attempt -/

namespace ExecutionOutcome

/-- The outcome of the supervision before the handler is invoked. -/
def ofSupervision : Except Error RunSupervision → Option ExecutionOutcome
  | .error _ => none
  | .ok supervision => fromSupervision supervision

/-- The outcome of an attempt whose context could not be opened. -/
def ofOpening : Except Error (List (String × Json)) → Option ExecutionOutcome
  | .error .leaseLost => some .leaseLost
  | _ => none

/-- The outcome of an attempt that has called `complete_run`. -/
def ofCompletion : Except Error Unit → Option ExecutionOutcome
  | .ok () => some .completed
  | .error .cancelled => some .cancelled
  | .error .leaseLost => some .leaseLost
  | .error _ => none

/-- The outcome of an attempt whose `fail_run` has failed. -/
def ofFailure : Except Error Unit → Option ExecutionOutcome
  | .ok () => none
  | .error .cancelled => some .cancelled
  | .error .failedRun => some .failed
  | .error .leaseLost => some .leaseLost
  | .error _ => none

/-- The outcome of an attempt that has called `fail_run`. -/
def ofSettling : Except Error RunSupervision → Option ExecutionOutcome
  | .error _ => none
  | .ok supervision =>
      if fromSupervision supervision = some .cancelled then some .cancelled else some .failed

end ExecutionOutcome

namespace Execution

/-- The result of `execute_task`, once it has returned. -/
def result? (execution : Execution) : Option (Except Error Unit) :=
  match execution.phase with
  | .supervising | .opening | .executing | .completing _ | .judging _ | .failing _ | .settling =>
      none
  | .returned result => some result

theorem result?_eq_some {execution : Execution} {result : Except Error Unit} :
    execution.result? = some result ↔ execution.phase = .returned result := by
  unfold result?
  cases execution.phase <;> simp

/-- The outcome with which `execute_task` finishes its guard on the result of
its statement. -/
def outcome? (execution : Execution) :
    (operation : Operation) → Except Error operation.Result → Option ExecutionOutcome
  | .superviseRun _ _, reply =>
      match execution.phase with
      | .supervising | .judging _ => ExecutionOutcome.ofSupervision reply
      | .settling => ExecutionOutcome.ofSettling reply
      | _ => none
  | .getTaskCheckpointStates _ _, reply => ExecutionOutcome.ofOpening reply
  | .completeRun _ _, reply => ExecutionOutcome.ofCompletion (completeRunResult reply)
  | .failRun _ _ _, reply => ExecutionOutcome.ofFailure reply
  | _, _ => none

/-- The outcome with which `execute_task` finishes its guard in a step. -/
def finishes (execution : Execution) (queue : String) : ExecutionEvent → Option ExecutionOutcome
  | .asked ⟨operation, outcome⟩ => execution.outcome? operation (received queue outcome)
  | .rejected operation =>
      execution.outcome? operation (.error (mapSqlxError untranslatableCharacter))
  | .observed =>
      match execution.supervision with
      | .answered reply => ExecutionOutcome.ofSupervision reply
      | _ => none
  | _ => none

end Execution

/-! ## Attempts -/

/-- `TaskExecution`: an attempt with its guard, and the increments of the guard
that are still to be made. -/
structure TaskExecution where
  worker : TaskWorker
  execution : Execution
  ended : Option (GuardEnd × Nat)
  due : List (QueueCounter × UInt64)

namespace TaskExecution

/-- End the guard of an attempt. -/
def conclude (attempt : TaskExecution) (guardEnd : GuardEnd) (elapsed : Nat) : TaskExecution :=
  { attempt with ended := some (guardEnd, elapsed), due := guardEnd.increments elapsed }

/-- The attempt goes on.  Its guard is dropped when `execute_task` returns before
it has finished it. -/
def proceed (attempt : TaskExecution) (next : Execution) (outcome : Option ExecutionOutcome)
    (elapsed : Nat) : TaskExecution :=
  let moved := { attempt with execution := next }
  if attempt.ended.isNone && next.result?.isSome then
    moved.conclude (outcome.elim .dropped .finished) elapsed
  else moved

/-- `execute_task` is called: it starts the guard and looks the handler up. -/
def start (worker : TaskWorker) (task : ClaimedTask) (elapsed : Nat) : TaskExecution :=
  let execution := Execution.start worker task
  TaskExecution.proceed ⟨worker, execution, none, []⟩ execution none elapsed

end TaskExecution

/-! ## A queue handle -/

/-- A queue with the counters of a handle, the claimed runs its workers have not
begun to execute, and their attempts. -/
structure Fleet where
  world : World
  metrics : QueueMetrics
  waiting : List (TaskWorker × ClaimedTask)
  attempts : List TaskExecution

/-- A step of a queue handle. -/
inductive FleetEvent
  | served (call : Call)
  | claimed (call : Call) (tasks : List ClaimedTask)
  | claimFailed (call : Option Call)
  | forgotten (task : ClaimedTask)
  | started
  | moved (event : ExecutionEvent)
  | lost (call : Option Call)
  | supervisionLost (call : Option Call)
  | dropped
  | counted

/-- The call the queue serves in a step of an attempt. -/
def ExecutionEvent.call? : ExecutionEvent → Option Call
  | .served call | .claimed call _ | .asked call | .supervised call | .handled call => some call
  | _ => none

/-- The call the queue serves in a step. -/
def FleetEvent.call? : FleetEvent → Option Call
  | .served call | .claimed call _ => some call
  | .claimFailed call | .lost call | .supervisionLost call => call
  | .moved event => event.call?
  | _ => none

/-- The queue serves a call, or no call reaches it. -/
def MayServe (space : Char → Bool) (before : World) (call : Option Call) (after : World) : Prop :=
  match call with
  | none => after = before
  | some call => Served space before call after

/-- The claim of a worker. -/
def TaskWorker.claim (worker : TaskWorker) (quantity : Int) : Operation :=
  .claimTasks (some worker.workerId) (some worker.leaseSeconds) (some quantity)
    (some (worker.registry.map some))

namespace Fleet

/-- A queue handle before its first worker. -/
def start (initial : World) : Fleet where
  world := initial
  metrics := .new
  waiting := []
  attempts := []

end Fleet

/-- A step of a queue handle: of the database, of a worker that claims, or of an
attempt.  The guards of different attempts count at the same time. -/
inductive Fleet.Step (space : Char → Bool) : Fleet → FleetEvent → Fleet → Prop
  /-- The queue serves another client. -/
  | served {fleet : Fleet} {call : Call} {world : World}
      (serves : Served space fleet.world call world) :
      Step space fleet (.served call) { fleet with world := world }
  /-- A worker claims runs. -/
  | claimed {fleet : Fleet} {worker : TaskWorker} {quantity : Int} {tasks : List ClaimedTask}
      {world : World} (serves : Served space fleet.world ⟨worker.claim quantity, .ok tasks⟩ world) :
      Step space fleet (.claimed ⟨worker.claim quantity, .ok tasks⟩ tasks)
        { fleet with
          world := world
          metrics := fleet.metrics.recordClaimed tasks.length
          waiting := fleet.waiting ++ tasks.map fun task => (worker, task) }
  /-- The claim of a worker raises, does not reach the queue, or its answer is
  lost. -/
  | claimFailed {fleet : Fleet} {call : Option Call} {world : World}
      (serves : MayServe space fleet.world call world) :
      Step space fleet (.claimFailed call)
        { fleet with world := world, metrics := fleet.metrics.recordClaimError }
  /-- A worker is dropped before it executes a claimed run. -/
  | forgotten {fleet : Fleet} {early late : List (TaskWorker × ClaimedTask)}
      {worker : TaskWorker} {task : ClaimedTask}
      (isWaiting : fleet.waiting = early ++ (worker, task) :: late) :
      Step space fleet (.forgotten task) { fleet with waiting := early ++ late }
  /-- A worker begins to execute a claimed run. -/
  | started {fleet : Fleet} {early late : List (TaskWorker × ClaimedTask)} {worker : TaskWorker}
      {task : ClaimedTask} (isWaiting : fleet.waiting = early ++ (worker, task) :: late)
      (elapsed : Nat) :
      Step space fleet .started
        { fleet with
          waiting := early ++ late
          attempts := fleet.attempts ++ [.start worker task elapsed] }
  /-- An attempt takes a step with any handler.  Once its guard has ended, only
  a statement of its supervision may still be served. -/
  | moved {fleet : Fleet} {early late : List TaskExecution} {attempt : TaskExecution}
      {handler : Handler} {event : ExecutionEvent} {next : Execution} {world : World}
      (isAttempt : fleet.attempts = early ++ attempt :: late)
      (open_ : attempt.ended = none ∨ ∃ call, event = .supervised call)
      (steps : attempt.worker.Step space handler
        { world := fleet.world, execution := some attempt.execution } event
        { world := world, execution := some next })
      (elapsed : Nat) :
      Step space fleet (.moved event)
        { fleet with
          world := world
          attempts := early ++ attempt.proceed next
            (attempt.execution.finishes attempt.worker.queue event) elapsed :: late }
  /-- The statement of an attempt does not reach the queue, or its answer is lost. -/
  | lost {fleet : Fleet} {early late : List TaskExecution} {attempt : TaskExecution}
      {operation : Operation} {call : Option Call} {world : World} {error : SqlxError}
      (isAttempt : fleet.attempts = early ++ attempt :: late) (open_ : attempt.ended = none)
      (asks : attempt.execution.statement? attempt.worker.leaseSeconds = some operation)
      (sent : ∀ answered ∈ call, answered.operation = operation)
      (serves : MayServe space fleet.world call world) (elapsed : Nat) :
      Step space fleet (.lost call)
        { fleet with
          world := world
          attempts := early ++ attempt.proceed
            (attempt.execution.receive attempt.worker.text operation (.error (.database error)))
            (attempt.execution.outcome? operation (.error (.database error))) elapsed :: late }
  /-- The statement of a supervision does not reach the queue, or its answer is
  lost. -/
  | supervisionLost {fleet : Fleet} {early late : List TaskExecution} {attempt : TaskExecution}
      {call : Option Call} {world : World} {error : SqlxError}
      (isAttempt : fleet.attempts = early ++ attempt :: late) (open_ : attempt.ended = none)
      (asking : attempt.execution.supervision = .asking)
      (sent : ∀ answered ∈ call, answered.operation =
        .superviseRun attempt.execution.task.runId (some attempt.worker.leaseSeconds))
      (serves : MayServe space fleet.world call world) :
      Step space fleet (.supervisionLost call)
        { fleet with
          world := world
          attempts := early ++
            { attempt with
              execution :=
                { attempt.execution with
                  supervision := .answered (.error (.database error)) } } :: late }
  /-- The future of an attempt is dropped, or it panics. -/
  | dropped {fleet : Fleet} {early late : List TaskExecution} {attempt : TaskExecution}
      (isAttempt : fleet.attempts = early ++ attempt :: late) (open_ : attempt.ended = none)
      (elapsed : Nat) :
      Step space fleet .dropped
        { fleet with attempts := early ++ attempt.conclude .dropped elapsed :: late }
  /-- The guard of an attempt that has ended makes its next increment. -/
  | counted {fleet : Fleet} {early late : List TaskExecution} {attempt : TaskExecution}
      {counter : QueueCounter} {value : UInt64} {rest : List (QueueCounter × UInt64)}
      (isAttempt : fleet.attempts = early ++ attempt :: late)
      (isDue : attempt.due = (counter, value) :: rest) :
      Step space fleet .counted
        { fleet with
          metrics := fleet.metrics.increment counter value
          attempts := early ++ { attempt with due := rest } :: late }

/-- Steps of a queue handle from an empty queue. -/
structure Fleet.Run (space : Char → Bool) (initial : World) (events : List FleetEvent)
    (final : Fleet) : Prop where
  empty : ∃ cleanupTtl cleanupLimit, initial.store = Queue.empty cleanupTtl cleanupLimit
  fresh : Function.Injective initial.idents
  trace : Trace (Fleet.Step space) (.start initial) events final

end Steda
