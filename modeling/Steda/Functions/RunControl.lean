import Mathlib.Data.List.Sort
import Steda.Schema

/-!
# Run control: the mutation gate, completion, suspension and cancellation

`lockAttemptContext` fixes the lock order (run before task) and reads the clock
once both rows are locked.  `lockRunningAttempt` is the gate every
worker-owned mutation passes.
-/

namespace Steda

open Postgres Transaction

/-- The columns `steda.lock_attempt_context` returns. -/
structure AttemptContext where
  taskId : Uuid
  attempt : Nat
  runState : State
  failureReason : Option Json
  claimedBy : Option String
  claimExpiresAt : Option Timestamp
  taskState : State
  authoritativeRunId : Uuid
  observedAt : Timestamp
  enqueueAt : Timestamp
  firstStartedAt : Option Timestamp
  cancellation : Option Json
  retryStrategy : Json
  maxAttempts : Nat

/-- `cancellation_due` on the columns of an attempt context. -/
def AttemptContext.due (context : AttemptContext) (observedAt : Option Timestamptz) :
    Except SqlError Bool :=
  cancellationDue context.cancellation context.enqueueAt context.firstStartedAt observedAt

/-- The attempt context of a run and its task at an observed time. -/
def AttemptContext.ofRows (run : RunRow) (task : TaskRow) (observedAt : Timestamp) :
    AttemptContext where
  taskId := run.taskId
  attempt := run.attempt
  runState := run.state
  failureReason := run.failureReason
  claimedBy := run.claimedBy
  claimExpiresAt := run.claimExpiresAt
  taskState := task.state
  authoritativeRunId := task.lastAttemptRun
  observedAt := observedAt
  enqueueAt := task.enqueueAt
  firstStartedAt := task.firstStartedAt
  cancellation := task.cancellation
  retryStrategy := task.retryStrategy
  maxAttempts := task.maxAttempts

/-- `steda.lock_attempt_context`. -/
def lockAttemptContext (runId : Uuid) : Sql AttemptContext := do
  match ← lockRun runId .wait with
  | none => .raise (.runNotFound runId)
  | some run =>
      match ← lockTask run.taskId .wait with
      | none => .raise (.taskForRunNotFound run.taskId runId)
      | some task =>
          let observedAt ← currentTime
          return AttemptContext.ofRows run task observedAt

/-- The checks of `steda.lock_running_attempt` on a locked context.  A NULL
`expect_expired_lease` counts as false. -/
def runningAttemptChecks (runId : Uuid) (expectExpiredLease : Option Bool)
    (context : AttemptContext) : Except SqlError Unit := do
  if context.runState = .cancelled then throw .taskCancelled
  if context.runState = .failed then throw (.runAlreadyFailed runId)
  if context.runState ≠ .running then throw (.runNotRunning runId)
  if context.taskState = .cancelled then throw .taskCancelled
  if context.taskState ≠ .running ∨ context.authoritativeRunId ≠ runId then
    throw (.notAuthoritativeAttempt runId context.taskId)
  match context.claimExpiresAt with
  | none => throw (.noFiniteLease runId)
  | some claimExpiresAt =>
      if expectExpiredLease = some true then
        if context.observedAt < claimExpiresAt then throw (.leaseNotExpired runId)
      else if claimExpiresAt ≤ context.observedAt then throw (.leaseExpired runId)

/-- `steda.lock_running_attempt`. -/
def lockRunningAttempt (runId : Uuid) (expectExpiredLease : Option Bool) :
    Sql AttemptContext := do
  let context ← lockAttemptContext runId
  Program.ofExcept (runningAttemptChecks runId expectExpiredLease context)
  return context

/-! ## Cancellation -/

/-- The condition of both run statements of `steda.cancel_task`. -/
def cancellableRun (taskId : Uuid) (run : RunRow) : Bool :=
  run.taskId == taskId && !run.state.terminal

/-- A cancelled run has no owner. -/
def RunRow.cancel (run : RunRow) : RunRow :=
  { run with state := .cancelled, claimedBy := none, claimExpiresAt := none }

/-- A cancelled task keeps its first cancellation time. -/
def TaskRow.cancel (task : TaskRow) (nowAt : Timestamp) : TaskRow :=
  { task with state := .cancelled, cancelledAt := some (task.cancelledAt.getD nowAt) }

/-- Cancel the candidate runs whose newest version is still active. -/
def cancelRuns (taskId : Uuid) : List RunRow → Sql Unit
  | [] => pure ()
  | candidate :: rest => do
      match ← lockRun candidate.id .wait with
      | none => cancelRuns taskId rest
      | some run =>
          if cancellableRun taskId run then
            let _ ← change (.putRun run.cancel)
            cancelRuns taskId rest
          else cancelRuns taskId rest

/-- The two updates of `steda.cancel_task` on a task that is not terminal. -/
def cancelOpenTask (taskId : Uuid) (nowAt : Timestamp) : Sql Bool := do
  updateTask taskId fun task => task.cancel nowAt
  let visible ← snapshot
  cancelRuns taskId (visible.runs.filter (cancellableRun taskId))
  return true

/-- `steda.cancel_task`. -/
def cancelTask (taskId : Uuid) : Sql Bool := do
  let nowAt ← currentTime
  let visible ← snapshot
  let candidates := (visible.runs.filter (cancellableRun taskId)).insertionSort
    fun left right => left.id ≤ right.id
  let _ ← lockRuns .wait RunRow.id (fun _ run => .ok (cancellableRun taskId run)) candidates
    candidates.length
  match ← lockTask taskId .wait with
  | none => .raise (.taskNotFound taskId)
  | some task =>
      if task.state.terminal then return false
      cancelOpenTask taskId nowAt

/-! ## Completion and suspension -/

/-- A completed run. -/
def RunRow.complete (run : RunRow) (completedAt : Timestamp) (result : Option Json) : RunRow :=
  { run with
    state := .completed
    completedAt := some completedAt
    result := result
    claimedBy := none
    claimExpiresAt := none }

/-- `steda.complete_run`. -/
def completeRun (runId : Uuid) (result : Option Json) : Sql Bool := do
  let context ← lockRunningAttempt runId (some false)
  if ← Program.ofExcept (context.due context.observedAt) then
    let _ ← cancelTask context.taskId
    return false
  updateRun runId fun run => run.complete context.observedAt result
  updateTask context.taskId fun task =>
    { task with state := .completed, lastAttemptRun := runId }
  return true

/-- The outcomes of `steda.schedule_run`. -/
inductive ScheduleOutcome
  | ready
  | suspended
  | cancelled
  deriving DecidableEq, Repr

/-- The deadline is due at the observed time or at the requested wake-up. -/
def AttemptContext.dueBy (context : AttemptContext) (wakeAt : Option Timestamptz) :
    Except SqlError Bool := do
  if ← context.due context.observedAt then return true
  context.due wakeAt

/-- A sleeping run. -/
def RunRow.sleep (run : RunRow) (wakeAt : Timestamptz) : RunRow :=
  { run with state := .sleeping, claimedBy := none, claimExpiresAt := none, availableAt := wakeAt }

/-- `steda.schedule_run`. -/
def scheduleRun (runId : Uuid) (wakeAt : Option Timestamptz) : Sql ScheduleOutcome := do
  let context ← lockRunningAttempt runId (some false)
  if ← Program.ofExcept (context.dueBy wakeAt) then
    let _ ← cancelTask context.taskId
    return .cancelled
  match wakeAt with
  | none => .raise (.notNullViolation "available_at")
  | some wakeAt =>
      if wakeAt ≤ context.observedAt then return .ready
      updateRun runId fun run => run.sleep wakeAt
      updateTask context.taskId fun task => { task with state := .sleeping }
      return .suspended

end Steda
