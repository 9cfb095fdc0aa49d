import Steda.Functions.RunControl

/-!
# Failure and manual retry

`failRun` records a failed attempt and applies the retry strategy of the task;
`retryTask` reopens a terminally failed task with one fresh run.
-/

namespace Steda

open Postgres Transaction

/-- Addition of one in 32-bit arithmetic. -/
def integerSucc (value : Nat) : Except SqlError Nat :=
  if maxInteger ≤ value then .error .integerOutOfRange else .ok (value + 1)

/-- A failed run. -/
def RunRow.fail (run : RunRow) (failedAt : Timestamp) (reason : Option Json) : RunRow :=
  { run with
    state := .failed
    failedAt := some failedAt
    failureReason := reason
    claimedBy := none
    claimExpiresAt := none }

/-- A run inserted by a submission or a retry. -/
def RunRow.fresh (id taskId : Uuid) (attempt : Nat) (state : State) (availableAt : Timestamp) :
    RunRow where
  id := id
  taskId := taskId
  attempt := attempt
  state := state
  claimedBy := none
  claimExpiresAt := none
  availableAt := availableAt
  startedAt := none
  completedAt := none
  failedAt := none
  result := none
  failureReason := none

/-- The task row after a failed attempt. -/
def TaskRow.afterFailure (task : TaskRow) (state : State) (recordedAttempt : Nat)
    (lastAttemptRun : Uuid) : TaskRow :=
  { task with
    state := state
    attempts := max task.attempts recordedAttempt
    lastAttemptRun := lastAttemptRun }

/-- The strategy allows another automatic attempt. -/
def retriesLeft (context : AttemptContext) (nextAttempt : Nat) : Bool :=
  (match context.retryStrategy.text? "kind" with
    | some kind => kind != "none"
    | none => false) && nextAttempt ≤ context.maxAttempts

/-- The start of the next automatic attempt, never before the failure. -/
def nextAvailableAt (context : AttemptContext) : Except SqlError Timestamp := do
  let delay ← retryDelaySeconds context.retryStrategy context.attempt
  return max (context.observedAt + delayMicroseconds delay) context.observedAt

/-- `steda.fail_run`. -/
def failRun (runId : Uuid) (reason : Option Json) (expectExpiredLease : Option Bool) :
    Sql Unit := do
  let context ← lockRunningAttempt runId expectExpiredLease
  if ← Program.ofExcept (context.due context.observedAt) then
    let _ ← cancelTask context.taskId
    return ()
  updateRun runId fun run => run.fail context.observedAt reason
  let nextAttempt ← Program.ofExcept (integerSucc context.attempt)
  if retriesLeft context nextAttempt then
    let availableAt ← Program.ofExcept (nextAvailableAt context)
    if ← Program.ofExcept (context.due availableAt) then
      let _ ← cancelTask context.taskId
      return ()
    let nextState := if context.observedAt < availableAt then .sleeping else .pending
    let newRunId ← uuidv7
    let _ ← change (.insertRun
      (RunRow.fresh newRunId context.taskId nextAttempt nextState availableAt))
    updateTask context.taskId fun task => task.afterFailure nextState nextAttempt newRunId
  else
    updateTask context.taskId fun task => task.afterFailure .failed context.attempt runId

/-- The task row after a manual retry. -/
def TaskRow.reopen (task : TaskRow) (nextAttempt : Nat) (newRunId : Uuid) : TaskRow :=
  { task with
    state := .pending
    attempts := nextAttempt
    maxAttempts := max task.maxAttempts nextAttempt
    lastAttemptRun := newRunId
    cancelledAt := none }

/-- `steda.retry_task`. -/
def retryTask (taskId : Uuid) : Sql Uuid := do
  let nowAt ← currentTime
  match ← lockTask taskId .wait with
  | none => .raise (.taskNotFound taskId)
  | some task =>
      if task.state ≠ .failed then .raise (.taskNotFailed taskId)
      else
        if ← Program.ofExcept (task.due nowAt) then .raise (.retryDeadlineElapsed taskId)
        else
          let nextAttempt ← Program.ofExcept (integerSucc task.attempts)
          let newRunId ← uuidv7
          let _ ← change (.insertRun (RunRow.fresh newRunId taskId nextAttempt .pending nowAt))
          updateTask taskId fun task => task.reopen nextAttempt newRunId
          return newRunId

end Steda
