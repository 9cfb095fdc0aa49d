import Steda.Functions.Claiming

/-!
# Checkpoints and retention cleanup
-/

namespace Steda

open Postgres Transaction

/-- The row `set_task_checkpoint_state` returns. -/
structure CheckpointResult where
  checkpointState : Option Json
  written : Bool

/-- `steda.set_task_checkpoint_state`.  The first committed value of a name
wins. -/
def setTaskCheckpointState (space : Char → Bool) (taskId : Uuid)
    (checkpointName : Option String) (newCheckpointState : Option Json) (runId : Uuid) :
    Sql CheckpointResult := do
  match checkpointName with
  | none => .raise .checkpointNameMissing
  | some name =>
      if isBlank space name then .raise .checkpointNameMissing
      else if maxNameBytes < name.utf8ByteSize then .raise .checkpointNameTooLong
      else
        let context ← lockRunningAttempt runId (some false)
        if context.taskId ≠ taskId then .raise (.runNotOfTask runId taskId)
        else if ← Program.ofExcept (context.due context.observedAt) then
          .raise .checkpointDeadlineElapsed
        else
          match newCheckpointState with
          | none => .raise (.notNullViolation "state")
          | some state =>
              if ← change (.insertCheckpoint { taskId := taskId, name := name, state := state })
              then return { checkpointState := some state, written := true }
              else
                let visible ← snapshot
                return {
                  checkpointState := (visible.findCheckpoint taskId name).map CheckpointRow.state
                  written := false }

/-- `steda.get_task_checkpoint_states`. -/
def getTaskCheckpointStates (taskId runId : Uuid) : Sql (List (String × Json)) := do
  let context ← lockRunningAttempt runId (some false)
  if context.taskId ≠ taskId then .raise (.runNotOfTask runId taskId)
  else
    let visible ← snapshot
    return (visible.checkpoints.filter fun row => row.taskId == taskId).map fun row =>
      (row.name, row.state)

/-- The terminal time of a task, read from the column of its state. -/
def terminalAt (task : TaskRow) (run : Option RunRow) : Option Timestamp :=
  match task.state with
  | .completed => run.bind RunRow.completedAt
  | .failed => run.bind RunRow.failedAt
  | .cancelled => task.cancelledAt
  | _ => none

/-- The candidate condition of `steda.cleanup_tasks`. -/
def cleanupCandidate (cutoff : Timestamp) (task : TaskRow) (run : Option RunRow) : Bool :=
  task.state.terminal &&
    match terminalAt task run with
    | none => false
    | some terminal => terminal ≤ cutoff

/-- The left join of tasks with their last runs. -/
def lastRunLeftJoin (visible : Queue) : List (TaskRow × Option RunRow) :=
  visible.tasks.map fun task => (task, visible.findRun task.lastAttemptRun)

/-- Order of `ORDER BY terminal_at, id`. -/
def terminalOrder (left right : TaskRow × Option RunRow) : Prop :=
  (terminalAt left.1 left.2).getD 0 < (terminalAt right.1 right.2).getD 0 ∨
    ((terminalAt left.1 left.2).getD 0 = (terminalAt right.1 right.2).getD 0 ∧
      left.1.id ≤ right.1.id)

instance : DecidableRel terminalOrder := fun _ _ =>
  inferInstanceAs (Decidable (_ ∨ _))

/-- The joined run of the newest version of a task: after the lock the join
condition is tested again, on the run row of the snapshot. -/
def rejoined (task : TaskRow) (run : Option RunRow) : Option RunRow :=
  run.filter fun run => run.id == task.lastAttemptRun

/-- Lock candidate tasks in order, skipping locked ones, up to a limit. -/
def lockCleanupTasks (cutoff : Timestamp) :
    List (TaskRow × Option RunRow) → Nat → Sql (List Uuid)
  | [], _ => pure []
  | _ :: _, 0 => pure []
  | candidate :: rest, limit + 1 => do
      match ← lockTask candidate.1.id .skipLocked with
      | none => lockCleanupTasks cutoff rest (limit + 1)
      | some task =>
          if cleanupCandidate cutoff task (rejoined task candidate.2) then
            let others ← lockCleanupTasks cutoff rest limit
            return task.id :: others
          else lockCleanupTasks cutoff rest (limit + 1)

/-- Lock the runs a cascading delete removes. -/
def lockCascade : List RunRow → Sql Unit
  | [] => pure ()
  | run :: rest => do
      let _ ← lockRun run.id .wait
      lockCascade rest

/-- Delete the selected tasks with their runs and checkpoints. -/
def deleteTasks : List Uuid → Sql Unit
  | [] => pure ()
  | taskId :: rest => do
      let visible ← snapshot
      lockCascade (visible.runsOf taskId)
      let _ ← change (.deleteTask taskId)
      deleteTasks rest

/-- `steda.cleanup_tasks` of a registered queue. -/
def cleanupTasks : Sql Nat := do
  let nowAt ← currentTime
  let policy ← snapshot
  let cutoff := nowAt - policy.cleanupTtl
  let visible ← snapshot
  let candidates := ((lastRunLeftJoin visible).filter fun pair =>
    cleanupCandidate cutoff pair.1 pair.2).insertionSort terminalOrder
  let selected ← lockCleanupTasks cutoff candidates policy.cleanupLimit
  deleteTasks selected
  return selected.length

end Steda
