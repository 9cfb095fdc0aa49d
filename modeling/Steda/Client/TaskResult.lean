import Steda.Functions.Submission

/-!
# Result snapshots

`fetch_task_result_snapshot_with` decodes the row `steda.get_task_result`
returns.
-/

namespace Steda

open Postgres

/-- `TaskResultSnapshot`. -/
inductive TaskResultSnapshot
  | pending
  | running
  | sleeping
  | completed (result : Json)
  | failed (failure : Json)
  | cancelled

/-- The errors of the decoder.  The last two are reported as `Error::Other`. -/
inductive SnapshotError
  | taskNameMismatch (taskId : Uuid) (expected actual : String)
  | completedWithoutResult (taskId : Uuid)
  | failedWithoutFailure (taskId : Uuid)

/-- `fetch_task_result_snapshot_with` on the answer of the database. -/
def fetchTaskResultSnapshot (taskName : String) (taskId : Uuid) :
    Option TaskResult → Except SnapshotError (Option TaskResultSnapshot)
  | none => .ok none
  | some row =>
      if row.taskName ≠ taskName then
        .error (.taskNameMismatch taskId taskName row.taskName)
      else
        match row.state with
        | .pending => .ok (some .pending)
        | .running => .ok (some .running)
        | .sleeping => .ok (some .sleeping)
        | .completed =>
            match row.result with
            | some result => .ok (some (.completed result))
            | none => .error (.completedWithoutResult taskId)
        | .failed =>
            match row.failureReason with
            | some failure => .ok (some (.failed failure))
            | none => .error (.failedWithoutFailure taskId)
        | .cancelled => .ok (some .cancelled)

/-- The decoder accepts every row of the named task that carries the payload of
its state. -/
theorem fetchTaskResultSnapshot_ok {taskName : String} {taskId : Uuid} {row : TaskResult}
    (named : row.taskName = taskName)
    (completed : row.state = .completed → row.result.isSome)
    (failed : row.state = .failed → row.failureReason.isSome) :
    ∃ snapshot, fetchTaskResultSnapshot taskName taskId (some row) = .ok (some snapshot) := by
  simp only [fetchTaskResultSnapshot, named, ne_eq, not_true_eq_false, if_false]
  cases state : row.state with
  | completed =>
      obtain ⟨result, isResult⟩ := Option.isSome_iff_exists.mp (completed state)
      exact ⟨.completed result, by rw [isResult]⟩
  | failed =>
      obtain ⟨failure, isFailure⟩ := Option.isSome_iff_exists.mp (failed state)
      exact ⟨.failed failure, by rw [isFailure]⟩
  | pending => exact ⟨_, rfl⟩
  | running => exact ⟨_, rfl⟩
  | sleeping => exact ⟨_, rfl⟩
  | cancelled => exact ⟨_, rfl⟩

end Steda
