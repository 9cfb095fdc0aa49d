import Steda.Biography
import Steda.Serial
import Steda.Transaction.Frame

/-!
# Requests are kept

Only `spawn_task` brings a new request into the queue.  Every other function,
whether it returns or raises half-way, leaves tasks whose requests were there
before.
-/

namespace Steda

open Postgres Transaction Relational

variable {space : Char → Bool} {α : Type}

/-- Every task has the request of an earlier one. -/
def RequestsKept (before after : World) : Prop :=
  ∀ task ∈ after.store.tasks, ∃ old ∈ before.store.tasks, old.submission = task.submission

instance : IsPreorder World RequestsKept where
  refl := fun _ task member => ⟨task, member, rfl⟩
  trans := by
    intro first second third early late task member
    obtain ⟨middle, inSecond, same⟩ := late task member
    obtain ⟨old, inFirst, sameOld⟩ := early middle inSecond
    exact ⟨old, inFirst, sameOld.trans same⟩

/-- A stored function keeps the requests, however it ends. -/
abbrev KeepsRequests (space : Char → Bool) (program : Sql α) : Prop :=
  program.Keeps (storage space).handle RequestsKept

theorem RequestsKept.of_tasks {before after : World}
    (same : after.store.tasks = before.store.tasks) : RequestsKept before after :=
  fun task member => ⟨task, same ▸ member, rfl⟩

/-! ## Statements -/

theorem keepsRequests_issue {command : Command RowKey Change}
    (notWrite : ∀ change, command ≠ .write change) :
    KeepsRequests space (Program.issue command : Sql _) :=
  Program.keeps_issue fun world =>
    .of_tasks (congrArg Queue.tasks ((storage space).handle_store notWrite world))

theorem keepsRequests_currentTime : KeepsRequests space currentTime :=
  keepsRequests_issue fun _ => by simp

theorem keepsRequests_uuidv7 : KeepsRequests space uuidv7 :=
  keepsRequests_issue fun _ => by simp

theorem keepsRequests_snapshot : KeepsRequests space snapshot :=
  keepsRequests_issue fun _ => by simp

theorem keepsRequests_lockTask (id : Uuid) (policy : LockPolicy) :
    KeepsRequests space (lockTask id policy) :=
  Program.keeps_bind (keepsRequests_issue fun _ => by simp) fun _ => Program.keeps_pure _

theorem keepsRequests_lockRun (id : Uuid) (policy : LockPolicy) :
    KeepsRequests space (lockRun id policy) :=
  Program.keeps_bind (keepsRequests_issue fun _ => by simp) fun _ => Program.keeps_pure _

/-- A change that writes no task keeps the requests. -/
theorem keepsRequests_change {row : Change}
    (noTask : ∀ queue, ∀ task ∈ (Queue.apply row queue).tasks, task ∈ queue.tasks) :
    KeepsRequests space (change row) := by
  intro world
  change RequestsKept world (alone space (change row) world).2
  rw [alone_change]
  split
  · exact fun task member => ⟨task, noTask world.store task member, rfl⟩
  · exact .of_tasks rfl
  · exact .of_tasks rfl

theorem keepsRequests_updateTask (id : Uuid) {set : TaskRow → TaskRow}
    (same : ∀ task, (set task).submission = task.submission) :
    KeepsRequests space (updateTask id set) := by
  intro world
  change RequestsKept world (alone space (updateTask id set) world).2
  cases found : world.store.findTask id with
  | none =>
      simp only [updateTask, alone_bind, alone_lockTask, found, alone_pure]
      exact .of_tasks rfl
  | some row =>
      rw [alone_updateTask found]
      split
      · intro task member
        rcases mem_replace member with isNew | isOld
        · exact ⟨row, mem_of_find found, isNew ▸ (same row).symm⟩
        · exact ⟨task, isOld, rfl⟩
      · exact .of_tasks rfl

theorem keepsRequests_updateRun (id : Uuid) (set : RunRow → RunRow) :
    KeepsRequests space (updateRun id set) := by
  refine Program.keeps_bind (keepsRequests_lockRun id .wait) fun found => ?_
  cases found with
  | none => exact Program.keeps_pure _
  | some run =>
      exact Program.keeps_bind (keepsRequests_change fun _ _ member => member) fun _ =>
        Program.keeps_pure _

theorem keepsRequests_lockRuns {β : Type} (policy : LockPolicy) (runId : β → Uuid)
    (keeps : β → RunRow → Except SqlError Bool) (candidates : List β) (limit : Nat) :
    KeepsRequests space (lockRuns policy runId keeps candidates limit) := by
  induction candidates generalizing limit with
  | nil => exact Program.keeps_pure _
  | cons candidate rest inductionHypothesis =>
      cases limit with
      | zero => exact Program.keeps_pure _
      | succ limit =>
          refine Program.keeps_bind (keepsRequests_lockRun _ policy) fun found => ?_
          cases found with
          | none => exact inductionHypothesis (limit + 1)
          | some run =>
              refine Program.keeps_bind (Program.keeps_ofExcept _) fun kept => ?_
              split
              · exact Program.keeps_bind (inductionHypothesis limit) fun _ => Program.keeps_pure _
              · exact inductionHypothesis (limit + 1)

/-! ## Run control -/

theorem keepsRequests_lockAttemptContext (runId : Uuid) :
    KeepsRequests space (lockAttemptContext runId) := by
  refine Program.keeps_bind (keepsRequests_lockRun runId .wait) fun run => ?_
  split
  · exact Program.keeps_raise _
  · refine Program.keeps_bind (keepsRequests_lockTask _ .wait) fun task => ?_
    split
    · exact Program.keeps_raise _
    · exact Program.keeps_bind keepsRequests_currentTime fun _ => Program.keeps_pure _

theorem keepsRequests_lockRunningAttempt (runId : Uuid) (expectExpiredLease : Option Bool) :
    KeepsRequests space (lockRunningAttempt runId expectExpiredLease) :=
  Program.keeps_bind (keepsRequests_lockAttemptContext runId) fun _ =>
    Program.keeps_bind (Program.keeps_ofExcept _) fun _ => Program.keeps_pure _

theorem keepsRequests_cancelRuns (taskId : Uuid) (candidates : List RunRow) :
    KeepsRequests space (cancelRuns taskId candidates) := by
  induction candidates with
  | nil => exact Program.keeps_pure _
  | cons candidate rest inductionHypothesis =>
      refine Program.keeps_bind (keepsRequests_lockRun _ .wait) fun found => ?_
      split
      · exact inductionHypothesis
      · split
        · exact Program.keeps_bind (keepsRequests_change fun _ _ member => member) fun _ =>
            inductionHypothesis
        · exact inductionHypothesis

theorem keepsRequests_cancelTask (taskId : Uuid) : KeepsRequests space (cancelTask taskId) := by
  refine Program.keeps_bind keepsRequests_currentTime fun nowAt => ?_
  refine Program.keeps_bind keepsRequests_snapshot fun visible => ?_
  refine Program.keeps_bind (keepsRequests_lockRuns _ _ _ _ _) fun _ => ?_
  refine Program.keeps_bind (keepsRequests_lockTask _ _) fun found => ?_
  split
  · exact Program.keeps_raise _
  · split
    · exact Program.keeps_pure _
    · refine Program.keeps_bind (keepsRequests_updateTask taskId fun _ => rfl) fun _ => ?_
      refine Program.keeps_bind keepsRequests_snapshot fun visible => ?_
      exact Program.keeps_bind (keepsRequests_cancelRuns _ _) fun _ => Program.keeps_pure _

theorem keepsRequests_completeRun (runId : Uuid) (result : Option Json) :
    KeepsRequests space (completeRun runId result) := by
  refine Program.keeps_bind (keepsRequests_lockRunningAttempt _ _) fun context => ?_
  refine Program.keeps_bind (Program.keeps_ofExcept _) fun due => ?_
  split
  · exact Program.keeps_bind (keepsRequests_cancelTask _) fun _ => Program.keeps_pure _
  · refine Program.keeps_bind (keepsRequests_updateRun _ _) fun _ => ?_
    exact Program.keeps_bind (keepsRequests_updateTask _ fun _ => rfl) fun _ =>
      Program.keeps_pure _

theorem keepsRequests_scheduleRun (runId : Uuid) (wakeAt : Option Timestamptz) :
    KeepsRequests space (scheduleRun runId wakeAt) := by
  refine Program.keeps_bind (keepsRequests_lockRunningAttempt _ _) fun context => ?_
  refine Program.keeps_bind (Program.keeps_ofExcept _) fun due => ?_
  split
  · exact Program.keeps_bind (keepsRequests_cancelTask _) fun _ => Program.keeps_pure _
  · split
    · exact Program.keeps_raise _
    · split
      · exact Program.keeps_pure _
      · refine Program.keeps_bind (keepsRequests_updateRun _ _) fun _ => ?_
        exact Program.keeps_bind (keepsRequests_updateTask _ fun _ => rfl) fun _ =>
          Program.keeps_pure _

theorem keepsRequests_failRun (runId : Uuid) (reason : Option Json)
    (expectExpiredLease : Option Bool) :
    KeepsRequests space (failRun runId reason expectExpiredLease) := by
  refine Program.keeps_bind (keepsRequests_lockRunningAttempt _ _) fun context => ?_
  refine Program.keeps_bind (Program.keeps_ofExcept _) fun due => ?_
  split
  · exact Program.keeps_bind (keepsRequests_cancelTask _) fun _ => Program.keeps_pure _
  · refine Program.keeps_bind (keepsRequests_updateRun _ _) fun _ => ?_
    refine Program.keeps_bind (Program.keeps_ofExcept _) fun nextAttempt => ?_
    split
    · refine Program.keeps_bind (Program.keeps_ofExcept _) fun availableAt => ?_
      refine Program.keeps_bind (Program.keeps_ofExcept _) fun late => ?_
      split
      · exact Program.keeps_bind (keepsRequests_cancelTask _) fun _ => Program.keeps_pure _
      · refine Program.keeps_bind keepsRequests_uuidv7 fun newRunId => ?_
        refine Program.keeps_bind (keepsRequests_change fun _ _ member => member) fun _ => ?_
        exact keepsRequests_updateTask _ fun _ => rfl
    · exact keepsRequests_updateTask _ fun _ => rfl

theorem keepsRequests_retryTask (taskId : Uuid) : KeepsRequests space (retryTask taskId) := by
  refine Program.keeps_bind keepsRequests_currentTime fun nowAt => ?_
  refine Program.keeps_bind (keepsRequests_lockTask _ _) fun found => ?_
  split
  · exact Program.keeps_raise _
  · split
    · exact Program.keeps_raise _
    · refine Program.keeps_bind (Program.keeps_ofExcept _) fun due => ?_
      split
      · exact Program.keeps_raise _
      · refine Program.keeps_bind (Program.keeps_ofExcept _) fun nextAttempt => ?_
        refine Program.keeps_bind keepsRequests_uuidv7 fun newRunId => ?_
        refine Program.keeps_bind (keepsRequests_change fun _ _ member => member) fun _ => ?_
        exact Program.keeps_bind (keepsRequests_updateTask _ fun _ => rfl) fun _ =>
          Program.keeps_pure _

/-! ## Leases, sweeps and claims -/

theorem keepsRequests_reapExpiredRun (runId : Uuid) :
    KeepsRequests space (reapExpiredRun runId) := by
  refine Program.keeps_bind (keepsRequests_lockAttemptContext _) fun context => ?_
  split
  · exact Program.keeps_pure _
  · split
    · exact Program.keeps_raise _
    · exact Program.keeps_bind (keepsRequests_failRun _ _ _) fun _ => Program.keeps_pure _

theorem keepsRequests_superviseRun (runId : Uuid) (renewForSeconds : Option Int) :
    KeepsRequests space (superviseRun runId renewForSeconds) := by
  unfold superviseRun
  split
  · exact Program.keeps_raise _
  · refine Program.keeps_bind (keepsRequests_lockAttemptContext _) fun context => ?_
    split
    · exact Program.keeps_pure _
    · split <;> first | exact Program.keeps_pure _ | exact Program.keeps_raise _ | skip
      unfold superviseRunning
      split
      · exact Program.keeps_raise _
      · refine Program.keeps_bind (Program.keeps_ofExcept _) fun due => ?_
        split
        · exact Program.keeps_bind (keepsRequests_cancelTask _) fun _ => Program.keeps_pure _
        · split
          · exact Program.keeps_raise _
          · split
            · refine Program.keeps_bind (keepsRequests_reapExpiredRun _) fun _ => ?_
              exact Program.keeps_bind keepsRequests_snapshot fun _ => Program.keeps_pure _
            · split
              · exact Program.keeps_pure _
              · split
                · exact Program.keeps_bind (keepsRequests_updateRun _ _) fun _ =>
                    Program.keeps_pure _
                · exact Program.keeps_pure _

theorem keepsRequests_reapEach (runs : List Uuid) : KeepsRequests space (reapEach runs) := by
  induction runs with
  | nil => exact Program.keeps_pure _
  | cons run rest inductionHypothesis =>
      exact Program.keeps_bind (keepsRequests_reapExpiredRun run) fun _ =>
        Program.keeps_bind inductionHypothesis fun _ => Program.keeps_pure _

theorem keepsRequests_reapExpiredRuns (reapLimit : Option Int) :
    KeepsRequests space (reapExpiredRuns reapLimit) := by
  refine Program.keeps_bind keepsRequests_currentTime fun nowAt => ?_
  split
  · exact Program.keeps_raise _
  · split
    · exact Program.keeps_raise _
    · refine Program.keeps_bind keepsRequests_snapshot fun visible => ?_
      exact Program.keeps_bind (keepsRequests_lockRuns _ _ _ _ _) fun _ =>
        keepsRequests_reapEach _

theorem keepsRequests_cancelEach (tasks : List Uuid) : KeepsRequests space (cancelEach tasks) := by
  induction tasks with
  | nil => exact Program.keeps_pure _
  | cons task rest inductionHypothesis =>
      exact Program.keeps_bind (keepsRequests_cancelTask task) fun _ =>
        Program.keeps_bind inductionHypothesis fun _ => Program.keeps_pure _

theorem keepsRequests_cancelExpiredTasks (cancelLimit : Option Int) :
    KeepsRequests space (cancelExpiredTasks cancelLimit) := by
  refine Program.keeps_bind keepsRequests_currentTime fun nowAt => ?_
  split
  · exact Program.keeps_raise _
  · split
    · exact Program.keeps_raise _
    · refine Program.keeps_bind keepsRequests_snapshot fun visible => ?_
      refine Program.keeps_bind (Program.keeps_ofExcept _) fun candidates => ?_
      exact Program.keeps_bind (keepsRequests_lockRuns _ _ _ _ _) fun _ =>
        keepsRequests_cancelEach _

theorem keepsRequests_claimRuns (workerId : String) (nowAt expiresAt : Timestamp)
    (runs : List RunRow) : KeepsRequests space (claimRuns workerId nowAt expiresAt runs) := by
  induction runs with
  | nil => exact Program.keeps_pure _
  | cons run rest inductionHypothesis =>
      exact Program.keeps_bind (keepsRequests_updateRun _ _) fun _ => inductionHypothesis

theorem keepsRequests_claimTaskRows (nowAt : Timestamp) (runs : List RunRow) :
    KeepsRequests space (claimTaskRows nowAt runs) := by
  induction runs with
  | nil => exact Program.keeps_pure _
  | cons run rest inductionHypothesis =>
      exact Program.keeps_bind (keepsRequests_updateTask _ fun _ => rfl) fun _ =>
        inductionHypothesis

theorem keepsRequests_claimTasks (workerId : Option String) (leaseSeconds quantity : Option Int)
    (taskNames : Option (List (Option String))) :
    KeepsRequests space (claimTasks space workerId leaseSeconds quantity taskNames) := by
  refine Program.keeps_bind keepsRequests_currentTime fun _ => ?_
  refine Program.keeps_bind (Program.keeps_ofExcept _) fun request => ?_
  refine Program.keeps_bind (keepsRequests_cancelExpiredTasks _) fun _ => ?_
  refine Program.keeps_bind (keepsRequests_reapExpiredRuns _) fun _ => ?_
  refine Program.keeps_bind keepsRequests_currentTime fun nowAt => ?_
  refine Program.keeps_bind keepsRequests_snapshot fun visible => ?_
  refine Program.keeps_bind (Program.keeps_ofExcept _) fun candidates => ?_
  refine Program.keeps_bind (keepsRequests_lockRuns _ _ _ _ _) fun selected => ?_
  refine Program.keeps_bind (keepsRequests_claimRuns _ _ _ _) fun _ => ?_
  exact Program.keeps_bind (keepsRequests_claimTaskRows _ _) fun _ => Program.keeps_pure _

/-! ## Checkpoints and cleanup -/

theorem keepsRequests_setTaskCheckpointState (taskId : Uuid) (checkpointName : Option String)
    (newCheckpointState : Option Json) (runId : Uuid) :
    KeepsRequests space
      (setTaskCheckpointState space taskId checkpointName newCheckpointState runId) := by
  unfold setTaskCheckpointState
  split
  · exact Program.keeps_raise _
  · split
    · exact Program.keeps_raise _
    · split
      · exact Program.keeps_raise _
      · refine Program.keeps_bind (keepsRequests_lockRunningAttempt _ _) fun context => ?_
        split
        · exact Program.keeps_raise _
        · refine Program.keeps_bind (Program.keeps_ofExcept _) fun due => ?_
          split
          · exact Program.keeps_raise _
          · split
            · exact Program.keeps_raise _
            · refine Program.keeps_bind (keepsRequests_change fun _ _ member => member)
                fun written => ?_
              split
              · exact Program.keeps_pure _
              · exact Program.keeps_bind keepsRequests_snapshot fun _ => Program.keeps_pure _

theorem keepsRequests_getTaskCheckpointStates (taskId runId : Uuid) :
    KeepsRequests space (getTaskCheckpointStates taskId runId) := by
  refine Program.keeps_bind (keepsRequests_lockRunningAttempt _ _) fun context => ?_
  split
  · exact Program.keeps_raise _
  · exact Program.keeps_bind keepsRequests_snapshot fun _ => Program.keeps_pure _

theorem keepsRequests_lockCleanupTasks (cutoff : Timestamp)
    (candidates : List (TaskRow × Option RunRow)) (limit : Nat) :
    KeepsRequests space (lockCleanupTasks cutoff candidates limit) := by
  induction candidates generalizing limit with
  | nil => exact Program.keeps_pure _
  | cons candidate rest inductionHypothesis =>
      cases limit with
      | zero => exact Program.keeps_pure _
      | succ limit =>
          refine Program.keeps_bind (keepsRequests_lockTask _ _) fun found => ?_
          split
          · exact inductionHypothesis (limit + 1)
          · split
            · exact Program.keeps_bind (inductionHypothesis limit) fun _ => Program.keeps_pure _
            · exact inductionHypothesis (limit + 1)

theorem keepsRequests_lockCascade (runs : List RunRow) :
    KeepsRequests space (lockCascade runs) := by
  induction runs with
  | nil => exact Program.keeps_pure _
  | cons run rest inductionHypothesis =>
      exact Program.keeps_bind (keepsRequests_lockRun _ _) fun _ => inductionHypothesis

theorem keepsRequests_deleteTasks (tasks : List Uuid) :
    KeepsRequests space (deleteTasks tasks) := by
  induction tasks with
  | nil => exact Program.keeps_pure _
  | cons task rest inductionHypothesis =>
      refine Program.keeps_bind keepsRequests_snapshot fun visible => ?_
      refine Program.keeps_bind (keepsRequests_lockCascade _) fun _ => ?_
      exact Program.keeps_bind
        (keepsRequests_change fun _ _ member => (List.mem_filter.mp member).1) fun _ =>
          inductionHypothesis

theorem keepsRequests_cleanupTasks : KeepsRequests space cleanupTasks := by
  refine Program.keeps_bind keepsRequests_currentTime fun nowAt => ?_
  refine Program.keeps_bind keepsRequests_snapshot fun policy => ?_
  refine Program.keeps_bind keepsRequests_snapshot fun visible => ?_
  refine Program.keeps_bind (keepsRequests_lockCleanupTasks _ _ _) fun selected => ?_
  exact Program.keeps_bind (keepsRequests_deleteTasks _) fun _ => Program.keeps_pure _

/-- Every function but `spawn_task` keeps the requests. -/
theorem keepsRequests_program {operation : Operation}
    (other : ∀ taskName params options, operation ≠ .spawnTask taskName params options) :
    KeepsRequests space (operation.program space) := by
  cases operation with
  | spawnTask taskName params options => exact absurd rfl (other _ _ _)
  | claimTasks => exact keepsRequests_claimTasks _ _ _ _
  | completeRun => exact keepsRequests_completeRun _ _
  | failRun => exact keepsRequests_failRun _ _ _
  | scheduleRun => exact keepsRequests_scheduleRun _ _
  | superviseRun => exact keepsRequests_superviseRun _ _
  | reapExpiredRun => exact keepsRequests_reapExpiredRun _
  | reapExpiredRuns => exact keepsRequests_reapExpiredRuns _
  | cancelTask => exact keepsRequests_cancelTask _
  | cancelExpiredTasks => exact keepsRequests_cancelExpiredTasks _
  | retryTask => exact keepsRequests_retryTask _
  | setTaskCheckpointState => exact keepsRequests_setTaskCheckpointState _ _ _ _
  | getTaskCheckpointStates => exact keepsRequests_getTaskCheckpointStates _ _
  | getTaskResult => exact Program.keeps_bind keepsRequests_snapshot fun _ => Program.keeps_pure _
  | cleanupTasks => exact keepsRequests_cleanupTasks

end Steda
