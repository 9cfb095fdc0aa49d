import Steda.CancellationPolicy
import Steda.Relational.Keyed
import Steda.Transaction.ReadCommitted

/-!
# The tables of one queue

The rows of `tasks_<queue>`, `runs_<queue>` and `checkpoints_<queue>` together
with the retention policy of the queue, the changes a statement can make to
them, and the constraints that may refuse a change.  Tables are lists in
insertion order.  `space` is the character class `[[:space:]]` of the database
locale.
-/

namespace Steda

open Postgres Transaction

/-- A row of `tasks_<queue>`: one logical task. -/
structure TaskRow where
  id : Uuid
  name : String
  params : Json
  headers : Option Json
  retryStrategy : Json
  initialMaxAttempts : Nat
  maxAttempts : Nat
  cancellation : Option Json
  enqueueAt : Timestamp
  firstStartedAt : Option Timestamp
  state : State
  attempts : Nat
  lastAttemptRun : Uuid
  cancelledAt : Option Timestamp
  idempotencyKey : Option String

/-- A row of `runs_<queue>`: one execution attempt. -/
structure RunRow where
  id : Uuid
  taskId : Uuid
  attempt : Nat
  state : State
  claimedBy : Option String
  claimExpiresAt : Option Timestamp
  availableAt : Timestamptz
  startedAt : Option Timestamp
  completedAt : Option Timestamp
  failedAt : Option Timestamp
  result : Option Json
  failureReason : Option Json

/-- What identifies the row of a run: no update changes the id or the task. -/
def RunRow.key (run : RunRow) : Uuid × Uuid := (run.taskId, run.id)

/-- A row of `checkpoints_<queue>`: one immutable named value of a task. -/
structure CheckpointRow where
  taskId : Uuid
  name : String
  state : Json

/-- The tables of one queue and its row of `steda.queues`. -/
structure Queue where
  tasks : List TaskRow
  runs : List RunRow
  checkpoints : List CheckpointRow
  cleanupTtl : Int
  cleanupLimit : Nat

/-- A string of the class `^[[:space:]]*$`. -/
def isBlank (space : Char → Bool) (text : String) : Bool := text.toList.all space

/-- Longest name, key and checkpoint name, in bytes. -/
def maxNameBytes : Nat := 1024

namespace TaskRow

/-- `cancellation_due` on a task row. -/
def due (task : TaskRow) (observedAt : Option Timestamptz) : Except SqlError Bool :=
  cancellationDue task.cancellation task.enqueueAt task.firstStartedAt observedAt

/-- The CHECK constraints of a task row. -/
def check (space : Char → Bool) (task : TaskRow) : Except SqlError Unit := do
  if isBlank space task.name ∨ maxNameBytes < task.name.utf8ByteSize then
    throw (.checkViolation "name")
  if (task.headers.map Json.isObject).getD true = false then throw (.checkViolation "headers")
  let delay ← retryDelaySeconds task.retryStrategy 1
  if delay < 0 then throw (.checkViolation "retry_strategy")
  if task.initialMaxAttempts < 1 then throw (.checkViolation "initial_max_attempts")
  if task.maxAttempts < task.initialMaxAttempts then throw (.checkViolation "max_attempts")
  if task.state = .cancelled ∧ task.cancelledAt.isNone then throw (.checkViolation "state")
  match task.idempotencyKey with
  | none => pure ()
  | some key =>
      if isBlank space key ∨ maxNameBytes < key.utf8ByteSize then
        throw (.checkViolation "idempotency_key")

end TaskRow

namespace RunRow

/-- A running run has an owner and a finite lease, any other run has neither. -/
def leaseMatchesState (space : Char → Bool) (run : RunRow) : Bool :=
  if run.state = .running then
    match run.claimedBy with
    | some worker => !isBlank space worker && run.claimExpiresAt.isSome
    | none => false
  else run.claimedBy.isNone && run.claimExpiresAt.isNone

/-- The CHECK constraints of a run row. -/
def check (space : Char → Bool) (run : RunRow) : Except SqlError Unit := do
  if run.attempt < 1 then throw (.checkViolation "attempt")
  if run.state = .completed ∧ (run.completedAt.isNone ∨ run.result.isNone) then
    throw (.checkViolation "completed_at")
  if run.state = .failed ∧ (run.failedAt.isNone ∨ run.failureReason.isNone) then
    throw (.checkViolation "failed_at")
  if !run.leaseMatchesState space then throw (.checkViolation "claimed_by")

end RunRow

/-- Keys of the lockable rows. -/
inductive RowKey
  | task (id : Uuid)
  | run (id : Uuid)
  deriving DecidableEq

/-- Changes of single rows.  `putTask` and `putRun` write a new version of a
row; deleting a task cascades to its runs and checkpoints. -/
inductive Change
  | insertTask (task : TaskRow)
  | putTask (task : TaskRow)
  | insertRun (run : RunRow)
  | putRun (run : RunRow)
  | insertCheckpoint (checkpoint : CheckpointRow)
  | deleteTask (id : Uuid)

namespace Queue

/-- The task with an id. -/
def findTask (queue : Queue) (id : Uuid) : Option TaskRow :=
  Relational.find TaskRow.id id queue.tasks

/-- The run with an id. -/
def findRun (queue : Queue) (id : Uuid) : Option RunRow :=
  Relational.find RunRow.id id queue.runs

/-- The task holding an idempotency key. -/
def findKey (queue : Queue) (key : String) : Option TaskRow :=
  queue.tasks.find? fun task => task.idempotencyKey == some key

/-- The runs of a task, oldest first. -/
def runsOf (queue : Queue) (id : Uuid) : List RunRow :=
  Relational.select RunRow.taskId id queue.runs

/-- The checkpoint of a task under a name. -/
def findCheckpoint (queue : Queue) (task : Uuid) (name : String) : Option CheckpointRow :=
  queue.checkpoints.find? fun row => row.taskId == task && row.name == name

def insertTask (queue : Queue) (task : TaskRow) : Queue :=
  { queue with tasks := queue.tasks ++ [task] }

def putTask (queue : Queue) (task : TaskRow) : Queue :=
  { queue with tasks := Relational.replace TaskRow.id task queue.tasks }

def insertRun (queue : Queue) (run : RunRow) : Queue :=
  { queue with runs := queue.runs ++ [run] }

def putRun (queue : Queue) (run : RunRow) : Queue :=
  { queue with runs := Relational.replace RunRow.key run queue.runs }

def insertCheckpoint (queue : Queue) (checkpoint : CheckpointRow) : Queue :=
  { queue with checkpoints := queue.checkpoints ++ [checkpoint] }

def deleteTask (queue : Queue) (id : Uuid) : Queue :=
  { queue with
    tasks := queue.tasks.filter fun task => task.id != id
    runs := queue.runs.filter fun run => run.taskId != id
    checkpoints := queue.checkpoints.filter fun row => row.taskId != id }

/-- The queue after a change. -/
def apply : Change → Queue → Queue
  | .insertTask task, queue => queue.insertTask task
  | .putTask task, queue => queue.putTask task
  | .insertRun run, queue => queue.insertRun run
  | .putRun run, queue => queue.putRun run
  | .insertCheckpoint checkpoint, queue => queue.insertCheckpoint checkpoint
  | .deleteTask id, queue => queue.deleteTask id

/-- The partial unique index: another active run of the same task exists. -/
def hasOtherActiveRun (queue : Queue) (run : RunRow) : Bool :=
  queue.runs.any fun row => row.taskId == run.taskId && row.id != run.id && row.state.active

/-- Constraint checks of one change.  Inserting a task is
`ON CONFLICT (idempotency_key) DO NOTHING` and inserting a checkpoint
`ON CONFLICT (task_id, name) DO NOTHING`. -/
def attempt (space : Char → Bool) : Change → Queue → Except SqlError Bool
  | .insertTask task, queue => do
      task.check space
      if task.idempotencyKey.isSome ∧
          queue.tasks.any (fun row => row.idempotencyKey == task.idempotencyKey) then
        return false
      if queue.tasks.any fun row => row.id == task.id then
        throw (.uniqueViolation "tasks_pkey")
      return true
  | .putTask task, _ => do
      task.check space
      return true
  | .insertRun run, queue => do
      run.check space
      if queue.runs.any fun row => row.id == run.id then
        throw (.uniqueViolation "runs_pkey")
      if queue.runs.any fun row => row.taskId == run.taskId && row.attempt == run.attempt then
        throw (.uniqueViolation "runs_task_id_attempt_key")
      if run.state.active ∧ queue.hasOtherActiveRun run then
        throw (.uniqueViolation "runs_one_active_run_index")
      if !(queue.tasks.any fun task => task.id == run.taskId) then
        throw (.foreignKeyViolation "runs_task_id_fkey")
      return true
  | .putRun run, queue => do
      run.check space
      if run.state.active ∧ queue.hasOtherActiveRun run then
        throw (.uniqueViolation "runs_one_active_run_index")
      return true
  | .insertCheckpoint checkpoint, queue => do
      if isBlank space checkpoint.name ∨ maxNameBytes < checkpoint.name.utf8ByteSize then
        throw (.checkViolation "name")
      if (queue.findCheckpoint checkpoint.taskId checkpoint.name).isSome then return false
      if !(queue.tasks.any fun task => task.id == checkpoint.taskId) then
        throw (.foreignKeyViolation "checkpoints_task_id_fkey")
      return true
  | .deleteTask _, _ => .ok true

/-- The deferred reference from every task to its last run. -/
def deferred (queue : Queue) : Except SqlError Unit :=
  if queue.tasks.all fun task =>
      queue.runs.any fun run => run.taskId == task.id && run.id == task.lastAttemptRun then
    .ok ()
  else .error (.foreignKeyViolation "tasks_last_attempt_run_fkey")

/-- The lockable rows of the queue. -/
def present : RowKey → Queue → Bool
  | .task id, queue => (queue.findTask id).isSome
  | .run id, queue => (queue.findRun id).isSome

/-- A queue without tasks. -/
def empty (cleanupTtl : Int) (cleanupLimit : Nat) : Queue :=
  { tasks := [], runs := [], checkpoints := [], cleanupTtl, cleanupLimit }

end Queue

/-- The row a change writes and therefore locks.  The runs a deleted task
takes with it are locked before. -/
def Change.touches : Change → List RowKey
  | .insertTask task | .putTask task => [.task task.id]
  | .insertRun run | .putRun run => [.run run.id]
  | .insertCheckpoint _ => []
  | .deleteTask id => [.task id]

/-- The tables as a transactional store. -/
def storage (space : Char → Bool) : Storage Queue RowKey Change SqlError where
  present := Queue.present
  attempt := Queue.attempt space
  apply := Queue.apply
  touches := Change.touches
  deferred := Queue.deferred

/-- The answers of the queue's database. -/
abbrev Answer : Command RowKey Change → Type := Command.Response Queue Timestamp Uuid

/-- A stored function: a transaction over the tables of one queue. -/
abbrev Sql (α : Type) : Type := Program Answer SqlError α

/-- A queue with the clock readings and identifiers still to come. -/
abbrev World : Type := Session Queue Timestamp Uuid

/-! ## Statements -/

/-- `steda.current_time()`. -/
def currentTime : Sql Timestamp := Program.issue (.clock : Command RowKey Change)

/-- `uuidv7()`. -/
def uuidv7 : Sql Uuid := Program.issue (.ident : Command RowKey Change)

/-- Start a statement: the committed rows and the transaction's own changes. -/
def snapshot : Sql Queue := Program.issue (.read : Command RowKey Change)

/-- Lock a task and read its newest version. -/
def lockTask (id : Uuid) (policy : LockPolicy) : Sql (Option TaskRow) := do
  let newest ← (Program.issue (.lock (.task id) policy : Command RowKey Change) :
    Sql (Option Queue))
  return newest.bind fun queue => queue.findTask id

/-- Lock a run and read its newest version. -/
def lockRun (id : Uuid) (policy : LockPolicy) : Sql (Option RunRow) := do
  let newest ← (Program.issue (.lock (.run id) policy : Command RowKey Change) :
    Sql (Option Queue))
  return newest.bind fun queue => queue.findRun id

/-- Change one row; the answer says whether the change took place. -/
def change (change : Change) : Sql Bool :=
  Program.issue (.write change : Command RowKey Change)

/-- `UPDATE tasks SET … WHERE id = $1`. -/
def updateTask (id : Uuid) (set : TaskRow → TaskRow) : Sql Unit := do
  match ← lockTask id .wait with
  | some task => let _ ← change (.putTask (set task))
  | none => pure ()

/-- `UPDATE runs SET … WHERE id = $1`. -/
def updateRun (id : Uuid) (set : RunRow → RunRow) : Sql Unit := do
  match ← lockRun id .wait with
  | some run => let _ ← change (.putRun (set run))
  | none => pure ()

/-- Lock candidate rows in order and keep those for which the newest version of
the run still satisfies the condition of the statement, up to a limit. -/
def lockRuns {α : Type} (policy : LockPolicy) (runId : α → Uuid)
    (keeps : α → RunRow → Except SqlError Bool) : List α → Nat → Sql (List (α × RunRow))
  | [], _ => pure []
  | _ :: _, 0 => pure []
  | candidate :: rest, limit + 1 => do
      match ← lockRun (runId candidate) policy with
      | none => lockRuns policy runId keeps rest (limit + 1)
      | some run =>
          if ← Program.ofExcept (keeps candidate run) then
            let others ← lockRuns policy runId keeps rest limit
            return (candidate, run) :: others
          else lockRuns policy runId keeps rest (limit + 1)

end Steda
