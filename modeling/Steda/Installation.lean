import Steda.Functions.Maintenance
import Steda.Functions.QueuePolicy
import Steda.History
import Steda.Postgres.Definition

/-!
# Queues of an installation

The administrative functions create, drop and configure queues in one schema.
They run in transactions of their own, alone or several together, between the
calls that the clients of the queues make.
-/

namespace Steda

open Postgres Relational

/-! ## Storage of a queue -/

/-- The columns of `tasks_<queue>`. -/
def tasksColumns : List String :=
  ["id", "name", "params", "headers", "retry_strategy", "initial_max_attempts", "max_attempts",
    "cancellation", "enqueue_at", "first_started_at", "state", "attempts", "last_attempt_run",
    "cancelled_at", "idempotency_key"]

/-- The columns of `runs_<queue>`. -/
def runsColumns : List String :=
  ["id", "task_id", "attempt", "state", "claimed_by", "claim_expires_at", "available_at",
    "started_at", "completed_at", "failed_at", "result", "failure_reason", "created_at"]

/-- The columns of `checkpoints_<queue>`. -/
def checkpointsColumns : List String := ["task_id", "name", "state"]

/-- The statements of `create_queue_tables`. -/
def queueCreations (queue : String) : List Creation :=
  [.createTable (tasksTable queue) tasksColumns [.primary, .unique ["idempotency_key"]] [],
    .createTable (runsTable queue) runsColumns
      [.primary, .unique ["task_id", "attempt"], .unique ["task_id", "id"]] [tasksTable queue],
    .addForeignKey (tasksTable queue) (runsTable queue),
    .createTable (checkpointsTable queue) checkpointsColumns [.primary] [tasksTable queue],
    .createIndex (stateAvailableAtIndex queue) (runsTable queue),
    .createIndex (oneActiveRunIndex queue) (runsTable queue),
    .createIndex (claimExpiresAtIndex queue) (runsTable queue)]

/-- The tables of a queue, in the order in which `drop_queue` drops them. -/
def queueTables (queue : String) : List String :=
  [checkpointsTable queue, runsTable queue, tasksTable queue]

/-- The indexes `verify_queue_storage` looks for. -/
def queueIndexes (queue : String) : List String :=
  [stateAvailableAtIndex queue, oneActiveRunIndex queue, claimExpiresAtIndex queue]

/-- What an administrative function fails with. -/
inductive InstallationError
  | queue (error : QueueError)
  | schema (error : SchemaError)
  | primaryKeyMissing (queue : String)
  | foreignKeysMissing (queue : String)
  | queueMissing (queue : String)
  | policy (error : QueuePolicyError)
  deriving DecidableEq, Repr

/-- The text of an error. -/
def InstallationError.message : InstallationError → String
  | .queue error => error.message
  | .schema error => error.message
  | .primaryKeyMissing name => "Queue \"" ++ name ++ "\" storage is missing a primary key"
  | .foreignKeysMissing name => "Queue \"" ++ name ++ "\" storage is missing required foreign keys"
  | .queueMissing name => "Queue \"" ++ name ++ "\" does not exist"
  | .policy error => error.message

/-! ## Administrative functions -/

/-- The registered queues and the schema that holds their storage. -/
structure Installation where
  registry : List Registered
  schema : Schema

namespace Installation

/-- The schema as `0000_core.sql` installs it. -/
def installed : Installation where
  registry := []
  schema :=
    { relations :=
        [.table "queues" ["name", "created_at", "cleanup_ttl", "cleanup_limit"],
          .index "queues_pkey" "queues"]
      constraints := [.primaryKey "queues"] }

/-- The registration of a name. -/
def find? (installation : Installation) (name : String) : Option Registered :=
  find Registered.name name installation.registry

/-- `validate_queue_name`. -/
def validate (space : Char → Bool) (queueName : Option String) :
    Except InstallationError String :=
  (validateQueueName space queueName).mapError .queue

/-- `create_queue_tables`. -/
def createQueueTables (space : Char → Bool) (queueName : String) (schema : Schema) :
    Except InstallationError Schema := do
  let queue ← validate space (some queueName)
  (Creation.performAll (queueCreations queue) schema).mapError .schema

/-- `verify_queue_storage`. -/
def verifyQueueStorage (space : Char → Bool) (queueName : String) (schema : Schema) :
    Except InstallationError Unit := do
  let queue ← validate space (some queueName)
  if (queueTables queue).any fun name => (schema.find? (truncateIdentifier name)).isNone then
    throw (.queue (.storageIncomplete queue))
  (schema.select tasksColumns (tasksTable queue)).mapError .schema
  (schema.select runsColumns (runsTable queue)).mapError .schema
  (schema.select checkpointsColumns (checkpointsTable queue)).mapError .schema
  if (queueIndexes queue).any fun name => (schema.find? (truncateIdentifier name)).isNone then
    throw (.queue (.indexesMissing queue))
  if (queueTables queue).any fun name =>
      !schema.constraints.contains (.primaryKey (truncateIdentifier name)) then
    throw (.primaryKeyMissing queue)
  if [(tasksTable queue, runsTable queue), (runsTable queue, tasksTable queue),
      (checkpointsTable queue, tasksTable queue)].any fun pair =>
        !schema.constraints.contains
          (.foreignKey (truncateIdentifier pair.1) (truncateIdentifier pair.2)) then
    throw (.foreignKeysMissing queue)

/-- `create_queue`. -/
def createQueue (space : Char → Bool) (queueName : Option String) (installation : Installation) :
    Except InstallationError Installation := do
  let queue ← validate space queueName
  if (installation.find? queue).isSome then
    verifyQueueStorage space queue installation.schema
    return installation
  else
    let schema ← createQueueTables space queue installation.schema
    return { registry := installation.registry ++ [⟨queue, createdQueue⟩], schema := schema }

/-- `drop_queue`. -/
def dropQueue (space : Char → Bool) (queueName : Option String) (installation : Installation) :
    Except InstallationError Installation := do
  let queue ← validate space queueName
  match installation.find? queue with
  | none => return installation
  | some _ =>
      let schema ← ((queueTables queue).foldlM
        (fun (schema : Schema) table => schema.dropTable table)
        installation.schema).mapError .schema
      return { registry := installation.registry.filter fun row => row.name != queue
               schema := schema }

/-- Write a new version of a queue. -/
def withQueue (installation : Installation) (name : String) (queue : Queue) : Installation :=
  { installation with registry := replace Registered.name ⟨name, queue⟩ installation.registry }

/-- `set_queue_policy`. -/
def setQueuePolicy (space : Char → Bool) (queueName : Option String)
    (requestedCleanupTtlSeconds requestedCleanupLimit : Option Int)
    (installation : Installation) : Except InstallationError Installation := do
  let queue ← validate space queueName
  match installation.find? queue with
  | none => throw (.queueMissing queue)
  | some row =>
      let changed ← (Steda.setQueuePolicy requestedCleanupTtlSeconds requestedCleanupLimit
        row.queue).mapError .policy
      return installation.withQueue queue changed

end Installation

/-! ## Runs -/

/-- A call of an administrative function. -/
inductive AdminStatement
  | createQueue (queueName : Option String)
  | dropQueue (queueName : Option String)
  | setQueuePolicy (queueName : Option String)
      (requestedCleanupTtlSeconds requestedCleanupLimit : Option Int)
  deriving DecidableEq, Repr

/-- Execute a call. -/
def AdminStatement.perform (space : Char → Bool) (installation : Installation) :
    AdminStatement → Except InstallationError Installation
  | .createQueue queueName => installation.createQueue space queueName
  | .dropQueue queueName => installation.dropQueue space queueName
  | .setQueuePolicy queueName requestedCleanupTtlSeconds requestedCleanupLimit =>
      installation.setQueuePolicy space queueName requestedCleanupTtlSeconds requestedCleanupLimit

/-- Execute the calls of one transaction. -/
def Installation.administer (space : Char → Bool) (statements : List AdminStatement)
    (installation : Installation) : Except InstallationError Installation :=
  statements.foldlM (AdminStatement.perform space) installation

/-- A transaction of administrative functions with its error, or a call of a
client of one queue. -/
inductive InstallationEvent
  | administered (statements : List AdminStatement) (error : Option InstallationError)
  | called (queue : String) (call : Call)

/-- Transactions take effect one after the other.  One that fails is undone. -/
inductive Installation.Step (space : Char → Bool) :
    Installation → InstallationEvent → Installation → Prop
  | committed {before after : Installation} {statements : List AdminStatement}
      (performs : before.administer space statements = .ok after) :
      Step space before (.administered statements none) after
  | raised {before : Installation} {statements : List AdminStatement} {error : InstallationError}
      (raises : before.administer space statements = .error error) :
      Step space before (.administered statements (some error)) before
  | called {before : Installation} {row : Registered} {call : Call} {world after : World}
      (registered : before.find? row.name = some row) (rows : world.store = row.queue)
      (served : Served space world call after) :
      Step space before (.called row.name call) (before.withQueue row.name after.store)

/-- A run of an installation. -/
abbrev Installation.Run (space : Char → Bool) (events : List InstallationEvent)
    (installation : Installation) : Prop :=
  Transaction.Trace (Installation.Step space) .installed events installation

/-! ## Policies -/

/-- The TTL and the limit of every registered queue: what the administrative
functions are about. -/
abbrev Policies : Type := String → Option (Int × Nat)

/-- The policy of a queue. -/
def Queue.policy (queue : Queue) : Int × Nat := (queue.cleanupTtl, queue.cleanupLimit)

/-- The policies of an installation. -/
def Installation.policies (installation : Installation) : Policies :=
  fun name => (installation.find? name).map fun row => row.queue.policy

/-- The policies after a call that returns. -/
def AdminStatement.after (policies : Policies) : AdminStatement → Policies
  | .createQueue queueName =>
      match queueName with
      | none => policies
      | some name =>
          Function.update policies name (some ((policies name).getD createdQueue.policy))
  | .dropQueue queueName =>
      match queueName with
      | none => policies
      | some name => Function.update policies name none
  | .setQueuePolicy queueName requestedCleanupTtlSeconds requestedCleanupLimit =>
      match queueName with
      | none => policies
      | some name =>
          Function.update policies name ((policies name).map fun policy =>
            ((requestedCleanupTtlSeconds.map (· * second)).getD policy.1,
              (requestedCleanupLimit.getD policy.2).toNat))

/-- The policies after an event.  Only transactions that commit change them. -/
def InstallationEvent.after (policies : Policies) : InstallationEvent → Policies
  | .administered statements none => statements.foldl AdminStatement.after policies
  | .administered _ (some _) => policies
  | .called _ _ => policies

end Steda
