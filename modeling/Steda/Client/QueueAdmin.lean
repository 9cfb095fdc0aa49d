import Steda.Client.Executor
import Steda.Client.SpawnOptions
import Steda.Installation

/-!
# Administering a queue

The administrative calls of a queue handle.  Each is one transaction of
administrative functions, except that reading the policy is one query.
-/

namespace Steda

open Postgres

/-! ## Policies of the client -/

/-- `QueuePolicyOptions`. -/
structure QueuePolicyOptions where
  cleanupTtl : Option Duration
  cleanupLimit : Option UInt32

/-- `QueuePolicy`. -/
structure QueuePolicy where
  queueName : String
  cleanupTtl : Duration
  cleanupLimit : UInt32

/-- The seconds and the limit that are sent to the database. -/
def QueuePolicyOptions.arguments (options : QueuePolicyOptions) :
    Except Error (Option Nat × Option Nat) := do
  let cleanupTtlSeconds ← options.cleanupTtl.mapM durationSeconds
  let cleanupLimit ← options.cleanupLimit.mapM fun value =>
    databasePositiveI32 value "cleanup_limit"
  return (cleanupTtlSeconds, cleanupLimit)

/-- The call of `set_queue_policy` with the arguments. -/
def setPolicyStatement (queue : String) (arguments : Option Nat × Option Nat) : AdminStatement :=
  .setQueuePolicy (some queue) (arguments.1.map Int.ofNat) (arguments.2.map Int.ofNat)

/-! ## Reading the policy -/

/-- `get_queue_policy`.  The name is validated for every row of the registry. -/
def Installation.getQueuePolicy (space : Char → Bool) (requestedQueueName : Option String)
    (installation : Installation) : Except InstallationError (Option Registered) :=
  if installation.registry.isEmpty then .ok none
  else do
    let queue ← validate space requestedQueueName
    return installation.find? queue

/-- `ceil(extract(epoch FROM interval))`. -/
def intervalSeconds (interval : Int) : Int := -(-interval / second)

/-- `queue_policy_from_row`. -/
def queuePolicyFromRow (row : Registered) : Except Error QueuePolicy :=
  let cleanupTtlSeconds := intervalSeconds row.queue.cleanupTtl
  if cleanupTtlSeconds < 0 then
    .error (.other "PostgreSQL returned a negative queue cleanup TTL")
  else if row.queue.cleanupLimit = 0 then
    .error (.other "PostgreSQL returned an invalid queue cleanup limit")
  else
    .ok { queueName := row.name
          cleanupTtl := .fromSeconds (UInt64.ofNat cleanupTtlSeconds.toNat)
          cleanupLimit := UInt32.ofNat row.queue.cleanupLimit }

/-- The SQLSTATE of an error. -/
def InstallationError.sqlstate : InstallationError → String
  | .schema (.duplicateRelation _) => "42P07"
  | .schema (.relationMissing _) => "42P01"
  | .schema (.notTable _) => "42809"
  | .schema (.columnMissing _) => "42703"
  | .queue _ => "P0001"
  | .primaryKeyMissing _ => "P0001"
  | .foreignKeysMissing _ => "P0001"
  | .queueMissing _ => "P0001"
  | .policy _ => "P0001"

/-- An error of an administrative function as the client receives it. -/
def InstallationError.received (error : InstallationError) : Error :=
  .database (.database (some error.sqlstate) error.message)

/-! ## Calls of a queue handle -/

/-- `Queue::policy`. -/
def Client.policy (space : Char → Bool) (queue : String) (installation : Installation) :
    Except Error (Option QueuePolicy) :=
  match installation.getQueuePolicy space (some queue) with
  | .error error => .error error.received
  | .ok row => row.mapM queuePolicyFromRow

/-- A call of a queue handle that changes the queue itself. -/
inductive HandleCall
  | createWithPolicy (queue : String) (policy : QueuePolicyOptions)
  | setPolicy (queue : String) (options : QueuePolicyOptions)
  | delete (queue : String)

/-- The transaction of a call, when its arguments are accepted. -/
def HandleCall.statements : HandleCall → Except Error (List AdminStatement)
  | .createWithPolicy queue policy => do
      let arguments ← policy.arguments
      return .createQueue (some queue) ::
        if arguments.1.isSome || arguments.2.isSome then [setPolicyStatement queue arguments]
        else []
  | .setPolicy queue options => do
      let arguments ← options.arguments
      return [setPolicyStatement queue arguments]
  | .delete queue => .ok [.dropQueue (some queue)]

/-- A call of a handle with what it returns, or a call about the tasks of a
queue. -/
inductive HandleEvent
  | administered (call : HandleCall) (outcome : Except Error Unit)
  | called (queue : String) (call : Call)

/-- A call whose arguments are refused reaches no database.  Every other one is
one transaction. -/
inductive Installation.Handled (space : Char → Bool) :
    Installation → HandleEvent → Installation → Prop
  | refused {before : Installation} {call : HandleCall} {error : Error}
      (refuses : call.statements = .error error) :
      Handled space before (.administered call (.error error)) before
  | committed {before after : Installation} {call : HandleCall}
      {statements : List AdminStatement} (sends : call.statements = .ok statements)
      (performs : before.administer space statements = .ok after) :
      Handled space before (.administered call (.ok ())) after
  | raised {before : Installation} {call : HandleCall} {statements : List AdminStatement}
      {error : InstallationError} (sends : call.statements = .ok statements)
      (raises : before.administer space statements = .error error) :
      Handled space before (.administered call (.error error.received)) before
  | called {before after : Installation} {queue : String} {call : Call}
      (steps : Installation.Step space before (.called queue call) after) :
      Handled space before (.called queue call) after

/-- A run of an installation that only queue handles administer. -/
abbrev Installation.HandledRun (space : Char → Bool) (events : List HandleEvent)
    (installation : Installation) : Prop :=
  Transaction.Trace (Installation.Handled space) .installed events installation

/-! ## What the calls promise -/

/-- A duration as it is stored. -/
def Duration.roundedUp (duration : Duration) : Duration :=
  .fromSeconds (duration.seconds + if 0 < duration.nanoseconds.val then 1 else 0)

/-- Unset options leave a policy as it is. -/
def QueuePolicyOptions.applied (options : QueuePolicyOptions) (policy : QueuePolicy) :
    QueuePolicy where
  queueName := policy.queueName
  cleanupTtl := (options.cleanupTtl.map Duration.roundedUp).getD policy.cleanupTtl
  cleanupLimit := options.cleanupLimit.getD policy.cleanupLimit

/-- The policy of a new queue: thirty days and a thousand tasks. -/
def QueuePolicy.default (queue : String) : QueuePolicy where
  queueName := queue
  cleanupTtl := .fromSeconds (30 * 86400)
  cleanupLimit := 1000

/-- The policies after a call that succeeds. -/
def HandleCall.after (policies : String → Option QueuePolicy) :
    HandleCall → String → Option QueuePolicy
  | .createWithPolicy queue policy =>
      Function.update policies queue
        (some (policy.applied ((policies queue).getD (.default queue))))
  | .setPolicy queue options =>
      Function.update policies queue ((policies queue).map options.applied)
  | .delete queue => Function.update policies queue none

/-- The policies after an event.  A call that fails changes none. -/
def HandleEvent.after (policies : String → Option QueuePolicy) :
    HandleEvent → String → Option QueuePolicy
  | .administered call (.ok _) => call.after policies
  | .administered _ (.error _) => policies
  | .called _ _ => policies

end Steda
