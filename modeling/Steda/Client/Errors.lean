import Steda.Basic

/-!
# Client errors

The error type of the crate, and the part of it a worker keeps running
through.
-/

namespace Steda

open Postgres

/-- `sqlx::Error`, up to the kinds the client tells apart. -/
inductive SqlxError
  | io (text : String)
  | tls (text : String)
  | poolTimedOut
  | database (code : Option String) (message : String)
  | other (text : String)

/-- `Error`. -/
inductive Error
  | database (error : SqlxError)
  | invalidOptions (text : String)
  | missingQueueName
  | queueNameTooLong (name : String) (max : Nat)
  | taskNotFound (taskId : Uuid)
  | taskNameMismatch (taskId : Uuid) (expected actual : String)
  | taskFailed (failure : Json)
  | suspended
  | cancelled
  | failedRun
  | leaseLost
  | idempotencyConflict
  | timeout (text : String)
  | invalidTaskHeaders (text : String)
  | serialization (text : String)
  | task (text : String)
  | other (text : String)

/-- `is_transient_sqlstate`. -/
def isTransientSqlstate (code : String) : Bool :=
  code.startsWith "08" || code.startsWith "40" || code.startsWith "53" ||
    code == "55P03" || code == "57P01" || code == "57P02" || code == "57P03"

/-- `is_transient_worker_error`. -/
def isTransientWorkerError : Error → Bool
  | .database (.io _) => true
  | .database (.tls _) => true
  | .database .poolTimedOut => true
  | .database (.database code _) => code.any isTransientSqlstate
  | _ => false

/-- The errors of `execute_task` that report a settled attempt. -/
def Error.isSettled : Error → Bool
  | .suspended => true
  | .cancelled => true
  | .failedRun => true
  | .leaseLost => true
  | _ => false

/-- `map_sqlx_error`. -/
def mapSqlxError : SqlxError → Error
  | .database (some "ST001") _ => .cancelled
  | .database (some "ST002") _ => .failedRun
  | .database (some "ST003") _ => .leaseLost
  | .database (some "ST004") _ => .idempotencyConflict
  | error => .database error

/-- An error of a stored function as the client receives it. -/
def SqlError.received (queue : String) (error : SqlError) : SqlxError :=
  .database (some error.sqlstate) (error.message queue)

end Steda
