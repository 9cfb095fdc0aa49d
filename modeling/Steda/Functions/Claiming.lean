import Steda.Functions.Submission

/-!
# Expired leases, supervision and claiming

A claim first sweeps due deadlines and expired leases and then claims, in one
statement, the first runnable runs in order of availability.
-/

namespace Steda

open Postgres Transaction

/-- Failure name of a reaped lease. -/
def leaseExpiredName : String := "$LeaseExpired"

/-- The failure payload of a reaped lease.  The text of `claimExpiredAt`
depends on the time zone of the session and is never read; it is rendered here
as the microsecond count of the expiry. -/
def leaseExpiredReason (context : AttemptContext) : Json :=
  .object <|
    [("name", .string leaseExpiredName),
      ("attempt", .number (Numeric.ofInt context.attempt)),
      ("message", .string "worker did not renew task lease before expiry")] ++
    (match context.claimedBy with
      | some worker => [("workerId", .string worker)]
      | none => []) ++
    (match context.claimExpiresAt with
      | some expiry => [("claimExpiredAt", .string (toString expiry))]
      | none => [])

/-- The locked run is still running with an expired lease. -/
def AttemptContext.leaseExpired (context : AttemptContext) : Bool :=
  context.runState == .running &&
    match context.claimExpiresAt with
    | none => false
    | some expiry => expiry ≤ context.observedAt

/-- `steda.reap_expired_run`. -/
def reapExpiredRun (runId : Uuid) : Sql Bool := do
  let context ← lockAttemptContext runId
  if !context.leaseExpired then return false
  if context.taskState ≠ .running ∨ context.authoritativeRunId ≠ runId then
    .raise (.expiredRunNotAuthoritative runId context.taskId)
  else
    failRun runId (some (leaseExpiredReason context)) (some true)
    return true

/-- The outcomes of `steda.supervise_run`. -/
inductive RunSupervision
  | running
  | completed
  | failed
  | cancelled
  | suspended
  | leaseLost
  deriving DecidableEq, Repr

/-- The supervision of a failed run. -/
def supervisedFailure (reason : Option Json) : RunSupervision :=
  if (reason.bind fun reason => reason.text? "name") = some leaseExpiredName then .leaseLost
  else .failed

/-- Extend a lease, never shortening it. -/
def RunRow.renew (run : RunRow) (expiry : Timestamp) : RunRow :=
  { run with claimExpiresAt := some ((run.claimExpiresAt.map (max · expiry)).getD expiry) }

/-- The supervision of a run that is still running. -/
def superviseRunning (runId : Uuid) (renewForSeconds : Option Int)
    (context : AttemptContext) : Sql RunSupervision := do
  if context.taskState ≠ .running ∨ context.authoritativeRunId ≠ runId then
    .raise (.runningRunNotAuthoritative runId context.taskId)
  else if ← Program.ofExcept (context.due context.observedAt) then
    let _ ← cancelTask context.taskId
    return .cancelled
  else
    match context.claimExpiresAt with
    | none => .raise (.noFiniteClaim runId)
    | some expiry =>
        if expiry ≤ context.observedAt then
          let _ ← reapExpiredRun runId
          let visible ← snapshot
          return if (visible.findTask context.taskId).map TaskRow.state = some .cancelled
            then .cancelled else .leaseLost
        else
          match renewForSeconds with
          | none => return .running
          | some seconds =>
              if 2 * (expiry - context.observedAt) ≤ seconds * second then
                updateRun runId fun run => run.renew (context.observedAt + seconds * second)
              return .running

/-- `steda.supervise_run`. -/
def superviseRun (runId : Uuid) (renewForSeconds : Option Int) : Sql RunSupervision := do
  if (renewForSeconds.map fun seconds => decide (seconds ≤ 0)) = some true then
    .raise .renewForSecondsNotPositive
  else
    let context ← lockAttemptContext runId
    if context.taskState = .cancelled ∨ context.runState = .cancelled then return .cancelled
    match context.runState with
    | .failed => return supervisedFailure context.failureReason
    | .completed => return .completed
    | .sleeping => return .suspended
    | .running => superviseRunning runId renewForSeconds context
    | state => .raise (.unsupportedSupervisionState runId state)

/-! ## Sweeps -/

/-- A running run whose lease ends at or before a time. -/
def expiredAt (nowAt : Timestamp) (run : RunRow) : Bool :=
  run.state == .running &&
    match run.claimExpiresAt with
    | none => false
    | some expiry => expiry ≤ nowAt

/-- Order of `ORDER BY claim_expires_at, id`. -/
def expiryOrder (left right : RunRow) : Prop :=
  left.claimExpiresAt.getD 0 < right.claimExpiresAt.getD 0 ∨
    (left.claimExpiresAt.getD 0 = right.claimExpiresAt.getD 0 ∧ left.id ≤ right.id)

instance : DecidableRel expiryOrder := fun _ _ =>
  inferInstanceAs (Decidable (_ ∨ _))

/-- Reap the selected runs and count those that were still expired. -/
def reapEach : List Uuid → Sql Nat
  | [] => pure 0
  | runId :: rest => do
      let reaped ← reapExpiredRun runId
      let others ← reapEach rest
      return (if reaped then 1 else 0) + others

/-- `steda.reap_expired_runs`. -/
def reapExpiredRuns (reapLimit : Option Int) : Sql Nat := do
  let nowAt ← currentTime
  match reapLimit with
  | none => .raise .reapLimitNotPositive
  | some limit =>
      if limit ≤ 0 then .raise .reapLimitNotPositive
      else
        let visible ← snapshot
        let candidates := (visible.runs.filter (expiredAt nowAt)).insertionSort expiryOrder
        let expired ← lockRuns .skipLocked RunRow.id (fun _ run => .ok (expiredAt nowAt run))
          candidates limit.toNat
        reapEach (expired.map fun pair => pair.2.id)

/-- Keep the elements that satisfy a fallible condition. -/
def filterExcept {ε α : Type} (keeps : α → Except ε Bool) : List α → Except ε (List α)
  | [] => .ok []
  | value :: rest => do
      let kept ← keeps value
      let others ← filterExcept keeps rest
      return if kept then value :: others else others

/-- The candidate condition of `steda.cancel_expired_tasks` on a task and its
last run.  The deadline is evaluated on rows that meet the state conditions. -/
def deadlineCandidate (nowAt : Timestamp) (task : TaskRow) (run : RunRow) :
    Except SqlError Bool :=
  if task.state.active && run.state.active then task.due nowAt else .ok false

/-- The join of tasks with their last runs. -/
def lastRunJoin (visible : Queue) : List (TaskRow × RunRow) :=
  visible.tasks.filterMap fun task =>
    (visible.findRun task.lastAttemptRun).map fun run => (task, run)

/-- Cancel the selected tasks and count the cancellations. -/
def cancelEach : List Uuid → Sql Nat
  | [] => pure 0
  | taskId :: rest => do
      let cancelled ← cancelTask taskId
      let others ← cancelEach rest
      return (if cancelled then 1 else 0) + others

/-- `steda.cancel_expired_tasks`.  A candidate reserves its authoritative run;
its deadline is tested on the task row of the statement's snapshot. -/
def cancelExpiredTasks (cancelLimit : Option Int) : Sql Nat := do
  let nowAt ← currentTime
  match cancelLimit with
  | none => .raise .cancelLimitNotPositive
  | some limit =>
      if limit ≤ 0 then .raise .cancelLimitNotPositive
      else
        let visible ← snapshot
        let candidates ← Program.ofExcept <|
          filterExcept (fun pair => deadlineCandidate nowAt pair.1 pair.2) (lastRunJoin visible)
        let ordered := candidates.insertionSort fun left right => left.1.id ≤ right.1.id
        let due ← lockRuns .skipLocked (fun pair => pair.2.id)
          (fun pair run => deadlineCandidate nowAt pair.1 run) ordered limit.toNat
        cancelEach (due.map fun selected => selected.1.1.id)

/-! ## Claiming -/

/-- Arguments of `steda.claim_tasks`. -/
structure ClaimRequest where
  workerId : String
  leaseSeconds : Int
  quantity : Int
  taskNames : List String

/-- Validation of the arguments of `steda.claim_tasks`. -/
def validateClaim (space : Char → Bool) (workerId : Option String)
    (leaseSeconds quantity : Option Int) (taskNames : Option (List (Option String))) :
    Except SqlError ClaimRequest := do
  match workerId with
  | none => throw .workerIdMissing
  | some workerId =>
      if isBlank space workerId then throw .workerIdMissing
      match leaseSeconds with
      | none => throw .leaseSecondsNotPositive
      | some leaseSeconds =>
          if leaseSeconds ≤ 0 then throw .leaseSecondsNotPositive
          match quantity with
          | none => throw .quantityNotPositive
          | some quantity =>
              if quantity ≤ 0 then throw .quantityNotPositive
              match taskNames with
              | none => throw .taskNamesMissing
              | some names =>
                  if names.isEmpty then throw .taskNamesMissing
                  if names.any fun name => (name.map (isBlank space)).getD true then
                    throw .taskNamesBlank
                  return {
                    workerId := workerId
                    leaseSeconds := leaseSeconds
                    quantity := quantity
                    taskNames := names.filterMap id }

/-- The candidate condition of the claim statement. -/
def claimCandidate (nowAt : Timestamp) (taskNames : List String) (task : TaskRow)
    (run : RunRow) : Except SqlError Bool :=
  if run.state.claimable && task.state.claimable && task.lastAttemptRun == run.id &&
      decide (run.availableAt ≤ nowAt) && taskNames.contains task.name then
    (task.due nowAt).map not
  else .ok false

/-- Order of `ORDER BY available_at, id`. -/
def availabilityOrder (left right : RunRow) : Prop :=
  left.availableAt < right.availableAt ∨
    (left.availableAt = right.availableAt ∧ left.id ≤ right.id)

instance : DecidableRel availabilityOrder := fun _ _ =>
  inferInstanceAs (Decidable (_ ∨ _))

/-- A claimed run. -/
def RunRow.claim (run : RunRow) (workerId : String) (nowAt expiresAt : Timestamp) : RunRow :=
  { run with
    state := .running
    claimedBy := some workerId
    claimExpiresAt := some expiresAt
    startedAt := some (run.startedAt.getD nowAt)
    availableAt := nowAt }

/-- The task row of a claimed run. -/
def TaskRow.claim (task : TaskRow) (run : RunRow) (nowAt : Timestamp) : TaskRow :=
  { task with
    state := .running
    attempts := max task.attempts run.attempt
    firstStartedAt := some (task.firstStartedAt.getD nowAt)
    lastAttemptRun := run.id }

/-- One row of the result of `steda.claim_tasks`. -/
structure ClaimedTask where
  runId : Uuid
  taskId : Uuid
  attempt : Nat
  taskName : String
  params : Json
  headers : Option Json

/-- The `updated_runs` part of the claim statement. -/
def claimRuns (workerId : String) (nowAt expiresAt : Timestamp) : List RunRow → Sql Unit
  | [] => pure ()
  | run :: rest => do
      updateRun run.id fun run => run.claim workerId nowAt expiresAt
      claimRuns workerId nowAt expiresAt rest

/-- The `updated_tasks` part of the claim statement. -/
def claimTaskRows (nowAt : Timestamp) : List RunRow → Sql Unit
  | [] => pure ()
  | run :: rest => do
      updateTask run.taskId fun task => task.claim run nowAt
      claimTaskRows nowAt rest

/-- The join of runs with their tasks. -/
def taskJoin (visible : Queue) : List (TaskRow × RunRow) :=
  visible.runs.filterMap fun run =>
    (visible.findTask run.taskId).map fun task => (task, run)

/-- A row of the claim statement's result: the task of its snapshot and the
attempt of the updated run. -/
def claimedTask (task : TaskRow) (run : RunRow) : ClaimedTask where
  runId := run.id
  taskId := task.id
  attempt := run.attempt
  taskName := task.name
  params := task.params
  headers := task.headers

/-- The claim statement of `steda.claim_tasks`.  The result is ordered by the
availability of its snapshot, before the update. -/
def claimStatement (request : ClaimRequest) (nowAt : Timestamp) : Sql (List ClaimedTask) := do
  let expiresAt := nowAt + request.leaseSeconds * second
  let visible ← snapshot
  let candidates ← Program.ofExcept <|
    filterExcept (fun pair => claimCandidate nowAt request.taskNames pair.1 pair.2)
      (taskJoin visible)
  let ordered := candidates.insertionSort fun left right => availabilityOrder left.2 right.2
  let selected ← lockRuns .skipLocked (fun pair => pair.2.id)
    (fun pair run => claimCandidate nowAt request.taskNames pair.1 run) ordered
    request.quantity.toNat
  let claimed := selected.map fun row => row.2
  claimRuns request.workerId nowAt expiresAt claimed
  claimTaskRows nowAt claimed
  let result := selected.insertionSort fun left right => availabilityOrder left.1.2 right.1.2
  return result.map fun row => claimedTask row.1.1 row.2

/-- `steda.claim_tasks`. -/
def claimTasks (space : Char → Bool) (workerId : Option String)
    (leaseSeconds quantity : Option Int) (taskNames : Option (List (Option String))) :
    Sql (List ClaimedTask) := do
  let _ ← currentTime
  let request ← Program.ofExcept (validateClaim space workerId leaseSeconds quantity taskNames)
  let _ ← cancelExpiredTasks (some request.quantity)
  let _ ← reapExpiredRuns (some request.quantity)
  let nowAt ← currentTime
  claimStatement request nowAt

end Steda
