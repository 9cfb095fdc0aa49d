import Steda.Contracts.ClaimStatement
import Steda.Contracts.Retention
import Steda.Contracts.Submission
import Steda.Transaction.Trace

/-!
# Operations on a queue

A client calls a stored function; the call runs as one transaction.  A history
is a sequence of calls from an empty queue, with arbitrary clock readings and
fresh identifiers.  `Operation.Caused` lists the events a returning call has
caused, whatever the state it found.
-/

namespace Steda

open Postgres Transaction Relational

variable {space : Char → Bool}

/-- A call of a stored function. -/
inductive Operation
  | spawnTask (taskName : Option String) (params options : Option Json)
  | claimTasks (workerId : Option String) (leaseSeconds quantity : Option Int)
      (taskNames : Option (List (Option String)))
  | completeRun (runId : Uuid) (result : Option Json)
  | failRun (runId : Uuid) (reason : Option Json) (expectExpiredLease : Option Bool)
  | scheduleRun (runId : Uuid) (wakeAt : Option Timestamptz)
  | superviseRun (runId : Uuid) (renewForSeconds : Option Int)
  | reapExpiredRun (runId : Uuid)
  | reapExpiredRuns (reapLimit : Option Int)
  | cancelTask (taskId : Uuid)
  | cancelExpiredTasks (cancelLimit : Option Int)
  | retryTask (taskId : Uuid)
  | setTaskCheckpointState (taskId : Uuid) (checkpointName : Option String)
      (newCheckpointState : Option Json) (runId : Uuid)
  | getTaskCheckpointStates (taskId runId : Uuid)
  | getTaskResult (taskId : Uuid)
  | cleanupTasks

namespace Operation

/-- What a call returns. -/
@[reducible] def Result : Operation → Type
  | .spawnTask _ _ _ => SpawnResult
  | .claimTasks _ _ _ _ => List ClaimedTask
  | .completeRun _ _ => Bool
  | .failRun _ _ _ => Unit
  | .scheduleRun _ _ => ScheduleOutcome
  | .superviseRun _ _ => RunSupervision
  | .reapExpiredRun _ => Bool
  | .reapExpiredRuns _ => Nat
  | .cancelTask _ => Bool
  | .cancelExpiredTasks _ => Nat
  | .retryTask _ => Uuid
  | .setTaskCheckpointState _ _ _ _ => CheckpointResult
  | .getTaskCheckpointStates _ _ => List (String × Json)
  | .getTaskResult _ => Option TaskResult
  | .cleanupTasks => Nat

/-- The stored function a call runs. -/
def program (space : Char → Bool) : (operation : Operation) → Sql operation.Result
  | .spawnTask taskName params options => Steda.spawnTask space taskName params options
  | .claimTasks workerId leaseSeconds quantity taskNames =>
      Steda.claimTasks space workerId leaseSeconds quantity taskNames
  | .completeRun runId result => Steda.completeRun runId result
  | .failRun runId reason expectExpiredLease => Steda.failRun runId reason expectExpiredLease
  | .scheduleRun runId wakeAt => Steda.scheduleRun runId wakeAt
  | .superviseRun runId renewForSeconds => Steda.superviseRun runId renewForSeconds
  | .reapExpiredRun runId => Steda.reapExpiredRun runId
  | .reapExpiredRuns reapLimit => Steda.reapExpiredRuns reapLimit
  | .cancelTask taskId => Steda.cancelTask taskId
  | .cancelExpiredTasks cancelLimit => Steda.cancelExpiredTasks cancelLimit
  | .retryTask taskId => Steda.retryTask taskId
  | .setTaskCheckpointState taskId checkpointName newCheckpointState runId =>
      Steda.setTaskCheckpointState space taskId checkpointName newCheckpointState runId
  | .getTaskCheckpointStates taskId runId => Steda.getTaskCheckpointStates taskId runId
  | .getTaskResult taskId => Steda.getTaskResult taskId
  | .cleanupTasks => Steda.cleanupTasks

/-- Run a call as one transaction. -/
def perform (space : Char → Bool) (operation : Operation) (world : World) :
    Except SqlError operation.Result × World :=
  (storage space).atomically (operation.program space) world

/-- The events a returning call has caused. -/
def Caused (space : Char → Bool) :
    (operation : Operation) → operation.Result → List Event → Prop
  | .spawnTask taskName params options, result, events =>
      ∃ request, validateSubmission space taskName params options = .ok request ∧
        ((result.created = true ∧ ∃ runId nowAt, events =
            [.submitted (request.taskRow result.taskId runId nowAt)
              (RunRow.fresh runId result.taskId 1 .pending nowAt)]) ∨
          (result.created = false ∧ events = []))
  | .claimTasks workerId leaseSeconds quantity taskNames, claimed, events =>
      ∃ (arguments : ClaimRequest) (stamp : ClaimStamp) (sweeps : List Event)
        (selected : List SelectedRow),
        validateClaim space workerId leaseSeconds quantity taskNames = .ok arguments ∧
          stamp.workerId = arguments.workerId ∧
          stamp.expiresAt = stamp.nowAt + arguments.leaseSeconds * second ∧
          (∀ event ∈ sweeps, event.Sweeps) ∧
          claimed.Perm (selected.map fun row => claimedTask row.1.1 row.2) ∧
          (∀ row ∈ selected, row.1.1.id = row.2.taskId) ∧
          events = sweeps ++ selected.map fun row => stamp.event row.2
  | .completeRun runId result, completed, events =>
      (completed = true ∧ ∃ task observedAt,
        events = [.moved task (.complete runId observedAt result)]) ∨
      (completed = false ∧ ∃ task nowAt, events = [.moved task (.cancel nowAt)])
  | .failRun runId reason _, _, events =>
      ∃ task transition, transition.Fails runId reason ∧ events = [.moved task transition]
  | .scheduleRun runId wakeAt, outcome, events =>
      (outcome = .ready ∧ events = []) ∨
      (outcome = .suspended ∧ ∃ task observedAt wake, wakeAt = some wake ∧
        events = [.moved task (.sleep runId observedAt wake)]) ∨
      (outcome = .cancelled ∧ ∃ task nowAt, events = [.moved task (.cancel nowAt)])
  | .superviseRun runId _, outcome, events =>
      events = [] ∨
      (outcome = .running ∧ ∃ task observedAt expiry,
        events = [.moved task (.renew runId observedAt expiry)]) ∨
      (outcome = .cancelled ∧ ∃ task nowAt, events = [.moved task (.cancel nowAt)]) ∨
      ((outcome = .cancelled ∨ outcome = .leaseLost) ∧ ∃ context task transition,
        transition.Fails runId (some (leaseExpiredReason context)) ∧
          events = [.moved task transition])
  | .reapExpiredRun runId, reaped, events =>
      (reaped = true ∧ ∃ context task transition,
        transition.Fails runId (some (leaseExpiredReason context)) ∧
          events = [.moved task transition]) ∨
      (reaped = false ∧ events = [])
  | .reapExpiredRuns _, _, events => ∀ event ∈ events, event.Sweeps
  | .cancelTask task, cancelled, events =>
      (cancelled = true ∧ ∃ nowAt, events = [.moved task (.cancel nowAt)]) ∨
      (cancelled = false ∧ events = [])
  | .cancelExpiredTasks _, _, events => ∀ event ∈ events, event.Sweeps
  | .retryTask task, newRun, events => ∃ nowAt, events = [.moved task (.reopen newRun nowAt)]
  | .setTaskCheckpointState taskId checkpointName newCheckpointState runId, result, events =>
      ∃ name state, checkpointName = some name ∧ newCheckpointState = some state ∧
        ((result.written = true ∧ ∃ observedAt,
          events = [.recorded { taskId := taskId, name := name, state := state } runId
            observedAt]) ∨
        (result.written = false ∧ events = []))
  | .getTaskCheckpointStates _ _, _, events => events = []
  | .getTaskResult _, _, events => events = []
  | .cleanupTasks, count, events =>
      ∃ tasks : List Uuid, count = tasks.length ∧ events = tasks.map Event.deleted

/-- The call does not pass NULL for the result or the failure of a run. -/
def GivesPayload : Operation → Prop
  | .completeRun _ result => result.isSome
  | .failRun _ reason _ => reason.isSome
  | _ => True

/-- The calls that neither submit, claim nor delete. -/
def Ordinary : Operation → Prop
  | .spawnTask _ _ _ | .claimTasks _ _ _ _ | .cleanupTasks => False
  | _ => True

/-- An ordinary call reaches the events of its result under any interference. -/
theorem guarantees_ordinary {quiet : Prop} {raises : SqlError → Tx → Prop} {tx : Tx}
    {ledger : Ledger} (reports : Reports quiet raises) (tolerates : Tolerates raises)
    (operation : Operation) (ordinary : operation.Ordinary)
    (payload : operation.GivesPayload ∨ Refuses raises)
    (stable : Stably space quiet (Settled space quiet ledger) tx) :
    Guarantees space quiet (operation.program space)
      (fun result tx => ∃ events, operation.Caused space result events ∧
        Reaches space quiet ledger events tx) raises tx := by
  have checkpoints : ∀ taskId runId, ReportsCheckpoint raises taskId runId := fun _ _ =>
    ⟨fun _ tx _ _ => tolerates _ tx rfl, fun tx => tolerates _ tx rfl⟩
  have swept : ∀ {later : Tx}, Swept space quiet ledger later →
      ∃ events, (∀ event ∈ events, event.Sweeps) ∧ Reaches space quiet ledger events later := id
  cases operation with
  | spawnTask taskName params options => cases ordinary
  | claimTasks workerId leaseSeconds quantity taskNames => cases ordinary
  | cleanupTasks => cases ordinary
  | completeRun runId result =>
      refine Program.Ensures.mono ?_ (fun _ _ raised => raised)
        (guarantees_completeRun reports runId result stable payload)
      rintro completed later ⟨task, ⟨isTrue, observedAt, reached⟩ | ⟨isFalse, nowAt, reached⟩⟩
      · exact ⟨_, Or.inl ⟨isTrue, task, observedAt, rfl⟩, reached⟩
      · exact ⟨_, Or.inr ⟨isFalse, task, nowAt, rfl⟩, reached⟩
  | failRun runId reason expectExpiredLease =>
      have anything : Stably space quiet (fun _ => True) tx := fun _ _ => trivial
      refine Program.Ensures.mono ?_ (fun _ _ raised => raised)
        (guarantees_failRun reports runId expectExpiredLease persistent_true stable anything
          (fun _ _ _ _ tx _ _ _ _ _ => tolerates _ tx rfl) payload)
      rintro _ later ⟨task, transition, fails, reached, _⟩
      exact ⟨_, ⟨task, transition, fails, rfl⟩, reached⟩
  | scheduleRun runId wakeAt =>
      refine Program.Ensures.mono ?_ (fun _ _ raised => raised)
        (guarantees_scheduleRun reports runId wakeAt stable (Or.inr tolerates))
      rintro outcome later scheduled
      cases outcome with
      | ready => exact ⟨_, Or.inl ⟨rfl, rfl⟩, scheduled⟩
      | suspended =>
          obtain ⟨task, observedAt, wake, isWake, reached⟩ := scheduled
          exact ⟨_, Or.inr (Or.inl ⟨rfl, task, observedAt, wake, isWake, rfl⟩), reached⟩
      | cancelled =>
          obtain ⟨task, nowAt, reached⟩ := scheduled
          exact ⟨_, Or.inr (Or.inr ⟨rfl, task, nowAt, rfl⟩), reached⟩
  | superviseRun runId renewForSeconds =>
      refine Program.Ensures.mono ?_ (fun _ _ raised => raised)
        (guarantees_superviseRun reports runId renewForSeconds stable (Or.inr tolerates))
      have reaped : ∀ {outcome : RunSupervision} {later : Tx},
          outcome = .cancelled ∨ outcome = .leaseLost → Reaped space quiet ledger runId later →
            ∃ events, (superviseRun runId renewForSeconds).Caused space outcome events ∧
              Reaches space quiet ledger events later := by
        rintro outcome later lost ⟨context, task, transition, fails, reached, _⟩
        exact ⟨_, Or.inr (Or.inr (Or.inr ⟨lost, context, task, transition, fails, rfl⟩)), reached⟩
      rintro outcome later supervised
      cases outcome with
      | running =>
          obtain ⟨-, reached | ⟨task, observedAt, expiry, reached⟩⟩ := supervised
          · exact ⟨_, Or.inl rfl, reached⟩
          · exact ⟨_, Or.inr (Or.inl ⟨rfl, task, observedAt, expiry, rfl⟩), reached⟩
      | completed => exact ⟨_, Or.inl rfl, supervised⟩
      | failed => exact ⟨_, Or.inl rfl, supervised⟩
      | suspended => exact ⟨_, Or.inl rfl, supervised⟩
      | cancelled =>
          rcases supervised with reached | ⟨task, nowAt, reached⟩ | lost
          · exact ⟨_, Or.inl rfl, reached⟩
          · exact ⟨_, Or.inr (Or.inr (Or.inl ⟨rfl, task, nowAt, rfl⟩)), reached⟩
          · exact reaped (Or.inl rfl) lost
      | leaseLost =>
          rcases supervised with reached | lost
          · exact ⟨_, Or.inl rfl, reached⟩
          · exact reaped (Or.inr rfl) lost
  | reapExpiredRun runId =>
      refine Program.Ensures.mono ?_ (fun _ _ raised => raised)
        (guarantees_reapExpiredRun reports runId stable)
      rintro reaped later (⟨isTrue, context, task, transition, fails, reached, _⟩ |
        ⟨isFalse, reached⟩)
      · exact ⟨_, Or.inl ⟨isTrue, context, task, transition, fails, rfl⟩, reached⟩
      · exact ⟨_, Or.inr ⟨isFalse, rfl⟩, reached⟩
  | reapExpiredRuns reapLimit =>
      exact Program.Ensures.mono (fun _ _ => swept) (fun _ _ raised => raised)
        (guarantees_reapExpiredRuns reports tolerates reapLimit stable)
  | cancelTask taskId =>
      refine Program.Ensures.mono ?_ (fun _ _ raised => raised)
        (guarantees_cancelTask stable fun tx => tolerates _ tx rfl)
      rintro cancelled later (⟨isTrue, nowAt, reached⟩ | ⟨isFalse, reached⟩)
      · exact ⟨_, Or.inl ⟨isTrue, nowAt, rfl⟩, reached⟩
      · exact ⟨_, Or.inr ⟨isFalse, rfl⟩, reached⟩
  | cancelExpiredTasks cancelLimit =>
      exact Program.Ensures.mono (fun _ _ => swept) (fun _ _ raised => raised)
        (guarantees_cancelExpiredTasks reports tolerates cancelLimit stable)
  | retryTask taskId =>
      refine Program.Ensures.mono ?_ (fun _ _ raised => raised)
        (guarantees_retryTask reports tolerates taskId stable)
      rintro newRun later ⟨nowAt, reached⟩
      exact ⟨_, ⟨nowAt, rfl⟩, reached⟩
  | setTaskCheckpointState taskId checkpointName newCheckpointState runId =>
      refine Program.Ensures.mono ?_ (fun _ _ raised => raised)
        (guarantees_setTaskCheckpointState reports taskId runId checkpointName newCheckpointState
          (checkpoints _ _) (Or.inr tolerates) stable)
      rintro result later ⟨name, state, isName, isState, ⟨isResult, observedAt, reached⟩ |
        ⟨notWritten, reached, _⟩⟩
      · exact ⟨_, ⟨name, state, isName, isState, Or.inl ⟨by rw [isResult], observedAt, rfl⟩⟩,
          reached⟩
      · exact ⟨_, ⟨name, state, isName, isState, Or.inr ⟨notWritten, rfl⟩⟩, reached⟩
  | getTaskCheckpointStates taskId runId =>
      refine Program.Ensures.mono ?_ (fun _ _ raised => raised)
        (guarantees_getTaskCheckpointStates reports taskId runId (checkpoints _ _) stable)
      rintro listed later ⟨reached, _⟩
      exact ⟨_, rfl, reached⟩
  | getTaskResult taskId =>
      exact Program.Ensures.mono (fun _ _ reached => ⟨_, rfl, reached⟩) (fun _ _ raised => raised)
        (guarantees_getTaskResult taskId stable)

/-- Every stored function reaches the events of its result. -/
theorem guarantees_program {raises : SqlError → Tx → Prop} {tx : Tx} {ledger : Ledger}
    (reports : Reports True raises) (tolerates : Tolerates raises) (operation : Operation)
    (payload : operation.GivesPayload ∨ Refuses raises)
    (settled : Settled space True ledger tx) :
    Guarantees space True (operation.program space)
      (fun result tx => ∃ events, operation.Caused space result events ∧
        Reaches space True ledger events tx) raises tx := by
  have stable : Stably space True (Settled space True ledger) tx := Stably.of_quiet trivial settled
  cases operation with
  | spawnTask taskName params options =>
      refine Program.Ensures.mono ?_ (fun _ _ raised => raised)
        (guarantees_spawnTask trivial tolerates reports.identTaken taskName params options settled)
      rintro result later ⟨request, isRequest, ⟨created, runId, nowAt, reached⟩ | ⟨old, reached⟩⟩
      · exact ⟨_, ⟨request, isRequest, Or.inl ⟨created, runId, nowAt, rfl⟩⟩, reached⟩
      · exact ⟨_, ⟨request, isRequest, Or.inr ⟨old, rfl⟩⟩, reached⟩
  | claimTasks workerId leaseSeconds quantity taskNames =>
      refine Program.Ensures.mono ?_ (fun _ _ raised => raised)
        (guarantees_claimTasks reports tolerates workerId leaseSeconds quantity taskNames stable)
      rintro claimed later ⟨arguments, stamp, sweeps, middle, validated, worker, expires, extended,
        areSweeps, selected, isPerm, reached, _, owners⟩
      exact ⟨_, ⟨arguments, stamp, sweeps, selected, validated, worker, expires, areSweeps, isPerm,
        owners trivial, rfl⟩, reached.prepend extended⟩
  | cleanupTasks =>
      refine Program.Ensures.mono ?_ (fun _ _ raised => raised)
        (guarantees_cleanupTasks trivial settled)
      rintro count later ⟨tasks, isCount, reached⟩
      exact ⟨_, ⟨tasks, isCount, rfl⟩, reached⟩
  | _ => exact guarantees_ordinary reports tolerates _ trivial payload stable

end Operation
end Steda
