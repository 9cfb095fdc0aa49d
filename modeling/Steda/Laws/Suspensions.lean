import Steda.Client.Execution
import Steda.Laws.Fencing

/-!
# The rest of a suspended attempt

After `schedule_run` has answered "suspended", `execute_task` still asks the
database whether the run is suspended, and fails the run if it finds it running.
Another worker may have claimed the run in between.  The rest of the attempt
changes nothing in every run in which its statements do not meet the run
running again.
-/

namespace Steda

open Postgres Transaction Relational

variable {space : Char → Bool}

/-! ## Handlers that sleep -/

/-- The error with which a sleep ends after an answer. -/
def Call.sleepError? (queue : String) : Call → Option Error
  | ⟨_, .error error⟩ => some (mapSqlxError (error.received queue))
  | ⟨.scheduleRun _ _, .ok outcome⟩ =>
      match outcome.result with
      | .ok () => none
      | .error error => some error
  | _ => none

/-- A statement of `sleep_until_inner` on the context of a task. -/
def ClaimedTask.Sleeps (task : ClaimedTask) (operation : Operation) : Prop :=
  (∃ sleep name state, sleepStorageName sleep = .ok name ∧
    operation = .setTaskCheckpointState task.taskId (some name) (some state) task.runId) ∨
  ∃ wakeAt, operation = .scheduleRun task.runId (some wakeAt)

/-- A handler that calls nothing but sleeps, and returns the first error of a
sleep at once. -/
structure Handler.MerelySleeps (handler : Handler) (queue : String) : Prop where
  sleeps : ∀ {task answers operation}, handler.asks task answers operation →
    task.Sleeps operation
  stops : ∀ {task answers operation}, handler.asks task answers operation →
    ∀ call ∈ answers, call.sleepError? queue = none
  propagates : ∀ {task answers outcome}, handler.returns task answers outcome →
    ∀ error, answers.findSome? (Call.sleepError? queue) = some error → outcome = .error error

/-! ## Suspended attempts -/

/-- `schedule_run` has answered "suspended" to the handler. -/
def Execution.HasSuspended (execution : Execution) : Prop :=
  ∃ wakeAt, (⟨.scheduleRun execution.task.runId wakeAt, .ok .suspended⟩ : Call) ∈
    execution.answers

/-- The call an attempt makes in a step. -/
def ExecutionEvent.ownCall? : ExecutionEvent → Option Call
  | .asked call | .supervised call | .handled call => some call
  | _ => none

/-- No step of an attempt that has suspended its run changes the database. -/
def LeavesSuspended (before : WorkerState) (event : ExecutionEvent) (after : WorkerState) : Prop :=
  ∀ execution, before.execution = some execution → execution.HasSuspended →
    (∀ call, event ≠ .served call) → after.world.store = before.world.store

/-- The statement of an attempt finds its run in a state that it changes:
`supervise_run` one that it cancels, reaps or renews, and `fail_run` one that is
running under a lease that has not expired. -/
def Operation.Meets (operation : Operation) (world : World) : Prop :=
  match operation with
  | .superviseRun runId renewForSeconds => SupervisionActs world runId renewForSeconds
  | .failRun runId _ _ => ∃ run, world.store.findRun runId = some run ∧ run.state = .running ∧
      expiredAt (world.clock 0) run = false
  | _ => False

/-- No statement of an attempt that has suspended its run meets the run running
again. -/
def SparesSuspended (before : WorkerState) (event : ExecutionEvent) : Prop :=
  ∀ execution call, before.execution = some execution → execution.HasSuspended →
    event.ownCall? = some call → ¬call.operation.Meets before.world

/-- The phases an attempt that has suspended its run can be in. -/
def ExecutionPhase.concludes : ExecutionPhase → Bool
  | .supervising | .opening | .completing _ => false
  | _ => true

/-- Only the last answer to the handler has ended a sleep with an error, and an
attempt that has suspended its run only concludes. -/
structure Execution.Concluding (execution : Execution) (queue : String) : Prop where
  single : ∀ call ∈ execution.answers.dropLast, call.sleepError? queue = none
  concludes : execution.HasSuspended → execution.phase.concludes = true

/-- The first error of a handler whose run has been suspended. -/
theorem Execution.Concluding.findSome {execution : Execution} {queue : String}
    (concluding : execution.Concluding queue) (suspended : execution.HasSuspended) :
    execution.answers.findSome? (Call.sleepError? queue) = some .suspended := by
  obtain ⟨wakeAt, member⟩ := suspended
  obtain ⟨first, last, isAnswers⟩ :=
    (List.eq_nil_or_concat' execution.answers).resolve_left (List.ne_nil_of_mem member)
  have single := concluding.single
  rw [isAnswers, List.dropLast_concat] at single
  have isLast : (⟨.scheduleRun execution.task.runId wakeAt, .ok .suspended⟩ : Call) = last := by
    rw [isAnswers] at member
    rcases List.mem_append.mp member with inFirst | inLast
    · cases single _ inFirst
    · exact List.mem_singleton.mp inLast
  rw [isAnswers, List.findSome?_append, List.findSome?_eq_none_iff.mpr single, ← isLast]
  rfl

theorem Execution.receive_task (execution : Execution) (text : Error → String)
    (operation : Operation) (reply : Except Error operation.Result) :
    (execution.receive text operation reply).task = execution.task := by
  cases operation <;> rfl

theorem Execution.receive_answers (execution : Execution) (text : Error → String)
    (operation : Operation) (reply : Except Error operation.Result) :
    (execution.receive text operation reply).answers = execution.answers := by
  cases operation <;> rfl

section Steps

variable {worker : TaskWorker} {handler : Handler} {before after : WorkerState}
  {event : ExecutionEvent} {execution : Execution} {operation : Operation}

/-- The statements of an attempt that concludes. -/
theorem Execution.statement_of_concludes {leaseSeconds : Int}
    (concludes : execution.phase.concludes = true)
    (asks : execution.statement? leaseSeconds = some operation) :
    operation = .superviseRun execution.task.runId none ∨
      ∃ failure, operation = .failRun execution.task.runId (some failure) (some false) := by
  unfold statement? at asks
  cases phase : execution.phase with
  | supervising => rw [phase] at concludes; cases concludes
  | opening => rw [phase] at concludes; cases concludes
  | completing output => rw [phase] at concludes; cases concludes
  | judging error => rw [phase] at asks; exact .inl (Option.some.inj asks).symm
  | settling => rw [phase] at asks; exact .inl (Option.some.inj asks).symm
  | failing failure => rw [phase] at asks; exact .inr ⟨failure, (Option.some.inj asks).symm⟩
  | executing => rw [phase] at asks; cases asks
  | returned result => rw [phase] at asks; cases asks

/-- An attempt that concludes goes on concluding. -/
theorem Execution.receive_concludes {leaseSeconds : Int} (text : Error → String)
    (concludes : execution.phase.concludes = true)
    (asks : execution.statement? leaseSeconds = some operation)
    (reply : Except Error operation.Result) :
    (execution.receive text operation reply).phase.concludes = true := by
  rcases Execution.statement_of_concludes concludes asks with isSupervision | ⟨failure, isFailure⟩
  · subst isSupervision
    simp only [receive]
    cases phase : execution.phase with
    | supervising => rw [phase] at concludes; cases concludes
    | judging error =>
        rcases reply with failure | outcome
        · rfl
        · cases outcome <;> rfl
    | settling => cases reply <;> rfl
    | _ => rw [phase] at concludes; exact concludes
  · subst isFailure
    rcases reply with error | _
    · cases error <;> rfl
    · rfl

/-- Every step keeps an attempt concluding. -/
theorem TaskWorker.Step.concluding (step : worker.Step space handler before event after)
    (sleeps : handler.MerelySleeps worker.queue)
    (concluding : ∀ execution, before.execution = some execution →
      execution.Concluding worker.queue) :
    ∀ execution, after.execution = some execution → execution.Concluding worker.queue := by
  intro reached isReached
  have received_ : ∀ {execution : Execution} {operation : Operation}
      {reply : Except Error operation.Result}, before.execution = some execution →
      execution.statement? worker.leaseSeconds = some operation →
      (execution.receive worker.text operation reply).Concluding worker.queue := by
    intro execution operation reply isExecution asks
    have kept := concluding execution isExecution
    refine ⟨?_, fun suspended => ?_⟩
    · rw [Execution.receive_answers]
      exact kept.single
    · unfold Execution.HasSuspended at suspended
      rw [Execution.receive_task, Execution.receive_answers] at suspended
      exact Execution.receive_concludes _ (kept.concludes suspended) asks _
  cases step with
  | served serves => exact concluding reached isReached
  | claimed idle serves member =>
      cases isReached
      constructor
      · intro call inNone
        cases inNone
      · rintro ⟨wakeAt, inNone⟩
        cases inNone
  | asked isExecution asks storable serves =>
      cases isReached
      exact received_ isExecution asks
  | rejected isExecution asks unstorable =>
      cases isReached
      exact received_ isExecution asks
  | @polled execution isExecution executing sleeping =>
      cases isReached
      exact ⟨(concluding execution isExecution).single, (concluding execution isExecution).concludes⟩
  | @supervised execution outcome world isExecution asking serves =>
      cases isReached
      exact ⟨(concluding execution isExecution).single, (concluding execution isExecution).concludes⟩
  | @observed execution reply isExecution executing answered =>
      cases isReached
      have kept := concluding execution isExecution
      rcases reply with error | outcome
      · exact ⟨kept.single, fun _ => rfl⟩
      · cases outcome with
        | running => exact ⟨kept.single, kept.concludes⟩
        | _ => exact ⟨kept.single, fun _ => rfl⟩
  | @handled execution operation outcome world isExecution executing asks storable serves =>
      cases isReached
      refine ⟨?_, fun _ => executing ▸ rfl⟩
      rw [List.dropLast_concat]
      exact sleeps.stops asks
  | @handlerReturned execution outcome isExecution executing returns =>
      cases isReached
      have kept := concluding execution isExecution
      refine ⟨kept.single, fun suspended => ?_⟩
      have isOutcome := sleeps.propagates returns _ (kept.findSome suspended)
      subst isOutcome
      rfl

/-- A statement of an attempt that concludes changes the database only when it
meets its run running. -/
theorem Served.meets {world later : World} {outcome : Except SqlError operation.Result}
    (served : Served space world ⟨operation, outcome⟩ later) (sound : world.store.Sound space)
    {runId : Uuid} (concludes : (∃ renewForSeconds, operation = .superviseRun runId renewForSeconds) ∨
      ∃ failure, operation = .failRun runId (some failure) (some false))
    (changed : later.store ≠ world.store) : operation.Meets world := by
  rcases concludes with ⟨renewForSeconds, isSupervision⟩ | ⟨failure, isFailure⟩
  · subst isSupervision
    exact served.supervised_acts sound changed
  · subst isFailure
    cases outcome with
    | ok result => exact served.passed sound ⟨rfl, by simp⟩
    | error error => exact absurd served.unchanged changed

/-- A step of an attempt that concludes leaves the database as it is. -/
theorem TaskWorker.Step.spares_suspended (step : worker.Step space handler before event after)
    (sleeps : handler.MerelySleeps worker.queue)
    (concluding : ∀ execution, before.execution = some execution →
      execution.Concluding worker.queue)
    (spares : SparesSuspended before event) (sound : before.world.store.Sound space) :
    LeavesSuspended before event after := by
  intro execution isExecution suspended own
  cases step with
  | served serves => exact absurd rfl (own _)
  | claimed idle serves member =>
      rw [isExecution] at idle
      cases idle
  | asked isAsking asks storable serves =>
      cases isAsking.symm.trans isExecution
      have concludes := Execution.statement_of_concludes
        ((concluding execution isExecution).concludes suspended) asks
      by_contra changed
      exact spares execution _ isExecution suspended rfl
        (serves.meets sound (concludes.imp_left fun isSupervision => ⟨none, isSupervision⟩) changed)
  | rejected | polled | observed | handlerReturned => rfl
  | supervised isAsking asking serves =>
      cases isAsking.symm.trans isExecution
      by_contra changed
      exact spares execution _ isExecution suspended rfl
        (@Served.meets space _ _ _ _ serves sound execution.task.runId (.inl ⟨_, rfl⟩) changed)
  | handled isAsking executing asks storable serves =>
      cases isAsking.symm.trans isExecution
      obtain ⟨wakeAt, member⟩ := suspended
      have ended := sleeps.stops asks _ member
      cases ended

end Steps

/-! ## The law -/

/-- An attempt that has suspended its run changes nothing, in every run in which
its statements do not meet the run running again. -/
theorem TaskWorker.Run.leavesSuspended {worker : TaskWorker} {handler : Handler}
    {initial : World} {events : List ExecutionEvent} {before after : WorkerState}
    {event : ExecutionEvent} (sleeps : handler.MerelySleeps worker.queue)
    (run : worker.Run space handler SparesSuspended initial events before)
    (step : worker.Step space handler before event after) (spares : SparesSuspended before event) :
    LeavesSuspended before event after := by
  let holds (state : WorkerState) : Prop :=
    ∀ execution, state.execution = some execution → execution.Concluding worker.queue
  have begins : holds { world := initial, execution := none } := by
    intro execution isExecution
    cases isExecution
  have concluding : holds before := by
    refine run.invariant begins ?_
    intro before event after step _ early
    exact step.concluding sleeps early
  obtain ⟨calls, past⟩ := run.history
  exact step.spares_suspended sleeps concluding spares past.sound

/-! ## Naps -/

/-- A handler that sleeps until a time. -/
def nap (wakeAt : Timestamp) (queue : String) (task : ClaimedTask) (answers : List Call) :
    HandlerStep :=
  match answers.findSome? (Call.sleepError? queue) with
  | some error => .finish (.error error)
  | none =>
      match answers with
      | [] => .ask (.setTaskCheckpointState task.taskId (some "$sleep:nap") (some (.string "soon"))
          task.runId)
      | [_] => .ask (.scheduleRun task.runId (some wakeAt))
      | _ => .finish (.output .null)

/-- A handler that sleeps does nothing else. -/
theorem nap_merelySleeps (wakeAt : Timestamp) (queue : String) :
    (Handler.ofFunction (nap wakeAt queue)).MerelySleeps queue where
  sleeps := by
    intro task answers operation asks
    change nap wakeAt queue task answers = .ask operation at asks
    unfold nap at asks
    split at asks
    · cases asks
    · split at asks
      · cases asks
        exact .inl ⟨"nap", _, _, rfl, rfl⟩
      · cases asks
        exact .inr ⟨_, rfl⟩
      · cases asks
  stops := by
    intro task answers operation asks
    change nap wakeAt queue task answers = .ask operation at asks
    unfold nap at asks
    split at asks
    · cases asks
    · next noError => exact List.findSome?_eq_none_iff.mp noError
  propagates := by
    intro task answers outcome returns error isError
    change nap wakeAt queue task answers = .finish outcome at returns
    unfold nap at returns
    rw [isError] at returns
    exact (HandlerStep.finish.inj returns).symm

/-- A worker of one task. -/
def reporter : TaskWorker where
  queue := "reports"
  workerId := "first"
  leaseSeconds := 60
  positive := by decide
  registry := ["report"]
  text := fun error => error.name
  debug := Serde.Printer.plain.debug

/-- The call has suspended a run. -/
def Call.suspends (runId : Uuid) : Call → Bool
  | ⟨.scheduleRun suspended _, .ok .suspended⟩ => suspended == runId
  | _ => false

/-- The handler of the attempt has suspended its run. -/
def WorkerState.suspended (state : WorkerState) : Bool :=
  state.execution.any fun execution =>
    execution.answers.any (Call.suspends execution.task.runId)

/-- No statement meets a running run after the suspension. -/
def WorkerState.spares (state : WorkerState) (event : ExecutionEvent) : Bool :=
  !state.suspended || event.ownCall?.all fun call =>
    match call.operation with
    | .superviseRun runId _ | .failRun runId _ _ =>
        (state.world.store.findRun runId).all fun run => run.state != .running
    | _ => true

theorem Execution.hasSuspended_iff {execution : Execution} : execution.HasSuspended ↔
    execution.answers.any (Call.suspends execution.task.runId) = true := by
  rw [List.any_eq_true]
  constructor
  · rintro ⟨wakeAt, member⟩
    exact ⟨_, member, by simp [Call.suspends]⟩
  · rintro ⟨call, member, suspends⟩
    unfold Call.suspends at suspends
    split at suspends
    · next suspended wakeAt =>
        rw [beq_iff_eq] at suspends
        subst suspends
        exact ⟨wakeAt, member⟩
    · cases suspends

theorem WorkerState.spares_sound (state : WorkerState) (event : ExecutionEvent)
    (spares : state.spares event = true) : SparesSuspended state event := by
  intro execution call isExecution suspended isCall meets
  have isSuspended : state.suspended = true := by
    simp [WorkerState.suspended, isExecution, Execution.hasSuspended_iff.mp suspended]
  unfold WorkerState.spares at spares
  rw [isSuspended, isCall] at spares
  unfold Operation.Meets at meets
  split at meets
  · next runId renewForSeconds isOperation =>
      obtain ⟨run, task, found, _, running, _⟩ := meets
      simp [isOperation, found, running] at spares
  · next runId _ _ isOperation =>
      obtain ⟨run, found, running, _⟩ := meets
      simp [isOperation, found, running] at spares
  · exact meets

/-- A worker whose handler sleeps asks whether the run is suspended. -/
theorem TaskWorker.Run.leavesSuspended_nap :
    ∃ events before event after, reporter.Run asciiSpace
        (.ofFunction (nap (100 * second) reporter.queue)) SparesSuspended (.blank second) events
        before ∧
      reporter.Step asciiSpace (.ofFunction (nap (100 * second) reporter.queue)) before event
        after ∧
      before.suspended = true ∧ event.ownCall?.isSome ∧ LeavesSuspended before event after := by
  obtain ⟨events, before, event, after, run, step, holds⟩ :=
    @TaskWorker.run_play asciiSpace reporter (nap (100 * second) reporter.queue) WorkerState.spares
      SparesSuspended second WorkerState.spares_sound
      [.serve (plainSubmission []), .claim, .execute, .execute, .handle, .handle, .handle] .execute
      (fun before event _ => before.suspended && event.ownCall?.isSome && before.spares event)
      (by decide +kernel)
  rw [Bool.and_eq_true, Bool.and_eq_true] at holds
  exact ⟨events, before, event, after, run, step, holds.1.1, holds.1.2,
    run.leavesSuspended (nap_merelySleeps _ _) step
      (WorkerState.spares_sound before event holds.2)⟩

/-- A run that another worker has claimed after it woke up is failed by the
worker that has suspended it. -/
theorem TaskWorker.Run.not_leavesSuspended :
    ¬∀ (worker : TaskWorker) (handler : Handler) initial events before event after,
      handler.MerelySleeps worker.queue →
        worker.Run asciiSpace handler (fun _ _ => True) initial events before →
          worker.Step asciiSpace handler before event after →
            LeavesSuspended before event after := by
  intro leaves
  obtain ⟨events, before, event, after, run, step, holds⟩ :=
    @TaskWorker.run_play asciiSpace reporter (nap (9 * second) reporter.queue) (fun _ _ => true)
      (fun _ _ => True) second (fun _ _ _ => trivial)
      [.serve (plainSubmission []), .claim, .execute, .execute, .handle, .handle,
        .serve (plainClaim "second"), .handle, .execute] .execute
      (fun before event after => before.suspended && event.ownCall?.isSome &&
        after.world.store.tasks.map TaskRow.state != before.world.store.tasks.map TaskRow.state)
      (by decide +kernel)
  rw [Bool.and_eq_true, Bool.and_eq_true] at holds
  obtain ⟨⟨suspended, own⟩, changed⟩ := holds
  obtain ⟨execution, isExecution, hasSuspended⟩ := (Option.any_eq_true _ _).mp suspended
  have same := leaves _ _ _ _ _ _ _ (nap_merelySleeps _ _) run step execution isExecution
    (Execution.hasSuspended_iff.mpr hasSuspended) (by
      rintro call isServed
      subst isServed
      cases own)
  rw [same, bne_self_eq_false] at changed
  cases changed

end Steda
