import Steda.Laws.Failing
import Steda.Laws.Suspensions

/-!
# Attempts and the worker

An attempt whose result is neither settled nor transient stops the worker.
`execute_task` settles its run with a statement whatever state the handler has
left the run in, and the gate answers "not running" for a sleeping, a completed
or a missing run with an error that is not transient.  An attempt lets the
worker go on in every run in which the run of its statements is in a state that
the statements have an answer for.
-/

namespace Steda

open Postgres Transaction Relational

variable {space : Char → Bool} {life : Life} {world : World}

/-! ## Statements with an answer -/

/-- A failed attempt is cancelled, or has a next attempt number. -/
def TaskRow.CanFail (task : TaskRow) (run : RunRow) (observedAt : Timestamp) : Prop :=
  task.due (some observedAt) = .ok true ∨
    (task.due (some observedAt) = .ok false ∧ run.attempt < maxInteger)

/-- The gate lets a run pass that satisfies a condition, or refuses it with an
error that settles the attempt. -/
def RunRow.Gated (run : RunRow) (observedAt : Timestamp) (passes : Prop) : Prop :=
  match run.state with
  | .cancelled | .failed => True
  | .running => expiredAt observedAt run = true ∨ passes
  | _ => False

/-- A running run can be supervised: its task is due, or it is not due and its
lease has not expired or can be reaped. -/
def TaskRow.CanSupervise (task : TaskRow) (run : RunRow) (world : World) : Prop :=
  task.due (some (world.clock 0)) = .ok true ∨
    (task.due (some (world.clock 0)) = .ok false ∧
      (expiredAt (world.clock 0) run = true → expiredAt (world.clock 1) run = true →
        expiredAt (world.clock 2) run = true ∧ task.CanFail run (world.clock 2)))

/-- The run of a statement is in a state that the statement has an answer for. -/
def Operation.Accommodated (operation : Operation) (world : World) : Prop :=
  match operation with
  | .superviseRun runId _ => ∃ run task, world.store.findRun runId = some run ∧
      world.store.findTask run.taskId = some task ∧ run.state ≠ .pending ∧
        (run.state = .running → task.CanSupervise run world)
  | .getTaskCheckpointStates taskId runId => ∃ run, world.store.findRun runId = some run ∧
      run.Gated (world.clock 0) (run.taskId = taskId)
  | .completeRun runId _ => ∃ run task, world.store.findRun runId = some run ∧
      world.store.findTask run.taskId = some task ∧
        run.Gated (world.clock 0) (∃ isDue, task.due (some (world.clock 0)) = .ok isDue)
  | .failRun runId _ _ => ∃ run task, world.store.findRun runId = some run ∧
      world.store.findTask run.taskId = some task ∧
        run.Gated (world.clock 0) (task.CanFail run (world.clock 0))
  | _ => False

/-- A result of `execute_task` lets the worker go on. -/
def LetsGoOn (result : Except Error Unit) : Prop := attemptResult result = .ok ()

/-- The outcome of a statement is a value or an error that settles the attempt. -/
def Settles {Value : Type} (outcome : Except SqlError Value) : Prop :=
  ∀ error, outcome = .error error → error.sqlstate ∈ ["ST001", "ST002", "ST003"]

theorem settles_ok {Value : Type} (value : Value) :
    Settles (.ok value : Except SqlError Value) := by
  intro error impossible
  cases impossible

/-- An error that settles the attempt lets the worker go on. -/
theorem Settles.letsGoOn {Value : Type} {outcome : Except SqlError Value} (settles : Settles outcome)
    {queue : String} {error : Error} (isError : received queue outcome = .error error) :
    LetsGoOn (.error error) := by
  cases outcome with
  | ok value => cases isError
  | error raised =>
      cases isError
      have code := settles raised rfl
      simp only [List.mem_cons, List.not_mem_nil, or_false] at code
      change LetsGoOn (.error (mapSqlxError
        (.database (some raised.sqlstate) (raised.message queue))))
      rcases code with isCode | isCode | isCode
      · rw [isCode]
        rfl
      · rw [isCode]
        rfl
      · rw [isCode]
        rfl

/-! ## Answers -/

/-- A gated run passes the gate with its condition, or is refused with an error
that settles the attempt. -/
theorem RunRow.Gated.cases {run : RunRow} {observedAt : Timestamp} {passes : Prop}
    (gated : run.Gated observedAt passes) :
    (∃ error, run.gate observedAt = .error error ∧
      error.sqlstate ∈ ["ST001", "ST002", "ST003"]) ∨
    (run.gate observedAt = .ok () ∧ run.state = .running ∧ passes) := by
  unfold RunRow.Gated at gated
  unfold RunRow.gate
  cases state : run.state with
  | cancelled => exact .inl ⟨_, rfl, by decide⟩
  | failed => exact .inl ⟨_, rfl, by simp [SqlError.sqlstate]⟩
  | running =>
      cases expired : expiredAt observedAt run with
      | true => exact .inl ⟨_, rfl, by simp [SqlError.sqlstate]⟩
      | false =>
          rw [state, expired] at gated
          exact .inr ⟨rfl, rfl, gated.resolve_left (by decide)⟩
  | _ => rw [state] at gated; exact gated.elim

section Statements

variable {runId : Uuid} {run : RunRow}

/-- A gated run either settles every statement behind the gate or is the running
last run of its task. -/
theorem RunRow.Gated.passes (shows_ : world.store.Shows space life) (member : run ∈ life.runs)
    {passes : Prop} (gated : run.Gated (world.clock 0) passes) :
    (∃ error, run.gate (world.clock 0) = .error error ∧
      error.sqlstate ∈ ["ST001", "ST002", "ST003"]) ∨
    (life.last.gate (world.clock 0) = .ok () ∧ run = life.last ∧ life.last.state = .running ∧
      passes) := by
  rcases gated.cases with refused | ⟨passed, running, holds⟩
  · exact .inl refused
  · obtain ⟨isLast, _⟩ := shows_.valid.running_last member running
    subst isLast
    exact .inr ⟨passed, rfl, running, holds⟩

theorem settles_of_error {Value : Type} {error : SqlError}
    (code : error.sqlstate ∈ ["ST001", "ST002", "ST003"]) :
    Settles (.error error : Except SqlError Value) := by
  intro raised isError
  cases isError
  exact code

/-- `complete_run` of a gated run settles the attempt. -/
theorem settles_completeRun (shows_ : world.store.Shows space life) (member : run ∈ life.runs)
    (gated : run.Gated (world.clock 0) (∃ isDue, life.task.due (some (world.clock 0)) = .ok isDue))
    (result : Json) : Settles (alone space (completeRun run.id (some result)) world).1 := by
  rcases gated.passes shows_ member with ⟨error, refused, code⟩ | ⟨passed, isLast, _, isDue, due⟩
  · rw [alone_completeRun_refused shows_ member refused]
    exact settles_of_error code
  · subst isLast
    rw [alone_completeRun shows_ passed, due]
    cases isDue <;> exact settles_ok _

/-- `fail_run` of a gated run settles the attempt. -/
theorem settles_failRun (ready : world.Ready space) (shows_ : world.store.Shows space life)
    (member : run ∈ life.runs)
    (gated : run.Gated (world.clock 0) (life.task.CanFail run (world.clock 0)))
    (failure : Json) :
    Settles (alone space (failRun run.id (some failure) (some false)) world).1 := by
  rcases gated.passes shows_ member with ⟨error, refused, code⟩ | ⟨passed, isLast, running, canFail⟩
  · have stopped := alone_gate_refused shows_ member refused
    unfold failRun
    rw [alone_stop stopped]
    exact settles_of_error code
  · subst isLast
    have failed := alone_failRun shows_ (alone_gate_passed shows_ passed) running failure
      (ready.unused 0)
    obtain ⟨transition, fails⟩ : ∃ transition, life.failure (world.clock 0) (world.clock 1) failure
      (world.idents 0) = .ok transition := (Life.failure_ok_iff shows_.valid).mpr canFail
    rw [fails] at failed
    rw [failed]
    exact settles_ok _

/-- `get_task_checkpoint_states` of a gated run settles the attempt. -/
theorem settles_getTaskCheckpointStates (shows_ : world.store.Shows space life)
    (member : run ∈ life.runs) {taskId : Uuid}
    (gated : run.Gated (world.clock 0) (run.taskId = taskId)) :
    Settles (alone space (getTaskCheckpointStates taskId run.id) world).1 := by
  rw [alone_getTaskCheckpointStates shows_ member]
  rcases gated.passes shows_ member with ⟨error, refused, code⟩ | ⟨passed, isLast, _, owned⟩
  · rw [refused]
    exact settles_of_error code
  · subst isLast
    rw [passed]
    have own : ¬life.task.id ≠ taskId :=
      not_not.mpr ((shows_.valid.owned _ life.last_mem_runs).symm.trans owned)
    simp only [if_neg own]
    exact settles_ok _

/-- `supervise_run` of a run that is not pending, and that can be supervised when
it is running, settles the attempt. -/
theorem settles_superviseRun (ready : world.Ready space) (shows_ : world.store.Shows space life)
    (member : run ∈ life.runs) {renewForSeconds : Option Int}
    (positive : RenewsPositively renewForSeconds) (notPending : run.state ≠ .pending)
    (supervises : run.state = .running → life.task.CanSupervise run world) :
    Settles (alone space (superviseRun run.id renewForSeconds) world).1 := by
  by_cases running : run.state = .running
  · obtain ⟨isLast, _⟩ := shows_.valid.running_last member running
    subst isLast
    rw [alone_superviseRun_of_running shows_ running positive]
    rcases supervises running with due | ⟨due, reaps⟩
    · rw [due]
      exact settles_ok _
    · rw [due]
      have ticked : world.tick.store.Shows space life := shows_
      obtain ⟨expiry, isExpiry⟩ :=
        RunRow.expiry_of_running (shows_.valid.lease life.last_mem_runs) running
      cases expired : expiredAt (world.clock 0) life.last with
      | false =>
          have early : world.clock 0 < expiry := by
            simpa [expiredAt, running, isExpiry] using expired
          have supervised := @alone_superviseInTime_leased space life world.tick renewForSeconds
            ticked running _ ⟨expiry, isExpiry, early⟩
          dsimp only
          rw [supervised]
          exact settles_ok _
      | true =>
          dsimp only
          rw [alone_superviseInTime_expired expired]
          cases still : expiredAt (world.clock 1) life.last with
          | false =>
              rw [alone_reapExpiredRun_skipped ticked life.last_mem_runs still]
              exact settles_ok _
          | true =>
              obtain ⟨later, canFail⟩ := reaps expired still
              have reaped := alone_reapExpiredRun ticked still later (ready.unused 0)
              obtain ⟨transition, fails⟩ : ∃ transition, life.failure (world.tick.clock 1)
                  (world.tick.clock 2) (life.expiryReason (world.tick.clock 0))
                  (world.tick.idents 0) = .ok transition :=
                (Life.failure_ok_iff shows_.valid).mpr canFail
              rw [fails] at reaped
              dsimp only at reaped
              rw [reaped]
              exact settles_ok _
  · rw [alone_superviseRun shows_ member positive]
    split
    · exact settles_ok _
    · next notCancelled =>
        cases state : run.state with
        | running => exact absurd state running
        | pending => exact absurd state notPending
        | cancelled => exact absurd (.inr state) notCancelled
        | _ => exact settles_ok _

end Statements

/-- A statement of an attempt settles it when its run is in a state that the
statement has an answer for. -/
theorem Served.settles {worker : TaskWorker} {execution : Execution} {operation : Operation}
    {outcome : Except SqlError operation.Result} {after : World}
    (served : Served space world ⟨operation, outcome⟩ after) (ready : world.Ready space)
    (asks : execution.statement? worker.leaseSeconds = some operation ∨
      operation = .superviseRun execution.task.runId (some worker.leaseSeconds))
    (accommodated : operation.Accommodated world) : Settles outcome := by
  have answered : outcome = (alone space (operation.program space) world).1 :=
    (congrArg Prod.fst served).symm.trans (operation.answer_eq ready.sound)
  have known : ∀ {run : RunRow} {task : TaskRow} {runId : Uuid},
      world.store.findRun runId = some run → world.store.findTask run.taskId = some task →
        ∃ life, run ∈ life.runs ∧ world.store.Shows space life ∧ life.task = task := by
    intro run task runId found isTask
    obtain ⟨life, member, shows_⟩ := ready.sound.shows_of_findRun found
    rw [shows_.valid.owned _ member, shows_.findTask] at isTask
    exact ⟨life, member, shows_, Option.some.inj isTask⟩
  have supervises : ∀ renewForSeconds, RenewsPositively renewForSeconds →
      operation = .superviseRun execution.task.runId renewForSeconds → Settles outcome := by
    intro renewForSeconds positive isOperation
    subst isOperation
    obtain ⟨run, task, found, isTask, notPending, canSupervise⟩ := accommodated
    obtain ⟨life, member, shows_, same⟩ := known found isTask
    subst same
    rw [answered, ← Queue.findRun_id found]
    exact settles_superviseRun ready shows_ member positive notPending canSupervise
  have leased : RenewsPositively (some worker.leaseSeconds) := by
    rintro _ ⟨⟩
    exact worker.positive
  have unleased : RenewsPositively none := by
    rintro _ ⟨⟩
  rcases asks with asks | isOperation
  · unfold Execution.statement? at asks
    cases phase : execution.phase with
    | supervising =>
        rw [phase] at asks
        exact supervises _ leased (Option.some.inj asks).symm
    | judging error =>
        rw [phase] at asks
        exact supervises _ unleased (Option.some.inj asks).symm
    | settling =>
        rw [phase] at asks
        exact supervises _ unleased (Option.some.inj asks).symm
    | opening =>
        rw [phase] at asks
        cases asks
        obtain ⟨run, found, gated⟩ := accommodated
        obtain ⟨life, member, shows_⟩ := ready.sound.shows_of_findRun found
        rw [answered, ← Queue.findRun_id found]
        exact settles_getTaskCheckpointStates shows_ member gated
    | completing output =>
        rw [phase] at asks
        cases asks
        obtain ⟨run, task, found, isTask, gated⟩ := accommodated
        obtain ⟨life, member, shows_, same⟩ := known found isTask
        subst same
        rw [answered, ← Queue.findRun_id found]
        exact settles_completeRun shows_ member gated output
    | failing failure =>
        rw [phase] at asks
        cases asks
        obtain ⟨run, task, found, isTask, gated⟩ := accommodated
        obtain ⟨life, member, shows_, same⟩ := known found isTask
        subst same
        rw [answered, ← Queue.findRun_id found]
        exact settles_failRun ready shows_ member gated failure
    | executing => rw [phase] at asks; cases asks
    | returned result => rw [phase] at asks; cases asks
  · exact supervises _ leased isOperation

/-! ## Claimed tasks -/

/-- Selected runs satisfy their condition. -/
theorem selectRuns_kept {α : Type} {queue : Queue} {runId : α → Uuid}
    {keeps : α → RunRow → Except SqlError Bool} {candidates : List α} {limit : Nat}
    {selected : List (α × RunRow)}
    (isSelected : selectRuns queue runId keeps candidates limit = .ok selected) :
    ∀ row ∈ selected, keeps row.1 row.2 = .ok true := by
  induction candidates generalizing limit selected with
  | nil =>
      cases isSelected
      simp
  | cons candidate rest inductionHypothesis =>
      cases limit with
      | zero =>
          cases isSelected
          simp
      | succ limit =>
          simp only [selectRuns] at isSelected
          split at isSelected
          · exact inductionHypothesis isSelected
          · next run found =>
              obtain ⟨isKept, kept, isSelected⟩ := except_bind_ok.mp isSelected
              cases isKept with
              | false => exact inductionHypothesis isSelected
              | true =>
                  obtain ⟨others, isOthers, isRows⟩ := except_bind_ok.mp isSelected
                  cases isRows
                  exact List.forall_mem_cons.mpr ⟨kept, inductionHypothesis isOthers⟩

/-- The claim statement returns tasks with the requested names. -/
theorem claimStatement_named {request : ClaimRequest} {nowAt : Timestamp}
    {tasks : List ClaimedTask} {after : World}
    (returned : alone space (claimStatement request nowAt) world = (.ok tasks, after)) :
    ∀ task ∈ tasks, task.taskName ∈ request.taskNames := by
  unfold claimStatement at returned
  obtain ⟨visible, _, _, returned⟩ := alone_bind_ok.mp returned
  obtain ⟨candidates, _, _, returned⟩ := alone_bind_ok.mp returned
  obtain ⟨selected, _, locked, returned⟩ := alone_bind_ok.mp returned
  obtain ⟨_, _, _, returned⟩ := alone_bind_ok.mp returned
  obtain ⟨_, _, _, returned⟩ := alone_bind_ok.mp returned
  rw [alone_lockRuns] at locked
  have kept := selectRuns_kept (congrArg Prod.fst locked)
  rw [alone_pure] at returned
  cases returned
  intro task member
  obtain ⟨row, inSorted, isTask⟩ := List.mem_map.mp member
  subst isTask
  have passes_ := kept row ((List.mem_insertionSort _).mp inSorted)
  exact List.contains_iff_mem.mp (claimCandidate_ok passes_).2.2.2.1

/-- A claim returns tasks with the requested names. -/
theorem Served.claimed_named {workerId : Option String} {leaseSeconds quantity : Option Int}
    {names : List String} {tasks : List ClaimedTask} {after : World}
    (served : Served space world ⟨.claimTasks workerId leaseSeconds quantity
      (some (names.map some)), .ok tasks⟩ after) :
    ∀ task ∈ tasks, task.taskName ∈ names := by
  have returned : alone space (claimTasks space workerId leaseSeconds quantity
    (some (names.map some))) world = (.ok tasks, after) := served.ran
  unfold claimTasks at returned
  obtain ⟨_, _, _, returned⟩ := alone_bind_ok.mp returned
  obtain ⟨request, _, validated, returned⟩ := alone_bind_ok.mp returned
  obtain ⟨_, _, _, returned⟩ := alone_bind_ok.mp returned
  obtain ⟨_, _, _, returned⟩ := alone_bind_ok.mp returned
  obtain ⟨nowAt, _, _, returned⟩ := alone_bind_ok.mp returned
  rw [alone_ofExcept] at validated
  have isValid : validateClaim space workerId leaseSeconds quantity (some (names.map some)) =
    .ok request := congrArg Prod.fst validated
  have isNames := (validateClaim_ok isValid).2.2.2
  rw [Option.map_some, List.filterMap_map] at isNames
  have areNames : names = request.taskNames := by
    simpa using isNames
  rw [areNames]
  exact claimStatement_named returned

/-! ## Attempts -/

/-- A phase from which the worker goes on. -/
def ExecutionPhase.GoesOn (phase : ExecutionPhase) : Prop :=
  ∀ result, phase = .returned result → LetsGoOn result

/-- A finished attempt lets the worker go on, and so does the supervision of one
whose handler runs. -/
structure Execution.GoesOn (execution : Execution) : Prop where
  phase : execution.phase.GoesOn
  supervision : ∀ error, execution.supervision = .answered (.error error) →
    execution.phase = .executing → LetsGoOn (.error error)
  unsupervised : execution.phase = .supervising ∨ execution.phase = .opening →
    execution.supervision = .sleeping

/-- The run of every statement of an attempt is in a state that the statement has
an answer for, and its parameters can be stored. -/
def Accommodates (before : WorkerState) (event : ExecutionEvent) : Prop :=
  match event with
  | .asked call => call.operation.Accommodated before.world
  | .supervised call => ∀ execution, before.execution = some execution →
      execution.phase = .executing → call.operation.Accommodated before.world
  | .rejected _ => False
  | _ => True

/-- The worker goes on after every attempt that has returned. -/
def WorkerState.GoesOn (state : WorkerState) : Prop :=
  ∀ execution result, state.execution = some execution →
    execution.phase = .returned result → attemptResult result = .ok ()

namespace ExecutionPhase

theorem goesOn_returned {result : Except Error Unit} (letsGoOn : LetsGoOn result) :
    (ExecutionPhase.returned result).GoesOn := by
  intro other isOther
  cases isOther
  exact letsGoOn

theorem goesOn_afterSupervision {reply : Except Error RunSupervision}
    (letsGoOn : ∀ error, reply = .error error → LetsGoOn (.error error)) :
    (afterSupervision reply).GoesOn := by
  rcases reply with error | outcome
  · exact goesOn_returned (letsGoOn error rfl)
  · cases outcome with
    | running =>
        intro result isResult
        cases isResult
    | _ => exact goesOn_returned rfl

theorem goesOn_afterOpening (text : Error → String)
    {reply : Except Error (List (String × Json))}
    (letsGoOn : ∀ error, reply = .error error → LetsGoOn (.error error)) :
    (afterOpening text reply).GoesOn := by
  unfold afterOpening
  split
  · intro result isResult
    cases isResult
  · intro result isResult
    cases isResult
  · exact goesOn_returned (letsGoOn _ rfl)

theorem goesOn_afterHandler (text : Error → String) (outcome : HandlerOutcome) :
    (afterHandler text outcome).GoesOn := by
  unfold afterHandler
  intro result isResult
  split at isResult
  · cases isResult
  · split at isResult <;> cases isResult
  · cases isResult

theorem goesOn_afterCompletion {reply : Except Error Bool}
    (letsGoOn : ∀ error, reply = .error error → LetsGoOn (.error error)) :
    (afterCompletion (completeRunResult reply)).GoesOn := by
  rcases reply with error | completed
  · unfold completeRunResult afterCompletion
    split
    · exact goesOn_returned rfl
    · exact goesOn_returned rfl
    · next other isError =>
        cases isError
        exact goesOn_returned (letsGoOn _ rfl)
  · cases completed <;> exact goesOn_returned rfl

theorem goesOn_afterJudgment (text : Error → String) (error : Error)
    {reply : Except Error RunSupervision}
    (letsGoOn : ∀ error, reply = .error error → LetsGoOn (.error error)) :
    (afterJudgment text error reply).GoesOn := by
  rcases reply with failure | outcome
  · exact goesOn_returned (letsGoOn failure rfl)
  · cases outcome with
    | running =>
        intro result isResult
        cases isResult
    | _ => exact goesOn_returned rfl

theorem goesOn_afterFailure {reply : Except Error Unit}
    (letsGoOn : ∀ error, reply = .error error → LetsGoOn (.error error)) :
    (afterFailure reply).GoesOn := by
  unfold afterFailure
  split
  · intro result isResult
    cases isResult
  · exact goesOn_returned rfl
  · exact goesOn_returned rfl
  · exact goesOn_returned (letsGoOn _ rfl)

theorem goesOn_afterSettling {reply : Except Error RunSupervision}
    (letsGoOn : ∀ error, reply = .error error → LetsGoOn (.error error)) :
    (afterSettling reply).GoesOn := by
  rcases reply with error | outcome
  · exact goesOn_returned (letsGoOn error rfl)
  · exact goesOn_returned rfl

/-- The handler is done. -/
def handled : ExecutionPhase → Bool
  | .supervising | .opening | .executing => false
  | _ => true

theorem handled_afterHandler (text : Error → String) (outcome : HandlerOutcome) :
    (afterHandler text outcome).handled = true := by
  unfold afterHandler
  split
  · rfl
  · split <;> rfl
  · rfl

theorem handled_afterCompletion (reply : Except Error Unit) :
    (afterCompletion reply).handled = true := by
  unfold afterCompletion
  split <;> rfl

theorem handled_afterJudgment (text : Error → String) (error : Error)
    (reply : Except Error RunSupervision) : (afterJudgment text error reply).handled = true := by
  rcases reply with failure | outcome
  · rfl
  · cases outcome <;> rfl

theorem handled_afterFailure (reply : Except Error Unit) : (afterFailure reply).handled = true := by
  unfold afterFailure
  split <;> rfl

theorem handled_afterSettling (reply : Except Error RunSupervision) :
    (afterSettling reply).handled = true := by
  cases reply <;> rfl

end ExecutionPhase

/-- Once the handler is done, only the phase matters. -/
theorem Execution.goesOn_of_handled {execution : Execution} (goesOn : execution.phase.GoesOn)
    (handled : execution.phase.handled = true) : execution.GoesOn := by
  refine ⟨goesOn, ?_, ?_⟩
  · intro error _ executing
    rw [executing] at handled
    cases handled
  · rintro (supervising | opening)
    · rw [supervising] at handled
      cases handled
    · rw [opening] at handled
      cases handled

section Steps

variable {worker : TaskWorker} {handler : Handler} {before after : WorkerState}
  {event : ExecutionEvent} {execution : Execution} {operation : Operation}

/-- An attempt goes on with a result that lets the worker go on. -/
theorem Execution.goesOn_receive (goesOn : execution.GoesOn)
    (asks : execution.statement? worker.leaseSeconds = some operation)
    {reply : Except Error operation.Result}
    (letsGoOn : ∀ error, reply = .error error → LetsGoOn (.error error)) :
    (execution.receive worker.text operation reply).GoesOn := by
  have early := goesOn.unsupervised
  unfold statement? at asks
  cases phase : execution.phase with
  | supervising =>
      rw [phase] at asks early
      cases asks
      have asleep := early (.inl rfl)
      have received_ : (execution.receive worker.text _ reply).phase =
        .afterSupervision reply := by
          simp only [receive, phase]
      refine ⟨?_, ?_, fun _ => asleep⟩
      · rw [received_]
        exact ExecutionPhase.goesOn_afterSupervision letsGoOn
      · intro error answered
        cases asleep.symm.trans answered
  | opening =>
      rw [phase] at asks early
      cases asks
      have asleep := early (.inr rfl)
      refine ⟨ExecutionPhase.goesOn_afterOpening worker.text letsGoOn, ?_, fun _ => asleep⟩
      intro error answered
      cases asleep.symm.trans answered
  | completing output =>
      rw [phase] at asks
      cases asks
      exact Execution.goesOn_of_handled (ExecutionPhase.goesOn_afterCompletion letsGoOn)
        (ExecutionPhase.handled_afterCompletion _)
  | failing failure =>
      rw [phase] at asks
      cases asks
      exact Execution.goesOn_of_handled (ExecutionPhase.goesOn_afterFailure letsGoOn)
        (ExecutionPhase.handled_afterFailure _)
  | judging error =>
      rw [phase] at asks
      cases asks
      have received_ : (execution.receive worker.text _ reply).phase =
        .afterJudgment worker.text error reply := by
          simp only [receive, phase]
      refine Execution.goesOn_of_handled ?_ ?_
      · rw [received_]
        exact ExecutionPhase.goesOn_afterJudgment worker.text error letsGoOn
      · rw [received_]
        exact ExecutionPhase.handled_afterJudgment worker.text error reply
  | settling =>
      rw [phase] at asks
      cases asks
      have received_ : (execution.receive worker.text _ reply).phase = .afterSettling reply := by
        simp only [receive, phase]
      refine Execution.goesOn_of_handled ?_ ?_
      · rw [received_]
        exact ExecutionPhase.goesOn_afterSettling letsGoOn
      · rw [received_]
        exact ExecutionPhase.handled_afterSettling reply
  | executing => rw [phase] at asks; cases asks
  | returned result => rw [phase] at asks; cases asks

/-- Every step keeps the attempt one after which the worker goes on. -/
theorem TaskWorker.Step.goesOn_kept (step : worker.Step space handler before event after)
    (ready : before.world.Ready space) (accommodates : Accommodates before event)
    (goesOn : ∀ execution, before.execution = some execution → execution.GoesOn) :
    ∀ execution, after.execution = some execution → execution.GoesOn := by
  intro reached isReached
  cases step with
  | served serves => exact goesOn reached isReached
  | @claimed quantity tasks task world idle serves member =>
      cases isReached
      have registered := serves.claimed_named task member
      have isStart : (Execution.start worker task).phase = .supervising := if_pos registered
      refine ⟨?_, ?_, fun _ => rfl⟩
      · intro result isResult
        cases isStart.symm.trans isResult
      · intro error answered
        cases answered
  | @asked execution operation outcome world isExecution asks storable serves =>
      cases isReached
      have settles := serves.settles ready (.inl asks) accommodates
      exact Execution.goesOn_receive (goesOn execution isExecution) asks
        fun error isError => settles.letsGoOn isError
  | rejected => exact accommodates.elim
  | @polled execution isExecution executing sleeping =>
      cases isReached
      have kept := goesOn execution isExecution
      refine ⟨kept.phase, ?_, ?_⟩
      · intro error answered
        cases answered
      · rintro (supervising | opening)
        · cases executing.symm.trans supervising
        · cases executing.symm.trans opening
  | @supervised execution outcome world isExecution asking serves =>
      cases isReached
      have kept := goesOn execution isExecution
      refine ⟨kept.phase, ?_, ?_⟩
      · intro error answered executing
        have settles := serves.settles ready (.inr rfl) (accommodates execution isExecution executing)
        exact settles.letsGoOn (SupervisionPhase.answered.inj answered)
      · intro early
        cases asking.symm.trans (kept.unsupervised early)
  | @observed execution reply isExecution executing answered =>
      cases isReached
      have kept := goesOn execution isExecution
      rcases reply with error | outcome
      · refine Execution.goesOn_of_handled ?_ rfl
        exact ExecutionPhase.goesOn_returned (kept.supervision error answered executing)
      · cases outcome with
        | running =>
            refine ⟨kept.phase, ?_, fun _ => rfl⟩
            intro error impossible
            cases impossible
        | _ => exact Execution.goesOn_of_handled (ExecutionPhase.goesOn_returned rfl) rfl
  | @handled execution operation outcome world isExecution executing asks storable serves =>
      cases isReached
      have kept := goesOn execution isExecution
      exact ⟨kept.phase, kept.supervision, kept.unsupervised⟩
  | @handlerReturned execution outcome isExecution executing returns =>
      cases isReached
      exact Execution.goesOn_of_handled (ExecutionPhase.goesOn_afterHandler worker.text outcome)
        (ExecutionPhase.handled_afterHandler worker.text outcome)

end Steps

/-! ## The law -/

/-- The worker goes on after an attempt with any handler, in every run in which
the run of its statements is in a state that they have an answer for and their
parameters can be stored. -/
theorem TaskWorker.Run.worker_goesOn {worker : TaskWorker} {handler : Handler} {initial : World}
    {events : List ExecutionEvent} {final : WorkerState}
    (run : worker.Run space handler Accommodates initial events final) : final.GoesOn := by
  let holds (state : WorkerState) : Prop :=
    (∃ calls, History space initial calls state.world) ∧
      ∀ execution, state.execution = some execution → execution.GoesOn
  have begins : holds { world := initial, execution := none } := by
    refine ⟨⟨[], run.empty, run.fresh, .nil _⟩, ?_⟩
    intro execution isExecution
    cases isExecution
  have reached : holds final := by
    refine run.invariant begins ?_
    rintro before event after step accommodates ⟨⟨calls, past⟩, goesOn⟩
    exact ⟨step.history past, step.goesOn_kept past.ready accommodates goesOn⟩
  intro execution result isExecution isResult
  exact (reached.2 execution isExecution).phase result isResult

/-! ## Handlers -/

/-- A statement of a call on the contexts of a task. -/
def ClaimedTask.CallsContext (task : ClaimedTask) (operation : Operation) : Prop :=
  (∃ name state, operation =
    .setTaskCheckpointState task.taskId (some name) (some state) task.runId) ∨
  ∃ wakeAt, operation = .scheduleRun task.runId (some wakeAt)

/-- The run is running under a valid lease before the deadline of its task. -/
def World.runsInTime (world : World) (runId : Uuid) : Bool :=
  (world.store.findRun runId).any fun run =>
    (world.store.findTask run.taskId).any fun task =>
      run.state == .running && !expiredAt (world.clock 0) run &&
        match task.due (some (world.clock 0)) with
        | .ok isDue => !isDue
        | .error _ => false

/-- A check that is enough for a statement of a run that runs in time. -/
def WorkerState.accommodates (state : WorkerState) (event : ExecutionEvent) : Bool :=
  match event with
  | .asked call | .supervised call =>
      match call.operation with
      | .superviseRun runId _ | .completeRun runId _ => state.world.runsInTime runId
      | .getTaskCheckpointStates taskId runId =>
          (state.world.store.findRun runId).any fun run =>
            run.state == .running && run.taskId == taskId
      | _ => false
  | .rejected _ => false
  | _ => true

theorem World.runsInTime_iff {runId : Uuid} (inTime : world.runsInTime runId = true) :
    ∃ run task, world.store.findRun runId = some run ∧
      world.store.findTask run.taskId = some task ∧ run.state = .running ∧
        expiredAt (world.clock 0) run = false ∧ task.due (some (world.clock 0)) = .ok false := by
  obtain ⟨run, found, inTime⟩ := (Option.any_eq_true _ _).mp inTime
  obtain ⟨task, isTask, inTime⟩ := (Option.any_eq_true _ _).mp inTime
  simp only [Bool.and_eq_true, beq_iff_eq, Bool.not_eq_true'] at inTime
  obtain ⟨⟨running, valid⟩, notDue⟩ := inTime
  refine ⟨run, task, found, isTask, running, valid, ?_⟩
  split at notDue
  · next isDue due =>
      rw [due, show isDue = false by simpa using notDue]
  · cases notDue

theorem Operation.accommodated_of_check {operation : Operation}
    (checked : (match operation with
      | .superviseRun runId _ | .completeRun runId _ => world.runsInTime runId
      | .getTaskCheckpointStates taskId runId =>
          (world.store.findRun runId).any fun run => run.state == .running && run.taskId == taskId
      | _ => false) = true) : operation.Accommodated world := by
  cases operation with
  | superviseRun runId renewForSeconds =>
      obtain ⟨run, task, found, isTask, running, valid, notDue⟩ := World.runsInTime_iff checked
      refine ⟨run, task, found, isTask, by rw [running]; decide, fun _ => .inr ⟨notDue, ?_⟩⟩
      intro expired
      rw [valid] at expired
      cases expired
  | completeRun runId result =>
      obtain ⟨run, task, found, isTask, running, _, notDue⟩ := World.runsInTime_iff checked
      refine ⟨run, task, found, isTask, ?_⟩
      rw [RunRow.Gated, running]
      exact .inr ⟨false, notDue⟩
  | getTaskCheckpointStates taskId runId =>
      obtain ⟨run, found, checked⟩ := (Option.any_eq_true _ _).mp checked
      simp only [Bool.and_eq_true, beq_iff_eq] at checked
      refine ⟨run, found, ?_⟩
      rw [RunRow.Gated, checked.1]
      exact .inr checked.2
  | _ => cases checked

theorem WorkerState.accommodates_sound (state : WorkerState) (event : ExecutionEvent)
    (checked : state.accommodates event = true) : Accommodates state event := by
  cases event with
  | asked call => exact Operation.accommodated_of_check checked
  | supervised call => exact fun _ _ _ => Operation.accommodated_of_check checked
  | rejected operation => cases checked
  | _ => trivial

/-- A handler that returns an output at once. -/
def reports (_ : ClaimedTask) (_ : List Call) : HandlerStep := .finish (.output .null)

/-- A worker goes on after a handler that returns an output. -/
theorem TaskWorker.Run.worker_goesOn_reports :
    ∃ events final, reporter.Run asciiSpace (.ofFunction reports) Accommodates (.blank second)
        events final ∧
      (∃ execution result, final.execution = some execution ∧
        execution.phase = .returned result) ∧ final.GoesOn := by
  obtain ⟨events, before, event, after, run, step, holds⟩ :=
    @TaskWorker.run_play asciiSpace reporter reports WorkerState.accommodates Accommodates second
      WorkerState.accommodates_sound
      [.serve (plainSubmission []), .claim, .execute, .execute, .handle] .execute
      (fun before event after => before.accommodates event && after.execution.any fun execution =>
        match execution.phase with
        | .returned _ => true
        | _ => false)
      (by decide +kernel)
  rw [Bool.and_eq_true] at holds
  have reached := run.snoc step (WorkerState.accommodates_sound before event holds.1)
  obtain ⟨execution, isExecution, returned⟩ := (Option.any_eq_true _ _).mp holds.2
  refine ⟨_, after, reached, ⟨execution, ?_⟩, reached.worker_goesOn⟩
  split at returned
  · next result isResult => exact ⟨result, isExecution, isResult⟩
  · cases returned

/-- A handler that sleeps and returns an output although it has been suspended. -/
def doze (wakeAt : Timestamp) (task : ClaimedTask) (answers : List Call) : HandlerStep :=
  match answers with
  | [] => .ask (.setTaskCheckpointState task.taskId (some "$sleep:nap") (some (.string "soon"))
      task.runId)
  | [_] => .ask (.scheduleRun task.runId (some wakeAt))
  | _ => .finish (.output .null)

/-- A handler that swallows the error of a sleep stops its worker. -/
theorem TaskWorker.Run.not_worker_goesOn :
    ¬∀ (worker : TaskWorker) (handler : Handler) initial events final,
      (∀ task answers operation, handler.asks task answers operation →
        task.CallsContext operation) →
        worker.Run asciiSpace handler (fun _ _ => True) initial events final → final.GoesOn := by
  intro goesOn
  obtain ⟨events, before, event, after, run, step, holds⟩ :=
    @TaskWorker.run_play asciiSpace reporter (doze (9 * second)) (fun _ _ => true)
      (fun _ _ => True) second (fun _ _ _ => trivial)
      [.serve (plainSubmission []), .claim, .execute, .execute, .handle, .handle, .handle] .execute
      (fun _ _ after => after.execution.any fun execution =>
        match execution.phase with
        | .returned result => (attemptResult result).toOption.isNone
        | _ => false)
      (by decide +kernel)
  have calls : ∀ task answers operation,
      (Handler.ofFunction (doze (9 * second))).asks task answers operation →
        task.CallsContext operation := by
    intro task answers operation asks
    change doze (9 * second) task answers = .ask operation at asks
    unfold doze at asks
    split at asks
    · cases asks
      exact .inl ⟨_, _, rfl⟩
    · cases asks
      exact .inr ⟨_, rfl⟩
    · cases asks
  obtain ⟨execution, isExecution, stopped⟩ := (Option.any_eq_true _ _).mp holds
  split at stopped
  · next result isResult =>
      have lets := goesOn reporter _ _ _ after calls (run.snoc step trivial) execution result
        isExecution isResult
      rw [lets] at stopped
      cases stopped
  · cases stopped

end Steda
