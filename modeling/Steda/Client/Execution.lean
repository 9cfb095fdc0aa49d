import Steda.Client.Executor
import Steda.Client.TaskContext

/-!
# Executing a claimed run

`execute_task` asks the database about its run, opens a context, and runs the
handler next to `supervise_execution`.  What the handler returns decides which
statement settles the run.  Other clients call the database at any time.
-/

namespace Steda

open Postgres Transaction

/-! ## Statements -/

/-- The JSON parameters of a statement can be stored. -/
def Operation.storable : Operation → Bool
  | .completeRun _ (some value) | .failRun _ (some value) _
  | .setTaskCheckpointState _ _ (some value) _ => value.storable
  | .spawnTask _ params options => params.all Json.storable && options.all Json.storable
  | _ => true

/-- The error of a parameter that cannot be stored as `jsonb`. -/
def untranslatableCharacter : SqlxError :=
  .database (some "22P05") "unsupported Unicode escape sequence"

/-- The result of a statement, from its outcome in the database. -/
def received {Value : Type} (queue : String) (outcome : Except SqlError Value) :
    Except Error Value :=
  outcome.mapError fun error => mapSqlxError (error.received queue)

/-- The result of `complete_run`. -/
def completeRunResult : Except Error Bool → Except Error Unit
  | .error error => .error error
  | .ok true => .ok ()
  | .ok false => .error .cancelled

/-! ## Failures -/

/-- What the future of a handler yields: its output, its error, or the message
of its panic. -/
inductive HandlerOutcome
  | output (value : Json)
  | error (error : Error)
  | panic (message : String)

/-- `error_name`. -/
def Error.name : Error → String
  | .timeout _ => "TimeoutError"
  | .cancelled => "CancelledTask"
  | .failedRun => "FailedTask"
  | .leaseLost => "LeaseLost"
  | .suspended => "SuspendTask"
  | _ => "Error"

/-- `serialize_error`, with the text of an error and its sources. -/
def serializeError (text : Error → String) (error : Error) : Json :=
  .object [("name", .string error.name), ("message", .string (text error))]

/-- The failure of an attempt that panicked. -/
def panicFailure (message : String) : Json :=
  .object [("name", .string "Panic"), ("message", .string s!"panic: {message}")]

/-! ## Phases -/

/-- Where `execute_task` stands. -/
inductive ExecutionPhase
  | supervising
  | opening
  | executing
  | completing (output : Json)
  | judging (error : Error)
  | failing (failure : Json)
  | settling
  | returned (result : Except Error Unit)

namespace ExecutionPhase

/-- The result for a run that supervision has not found running. -/
def supervised : RunSupervision → ExecutionPhase
  | .leaseLost => .returned (.error .leaseLost)
  | _ => .returned (.ok ())

/-- After the supervision before the handler is invoked. -/
def afterSupervision : Except Error RunSupervision → ExecutionPhase
  | .error error => .returned (.error error)
  | .ok .running => .opening
  | .ok outcome => supervised outcome

/-- After `TaskContext::new`. -/
def afterOpening (text : Error → String) :
    Except Error (List (String × Json)) → ExecutionPhase
  | .ok _ => .executing
  | .error (.invalidTaskHeaders reason) =>
      .failing (serializeError text (.invalidTaskHeaders reason))
  | .error error => .returned (.error error)

/-- After the handler.  An error that looks like control flow is checked against
the database before it counts as a failure. -/
def afterHandler (text : Error → String) : HandlerOutcome → ExecutionPhase
  | .output value => .completing value
  | .error error =>
      if error.isSettled then .judging error else .failing (serializeError text error)
  | .panic message => .failing (panicFailure message)

/-- After `complete_run`. -/
def afterCompletion : Except Error Unit → ExecutionPhase
  | .ok () => .returned (.ok ())
  | .error .cancelled => .returned (.ok ())
  | .error error => .returned (.error error)

/-- After `persisted_execution_outcome` of an error that looks like control
flow. -/
def afterJudgment (text : Error → String) (error : Error) :
    Except Error RunSupervision → ExecutionPhase
  | .error failure => .returned (.error failure)
  | .ok .running => .failing (serializeError text error)
  | .ok outcome => supervised outcome

/-- `finish_failure_transition`. -/
def afterFailure : Except Error Unit → ExecutionPhase
  | .ok () => .settling
  | .error .cancelled => .returned (.ok ())
  | .error .failedRun => .returned (.ok ())
  | .error error => .returned (.error error)

/-- After `persisted_execution_outcome` of a failed run. -/
def afterSettling : Except Error RunSupervision → ExecutionPhase
  | .error error => .returned (.error error)
  | .ok _ => .returned (.ok ())

end ExecutionPhase

/-- Where `supervise_execution` stands. -/
inductive SupervisionPhase
  | sleeping
  | asking
  | answered (reply : Except Error RunSupervision)

/-- An attempt under `execute_task`, with the answers its handler has got. -/
structure Execution where
  task : ClaimedTask
  phase : ExecutionPhase
  supervision : SupervisionPhase
  answers : List Call

/-- A worker of one queue, and how it prints errors and names. -/
structure TaskWorker where
  queue : String
  workerId : String
  leaseSeconds : Int
  positive : 0 < leaseSeconds
  registry : List String
  text : Error → String
  debug : String → String

/-- What the handler of a task asks the database for on its contexts, and what it
returns, given the answers so far. -/
structure Handler where
  asks : ClaimedTask → List Call → Operation → Prop
  returns : ClaimedTask → List Call → HandlerOutcome → Prop

namespace Execution

/-- `execute_task` looks its handler up. -/
def start (worker : TaskWorker) (task : ClaimedTask) : Execution where
  task := task
  phase :=
    if task.taskName ∈ worker.registry then .supervising
    else
      let name := worker.debug task.taskName
      .returned (.error
        (.other s!"database returned unsupported task {name} to capability-filtered worker"))
  supervision := .sleeping
  answers := []

/-- The statement `execute_task` waits for. -/
def statement? (execution : Execution) (leaseSeconds : Int) : Option Operation :=
  match execution.phase with
  | .supervising => some (.superviseRun execution.task.runId (some leaseSeconds))
  | .opening => some (.getTaskCheckpointStates execution.task.taskId execution.task.runId)
  | .completing output => some (.completeRun execution.task.runId (some output))
  | .failing failure => some (.failRun execution.task.runId (some failure) (some false))
  | .judging _ | .settling => some (.superviseRun execution.task.runId none)
  | .executing | .returned _ => none

/-- `execute_task` goes on with the result of its statement. -/
def receive (execution : Execution) (text : Error → String) :
    (operation : Operation) → Except Error operation.Result → Execution
  | .superviseRun _ _, reply =>
      { execution with
        phase :=
          match execution.phase with
          | .supervising => .afterSupervision reply
          | .judging error => .afterJudgment text error reply
          | .settling => .afterSettling reply
          | phase => phase }
  | .getTaskCheckpointStates _ _, reply => { execution with phase := .afterOpening text reply }
  | .completeRun _ _, reply => { execution with phase := .afterCompletion (completeRunResult reply) }
  | .failRun _ _ _, reply => { execution with phase := .afterFailure reply }
  | _, _ => execution

/-- `execute_task` sees a result of `supervise_execution`. -/
def observe (execution : Execution) : Except Error RunSupervision → Execution
  | .error error => { execution with phase := .returned (.error error) }
  | .ok .running => { execution with supervision := .sleeping }
  | .ok outcome => { execution with phase := .supervised outcome }

end Execution

/-! ## The system -/

/-- The database with at most one attempt of the worker. -/
structure WorkerState where
  world : World
  execution : Option Execution

/-- A step of the system. -/
inductive ExecutionEvent
  | served (call : Call)
  | claimed (call : Call) (task : ClaimedTask)
  | asked (call : Call)
  | rejected (operation : Operation)
  | polled
  | supervised (call : Call)
  | observed
  | handled (call : Call)
  | handlerReturned (outcome : HandlerOutcome)

/-- A step of the database, of a worker, or of the handler of its attempt. -/
inductive TaskWorker.Step (space : Char → Bool) (worker : TaskWorker) (handler : Handler) :
    WorkerState → ExecutionEvent → WorkerState → Prop
  /-- The database serves another client. -/
  | served {state : WorkerState} {call : Call} {world : World}
      (serves : Served space state.world call world) :
      Step space worker handler state (.served call) { state with world := world }
  /-- The worker claims a run and spawns its attempt. -/
  | claimed {state : WorkerState} {quantity : Int} {tasks : List ClaimedTask}
      {task : ClaimedTask} {world : World} (idle : state.execution = none)
      (serves : Served space state.world ⟨.claimTasks (some worker.workerId)
        (some worker.leaseSeconds) (some quantity) (some (worker.registry.map some)),
        .ok tasks⟩ world) (member : task ∈ tasks) :
      Step space worker handler state
        (.claimed ⟨.claimTasks (some worker.workerId) (some worker.leaseSeconds)
          (some quantity) (some (worker.registry.map some)), .ok tasks⟩ task)
        { world := world, execution := some (.start worker task) }
  /-- The statement of `execute_task` is served. -/
  | asked {state : WorkerState} {execution : Execution} {operation : Operation}
      {outcome : Except SqlError operation.Result} {world : World}
      (isExecution : state.execution = some execution)
      (asks : execution.statement? worker.leaseSeconds = some operation)
      (storable : operation.storable = true)
      (serves : Served space state.world ⟨operation, outcome⟩ world) :
      Step space worker handler state (.asked ⟨operation, outcome⟩)
        { world := world
          execution :=
            some (execution.receive worker.text operation (received worker.queue outcome)) }
  /-- A parameter of the statement cannot be stored. -/
  | rejected {state : WorkerState} {execution : Execution} {operation : Operation}
      (isExecution : state.execution = some execution)
      (asks : execution.statement? worker.leaseSeconds = some operation)
      (unstorable : operation.storable = false) :
      Step space worker handler state (.rejected operation)
        { state with
          execution := some (execution.receive worker.text operation
            (.error (mapSqlxError untranslatableCharacter))) }
  /-- The supervision interval is over. -/
  | polled {state : WorkerState} {execution : Execution}
      (isExecution : state.execution = some execution)
      (executing : execution.phase = .executing) (sleeping : execution.supervision = .sleeping) :
      Step space worker handler state .polled
        { state with execution := some { execution with supervision := .asking } }
  /-- The statement of `supervise_execution` is served, perhaps after
  `execute_task` has stopped waiting for it. -/
  | supervised {state : WorkerState} {execution : Execution}
      {outcome : Except SqlError RunSupervision} {world : World}
      (isExecution : state.execution = some execution) (asking : execution.supervision = .asking)
      (serves : Served space state.world
        ⟨.superviseRun execution.task.runId (some worker.leaseSeconds), outcome⟩ world) :
      Step space worker handler state
        (.supervised ⟨.superviseRun execution.task.runId (some worker.leaseSeconds), outcome⟩)
        { world := world
          execution := some
            { execution with supervision := .answered (received worker.queue outcome) } }
  /-- `execute_task` sees a result of `supervise_execution`. -/
  | observed {state : WorkerState} {execution : Execution}
      {reply : Except Error RunSupervision} (isExecution : state.execution = some execution)
      (executing : execution.phase = .executing)
      (answered : execution.supervision = .answered reply) :
      Step space worker handler state .observed
        { state with execution := some (execution.observe reply) }
  /-- A statement of the handler is served.  One whose parameters cannot be stored
  fails before the database has read it. -/
  | handled {state : WorkerState} {execution : Execution} {operation : Operation}
      {outcome : Except SqlError operation.Result} {world : World}
      (isExecution : state.execution = some execution)
      (executing : execution.phase = .executing)
      (asks : handler.asks execution.task execution.answers operation)
      (storable : operation.storable = true)
      (serves : Served space state.world ⟨operation, outcome⟩ world) :
      Step space worker handler state (.handled ⟨operation, outcome⟩)
        { world := world
          execution := some
            { execution with answers := execution.answers ++ [⟨operation, outcome⟩] } }
  /-- The future of the handler is done. -/
  | handlerReturned {state : WorkerState} {execution : Execution} {outcome : HandlerOutcome}
      (isExecution : state.execution = some execution)
      (executing : execution.phase = .executing)
      (returns : handler.returns execution.task execution.answers outcome) :
      Step space worker handler state (.handlerReturned outcome)
        { state with
          execution := some { execution with phase := .afterHandler worker.text outcome } }

/-- Steps of the system from an empty queue, each of them allowed before it is
taken. -/
structure TaskWorker.Run (space : Char → Bool) (worker : TaskWorker) (handler : Handler)
    (allows : WorkerState → ExecutionEvent → Prop) (initial : World)
    (events : List ExecutionEvent) (final : WorkerState) : Prop where
  empty : ∃ cleanupTtl cleanupLimit, initial.store = Queue.empty cleanupTtl cleanupLimit
  fresh : Function.Injective initial.idents
  trace : Trace
    (fun before event after => worker.Step space handler before event after ∧ allows before event)
    { world := initial, execution := none } events final

section Runs

variable {space : Char → Bool} {worker : TaskWorker} {handler : Handler}
  {allows : WorkerState → ExecutionEvent → Prop} {initial : World} {events : List ExecutionEvent}
  {before after : WorkerState} {event : ExecutionEvent}

/-- Every step serves at most one call. -/
theorem TaskWorker.Step.world (step : worker.Step space handler before event after) :
    after.world = before.world ∨ ∃ call, Served space before.world call after.world := by
  cases step with
  | served serves => exact .inr ⟨_, serves⟩
  | claimed idle serves member => exact .inr ⟨_, serves⟩
  | asked isExecution asks storable serves => exact .inr ⟨_, serves⟩
  | rejected => exact .inl rfl
  | polled => exact .inl rfl
  | supervised isExecution asking serves => exact .inr ⟨_, serves⟩
  | observed => exact .inl rfl
  | handled isExecution executing asks storable serves => exact .inr ⟨_, serves⟩
  | handlerReturned => exact .inl rfl

/-- A step goes on with the history of its queue. -/
theorem TaskWorker.Step.history (step : worker.Step space handler before event after)
    {calls : List Call} (past : History space initial calls before.world) :
    ∃ calls, History space initial calls after.world := by
  rcases step.world with same | ⟨call, serves⟩
  · exact ⟨calls, by rw [same]; exact past⟩
  · exact ⟨calls ++ [call], past.empty, past.fresh, past.trace.append (.cons serves (.nil _))⟩

namespace TaskWorker.Run

/-- The system after one more step. -/
theorem snoc (run : worker.Run space handler allows initial events before)
    (step : worker.Step space handler before event after) (allowed : allows before event) :
    worker.Run space handler allows initial (events ++ [event]) after :=
  ⟨run.empty, run.fresh, run.trace.append (.cons ⟨step, allowed⟩ (.nil _))⟩

/-- A property that every allowed step keeps holds in every reached state. -/
theorem invariant {holds : WorkerState → Prop}
    (run : worker.Run space handler allows initial events after)
    (begins : holds { world := initial, execution := none })
    (kept : ∀ before event after, worker.Step space handler before event after →
      allows before event → holds before → holds after) : holds after :=
  Trace.invariant run.trace
    (fun before event after step early => kept before event after step.1 step.2 early) begins

/-- The calls of a system are a history of its queue. -/
theorem history (run : worker.Run space handler allows initial events after) :
    ∃ calls, History space initial calls after.world := by
  let holds (state : WorkerState) : Prop := ∃ calls, History space initial calls state.world
  have begins : holds { world := initial, execution := none } :=
    ⟨[], run.empty, run.fresh, .nil _⟩
  have reached : holds after := by
    refine run.invariant begins ?_
    rintro before event after step _ ⟨calls, past⟩
    exact step.history past
  exact reached

end TaskWorker.Run

end Runs

/-! ## Playing a system -/

/-- What a handler does next. -/
inductive HandlerStep
  | ask (operation : Operation)
  | finish (outcome : HandlerOutcome)

/-- A handler whose next step is a function of the answers so far. -/
def Handler.ofFunction (next : ClaimedTask → List Call → HandlerStep) : Handler where
  asks task answers operation := next task answers = .ask operation
  returns task answers outcome := next task answers = .finish outcome

/-- Who takes the next step. -/
inductive WorkerMove
  | serve (operation : Operation)
  | claim
  | execute
  | handle
  | poll
  | supervise
  | observe

namespace TaskWorker

variable (space : Char → Bool) (worker : TaskWorker) (next : ClaimedTask → List Call → HandlerStep)

/-- The worker claims one run. -/
def claimOne : Operation :=
  .claimTasks (some worker.workerId) (some worker.leaseSeconds) (some 1)
    (some (worker.registry.map some))

/-- The result of a claim, if there is one. -/
def firstClaimed (world : World) : Option (ClaimedTask × List ClaimedTask × World) :=
  match worker.claimOne.perform space world with
  | (.ok (task :: rest), after) => some (task, rest, after)
  | _ => none

/-- The next step of the attempt in a phase. -/
def execute (world : World) (execution : Execution) : Option (ExecutionEvent × WorkerState) :=
  (execution.statement? worker.leaseSeconds).map fun operation =>
    if operation.storable then
      let outcome := operation.perform space world
      (.asked ⟨operation, outcome.1⟩,
        { world := outcome.2
          execution := some
            (execution.receive worker.text operation (received worker.queue outcome.1)) })
    else
      (.rejected operation,
        { world := world
          execution := some (execution.receive worker.text operation
            (.error (mapSqlxError untranslatableCharacter))) })

/-- The next step of the handler of an attempt. -/
def handle (world : World) (execution : Execution) : Option (ExecutionEvent × WorkerState) :=
  match next execution.task execution.answers with
  | .ask operation =>
      if operation.storable then
        let outcome := operation.perform space world
        some (.handled ⟨operation, outcome.1⟩,
          { world := outcome.2
            execution := some
              { execution with
                answers := execution.answers ++ [⟨operation, outcome.1⟩] } })
      else none
  | .finish outcome =>
      some (.handlerReturned outcome,
        { world := world
          execution := some { execution with phase := .afterHandler worker.text outcome } })

/-- The next supervision of an attempt. -/
def supervise (world : World) (execution : Execution) : ExecutionEvent × WorkerState :=
  let operation : Operation := .superviseRun execution.task.runId (some worker.leaseSeconds)
  let outcome := operation.perform space world
  (.supervised ⟨operation, outcome.1⟩,
    { world := outcome.2
      execution := some
        { execution with supervision := .answered (received worker.queue outcome.1) } })

/-- The step of a move, if it can be made. -/
def next? (state : WorkerState) : WorkerMove → Option (ExecutionEvent × WorkerState)
  | .serve operation =>
      let outcome := operation.perform space state.world
      some (.served ⟨operation, outcome.1⟩, { state with world := outcome.2 })
  | .claim =>
      match state.execution, worker.firstClaimed space state.world with
      | none, some (task, rest, world) =>
          some (.claimed ⟨worker.claimOne, .ok (task :: rest)⟩ task,
            { world := world, execution := some (.start worker task) })
      | _, _ => none
  | .execute => state.execution.bind (worker.execute space state.world)
  | .handle =>
      match state.execution with
      | some ⟨task, .executing, supervision, answers⟩ =>
          worker.handle space next state.world ⟨task, .executing, supervision, answers⟩
      | _ => none
  | .poll =>
      match state.execution with
      | some ⟨task, .executing, .sleeping, answers⟩ =>
          some (.polled, { state with execution := some ⟨task, .executing, .asking, answers⟩ })
      | _ => none
  | .supervise =>
      match state.execution with
      | some ⟨task, phase, .asking, answers⟩ =>
          some (worker.supervise space state.world ⟨task, phase, .asking, answers⟩)
      | _ => none
  | .observe =>
      match state.execution with
      | some ⟨task, .executing, .answered reply, answers⟩ =>
          some (.observed,
            { state with
              execution := some
                (Execution.observe ⟨task, .executing, .answered reply, answers⟩ reply) })
      | _ => none

/-- The steps of a list of moves, each of them allowed. -/
def play (allowed : WorkerState → ExecutionEvent → Bool) :
    WorkerState → List WorkerMove → Option (List ExecutionEvent × WorkerState)
  | state, [] => some ([], state)
  | state, move :: rest =>
      (worker.next? space next state move).bind fun step =>
        if allowed state step.1 then
          (play allowed step.2 rest).map fun played => (step.1 :: played.1, played.2)
        else none

variable {space : Char → Bool} {worker : TaskWorker}
  {next : ClaimedTask → List Call → HandlerStep} {state after : WorkerState}
  {event : ExecutionEvent} {execution : Execution}

theorem step_execute (isExecution : state.execution = some execution)
    (made : worker.execute space state.world execution = some (event, after)) :
    worker.Step space (.ofFunction next) state event after := by
  obtain ⟨operation, asks, isStep⟩ := Option.map_eq_some_iff.mp made
  split at isStep
  · next storable =>
      cases isStep
      exact .asked isExecution asks storable rfl
  · next unstorable =>
      cases isStep
      exact .rejected isExecution asks (Bool.eq_false_iff.mpr unstorable)

theorem step_handle (isExecution : state.execution = some execution)
    (executing : execution.phase = .executing)
    (made : worker.handle space next state.world execution = some (event, after)) :
    worker.Step space (.ofFunction next) state event after := by
  unfold handle at made
  split at made
  · next operation asks =>
      split at made
      · next storable =>
          cases made
          exact .handled isExecution executing asks storable rfl
      · cases made
  · next outcome returns =>
      cases made
      exact .handlerReturned isExecution executing returns

theorem step_supervise (isExecution : state.execution = some execution)
    (asking : execution.supervision = .asking) :
    worker.Step space (.ofFunction next) state (worker.supervise space state.world execution).1
      (worker.supervise space state.world execution).2 :=
  .supervised isExecution asking rfl

/-- Every move that can be made is a step. -/
theorem step_next {move : WorkerMove}
    (made : worker.next? space next state move = some (event, after)) :
    worker.Step space (.ofFunction next) state event after := by
  cases move with
  | serve operation =>
      cases made
      exact .served rfl
  | claim =>
      simp only [next?] at made
      split at made
      · next task rest world idle claimed =>
          cases made
          unfold firstClaimed at claimed
          split at claimed
          · next served =>
              cases claimed
              exact .claimed idle served List.mem_cons_self
          · cases claimed
      · cases made
  | execute =>
      obtain ⟨execution, isExecution, made⟩ := Option.bind_eq_some_iff.mp made
      exact step_execute isExecution made
  | handle =>
      simp only [next?] at made
      split at made
      · next isExecution => exact step_handle isExecution rfl made
      · cases made
  | poll =>
      simp only [next?] at made
      split at made
      · next isExecution =>
          cases made
          exact .polled isExecution rfl rfl
      · cases made
  | supervise =>
      simp only [next?] at made
      split at made
      · next isExecution =>
          cases made
          exact step_supervise isExecution rfl
      · cases made
  | observe =>
      simp only [next?] at made
      split at made
      · next isExecution =>
          cases made
          exact .observed isExecution rfl rfl
      · cases made

/-- Moves are steps of a system. -/
theorem trace_play {allowed : WorkerState → ExecutionEvent → Bool}
    {allows : WorkerState → ExecutionEvent → Prop}
    (sound : ∀ state event, allowed state event = true → allows state event)
    {moves : List WorkerMove} {events : List ExecutionEvent}
    (played : worker.play space next allowed state moves = some (events, after)) :
    Trace (fun before event after =>
      worker.Step space (.ofFunction next) before event after ∧ allows before event)
      state events after := by
  induction moves generalizing state events with
  | nil =>
      cases played
      exact .nil _
  | cons move rest inductionHypothesis =>
      obtain ⟨⟨event, middle⟩, made, played⟩ := Option.bind_eq_some_iff.mp played
      split at played
      · next isAllowed =>
          obtain ⟨⟨later, final⟩, followed, isPlayed⟩ := Option.map_eq_some_iff.mp played
          cases isPlayed
          exact .cons ⟨step_next made, sound _ _ isAllowed⟩ (inductionHypothesis followed)
      · cases played

/-- A system that plays moves from a blank queue and makes one more. -/
theorem run_play {allowed : WorkerState → ExecutionEvent → Bool}
    {allows : WorkerState → ExecutionEvent → Prop} {tick : Int}
    (sound : ∀ state event, allowed state event = true → allows state event)
    {moves : List WorkerMove} {move : WorkerMove}
    {holds : WorkerState → ExecutionEvent → WorkerState → Bool}
    (played : ((worker.play space next allowed ⟨.blank tick, none⟩ moves).bind fun played =>
      (worker.next? space next played.2 move).map fun step =>
        holds played.2 step.1 step.2) = some true) :
    ∃ events before event after,
      worker.Run space (.ofFunction next) allows (.blank tick) events before ∧
      worker.Step space (.ofFunction next) before event after ∧
      holds before event after = true := by
  obtain ⟨⟨events, before⟩, reached, made⟩ := Option.bind_eq_some_iff.mp played
  obtain ⟨⟨event, after⟩, isStep, isTrue⟩ := Option.map_eq_some_iff.mp made
  exact ⟨events, before, event, after,
    ⟨⟨0, 1, rfl⟩, fun _ _ same => same, trace_play sound reached⟩, step_next isStep, isTrue⟩

end TaskWorker

end Steda
