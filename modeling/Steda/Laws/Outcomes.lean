import Steda.Laws.Confirmations
import Steda.Laws.Metrics

/-!
# Truthful outcomes

An attempt is finished with an outcome only after the queue has confirmed it:
some state between the claim of the run and the end of the attempt confirms the
outcome, however the attempts and the other clients of the queue interleave and
whatever statements are lost.
-/

namespace Steda

open Postgres Transaction

variable {space : Char → Bool} {initial : World} {events : List FleetEvent}

/-! ## The history of a handle -/

/-- Every step of a handle serves at most its call. -/
theorem Fleet.Step.serves {source target : Fleet} {event : FleetEvent}
    (steps : Fleet.Step space source event target) :
    Trace (Served space) source.world event.call?.toList target.world := by
  have mayServe : ∀ {before after : World} {call : Option Call},
      MayServe space before call after → Trace (Served space) before call.toList after := by
    intro before after call serves
    cases call with
    | none =>
        have same : after = before := serves
        rw [same]
        exact .nil _
    | some call => exact .cons serves (.nil _)
  cases steps with
  | served serves | claimed serves => exact .cons serves (.nil _)
  | claimFailed serves => exact mayServe serves
  | lost isAttempt open_ asks sent serves => exact mayServe serves
  | supervisionLost isAttempt open_ asking sent serves => exact mayServe serves
  | forgotten | started | dropped | counted => exact .nil _
  | moved isAttempt open_ steps =>
      cases steps with
      | served serves => exact .cons serves (.nil _)
      | claimed idle => cases idle
      | asked isExecution asks storable serves => exact .cons serves (.nil _)
      | supervised isExecution asking serves => exact .cons serves (.nil _)
      | handled isExecution executing asks storable serves => exact .cons serves (.nil _)
      | rejected | polled | observed | handlerReturned => exact .nil _

/-- The calls that a handle serves. -/
theorem Fleet.trace_served {source target : Fleet}
    (trace : Trace (Fleet.Step space) source events target) :
    Trace (Served space) source.world (events.filterMap FleetEvent.call?) target.world :=
  trace.project Fleet.world FleetEvent.call? fun _ _ _ steps => steps.serves

/-- The calls that a handle serves are a history of its queue. -/
theorem Fleet.Run.history {final : Fleet} (run : Fleet.Run space initial events final) :
    History space initial (events.filterMap FleetEvent.call?) final.world :=
  ⟨run.empty, run.fresh, Fleet.trace_served run.trace⟩

/-! ## Answers of an attempt -/

/-- The result of `execute_task` for an outcome. -/
def ExecutionOutcome.result : ExecutionOutcome → Except Error Unit
  | .leaseLost => .error .leaseLost
  | _ => .ok ()

/-- What an attempt has learned in a step is attested. -/
structure Execution.Learns (attests : ExecutionOutcome → Prop) (execution next : Execution)
    (outcome : Option ExecutionOutcome) : Prop where
  task : next.task = execution.task
  answered : ∀ supervision answer, next.supervision = .answered (.ok supervision) →
    ExecutionOutcome.fromSupervision supervision = some answer → attests answer
  settling : next.phase = .settling → attests .failed ∨ attests .cancelled
  finished : ∀ finish ∈ outcome, attests finish ∧ next.phase = .returned finish.result
  returned : ∀ result, execution.phase = .returned result → next.phase = .returned result
  completed : next.phase = .returned (.ok ()) →
    execution.phase = .returned (.ok ()) ∨ outcome.isSome

/-- The run of an attempt whose failure was accepted has failed or is cancelled. -/
def Execution.Settled (execution : Execution) (world : World) : Prop :=
  execution.phase = .settling → ∀ run, world.store.findRun execution.task.runId = some run →
    world.Confirms execution.task.runId .failed ∨ world.Confirms execution.task.runId .cancelled

theorem Execution.receive_supervision (execution : Execution) (text : Error → String)
    (operation : Operation) (reply : Except Error operation.Result) :
    (execution.receive text operation reply).supervision = execution.supervision := by
  cases operation <;> rfl

section Answers

variable {worker : TaskWorker} {execution : Execution} {before after : World}

theorem supervised_result {supervision : RunSupervision} {finish : ExecutionOutcome}
    (isFinish : ExecutionOutcome.fromSupervision supervision = some finish) :
    ExecutionPhase.supervised supervision = .returned finish.result ∧
      ExecutionPhase.afterSupervision (.ok supervision) = .returned finish.result ∧
        ∀ text error, ExecutionPhase.afterJudgment text error (.ok supervision) =
          .returned finish.result := by
  cases supervision <;> cases isFinish <;> exact ⟨rfl, rfl, fun _ _ => rfl⟩

theorem opening_refused {error : Error} {finish : ExecutionOutcome}
    (isFinish : ExecutionOutcome.ofOpening (.error error) = some finish) :
    ExecutionOutcome.ofRefusal error = some finish ∧
      ∀ text, ExecutionPhase.afterOpening text (.error error) = .returned finish.result := by
  cases error <;> cases isFinish
  exact ⟨rfl, fun _ => rfl⟩

theorem completion_refused {error : Error} {finish : ExecutionOutcome}
    (isFinish : ExecutionOutcome.ofCompletion (.error error) = some finish) :
    ExecutionOutcome.ofRefusal error = some finish ∧
      ExecutionPhase.afterCompletion (.error error) = .returned finish.result := by
  cases error <;> cases isFinish <;> exact ⟨rfl, rfl⟩

theorem failure_refused {error : Error} {finish : ExecutionOutcome}
    (isFinish : ExecutionOutcome.ofFailure (.error error) = some finish) :
    ExecutionOutcome.ofRefusal error = some finish ∧
      ExecutionPhase.afterFailure (.error error) = .returned finish.result := by
  cases error <;> cases isFinish <;> exact ⟨rfl, rfl⟩

variable {finish : ExecutionOutcome}

/-- The outcome of a completion is confirmed. -/
theorem completion_confirmed {runId : Uuid} {output : Json} {outcome : Except SqlError Bool}
    {queue : String}
    (served : Served space before ⟨.completeRun runId (some output), outcome⟩ after)
    (sound : before.store.Sound space)
    (isFinish : ExecutionOutcome.ofCompletion (completeRunResult (received queue outcome)) =
      some finish) :
    (before.Confirms runId finish ∨ after.Confirms runId finish) ∧
      ExecutionPhase.afterCompletion (completeRunResult (received queue outcome)) =
        .returned finish.result := by
  cases outcome with
  | error error =>
      obtain ⟨reports, isResult⟩ := completion_refused isFinish
      exact ⟨Or.inl (served.refused_completion sound reports), isResult⟩
  | ok completed =>
      cases completed with
      | true =>
          cases isFinish
          exact ⟨Or.inr (served.confirms_completed sound), rfl⟩
      | false =>
          cases isFinish
          exact ⟨Or.inr (served.confirms_uncompleted sound), rfl⟩

/-- The outcome of the supervision that follows a failure is confirmed. -/
theorem settling_confirmed {runId : Uuid} {outcome : Except SqlError RunSupervision}
    {queue : String} (served : Served space before ⟨.superviseRun runId none, outcome⟩ after)
    (sound : before.store.Sound space)
    (settled : ∀ run, before.store.findRun runId = some run →
      before.Confirms runId .failed ∨ before.Confirms runId .cancelled)
    (isFinish : ExecutionOutcome.ofSettling (received queue outcome) = some finish) :
    (before.Confirms runId finish ∨ after.Confirms runId finish) ∧
      ExecutionPhase.afterSettling (received queue outcome) = .returned finish.result := by
  cases outcome with
  | error error => cases isFinish
  | ok supervision =>
      obtain ⟨confirms, saysCancelled⟩ := served.supervised sound
      obtain ⟨_, life, run, shows_, member, isRun⟩ := served.supervises sound
      have isFinish : (if ExecutionOutcome.fromSupervision supervision = some .cancelled then
          some .cancelled else some .failed) = some finish := isFinish
      split at isFinish
      · next cancelled =>
          cases isFinish
          exact ⟨confirms _ cancelled, rfl⟩
      · next notCancelled =>
          cases isFinish
          refine ⟨Or.inl ?_, rfl⟩
          refine (settled run (isRun ▸ shows_.findRun member)).resolve_right ?_
          intro cancelled
          rw [saysCancelled cancelled] at notCancelled
          exact notCancelled rfl

/-- The outcome an attempt finishes with is confirmed before or after its
statement, and decides its result. -/
theorem Execution.confirms {operation : Operation} {outcome : Except SqlError operation.Result}
    (asks : execution.statement? worker.leaseSeconds = some operation)
    (served : Served space before ⟨operation, outcome⟩ after) (ready : before.Ready space)
    (settled : execution.Settled before)
    (isFinish : execution.outcome? operation (received worker.queue outcome) = some finish) :
    (before.Confirms execution.task.runId finish ∨ after.Confirms execution.task.runId finish) ∧
      (execution.receive worker.text operation (received worker.queue outcome)).phase =
        .returned finish.result := by
  have supervised : ∀ {renewForSeconds : Option Int} {outcome : Except SqlError RunSupervision},
      Served space before ⟨.superviseRun execution.task.runId renewForSeconds, outcome⟩ after →
      ExecutionOutcome.ofSupervision (received worker.queue outcome) = some finish →
        ∃ supervision, outcome = .ok supervision ∧
          ExecutionOutcome.fromSupervision supervision = some finish ∧
          (before.Confirms execution.task.runId finish ∨
            after.Confirms execution.task.runId finish) := by
    intro renewForSeconds outcome served isFinish
    cases outcome with
    | error error => cases isFinish
    | ok supervision =>
        exact ⟨supervision, rfl, isFinish, (served.supervised ready.sound).1 finish isFinish⟩
  unfold statement? at asks
  unfold outcome? at isFinish
  unfold receive
  cases phase : execution.phase with
  | supervising =>
      rw [phase] at asks
      cases asks
      simp only [phase] at isFinish ⊢
      obtain ⟨supervision, isAnswer, isFinish, confirmed⟩ := supervised served isFinish
      subst isAnswer
      exact ⟨confirmed, (supervised_result isFinish).2.1⟩
  | opening =>
      rw [phase] at asks
      cases asks
      cases outcome with
      | ok listed => cases isFinish
      | error error =>
          obtain ⟨reports, isResult⟩ := opening_refused isFinish
          exact ⟨Or.inl (served.refused_listing ready.sound reports), isResult _⟩
  | executing =>
      rw [phase] at asks
      cases asks
  | completing output =>
      rw [phase] at asks
      cases asks
      exact completion_confirmed served ready.sound isFinish
  | judging error =>
      rw [phase] at asks
      cases asks
      simp only [phase] at isFinish ⊢
      obtain ⟨supervision, isAnswer, isFinish, confirmed⟩ := supervised served isFinish
      subst isAnswer
      exact ⟨confirmed, (supervised_result isFinish).2.2 _ _⟩
  | failing failure =>
      rw [phase] at asks
      cases asks
      cases outcome with
      | ok accepted => cases isFinish
      | error error =>
          obtain ⟨reports, isResult⟩ := failure_refused isFinish
          exact ⟨Or.inl (served.refused_failure ready reports), isResult⟩
  | settling =>
      rw [phase] at asks
      cases asks
      simp only [phase] at isFinish ⊢
      exact settling_confirmed served ready.sound (settled phase) isFinish
  | returned result =>
      rw [phase] at asks
      cases asks

theorem ExecutionPhase.afterFailure_error (error : Error) :
    ExecutionPhase.afterFailure (.error error) ≠ .settling := by
  cases error <;> exact ExecutionPhase.noConfusion

/-- Only an accepted failure settles an attempt. -/
theorem Execution.not_settles {operation : Operation}
    (asks : execution.statement? worker.leaseSeconds = some operation)
    (reply : Except Error operation.Result)
    (notFailing : ∀ failure, execution.phase ≠ .failing failure) :
    (execution.receive worker.text operation reply).phase ≠ .settling := by
  unfold statement? at asks
  unfold receive
  cases phase : execution.phase with
  | executing | returned =>
      rw [phase] at asks
      cases asks
  | failing failure => exact absurd phase (notFailing failure)
  | supervising =>
      rw [phase] at asks
      cases asks
      rcases reply with error | supervision
      · exact ExecutionPhase.noConfusion
      · cases supervision <;> exact ExecutionPhase.noConfusion
  | judging error =>
      rw [phase] at asks
      cases asks
      rcases reply with error | supervision
      · exact ExecutionPhase.noConfusion
      · cases supervision <;> exact ExecutionPhase.noConfusion
  | settling =>
      rw [phase] at asks
      cases asks
      rcases reply with error | supervision <;> exact ExecutionPhase.noConfusion
  | opening =>
      rw [phase] at asks
      cases asks
      rcases reply with error | listed
      · cases error <;> exact ExecutionPhase.noConfusion
      · exact ExecutionPhase.noConfusion
  | completing output =>
      rw [phase] at asks
      cases asks
      rcases reply with error | completed
      · cases error <;> exact ExecutionPhase.noConfusion
      · cases completed <;> exact ExecutionPhase.noConfusion

/-- An accepted failure is confirmed. -/
theorem Execution.settles {operation : Operation} {outcome : Except SqlError operation.Result}
    (asks : execution.statement? worker.leaseSeconds = some operation)
    (served : Served space before ⟨operation, outcome⟩ after) (ready : before.Ready space)
    (settling : (execution.receive worker.text operation (received worker.queue outcome)).phase =
      .settling) :
    after.Confirms execution.task.runId .failed ∨
      after.Confirms execution.task.runId .cancelled := by
  by_cases failing : ∃ failure, execution.phase = .failing failure
  · obtain ⟨failure, phase⟩ := failing
    unfold statement? at asks
    rw [phase] at asks
    cases asks
    cases outcome with
    | ok accepted => exact served.confirms_failed ready
    | error error => exact absurd settling (ExecutionPhase.afterFailure_error _)
  · refine absurd settling (Execution.not_settles asks _ ?_)
    intro failure phase
    exact failing ⟨failure, phase⟩

theorem Execution.outcome_unanswered (execution : Execution) (operation : Operation)
    (error : SqlxError) : execution.outcome? operation (.error (.database error)) = none := by
  cases operation with
  | superviseRun =>
      unfold outcome?
      dsimp only
      split <;> rfl
  | _ => rfl

/-- `execute_task` finishes its guard when it returns without an error. -/
theorem Execution.completes {operation : Operation}
    (asks : execution.statement? worker.leaseSeconds = some operation)
    (reply : Except Error operation.Result)
    (returned : (execution.receive worker.text operation reply).phase = .returned (.ok ())) :
    (execution.outcome? operation reply).isSome := by
  unfold statement? at asks
  unfold outcome?
  unfold receive at returned
  cases phase : execution.phase with
  | executing | returned =>
      rw [phase] at asks
      cases asks
  | supervising =>
      rw [phase] at asks
      cases asks
      simp only [phase] at returned
      rcases reply with error | supervision
      · cases returned
      · cases supervision <;> first | rfl | cases returned
  | judging error =>
      rw [phase] at asks
      cases asks
      simp only [phase] at returned
      rcases reply with error | supervision
      · cases returned
      · cases supervision <;> first | rfl | cases returned
  | settling =>
      rw [phase] at asks
      cases asks
      simp only [phase] at returned
      rcases reply with error | supervision
      · cases returned
      · cases supervision <;> rfl
  | opening =>
      rw [phase] at asks
      cases asks
      rcases reply with error | listed
      · cases error <;> cases returned
      · cases returned
  | completing output =>
      rw [phase] at asks
      cases asks
      rcases reply with error | completed
      · cases error <;> first | rfl | cases returned
      · cases completed <;> rfl
  | failing failure =>
      rw [phase] at asks
      cases asks
      rcases reply with error | accepted
      · cases error <;> first | rfl | cases returned
      · cases returned

/-- An attempt learns nothing from a statement without an answer. -/
theorem Execution.learns_nothing {operation : Operation}
    (asks : execution.statement? worker.leaseSeconds = some operation) (error : SqlxError)
    {attests : ExecutionOutcome → Prop}
    (answered : ∀ supervision answer, execution.supervision = .answered (.ok supervision) →
      ExecutionOutcome.fromSupervision supervision = some answer → attests answer) :
    execution.Learns attests
      (execution.receive worker.text operation (.error (.database error)))
      (execution.outcome? operation (.error (.database error))) where
  task := Execution.receive_task execution worker.text operation _
  answered := by
    rw [Execution.receive_supervision]
    exact answered
  settling := by
    intro settling
    by_cases failing : ∃ failure, execution.phase = .failing failure
    · obtain ⟨failure, phase⟩ := failing
      unfold statement? at asks
      rw [phase] at asks
      cases asks
      exact absurd settling (ExecutionPhase.afterFailure_error (.database error))
    · refine absurd settling (Execution.not_settles asks _ ?_)
      intro failure phase
      exact failing ⟨failure, phase⟩
  finished := by
    intro finish isFinish
    rw [Execution.outcome_unanswered] at isFinish
    cases isFinish
  returned := by
    intro result phase
    unfold statement? at asks
    rw [phase] at asks
    cases asks
  completed returned := Or.inr (Execution.completes asks _ returned)

/-- An attempt learns what its supervision has answered. -/
theorem Execution.learns_observed {reply : Except Error RunSupervision}
    {attests : ExecutionOutcome → Prop} (isReply : execution.supervision = .answered reply)
    (answered : ∀ supervision answer, execution.supervision = .answered (.ok supervision) →
      ExecutionOutcome.fromSupervision supervision = some answer → attests answer)
    (settling : execution.phase = .settling → attests .failed ∨ attests .cancelled)
    (returned : ∀ result, execution.phase = .returned result →
      (execution.observe reply).phase = .returned result) :
    execution.Learns attests (execution.observe reply)
      (execution.finishes worker.queue .observed) := by
  have finishes : execution.finishes worker.queue .observed =
      ExecutionOutcome.ofSupervision reply := by
    simp only [finishes, isReply]
  rw [finishes]
  rcases reply with error | supervision
  · refine ⟨rfl, answered, fun settles => ExecutionPhase.noConfusion settles, ?_, returned, ?_⟩
    · intro finish isFinish
      cases isFinish
    · intro isReturned
      cases isReturned
  · have finished : ∀ finish ∈ ExecutionOutcome.fromSupervision supervision, attests finish ∧
        (execution.observe (.ok supervision)).phase = .returned finish.result := by
      intro finish isFinish
      refine ⟨answered supervision finish isReply isFinish, ?_⟩
      cases supervision <;> cases isFinish <;> rfl
    cases supervision with
    | running =>
        refine ⟨rfl, ?_, settling, finished, returned, Or.inl⟩
        intro supervision answer isAnswer
        cases isAnswer
    | _ =>
        exact ⟨rfl, answered, fun settles => ExecutionPhase.noConfusion settles, finished, returned,
          fun _ => Or.inr rfl⟩

theorem ExecutionPhase.afterHandler_goesOn (text : Error → String) (outcome : HandlerOutcome) :
    ExecutionPhase.afterHandler text outcome ≠ .settling ∧
      ∀ result, ExecutionPhase.afterHandler text outcome ≠ .returned result := by
  unfold ExecutionPhase.afterHandler
  split
  · exact ⟨ExecutionPhase.noConfusion, fun _ => ExecutionPhase.noConfusion⟩
  · split <;> exact ⟨ExecutionPhase.noConfusion, fun _ => ExecutionPhase.noConfusion⟩
  · exact ⟨ExecutionPhase.noConfusion, fun _ => ExecutionPhase.noConfusion⟩

/-- What an attempt learns in a step is attested by the states before and after
the step or was attested before. -/
theorem TaskWorker.Step.learns {handler : Handler} {next : Execution} {event : ExecutionEvent}
    (steps : worker.Step space handler { world := before, execution := some execution } event
      { world := after, execution := some next })
    (ready : before.Ready space) (settled : execution.Settled before)
    {attests : ExecutionOutcome → Prop}
    (confirmed : ∀ answer, before.Confirms execution.task.runId answer ∨
      after.Confirms execution.task.runId answer → attests answer)
    (answered : ∀ supervision answer, execution.supervision = .answered (.ok supervision) →
      ExecutionOutcome.fromSupervision supervision = some answer → attests answer)
    (settling : execution.phase = .settling → attests .failed ∨ attests .cancelled) :
    execution.Learns attests next (execution.finishes worker.queue event) := by
  have returned : ∀ result, execution.phase = .returned result →
      next.phase = .returned result :=
    fun result phase => (steps.returned rfl rfl phase).1
  have sameTask : next.task = execution.task := steps.task rfl rfl
  have nothing : ∀ finish ∈ (none : Option ExecutionOutcome), attests finish ∧
      next.phase = .returned finish.result :=
    fun finish isFinish => nomatch isFinish
  cases steps with
  | served serves => exact ⟨sameTask, answered, settling, nothing, returned, Or.inl⟩
  | claimed idle => cases idle
  | @asked _ operation outcome _ isExecution asks storable serves =>
      cases isExecution
      refine ⟨sameTask, ?_, ?_, ?_, returned,
        fun isReturned => Or.inr (Execution.completes asks _ isReturned)⟩
      · rw [Execution.receive_supervision]
        exact answered
      · intro settles
        exact (Execution.settles asks serves ready settles).imp
          (fun failed => confirmed _ (Or.inr failed))
          fun cancelled => confirmed _ (Or.inr cancelled)
      · intro finish isFinish
        obtain ⟨isTrue, isResult⟩ := Execution.confirms asks serves ready settled isFinish
        exact ⟨confirmed _ isTrue, isResult⟩
  | rejected isExecution asks unstorable =>
      cases isExecution
      exact Execution.learns_nothing asks _ answered
  | polled isExecution executing sleeping =>
      cases isExecution
      refine ⟨sameTask, ?_, settling, nothing, returned, Or.inl⟩
      intro supervision answer isAnswer
      cases isAnswer
  | @supervised _ outcome _ isExecution asking serves =>
      cases isExecution
      refine ⟨sameTask, ?_, settling, nothing, returned, Or.inl⟩
      intro supervision answer isAnswer isOutcome
      cases outcome with
      | error error => cases isAnswer
      | ok reply =>
          cases isAnswer
          exact confirmed _ ((serves.supervised ready.sound).1 answer isOutcome)
  | @observed _ reply isExecution executing isReply =>
      cases isExecution
      exact Execution.learns_observed isReply answered settling returned
  | handled isExecution executing asks storable serves =>
      cases isExecution
      exact ⟨sameTask, answered, settling, nothing, returned, Or.inl⟩
  | @handlerReturned _ outcome isExecution executing returns =>
      cases isExecution
      have unsettled := ExecutionPhase.afterHandler_goesOn worker.text outcome
      exact ⟨sameTask, answered, fun settles => absurd settles unsettled.1, nothing, returned,
        fun isReturned => absurd isReturned (unsettled.2 _)⟩

end Answers

/-! ## Attested outcomes -/

namespace Fleet

/-- A state with a property has been reached since a worker claimed the run. -/
def SinceClaim (space : Char → Bool) (initial : World) (events : List FleetEvent) (fleet : Fleet)
    (task : ClaimedTask) (holds : Fleet → Prop) : Prop :=
  ∃ past call tasks future source target,
    Moment (Fleet.Step space) (.start initial) events fleet past (.claimed call tasks) future
      source target ∧
    task ∈ tasks ∧ Passes (Fleet.Step space) target future fleet holds

/-- The outcome has been true of the run at some time since the claim. -/
def Attests (space : Char → Bool) (initial : World) (events : List FleetEvent) (fleet : Fleet)
    (task : ClaimedTask) (outcome : ExecutionOutcome) : Prop :=
  SinceClaim space initial events fleet task fun seen => seen.world.Confirms task.runId outcome

/-- The run has been claimed. -/
def Claims (space : Char → Bool) (initial : World) (events : List FleetEvent) (fleet : Fleet)
    (task : ClaimedTask) : Prop :=
  SinceClaim space initial events fleet task fun _ => True

variable {source target fleet : Fleet} {event : FleetEvent} {task : ClaimedTask}
  {holds : Fleet → Prop}

theorem SinceClaim.snoc (since : SinceClaim space initial events source task holds)
    (steps : Step space source event target) :
    SinceClaim space initial (events ++ [event]) target task holds := by
  obtain ⟨past, call, tasks, future, before, after, moment, member, passes⟩ := since
  exact ⟨past, call, tasks, _, before, after, moment.snoc steps, member, passes.snoc steps⟩

theorem Claims.now (claims : Claims space initial events fleet task) (present : holds fleet) :
    SinceClaim space initial events fleet task holds := by
  obtain ⟨past, call, tasks, future, before, after, moment, member, _⟩ := claims
  exact ⟨past, call, tasks, future, before, after, moment, member, .now moment.late present⟩

end Fleet

/-- What an attempt knows of its run is attested. -/
structure TaskExecution.Honest (space : Char → Bool) (initial : World) (events : List FleetEvent)
    (fleet : Fleet) (attempt : TaskExecution) : Prop where
  claims : fleet.Claims space initial events attempt.execution.task
  answered : ∀ supervision answer,
    attempt.execution.supervision = .answered (.ok supervision) →
      ExecutionOutcome.fromSupervision supervision = some answer →
        fleet.Attests space initial events attempt.execution.task answer
  settling : attempt.execution.phase = .settling →
    fleet.Attests space initial events attempt.execution.task .failed ∨
      fleet.Attests space initial events attempt.execution.task .cancelled
  ended : ∀ outcome elapsed, attempt.ended = some (.finished outcome, elapsed) →
    fleet.Attests space initial events attempt.execution.task outcome ∧
      attempt.execution.phase = .returned outcome.result
  open_ : attempt.ended = none → ∀ result, attempt.execution.phase ≠ .returned result
  handled : attempt.execution.phase = .returned (.ok ()) →
    ∃ outcome elapsed, attempt.ended = some (.finished outcome, elapsed)

namespace Fleet

variable {source target fleet : Fleet} {event : FleetEvent} {task : ClaimedTask}
  {outcome : ExecutionOutcome}

/-- A handle at a state that its steps have passed. -/
theorem Run.at {holds : Fleet → Prop} (run : Run space initial events fleet)
    (since : SinceClaim space initial events fleet task holds) :
    ∃ past seen later, Run space initial past seen ∧ Trace (Step space) seen later fleet ∧
      holds seen := by
  obtain ⟨past, call, tasks, future, before, after, moment, _, early, late, seen, _, toSeen,
    toFleet, present⟩ := since
  exact ⟨_, seen, late, ⟨run.empty, run.fresh, moment.early.append (.cons moment.steps toSeen)⟩,
    toFleet, present⟩

/-- An attested outcome lasts. -/
theorem Attests.lasts (attests : Attests space initial events fleet task outcome)
    (run : Run space initial events fleet) (forward : outcome = .leaseLost → initial.Forward)
    {found : RunRow} {row : TaskRow} (isFound : fleet.world.store.findRun task.runId = some found)
    (isRow : fleet.world.store.findTask found.taskId = some row) :
    outcome.Lasts found row (fleet.world.clock 0) := by
  obtain ⟨past, seen, later, reached, toFleet, confirmed⟩ := run.at attests
  obtain ⟨_, _, _, _, advances⟩ := reached.history.advances
  exact reached.history.outcome_lasts (fun lost => (advances.forward (forward lost)).1)
    (trace_served toFleet) confirmed isFound isRow

/-- A claimed run is running. -/
theorem Step.claims_running {call : Call} {tasks : List ClaimedTask}
    (steps : Step space source (.claimed call tasks) target)
    (sound : source.world.store.Sound space) (member : task ∈ tasks) :
    ∃ run, target.world.store.findRun task.runId = some run ∧ run.state = .running := by
  cases steps with
  | claimed serves =>
      obtain ⟨_, _, events, caused, advances⟩ := serves.advances sound
      obtain ⟨event, isEvent, worker, nowAt, expiresAt, isClaim⟩ :=
        (caused.claimed_iff task.taskId task.runId).mpr ⟨task, member, rfl, rfl⟩
      subst isClaim
      obtain ⟨run, found, running, _⟩ := advances.claimed sound caused isEvent
      exact ⟨run, found, running⟩

/-- Since the claim of a run that has been asleep it was suspended. -/
theorem Attests.slept (attests : Attests space initial events fleet task .suspended)
    (run : Run space initial events fleet) :
    ∃ past call tasks future before after wakeAt,
      Moment (Step space) (.start initial) events fleet past (.claimed call tasks) future before
        after ∧
      task ∈ tasks ∧
      (⟨.scheduleRun task.runId wakeAt, .ok .suspended⟩ : Call) ∈
        future.filterMap FleetEvent.call? := by
  obtain ⟨past, call, tasks, future, before, after, moment, member, early, late, seen, split,
    toSeen, _, confirmed⟩ := attests
  have reached : Run space initial past before := ⟨run.empty, run.fresh, moment.early⟩
  have claimed : Run space initial (past ++ [.claimed call tasks]) after :=
    ⟨run.empty, run.fresh, moment.early.append (.cons moment.steps (.nil _))⟩
  obtain ⟨found, isFound, running⟩ := moment.steps.claims_running reached.history.sound member
  obtain ⟨asleep, row, isAsleep, _, sleeping⟩ := confirmed
  have sleeping : asleep.state = .sleeping := sleeping
  obtain ⟨wakeAt, slept⟩ := claimed.history.slept (trace_served toSeen) isFound
    (by rw [running]; rfl) isAsleep (by rw [sleeping]; rfl)
  refine ⟨past, call, tasks, future, before, after, wakeAt, moment, member, ?_⟩
  rw [split, List.filterMap_append]
  exact List.mem_append_left _ slept

end Fleet

namespace TaskExecution.Honest

variable {source target : Fleet} {event : FleetEvent} {attempt : TaskExecution}

/-- What an attempt knows stays attested. -/
theorem snoc (honest : attempt.Honest space initial events source)
    (steps : Fleet.Step space source event target) :
    attempt.Honest space initial (events ++ [event]) target where
  claims := honest.claims.snoc steps
  answered supervision answer isAnswer isOutcome :=
    (honest.answered supervision answer isAnswer isOutcome).snoc steps
  settling isSettling := (honest.settling isSettling).imp (fun failed => failed.snoc steps)
    fun cancelled => cancelled.snoc steps
  ended outcome elapsed isEnded :=
    ⟨(honest.ended outcome elapsed isEnded).1.snoc steps, (honest.ended outcome elapsed isEnded).2⟩
  open_ := honest.open_
  handled := honest.handled

/-- An accepted failure has ended its run. -/
theorem settled (honest : attempt.Honest space initial events source)
    (run : Fleet.Run space initial events source) : attempt.execution.Settled source.world := by
  intro isSettling found isFound
  obtain ⟨life, member, shows_⟩ := run.history.sound.shows_of_findRun isFound
  have isRow := shows_.owner member
  refine (honest.settling isSettling).imp (fun failed => ?_) fun cancelled => ?_
  · exact ⟨found, _, isFound, isRow, failed.lasts run (fun lost => nomatch lost) isFound isRow⟩
  · exact ⟨found, _, isFound, isRow, cancelled.lasts run (fun lost => nomatch lost) isFound isRow⟩

/-- An attempt that goes on knows what it learns. -/
theorem proceed (honest : attempt.Honest space initial events source)
    (steps : Fleet.Step space source event target) {next : Execution}
    {outcome : Option ExecutionOutcome}
    (learns : attempt.execution.Learns
      (target.Attests space initial (events ++ [event]) attempt.execution.task) next outcome)
    (spent : attempt.ended ≠ none → outcome = none) (elapsed : Nat) :
    (attempt.proceed next outcome elapsed).Honest space initial (events ++ [event]) target := by
  have still := honest.snoc steps
  have knows : ∀ moved : TaskExecution, moved.execution = next →
      (∀ finish time, moved.ended = some (.finished finish, time) →
        target.Attests space initial (events ++ [event]) attempt.execution.task finish ∧
          next.phase = .returned finish.result) →
      (moved.ended = none → ∀ result, next.phase ≠ .returned result) →
      (next.phase = .returned (.ok ()) →
        ∃ finish time, moved.ended = some (.finished finish, time)) →
      moved.Honest space initial (events ++ [event]) target := by
    intro moved isNext ended open_ handled
    subst isNext
    rw [← learns.task] at ended
    exact ⟨learns.task ▸ still.claims, learns.task ▸ learns.answered,
      learns.task ▸ learns.settling, ended, open_, handled⟩
  rcases attempt.proceed_cases next outcome elapsed with ⟨unended, _, isNext⟩ | ⟨goesOn, isNext⟩
  · rw [isNext]
    refine knows _ rfl ?_ (fun isOpen => nomatch isOpen) ?_
    · intro finish time isEnded
      cases outcome with
      | none => cases isEnded
      | some answer =>
          cases isEnded
          exact learns.finished finish rfl
    · intro returned
      rcases learns.completed returned with already | finishes
      · exact absurd already (honest.open_ unended _)
      · obtain ⟨finish, isFinish⟩ := Option.isSome_iff_exists.mp finishes
        exact ⟨finish, elapsed, by rw [isFinish]; rfl⟩
  · rw [isNext]
    refine knows _ rfl ?_ goesOn ?_
    · intro finish time isEnded
      obtain ⟨attests, phase⟩ := still.ended finish time isEnded
      exact ⟨attests, learns.returned _ phase⟩
    · intro returned
      have ended : attempt.ended ≠ none := fun isOpen => goesOn isOpen _ returned
      have nothing := spent ended
      subst nothing
      exact still.handled ((learns.completed returned).resolve_right Bool.false_ne_true)

end TaskExecution.Honest

/-- All attempts of a handle know only what is attested. -/
structure Fleet.Honest (space : Char → Bool) (initial : World) (events : List FleetEvent)
    (fleet : Fleet) : Prop where
  waiting : ∀ pair ∈ fleet.waiting, fleet.Claims space initial events pair.2
  attempts : ∀ attempt ∈ fleet.attempts, attempt.Honest space initial events fleet

namespace Fleet

variable {source target fleet : Fleet} {event : FleetEvent}

theorem Honest.replace (honest : source.Honest space initial events)
    (steps : Step space source event target) {early late : List TaskExecution}
    {attempt next : TaskExecution} (isAttempt : source.attempts = early ++ attempt :: late)
    (isNext : target.attempts = early ++ next :: late)
    (sameWaiting : target.waiting = source.waiting)
    (goesOn : attempt.Honest space initial events source →
      next.Honest space initial (events ++ [event]) target) :
    target.Honest space initial (events ++ [event]) where
  waiting pair member := (honest.waiting pair (sameWaiting ▸ member)).snoc steps
  attempts := by
    intro moved isMoved
    have isOld : ∀ other ∈ early ++ attempt :: late, other.Honest space initial events source := by
      rw [← isAttempt]
      exact honest.attempts
    rw [isNext, List.mem_append, List.mem_cons] at isMoved
    rcases isMoved with isEarly | same | isLate
    · exact (isOld moved (List.mem_append_left _ isEarly)).snoc steps
    · rw [same]
      exact goesOn (isOld attempt (List.mem_append_right _ List.mem_cons_self))
    · exact (isOld moved
        (List.mem_append_right _ (List.mem_cons_of_mem _ isLate))).snoc steps

/-- An attempt that begins knows nothing but its claim. -/
theorem honest_start {worker : TaskWorker} {task : ClaimedTask} (elapsed : Nat)
    (claims : fleet.Claims space initial events task) :
    (TaskExecution.start worker task elapsed).Honest space initial events fleet := by
  let begun : TaskExecution := ⟨worker, .start worker task, none, []⟩
  have isExecution : (TaskExecution.start worker task elapsed).execution =
      .start worker task := begun.proceed_execution _ none elapsed
  have phase : (Execution.start worker task).phase = .supervising ∨
      ∃ error, (Execution.start worker task).phase = .returned (.error error) := by
    unfold Execution.start
    split
    · exact Or.inl rfl
    · exact Or.inr ⟨_, rfl⟩
  refine ⟨?_, ?_, ?_, ?_, ?_, ?_⟩
  · rw [isExecution]
    exact claims
  · intro supervision answer isAnswer
    rw [isExecution] at isAnswer
    cases isAnswer
  · intro isSettling
    rw [isExecution] at isSettling
    rcases phase with supervising | ⟨error, returned⟩
    · cases supervising.symm.trans isSettling
    · cases returned.symm.trans isSettling
  · intro outcome time isEnded
    unfold TaskExecution.start at isEnded
    rcases begun.proceed_cases (.start worker task) none elapsed with
      ⟨_, _, isNext⟩ | ⟨_, isNext⟩
    · rw [isNext] at isEnded
      cases isEnded
    · rw [isNext] at isEnded
      cases isEnded
  · intro isOpen
    rw [isExecution]
    unfold TaskExecution.start at isOpen
    rcases begun.proceed_cases (.start worker task) none elapsed with
      ⟨_, _, isNext⟩ | ⟨goesOn, _⟩
    · rw [isNext] at isOpen
      cases isOpen
    · exact goesOn rfl
  · intro isReturned
    rw [isExecution] at isReturned
    rcases phase with supervising | ⟨error, returned⟩
    · cases supervising.symm.trans isReturned
    · cases returned.symm.trans isReturned

/-- Every step keeps the attempts honest. -/
theorem Step.honest (steps : Step space source event target)
    (run : Run space initial events source) (honest : source.Honest space initial events) :
    target.Honest space initial (events ++ [event]) := by
  have onward := steps
  have unmoved : target.waiting = source.waiting → target.attempts = source.attempts →
      target.Honest space initial (events ++ [event]) := by
    intro sameWaiting sameAttempts
    refine ⟨fun pair member => ?_, fun attempt member => ?_⟩
    · exact (honest.waiting pair (sameWaiting ▸ member)).snoc onward
    · exact (honest.attempts attempt (sameAttempts ▸ member)).snoc onward
  cases steps with
  | served serves => exact unmoved rfl rfl
  | claimFailed serves => exact unmoved rfl rfl
  | @claimed worker quantity tasks world serves =>
      refine ⟨?_, fun attempt member => (honest.attempts attempt member).snoc onward⟩
      intro pair member
      rcases List.mem_append.mp member with isWaiting | isNew
      · exact (honest.waiting pair isWaiting).snoc onward
      · obtain ⟨task, isTask, isPair⟩ := List.mem_map.mp isNew
        subst isPair
        exact ⟨events, _, tasks, [], source, _, .now run.trace onward, isTask,
          .now (.nil _) trivial⟩
  | forgotten isWaiting =>
      refine ⟨?_, fun attempt member => (honest.attempts attempt member).snoc onward⟩
      intro pair member
      refine (honest.waiting pair ?_).snoc onward
      rw [isWaiting]
      exact List.mem_append.mpr ((List.mem_append.mp member).imp_right (List.mem_cons_of_mem _))
  | @started early late worker task isWaiting elapsed =>
      have stays : ∀ pair ∈ source.waiting,
          Claims space initial (events ++ [.started]) _ pair.2 :=
        fun pair member => (honest.waiting pair member).snoc onward
      rw [isWaiting] at stays
      refine ⟨?_, ?_⟩
      · intro pair member
        refine stays pair (List.mem_append.mpr ?_)
        exact (List.mem_append.mp member).imp_right (List.mem_cons_of_mem _)
      · intro attempt member
        rcases List.mem_append.mp member with isOld | isNew
        · exact (honest.attempts attempt isOld).snoc onward
        · rw [List.mem_singleton.mp isNew]
          exact honest_start elapsed
            (stays (worker, task) (List.mem_append_right _ List.mem_cons_self))
  | @moved early late attempt handler event next world isAttempt open_ steps elapsed =>
      refine honest.replace onward isAttempt rfl rfl fun known => ?_
      have still := known.snoc onward
      have spent : attempt.ended ≠ none →
          attempt.execution.finishes attempt.worker.queue event = none := by
        intro ended
        obtain ⟨call, isSupervised⟩ := open_.resolve_left ended
        rw [isSupervised]
        rfl
      refine known.proceed onward ?_ spent elapsed
      refine steps.learns run.history.ready (known.settled run) ?_ still.answered still.settling
      rintro answer (confirmed | confirmed)
      · exact (known.claims.now confirmed).snoc onward
      · exact still.claims.now confirmed
  | @lost early late attempt operation call world error isAttempt open_ asks sent serves elapsed =>
      refine honest.replace onward isAttempt rfl rfl fun known => ?_
      refine known.proceed onward ?_ (fun ended => absurd open_ ended) elapsed
      exact Execution.learns_nothing asks _ (known.snoc onward).answered
  | supervisionLost isAttempt open_ asking sent serves =>
      refine honest.replace onward isAttempt rfl rfl fun known => ?_
      have still := known.snoc onward
      refine ⟨still.claims, ?_, still.settling, still.ended, still.open_, still.handled⟩
      intro supervision answer isAnswer
      cases isAnswer
  | dropped isAttempt open_ elapsed =>
      refine honest.replace onward isAttempt rfl rfl fun known => ?_
      have still := known.snoc onward
      refine ⟨still.claims, still.answered, still.settling, ?_, ?_, ?_⟩
      · intro outcome time isEnded
        cases isEnded
      · intro isOpen
        cases isOpen
      · intro returned
        exact absurd returned (known.open_ open_ _)
  | counted isAttempt isDue =>
      refine honest.replace onward isAttempt rfl rfl fun known => ?_
      have still := known.snoc onward
      exact ⟨still.claims, still.answered, still.settling, still.ended, still.open_, still.handled⟩

/-- The attempts of every reached handle are honest. -/
theorem Run.honest (run : Run space initial events fleet) :
    fleet.Honest space initial events := by
  let honest (events : List FleetEvent) (fleet : Fleet) : Prop :=
    fleet.Honest space initial events
  have begins : honest [] (.start initial) := by
    constructor
    · intro pair member
      cases member
    · intro attempt member
      cases member
  have reached : honest events fleet :=
    run.induction begins fun past source event target run steps known => steps.honest run known
  exact reached

end Fleet

/-! ## The law -/

/-- The outcomes a handle counts are true. -/
structure FleetTruth (space : Char → Bool) (initial : World) (events : List FleetEvent)
    (fleet : Fleet) : Prop where
  /-- An attempt returns what its outcome says, and its outcome was true of its
  run at some time since the run was claimed. -/
  attested : ∀ attempt ∈ fleet.attempts, ∀ outcome elapsed,
    attempt.ended = some (.finished outcome, elapsed) →
      attempt.execution.phase = .returned outcome.result ∧
        fleet.Attests space initial events attempt.execution.task outcome
  /-- An attempt that returns without an error has finished with an outcome. -/
  handled : ∀ attempt ∈ fleet.attempts, attempt.execution.phase = .returned (.ok ()) →
    ∃ outcome elapsed, attempt.ended = some (.finished outcome, elapsed)
  /-- While the rows of the run exist they go on saying the outcome. -/
  lasting : ∀ attempt ∈ fleet.attempts, ∀ outcome elapsed,
    attempt.ended = some (.finished outcome, elapsed) →
      (outcome = .leaseLost → initial.Forward) → ∀ run task,
        fleet.world.store.findRun attempt.execution.task.runId = some run →
          fleet.world.store.findTask run.taskId = some task →
            outcome.Lasts run task (fleet.world.clock 0)
  /-- The run of a suspended attempt was suspended after it was claimed. -/
  slept : ∀ attempt ∈ fleet.attempts, ∀ elapsed,
    attempt.ended = some (.finished .suspended, elapsed) →
      ∃ past call tasks future before after wakeAt,
        Moment (Fleet.Step space) (.start initial) events fleet past (.claimed call tasks) future
          before after ∧
        attempt.execution.task ∈ tasks ∧
        (⟨.scheduleRun attempt.execution.task.runId wakeAt, .ok .suspended⟩ : Call) ∈
          future.filterMap FleetEvent.call?
  /-- Each count of an outcome is one of an attempt of which the outcome was true. -/
  counted : ∀ outcome : ExecutionOutcome, ∃ attempts : List TaskExecution,
    attempts.Sublist fleet.attempts ∧
      attempts.length = (fleet.metrics outcome.counter).toNat ∧
        ∀ attempt ∈ attempts, fleet.Attests space initial events attempt.execution.task outcome

/-- The outcomes that every reached handle counts are true. -/
theorem Fleet.Run.truthful {fleet : Fleet} (run : Fleet.Run space initial events fleet) :
    FleetTruth space initial events fleet where
  attested attempt member outcome elapsed isEnded :=
    ((run.honest.attempts attempt member).ended outcome elapsed isEnded).symm
  handled attempt member := (run.honest.attempts attempt member).handled
  lasting attempt member outcome elapsed isEnded forward found row isFound isRow :=
    ((run.honest.attempts attempt member).ended outcome elapsed isEnded).1.lasts run forward isFound
      isRow
  slept attempt member elapsed isEnded :=
    ((run.honest.attempts attempt member).ended _ elapsed isEnded).1.slept run
  counted := by
    intro outcome
    have enough := run.counter_le (.finished outcome)
    rw [List.countP_eq_length_filter] at enough
    refine ⟨(fleet.attempts.filter (TaskExecution.endedAs (.finished outcome))).take
        (fleet.metrics outcome.counter).toNat,
      (List.take_sublist _ _).trans List.filter_sublist, List.length_take_of_le enough, ?_⟩
    intro attempt isTaken
    obtain ⟨member, isEnded⟩ := List.mem_filter.mp (List.mem_of_mem_take isTaken)
    obtain ⟨⟨guardEnd, elapsed⟩, isEnd, same⟩ := (Option.any_eq_true _ _).mp isEnded
    have isFinished : guardEnd = .finished outcome := eq_of_beq same
    subst isFinished
    exact ((run.honest.attempts attempt member).ended outcome elapsed isEnd).1

/-- The outcome of a worker that completes its run is true. -/
theorem Fleet.Run.truthful_reports :
    ∃ initial events fleet, Fleet.Run asciiSpace initial events fleet ∧
      FleetTruth asciiSpace initial events fleet ∧
        ∃ attempt ∈ fleet.attempts, ∃ outcome elapsed,
          attempt.ended = some (.finished outcome, elapsed) := by
  obtain ⟨events, fleet, attempt, run, isAttempt, _, returned⟩ := Fleet.run_reports
  have member : attempt ∈ fleet.attempts := by
    rw [isAttempt]
    exact List.mem_singleton_self _
  exact ⟨_, events, fleet, run, run.truthful, attempt, member,
    run.truthful.handled attempt member returned⟩

end Steda
