import Steda.History

/-!
# The biography of a task

Facts about the events of one task from its submission on: the first of them is
the submission, the identifiers in its rows were introduced by them, and it was
started exactly when one of them is a claim.
-/

namespace Steda

open Postgres Transaction Relational

variable {space : Char → Bool} {timely : Prop} {task : Uuid}

/-- Only a claim starts a task. -/
theorem Transition.after_firstStartedAt (transition : Transition) (life : Life) :
    (transition.after life).task.firstStartedAt =
      match transition with
      | .claim _ _ nowAt _ => some (life.task.firstStartedAt.getD nowAt)
      | _ => life.task.firstStartedAt := by
  cases transition <;> rfl

/-- A task was started exactly when one of its runs was claimed. -/
theorem Evolves.started_iff {events : List Event} {life : Life}
    (evolves : Evolves space timely task events none (some life))
    (fresh : (events.flatMap Event.names).Nodup) :
    life.task.firstStartedAt ≠ none ↔
      ∃ run worker nowAt expiresAt,
        Event.moved task (.claim run worker nowAt expiresAt) ∈ events := by
  induction events using List.reverseRecOn generalizing life with
  | nil => cases evolves
  | append_singleton events event inductionHypothesis =>
      rw [List.flatMap_append, List.nodup_append] at fresh
      obtain ⟨freshBefore, _, disjoint⟩ := fresh
      rw [evolves_concat] at evolves
      by_cases own : event.task = task
      · rw [if_pos own] at evolves
        obtain ⟨middle, early, acts⟩ := evolves
        cases event with
        | submitted row submittedRun =>
            obtain ⟨absent, isLife, _, _, unstarted⟩ := acts
            subst absent
            cases isLife
            have isRow : row.id = task := own
            have never : ∀ run worker nowAt expiresAt,
                Event.moved task (.claim run worker nowAt expiresAt) ∉ events := by
              intro run worker nowAt expiresAt member
              have named := early.task_named ⟨_, member, rfl⟩
              exact disjoint task named task (by simp [Event.names, isRow]) rfl
            simp [unstarted, never]
        | moved id transition =>
            obtain ⟨before, isBefore, _, _, isLife⟩ := acts
            subst isBefore
            cases isLife
            have isTask : id = task := own
            subst isTask
            have earlier := inductionHypothesis early freshBefore
            rw [Transition.after_firstStartedAt]
            cases transition with
            | claim run worker nowAt expiresAt =>
                simp only [ne_eq, reduceCtorEq, not_false_eq_true, true_iff]
                exact ⟨run, worker, nowAt, expiresAt, by simp⟩
            | _ => simpa using earlier
        | recorded checkpoint run observedAt =>
            obtain ⟨_, _, _, _, _, same⟩ := acts
            subst same
            simpa using inductionHypothesis early freshBefore
        | deleted id => cases acts.2
      · rw [if_neg own] at evolves
        rw [inductionHypothesis evolves freshBefore]
        constructor
        · rintro ⟨run, worker, nowAt, expiresAt, member⟩
          exact ⟨run, worker, nowAt, expiresAt, List.mem_append_left _ member⟩
        · rintro ⟨run, worker, nowAt, expiresAt, member⟩
          rcases List.mem_append.mp member with earlier | isLast
          · exact ⟨run, worker, nowAt, expiresAt, earlier⟩
          · rw [← List.mem_singleton.mp isLast] at own
            exact absurd rfl own

/-! ## What lasts -/

/-- The request a task was submitted with. -/
def TaskRow.submission (task : TaskRow) : Submission where
  name := task.name
  params := task.params
  headers := task.headers
  retryStrategy := task.retryStrategy
  maxAttempts := task.initialMaxAttempts
  cancellation := task.cancellation
  idempotencyKey := task.idempotencyKey

/-- What a later stage of a life has in common with an earlier one. -/
structure Life.Precedes (earlier later : Life) : Prop where
  submission : later.task.submission = earlier.task.submission
  enqueueAt : later.task.enqueueAt = earlier.task.enqueueAt
  started : ∀ startedAt, earlier.task.firstStartedAt = some startedAt →
    later.task.firstStartedAt = some startedAt
  terminalRuns : ∀ run ∈ earlier.runs, run.state.terminal = true → run ∈ later.runs
  verdict : earlier.task.state = .completed ∨ earlier.task.state = .cancelled →
    later.task.state = earlier.task.state ∧ later.last = earlier.last

theorem Life.Precedes.refl (life : Life) : life.Precedes life :=
  ⟨rfl, rfl, fun _ same => same, fun _ member _ => member, fun _ => ⟨rfl, rfl⟩⟩

theorem Life.Precedes.trans {first second third : Life} (early : first.Precedes second)
    (late : second.Precedes third) : first.Precedes third where
  submission := late.submission.trans early.submission
  enqueueAt := late.enqueueAt.trans early.enqueueAt
  started := fun startedAt same => late.started _ (early.started _ same)
  terminalRuns := fun run member terminal =>
    late.terminalRuns run (early.terminalRuns run member terminal) terminal
  verdict := by
    intro final
    obtain ⟨sameState, sameLast⟩ := early.verdict final
    obtain ⟨lateState, lateLast⟩ := late.verdict (sameState ▸ final)
    exact ⟨lateState.trans sameState, lateLast.trans sameLast⟩

/-- A transition that finds the last run active leaves the earlier runs. -/
theorem Transition.precedes_of_active {transition : Transition} {life : Life}
    (valid : life.Valid space) (active : life.last.state.active = true)
    (submission : (transition.after life).task.submission = life.task.submission)
    (enqueueAt : (transition.after life).task.enqueueAt = life.task.enqueueAt)
    (history : ∀ run ∈ life.history, run ∈ (transition.after life).runs) :
    life.Precedes (transition.after life) where
  submission := submission
  enqueueAt := enqueueAt
  started := by
    intro startedAt same
    rw [Transition.after_firstStartedAt]
    cases transition <;> simp [same]
  terminalRuns := by
    intro run member terminal
    rcases Life.mem_runs.mp member with earlier | isLast
    · exact history run earlier
    · rw [isLast] at terminal
      rw [State.active_eq_not_terminal, terminal] at active
      cases active
  verdict := by
    intro final
    have terminal : life.task.state.terminal = true := by
      rcases final with same | same <;> rw [same] <;> rfl
    rw [valid.terminal_iff] at terminal
    rw [State.active_eq_not_terminal, terminal] at active
    cases active

/-- Every transition keeps what lasts. -/
theorem Transition.precedes_after {transition : Transition} {life : Life}
    (valid : life.Valid space) (enabled : transition.Enabled space life) :
    life.Precedes (transition.after life) := by
  have running : ∀ {run : Uuid}, Running run life → life.last.state.active = true := by
    intro run isRunning
    rw [isRunning.2]
    rfl
  have keeps : ∀ {task : TaskRow} {last : RunRow}, ∀ run ∈ life.history,
      run ∈ ({ task := task, history := life.history, last := last } : Life).runs :=
    fun run member => Life.mem_runs.mpr (Or.inl member)
  cases transition with
  | claim run worker nowAt expiresAt =>
      exact precedes_of_active valid (State.active_of_claimable enabled.2.1) rfl rfl keeps
  | complete run observedAt result =>
      exact precedes_of_active valid (running enabled.1) rfl rfl keeps
  | sleep run observedAt wakeAt => exact precedes_of_active valid (running enabled) rfl rfl keeps
  | renew run observedAt expiry => exact precedes_of_active valid (running enabled) rfl rfl keeps
  | cancel nowAt =>
      refine precedes_of_active valid ?_ rfl rfl keeps
      rw [State.active_eq_not_terminal, ← valid.terminal_iff,
        show life.task.state.terminal = false from enabled]
      rfl
  | exhaust run observedAt reason =>
      exact precedes_of_active valid (running enabled.1) rfl rfl keeps
  | retry run observedAt reason newRun state availableAt =>
      refine precedes_of_active valid (running enabled.1) rfl rfl ?_
      intro other member
      exact Life.mem_runs.mpr (Or.inl (List.mem_append_left _ member))
  | abandon run observedAt reason nowAt =>
      exact precedes_of_active valid (running enabled.1) rfl rfl keeps
  | reopen newRun nowAt =>
      have failed : life.task.state = .failed := enabled
      refine ⟨rfl, rfl, fun _ same => same,
        fun run member _ => Life.mem_runs.mpr (Or.inl member), ?_⟩
      intro final
      rw [failed] at final
      rcases final with impossible | impossible <;> cases impossible

/-- A task that is not deleted and submitted again keeps what lasts as long as
it exists. -/
theorem Evolves.precedes {events : List Event} {earlier later : Life}
    (evolves : Evolves space timely task events (some earlier) (some later))
    (valid : earlier.Valid space) (owner : earlier.task.id = task)
    (fresh : .deleted task ∈ events → task ∉ events.flatMap Event.names) :
    earlier.Precedes later := by
  refine evolves.keeps valid owner fresh (Life.Precedes.refl earlier) ?_
  intro transition before _ validBefore enabled _ precedes
  exact precedes.trans (Transition.precedes_after validBefore enabled)

/-- A task that is not deleted remains. -/
theorem Evolves.remains {events : List Event} {earlier : Life} {last : Option Life}
    (evolves : Evolves space timely task events (some earlier) last)
    (retained : .deleted task ∉ events) : ∃ later, last = some later := by
  induction events generalizing earlier with
  | nil => exact ⟨earlier, evolves⟩
  | cons event rest inductionHypothesis =>
      obtain ⟨notHead, notRest⟩ := not_or.mp (List.mem_cons.not.mp retained)
      rw [Evolves] at evolves
      by_cases own : event.task = task
      · rw [if_pos own] at evolves
        obtain ⟨between, acts, restEvolves⟩ := evolves
        cases event with
        | submitted row run => cases acts.1
        | moved id transition =>
            obtain ⟨life, _, _, _, isBetween⟩ := acts
            exact inductionHypothesis (isBetween ▸ restEvolves) notRest
        | recorded checkpoint run observedAt =>
            obtain ⟨_, _, _, _, _, isBetween⟩ := acts
            exact inductionHypothesis (isBetween ▸ restEvolves) notRest
        | deleted id => exact absurd (congrArg Event.deleted own).symm notHead
      · rw [if_neg own] at evolves
        exact inductionHypothesis evolves notRest

theorem Transition.after_submission (transition : Transition) (life : Life) :
    (transition.after life).task.submission = life.task.submission := by
  cases transition <;> rfl

/-- A task that exists was submitted with the request it still has. -/
theorem Evolves.submitted {timely : Prop} {task : Uuid} {events : List Event} {life : Life}
    (evolves : Evolves space timely task events none (some life)) :
    ∃ row run, Event.submitted row run ∈ events ∧ row.submission = life.task.submission := by
  let isSubmitted (before : Life) : Prop :=
    ∃ row run, Event.submitted row run ∈ events ∧ row.submission = before.task.submission
  have holds : isSubmitted life := by
    refine evolves.invariant ?_ ?_
    · intro row run member _ _
      exact ⟨row, run, member, rfl⟩
    · rintro transition before _ _ _ _ ⟨row, run, member, isRow⟩
      exact ⟨row, run, member, isRow.trans (transition.after_submission before).symm⟩
  exact holds

/-! ## Claims and their replies -/

/-- The rows a call has claimed. -/
def Call.claimed : Call → List ClaimedTask
  | ⟨.claimTasks _ _ _ _, .ok claimed⟩ => claimed
  | _ => []

/-- The event is the claim of a run. -/
def Event.Claims (task run : Uuid) (event : Event) : Prop :=
  ∃ worker nowAt expiresAt, event = .moved task (.claim run worker nowAt expiresAt)

/-- The events a stored function may cause at all. -/
def Operation.MayCause : Operation → Event → Prop
  | .spawnTask _ _ _, .submitted _ _ => True
  | .claimTasks _ _ _ _, .moved _ (.claim _ _ _ _) => True
  | .claimTasks _ _ _ _, event => event.Sweeps
  | .completeRun runId result, .moved _ (.complete run _ value) => run = runId ∧ value = result
  | .completeRun _ _, .moved _ (.cancel _) => True
  | .failRun runId reason _, .moved _ transition => transition.Fails runId reason
  | .scheduleRun runId _, .moved _ (.sleep run _ _) => run = runId
  | .scheduleRun _ _, .moved _ (.cancel _) => True
  | .superviseRun runId _, .moved _ (.renew run _ _) => run = runId
  | .superviseRun runId _, .moved _ transition => ∃ reason, transition.Fails runId reason
  | .reapExpiredRun runId, .moved _ transition => ∃ reason, transition.Fails runId reason
  | .reapExpiredRuns _, event => event.Sweeps
  | .cancelTask taskId, .moved task (.cancel _) => task = taskId
  | .cancelExpiredTasks _, event => event.Sweeps
  | .retryTask taskId, .moved task (.reopen _ _) => task = taskId
  | .setTaskCheckpointState taskId _ _ runId, .recorded checkpoint run _ =>
      checkpoint.taskId = taskId ∧ run = runId
  | .cleanupTasks, .deleted _ => True
  | _, _ => False

theorem Event.Sweeps.mayCause {event : Event} (sweeps : event.Sweeps) (workerId : Option String)
    (leaseSeconds quantity : Option Int) (taskNames : Option (List (Option String))) :
    (Operation.claimTasks workerId leaseSeconds quantity taskNames).MayCause event := by
  cases event with
  | moved task transition => cases transition <;> simp_all [Operation.MayCause, Event.Sweeps]
  | _ => exact sweeps

theorem Transition.Fails.mayCause {runId : Uuid} {reason : Option Json} {transition : Transition}
    (fails : transition.Fails runId reason) (renewForSeconds : Option Int) (task : Uuid) :
    (Operation.superviseRun runId renewForSeconds).MayCause (.moved task transition) := by
  cases transition <;> first | exact ⟨reason, fails⟩ | exact absurd fails id

/-- A returning call has caused only what its function may cause. -/
theorem Operation.Caused.mayCause {operation : Operation} {result : operation.Result}
    {events : List Event} (caused : operation.Caused space result events) :
    ∀ event ∈ events, operation.MayCause event := by
  cases operation with
  | spawnTask taskName params options =>
      obtain ⟨request, _, ⟨_, runId, nowAt, isEvents⟩ | ⟨_, isEvents⟩⟩ := caused <;>
        subst isEvents <;> simp [MayCause]
  | claimTasks workerId leaseSeconds quantity taskNames =>
      obtain ⟨_, stamp, sweeps, selected, _, _, _, areSweeps, _, _, isEvents⟩ := caused
      subst isEvents
      intro event member
      rcases List.mem_append.mp member with inSweeps | inClaims
      · exact (areSweeps event inSweeps).mayCause _ _ _ _
      · obtain ⟨row, _, isEvent⟩ := List.mem_map.mp inClaims
        rw [← isEvent]
        trivial
  | completeRun runId result =>
      obtain ⟨_, task, observedAt, isEvents⟩ | ⟨_, task, nowAt, isEvents⟩ := caused <;>
        subst isEvents <;> simp [MayCause]
  | failRun runId reason expectExpiredLease =>
      obtain ⟨id, transition, fails, isEvents⟩ := caused
      subst isEvents
      intro event member
      rw [List.mem_singleton.mp member]
      exact fails
  | scheduleRun runId wakeAt =>
      obtain ⟨_, isEvents⟩ | ⟨_, task, observedAt, wake, _, isEvents⟩ | ⟨_, task, nowAt, isEvents⟩ :=
        caused <;> subst isEvents <;> simp [MayCause]
  | superviseRun runId renewForSeconds =>
      obtain isEvents | ⟨_, id, observedAt, expiry, isEvents⟩ | ⟨_, id, nowAt, isEvents⟩ |
        ⟨_, context, id, transition, fails, isEvents⟩ := caused
      · subst isEvents
        simp
      · subst isEvents
        simp [MayCause]
      · subst isEvents
        simp [MayCause, Transition.Fails]
      · subst isEvents
        intro event member
        rw [List.mem_singleton.mp member]
        exact fails.mayCause renewForSeconds id
  | reapExpiredRun runId =>
      obtain ⟨_, context, id, transition, fails, isEvents⟩ | ⟨_, isEvents⟩ := caused
      · subst isEvents
        intro event member
        rw [List.mem_singleton.mp member]
        exact ⟨_, fails⟩
      · subst isEvents
        simp
  | reapExpiredRuns reapLimit => exact caused
  | cancelTask taskId =>
      obtain ⟨_, nowAt, isEvents⟩ | ⟨_, isEvents⟩ := caused <;>
        subst isEvents <;> simp [MayCause]
  | cancelExpiredTasks cancelLimit => exact caused
  | retryTask taskId =>
      obtain ⟨nowAt, isEvents⟩ := caused
      subst isEvents
      simp [MayCause]
  | setTaskCheckpointState taskId checkpointName newCheckpointState runId =>
      obtain ⟨name, state, _, _, ⟨_, observedAt, isEvents⟩ | ⟨_, isEvents⟩⟩ := caused <;>
        subst isEvents <;> simp [MayCause]
  | getTaskCheckpointStates taskId runId =>
      rw [show events = [] from caused]
      simp
  | getTaskResult taskId =>
      rw [show events = [] from caused]
      simp
  | cleanupTasks =>
      obtain ⟨tasks, _, isEvents⟩ := caused
      subst isEvents
      simp [MayCause]

/-- A call has caused only what its function may cause. -/
theorem Call.Caused.mayCause {call : Call} {events : List Event}
    (caused : call.Caused space events) : ∀ event ∈ events, call.operation.MayCause event := by
  obtain ⟨operation, outcome⟩ := call
  cases outcome with
  | error error =>
      rw [show events = [] from caused]
      simp
  | ok result =>
      change operation.Caused space result events at caused
      exact caused.mayCause

/-- Only `claim_tasks` claims runs. -/
theorem Operation.Caused.not_claims {operation : Operation} {result : operation.Result}
    {events : List Event} (caused : operation.Caused space result events)
    (other : ∀ workerId leaseSeconds quantity taskNames,
      operation ≠ .claimTasks workerId leaseSeconds quantity taskNames) {task run : Uuid} :
    ∀ event ∈ events, ¬event.Claims task run := by
  rintro event member ⟨worker, nowAt, expiresAt, isEvent⟩
  have may := caused.mayCause event member
  rw [isEvent] at may
  cases operation with
  | claimTasks => exact other _ _ _ _ rfl
  | superviseRun => exact may.choose_spec
  | reapExpiredRun => exact may.choose_spec
  | _ => exact may

theorem Event.Sweeps.not_claims {task run : Uuid} {event : Event} (sweeps : event.Sweeps) :
    ¬event.Claims task run := by
  rintro ⟨worker, nowAt, expiresAt, equal⟩
  subst equal
  exact sweeps

/-- The claims of a call are exactly the rows it returns. -/
theorem Call.Caused.claimed_iff {call : Call} {events : List Event}
    (caused : call.Caused space events) (task run : Uuid) :
    (∃ event ∈ events, event.Claims task run) ↔
      ∃ row ∈ call.claimed, row.taskId = task ∧ row.runId = run := by
  obtain ⟨operation, outcome⟩ := call
  cases outcome with
  | error error =>
      have noEvents : events = [] := caused
      subst noEvents
      cases operation <;> simp [Call.claimed]
  | ok result =>
      change operation.Caused space result events at caused
      by_cases isClaim : ∃ workerId leaseSeconds quantity taskNames,
          operation = .claimTasks workerId leaseSeconds quantity taskNames
      · obtain ⟨workerId, leaseSeconds, quantity, taskNames, isOperation⟩ := isClaim
        subst isOperation
        obtain ⟨arguments, stamp, sweeps, selected, _, _, _, areSweeps, isPerm, owners,
          isEvents⟩ := caused
        subst isEvents
        change _ ↔ ∃ row ∈ result, row.taskId = task ∧ row.runId = run
        constructor
        · rintro ⟨event, member, claims⟩
          rcases List.mem_append.mp member with inSweeps | inClaims
          · exact absurd claims (areSweeps event inSweeps).not_claims
          · obtain ⟨row, inSelected, isEvent⟩ := List.mem_map.mp inClaims
            obtain ⟨worker, nowAt, expiresAt, equal⟩ := claims
            rw [equal] at isEvent
            cases isEvent
            exact ⟨claimedTask row.1.1 row.2,
              isPerm.mem_iff.mpr (List.mem_map_of_mem inSelected), owners row inSelected, rfl⟩
        · rintro ⟨row, inResult, isTask, isRun⟩
          obtain ⟨chosen, inSelected, isRow⟩ := List.mem_map.mp (isPerm.mem_iff.mp inResult)
          refine ⟨stamp.event chosen.2,
            List.mem_append_right _ (List.mem_map_of_mem inSelected), stamp.workerId, stamp.nowAt,
            stamp.expiresAt, ?_⟩
          rw [← isTask, ← isRun, ← isRow]
          change Event.moved chosen.2.taskId _ = Event.moved chosen.1.1.id _
          rw [owners chosen inSelected]
          rfl
      · have other : ∀ workerId leaseSeconds quantity taskNames,
            operation ≠ .claimTasks workerId leaseSeconds quantity taskNames :=
          fun _ _ _ _ equal => isClaim ⟨_, _, _, _, equal⟩
        have noRows : Call.claimed ⟨operation, .ok result⟩ = [] := by
          cases operation <;> first | rfl | exact absurd rfl (other _ _ _ _)
        rw [noRows]
        constructor
        · rintro ⟨event, member, claims⟩
          exact absurd claims (caused.not_claims other event member)
        · rintro ⟨row, impossible, _⟩
          cases impossible

/-- Only `spawn_task` submits: it inserts the rows of a valid request. -/
theorem Call.Caused.inserts {call : Call} {events : List Event} {row : TaskRow} {run : RunRow}
    (caused : call.Caused space events) (member : Event.submitted row run ∈ events) :
    ∃ taskName params options request,
      validateSubmission space taskName params options = .ok request ∧
        call = ⟨.spawnTask taskName params options, .ok { taskId := row.id, created := true }⟩ ∧
        row = request.taskRow row.id run.id row.enqueueAt ∧
        run = RunRow.fresh run.id row.id 1 .pending row.enqueueAt := by
  have may := caused.mayCause _ member
  obtain ⟨operation, outcome⟩ := call
  cases operation with
  | spawnTask taskName params options =>
      cases outcome with
      | error error =>
          rw [show events = [] from caused] at member
          cases member
      | ok result =>
          obtain ⟨task, created⟩ := result
          obtain ⟨request, accepted, ⟨isCreated, runId, nowAt, isEvents⟩ | ⟨_, isEvents⟩⟩ :=
            caused
          · rw [isEvents] at member
            cases List.mem_singleton.mp member
            change created = true at isCreated
            subst isCreated
            exact ⟨taskName, params, options, request, accepted, rfl, rfl, rfl⟩
          · rw [isEvents] at member
            cases member
  | _ => exact absurd may id

/-- The request of a submitted task was accepted. -/
theorem Call.Caused.submits {call : Call} {events : List Event} {row : TaskRow} {run : RunRow}
    (caused : call.Caused space events) (member : Event.submitted row run ∈ events) :
    ∃ taskName params options task,
      validateSubmission space taskName params options = .ok row.submission ∧
        call = ⟨.spawnTask taskName params options, .ok { taskId := task, created := true }⟩ := by
  obtain ⟨taskName, params, options, request, accepted, isCall, isRow, _⟩ :=
    caused.inserts member
  have isRequest : row.submission = request := by
    rw [isRow]
    rfl
  exact ⟨taskName, params, options, _, isRequest ▸ accepted, isCall⟩

/-- Every event of a history is caused by one of its calls. -/
theorem call_of_event {calls : List Call} {chunks : List (List Event)} {event : Event}
    (caused : List.Forall₂ (Call.Caused space) calls chunks) (member : event ∈ chunks.flatten) :
    ∃ call ∈ calls, ∃ events, call.Caused space events ∧ event ∈ events := by
  induction caused with
  | nil => cases member
  | @cons call events calls chunks first rest inductionHypothesis =>
      rw [List.flatten_cons, List.mem_append] at member
      rcases member with inFirst | inRest
      · exact ⟨call, List.mem_cons_self, events, first, inFirst⟩
      · obtain ⟨other, inCalls, causes⟩ := inductionHypothesis inRest
        exact ⟨other, List.mem_cons_of_mem _ inCalls, causes⟩

/-- A task was claimed in a history exactly when some call returned it. -/
theorem claimed_iff_of_caused {calls : List Call} {chunks : List (List Event)}
    (caused : List.Forall₂ (Call.Caused space) calls chunks) (task : Uuid) :
    (∃ run worker nowAt expiresAt,
        Event.moved task (.claim run worker nowAt expiresAt) ∈ chunks.flatten) ↔
      ∃ row ∈ calls.flatMap Call.claimed, row.taskId = task := by
  induction caused with
  | nil => simp
  | @cons call events calls chunks first rest inductionHypothesis =>
      simp only [List.flatten_cons, List.flatMap_cons, List.mem_append]
      constructor
      · rintro ⟨run, worker, nowAt, expiresAt, inFirst | inRest⟩
        · obtain ⟨row, member, isTask, _⟩ := (Call.Caused.claimed_iff first task run).mp
            ⟨_, inFirst, worker, nowAt, expiresAt, rfl⟩
          exact ⟨row, Or.inl member, isTask⟩
        · obtain ⟨row, member, isTask⟩ :=
            inductionHypothesis.mp ⟨run, worker, nowAt, expiresAt, inRest⟩
          exact ⟨row, Or.inr member, isTask⟩
      · rintro ⟨row, inFirst | inRest, isTask⟩
        · obtain ⟨event, member, worker, nowAt, expiresAt, isEvent⟩ :=
            (Call.Caused.claimed_iff first task row.runId).mpr ⟨row, inFirst, isTask, rfl⟩
          exact ⟨row.runId, worker, nowAt, expiresAt, Or.inl (isEvent ▸ member)⟩
        · obtain ⟨run, worker, nowAt, expiresAt, member⟩ :=
            inductionHypothesis.mpr ⟨row, inRest, isTask⟩
          exact ⟨run, worker, nowAt, expiresAt, Or.inr member⟩

/-! ## Identifiers and results of a history -/

/-- The identifiers still to come are not in use. -/
theorem History.unused {initial final : World} {calls : List Call}
    (history : History space initial calls final) (position : Nat) :
    final.store.findTask (final.idents position) = none ∧
      final.store.runsOf (final.idents position) = [] ∧
      final.store.findRun (final.idents position) = none := by
  obtain ⟨readings, drawn, chunks, _, advances⟩ := history.advances
  have notNamed : final.idents position ∉ chunks.flatten.flatMap Event.names := by
    intro named
    have isDrawn := advances.fresh.subset named
    rw [advances.named, advances.idents] at isDrawn
    obtain ⟨earlier, inRange, same⟩ := List.mem_map.mp isDrawn
    have equal := history.fresh same
    have bound := List.mem_range.mp inRange
    omega
  have rowsNamed : ∀ {task : Uuid} {life : Life},
      final.store.rowsOf task = Life.rows (some life) →
        task ∈ chunks.flatten.flatMap Event.names ∧
          ∀ run ∈ life.runs, run.id ∈ chunks.flatten.flatMap Event.names := by
    intro task life rows
    obtain ⟨last, lastRows, evolves⟩ := advances.evolves_to (history.initial_rows task)
    have isLife : last = some life := Life.rows_injective (lastRows.symm.trans rows)
    subst isLife
    exact ⟨evolves.task_named_of_some, evolves.runs_named⟩
  have noRows : final.store.rowsOf (final.idents position) = Life.rows none := by
    obtain ⟨life, rows, _⟩ := history.sound.lives (final.idents position)
    cases life with
    | none => exact rows
    | some life => exact absurd (rowsNamed rows).1 notNamed
  refine ⟨congrArg Rows.task noRows, congrArg Rows.runs noRows, ?_⟩
  refine find_eq_none.mpr fun run member same => ?_
  obtain ⟨life, _, rows, inRuns⟩ := history.sound.life_of_run member
  exact notNamed (same ▸ (rowsNamed rows).2 run inRuns)

/-- A run that has not ended has neither a result nor a failure. -/
def Life.Unended (life : Life) : Prop :=
  life.last.state.terminal = false → life.last.result = none ∧ life.last.failureReason = none

/-- A transition gives a result or a failure only to a run that ends. -/
theorem Transition.unended_after {transition : Transition} {life : Life} (unended : life.Unended)
    (enabled : transition.Enabled space life) : (transition.after life).Unended := by
  intro running
  cases transition with
  | claim run worker nowAt expiresAt =>
      obtain ⟨_, waiting, _⟩ := enabled
      refine unended ?_
      have active := State.active_of_claimable waiting
      rw [State.active_eq_not_terminal] at active
      simpa using active
  | complete run observedAt result => cases running
  | sleep run observedAt wakeAt => exact unended (by rw [enabled.2]; rfl)
  | renew run observedAt expiry => exact unended running
  | cancel nowAt => cases running
  | exhaust run observedAt reason => cases running
  | retry run observedAt reason newRun state availableAt => exact ⟨rfl, rfl⟩
  | abandon run observedAt reason nowAt => cases running
  | reopen newRun nowAt => exact ⟨rfl, rfl⟩

/-- A submitted run has neither a result nor a failure. -/
def Event.Unended : Event → Prop
  | .submitted _ run => run.result = none ∧ run.failureReason = none
  | _ => True

theorem Evolves.unended {events : List Event} {life : Life}
    (evolves : Evolves space timely task events none (some life))
    (submitted : ∀ event ∈ events, event.Unended) : life.Unended := by
  refine evolves.invariant ?_ ?_
  · intro row run member _ _ _
    exact submitted _ member
  · intro transition before _ _ enabled _ unended
    exact Transition.unended_after unended enabled

/-- Only `spawn_task` submits, and it submits fresh runs. -/
theorem Call.Caused.unended {call : Call} {events : List Event}
    (caused : call.Caused space events) : ∀ event ∈ events, event.Unended := by
  intro event member
  cases event with
  | submitted row run =>
      obtain ⟨_, _, _, _, _, _, _, isRun⟩ := caused.inserts member
      rw [isRun]
      exact ⟨rfl, rfl⟩
  | _ => trivial

/-- In every state a history reaches, an open task has neither a result nor a
failure in its last run. -/
theorem History.unended {initial final : World} {calls : List Call}
    (history : History space initial calls final) {life : Life}
    (rows : final.store.rowsOf life.task.id = Life.rows (some life)) : life.Unended := by
  obtain ⟨_, _, chunks, caused, advances⟩ := history.advances
  obtain ⟨last, lastRows, evolves⟩ := advances.evolves_to (history.initial_rows life.task.id)
  have isLife : last = some life := Life.rows_injective (lastRows.symm.trans rows)
  subst isLife
  refine evolves.unended fun event member => ?_
  obtain ⟨call, _, events, causes, inEvents⟩ := call_of_event caused member
  exact causes.unended event inEvents

end Steda
