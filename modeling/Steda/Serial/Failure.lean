import Steda.Contracts.Failure
import Steda.Serial.World

/-!
# Failure alone

`Life.failure` is the transition a failed attempt makes: cancellation at a due
deadline, an automatic retry, cancellation of a retry that would start past the
deadline, or terminal failure.
-/

namespace Steda

open Postgres Transaction Relational

variable {space : Char → Bool} {life : Life} {world : World}

/-- The transition of a failed attempt before its deadline. -/
def Life.failureInTime (life : Life) (observedAt nowAt : Timestamp) (reason : Json)
    (newRun : Uuid) : Except SqlError Transition :=
  let context := AttemptContext.ofRows life.last life.task observedAt
  match integerSucc life.last.attempt with
  | .error error => .error error
  | .ok nextAttempt =>
      if retriesLeft context nextAttempt then
        match nextAvailableAt context with
        | .error error => .error error
        | .ok availableAt =>
            match life.task.due (some availableAt) with
            | .error error => .error error
            | .ok true => .ok (.abandon life.last.id observedAt (some reason) nowAt)
            | .ok false => .ok (.retry life.last.id observedAt (some reason) newRun
                (if observedAt < availableAt then .sleeping else .pending) availableAt)
      else .ok (.exhaust life.last.id observedAt (some reason))

/-- The transition of a failed attempt. -/
def Life.failure (life : Life) (observedAt nowAt : Timestamp) (reason : Json) (newRun : Uuid) :
    Except SqlError Transition :=
  match life.task.due (some observedAt) with
  | .error error => .error error
  | .ok true => .ok (.cancel nowAt)
  | .ok false => life.failureInTime observedAt nowAt reason newRun

/-- The world after the reading of a cancellation or the identifier of a retry. -/
def Transition.spent : Transition → World → World
  | .cancel _, world | .abandon _ _ _ _, world => world.tick
  | .retry _ _ _ _ _ _, world => world.draw
  | _, world => world

section Spec

variable {observedAt nowAt : Timestamp} {reason : Json} {newRun : Uuid} {transition : Transition}

/-- A failed attempt in time exhausts the task, is abandoned or is retried. -/
theorem Life.failureInTime_cases
    (fails : life.failureInTime observedAt nowAt reason newRun = .ok transition) :
    (transition = .exhaust life.last.id observedAt (some reason) ∧ life.retriable = false) ∨
    (transition = .abandon life.last.id observedAt (some reason) nowAt) ∨
    ∃ availableAt, transition = .retry life.last.id observedAt (some reason) newRun
      (if observedAt < availableAt then .sleeping else .pending) availableAt ∧
      life.retriable = true := by
  unfold failureInTime at fails
  rcases integerSucc_cases life.last.attempt with ⟨_, overflow⟩ | ⟨_, next⟩
  · simp only [overflow] at fails
    cases fails
  · simp only [next] at fails
    split at fails
    · next left =>
        have isLeft : life.retriable = true := left
        grind
    · next notLeft =>
        cases fails
        exact Or.inl ⟨rfl, Bool.eq_false_iff.mpr notLeft⟩

/-- The transition of a failed attempt is enabled. -/
theorem Life.failure_enabled (running : life.last.state = .running)
    (valid : life.Valid space)
    (fails : life.failure observedAt nowAt reason newRun = .ok transition) :
    transition.Enabled space life := by
  have isRunning : Transition.Running life.last.id life := ⟨rfl, running⟩
  unfold failure at fails
  split at fails
  · cases fails
  · cases fails
    change life.task.state.terminal = false
    rw [isRunning.task_state valid]
    rfl
  · rcases failureInTime_cases fails with ⟨isExhaust, noneLeft⟩ | isAbandon |
      ⟨availableAt, isRetry, left⟩
    · subst isExhaust
      exact ⟨isRunning, rfl, noneLeft⟩
    · subst isAbandon
      exact ⟨isRunning, rfl⟩
    · subst isRetry
      refine ⟨isRunning, rfl, left, ?_⟩
      split <;> rfl

/-- After a failed attempt its run is cancelled with the task, or it has failed
for the given reason. -/
theorem Life.outcome_of_failure
    (fails : life.failure observedAt nowAt reason newRun = .ok transition) :
    ((transition.after life).task.state = .cancelled ∧
        life.last.cancel ∈ (transition.after life).runs) ∨
      life.last.fail observedAt (some reason) ∈ (transition.after life).runs := by
  unfold failure at fails
  split at fails
  · cases fails
  · cases fails
    exact .inl ⟨rfl, Life.last_mem_runs _⟩
  · rcases failureInTime_cases fails with ⟨rfl, _⟩ | rfl | ⟨availableAt, rfl, _⟩
    · exact .inr (Life.last_mem_runs _)
    · exact .inr (Life.last_mem_runs _)
    · exact .inr (Life.mem_runs.mpr (.inl (List.mem_append_right _ List.mem_cons_self)))

/-- The last run has ended after a failed attempt. -/
theorem Life.ended_of_failure
    (fails : life.failure observedAt nowAt reason newRun = .ok transition) :
    ∃ run ∈ (transition.after life).runs, run.id = life.last.id ∧
      (run.state = .failed ∨ run.state = .cancelled) := by
  rcases Life.outcome_of_failure fails with ⟨_, member⟩ | member
  · exact ⟨_, member, rfl, .inr rfl⟩
  · exact ⟨_, member, rfl, .inl rfl⟩

end Spec

/-- What `fail_run` does past its deadline check. -/
def failInTime (runId : Uuid) (reason : Option Json) (context : AttemptContext) : Sql Unit := do
  updateRun runId fun run => run.fail context.observedAt reason
  let nextAttempt ← Program.ofExcept (integerSucc context.attempt)
  if retriesLeft context nextAttempt then
    let availableAt ← Program.ofExcept (nextAvailableAt context)
    if ← Program.ofExcept (context.due availableAt) then
      let _ ← cancelTask context.taskId
      return ()
    let nextState := if context.observedAt < availableAt then .sleeping else .pending
    let newRunId ← uuidv7
    let _ ← change (.insertRun
      (RunRow.fresh newRunId context.taskId nextAttempt nextState availableAt))
    updateTask context.taskId fun task => task.afterFailure nextState nextAttempt newRunId
  else
    updateTask context.taskId fun task => task.afterFailure .failed context.attempt runId

section InTime

variable {observedAt : Timestamp} {reason : Json}

/-- A queue in which the last run of a running task has failed. -/
def Life.failedLast (life : Life) (observedAt : Timestamp) (reason : Json) (queue : Queue) : Queue :=
  queue.putRun (life.last.fail observedAt (some reason))

/-- The runs of a task whose last run has failed. -/
theorem Queue.Shows.runsOf_failedLast {queue : Queue} (shows_ : queue.Shows space life)
    (observedAt : Timestamp) (reason : Json) :
    (life.failedLast observedAt reason queue).runsOf life.task.id =
      life.history ++ [life.last.fail observedAt (some reason)] := by
  have rows := queue.rowsOf_putRun (life.last.fail observedAt (some reason)) life.task.id
  have owner : (life.last.fail observedAt (some reason)).taskId = life.task.id :=
    shows_.valid.owned life.last life.last_mem_runs
  rw [shows_.rows] at rows
  simp only [Change.onRows, owner, if_true, Life.rows,
    shows_.replace_last (show (life.last.fail observedAt (some reason)).key = life.last.key from rfl)]
    at rows
  exact congrArg Rows.runs rows

/-- Cancelling the task of the failed run. -/
theorem alone_cancelTask_failed (shows_ : world.store.Shows space life)
    (running : life.last.state = .running) (observedAt : Timestamp) (reason : Json) :
    alone space (cancelTask life.task.id)
        (world.withStore (life.failedLast observedAt reason world.store)) =
      (.ok true, world.tick.withStore
        ((Transition.abandon life.last.id observedAt (some reason) (world.clock 0)).write life
          world.store)) := by
  let failed := world.withStore (life.failedLast observedAt reason world.store)
  have found : failed.store.findTask life.task.id = some life.task := shows_.findTask
  have isRunning : Transition.Running life.last.id life := ⟨rfl, running⟩
  have enabled : (Transition.abandon life.last.id observedAt (some reason) (world.clock 0)).Enabled
    space life := ⟨isRunning, rfl⟩
  have cancelled := (Transition.valid_after shows_.valid enabled).taskChecked
  have inactive : ((failed.tick.store.runsOf life.task.id).filter
      fun run => !run.state.terminal) = [] := by
    rw [show failed.tick.store.runsOf life.task.id = _ from
      shows_.runsOf_failedLast observedAt reason, List.filter_eq_nil_iff]
    intro run member
    rcases List.mem_append.mp member with earlier | isLast
    · rw [shows_.valid.historyFailed run earlier]
      decide
    · rw [List.mem_singleton.mp isLast]
      simp [RunRow.fail, State.terminal]
  rw [alone_cancelTask found, isRunning.task_state shows_.valid]
  exact alone_cancelOpenTask_inactive found cancelled inactive

/-- Inserting the retry of the failed run. -/
theorem alone_insertRetry (shows_ : world.store.Shows space life) (observedAt : Timestamp)
    (reason : Json)
    {newRun : Uuid} (fresh : world.store.findRun newRun = none) {state : State}
    (waiting : state.claimable = true) (availableAt : Timestamp) :
    let retried := RunRow.fresh newRun life.task.id (life.last.attempt + 1) state availableAt
    alone space (change (.insertRun retried))
        (world.withStore (life.failedLast observedAt reason world.store)) =
      (.ok true, world.withStore
        ((life.failedLast observedAt reason world.store).insertRun retried)) := by
  intro retried
  have runs := shows_.runsOf_failedLast observedAt reason
  have unused : (life.failedLast observedAt reason world.store).findRun retried.id = none := by
    have keeps : ∀ id, Change.putRun (life.last.fail observedAt (some reason)) ≠ .deleteTask id :=
      fun _ => by simp
    refine (Queue.findRun_apply keeps world.store newRun).trans ?_
    rw [fresh]
    rfl
  have attempted : Queue.attempt space (.insertRun retried)
      (life.failedLast observedAt reason world.store) = .ok true := by
    rw [attempt_insertRun, unused]
    · rfl
    · rw [show (life.failedLast observedAt reason world.store).findTask retried.taskId = _ from
        shows_.findTask]
      rfl
    · exact RunRow.check_fresh _ _ _ waiting _
    · rw [show (life.failedLast observedAt reason world.store).runsOf retried.taskId = _ from runs]
      intro other member
      have bound : other.attempt ≤ life.last.attempt := by
        rw [shows_.valid.last_attempt]
        rcases List.mem_append.mp member with earlier | isLast
        · exact shows_.valid.attempt_le (Life.mem_runs.mpr (Or.inl earlier))
        · rw [List.mem_singleton.mp isLast]
          exact shows_.valid.last_attempt.le
      exact Nat.ne_of_lt (Nat.lt_succ_of_le bound)
    · rw [show (life.failedLast observedAt reason world.store).runsOf retried.taskId = _ from runs]
      intro other member
      rcases List.mem_append.mp member with earlier | isLast
      · rw [shows_.valid.historyFailed other earlier]
        rfl
      · rw [List.mem_singleton.mp isLast]
        rfl
  rw [alone_change]
  simp only [Session.withStore_store, attempted]
  rfl

/-- A failed attempt in time. -/
theorem alone_failInTime (shows_ : world.store.Shows space life)
    (running : life.last.state = .running) (observedAt : Timestamp) (reason : Json)
    (fresh : world.store.findRun (world.idents 0) = none) :
    match life.failureInTime observedAt (world.clock 0) reason (world.idents 0) with
    | .error error => (alone space (failInTime life.last.id (some reason)
        (.ofRows life.last life.task observedAt)) world).1 = .error error
    | .ok transition => alone space (failInTime life.last.id (some reason)
        (.ofRows life.last life.task observedAt)) world =
          (.ok (), (transition.spent world).withStore (transition.write life world.store)) := by
  have isRunning : Transition.Running life.last.id life := ⟨rfl, running⟩
  have owner : (AttemptContext.ofRows life.last life.task observedAt).taskId = life.task.id :=
    shows_.valid.owned _ life.last_mem_runs
  have failed : ((Transition.exhaust life.last.id observedAt (some reason)).after life).Valid space :=
    Transition.valid_exhaust shows_.valid isRunning rfl
  have updated : alone space (updateRun life.last.id fun run =>
      run.fail observedAt (some reason)) world =
        (.ok (), world.withStore (life.failedLast observedAt reason world.store)) :=
    alone_updateRun_last shows_ rfl (failed.runsChecked _ (Life.last_mem_runs _))
  have found : (world.withStore (life.failedLast observedAt reason world.store)).store.findTask
      life.task.id = some life.task := shows_.findTask
  have begins : ∀ rest : Unit → Sql Unit, alone space (do
      let answer ← updateRun life.last.id fun run => run.fail observedAt (some reason)
      rest answer) world =
        alone space (rest ()) (world.withStore (life.failedLast observedAt reason world.store)) :=
    alone_then updated
  simp only [failInTime, AttemptContext.observedAt_ofRows, begins, owner]
  unfold Life.failureInTime
  rcases integerSucc_cases life.last.attempt with ⟨_, overflow⟩ | ⟨_, next⟩
  · have overflow' : integerSucc (AttemptContext.ofRows life.last life.task observedAt).attempt =
      .error .integerOutOfRange := overflow
    simp only [overflow, overflow']
    rfl
  · have next' : integerSucc (AttemptContext.ofRows life.last life.task observedAt).attempt =
      .ok (life.last.attempt + 1) := next
    simp only [next, next', alone_bind, alone_ofExcept]
    by_cases left : retriesLeft (.ofRows life.last life.task observedAt) (life.last.attempt + 1) = true
    · obtain ⟨availableAt, computed⟩ := nextAvailableAt_ok shows_.valid observedAt
      simp only [left, if_true, computed, alone_bind, alone_ofExcept, AttemptContext.due_ofRows]
      cases life.task.due (some availableAt) with
      | error error => rfl
      | ok isDue =>
          cases isDue with
          | true =>
              simp only [if_true, alone_bind, alone_cancelTask_failed shows_ running observedAt reason]
              rfl
          | false =>
              have drawn : (Session.draw world).store.Shows space life := shows_
              have drawnFailed : Session.draw
                  (world.withStore (life.failedLast observedAt reason world.store)) =
                (Session.draw world).withStore
                  (life.failedLast observedAt reason (Session.draw world).store) := rfl
              change alone space (do
                let newRunId ← uuidv7
                let _ ← change (.insertRun (RunRow.fresh newRunId life.task.id
                  (life.last.attempt + 1)
                  (if observedAt < availableAt then State.sleeping else State.pending) availableAt))
                updateTask life.task.id fun task => task.afterFailure
                  (if observedAt < availableAt then State.sleeping else State.pending)
                  (life.last.attempt + 1) newRunId) _ = _
              simp only [alone_bind, alone_uuidv7, Session.withStore_idents, drawnFailed]
              generalize isState :
                (if observedAt < availableAt then State.sleeping else State.pending) = state
              have waiting : state.claimable = true := by
                rw [← isState]
                split <;> rfl
              have enabled : (Transition.retry life.last.id observedAt (some reason) (world.idents 0)
                state availableAt).Enabled space life := ⟨isRunning, rfl, left, waiting⟩
              have retried : (life.task.afterFailure state (life.last.attempt + 1)
                (world.idents 0)).check space = .ok () :=
                  (Transition.valid_after shows_.valid enabled).taskChecked
              rw [alone_insertRetry drawn observedAt reason fresh waiting availableAt]
              have found' : ((Session.draw world).withStore
                  ((life.failedLast observedAt reason world.store).insertRun (RunRow.fresh
                    (world.idents 0) life.task.id (life.last.attempt + 1) state
                      availableAt))).store.findTask life.task.id = some life.task := shows_.findTask
              refine (alone_updateTask found' _).trans ?_
              simp only [retried]
              rfl
    · simp only [left, Bool.false_eq_true, if_false]
      exact alone_updateTask_checked found failed.taskChecked

end InTime

/-- `fail_run` past its gate makes the transition of a failed attempt. -/
theorem alone_failRun (shows_ : world.store.Shows space life) {expectExpired : Option Bool}
    (passed : alone space (lockRunningAttempt life.last.id expectExpired) world =
      (.ok (.ofRows life.last life.task (world.clock 0)), world.tick))
    (running : life.last.state = .running) (reason : Json)
    (fresh : world.store.findRun (world.idents 0) = none) :
    match life.failure (world.clock 0) (world.clock 1) reason (world.idents 0) with
    | .error error =>
        (alone space (failRun life.last.id (some reason) expectExpired) world).1 = .error error
    | .ok transition => alone space (failRun life.last.id (some reason) expectExpired) world =
        (.ok (), (transition.spent world.tick).withStore (transition.write life world.store)) := by
  have begins : alone space (failRun life.last.id (some reason) expectExpired) world = _ :=
    alone_unlessDue shows_ passed running (fun context => context.due context.observedAt) ()
      (failInTime life.last.id (some reason))
  rw [begins, AttemptContext.due_ofRows, AttemptContext.observedAt_ofRows]
  unfold Life.failure
  cases life.task.due (some (world.clock 0)) with
  | error error => rfl
  | ok isDue =>
      cases isDue with
      | true => rfl
      | false =>
          have ticked : world.tick.store.Shows space life := shows_
          exact alone_failInTime ticked running (world.clock 0) reason fresh

end Steda
