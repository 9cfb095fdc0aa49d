import Steda.Serial.Life

/-!
# Run control alone

What the gate, cancellation, completion and suspension do to a shown life when
no other transaction interferes.
-/

namespace Steda

open Postgres Transaction Relational

variable {space : Char → Bool} {life : Life} {world : World}

/-! ## The gate -/

/-- The verdict of the gate on a run of a valid life. -/
def RunRow.gate (run : RunRow) (observedAt : Timestamp) : Except SqlError Unit :=
  match run.state with
  | .cancelled => .error .taskCancelled
  | .failed => .error (.runAlreadyFailed run.id)
  | .running => if expiredAt observedAt run then .error (.leaseExpired run.id) else .ok ()
  | .pending | .sleeping | .completed => .error (.runNotRunning run.id)

/-- A running run has a finite lease. -/
theorem RunRow.expiry_of_running {run : RunRow} (leased : run.leaseMatchesState space = true)
    (running : run.state = .running) : ∃ expiry, run.claimExpiresAt = some expiry := by
  simp only [RunRow.leaseMatchesState, running, if_true] at leased
  cases owner : run.claimedBy with
  | none => simp [owner] at leased
  | some worker =>
      simp only [owner, Bool.and_eq_true] at leased
      exact Option.isSome_iff_exists.mp leased.2

/-- A running run of a valid life is its last one. -/
theorem Life.Valid.running_last (valid : life.Valid space) {run : RunRow}
    (member : run ∈ life.runs) (running : run.state = .running) :
    run = life.last ∧ life.task.state = .running := by
  obtain ⟨isLast, sameState⟩ := valid.active_run member (by rw [running]; rfl)
  exact ⟨isLast, sameState.trans running⟩

/-- The checks of the gate come down to the state and the lease of the run. -/
theorem Life.Valid.gate (valid : life.Valid space) {run : RunRow} (member : run ∈ life.runs)
    (observedAt : Timestamp) :
    runningAttemptChecks run.id (some false) (.ofRows run life.task observedAt) =
      run.gate observedAt := by
  unfold runningAttemptChecks RunRow.gate AttemptContext.ofRows
  cases state : run.state with
  | running =>
      obtain ⟨isLast, taskRunning⟩ := valid.running_last member state
      obtain ⟨expiry, isExpiry⟩ := RunRow.expiry_of_running (valid.lease member) state
      have pointed : life.task.lastAttemptRun = run.id := isLast ▸ valid.pointed
      simp only [taskRunning, pointed, isExpiry, expiredAt, state]
      by_cases late : expiry ≤ observedAt
      · simp [late]
        rfl
      · simp [late]
        rfl
  | _ => rfl

theorem alone_lockAttemptContext_of_life (shows_ : world.store.Shows space life) {run : RunRow}
    (member : run ∈ life.runs) :
    alone space (lockAttemptContext run.id) world =
      (.ok (.ofRows run life.task (world.clock 0)), world.tick) := by
  rw [alone_lockAttemptContext, shows_.findRun member]
  simp only [shows_.owner member]

theorem alone_lockRunningAttempt_of_life (shows_ : world.store.Shows space life) {run : RunRow}
    (member : run ∈ life.runs) :
    alone space (lockRunningAttempt run.id (some false)) world =
      match run.gate (world.clock 0) with
      | .ok () => (.ok (.ofRows run life.task (world.clock 0)), world.tick)
      | .error error => (.error error, world.tick) := by
  rw [alone_lockRunningAttempt, alone_lockAttemptContext_of_life shows_ member]
  cases verdict : run.gate (world.clock 0) <;> simp only [shows_.valid.gate member, verdict]

/-- The gate of a run that does not exist. -/
theorem alone_lockRunningAttempt_absent {runId : Uuid} (absent : world.store.findRun runId = none)
    (expectExpired : Option Bool) :
    alone space (lockRunningAttempt runId expectExpired) world =
      (.error (.runNotFound runId), world) := by
  rw [alone_lockRunningAttempt, alone_lockAttemptContext, absent]

/-- The gate lets exactly the running last run with a valid lease pass. -/
theorem Life.Valid.gate_ok (valid : life.Valid space) {run : RunRow} (member : run ∈ life.runs)
    {observedAt : Timestamp} :
    run.gate observedAt = .ok () ↔
      run = life.last ∧ Transition.Running run.id life ∧ Transition.Leased observedAt life := by
  constructor
  · intro passes
    unfold RunRow.gate at passes
    cases state : run.state with
    | running =>
        obtain ⟨isLast, _⟩ := valid.running_last member state
        obtain ⟨expiry, isExpiry⟩ := RunRow.expiry_of_running (valid.lease member) state
        simp only [state] at passes
        split at passes
        · cases passes
        · next notExpired =>
            subst isLast
            refine ⟨rfl, ⟨rfl, state⟩, expiry, isExpiry, ?_⟩
            simpa [expiredAt, state, isExpiry] using notExpired
    | _ =>
        rw [state] at passes
        cases passes
  · rintro ⟨isLast, ⟨_, running⟩, expiry, isExpiry, early⟩
    subst isLast
    simp [RunRow.gate, running, expiredAt, isExpiry, early]

/-! ## Locked candidates -/

/-- The candidates whose runs still satisfy the condition, up to a limit. -/
def selectRuns {α : Type} (queue : Queue) (runId : α → Uuid)
    (keeps : α → RunRow → Except SqlError Bool) :
    List α → Nat → Except SqlError (List (α × RunRow))
  | [], _ => .ok []
  | _ :: _, 0 => .ok []
  | candidate :: rest, limit + 1 =>
      match queue.findRun (runId candidate) with
      | none => selectRuns queue runId keeps rest (limit + 1)
      | some run => do
          if ← keeps candidate run then
            let others ← selectRuns queue runId keeps rest limit
            return (candidate, run) :: others
          else selectRuns queue runId keeps rest (limit + 1)

theorem alone_lockRuns {α : Type} (policy : LockPolicy) (runId : α → Uuid)
    (keeps : α → RunRow → Except SqlError Bool) (candidates : List α) (limit : Nat)
    (world : World) :
    alone space (lockRuns policy runId keeps candidates limit) world =
      (selectRuns world.store runId keeps candidates limit, world) := by
  induction candidates generalizing limit with
  | nil => rfl
  | cons candidate rest inductionHypothesis =>
      cases limit with
      | zero => rfl
      | succ limit =>
          simp only [lockRuns, selectRuns, alone_bind, alone_lockRun]
          cases world.store.findRun (runId candidate) with
          | none => exact inductionHypothesis (limit + 1)
          | some run =>
              simp only [alone_bind, alone_ofExcept]
              cases keeps candidate run with
              | error error => rfl
              | ok kept =>
                  cases kept with
                  | false => exact inductionHypothesis (limit + 1)
                  | true =>
                      simp only [if_true, alone_bind, inductionHypothesis]
                      change _ = ((do
                        let others ← selectRuns world.store runId keeps rest limit
                        return (candidate, run) :: others), world)
                      cases selectRuns world.store runId keeps rest limit <;> rfl

/-- A condition that never fails selects. -/
theorem selectRuns_total {α : Type} (queue : Queue) (runId : α → Uuid)
    (keeps : α → RunRow → Bool) (candidates : List α) (limit : Nat) :
    ∃ selected, selectRuns queue runId (fun candidate run => .ok (keeps candidate run)) candidates
      limit = .ok selected := by
  induction candidates generalizing limit with
  | nil => exact ⟨[], rfl⟩
  | cons candidate rest inductionHypothesis =>
      cases limit with
      | zero => exact ⟨[], rfl⟩
      | succ limit =>
          obtain ⟨others, isOthers⟩ := inductionHypothesis limit
          obtain ⟨skipped, isSkipped⟩ := inductionHypothesis (limit + 1)
          unfold selectRuns
          cases queue.findRun (runId candidate) with
          | none => exact ⟨skipped, isSkipped⟩
          | some run =>
              cases kept : keeps candidate run with
              | false =>
                  refine ⟨skipped, ?_⟩
                  simp only [kept]
                  exact isSkipped
              | true =>
                  refine ⟨(candidate, run) :: others, ?_⟩
                  simp only [kept, isOthers]
                  rfl

/-! ## Cancellation -/

/-- The cancellable runs of a task are its active ones. -/
theorem Queue.cancellable_runs (queue : Queue) (task : Uuid) :
    queue.runs.filter (cancellableRun task) =
      (queue.runsOf task).filter fun run => !run.state.terminal := by
  unfold Queue.runsOf select
  rw [List.filter_filter]
  apply List.filter_congr
  intro run _
  unfold cancellableRun
  by_cases owner : run.taskId = task
  · simp [owner]
  · simp [owner]

/-- The active runs of a valid life. -/
theorem Life.Valid.active_runs (valid : life.Valid space) :
    (life.runs.filter fun run => !run.state.terminal) =
      if life.task.state.terminal then [] else [life.last] := by
  have noEarlier : (life.history.filter fun run => !run.state.terminal) = [] := by
    rw [List.filter_eq_nil_iff]
    intro run earlier
    rw [valid.historyFailed run earlier]
    decide
  rw [Life.runs, List.filter_append, noEarlier, valid.terminal_iff, List.nil_append]
  by_cases terminal : life.last.state.terminal = true
  · simp [terminal]
  · simp [terminal]

/-- `cancel_task` of a task that exists, up to its two updates. -/
theorem alone_cancelTask {id : Uuid} {task : TaskRow} (found : world.store.findTask id = some task) :
    alone space (cancelTask id) world =
      if task.state.terminal then (.ok false, world.tick)
      else alone space (cancelOpenTask id (world.clock 0)) world.tick := by
  simp only [cancelTask, alone_bind, alone_currentTime, alone_snapshot, Session.tick_store,
    alone_lockRuns]
  obtain ⟨selected, isSelected⟩ := selectRuns_total world.store RunRow.id
    (fun _ run => cancellableRun id run)
    ((world.store.runs.filter (cancellableRun id)).insertionSort
      fun left right => left.id ≤ right.id)
    ((world.store.runs.filter (cancellableRun id)).insertionSort
      fun left right => left.id ≤ right.id).length
  simp only [isSelected, alone_lockTask, Session.tick_store, found]
  split <;> rfl

/-- Cancelling a task without active runs writes its row. -/
theorem alone_cancelOpenTask_inactive {id : Uuid} {task : TaskRow} {nowAt : Timestamp}
    (found : world.store.findTask id = some task)
    (checked : (task.cancel nowAt).check space = .ok ())
    (inactive : ((world.store.runsOf id).filter fun run => !run.state.terminal) = []) :
    alone space (cancelOpenTask id nowAt) world =
      (.ok true, world.withStore (world.store.putTask (task.cancel nowAt))) := by
  have noRuns : (world.store.putTask (task.cancel nowAt)).runs.filter (cancellableRun id) = [] :=
    (Queue.cancellable_runs world.store id).trans inactive
  rw [cancelOpenTask, alone_then (alone_updateTask_checked found checked),
    alone_then (alone_snapshot _), Session.withStore_store, noRuns]
  rfl

/-- Cancelling an open task of a shown life. -/
theorem alone_cancelOpenTask (shows_ : world.store.Shows space life)
    (open_ : life.task.state.terminal = false) (nowAt : Timestamp) :
    alone space (cancelOpenTask life.task.id nowAt) world =
      (.ok true, world.withStore ((Transition.cancel nowAt).write life world.store)) := by
  have enabled : (Transition.cancel nowAt).Enabled space life := open_
  have cancelled := Transition.valid_after shows_.valid enabled
  have active : life.last.state.terminal = false := shows_.valid.terminal_iff ▸ open_
  have updated : alone space (updateTask life.task.id fun task => task.cancel nowAt) world =
      (.ok (), world.withStore (world.store.putTask (life.task.cancel nowAt))) :=
    alone_updateTask_checked shows_.findTask cancelled.taskChecked
  have runs : (world.store.putTask (life.task.cancel nowAt)).runs.filter
      (cancellableRun life.task.id) = [life.last] := by
    refine (Queue.cancellable_runs world.store _).trans ?_
    rw [shows_.runsOf, shows_.valid.active_runs, open_]
    rfl
  have found : (world.store.putTask (life.task.cancel nowAt)).findRun life.last.id =
      some life.last := shows_.findRun life.last_mem_runs
  have cancellable : cancellableRun life.task.id life.last = true := by
    simp [cancellableRun, active, shows_.valid.owned _ life.last_mem_runs]
  have passes : Queue.attempt space (.putRun life.last.cancel)
      (world.store.putTask (life.task.cancel nowAt)) = .ok true := by
    have checked : life.last.cancel.check space = .ok () :=
      cancelled.runsChecked _ (Life.last_mem_runs _)
    simp only [Queue.attempt, checked]
    rfl
  rw [cancelOpenTask, alone_then updated, alone_then (alone_snapshot _), Session.withStore_store,
    runs]
  simp only [cancelRuns, alone_bind, alone_lockRun, Session.withStore_store, found, cancellable,
    if_true, alone_change, passes, alone_pure]
  rfl

/-- `cancel_task` cancels an open task of a shown life. -/
theorem alone_cancelTask_of_life (shows_ : world.store.Shows space life) :
    alone space (cancelTask life.task.id) world =
      if life.task.state.terminal then (.ok false, world.tick)
      else (.ok true, world.tick.withStore
        ((Transition.cancel (world.clock 0)).write life world.store)) := by
  rw [alone_cancelTask shows_.findTask]
  split
  · rfl
  · next open_ =>
      have ticked : world.tick.store.Shows space life := shows_
      exact alone_cancelOpenTask ticked (by simpa using open_) _

/-- A running task is open. -/
theorem alone_cancelTask_of_running (shows_ : world.store.Shows space life)
    (running : life.last.state = .running) :
    alone space (cancelTask life.task.id) world =
      (.ok true, world.tick.withStore
        ((Transition.cancel (world.clock 0)).write life world.store)) := by
  have open_ : life.task.state.terminal = false := by
    rw [shows_.valid.terminal_iff, running]
    rfl
  rw [alone_cancelTask_of_life shows_, open_]
  rfl

/-! ## Passing the gate -/

/-- A run the gate refuses. -/
theorem alone_gate_refused (shows_ : world.store.Shows space life) {run : RunRow}
    (member : run ∈ life.runs) {error : SqlError} (refused : run.gate (world.clock 0) = .error error) :
    alone space (lockRunningAttempt run.id (some false)) world = (.error error, world.tick) := by
  rw [alone_lockRunningAttempt_of_life shows_ member, refused]

/-- The last run, running with a valid lease, passes the gate. -/
theorem alone_gate_passed (shows_ : world.store.Shows space life)
    (passes : life.last.gate (world.clock 0) = .ok ()) :
    alone space (lockRunningAttempt life.last.id (some false)) world =
      (.ok (.ofRows life.last life.task (world.clock 0)), world.tick) := by
  rw [alone_lockRunningAttempt_of_life shows_ life.last_mem_runs, passes]

theorem Life.Valid.running_of_gate (valid : life.Valid space) {observedAt : Timestamp}
    (passes : life.last.gate observedAt = .ok ()) : Transition.Running life.last.id life :=
  ((valid.gate_ok life.last_mem_runs).mp passes).2.1

@[simp] theorem AttemptContext.due_ofRows (run : RunRow) (task : TaskRow) (observedAt : Timestamp)
    (time : Option Timestamptz) :
    (AttemptContext.ofRows run task observedAt).due time = task.due time := rfl

@[simp] theorem AttemptContext.observedAt_ofRows (run : RunRow) (task : TaskRow)
    (observedAt : Timestamp) :
    (AttemptContext.ofRows run task observedAt).observedAt = observedAt := rfl

/-- New versions of the last run and of the task row. -/
theorem alone_writeLife {α : Type} (shows_ : world.store.Shows space life)
    {setRun : RunRow → RunRow} {setTask : TaskRow → TaskRow}
    (sameKey : (setRun life.last).key = life.last.key)
    (runChecked : (setRun life.last).check space = .ok ())
    (taskChecked : (setTask life.task).check space = .ok ()) (next : Sql α) :
    alone space (do
      updateRun life.last.id setRun
      updateTask life.task.id setTask
      next) world =
      alone space next (world.withStore
        ((world.store.putRun (setRun life.last)).putTask (setTask life.task))) := by
  have found : (world.withStore (world.store.putRun (setRun life.last))).store.findTask
      life.task.id = some life.task := shows_.findTask
  rw [alone_then (alone_updateRun_last shows_ sameKey runChecked),
    alone_then (alone_updateTask_checked found taskChecked)]
  rfl

/-- What follows the gate of a run whose task is cancelled when a condition on
its deadline holds. -/
theorem alone_unlessDue {α : Type} (shows_ : world.store.Shows space life)
    {expectExpired : Option Bool}
    (passed : alone space (lockRunningAttempt life.last.id expectExpired) world =
      (.ok (.ofRows life.last life.task (world.clock 0)), world.tick))
    (running : life.last.state = .running) (due : AttemptContext → Except SqlError Bool) (value : α)
    (rest : AttemptContext → Sql α) :
    alone space (do
      let context ← lockRunningAttempt life.last.id expectExpired
      if ← Program.ofExcept (due context) then
        let _ ← cancelTask context.taskId
        return value
      rest context) world =
      match due (.ofRows life.last life.task (world.clock 0)) with
      | .ok true => (.ok value, world.tick.tick.withStore
          ((Transition.cancel (world.clock 1)).write life world.store))
      | .ok false => alone space (rest (.ofRows life.last life.task (world.clock 0))) world.tick
      | .error error => (.error error, world.tick) := by
  rw [alone_then passed, alone_bind, alone_ofExcept]
  cases due (.ofRows life.last life.task (world.clock 0)) with
  | error error => rfl
  | ok isDue =>
      cases isDue with
      | false => rfl
      | true =>
          have ticked : world.tick.store.Shows space life := shows_
          have owner : (AttemptContext.ofRows life.last life.task (world.clock 0)).taskId =
            life.task.id := shows_.valid.owned _ life.last_mem_runs
          simp only [if_true]
          rw [owner, alone_then (alone_cancelTask_of_running ticked running)]
          rfl

/-! ## Completion and suspension -/

/-- A refused completion raises the verdict of the gate. -/
theorem alone_completeRun_refused (shows_ : world.store.Shows space life) {run : RunRow}
    (member : run ∈ life.runs) {error : SqlError} (refused : run.gate (world.clock 0) = .error error)
    (result : Option Json) :
    alone space (completeRun run.id result) world = (.error error, world.tick) :=
  alone_stop (alone_gate_refused shows_ member refused) _

/-- A completion past the gate cancels a task past its deadline and completes
any other one. -/
theorem alone_completeRun (shows_ : world.store.Shows space life)
    (passes : life.last.gate (world.clock 0) = .ok ()) (result : Json) :
    alone space (completeRun life.last.id (some result)) world =
      match life.task.due (some (world.clock 0)) with
      | .ok true => (.ok false, world.tick.tick.withStore
          ((Transition.cancel (world.clock 1)).write life world.store))
      | .ok false => (.ok true, world.tick.withStore
          ((Transition.complete life.last.id (world.clock 0) (some result)).write life world.store))
      | .error error => (.error error, world.tick) := by
  have running := shows_.valid.running_of_gate passes
  have owner := shows_.valid.owned _ life.last_mem_runs
  refine (alone_unlessDue shows_ (alone_gate_passed shows_ passes) running.2
    (fun context => context.due context.observedAt) false fun context => do
      updateRun life.last.id fun run => run.complete context.observedAt (some result)
      updateTask context.taskId fun task =>
        { task with state := .completed, lastAttemptRun := life.last.id }
      return true).trans ?_
  simp only [AttemptContext.due_ofRows, AttemptContext.observedAt_ofRows]
  cases life.task.due (some (world.clock 0)) with
  | error error => rfl
  | ok isDue =>
      cases isDue with
      | true => rfl
      | false =>
          have enabled : (Transition.complete life.last.id (world.clock 0) (some result)).Enabled
            space life := ⟨running, rfl⟩
          have completed := Transition.valid_after shows_.valid enabled
          have ticked : world.tick.store.Shows space life := shows_
          change alone space (do
            updateRun life.last.id fun run => run.complete (world.clock 0) (some result)
            updateTask life.last.taskId fun task =>
              { task with state := .completed, lastAttemptRun := life.last.id }
            return true) world.tick = _
          rw [owner]
          exact alone_writeLife ticked rfl (completed.runsChecked _ (Life.last_mem_runs _))
            completed.taskChecked _

/-- A refused suspension raises the verdict of the gate. -/
theorem alone_scheduleRun_refused (shows_ : world.store.Shows space life) {run : RunRow}
    (member : run ∈ life.runs) {error : SqlError} (refused : run.gate (world.clock 0) = .error error)
    (wakeAt : Option Timestamptz) :
    alone space (scheduleRun run.id wakeAt) world = (.error error, world.tick) :=
  alone_stop (alone_gate_refused shows_ member refused) _

/-- The deadline is due at a time or at a requested wake-up. -/
def TaskRow.dueBy (task : TaskRow) (observedAt : Timestamp) (wakeAt : Option Timestamptz) :
    Except SqlError Bool := do
  if ← task.due (some observedAt) then return true
  task.due wakeAt

/-- A suspension past the gate cancels a task whose deadline comes before the
wake-up; any other task goes to sleep, unless the wake-up has passed. -/
theorem alone_scheduleRun (shows_ : world.store.Shows space life)
    (passes : life.last.gate (world.clock 0) = .ok ()) (wakeAt : Timestamptz) :
    alone space (scheduleRun life.last.id (some wakeAt)) world =
      match life.task.dueBy (world.clock 0) (some wakeAt) with
      | .ok true => (.ok .cancelled, world.tick.tick.withStore
          ((Transition.cancel (world.clock 1)).write life world.store))
      | .ok false =>
          if wakeAt ≤ world.clock 0 then (.ok .ready, world.tick)
          else (.ok .suspended, world.tick.withStore
            ((Transition.sleep life.last.id (world.clock 0) wakeAt).write life world.store))
      | .error error => (.error error, world.tick) := by
  have running := shows_.valid.running_of_gate passes
  have owner := shows_.valid.owned _ life.last_mem_runs
  refine (alone_unlessDue shows_ (alone_gate_passed shows_ passes) running.2
    (fun context => context.dueBy (some wakeAt)) ScheduleOutcome.cancelled fun context => do
      if wakeAt ≤ context.observedAt then return ScheduleOutcome.ready
      updateRun life.last.id fun run => run.sleep wakeAt
      updateTask context.taskId fun task => { task with state := .sleeping }
      return ScheduleOutcome.suspended).trans ?_
  change (match life.task.dueBy (world.clock 0) (some wakeAt) with
    | .ok true => _
    | .ok false => _
    | .error error => _) = _
  cases life.task.dueBy (world.clock 0) (some wakeAt) with
  | error error => rfl
  | ok isDue =>
      cases isDue with
      | true => rfl
      | false =>
          simp only [AttemptContext.observedAt_ofRows]
          by_cases passed : wakeAt ≤ world.clock 0
          · simp only [passed, if_true]
            rfl
          · have enabled : (Transition.sleep life.last.id (world.clock 0) wakeAt).Enabled space
              life := running
            have asleep := Transition.valid_after shows_.valid enabled
            have ticked : world.tick.store.Shows space life := shows_
            simp only [passed, if_false]
            change alone space (do
              updateRun life.last.id fun run => run.sleep wakeAt
              updateTask life.last.taskId fun task => { task with state := .sleeping }
              return ScheduleOutcome.suspended) world.tick = _
            rw [owner]
            exact alone_writeLife ticked rfl (asleep.runsChecked _ (Life.last_mem_runs _))
              asleep.taskChecked _

end Steda
