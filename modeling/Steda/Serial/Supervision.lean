import Steda.Serial.Failure

/-!
# Expiry and supervision alone

Reaping fails the attempt of an expired lease.  Supervision answers with the
state of a run, after cancelling a task past its deadline, reaping an expired
lease or renewing a valid one.
-/

namespace Steda

open Postgres Transaction Relational

variable {space : Char → Bool} {life : Life} {world : World}

/-! ## Expired leases -/

/-- The gate for expired leases lets an expired last run pass. -/
theorem alone_gate_expired (shows_ : world.store.Shows space life)
    (expired : expiredAt (world.clock 0) life.last = true) :
    alone space (lockRunningAttempt life.last.id (some true)) world =
      (.ok (.ofRows life.last life.task (world.clock 0)), world.tick) := by
  obtain ⟨running, expiry, isExpiry, late⟩ : life.last.state = .running ∧
      ∃ expiry, life.last.claimExpiresAt = some expiry ∧ expiry ≤ world.clock 0 := by
    unfold expiredAt at expired
    cases expiry : life.last.claimExpiresAt <;> simp_all
  have isRunning : Transition.Running life.last.id life := ⟨rfl, running⟩
  have passes : runningAttemptChecks life.last.id (some true)
      (.ofRows life.last life.task (world.clock 0)) = .ok () :=
    runningAttemptChecks_ok.mpr ⟨running, isRunning.task_state shows_.valid, shows_.valid.pointed,
      expiry, isExpiry, by simpa using late⟩
  rw [alone_lockRunningAttempt, alone_lockAttemptContext_of_life shows_ life.last_mem_runs]
  simp only [passes]

/-- An expired run is running. -/
theorem running_of_expiredAt {nowAt : Timestamp} {run : RunRow} (expired : expiredAt nowAt run = true) :
    run.state = .running := by
  unfold expiredAt at expired
  simp only [Bool.and_eq_true, beq_iff_eq] at expired
  exact expired.1

/-- A run without an expired lease is not reaped. -/
theorem alone_reapExpiredRun_skipped (shows_ : world.store.Shows space life) {run : RunRow}
    (member : run ∈ life.runs) (valid : expiredAt (world.clock 0) run = false) :
    alone space (reapExpiredRun run.id) world = (.ok false, world.tick) := by
  have notExpired : (AttemptContext.ofRows run life.task (world.clock 0)).leaseExpired = false :=
    valid
  rw [reapExpiredRun, alone_then (alone_lockAttemptContext_of_life shows_ member), notExpired]
  rfl

/-- The failure reason of a lease that has expired at a time. -/
def Life.expiryReason (life : Life) (observedAt : Timestamp) : Json :=
  leaseExpiredReason (.ofRows life.last life.task observedAt)

/-- Reaping an expired lease makes the transition of a failed attempt. -/
theorem alone_reapExpiredRun (shows_ : world.store.Shows space life)
    (expired : expiredAt (world.clock 0) life.last = true)
    (stillExpired : expiredAt (world.clock 1) life.last = true)
    (fresh : world.store.findRun (world.idents 0) = none) :
    match life.failure (world.clock 1) (world.clock 2) (life.expiryReason (world.clock 0))
        (world.idents 0) with
    | .error error => (alone space (reapExpiredRun life.last.id) world).1 = .error error
    | .ok transition => alone space (reapExpiredRun life.last.id) world =
        (.ok true, (transition.spent world.tick.tick).withStore
          (transition.write life world.store)) := by
  have running := running_of_expiredAt expired
  have isRunning : Transition.Running life.last.id life := ⟨rfl, running⟩
  have isExpired : (AttemptContext.ofRows life.last life.task (world.clock 0)).leaseExpired = true :=
    expired
  have authoritative : ¬((AttemptContext.ofRows life.last life.task (world.clock 0)).taskState ≠
      .running ∨ (AttemptContext.ofRows life.last life.task
        (world.clock 0)).authoritativeRunId ≠ life.last.id) := by
    rintro (notRunning | other)
    · exact notRunning (isRunning.task_state shows_.valid)
    · exact other shows_.valid.pointed
  have ticked : world.tick.store.Shows space life := shows_
  have failed := alone_failRun ticked (alone_gate_expired ticked stillExpired) running
    (life.expiryReason (world.clock 0)) fresh
  have begins : alone space (reapExpiredRun life.last.id) world =
      alone space (do
        failRun life.last.id (some (life.expiryReason (world.clock 0))) (some true)
        return true) world.tick := by
    rw [reapExpiredRun, alone_then (alone_lockAttemptContext_of_life shows_ life.last_mem_runs),
      isExpired]
    simp only [Bool.not_true, Bool.false_eq_true, if_false, if_neg authoritative]
    rfl
  simp only [Session.tick_clock, Session.tick_idents] at failed
  rw [begins]
  cases fails : life.failure (world.clock 1) (world.clock 2) (life.expiryReason (world.clock 0))
      (world.idents 0) with
  | error error =>
      rw [fails] at failed
      exact alone_stop_fst failed _
  | ok transition =>
      rw [fails] at failed
      exact (alone_then failed _).trans (alone_pure _ _)

/-! ## Supervision -/

/-- The renewal interval is absent or positive. -/
def RenewsPositively (renewForSeconds : Option Int) : Prop := ∀ seconds ∈ renewForSeconds, 0 < seconds

/-- Supervision starts with the context of the run. -/
theorem alone_superviseRun (shows_ : world.store.Shows space life) {run : RunRow}
    (member : run ∈ life.runs) {renewForSeconds : Option Int}
    (positive : RenewsPositively renewForSeconds) :
    alone space (superviseRun run.id renewForSeconds) world =
      if life.task.state = .cancelled ∨ run.state = .cancelled then (.ok .cancelled, world.tick)
      else match run.state with
        | .failed => (.ok (supervisedFailure run.failureReason), world.tick)
        | .completed => (.ok .completed, world.tick)
        | .sleeping => (.ok .suspended, world.tick)
        | .running => alone space (superviseRunning run.id renewForSeconds
            (.ofRows run life.task (world.clock 0))) world.tick
        | state => (.error (.unsupportedSupervisionState run.id state), world.tick) := by
  have accepted : ¬(renewForSeconds.map fun seconds => decide (seconds ≤ 0)) = some true := by
    cases renewForSeconds with
    | none => simp
    | some seconds =>
        have := positive seconds rfl
        simpa using this
  simp only [superviseRun, if_neg accepted]
  rw [alone_then (alone_lockAttemptContext_of_life shows_ member)]
  change alone space (if life.task.state = .cancelled ∨ run.state = .cancelled then
    pure RunSupervision.cancelled else _) world.tick = _
  by_cases cancelled : life.task.state = .cancelled ∨ run.state = .cancelled
  · rw [if_pos cancelled, if_pos cancelled, alone_pure]
  · rw [if_neg cancelled, if_neg cancelled]
    change alone space (match run.state with
      | .failed => pure (supervisedFailure run.failureReason)
      | .completed => pure RunSupervision.completed
      | .sleeping => pure RunSupervision.suspended
      | .running => superviseRunning run.id renewForSeconds (.ofRows run life.task (world.clock 0))
      | state => .raise (.unsupportedSupervisionState run.id state)) world.tick = _
    cases run.state <;> rfl

/-- What supervision does with a running run before its deadline. -/
def superviseInTime (runId : Uuid) (renewForSeconds : Option Int) (context : AttemptContext) :
    Sql RunSupervision :=
  match context.claimExpiresAt with
  | none => .raise (.noFiniteClaim runId)
  | some expiry =>
      if expiry ≤ context.observedAt then do
        let _ ← reapExpiredRun runId
        let visible ← snapshot
        return if (visible.findTask context.taskId).map TaskRow.state = some .cancelled
          then .cancelled else .leaseLost
      else
        match renewForSeconds with
        | none => return .running
        | some seconds => do
            if 2 * (expiry - context.observedAt) ≤ seconds * second then
              updateRun runId fun run => run.renew (context.observedAt + seconds * second)
            return .running

section Running

variable {renewForSeconds : Option Int}

/-- Supervision of a running last run starts with its deadline. -/
theorem alone_superviseRunning (shows_ : world.store.Shows space life)
    (running : life.last.state = .running) (observedAt : Timestamp) :
    alone space (superviseRunning life.last.id renewForSeconds
        (.ofRows life.last life.task observedAt)) world =
      match life.task.due (some observedAt) with
      | .error error => (.error error, world)
      | .ok true => (.ok .cancelled, world.tick.withStore
          ((Transition.cancel (world.clock 0)).write life world.store))
      | .ok false => alone space (superviseInTime life.last.id renewForSeconds
          (.ofRows life.last life.task observedAt)) world := by
  have isRunning : Transition.Running life.last.id life := ⟨rfl, running⟩
  have owner : (AttemptContext.ofRows life.last life.task observedAt).taskId = life.task.id :=
    shows_.valid.owned _ life.last_mem_runs
  have authoritative : ¬((AttemptContext.ofRows life.last life.task observedAt).taskState ≠ .running ∨
      (AttemptContext.ofRows life.last life.task observedAt).authoritativeRunId ≠ life.last.id) := by
    rintro (notRunning | other)
    · exact notRunning (isRunning.task_state shows_.valid)
    · exact other shows_.valid.pointed
  rw [superviseRunning, if_neg authoritative, alone_bind, alone_ofExcept, AttemptContext.due_ofRows,
    AttemptContext.observedAt_ofRows]
  cases life.task.due (some observedAt) with
  | error error => rfl
  | ok isDue =>
      cases isDue with
      | true =>
          simp only [if_true]
          rw [owner, alone_then (alone_cancelTask_of_running shows_ running)]
          rfl
      | false => rfl

/-- Supervision of a task that is running. -/
theorem alone_superviseRun_of_running (shows_ : world.store.Shows space life)
    (running : life.last.state = .running) (positive : RenewsPositively renewForSeconds) :
    alone space (superviseRun life.last.id renewForSeconds) world =
      match life.task.due (some (world.clock 0)) with
      | .error error => (.error error, world.tick)
      | .ok true => (.ok .cancelled, world.tick.tick.withStore
          ((Transition.cancel (world.clock 1)).write life world.store))
      | .ok false => alone space (superviseInTime life.last.id renewForSeconds
          (.ofRows life.last life.task (world.clock 0))) world.tick := by
  have isRunning : Transition.Running life.last.id life := ⟨rfl, running⟩
  have notCancelled : ¬(life.task.state = .cancelled ∨ life.last.state = .cancelled) := by
    rw [isRunning.task_state shows_.valid, running]
    decide
  have ticked : world.tick.store.Shows space life := shows_
  have begins := alone_superviseRun shows_ life.last_mem_runs positive
  rw [if_neg notCancelled] at begins
  simp only [running] at begins
  rw [alone_superviseRunning ticked running] at begins
  exact begins

/-- A leased run is supervised as running. -/
theorem alone_superviseInTime_leased (shows_ : world.store.Shows space life)
    (running : life.last.state = .running) {observedAt : Timestamp}
    (leased : Transition.Leased observedAt life) :
    (alone space (superviseInTime life.last.id renewForSeconds
        (.ofRows life.last life.task observedAt)) world).1 = .ok .running := by
  obtain ⟨expiry, isExpiry, early⟩ := leased
  have isContext : (AttemptContext.ofRows life.last life.task observedAt).claimExpiresAt =
    some expiry := isExpiry
  simp only [superviseInTime, isContext, AttemptContext.observedAt_ofRows, not_le.mpr early, if_false]
  cases renewForSeconds with
  | none => rfl
  | some seconds =>
      by_cases half : 2 * (expiry - observedAt) ≤ seconds * second
      · have checked := RunRow.check_renew (shows_.valid.runsChecked _ life.last_mem_runs) running
          (observedAt + seconds * second)
        simp only [half, if_true]
        rw [alone_then (alone_updateRun_last shows_ rfl checked)]
        rfl
      · simp only [half, if_false]
        rfl

/-- The supervision of a run that was just reaped. -/
def Queue.supervisedExpiry (queue : Queue) (task : Uuid) : RunSupervision :=
  if (queue.findTask task).map TaskRow.state = some .cancelled then .cancelled else .leaseLost

theorem Queue.supervisedExpiry_ne_running (queue : Queue) (task : Uuid) :
    queue.supervisedExpiry task ≠ .running := by
  unfold supervisedExpiry
  split <;> decide

/-- Supervision of an expired run reaps it. -/
theorem alone_superviseInTime_expired {observedAt : Timestamp}
    (expired : expiredAt observedAt life.last = true) :
    alone space (superviseInTime life.last.id renewForSeconds
        (.ofRows life.last life.task observedAt)) world =
      match alone space (reapExpiredRun life.last.id) world with
      | (.error error, after) => (.error error, after)
      | (.ok _, after) => (.ok (after.store.supervisedExpiry life.last.taskId), after) := by
  obtain ⟨expiry, isExpiry, late⟩ : ∃ expiry, life.last.claimExpiresAt = some expiry ∧
      expiry ≤ observedAt := by
    unfold expiredAt at expired
    cases isExpiry : life.last.claimExpiresAt <;> simp_all
  have isContext : (AttemptContext.ofRows life.last life.task observedAt).claimExpiresAt =
    some expiry := isExpiry
  simp only [superviseInTime, isContext, AttemptContext.observedAt_ofRows, late, if_true, alone_bind,
    alone_snapshot]
  rcases alone space (reapExpiredRun life.last.id) world with ⟨_ | _, _⟩ <;> rfl

end Running

end Steda
