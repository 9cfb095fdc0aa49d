import Steda.Serial.Calls
import Steda.History
import Steda.Serial.Sweeps

/-!
# Failing a running attempt

`fail_run` and `reap_expired_run` end a running attempt whenever its deadline
evaluates, unless the deadline is not due and the attempt has the largest number
an integer column can hold: the next attempt number is computed before it is
compared with the budget.
-/

namespace Steda

open Postgres Transaction Relational

variable {space : Char → Bool} {life : Life} {world : World}

/-! ## When an attempt can be failed -/

/-- The deadline of the task is due, or it evaluates and the attempt has a
successor in 32-bit arithmetic. -/
def Life.Failable (life : Life) (observedAt : Timestamp) : Prop :=
  life.task.due (some observedAt) = .ok true ∨
    (life.task.due (some observedAt) = .ok false ∧ life.last.attempt < maxInteger)

/-- A deadline that evaluates at a time evaluates at every time. -/
theorem TaskRow.due_evaluates {task : TaskRow} {observedAt : Option Timestamptz} {isDue : Bool}
    (evaluated : task.due observedAt = .ok isDue) (time : Option Timestamptz) :
    ∃ isDueThen, task.due time = .ok isDueThen := by
  unfold TaskRow.due cancellationDue at evaluated ⊢
  split at evaluated
  · exact ⟨false, rfl⟩
  · obtain ⟨bound, isBound, _⟩ := except_bind_ok.mp evaluated
    exact ⟨_, except_bind_ok.mpr ⟨bound, isBound, rfl⟩⟩
  · obtain ⟨bound, isBound, _⟩ := except_bind_ok.mp evaluated
    exact ⟨_, except_bind_ok.mpr ⟨bound, isBound, rfl⟩⟩

section Failure

variable {observedAt nowAt : Timestamp} {reason : Json} {newRun : Uuid}

/-- In time an attempt fails exactly when its number has a successor. -/
theorem Life.failureInTime_ok_iff (valid : life.Valid space)
    (notDue : life.task.due (some observedAt) = .ok false) :
    (∃ transition, life.failureInTime observedAt nowAt reason newRun = .ok transition) ↔
      life.last.attempt < maxInteger := by
  unfold failureInTime
  rcases integerSucc_cases life.last.attempt with ⟨large, overflow⟩ | ⟨small, next⟩
  · simp [overflow, not_lt.mpr large]
  · refine iff_of_true ?_ small
    simp only [next]
    split
    · obtain ⟨availableAt, computed⟩ := nextAvailableAt_ok valid observedAt
      obtain ⟨isDueThen, evaluated⟩ := life.task.due_evaluates notDue (some availableAt)
      simp only [computed, evaluated]
      cases isDueThen with
      | true => exact ⟨_, rfl⟩
      | false => exact ⟨_, rfl⟩
    · exact ⟨_, rfl⟩

/-- An attempt fails exactly when it can be failed. -/
theorem Life.failure_ok_iff (valid : life.Valid space) :
    (∃ transition, life.failure observedAt nowAt reason newRun = .ok transition) ↔
      life.Failable observedAt := by
  unfold failure Failable
  cases due : life.task.due (some observedAt) with
  | error error => simp
  | ok isDue =>
      cases isDue with
      | true => simp
      | false => simpa using Life.failureInTime_ok_iff valid due

/-- The run of a failed attempt is failed or cancelled. -/
theorem Life.failure_ends {queue : Queue} {transition : Transition}
    (shows_ : queue.Shows space life) (running : life.last.state = .running)
    (fails : life.failure observedAt nowAt reason newRun = .ok transition)
    (fresh : transition.Fresh queue) :
    ∃ run, (transition.write life queue).findRun life.last.id = some run ∧
      (run.state = .failed ∨ run.state = .cancelled) := by
  have written := shows_.write (Life.failure_enabled running shows_.valid fails) fresh
  obtain ⟨run, member, same, ended⟩ := Life.ended_of_failure fails
  exact ⟨run, same ▸ written.findRun member, ended⟩

end Failure

/-! ## The two calls -/

/-- A call returns and leaves a run failed or cancelled. -/
def Operation.Ends (space : Char → Bool) (operation : Operation) (world : World)
    (runId : Uuid) : Prop :=
  ∃ result after run, operation.perform space world = (.ok result, after) ∧
    after.store.findRun runId = some run ∧ (run.state = .failed ∨ run.state = .cancelled)

/-- Only the reaper's own flag asks for an expired lease. -/
theorem runningAttemptChecks_unexpired {runId : Uuid} {expectExpired : Option Bool}
    (expects : expectExpired ≠ some true) (context : AttemptContext) :
    runningAttemptChecks runId expectExpired context =
      runningAttemptChecks runId (some false) context := by
  have other : ¬(some false = some true) := by decide
  simp only [runningAttemptChecks, if_neg expects, if_neg other]

theorem lockRunningAttempt_unexpired {runId : Uuid} {expectExpired : Option Bool}
    (expects : expectExpired ≠ some true) :
    lockRunningAttempt runId expectExpired = lockRunningAttempt runId (some false) := by
  unfold lockRunningAttempt
  simp only [runningAttemptChecks_unexpired expects]

/-- A stored function that makes the transition of a failed attempt, or raises
where there is none, ends the attempt exactly when it can be failed. -/
theorem Operation.ends_iff {operation : Operation} {observedAt nowAt : Timestamp}
    {reason : Json} {result : operation.Result} {before : World} (ready : world.Ready space)
    (shows_ : world.store.Shows space life) (running : life.last.state = .running)
    (performs : match life.failure observedAt nowAt reason (world.idents 0) with
      | .error error => (alone space (operation.program space) world).1 = .error error
      | .ok transition => alone space (operation.program space) world =
          (.ok result, (transition.spent before).withStore (transition.write life world.store))) :
    operation.Ends space world life.last.id ↔ life.Failable observedAt := by
  rw [← Life.failure_ok_iff shows_.valid]
  cases fails : life.failure observedAt nowAt reason (world.idents 0) with
  | error error =>
      rw [fails] at performs
      obtain ⟨after, performed, _⟩ := Operation.perform_raised ready performs
      refine iff_of_false ?_ (by simp)
      rintro ⟨other, later, run, returned, _⟩
      rw [performed] at returned
      cases returned
  | ok transition =>
      rw [fails] at performs
      refine iff_of_true ?_ ⟨transition, rfl⟩
      obtain ⟨run, found, ended⟩ :=
        Life.failure_ends shows_ running fails (ready.fresh_failure fails)
      exact ⟨_, _, run, Operation.perform_returned ready.sound performs, found, ended⟩

theorem alone_failRun_leased (ready : world.Ready space) (shows_ : world.store.Shows space life)
    (running : life.last.state = .running) (leased : expiredAt (world.clock 0) life.last = false)
    (reason : Json) {expectExpired : Option Bool} (expects : expectExpired ≠ some true) :
    match life.failure (world.clock 0) (world.clock 1) reason (world.idents 0) with
    | .error error =>
        (alone space (failRun life.last.id (some reason) expectExpired) world).1 = .error error
    | .ok transition => alone space (failRun life.last.id (some reason) expectExpired) world =
        (.ok (), (transition.spent world.tick).withStore (transition.write life world.store)) := by
  have passes : life.last.gate (world.clock 0) = .ok () := by
    simp [RunRow.gate, running, leased]
  refine alone_failRun shows_ ?_ running reason (ready.unused 0)
  rw [lockRunningAttempt_unexpired expects]
  exact alone_gate_passed shows_ passes

/-- On the authoritative running run of any task of a sound queue, `fail_run`
under a valid lease and `reap_expired_run` after an expired one leave the run
failed or cancelled exactly when the deadline is due, or it evaluates and the
number of the attempt is below the largest integer. -/
theorem failing_possible (ready : world.Ready space) (shows_ : world.store.Shows space life)
    (running : life.last.state = .running) :
    (∀ reason expectExpired, expectExpired ≠ some true →
      expiredAt (world.clock 0) life.last = false →
        ((Operation.failRun life.last.id (some reason) expectExpired).Ends space world
          life.last.id ↔ life.Failable (world.clock 0))) ∧
      (world.Expires life.last →
        ((Operation.reapExpiredRun life.last.id).Ends space world life.last.id ↔
          life.Failable (world.clock 1))) := by
  refine ⟨?_, ?_⟩
  · intro reason expectExpired expects leased
    exact Operation.ends_iff ready shows_ running
      (alone_failRun_leased ready shows_ running leased reason expects)
  · intro expires
    exact Operation.ends_iff ready shows_ running
      (alone_reapExpiredRun shows_ (expires 0) (expires 1) (ready.unused 0))

/-! ## A task at its last attempt -/

/-- The runs of a task whose attempts have all failed but the last. -/
def crowdedRun (attempts number : Nat) : RunRow where
  id := number
  taskId := 1
  attempt := number
  state := if number = attempts then .running else .failed
  claimedBy := if number = attempts then some "worker" else none
  claimExpiresAt := if number = attempts then some second else none
  availableAt := .point 0
  startedAt := some 0
  completedAt := none
  failedAt := if number = attempts then none else some 0
  result := none
  failureReason := if number = attempts then none else some .null

/-- A task with a budget of as many attempts as it has made. -/
def crowdedTask (attempts : Nat) : TaskRow where
  id := 1
  name := "crowded"
  params := .null
  headers := none
  retryStrategy := .object [("kind", .string "none")]
  initialMaxAttempts := attempts
  maxAttempts := attempts
  cancellation := none
  enqueueAt := 0
  firstStartedAt := some 0
  state := .running
  attempts := attempts
  lastAttemptRun := attempts
  cancelledAt := none
  idempotencyKey := none

/-- The life of the crowded task. -/
def crowdedLife (earlier : Nat) : Life where
  task := crowdedTask (earlier + 1)
  history := (List.range' 1 earlier).map (crowdedRun (earlier + 1))
  last := crowdedRun (earlier + 1) (earlier + 1)

/-- A queue with the crowded task only. -/
def crowdedQueue (earlier : Nat) : Queue where
  tasks := [crowdedTask (earlier + 1)]
  runs := (crowdedLife earlier).runs
  checkpoints := []
  cleanupTtl := 0
  cleanupLimit := 1

theorem crowdedLife_runs (earlier : Nat) :
    (crowdedLife earlier).runs = (List.range' 1 (earlier + 1)).map (crowdedRun (earlier + 1)) := by
  rw [List.range'_concat, List.map_append, one_mul, Nat.add_comm 1 earlier]
  rfl

theorem crowdedRun_check (attempts number : Nat) (numbered : 1 ≤ number) :
    (crowdedRun attempts number).check asciiSpace = .ok () := by
  rw [RunRow.check_ok]
  by_cases isLast : number = attempts
  · refine ⟨numbered, ?_, ?_, ?_⟩
    · simp [crowdedRun, isLast]
    · simp [crowdedRun, isLast]
    · simp [crowdedRun, isLast, RunRow.leaseMatchesState]
      decide
  · refine ⟨numbered, ?_, ?_, ?_⟩
    · simp [crowdedRun, isLast]
    · simp [crowdedRun, isLast]
    · simp [crowdedRun, isLast, RunRow.leaseMatchesState]

theorem crowdedLife_valid (earlier : Nat) : (crowdedLife earlier).Valid asciiSpace where
  owned := by
    rw [crowdedLife_runs]
    intro run member
    obtain ⟨number, _, rfl⟩ := List.mem_map.mp member
    rfl
  numbered := by
    rw [crowdedLife_runs, List.map_map]
    exact List.map_id _
  pointed := rfl
  historyFailed := by
    intro run member
    obtain ⟨number, inRange, rfl⟩ := List.mem_map.mp member
    have bound := List.mem_range'_1.mp inRange
    exact if_neg (by omega)
  agrees := .inl (if_pos rfl).symm
  withinBudget := le_rfl
  taskChecked := by
    rw [TaskRow.check_ok]
    have named : ¬isBlank asciiSpace "crowded" ∧ "crowded".utf8ByteSize ≤ maxNameBytes := by
      decide
    refine ⟨⟨named, rfl, ⟨0, rfl, le_rfl⟩, Nat.le_add_left _ _, by simp [crowdedLife,
      crowdedTask]⟩, le_rfl, by simp [crowdedLife, crowdedTask]⟩
  runsChecked := by
    rw [crowdedLife_runs]
    intro run member
    obtain ⟨number, inRange, rfl⟩ := List.mem_map.mp member
    exact crowdedRun_check _ _ (List.mem_range'_1.mp inRange).1
  neverClaimed := by
    refine iff_of_false (by simp [crowdedLife, crowdedTask]) fun unstarted => ?_
    have started := unstarted _ (Life.last_mem_runs _)
    cases started
  unstarted := by simp [crowdedLife, crowdedTask]

theorem crowdedQueue_rows (earlier : Nat) :
    (crowdedQueue earlier).rowsOf 1 = Life.rows (some (crowdedLife earlier)) := by
  have every : (crowdedQueue earlier).runsOf 1 = (crowdedLife earlier).runs := by
    refine List.filter_eq_self.mpr fun run member => ?_
    exact decide_eq_true ((crowdedLife_valid earlier).owned run member)
  exact congrArg (Rows.mk _) every

theorem crowdedQueue_sound (earlier : Nat) : (crowdedQueue earlier).Sound asciiSpace where
  keyed := by
    refine ⟨List.nodup_singleton _, ?_, List.nodup_nil⟩
    change ((crowdedLife earlier).runs.map RunRow.id).Nodup
    rw [crowdedLife_runs, List.map_map]
    exact (List.map_id (List.range' 1 (earlier + 1))).symm ▸ List.nodup_range'
  lives := by
    intro task
    by_cases own : task = 1
    · subst own
      refine ⟨_, crowdedQueue_rows earlier, ?_⟩
      intro life isLife
      cases isLife
      exact ⟨crowdedLife_valid earlier, rfl⟩
    · refine ⟨none, ?_, by simp [Lives]⟩
      have noTask : (crowdedQueue earlier).findTask task = none :=
        find_eq_none.mpr fun row member => by
          rw [List.mem_singleton.mp member]
          exact Ne.symm own
      have noRuns : (crowdedQueue earlier).runsOf task = [] := by
        refine List.filter_eq_nil_iff.mpr fun run member => ?_
        have owner := (crowdedLife_valid earlier).owned run member
        simp only [decide_eq_true_eq]
        exact fun same => own (same.symm.trans owner)
      exact congrArg₂ Rows.mk noTask noRuns

/-- The world of a crowded task at a constant time. -/
def crowdedWorld (earlier : Nat) (time : Timestamp) : World where
  store := crowdedQueue earlier
  clock := fun _ => time
  idents := fun position => earlier + 2 + position

theorem crowdedWorld_ready (earlier : Nat) (time : Timestamp) :
    World.Ready asciiSpace (crowdedWorld earlier time) where
  sound := crowdedQueue_sound earlier
  distinct := fun _ _ same => Nat.add_left_cancel same
  unused := by
    intro position
    refine find_eq_none.mpr fun run member => ?_
    change run ∈ (crowdedLife earlier).runs at member
    rw [crowdedLife_runs] at member
    obtain ⟨number, inRange, rfl⟩ := List.mem_map.mp member
    have bound := List.mem_range'_1.mp inRange
    change number ≠ earlier + 2 + position
    omega

theorem crowdedWorld_shows (earlier : Nat) (time : Timestamp) :
    (crowdedWorld earlier time).store.Shows asciiSpace (crowdedLife earlier) :=
  ⟨(crowdedQueue_sound earlier).keyed, crowdedLife_valid earlier, crowdedQueue_rows earlier⟩

theorem crowdedLife_running (earlier : Nat) : (crowdedLife earlier).last.state = .running :=
  if_pos rfl

theorem crowdedLife_leased (earlier : Nat) : expiredAt 0 (crowdedLife earlier).last = false := by
  simp [expiredAt, crowdedLife, crowdedRun, second]

theorem crowdedLife_expires (earlier : Nat) :
    (crowdedWorld earlier second).Expires (crowdedLife earlier).last := by
  intro position
  simp [expiredAt, crowdedLife, crowdedRun, crowdedWorld]

/-- The first attempt of a task with a budget of one can be failed. -/
theorem failing_possible_first :
    (Operation.failRun 1 (some .null) (some false)).Ends asciiSpace (crowdedWorld 0 0) 1 ∧
      (Operation.reapExpiredRun 1).Ends asciiSpace (crowdedWorld 0 second) 1 := by
  have early := (failing_possible (crowdedWorld_ready 0 0) (crowdedWorld_shows 0 0)
    (crowdedLife_running 0)).1
  have late := (failing_possible (crowdedWorld_ready 0 second) (crowdedWorld_shows 0 second)
    (crowdedLife_running 0)).2
  exact ⟨(early .null (some false) (by decide) (crowdedLife_leased 0)).mpr
      (.inr ⟨rfl, by decide⟩),
    (late (crowdedLife_expires 0)).mpr (.inr ⟨rfl, by decide⟩)⟩

/-- The last attempt of a task with the largest budget cannot be failed, neither
by its worker nor by the reaper. -/
theorem failing_possible_largest :
    ∃ earlier, (crowdedTask (earlier + 1)).maxAttempts = maxInteger ∧
      (crowdedTask (earlier + 1)).cancellation = none ∧
      (crowdedLife earlier).last.attempt = maxInteger ∧
      (crowdedLife earlier).last.state = .running ∧
      (crowdedWorld earlier 0).Ready asciiSpace ∧
      (crowdedWorld earlier 0).store.Shows asciiSpace (crowdedLife earlier) ∧
      ¬(Operation.failRun (crowdedLife earlier).last.id (some .null) (some false)).Ends
        asciiSpace (crowdedWorld earlier 0) (crowdedLife earlier).last.id ∧
      ¬(Operation.reapExpiredRun (crowdedLife earlier).last.id).Ends asciiSpace
        (crowdedWorld earlier second) (crowdedLife earlier).last.id := by
  obtain ⟨earlier, isLargest⟩ : ∃ earlier, earlier + 1 = maxInteger := ⟨2147483646, rfl⟩
  have stuck : ∀ time, ¬(crowdedLife earlier).Failable time := by
    rintro time (isDue | ⟨_, small⟩)
    · cases isDue
    · exact lt_irrefl _ (isLargest ▸ small)
  have early := (failing_possible (crowdedWorld_ready earlier 0) (crowdedWorld_shows earlier 0)
    (crowdedLife_running earlier)).1
  have late := (failing_possible (crowdedWorld_ready earlier second)
    (crowdedWorld_shows earlier second) (crowdedLife_running earlier)).2
  refine ⟨earlier, isLargest, rfl, isLargest, crowdedLife_running earlier,
    crowdedWorld_ready earlier 0, crowdedWorld_shows earlier 0, ?_, ?_⟩
  · rw [early .null (some false) (by decide) (crowdedLife_leased earlier)]
    exact stuck _
  · rw [late (crowdedLife_expires earlier)]
    exact stuck _

end Steda
