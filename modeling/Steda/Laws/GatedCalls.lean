import Steda.Laws.HeldRuns
import Steda.Serial.Failure

/-!
# The lock order of calls on one run

Most calls lock one run, then its task, and go on only when the run is active.
From then on the run is reserved, so whatever they do to the task they do with
its active run locked.
-/

namespace Steda

open Postgres Transaction Relational

variable {space : Char → Bool} {tx after last : Tx} {task run : Uuid}

/-! ## Locking a row and going on -/

section Locking

variable {α : Type} {rely : Rely RowKey Queue} {past : List Exchange} {value : α}
variable {id : Uuid} {policy : LockPolicy}

/-- Inversion of a program that begins with the lock of a run. -/
theorem Amid.lockRun_bind {next : Option RunRow → Sql α}
    (conduct : Amid (storage space) rely (lockRun id policy >>= next) tx past (.done value) last) :
    ∃ store answer after late, rely.moves tx.held tx.committed store ∧
      Answered (storage space) (.lock (.run id) policy) (tx.withCommitted store) answer after ∧
      Amid (storage space) rely (next (answer.bind fun queue => queue.findRun id)) after late
        (.done value) last := by
  have whole : Amid (storage space) rely (.perform (.lock (.run id) policy) fun newest =>
    next (newest.bind fun queue => queue.findRun id)) tx past (.done value) last := conduct
  rcases whole.perform_cases with ⟨_, impossible⟩ |
    ⟨store, answer, after, late, moves, answered, _, remaining⟩
  · cases impossible
  · exact ⟨store, answer, after, late, moves, answered, remaining⟩

/-- Inversion of a program that begins with the lock of a task. -/
theorem Amid.lockTask_bind {next : Option TaskRow → Sql α}
    (conduct : Amid (storage space) rely (lockTask id policy >>= next) tx past (.done value) last) :
    ∃ store answer after late, rely.moves tx.held tx.committed store ∧
      Answered (storage space) (.lock (.task id) policy) (tx.withCommitted store) answer after ∧
      Amid (storage space) rely (next (answer.bind fun queue => queue.findTask id)) after late
        (.done value) last := by
  have whole : Amid (storage space) rely (.perform (.lock (.task id) policy) fun newest =>
    next (newest.bind fun queue => queue.findTask id)) tx past (.done value) last := conduct
  rcases whole.perform_cases with ⟨_, impossible⟩ |
    ⟨store, answer, after, late, moves, answered, _, remaining⟩
  · cases impossible
  · exact ⟨store, answer, after, late, moves, answered, remaining⟩

end Locking

/-! ## The gate -/

/-- The context of a run once the run is locked. -/
abbrev contextOf (run : RunRow) (runId : Uuid) : Sql AttemptContext := do
  match ← lockTask run.taskId .wait with
  | none => .raise (.taskForRunNotFound run.taskId runId)
  | some task =>
      let observedAt ← currentTime
      return AttemptContext.ofRows run task observedAt

/-- What `lock_attempt_context` does with the locked run. -/
abbrev contextOf? (runId : Uuid) : Option RunRow → Sql AttemptContext
  | none => .raise (.runNotFound runId)
  | some run => contextOf run runId

theorem lockAttemptContext_eq (runId : Uuid) :
    lockAttemptContext runId = lockRun runId .wait >>= contextOf? runId := rfl

section Gate

variable {past : List Exchange}

/-- The context is that of the locked run. -/
theorem contextOf_done {row : RunRow} {context : AttemptContext}
    (conduct : Amid (storage space) (upkeep space) (contextOf row run) tx past (.done context)
      last) : ∃ task observedAt, context = AttemptContext.ofRows row task observedAt := by
  obtain ⟨store, answer, after, late, _, _, remaining⟩ := Amid.lockTask_bind conduct
  cases seen : answer.bind fun queue => queue.findTask row.taskId with
  | none =>
      rw [seen] at remaining
      cases remaining.raise_cases.2
  | some task =>
      rw [seen] at remaining
      obtain ⟨observedAt, between, _, _, _, _, returned⟩ := remaining.bind_done
      cases returned.done_cases.2
      exact ⟨task, observedAt, rfl⟩

/-- The gate has locked the run it tells about. -/
theorem lockAttemptContext_done {context : AttemptContext}
    (conduct : Amid (storage space) (upkeep space) (lockAttemptContext run) tx past (.done context)
      last) :
    ∃ store row late, (upkeep space).moves tx.held tx.committed store ∧
      (Tx.queue (tx.withCommitted store)).findRun run = some row ∧
      context.taskId = row.taskId ∧ context.runState = row.state ∧
      Amid (storage space) (upkeep space) (contextOf row run)
        ((tx.withCommitted store).hold [.run run]) late (.done context) last := by
  rw [lockAttemptContext_eq] at conduct
  obtain ⟨store, answer, after, late, moves, answered, remaining⟩ := Amid.lockRun_bind conduct
  cases seen : answer.bind fun queue => queue.findRun run with
  | none =>
      rw [seen] at remaining
      cases remaining.raise_cases.2
  | some row =>
      rw [seen] at remaining
      cases answered with
      | missed missing => cases seen
      | locked present =>
          obtain ⟨task, observedAt, isContext⟩ := contextOf_done remaining
          exact ⟨store, row, late, moves, seen, by rw [isContext]; rfl, by rw [isContext]; rfl,
            remaining⟩

/-- A transaction that has written nothing has reserved the active run whose
context it has locked. -/
theorem lockAttemptContext_reserves {context : AttemptContext} (unwritten : tx.log = [])
    (conduct : Amid (storage space) (upkeep space) (lockAttemptContext run) tx past (.done context)
      last) (active : context.runState.active = true) : last.Reserves context.taskId run := by
  obtain ⟨store, row, late, moves, found, isTask, isState, remaining⟩ :=
    lockAttemptContext_done conduct
  rw [@Tx.queue_of_unwritten (tx.withCommitted store) unwritten] at found
  rw [isState] at active
  rw [isTask]
  refine Tx.Reserves.amid ?_ remaining
  exact ⟨List.mem_cons_self, row, found, rfl, active⟩

/-- The context of a reserved run tells its task. -/
theorem Tx.Reserves.sameTask {context : AttemptContext} (reserves : tx.Reserves task run)
    (retains : tx.Retains)
    (conduct : Amid (storage space) (upkeep space) (lockAttemptContext run) tx past (.done context)
      last) : context.taskId = task := by
  obtain ⟨store, row, late, moves, found, isTask, _⟩ := lockAttemptContext_done conduct
  rw [isTask]
  exact (reserves.moved moves).owner retains found

theorem issues_contextOf {allowed : Command RowKey Change → Prop} (row : RunRow)
    (locks : allowed (.lock (.task row.taskId) .wait)) (reads : allowed .clock) :
    (contextOf row run).Issues allowed :=
  issues_lockTask_bind locks (Program.issues_raise _) fun _ _ =>
    Program.issues_bind (Program.issues_issue reads) fun _ => Program.issues_pure _

/-- A transaction that holds nothing may lock a run and then its task. -/
theorem keepsOrder_lockAttemptContext (empty : tx.held = []) :
    KeepsOrder space (lockAttemptContext run) tx := by
  refine Program.respects_perform (fun _ _ => Or.inr empty) fun store answer after moves _ => ?_
  change Program.Respects (storage space) (upkeep space) Tx.Orderly
    (contextOf? run (answer.bind fun queue => queue.findRun run)) after
  cases answer.bind fun queue => queue.findRun run with
  | none => exact Program.respects_raise _
  | some row =>
      exact Program.respects_of_issues (issues_contextOf row (fun _ => trivial) fun _ => trivial)
        fun tx command (always : ∀ tx : Tx, tx.Orderly command) => always tx

/-- A transaction that has reserved a run may lock it and its task again. -/
theorem Tx.Reserves.lockAttemptContext (reserves : tx.Reserves task run)
    (steady : Steady space tx) : StaysClosed space (lockAttemptContext run) tx := by
  refine Program.respects_perform (fun _ _ => Or.inl reserves.1)
    fun store answer after moves answered => ?_
  have guarded : Guarded space task after :=
    ((reserves.moved moves).guarded (steady.moved moves)).answered answered
  change StaysClosed space (contextOf? run (answer.bind fun queue => queue.findRun run)) after
  cases seen : answer.bind fun queue => queue.findRun run with
  | none => exact Program.respects_raise _
  | some row =>
      have isTask : row.taskId = task := by
        cases answered with
        | missed missing => cases seen
        | locked present => exact (reserves.moved moves).owner steady.retains seen
      exact staysClosed_of_issues (issues_contextOf row isTask trivial) (List.Subset.refl _) guarded

end Gate

/-! ## Behind the gate -/

/-- The program is secure with the context of a reserved run. -/
def SecureFor (space : Char → Bool) (run : Uuid) {α : Type} (next : AttemptContext → Sql α) :
    Prop :=
  ∀ context tx, Steady space tx → Tx.Reserves tx context.taskId run →
    StaysClosed space (next context) tx

section Behind

variable {α : Type} {next : AttemptContext → Sql α} {expectExpired : Option Bool}

theorem staysClosed_ofExcept_bind {β : Type} {outcome : Except SqlError β} {next : β → Sql α}
    (later : ∀ value, outcome = .ok value → StaysClosed space (next value) tx) :
    StaysClosed space (Program.ofExcept outcome >>= next) tx := by
  cases outcome with
  | error error => exact Program.respects_raise _
  | ok value => exact later value rfl

/-- The checks of the gate let only active runs pass. -/
theorem active_of_checks {context : AttemptContext}
    (passed : runningAttemptChecks run expectExpired context = .ok ()) :
    context.runState.active = true := by
  rw [(runningAttemptChecks_ok.mp passed).1]
  rfl

theorem lockRunningAttempt_done {past : List Exchange} {context : AttemptContext}
    (conduct : Amid (storage space) (upkeep space) (lockRunningAttempt run expectExpired) tx past
      (.done context) last) :
    ∃ early between late, Amid (storage space) (upkeep space) (lockAttemptContext run) tx early
        (.done context) between ∧ context.runState.active = true ∧
      Amid (storage space) (upkeep space) (Program.ofExcept (runningAttemptChecks run expectExpired
        context) >>= fun _ => pure context) between late (.done context) last := by
  obtain ⟨locked, between, early, late, _, first, second⟩ := conduct.bind_done
  obtain ⟨_, _, _, _, _, checked, returned⟩ := second.bind_done
  cases returned.done_cases.2
  refine ⟨early, between, late, first, ?_, second⟩
  cases passed : runningAttemptChecks run expectExpired context with
  | error error =>
      rw [passed] at checked
      cases checked.raise_cases.2
  | ok => exact active_of_checks passed

theorem respects_lockRunningAttempt {guard : Tx → Command RowKey Change → Prop}
    (respects : (lockAttemptContext run).Respects (storage space) (upkeep space) guard tx) :
    (lockRunningAttempt run expectExpired).Respects (storage space) (upkeep space) guard tx :=
  respects.bind fun _ _ _ _ => (Program.respects_ofExcept _).bind fun _ _ _ _ =>
    Program.respects_done _

theorem Steady.amid {program rest : Sql α} {past : List Exchange} (steady : Steady space tx)
    (keeps : KeepsOrder space program tx)
    (conduct : Amid (storage space) (upkeep space) program tx past rest last) : Steady space last :=
  conduct.upholds keeps (fun _ _ steady moved => steady.moved moved)
    (fun orderly steady answered => steady.answered orderly answered) steady

/-- A call that begins with the gate keeps the lock order. -/
theorem SecureFor.keepsOrder (secure : SecureFor space run next) (steady : Steady space tx)
    (empty : tx.held = []) (unwritten : tx.log = []) :
    KeepsOrder space (lockRunningAttempt run expectExpired >>= next) tx := by
  have gate : KeepsOrder space (lockRunningAttempt run expectExpired) tx :=
    respects_lockRunningAttempt (keepsOrder_lockAttemptContext empty)
  refine gate.bind fun context past between conduct => ?_
  obtain ⟨early, middle, late, first, active, second⟩ := lockRunningAttempt_done conduct
  have reserves := (lockAttemptContext_reserves unwritten first active).amid second
  exact (secure context between (steady.amid gate conduct) reserves).keepsOrder

/-- A function that begins with the gate of a reserved run is secure. -/
theorem SecureFor.staysClosed (secure : SecureFor space run next) (steady : Steady space tx)
    (reserves : tx.Reserves task run) :
    StaysClosed space (lockRunningAttempt run expectExpired >>= next) tx := by
  have gate : StaysClosed space (lockRunningAttempt run expectExpired) tx :=
    respects_lockRunningAttempt (reserves.lockAttemptContext steady)
  refine gate.bind fun context past between conduct => ?_
  obtain ⟨early, middle, late, first, active, second⟩ := lockRunningAttempt_done conduct
  have isTask := reserves.sameTask steady.retains first
  refine secure context between (steady.amid gate.keepsOrder conduct) ?_
  rw [isTask]
  exact reserves.amid conduct

/-- The task of a reserved run is cancelled if its deadline is due. -/
theorem Tx.Reserves.unlessDue {due : Except SqlError Bool} {value : α} {program : Sql α}
    (reserves : tx.Reserves task run) (steady : Steady space tx)
    (later : StaysClosed space program tx) :
    StaysClosed space (do
      if ← Program.ofExcept due then
        let _ ← cancelTask task
        return value
      program) tx := by
  refine staysClosed_ofExcept_bind fun isDue _ => ?_
  cases isDue with
  | true =>
      exact (staysClosed_cancelTask ⟨steady, reserves.guarded steady⟩).bind fun _ _ _ _ =>
        Program.respects_done _
  | false => exact later

/-- What keeps to the task of a reserved run is secure. -/
theorem Tx.Reserves.staysClosed {program : Sql α} (reserves : tx.Reserves task run)
    (steady : Steady space tx) (issues : program.Issues (KeepsTo [.run run] task)) :
    StaysClosed space program tx :=
  staysClosed_of_issues issues (by simpa using reserves.1) (reserves.guarded steady)

theorem keepsOrder_completeRun (steady : Steady space tx) (empty : tx.held = [])
    (unwritten : tx.log = []) (result : Option Json) :
    KeepsOrder space (completeRun run result) tx := by
  refine SecureFor.keepsOrder (fun context tx steady reserves => ?_) steady empty unwritten
  refine reserves.unlessDue steady (reserves.staysClosed steady ?_)
  refine Program.issues_bind (keepsTo_updateRun (fun _ => rfl) List.mem_cons_self) fun _ => ?_
  exact Program.issues_bind (keepsTo_updateTask fun _ => rfl) fun _ => Program.issues_pure _

theorem keepsOrder_scheduleRun (steady : Steady space tx) (empty : tx.held = [])
    (unwritten : tx.log = []) (wakeAt : Option Timestamptz) :
    KeepsOrder space (scheduleRun run wakeAt) tx := by
  refine SecureFor.keepsOrder (fun context tx steady reserves => ?_) steady empty unwritten
  refine reserves.unlessDue steady ?_
  cases wakeAt with
  | none => exact Program.respects_raise _
  | some wakeAt =>
      dsimp only
      split
      · exact Program.respects_done _
      · refine reserves.staysClosed steady ?_
        refine Program.issues_bind (keepsTo_updateRun (fun _ => rfl) List.mem_cons_self) fun _ => ?_
        exact Program.issues_bind (keepsTo_updateTask fun _ => rfl) fun _ => Program.issues_pure _

/-! ## Failures -/

/-- What `fail_run` does behind the gate. -/
abbrev failOwned (runId : Uuid) (reason : Option Json) (context : AttemptContext) : Sql Unit := do
  if ← Program.ofExcept (context.due context.observedAt) then
    let _ ← cancelTask context.taskId
    return ()
  failInTime runId reason context

theorem failRun_eq (runId : Uuid) (reason : Option Json) (expectExpiredLease : Option Bool) :
    failRun runId reason expectExpiredLease =
      lockRunningAttempt runId expectExpiredLease >>= failOwned runId reason := rfl

/-- What `fail_run` does once it has recorded the failure. -/
abbrev failRecorded (runId : Uuid) (context : AttemptContext) : Sql Unit := do
  let nextAttempt ← Program.ofExcept (integerSucc context.attempt)
  if retriesLeft context nextAttempt then
    let availableAt ← Program.ofExcept (nextAvailableAt context)
    if ← Program.ofExcept (context.due availableAt) then
      let _ ← cancelTask context.taskId
      return ()
    let nextState := if context.observedAt < availableAt then .sleeping else .pending
    let newRunId ← uuidv7
    let _ ← change (.insertRun
      (RunRow.fresh newRunId context.taskId nextAttempt nextState availableAt))
    updateTask context.taskId fun task => task.afterFailure nextState nextAttempt newRunId
  else
    updateTask context.taskId fun task => task.afterFailure .failed context.attempt runId

theorem secureFor_failRecorded : SecureFor space run (failRecorded run) := by
  intro context tx steady reserves
  refine staysClosed_ofExcept_bind fun nextAttempt _ => ?_
  dsimp only
  split
  · refine staysClosed_ofExcept_bind fun availableAt _ => ?_
    refine reserves.unlessDue steady (reserves.staysClosed steady ?_)
    refine Program.issues_bind (Program.issues_issue trivial) fun newRunId => ?_
    exact Program.issues_bind (Program.issues_issue trivial) fun _ =>
      keepsTo_updateTask fun _ => rfl
  · exact reserves.staysClosed steady (keepsTo_updateTask fun _ => rfl)

theorem secureFor_failOwned (reason : Option Json) :
    SecureFor space run (failOwned run reason) := by
  intro context tx steady reserves
  have updates := reserves.staysClosed steady
    (keepsTo_updateRun (fun _ => rfl) List.mem_cons_self :
      (updateRun run fun run => run.fail context.observedAt reason).Issues _)
  refine reserves.unlessDue steady (updates.bind fun _ past between conduct => ?_)
  exact secureFor_failRecorded context between (steady.amid updates.keepsOrder conduct)
    (reserves.amid conduct)

theorem keepsOrder_failRun (steady : Steady space tx) (empty : tx.held = [])
    (unwritten : tx.log = []) (reason : Option Json) (expectExpiredLease : Option Bool) :
    KeepsOrder space (failRun run reason expectExpiredLease) tx := by
  rw [failRun_eq]
  exact (secureFor_failOwned reason).keepsOrder steady empty unwritten

theorem Tx.Reserves.failRun (reserves : tx.Reserves task run) (steady : Steady space tx)
    (reason : Option Json) (expectExpiredLease : Option Bool) :
    StaysClosed space (failRun run reason expectExpiredLease) tx := by
  rw [failRun_eq]
  exact (secureFor_failOwned reason).staysClosed steady reserves

/-! ## Reaping -/

/-- What `reap_expired_run` does with the context of the run. -/
abbrev reapOwned (runId : Uuid) (context : AttemptContext) : Sql Bool := do
  if !context.leaseExpired then return false
  if context.taskState ≠ .running ∨ context.authoritativeRunId ≠ runId then
    .raise (.expiredRunNotAuthoritative runId context.taskId)
  else
    failRun runId (some (leaseExpiredReason context)) (some true)
    return true

theorem reapExpiredRun_eq (runId : Uuid) :
    reapExpiredRun runId = lockAttemptContext runId >>= reapOwned runId := rfl

/-- A reaped run is active. -/
theorem active_of_leaseExpired {context : AttemptContext} (expired : context.leaseExpired = true) :
    context.runState.active = true := by
  rw [beq_iff_eq.mp (Bool.and_eq_true_iff.mp expired).1]
  rfl

theorem staysClosed_reapOwned {context : AttemptContext} (steady : Steady space tx)
    (reserves : context.leaseExpired = true → tx.Reserves context.taskId run) :
    StaysClosed space (reapOwned run context) tx := by
  dsimp only [reapOwned]
  cases expired : context.leaseExpired with
  | false => exact Program.respects_done _
  | true =>
      simp only [Bool.not_true, Bool.false_eq_true, if_false]
      split
      · exact Program.respects_raise _
      · exact ((reserves expired).failRun steady _ _).bind fun _ _ _ _ => Program.respects_done _

theorem keepsOrder_reapExpiredRun (steady : Steady space tx) (empty : tx.held = [])
    (unwritten : tx.log = []) : KeepsOrder space (reapExpiredRun run) tx := by
  rw [reapExpiredRun_eq]
  have gate : KeepsOrder space (lockAttemptContext run) tx := keepsOrder_lockAttemptContext empty
  refine gate.bind fun context past between conduct => ?_
  refine StaysClosed.keepsOrder
    (staysClosed_reapOwned (steady.amid gate conduct) fun expired => ?_)
  exact lockAttemptContext_reserves unwritten conduct (active_of_leaseExpired expired)

theorem Tx.Reserves.reapExpiredRun (reserves : tx.Reserves task run) (steady : Steady space tx) :
    StaysClosed space (reapExpiredRun run) tx := by
  rw [reapExpiredRun_eq]
  have gate := reserves.lockAttemptContext steady
  refine gate.bind fun context past between conduct => ?_
  refine staysClosed_reapOwned (steady.amid gate.keepsOrder conduct)
    fun _ => ?_
  rw [reserves.sameTask steady.retains conduct]
  exact reserves.amid conduct

/-! ## Supervision -/

theorem secureFor_superviseRunning (renewForSeconds : Option Int) :
    SecureFor space run (superviseRunning run renewForSeconds) := by
  intro context tx steady reserves
  unfold superviseRunning
  split
  · exact Program.respects_raise _
  · refine reserves.unlessDue steady ?_
    split
    · exact Program.respects_raise _
    · split
      · refine (reserves.reapExpiredRun steady).bind fun _ _ _ _ => ?_
        exact staysClosed_snapshot_bind fun _ _ => Program.respects_done _
      · split
        · exact Program.respects_done _
        · refine reserves.staysClosed steady ?_
          split
          · exact Program.issues_bind (keepsTo_updateRun (fun _ => rfl) List.mem_cons_self)
              fun _ => Program.issues_pure _
          · exact Program.issues_pure _

theorem keepsOrder_superviseRun (steady : Steady space tx) (empty : tx.held = [])
    (unwritten : tx.log = []) (renewForSeconds : Option Int) :
    KeepsOrder space (superviseRun run renewForSeconds) tx := by
  unfold superviseRun
  split
  · exact Program.respects_raise _
  · have gate : KeepsOrder space (lockAttemptContext run) tx := keepsOrder_lockAttemptContext empty
    refine gate.bind fun context past between conduct => ?_
    split
    · exact Program.respects_done _
    · cases isState : context.runState with
      | running =>
          have reserves :=
            lockAttemptContext_reserves unwritten conduct (by rw [isState]; rfl)
          exact (secureFor_superviseRunning renewForSeconds context between
            (steady.amid gate conduct) reserves).keepsOrder
      | pending => exact Program.respects_raise _
      | cancelled => exact Program.respects_raise _
      | _ => exact Program.respects_done _

/-! ## Calls that lock no other run -/

/-- The lock order always allows the command. -/
def Harmless (command : Command RowKey Change) : Prop := ∀ tx : Tx, tx.Orderly command

theorem keepsOrder_of_issues {program : Sql α} (issues : program.Issues Harmless) :
    KeepsOrder space program tx :=
  Program.respects_of_issues issues fun tx _ harmless => harmless tx

theorem issues_retryTask : (retryTask task).Issues Harmless := by
  refine Program.issues_bind (Program.issues_issue fun _ => trivial) fun nowAt => ?_
  refine issues_lockTask_bind (fun _ => trivial) (Program.issues_raise _) fun row _ => ?_
  dsimp only
  split
  · exact Program.issues_raise _
  · refine Program.issues_bind (Program.issues_ofExcept _) fun isDue => ?_
    cases isDue with
    | true => exact Program.issues_raise _
    | false =>
        refine Program.issues_bind (Program.issues_ofExcept _) fun nextAttempt => ?_
        refine Program.issues_bind (Program.issues_issue fun _ => trivial) fun newRunId => ?_
        refine Program.issues_bind (Program.issues_issue fun _ => trivial) fun _ => ?_
        exact Program.issues_bind (issues_updateTask (fun _ => rfl) (fun _ => trivial)
          fun _ _ _ => trivial) fun _ => Program.issues_pure _

theorem keepsOrder_lockRunningAttempt_bind (empty : tx.held = [])
    (issues : ∀ context, (next context).Issues Harmless) :
    KeepsOrder space (lockRunningAttempt run expectExpired >>= next) tx :=
  (respects_lockRunningAttempt (keepsOrder_lockAttemptContext empty)).bind fun context _ _ _ =>
    keepsOrder_of_issues (issues context)

theorem keepsOrder_setTaskCheckpointState (empty : tx.held = []) (name : Option String)
    (newCheckpointState : Option Json) :
    KeepsOrder space (setTaskCheckpointState space task name newCheckpointState run) tx := by
  unfold setTaskCheckpointState
  split
  · exact Program.respects_raise _
  · split
    · exact Program.respects_raise _
    · split
      · exact Program.respects_raise _
      · refine keepsOrder_lockRunningAttempt_bind empty fun context => ?_
        split
        · exact Program.issues_raise _
        · refine Program.issues_bind (Program.issues_ofExcept _) fun isDue => ?_
          cases isDue with
          | true => exact Program.issues_raise _
          | false =>
              cases newCheckpointState with
              | none => exact Program.issues_raise _
              | some checkpointState =>
                  refine Program.issues_bind (Program.issues_issue fun _ => trivial)
                    fun written => ?_
                  cases written with
                  | true => exact Program.issues_pure _
                  | false =>
                      exact Program.issues_bind (Program.issues_issue fun _ => trivial)
                        fun visible => Program.issues_pure _

theorem keepsOrder_getTaskCheckpointStates (empty : tx.held = []) :
    KeepsOrder space (getTaskCheckpointStates task run) tx := by
  refine keepsOrder_lockRunningAttempt_bind empty fun context => ?_
  split
  · exact Program.issues_raise _
  · exact Program.issues_bind (Program.issues_issue fun _ => trivial) fun _ =>
      Program.issues_pure _

end Behind

end Steda
