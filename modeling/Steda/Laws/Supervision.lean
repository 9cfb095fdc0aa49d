import Steda.Serial.Calls
import Steda.Serial.Checkpoints
import Steda.Laws.TaskInvariant

/-!
# Supervision and the mutation gate

`supervise_run` repeats the checks of the gate in another order.  At one and
the same time it answers `running` exactly when completion, suspension and
checkpoints pass, and each of them refuses a lost run with its own code.
-/

namespace Steda

open Postgres Transaction Relational

variable {space : Char → Bool} {life : Life} {world : World}

/-! ## Passing -/

/-- The run may be mutated at a time: it passes the gate and the deadline of
its task is not due. -/
def Life.Mutable (life : Life) (run : RunRow) (time : Timestamp) : Prop :=
  run.gate time = .ok () ∧ life.task.due (some time) = .ok false

theorem superviseRun_running_iff (shows_ : world.store.Shows space life) {run : RunRow}
    (member : run ∈ life.runs) {renewForSeconds : Option Int}
    (positive : RenewsPositively renewForSeconds) :
    (alone space (superviseRun run.id renewForSeconds) world).1 = .ok .running ↔
      life.Mutable run (world.clock 0) := by
  rw [alone_superviseRun shows_ member positive]
  unfold Life.Mutable
  constructor
  · intro answered
    split at answered
    · cases answered
    cases state : run.state with
    | running =>
        obtain ⟨isLast, taskRunning⟩ := shows_.valid.running_last member state
        subst isLast
        have ticked : world.tick.store.Shows space life := shows_
        simp only [state, alone_superviseRunning ticked state] at answered
        cases due : life.task.due (some (world.clock 0)) with
        | error error =>
            rw [due] at answered
            cases answered
        | ok isDue =>
            cases isDue with
            | true =>
                rw [due] at answered
                cases answered
            | false =>
                rw [due] at answered
                refine ⟨?_, rfl⟩
                cases expired : expiredAt (world.clock 0) life.last with
                | false => simp [RunRow.gate, state, expired]
                | true =>
                    have isReap :=
                      @alone_superviseInTime_expired space life world.tick renewForSeconds _ expired
                    rcases reaped : alone space (reapExpiredRun life.last.id) world.tick with
                      ⟨_ | _, after⟩
                    · rw [reaped] at isReap
                      simp only [isReap] at answered
                      cases answered
                    · rw [reaped] at isReap
                      simp only [isReap] at answered
                      exact absurd (Except.ok.inj answered) (Queue.supervisedExpiry_ne_running _ _)
    | failed =>
        simp only [state, supervisedFailure] at answered
        split at answered <;> cases answered
    | _ =>
        simp only [state] at answered
        cases answered
  · rintro ⟨passes, notDue⟩
    obtain ⟨isLast, running, leased⟩ := (shows_.valid.gate_ok member).mp passes
    subst isLast
    have notCancelled : ¬(life.task.state = .cancelled ∨ life.last.state = .cancelled) := by
      rw [running.task_state shows_.valid, running.2]
      decide
    have ticked : world.tick.store.Shows space life := shows_
    rw [if_neg notCancelled]
    simp only [running.2]
    rw [alone_superviseRunning ticked running.2, notDue]
    exact alone_superviseInTime_leased ticked running.2 leased

/-- `complete_run` returns TRUE exactly for a run that may be mutated. -/
theorem completeRun_true_iff (shows_ : world.store.Shows space life) {run : RunRow}
    (member : run ∈ life.runs) (value : Json) :
    (alone space (completeRun run.id (some value)) world).1 = .ok true ↔
      life.Mutable run (world.clock 0) := by
  unfold Life.Mutable
  cases passes : run.gate (world.clock 0) with
  | error error =>
      rw [alone_completeRun_refused shows_ member passes]
      simp
  | ok _ =>
      obtain ⟨isLast, _⟩ := (shows_.valid.gate_ok member).mp passes
      subst isLast
      rw [alone_completeRun shows_ passes]
      rcases life.task.due (some (world.clock 0)) with error | (_ | _) <;> simp

/-- `schedule_run` at the present time returns `ready` exactly for a run that
may be mutated. -/
theorem scheduleRun_ready_iff (shows_ : world.store.Shows space life) {run : RunRow}
    (member : run ∈ life.runs) :
    (alone space (scheduleRun run.id (some (world.clock 0))) world).1 = .ok .ready ↔
      life.Mutable run (world.clock 0) := by
  unfold Life.Mutable
  cases passes : run.gate (world.clock 0) with
  | error error =>
      rw [alone_scheduleRun_refused shows_ member passes]
      simp
  | ok _ =>
      obtain ⟨isLast, _⟩ := (shows_.valid.gate_ok member).mp passes
      subst isLast
      rw [alone_scheduleRun shows_ passes]
      unfold TaskRow.dueBy
      rcases life.task.due (some (world.clock 0)) with error | (_ | _) <;>
        simp [bind, Except.bind, pure, Except.pure]

/-- A checkpoint call succeeds exactly for a run that may be mutated. -/
theorem setTaskCheckpointState_ok_iff (shows_ : world.store.Shows space life) {run : RunRow}
    (member : run ∈ life.runs) {name : String} (named : isBlank space name = false)
    (short : name.utf8ByteSize ≤ maxNameBytes) (value : Json) :
    (∃ result, (alone space (setTaskCheckpointState space run.taskId (some name) (some value)
      run.id) world).1 = .ok result) ↔ life.Mutable run (world.clock 0) := by
  have own : ¬life.task.id ≠ run.taskId := not_not.mpr (shows_.valid.owned run member).symm
  unfold Life.Mutable
  rw [alone_setTaskCheckpointState shows_ member named (not_lt.mpr short), if_neg own]
  rcases run.gate (world.clock 0) with error | _
  · simp
  · rcases life.task.due (some (world.clock 0)) with error | (_ | _) <;> simp

/-! ## Refusal -/

/-- The worker-owned mutations of a run, with all their values given. -/
def Operation.Mutates (space : Char → Bool) (run : RunRow) : Operation → Prop
  | .completeRun runId result => runId = run.id ∧ result.isSome
  | .scheduleRun runId _ => runId = run.id
  | .failRun runId reason expectExpiredLease =>
      runId = run.id ∧ reason.isSome ∧ expectExpiredLease = some false
  | .setTaskCheckpointState taskId checkpointName newCheckpointState runId =>
      runId = run.id ∧ taskId = run.taskId ∧ newCheckpointState.isSome ∧
        ∃ name, checkpointName = some name ∧ isBlank space name = false ∧
          name.utf8ByteSize ≤ maxNameBytes
  | _ => False

/-- A mutation of a run the gate refuses raises the error of the gate. -/
theorem Operation.Mutates.refused {operation : Operation} {run : RunRow}
    (mutates : operation.Mutates space run) (shows_ : world.store.Shows space life)
    (member : run ∈ life.runs) {error : SqlError}
    (refused : run.gate (world.clock 0) = .error error) :
    (alone space (operation.program space) world).1 = .error error := by
  cases operation with
  | completeRun runId result =>
      obtain ⟨isRun, _⟩ := mutates
      subst isRun
      exact congrArg Prod.fst (alone_completeRun_refused shows_ member refused result)
  | scheduleRun runId wakeAt =>
      cases mutates
      exact congrArg Prod.fst (alone_scheduleRun_refused shows_ member refused wakeAt)
  | failRun runId reason expectExpiredLease =>
      obtain ⟨isRun, _, isFalse⟩ := mutates
      subst isRun isFalse
      exact congrArg Prod.fst (alone_stop (alone_gate_refused shows_ member refused) _)
  | setTaskCheckpointState taskId checkpointName newCheckpointState runId =>
      obtain ⟨isRun, isTask, _, name, isName, named, short⟩ := mutates
      subst isRun isTask isName
      refine (congrArg Prod.fst (alone_setTaskCheckpointState shows_ member named
        (not_lt.mpr short) run.taskId newCheckpointState)).trans ?_
      rw [refused]
  | _ => exact absurd mutates id

/-! ## The law -/

/-- The supervision of every run agrees with the gate of its mutations. -/
structure SupervisionAgrees (space : Char → Bool) (reached : World) : Prop where
  /-- At any one time, supervision answers `running` exactly when completion
  returns TRUE, suspension until now is `ready` and checkpoints are accepted. -/
  accepted : ∀ run ∈ reached.store.runs, ∀ time renewForSeconds value name,
    RenewsPositively renewForSeconds → isBlank space name = false →
    name.utf8ByteSize ≤ maxNameBytes →
      let world := reached.stopped time
      let supervised := (Operation.superviseRun run.id renewForSeconds).answer space world =
        .ok .running
      (supervised ↔ (Operation.completeRun run.id (some value)).answer space world = .ok true) ∧
      (supervised ↔ (Operation.scheduleRun run.id (some time)).answer space world = .ok .ready) ∧
      (supervised ↔ ∃ result, (Operation.setTaskCheckpointState run.taskId (some name) (some value)
        run.id).answer space world = .ok result)
  /-- Every mutation of a cancelled, failed or expired run raises the code of
  its loss and changes no row. -/
  refused : ∀ run ∈ reached.store.runs, ∀ time (operation : Operation),
    operation.Mutates space run → ∀ code,
      (run.state = .cancelled ∧ code = "ST001") ∨ (run.state = .failed ∧ code = "ST002") ∨
        (run.state = .running ∧ (∃ expiry, run.claimExpiresAt = some expiry ∧ expiry ≤ time) ∧
          code = "ST003") →
      ∃ error, operation.answer space (reached.stopped time) = .error error ∧
        error.sqlstate = code ∧
        (operation.perform space (reached.stopped time)).2.store = reached.store

/-- In every state a history reaches, supervision agrees with the gate. -/
theorem History.supervisionAgrees {initial reached : World} {past : List Call}
    (history : History space initial past reached) : SupervisionAgrees space reached where
  accepted := by
    intro run member time renewForSeconds value name positive named short
    have found := find_of_mem history.sound.keyed.runs member
    obtain ⟨life, inRuns, shows_⟩ := history.sound.shows_of_findRun found
    have stopped : (reached.stopped time).store.Shows space life := shows_
    have sound : (reached.stopped time).store.Sound space := history.sound
    simp only [Operation.answer_eq _ sound]
    have supervised := superviseRun_running_iff stopped inRuns positive
    exact ⟨supervised.trans (completeRun_true_iff stopped inRuns value).symm,
      supervised.trans (scheduleRun_ready_iff stopped inRuns).symm,
      supervised.trans (setTaskCheckpointState_ok_iff stopped inRuns named short value).symm⟩
  refused := by
    intro run member time operation mutates code lost
    have found := find_of_mem history.sound.keyed.runs member
    obtain ⟨life, inRuns, shows_⟩ := history.sound.shows_of_findRun found
    have stopped : (reached.stopped time).store.Shows space life := shows_
    have sound : (reached.stopped time).store.Sound space := history.sound
    obtain ⟨error, isError, isCode⟩ : ∃ error, run.gate time = .error error ∧
        error.sqlstate = code := by
      rcases lost with ⟨cancelled, isCode⟩ | ⟨failed, isCode⟩ | ⟨running, ⟨expiry, isExpiry, late⟩,
        isCode⟩
      · exact ⟨.taskCancelled, by simp [RunRow.gate, cancelled], isCode.symm⟩
      · exact ⟨.runAlreadyFailed run.id, by simp [RunRow.gate, failed], isCode.symm⟩
      · exact ⟨.leaseExpired run.id, by simp [RunRow.gate, expiredAt, running, isExpiry, late],
          isCode.symm⟩
    have raised : operation.answer space (reached.stopped time) = .error error :=
      (operation.answer_eq sound).trans (mutates.refused stopped inRuns isError)
    exact ⟨error, raised, isCode, Operation.store_of_raised raised⟩

/-- A claimed run. -/
theorem History.supervisionAgrees_claimed :
    let served := World.serve asciiSpace [plainSubmission [], plainClaim "worker"] (.blank second)
    served.2.store.runs.map RunRow.state = [.running] ∧ SupervisionAgrees asciiSpace served.2 :=
  ⟨rfl, History.supervisionAgrees (World.history_serve _ second)⟩

end Steda
