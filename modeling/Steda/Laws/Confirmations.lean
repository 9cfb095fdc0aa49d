import Steda.Client.Metrics
import Steda.Laws.ClaimRaces
import Steda.Laws.ExactSweeps
import Steda.Laws.Failing
import Steda.Laws.Fencing

/-!
# Confirmed outcomes

A state of the queue confirms the outcome of an attempt when the outcome is true
of its run.  The answers of the statements of an attempt are confirmed, and a
confirmed outcome is not taken back.
-/

namespace Steda

open Postgres Transaction Relational

variable {space : Char → Bool} {life : Life} {runId : Uuid} {before after : World}

/-! ## Confirmed outcomes -/

/-- An outcome is true of a run and its task at a time.  A lost lease has failed
the run under the reserved name or has run out. -/
def ExecutionOutcome.TrueOf (run : RunRow) (task : TaskRow) (time : Timestamp) :
    ExecutionOutcome → Prop
  | .completed => run.state = .completed
  | .failed => run.state = .failed
  | .cancelled => task.state = .cancelled
  | .suspended => run.state = .sleeping
  | .leaseLost =>
      run.state = .failed ∧ run.failureName = some leaseExpiredName ∨ expiredAt time run = true

/-- An outcome is true of a run in a state of the queue. -/
def World.Confirms (world : World) (runId : Uuid) (outcome : ExecutionOutcome) : Prop :=
  ∃ run task, world.store.findRun runId = some run ∧ world.store.findTask run.taskId = some task ∧
    outcome.TrueOf run task (world.clock 0)

theorem Queue.Shows.confirms {world : World} (shows_ : world.store.Shows space life) {run : RunRow}
    (member : run ∈ life.runs) {outcome : ExecutionOutcome}
    (isTrue : outcome.TrueOf run life.task (world.clock 0)) : world.Confirms run.id outcome :=
  ⟨run, life.task, shows_.findRun member, shows_.owner member, isTrue⟩

/-- A cancellation confirms itself. -/
theorem Queue.Shows.confirms_cancelled (shows_ : before.store.Shows space life)
    (running : life.last.state = .running) {nowAt : Timestamp}
    (isStore : after.store = (Transition.cancel nowAt).write life before.store) :
    after.Confirms life.last.id .cancelled := by
  have open_ : life.task.state.terminal = false := by
    rw [shows_.valid.terminal_iff, running]
    rfl
  have cancels : (Transition.cancel nowAt).Enabled space life := open_
  have showsAfter := shows_.write cancels fun newRun isNew => nomatch isNew
  rw [← isStore] at showsAfter
  exact showsAfter.confirms ((Transition.cancel nowAt).after life).last_mem_runs rfl

/-- Only a cancelled task has a cancelled run. -/
theorem Life.Valid.task_cancelled (valid : life.Valid space) {run : RunRow}
    (member : run ∈ life.runs) (cancelled : run.state = .cancelled) :
    life.task.state = .cancelled := by
  rcases Life.mem_runs.mp member with inHistory | isLast
  · cases cancelled.symm.trans (valid.historyFailed run inHistory)
  · rw [isLast] at cancelled
    rcases valid.agrees with same | ⟨isCancelled, _⟩
    · exact same.trans cancelled
    · exact isCancelled

/-- A call that deletes nothing keeps every run with its task. -/
theorem Served.keeps_run {call : Call} (served : Served space before call after)
    (sound : before.store.Sound space)
    (retains : ∀ task, ¬call.operation.MayCause (.deleted task)) {run : RunRow}
    (found : before.store.findRun runId = some run) :
    ∃ kept, after.store.findRun runId = some kept ∧ kept.taskId = run.taskId := by
  obtain ⟨life, member, shows_⟩ := sound.shows_of_findRun found
  obtain ⟨_, _, events, caused, advances⟩ := served.advances sound
  obtain ⟨last, lastRows, evolves⟩ := advances.evolves_to shows_.rows
  have retained : .deleted life.task.id ∉ events := fun deleted =>
    retains life.task.id (caused.mayCause _ deleted)
  obtain ⟨later, isLater⟩ := evolves.remains retained
  subst isLater
  have isRun : run.id ∈ later.runIds :=
    (evolves.runIds shows_.valid rfl retained).subset (List.mem_map_of_mem member)
  obtain ⟨kept, inLater, sameId⟩ := List.mem_map.mp isRun
  have showsLater := advances.sound.shows_of_rows lastRows
  have isFound := showsLater.findRun inLater
  rw [sameId, Queue.findRun_id found] at isFound
  refine ⟨kept, isFound, ?_⟩
  rw [showsLater.valid.owned kept inLater, shows_.valid.owned run member]
  exact (advances.sound.life_of_rows lastRows).2

/-! ## Answers -/

section Supervision

variable {renewForSeconds : Option Int} {supervision : RunSupervision}

/-- Supervision that returns has found its run. -/
theorem Served.supervises (served : Served space before
      ⟨.superviseRun runId renewForSeconds, .ok supervision⟩ after)
    (sound : before.store.Sound space) :
    RenewsPositively renewForSeconds ∧ ∃ (life : Life) (run : RunRow),
      before.store.Shows space life ∧ run ∈ life.runs ∧ run.id = runId := by
  have ran : alone space (superviseRun runId renewForSeconds) before = (.ok supervision, after) :=
    served.ran
  have returns : ∀ error, (alone space (superviseRun runId renewForSeconds) before).1 ≠
      .error error := by
    intro error raised
    rw [ran] at raised
    cases raised
  have positive : RenewsPositively renewForSeconds := by
    by_contra invalid
    obtain ⟨error, raised⟩ := @alone_superviseRun_invalid space before runId _ invalid
    exact returns error raised
  cases found : before.store.findRun runId with
  | none => exact absurd (alone_superviseRun_absent found positive) (returns _)
  | some run =>
      obtain ⟨life, member, shows_⟩ := sound.shows_of_findRun found
      exact ⟨positive, life, run, shows_, member, Queue.findRun_id found⟩

/-- Supervision of a run under an expired lease answers what became of it. -/
theorem Served.supervised_expired (served : Served space before
      ⟨.superviseRun life.last.id renewForSeconds, .ok supervision⟩ after)
    (sound : before.store.Sound space) (shows_ : before.store.Shows space life)
    (expired : expiredAt (before.clock 0) life.last = true)
    (isAnswer : supervision = after.store.supervisedExpiry life.last.taskId)
    {outcome : ExecutionOutcome}
    (isOutcome : ExecutionOutcome.fromSupervision supervision = some outcome) :
    before.Confirms life.last.id outcome ∨ after.Confirms life.last.id outcome := by
  unfold Queue.supervisedExpiry at isAnswer
  split at isAnswer
  · next cancelled =>
      subst isAnswer
      cases isOutcome
      obtain ⟨kept, found, sameTask⟩ :=
        served.keeps_run sound (fun task => id) (shows_.findRun life.last_mem_runs)
      obtain ⟨task, isTask, isCancelled⟩ := Option.map_eq_some_iff.mp cancelled
      exact Or.inr ⟨kept, task, found, sameTask ▸ isTask, isCancelled⟩
  · subst isAnswer
    cases isOutcome
    exact Or.inl (shows_.confirms life.last_mem_runs (Or.inr expired))

/-- Supervision of a running run answers what the database has just done. -/
theorem Served.supervised_running (served : Served space before
      ⟨.superviseRun life.last.id renewForSeconds, .ok supervision⟩ after)
    (sound : before.store.Sound space) (shows_ : before.store.Shows space life)
    (positive : RenewsPositively renewForSeconds) (running : life.last.state = .running)
    {outcome : ExecutionOutcome}
    (isOutcome : ExecutionOutcome.fromSupervision supervision = some outcome) :
    before.Confirms life.last.id outcome ∨ after.Confirms life.last.id outcome := by
  have ran : alone space (superviseRun life.last.id renewForSeconds) before =
    (.ok supervision, after) := served.ran
  rw [alone_superviseRun_of_running shows_ running positive] at ran
  split at ran
  · cases ran
  · cases ran
    cases isOutcome
    exact Or.inr (shows_.confirms_cancelled running rfl)
  · cases expired : expiredAt (before.clock 0) life.last with
    | false =>
        have passes : life.last.gate (before.clock 0) = .ok () := by
          simp [RunRow.gate, running, expired]
        have leased := ((shows_.valid.gate_ok life.last_mem_runs).mp passes).2.2
        have answer := @alone_superviseInTime_leased space life before.tick renewForSeconds shows_
          running _ leased
        rw [ran] at answer
        cases answer
        cases isOutcome
    | true =>
        rw [alone_superviseInTime_expired expired] at ran
        split at ran
        · cases ran
        · cases ran
          exact served.supervised_expired sound shows_ expired rfl isOutcome

/-- Supervision answers with an outcome that is true before or after it, and of
a cancelled task only that it is cancelled. -/
theorem Served.supervised (served : Served space before
      ⟨.superviseRun runId renewForSeconds, .ok supervision⟩ after)
    (sound : before.store.Sound space) :
    (∀ outcome, ExecutionOutcome.fromSupervision supervision = some outcome →
      before.Confirms runId outcome ∨ after.Confirms runId outcome) ∧
    (before.Confirms runId .cancelled → supervision = .cancelled) := by
  obtain ⟨positive, life, run, shows_, member, isRun⟩ := served.supervises sound
  subst isRun
  have ran : alone space (superviseRun run.id renewForSeconds) before =
    (.ok supervision, after) := served.ran
  rw [alone_superviseRun shows_ member positive] at ran
  split at ran
  · next cancelled =>
      cases ran
      refine ⟨?_, fun _ => rfl⟩
      intro outcome isOutcome
      cases isOutcome
      exact Or.inl (shows_.confirms member
        (cancelled.elim id fun isCancelled => shows_.valid.task_cancelled member isCancelled))
  · next notCancelled =>
      refine ⟨?_, ?_⟩
      · intro outcome isOutcome
        cases state : run.state with
        | running =>
            obtain ⟨isLast, _⟩ := shows_.valid.running_last member state
            subst isLast
            exact served.supervised_running sound shows_ positive state isOutcome
        | failed =>
            rw [state] at ran
            cases ran
            unfold supervisedFailure at isOutcome
            split at isOutcome
            · next named =>
                cases isOutcome
                exact Or.inl (shows_.confirms member (Or.inl ⟨state, named⟩))
            · cases isOutcome
              exact Or.inl (shows_.confirms member state)
        | completed | sleeping =>
            rw [state] at ran
            cases ran
            cases isOutcome
            exact Or.inl (shows_.confirms member state)
        | pending | cancelled =>
            rw [state] at ran
            cases ran
      · rintro ⟨found, task, isFound, isTask, isCancelled⟩
        rw [shows_.findRun member] at isFound
        cases isFound
        rw [shows_.owner member] at isTask
        cases isTask
        exact absurd (Or.inl isCancelled) notCancelled

end Supervision

/-- A completion that returns true has completed the run. -/
theorem Served.confirms_completed {result : Option Json}
    (served : Served space before ⟨.completeRun runId result, .ok true⟩ after)
    (sound : before.store.Sound space) : after.Confirms runId .completed := by
  obtain ⟨life, value, observedAt, isValue, valid, rows, ⟨isLast, running⟩, rowsAfter⟩ :=
    served.completes sound
  obtain ⟨_, _, _, _, advances⟩ := served.advances sound
  have showsAfter := advances.sound.shows_of_rows rowsAfter
  subst isLast
  exact showsAfter.confirms (Life.last_mem_runs _) rfl

/-- A completion that returns false has cancelled the task. -/
theorem Served.confirms_uncompleted {output : Json}
    (served : Served space before ⟨.completeRun runId (some output), .ok false⟩ after)
    (sound : before.store.Sound space) : after.Confirms runId .cancelled := by
  obtain ⟨run, found, running, leased⟩ := served.passed sound rfl
  obtain ⟨life, member, shows_⟩ := sound.shows_of_findRun found
  obtain ⟨isLast, _⟩ := shows_.valid.running_last member running
  have isRun := Queue.findRun_id found
  subst isLast isRun
  have passes : life.last.gate (before.clock 0) = .ok () := by
    simp [RunRow.gate, running, leased]
  have ran : alone space (completeRun life.last.id (some output)) before = (.ok false, after) :=
    served.ran
  rw [alone_completeRun shows_ passes] at ran
  split at ran
  · cases ran
    exact shows_.confirms_cancelled running rfl
  · cases ran
  · cases ran

/-- A failure that returns has failed the run or cancelled its task. -/
theorem Served.confirms_failed {failure : Json}
    (served : Served space before ⟨.failRun runId (some failure) (some false), .ok ()⟩ after)
    (ready : before.Ready space) :
    after.Confirms runId .failed ∨ after.Confirms runId .cancelled := by
  obtain ⟨run, found, running, leased⟩ := served.passed ready.sound ⟨rfl, by simp⟩
  obtain ⟨life, member, shows_⟩ := ready.sound.shows_of_findRun found
  obtain ⟨isLast, _⟩ := shows_.valid.running_last member running
  have isRun := Queue.findRun_id found
  subst isLast isRun
  have ran : alone space (failRun life.last.id (some failure) (some false)) before =
    (.ok (), after) := served.ran
  have passes : life.last.gate (before.clock 0) = .ok () := by
    simp [RunRow.gate, running, leased]
  have performs := alone_failRun shows_ (alone_gate_passed shows_ passes) running failure
    (ready.unused 0)
  cases fails : life.failure (before.clock 0) (before.clock 1) failure (before.idents 0) with
  | error error =>
      rw [fails, ran] at performs
      cases performs
  | ok transition =>
      rw [fails] at performs
      cases ran.symm.trans performs
      have showsAfter := shows_.write (Life.failure_enabled running shows_.valid fails)
        (ready.fresh_failure fails)
      obtain ⟨ended, inLife, sameId, isEnded⟩ := Life.ended_of_failure fails
      rw [← sameId]
      refine isEnded.imp (fun failed => ?_) fun cancelled => ?_
      · exact showsAfter.confirms inLife failed
      · exact showsAfter.confirms inLife (showsAfter.valid.task_cancelled inLife cancelled)

/-! ## Refusals -/

/-- The outcome an error reports. -/
def ExecutionOutcome.ofRefusal : Error → Option ExecutionOutcome
  | .cancelled => some .cancelled
  | .failedRun => some .failed
  | .leaseLost => some .leaseLost
  | _ => none

/-- The outcome the error of a stored function reports to the client. -/
def SqlError.reports (error : SqlError) (queue : String) : Option ExecutionOutcome :=
  ExecutionOutcome.ofRefusal (mapSqlxError (error.received queue))

theorem SqlError.reports_of_concernsDeadline {error : SqlError}
    (concerns : error.concernsDeadline = true) (queue : String) : error.reports queue = none := by
  cases error with
  | invalidBigint | bigintOutOfRange => rfl
  | _ => cases concerns

/-- What the gate refuses a run with is true of the run. -/
theorem Queue.Shows.confirms_refusal (shows_ : before.store.Shows space life) {run : RunRow}
    (member : run ∈ life.runs) {error : SqlError}
    (refused : run.gate (before.clock 0) = .error error) {queue : String}
    {outcome : ExecutionOutcome} (isOutcome : error.reports queue = some outcome) :
    before.Confirms run.id outcome := by
  refine shows_.confirms member ?_
  unfold RunRow.gate at refused
  split at refused
  · next cancelled =>
      cases refused
      cases isOutcome
      exact shows_.valid.task_cancelled member cancelled
  · next failed =>
      cases refused
      cases isOutcome
      exact failed
  · split at refused
    · next expired =>
        cases refused
        cases isOutcome
        exact Or.inr expired
    · cases refused
  all_goals
    cases refused
    cases isOutcome

theorem cancellationBound_error {policy : Json} {key : String} {error : SqlError}
    (failed : cancellationBound policy key = .error error) : error.concernsDeadline = true := by
  unfold cancellationBound at failed
  split at failed
  · cases failed
  · split at failed
    · cases failed
    · cases failed
      rfl
    · cases failed
      rfl

/-- A deadline that does not evaluate is one whose policy cannot be cast. -/
theorem TaskRow.concerns_of_due {task : TaskRow} {observedAt : Option Timestamptz} {error : SqlError}
    (failed : task.due observedAt = .error error) : error.concernsDeadline = true := by
  have concerns : ∀ {policy : Json} {key : String} {isDue : Option Int → Bool},
      (cancellationBound policy key).map isDue = .error error →
        error.concernsDeadline = true := by
    intro policy key isDue failed
    cases bound : cancellationBound policy key with
    | error refused =>
        rw [bound] at failed
        cases failed
        exact cancellationBound_error bound
    | ok value =>
        rw [bound] at failed
        cases failed
  unfold due cancellationDue at failed
  split at failed
  · cases failed
  · exact concerns failed
  · exact concerns failed

/-- A failure that is let through raises nothing that reports an outcome. -/
theorem Life.failure_reports {observedAt nowAt : Timestamp} {reason : Json} {newRun : Uuid}
    {error : SqlError} (valid : life.Valid space)
    (failed : life.failure observedAt nowAt reason newRun = .error error) (queue : String) :
    error.reports queue = none := by
  unfold failure failureInTime at failed
  dsimp only at failed
  split at failed
  · next refused due =>
      cases failed
      exact SqlError.reports_of_concernsDeadline (TaskRow.concerns_of_due due) queue
  · cases failed
  · split at failed
    · next refused overflow =>
        cases failed
        unfold integerSucc at overflow
        split at overflow
        · cases overflow
          rfl
        · cases overflow
    · split at failed
      · split at failed
        · next refused computed =>
            obtain ⟨availableAt, isComputed⟩ := nextAvailableAt_ok valid observedAt
            cases isComputed.symm.trans computed
        · split at failed
          · next refused due =>
              cases failed
              exact SqlError.reports_of_concernsDeadline (TaskRow.concerns_of_due due) queue
          · cases failed
          · cases failed
      · cases failed

/-- The error of a call is that of its stored function. -/
theorem Served.raised {operation : Operation} {error : SqlError}
    (served : Served space before ⟨operation, .error error⟩ after)
    (sound : before.store.Sound space) :
    (alone space (operation.program space) before).1 = .error error :=
  (operation.answer_eq sound).symm.trans (congrArg Prod.fst served)

section Refusals

variable {error : SqlError} {queue : String} {outcome : ExecutionOutcome}

/-- A statement that asks the gate first reports only outcomes that are true,
unless it raises one past the gate. -/
theorem Served.refused {operation : Operation} {rest : AttemptContext → Sql operation.Result}
    (served : Served space before ⟨operation, .error error⟩ after)
    (sound : before.store.Sound space)
    (gated : operation.program space = lockRunningAttempt runId (some false) >>= rest)
    (harmless : ∀ life, before.store.Shows space life → life.last.id = runId →
      life.last.gate (before.clock 0) = .ok () →
        (alone space (operation.program space) before).1 = .error error →
          error.reports queue = none)
    (isOutcome : error.reports queue = some outcome) : before.Confirms runId outcome := by
  have raised := served.raised sound
  cases found : before.store.findRun runId with
  | none =>
      have refuses : (alone space (lockRunningAttempt runId (some false)) before).1 =
          .error (.runNotFound runId) := by
        rw [alone_lockRunningAttempt_absent found]
      rw [gated, alone_stop_fst refuses] at raised
      cases raised
      cases isOutcome
  | some run =>
      obtain ⟨life, member, shows_⟩ := sound.shows_of_findRun found
      have isRun := Queue.findRun_id found
      subst isRun
      cases passes : run.gate (before.clock 0) with
      | error refusal =>
          have refuses : (alone space (lockRunningAttempt run.id (some false)) before).1 =
              .error refusal := by
            rw [alone_gate_refused shows_ member passes]
          rw [gated, alone_stop_fst refuses] at raised
          cases raised
          exact shows_.confirms_refusal member passes isOutcome
      | ok _ =>
          obtain ⟨isLast, _⟩ := (shows_.valid.gate_ok member).mp passes
          subst isLast
          rw [harmless life shows_ rfl passes raised] at isOutcome
          cases isOutcome

/-- What a refused completion reports is true. -/
theorem Served.refused_completion {output : Json}
    (served : Served space before ⟨.completeRun runId (some output), .error error⟩ after)
    (sound : before.store.Sound space) (isOutcome : error.reports queue = some outcome) :
    before.Confirms runId outcome := by
  refine served.refused sound rfl ?_ isOutcome
  intro life shows_ isRun passes raised
  subst isRun
  change (alone space (completeRun life.last.id (some output)) before).1 = _ at raised
  rw [alone_completeRun shows_ passes] at raised
  split at raised
  · cases raised
  · cases raised
  · next due =>
      cases raised
      exact SqlError.reports_of_concernsDeadline (TaskRow.concerns_of_due due) queue

/-- What a refused failure reports is true. -/
theorem Served.refused_failure {failure : Json}
    (served : Served space before ⟨.failRun runId (some failure) (some false), .error error⟩ after)
    (ready : before.Ready space) (isOutcome : error.reports queue = some outcome) :
    before.Confirms runId outcome := by
  refine served.refused ready.sound rfl ?_ isOutcome
  intro life shows_ isRun passes raised
  subst isRun
  obtain ⟨_, running, leased⟩ := (shows_.valid.gate_ok life.last_mem_runs).mp passes
  have performs := alone_failRun shows_ (alone_gate_passed shows_ passes) running.2 failure
    (ready.unused 0)
  change (alone space (failRun life.last.id (some failure) (some false)) before).1 = _ at raised
  cases fails : life.failure (before.clock 0) (before.clock 1) failure (before.idents 0) with
  | error refusal =>
      rw [fails] at performs
      cases raised.symm.trans performs
      exact Life.failure_reports shows_.valid fails queue
  | ok transition =>
      rw [fails] at performs
      rw [performs] at raised
      cases raised

/-- What a refused listing of checkpoints reports is true. -/
theorem Served.refused_listing {task : Uuid}
    (served : Served space before ⟨.getTaskCheckpointStates task runId, .error error⟩ after)
    (sound : before.store.Sound space) (isOutcome : error.reports queue = some outcome) :
    before.Confirms runId outcome := by
  refine served.refused sound rfl ?_ isOutcome
  intro life shows_ isRun passes raised
  subst isRun
  change (alone space (getTaskCheckpointStates task life.last.id) before).1 = _ at raised
  rw [alone_getTaskCheckpointStates shows_ life.last_mem_runs, passes] at raised
  simp only at raised
  split at raised
  · cases raised
    rfl
  · cases raised

end Refusals

/-! ## What lasts -/

section Lasting

variable {initial seen final : World} {past later : List Call} {outcome : ExecutionOutcome}
  {run : RunRow} {task : TaskRow}

/-- A terminal run has one row in all states of a history. -/
theorem History.run_lasts (history : History space initial past seen)
    (trace : Trace (Served space) seen later final) (decided : seen.store.findRun runId = some run)
    (terminal : run.state.terminal = true) {found : RunRow}
    (isFound : final.store.findRun runId = some found) : found = run := by
  have isRun := Queue.findRun_id decided
  subst isRun
  obtain ⟨first, _, firstRows, inFirst⟩ := history.sound.life_of_run (mem_of_find decided)
  obtain ⟨last, _, lastRows, inLast⟩ :=
    (history.append trace).sound.life_of_run (mem_of_find isFound)
  rw [history.same_task trace (mem_of_find decided) isFound] at lastRows
  have kept := (history.precedes trace firstRows lastRows).terminalRuns run inFirst terminal
  have stays := ((history.append trace).sound.shows_of_rows lastRows).findRun kept
  exact Option.some.inj (isFound.symm.trans stays)

/-- The task of a run is cancelled for good. -/
theorem History.cancellation_lasts (history : History space initial past seen)
    (trace : Trace (Served space) seen later final) (decided : seen.store.findRun runId = some run)
    (owner : seen.store.findTask run.taskId = some task) (cancelled : task.state = .cancelled)
    {found : RunRow} (isFound : final.store.findRun runId = some found) {row : TaskRow}
    (isRow : final.store.findTask found.taskId = some row) : row.state = .cancelled := by
  have isRun := Queue.findRun_id decided
  subst isRun
  rw [history.same_task trace (mem_of_find decided) isFound] at isRow
  obtain ⟨first, isFirst, _, firstRows⟩ := history.sound.life_of_findTask owner
  obtain ⟨last, isLast, _, lastRows⟩ := (history.append trace).sound.life_of_findTask isRow
  subst isFirst isLast
  rw [((history.precedes trace firstRows lastRows).verdict (Or.inr cancelled)).1]
  exact cancelled

theorem expiredAt_iff {time : Timestamp} {run : RunRow} :
    expiredAt time run = true ↔ run.state = .running ∧
      ∃ expiry, run.claimExpiresAt = some expiry ∧ expiry ≤ time := by
  unfold expiredAt
  cases run.claimExpiresAt <;> simp

/-- A lost lease is never valid again. -/
theorem History.expiry_lasts (history : History space initial past seen) (forward : seen.Forward)
    (trace : Trace (Served space) seen later final) (decided : seen.store.findRun runId = some run)
    (expired : expiredAt (seen.clock 0) run = true) {found : RunRow}
    (isFound : final.store.findRun runId = some found) :
    found.Lost ∨ expiredAt (final.clock 0) found = true := by
  have isRun := Queue.findRun_id decided
  subst isRun
  obtain ⟨running, expiry, isExpiry, late⟩ := expiredAt_iff.mp expired
  have overdue : seen.Overdue run expiry := ⟨mem_of_find decided, running, isExpiry, late⟩
  rcases overdue.finds history forward trace isFound with same | lost
  · subst same
    obtain ⟨_, _, _, _, advances⟩ := Trace.advances trace history.sound
    have onward := late.trans (advances.forward forward).2
    exact Or.inr (expiredAt_iff.mpr ⟨running, expiry, isExpiry, onward⟩)
  · exact Or.inl lost

/-- What an outcome says of a run and its task at all later times.  A suspended
run goes on. -/
def ExecutionOutcome.Lasts (run : RunRow) (task : TaskRow) (time : Timestamp) :
    ExecutionOutcome → Prop
  | .completed => run.state = .completed
  | .failed => run.state = .failed
  | .cancelled => task.state = .cancelled
  | .suspended => True
  | .leaseLost => run.Lost ∨ expiredAt time run = true

/-- A confirmed outcome lasts. -/
theorem History.outcome_lasts (history : History space initial past seen)
    (forward : outcome = .leaseLost → seen.Forward) (trace : Trace (Served space) seen later final)
    (confirmed : seen.Confirms runId outcome) (isFound : final.store.findRun runId = some run)
    (isTask : final.store.findTask run.taskId = some task) :
    outcome.Lasts run task (final.clock 0) := by
  obtain ⟨decided, owner, isDecided, isOwner, isTrue⟩ := confirmed
  cases outcome with
  | completed =>
      have completed : decided.state = .completed := isTrue
      have same := history.run_lasts trace isDecided (by rw [completed]; rfl) isFound
      exact (congrArg RunRow.state same).trans completed
  | failed =>
      have failed : decided.state = .failed := isTrue
      have same := history.run_lasts trace isDecided (by rw [failed]; rfl) isFound
      exact (congrArg RunRow.state same).trans failed
  | cancelled => exact history.cancellation_lasts trace isDecided isOwner isTrue isFound isTask
  | suspended => trivial
  | leaseLost =>
      rcases isTrue with ⟨failed, _⟩ | expired
      · have same := history.run_lasts trace isDecided (by rw [failed]; rfl) isFound
        exact Or.inl (Or.inl ((congrArg RunRow.state same).trans failed))
      · exact history.expiry_lasts (forward rfl) trace isDecided expired isFound

/-- Only a suspension puts a running run to sleep. -/
theorem History.slept (history : History space initial past seen)
    (trace : Trace (Served space) seen later final) {decided : RunRow}
    (isDecided : seen.store.findRun runId = some decided)
    (unclaimable : decided.state.claimable = false)
    (isFound : final.store.findRun runId = some run) (waiting : run.state.claimable = true) :
    ∃ wakeAt, (⟨.scheduleRun runId wakeAt, .ok .suspended⟩ : Call) ∈ later := by
  let holds (calls : List Call) (world : World) : Prop :=
    world.Ready space ∧ (∀ ident, world.idents ident ≠ runId) ∧
      ((∃ wakeAt, (⟨.scheduleRun runId wakeAt, .ok .suspended⟩ : Call) ∈ calls) ∨
        ∀ found, world.store.findRun runId = some found → found.state.claimable = false)
  have begins : holds [] seen := by
    refine ⟨history.ready, ?_, Or.inr ?_⟩
    · intro ident same
      rw [← same, history.ready.unused] at isDecided
      cases isDecided
    · intro found isFound
      cases isDecided.symm.trans isFound
      exact unclaimable
  have kept : ∀ past source call target, Served space source call target → holds past source →
      holds (past ++ [call]) target := by
    rintro past source call target served ⟨ready, unnamed, offered⟩
    obtain ⟨readyAfter, onward⟩ := served.ready ready
    obtain ⟨drawn, isLater⟩ := onward.idents
    refine ⟨readyAfter, ?_, ?_⟩
    · intro ident
      rw [isLater]
      exact unnamed _
    · rcases offered with ⟨wakeAt, member⟩ | offered
      · exact Or.inl ⟨wakeAt, List.mem_append_left _ member⟩
      · by_contra neither
        push Not at neither
        obtain ⟨unslept, found, isFound, waits⟩ := neither
        have waits : found.state.claimable = true := Bool.eq_true_of_not_eq_false waits
        obtain ⟨life, member, shows_⟩ := readyAfter.sound.shows_of_findRun isFound
        obtain ⟨isLast, _⟩ := shows_.valid.active_run member (State.active_of_claimable waits)
        have isRun := Queue.findRun_id isFound
        subst isLast isRun
        obtain ⟨_, _, events, caused, advances⟩ := served.advances ready.sound
        obtain ⟨first, last, firstRows, lastRows, evolves⟩ := advances.evolves life.task.id
        have isLife : last = some life := Life.rows_injective (lastRows.symm.trans shows_.rows)
        subst isLife
        rw [← List.append_nil events] at advances caused
        rcases advances.claimable_origin caused ready.sound firstRows evolves waits with
          ⟨old, isOld, waited⟩ | ⟨wakeAt, isCall⟩ | ⟨ident, isIdent⟩
        · rw [offered old isOld] at waited
          cases waited
        · exact unslept wakeAt (isCall ▸ List.mem_append_right _ (List.mem_singleton_self _))
        · exact unnamed ident isIdent
  have reached : holds later final := trace.invariant_labels kept begins
  rcases reached.2.2 with slept | offered
  · exact slept
  · rw [offered run isFound] at waiting
    cases waiting

end Lasting

end Steda
