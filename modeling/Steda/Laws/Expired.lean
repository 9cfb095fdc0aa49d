import Steda.Laws.Finality
import Steda.Laws.Leases

/-!
# Expired leases

Once the lease of a running run has expired, nothing but failure or
cancellation happens to the run: no call of its worker has an effect any more
and supervision does not renew it.  A lease that is still valid is never
shortened by supervision.
-/

namespace Steda

open Postgres Transaction Relational

variable {space : Char → Bool} {life : Life} {world : World} {task : Uuid} {expiry : Timestamp}

/-! ## Events after the expiry -/

/-- The run failed or was cancelled. -/
def RunRow.Lost (run : RunRow) : Prop := run.state = .failed ∨ run.state = .cancelled

theorem RunRow.Lost.terminal {run : RunRow} (lost : run.Lost) : run.state.terminal = true := by
  rcases lost with failed | cancelled
  · rw [failed]
    rfl
  · rw [cancelled]
    rfl

/-- The run of a life failed or was cancelled. -/
def Life.Loses (life : Life) (runId : Uuid) : Prop :=
  ∃ run ∈ life.runs, run.id = runId ∧ run.Lost

/-- A transition decided after the expiry of a running last run ends the run. -/
theorem Transition.loses_of_expired {transition : Transition} (valid : life.Valid space)
    (enabled : transition.Enabled space life) (timely : transition.Timely life)
    (running : life.last.state = .running) (isExpiry : life.last.claimExpiresAt = some expiry)
    (late : expiry ≤ transition.stamp) : (transition.after life).Loses life.last.id := by
  have notLeased : ¬Leased transition.stamp life := by
    rintro ⟨other, isOther, early⟩
    rw [isExpiry] at isOther
    cases isOther
    exact not_le.mpr early late
  cases transition with
  | claim run worker nowAt expiresAt =>
      obtain ⟨_, claimable, _⟩ := enabled
      rw [running] at claimable
      cases claimable
  | complete run observedAt result => exact absurd timely.2 notLeased
  | sleep run observedAt wakeAt => exact absurd timely.2.2.1 notLeased
  | renew run observedAt expiry => exact absurd timely.2 notLeased
  | cancel nowAt => exact ⟨_, Life.last_mem_runs _, rfl, .inr rfl⟩
  | exhaust run observedAt reason => exact ⟨_, Life.last_mem_runs _, rfl, .inl rfl⟩
  | retry run observedAt reason newRun state availableAt =>
      refine ⟨life.last.fail observedAt reason, ?_, rfl, .inl rfl⟩
      exact Life.mem_runs.mpr (.inl (List.mem_append_right _ List.mem_cons_self))
  | abandon run observedAt reason nowAt => exact ⟨_, Life.last_mem_runs _, rfl, .inl rfl⟩
  | reopen newRun nowAt =>
      have isRunning : Running life.last.id life := ⟨rfl, running⟩
      rw [Transition.Enabled, isRunning.task_state valid] at enabled
      cases enabled

/-- An event after the expiry of a running last run leaves the life as it is or
ends the run. -/
theorem Event.Acts.of_expired {event : Event} {after : Option Life}
    (acts : event.Acts space True (some life) after) (valid : life.Valid space)
    (running : life.last.state = .running) (isExpiry : life.last.claimExpiresAt = some expiry)
    (late : ∀ reading ∈ event.stamps, expiry ≤ reading) :
    ∃ next, after = some next ∧ (next = life ∨ next.Loses life.last.id) := by
  cases event with
  | submitted row run => cases acts.1
  | moved id transition =>
      obtain ⟨before, isBefore, enabled, timely, isAfter⟩ := acts
      cases isBefore
      refine ⟨_, isAfter, .inr ?_⟩
      exact Transition.loses_of_expired valid enabled (timely trivial) running isExpiry
        (late _ List.mem_cons_self)
  | recorded checkpoint run observedAt =>
      obtain ⟨_, _, _, _, _, isAfter⟩ := acts
      exact ⟨life, isAfter, .inl rfl⟩
  | deleted id =>
      obtain ⟨⟨before, isBefore, terminal⟩, _⟩ := acts
      cases isBefore
      have isRunning : Transition.Running life.last.id life := ⟨rfl, running⟩
      rw [isRunning.task_state valid] at terminal
      cases terminal

/-- Events after the expiry of a running last run leave the life as it is or
end the run, whose row then stays while the task exists. -/
theorem Evolves.of_expired {events : List Event} {last : Option Life}
    (evolves : Evolves space True task events (some life) last)
    (valid : life.Valid space) (owner : life.task.id = task)
    (running : life.last.state = .running) (isExpiry : life.last.claimExpiresAt = some expiry)
    (late : ∀ event ∈ events, ∀ reading ∈ event.stamps, expiry ≤ reading)
    (fresh : .deleted task ∈ events → task ∉ events.flatMap Event.names) :
    last = some life ∨ ∀ later, last = some later → later.Loses life.last.id := by
  induction events with
  | nil => exact .inl evolves
  | cons event rest inductionHypothesis =>
      rw [List.flatMap_cons, List.mem_append, not_or] at fresh
      have freshRest : .deleted task ∈ rest → task ∉ rest.flatMap Event.names := fun inRest =>
        (fresh (List.mem_cons_of_mem _ inRest)).2
      have lateRest := fun other inRest => late other (List.mem_cons_of_mem _ inRest)
      rw [Evolves] at evolves
      by_cases own : event.task = task
      · rw [if_pos own] at evolves
        obtain ⟨between, acts, restEvolves⟩ := evolves
        obtain ⟨next, isNext, same | ⟨run, inRuns, isRun, lost⟩⟩ :=
          acts.of_expired valid running isExpiry (late event List.mem_cons_self)
        · subst isNext same
          exact inductionHypothesis restEvolves lateRest freshRest
        · subst isNext
          have lives : Lives space event.task (some life) := by
            rintro _ ⟨⟩
            exact ⟨valid, owner.trans own.symm⟩
          obtain ⟨nextValid, nextOwner⟩ := acts.lives lives next rfl
          refine .inr fun later isLater => ⟨run, ?_, isRun, lost⟩
          subst isLater
          exact (restEvolves.precedes nextValid (nextOwner.trans own) freshRest).terminalRuns run
            inRuns lost.terminal
      · rw [if_neg own] at evolves
        exact inductionHypothesis evolves lateRest freshRest

/-- Deletions do not touch a task that is not terminal. -/
theorem Evolves.of_deletions {timely : Prop} {events : List Event} {last : Option Life}
    (evolves : Evolves space timely task events (some life) last)
    (deletions : ∀ event ∈ events, ∃ id, event = .deleted id)
    (active : life.task.state.terminal = false) : last = some life := by
  induction events with
  | nil => exact evolves
  | cons event rest inductionHypothesis =>
      rw [Evolves] at evolves
      by_cases own : event.task = task
      · rw [if_pos own] at evolves
        obtain ⟨between, acts, _⟩ := evolves
        obtain ⟨id, rfl⟩ := deletions event List.mem_cons_self
        obtain ⟨⟨before, isBefore, terminal⟩, _⟩ := acts
        cases isBefore
        rw [active] at terminal
        cases terminal
      · rw [if_neg own] at evolves
        exact inductionHypothesis evolves fun other inRest =>
          deletions other (List.mem_cons_of_mem _ inRest)

/-! ## Two moments of a history -/

/-- With a clock that does not go back, every event is decided no earlier than
the first reading. -/
theorem Advances.not_before {before after : World} {readings : List Timestamp} {drawn : List Uuid}
    {events : List Event} (advances : Advances space before readings drawn events after)
    (forward : before.Forward) :
    ∀ event ∈ events, ∀ reading ∈ event.stamps, before.clock 0 ≤ reading := by
  intro event member reading isStamp
  have consumed := advances.stamped event member reading isStamp
  rw [advances.consumed] at consumed
  obtain ⟨position, _, isReading⟩ := List.mem_map.mp consumed
  rw [← isReading]
  exact forward (Nat.zero_le position)

theorem Advances.forward {before after : World} {readings : List Timestamp} {drawn : List Uuid}
    {events : List Event} (advances : Advances space before readings drawn events after)
    (forward : before.Forward) : after.Forward ∧ before.clock 0 ≤ after.clock 0 := by
  refine ⟨?_, ?_⟩
  · intro first second ordered
    rw [advances.clock, advances.clock]
    exact forward (Nat.add_le_add_left ordered _)
  · rw [advances.clock]
    exact forward (Nat.zero_le _)

section Moments

variable {initial reached final next : World} {past later : List Call} {call : Call}
  {run found : RunRow}

/-- A run identifier always belongs to the same task. -/
theorem History.same_task (history : History space initial past reached)
    (trace : Trace (Served space) reached later final)
    (before : run ∈ reached.store.runs) (after : final.store.findRun run.id = some found) :
    found.taskId = run.taskId := by
  obtain ⟨_, _, chunks, _, early⟩ := history.advances
  obtain ⟨_, _, more, _, late⟩ := Trace.advances trace history.sound
  have distinct := (early.trans late).names_nodup history.fresh
  rw [List.flatMap_append, List.nodup_append] at distinct
  obtain ⟨life, _, rows, inRuns⟩ := history.sound.life_of_run before
  obtain ⟨known, knownRows, evolvesEarly⟩ := early.evolves_to (history.initial_rows run.taskId)
  have isKnown : known = some life := Life.rows_injective (knownRows.symm.trans rows)
  subst isKnown
  have named := evolvesEarly.runs_named run inRuns
  obtain ⟨foundLife, _, foundRows, inFound⟩ := late.sound.life_of_run (mem_of_find after)
  obtain ⟨first, last, firstRows, lastRows, evolves⟩ := late.evolves found.taskId
  have isLast : last = some foundLife := Life.rows_injective (lastRows.symm.trans foundRows)
  subst isLast
  have sameId : found.id = run.id := Queue.findRun_id after
  rcases evolves.runs_introduced found inFound with ⟨old, isOld, row, inOld, isRow⟩ | again
  · have inRows : row ∈ (reached.store.rowsOf found.taskId).runs := by
      rw [firstRows, isOld]
      exact inOld
    obtain ⟨inReached, owner⟩ := mem_select.mp inRows
    have same : row = run :=
      List.inj_on_of_nodup_map history.sound.keyed.runs inReached before (isRow.trans sameId)
    rw [← same, owner]
  · rw [sameId] at again
    exact absurd rfl (distinct.2.2 _ named _ again)

/-- A run that is still running although its lease has run out by the next
reading of the clock. -/
structure World.Overdue (world : World) (run : RunRow) (expiry : Timestamp) : Prop where
  member : run ∈ world.store.runs
  running : run.state = .running
  isExpiry : run.claimExpiresAt = some expiry
  late : expiry ≤ world.clock 0

/-- At every later moment an overdue run is as it was or lost. -/
theorem World.Overdue.finds (overdue : reached.Overdue run expiry)
    (history : History space initial past reached) (forward : reached.Forward)
    (trace : Trace (Served space) reached later final)
    (isFound : final.store.findRun run.id = some found) : found = run ∨ found.Lost := by
  obtain ⟨life, valid, rows, inRuns⟩ := history.sound.life_of_run overdue.member
  obtain ⟨isLast, _⟩ := valid.running_last inRuns overdue.running
  subst isLast
  obtain ⟨_, _, chunks, _, advances⟩ := Trace.advances trace history.sound
  obtain ⟨last, lastRows, evolves⟩ := advances.evolves_to rows
  have owner : life.task.id = life.last.taskId := (valid.owned _ inRuns).symm
  have inLast : found ∈ (Life.rows last).runs := by
    rw [← lastRows, ← history.same_task trace overdue.member isFound]
    exact Queue.mem_rowsOf_of_findRun isFound
  have only : ∀ row ∈ (Life.rows last).runs, row.id = life.last.id → found = row := by
    intro row inRows sameId
    rw [← lastRows] at inRows
    have isRow := advances.sound.keyed.findRun_of_mem inRows
    rw [sameId, isFound] at isRow
    exact Option.some.inj isRow
  rcases evolves.of_expired valid owner overdue.running overdue.isExpiry
    (fun event member reading isStamp =>
      overdue.late.trans (advances.not_before forward event member reading isStamp))
    (fun _ => history.not_named_again advances rows) with same | loses
  · subst same
    exact .inl (only _ inRuns rfl)
  · cases last with
    | none => cases inLast
    | some later =>
        obtain ⟨row, inLater, sameId, lost⟩ := loses later rfl
        exact .inr ((only row inLater sameId) ▸ lost)

/-- A call leaves an overdue run as it is or loses it. -/
theorem World.Overdue.served (overdue : reached.Overdue run expiry)
    (history : History space initial past reached) (forward : reached.Forward)
    (served : Served space reached call next) :
    ∃ after, next.store.findRun run.id = some after ∧ (after = run ∨ after.Lost) := by
  obtain ⟨life, valid, rows, inRuns⟩ := history.sound.life_of_run overdue.member
  obtain ⟨isLast, running⟩ := valid.running_last inRuns overdue.running
  subst isLast
  obtain ⟨_, _, events, caused, advances⟩ := served.advances history.sound
  obtain ⟨last, lastRows, evolves⟩ := advances.evolves_to rows
  have owner : life.task.id = life.last.taskId := (valid.owned _ inRuns).symm
  have kept : ∀ row ∈ (Life.rows last).runs, next.store.findRun row.id = some row := by
    intro row inRows
    rw [← lastRows] at inRows
    exact advances.sound.keyed.findRun_of_mem inRows
  by_cases deleted : .deleted life.last.taskId ∈ events
  · have deletions : ∀ event ∈ events, ∃ id, event = .deleted id := by
      have may := caused.mayCause
      have isCleanup : call.operation = .cleanupTasks := by
        have only := may _ deleted
        revert only
        cases call.operation <;> simp [Operation.MayCause, Event.Sweeps]
      rw [isCleanup] at may
      intro event member
      have only := may event member
      cases event with
      | deleted id => exact ⟨id, rfl⟩
      | _ => exact absurd only id
    have active : life.task.state.terminal = false := by
      rw [running]
      rfl
    have same := evolves.of_deletions deletions active
    subst same
    exact ⟨_, kept _ inRuns, .inl rfl⟩
  · obtain ⟨after, isAfter⟩ := evolves.remains deleted
    subst isAfter
    rcases evolves.of_expired valid owner overdue.running overdue.isExpiry
      (fun event member reading isStamp =>
        overdue.late.trans (advances.not_before forward event member reading isStamp))
      (fun _ => history.not_named_again advances rows) with same | loses
    · cases same
      exact ⟨_, kept _ inRuns, .inl rfl⟩
    · obtain ⟨row, inAfter, sameId, lost⟩ := loses after rfl
      exact ⟨row, sameId ▸ kept row inAfter, .inr lost⟩

end Moments

/-! ## The calls of the worker -/

/-- The calls a worker makes to change its run. -/
def Operation.WorksOn (runId : Uuid) : Operation → Prop
  | .completeRun addressed _ => addressed = runId
  | .scheduleRun addressed _ => addressed = runId
  | .failRun addressed _ expectExpiredLease =>
      addressed = runId ∧ expectExpiredLease ≠ some true
  | .setTaskCheckpointState _ _ _ addressed => addressed = runId
  | _ => False

/-- A call on a run the gate refuses raises. -/
theorem Operation.WorksOn.raises {operation : Operation} {runId : Uuid} {error : SqlError}
    (worksOn : operation.WorksOn runId)
    (refused : (alone space (lockRunningAttempt runId (some false)) world).1 = .error error) :
    ∃ raised, (alone space (operation.program space) world).1 = .error raised := by
  cases operation with
  | completeRun addressed result =>
      cases worksOn
      exact ⟨error, alone_stop_fst refused _⟩
  | scheduleRun addressed wakeAt =>
      cases worksOn
      exact ⟨error, alone_stop_fst refused _⟩
  | failRun addressed reason expectExpiredLease =>
      obtain ⟨isRun, expects⟩ := worksOn
      subst isRun
      rw [← lockRunningAttempt_unexpired expects] at refused
      exact ⟨error, alone_stop_fst refused _⟩
  | setTaskCheckpointState taskId checkpointName newCheckpointState addressed =>
      cases worksOn
      change ∃ raised, (alone space (Steda.setTaskCheckpointState space taskId checkpointName
        newCheckpointState _) world).1 = .error raised
      unfold Steda.setTaskCheckpointState
      cases checkpointName with
      | none => exact ⟨_, rfl⟩
      | some name =>
          dsimp only
          split
          · exact ⟨_, rfl⟩
          · split
            · exact ⟨_, rfl⟩
            · exact ⟨error, alone_stop_fst refused _⟩
  | _ => exact absurd worksOn id

/-- The gate refuses every run that is not running under a valid lease. -/
theorem Queue.Sound.refuses_others {runId : Uuid} (sound : world.store.Sound space)
    (others : ∀ found, world.store.findRun runId = some found →
      ¬(found.state = .running ∧ expiredAt (world.clock 0) found = false)) :
    ∃ error, (alone space (lockRunningAttempt runId (some false)) world).1 = .error error := by
  cases isFound : world.store.findRun runId with
  | none => exact ⟨_, congrArg Prod.fst (alone_lockRunningAttempt_absent isFound _)⟩
  | some found =>
      obtain ⟨life, member, shows_⟩ := sound.shows_of_findRun isFound
      have refused : ∃ error, found.gate (world.clock 0) = .error error := by
        unfold RunRow.gate
        cases state : found.state with
        | running =>
            cases expired : expiredAt (world.clock 0) found with
            | true => exact ⟨_, rfl⟩
            | false => exact absurd ⟨state, expired⟩ (others found isFound)
        | _ => exact ⟨_, rfl⟩
      obtain ⟨error, isError⟩ := refused
      rw [← Queue.findRun_id isFound]
      exact ⟨error, congrArg Prod.fst (alone_gate_refused shows_ member isError)⟩

/-! ## Supervision -/

/-- A renewal interval that is not positive is an error. -/
theorem alone_superviseRun_invalid {runId : Uuid} {renewForSeconds : Option Int}
    (invalid : ¬RenewsPositively renewForSeconds) :
    ∃ error, (alone space (superviseRun runId renewForSeconds) world).1 = .error error := by
  obtain ⟨seconds, isSeconds, small⟩ : ∃ seconds, renewForSeconds = some seconds ∧ seconds ≤ 0 := by
    unfold RenewsPositively at invalid
    push Not at invalid
    exact invalid
  have rejected : (renewForSeconds.map fun seconds => decide (seconds ≤ 0)) = some true := by
    simp [isSeconds, small]
  unfold superviseRun
  rw [if_pos rejected]
  exact ⟨_, rfl⟩

/-- Supervision of a run that does not exist. -/
theorem alone_superviseRun_absent {runId : Uuid} {renewForSeconds : Option Int}
    (absent : world.store.findRun runId = none) (positive : RenewsPositively renewForSeconds) :
    (alone space (superviseRun runId renewForSeconds) world).1 = .error (.runNotFound runId) := by
  have accepted : ¬(renewForSeconds.map fun seconds => decide (seconds ≤ 0)) = some true := by
    cases renewForSeconds with
    | none => simp
    | some seconds =>
        have := positive seconds rfl
        simpa using this
  unfold superviseRun
  rw [if_neg accepted, alone_bind, alone_lockAttemptContext, absent]

/-- A running run under a valid lease before the deadline of its task is
supervised without shortening the lease. -/
theorem alone_superviseRun_kept (shows_ : world.store.Shows space life)
    (running : life.last.state = .running) (isExpiry : life.last.claimExpiresAt = some expiry)
    (valid : world.clock 0 < expiry) {renewForSeconds : Option Int}
    (positive : RenewsPositively renewForSeconds)
    (notDue : life.task.due (some (world.clock 0)) = .ok false) :
    ∃ after, alone space (superviseRun life.last.id renewForSeconds) world =
        (.ok .running, after) ∧
      ∃ run later, after.store.findRun life.last.id = some run ∧ run.state = .running ∧
        run.claimExpiresAt = some later ∧ expiry ≤ later := by
  have leased : Transition.Leased (world.clock 0) life := ⟨expiry, isExpiry, valid⟩
  cases renewForSeconds with
  | some seconds =>
      obtain ⟨store, supervised, showsAfter⟩ :=
        alone_superviseRun_leased shows_ running (positive seconds rfl) notDue leased
      have found := showsAfter.findRun (Life.last_mem_runs _)
      rw [life.supervised_last_id] at found
      refine ⟨_, supervised, _, _, found, (life.supervised_last_state _ _).trans running,
        life.supervised_expiry isExpiry seconds (world.clock 0), ?_⟩
      split
      · exact le_max_left _ _
      · exact le_rfl
  | none =>
      have begins := alone_superviseRun_of_running shows_ running positive
      rw [notDue] at begins
      have isContext : (AttemptContext.ofRows life.last life.task
        (world.clock 0)).claimExpiresAt = some expiry := isExpiry
      simp only [superviseInTime, isContext, AttemptContext.observedAt_ofRows,
        not_le.mpr valid, if_false] at begins
      exact ⟨_, begins, _, _, shows_.findRun life.last_mem_runs, running, isExpiry, le_rfl⟩

/-- Supervision under a valid lease leaves the run running with a lease that is
not shorter, unless the deadline of its task is due and it is cancelled. -/
theorem superviseRun_keeps (sound : world.store.Sound space) (shows_ : world.store.Shows space life)
    (running : life.last.state = .running) (isExpiry : life.last.claimExpiresAt = some expiry)
    (valid : world.clock 0 < expiry) {renewForSeconds : Option Int}
    {outcome : Except SqlError RunSupervision} {after : World}
    (served : Served space world ⟨.superviseRun life.last.id renewForSeconds, outcome⟩ after) :
    ∃ run, after.store.findRun life.last.id = some run ∧
      ((run.state = .running ∧ ∃ later, run.claimExpiresAt = some later ∧ expiry ≤ later) ∨
        (run.state = .cancelled ∧ outcome = .ok .cancelled)) := by
  let supervise : Operation := .superviseRun life.last.id renewForSeconds
  have isPerform : supervise.perform space world = (outcome, after) := served
  have raised : ∀ error, (alone space (superviseRun life.last.id renewForSeconds) world).1 =
      .error error → after.store = world.store := fun _ raises => (served.of_raises sound raises).2
  have unchanged : after.store = world.store →
      ∃ run, after.store.findRun life.last.id = some run ∧
        ((run.state = .running ∧ ∃ later, run.claimExpiresAt = some later ∧ expiry ≤ later) ∨
          (run.state = .cancelled ∧ outcome = .ok .cancelled)) := by
    intro same
    rw [same]
    exact ⟨_, shows_.findRun life.last_mem_runs, .inl ⟨running, expiry, isExpiry, le_rfl⟩⟩
  by_cases positive : RenewsPositively renewForSeconds
  · have begins := alone_superviseRun_of_running shows_ running positive
    cases due : life.task.due (some (world.clock 0)) with
    | error error =>
        rw [due] at begins
        exact unchanged (raised error (congrArg Prod.fst begins))
    | ok isDue =>
        cases isDue with
        | false =>
            obtain ⟨later, supervised, run, renewed, found, stillRunning, isRenewed, longer⟩ :=
              alone_superviseRun_kept shows_ running isExpiry valid positive due
            have performed : supervise.perform space world = _ :=
              Operation.perform_returned sound supervised
            obtain ⟨_, rfl⟩ := Prod.mk.inj (performed.symm.trans isPerform)
            exact ⟨run, found, .inl ⟨stillRunning, renewed, isRenewed, longer⟩⟩
        | true =>
            rw [due] at begins
            have performed : supervise.perform space world = _ :=
              Operation.perform_returned sound begins
            obtain ⟨isOutcome, rfl⟩ := Prod.mk.inj (performed.symm.trans isPerform)
            have isRunning : Transition.Running life.last.id life := ⟨rfl, running⟩
            have enabled : (Transition.cancel (world.clock 1)).Enabled space life := by
              change life.task.state.terminal = false
              rw [isRunning.task_state shows_.valid]
              rfl
            have written := shows_.write enabled fun _ impossible => nomatch impossible
            have cancelled := ((Transition.cancel (world.clock 1)).after life).last_mem_runs
            exact ⟨life.last.cancel, written.findRun cancelled, .inr ⟨rfl, isOutcome.symm⟩⟩
  · obtain ⟨error, raises⟩ := @alone_superviseRun_invalid space world life.last.id _ positive
    exact unchanged (raised error raises)

/-- The name of a failure. -/
def RunRow.failureName (run : RunRow) : Option String :=
  run.failureReason.bind fun reason => reason.text? "name"

theorem leaseExpiredReason_name (context : AttemptContext) :
    (leaseExpiredReason context).text? "name" = some leaseExpiredName := by
  rfl

/-- A failed attempt leaves its task cancelled, or its run failed for the given
reason. -/
theorem Life.failure_failed {queue : Queue} {transition : Transition}
    {observedAt nowAt : Timestamp} {reason : Json} {newRun : Uuid}
    (shows_ : queue.Shows space life) (running : life.last.state = .running)
    (fails : life.failure observedAt nowAt reason newRun = .ok transition)
    (fresh : transition.Fresh queue) :
    (transition.write life queue).supervisedExpiry life.task.id = .cancelled ∨
      ∃ run, (transition.write life queue).findRun life.last.id = some run ∧
        run.state = .failed ∧ run.failureReason = some reason := by
  have written := shows_.write (Life.failure_enabled running shows_.valid fails) fresh
  rcases Life.outcome_of_failure fails with ⟨isCancelled, _⟩ | member
  · have found := written.findTask
    rw [transition.after_id] at found
    refine .inl ?_
    unfold Queue.supervisedExpiry
    rw [found, Option.map_some, isCancelled, if_pos rfl]
  · exact .inr ⟨life.last.fail observedAt (some reason), written.findRun member, rfl, rfl⟩

/-- Supervision that reports the lost lease of a run that was running has failed
the run under the reserved name. -/
theorem superviseRun_lost_running (ready : world.Ready space) (forward : world.Forward)
    (shows_ : world.store.Shows space life) (running : life.last.state = .running)
    {renewForSeconds : Option Int} (positive : RenewsPositively renewForSeconds) {after : World}
    (returned : alone space (superviseRun life.last.id renewForSeconds) world =
      (.ok .leaseLost, after)) :
    ∃ run, after.store.findRun life.last.id = some run ∧ run.state = .failed ∧
      run.failureName = some leaseExpiredName := by
  rw [alone_superviseRun_of_running shows_ running positive] at returned
  have ticked : world.tick.store.Shows space life := shows_
  have notDue : life.task.due (some (world.clock 0)) = .ok false := by
    cases due : life.task.due (some (world.clock 0)) with
    | error error =>
        rw [due] at returned
        cases returned
    | ok isDue =>
        cases isDue with
        | true =>
            rw [due] at returned
            cases returned
        | false => rfl
  rw [notDue] at returned
  obtain ⟨expiry, isExpiry⟩ :=
    RunRow.expiry_of_running (shows_.valid.lease life.last_mem_runs) running
  rcases lt_or_ge (world.clock 0) expiry with early | late
  · have supervised := @alone_superviseInTime_leased space life world.tick renewForSeconds ticked
      running _ ⟨expiry, isExpiry, early⟩
    dsimp only at returned
    rw [returned] at supervised
    cases supervised
  · have expired : ∀ position, expiredAt (world.clock position) life.last = true := by
      intro position
      have later := late.trans (forward (Nat.zero_le position))
      simp [expiredAt, running, isExpiry, later]
    have reaps := alone_reapExpiredRun ticked (expired 1) (expired 2) (ready.unused 0)
    have supervised := @alone_superviseInTime_expired space life world.tick renewForSeconds _
      (expired 0)
    dsimp only at returned
    rw [supervised] at returned
    cases fails : life.failure (world.tick.clock 1) (world.tick.clock 2)
        (life.expiryReason (world.tick.clock 0)) (world.tick.idents 0) with
    | error error =>
        rw [fails] at reaps
        rcases ran : alone space (reapExpiredRun life.last.id) world.tick with ⟨_ | _, _⟩
        · rw [ran] at returned
          cases returned
        · rw [ran] at reaps
          cases reaps
    | ok transition =>
        rw [fails] at reaps
        dsimp only at reaps
        rw [reaps] at returned
        obtain ⟨isOutcome, rfl⟩ := Prod.mk.inj returned
        rcases Life.failure_failed shows_ running fails (ready.tick.fresh_failure fails) with
          cancelled | ⟨run, found, failed, isReason⟩
        · rw [← shows_.valid.owned _ life.last_mem_runs] at cancelled
          exact absurd ((Except.ok.inj isOutcome).symm.trans cancelled) (by decide)
        · refine ⟨run, found, failed, ?_⟩
          rw [RunRow.failureName, isReason]
          exact leaseExpiredReason_name (.ofRows life.last life.task (world.clock 1))

/-- Supervision that reports a lost lease leaves the run failed under the
reserved name. -/
theorem superviseRun_lost (ready : world.Ready space) (forward : world.Forward) {runId : Uuid}
    {renewForSeconds : Option Int} {after : World}
    (served : Served space world ⟨.superviseRun runId renewForSeconds, .ok .leaseLost⟩ after) :
    ∃ run, after.store.findRun runId = some run ∧ run.state = .failed ∧
      run.failureName = some leaseExpiredName := by
  let supervise : Operation := .superviseRun runId renewForSeconds
  have isPerform : supervise.perform space world = (.ok .leaseLost, after) := served
  have returned : alone space (superviseRun runId renewForSeconds) world = (.ok .leaseLost, after) := by
    rw [supervise.perform_eq ready.sound] at isPerform
    rcases ran : alone space (supervise.program space) world with ⟨_ | _, _⟩
    · rw [ran] at isPerform
      cases isPerform
    · rw [ran] at isPerform
      exact ran.trans isPerform
  have positive : RenewsPositively renewForSeconds := by
    by_contra invalid
    obtain ⟨error, raises⟩ := @alone_superviseRun_invalid space world runId _ invalid
    rw [returned] at raises
    cases raises
  cases isFound : world.store.findRun runId with
  | none =>
      have raises := @alone_superviseRun_absent space world _ _ isFound positive
      rw [returned] at raises
      cases raises
  | some run =>
      obtain ⟨life, member, shows_⟩ := ready.sound.shows_of_findRun isFound
      have isId : run.id = runId := Queue.findRun_id isFound
      subst isId
      by_cases running : run.state = .running
      · obtain ⟨isLast, _⟩ := shows_.valid.running_last member running
        subst isLast
        exact superviseRun_lost_running ready forward shows_ running positive returned
      · have supervised := alone_superviseRun shows_ member positive
        rw [returned] at supervised
        split at supervised
        · cases supervised
        · cases state : run.state with
          | failed =>
              simp only [state] at supervised
              obtain ⟨isFailure, rfl⟩ := Prod.mk.inj supervised
              refine ⟨run, isFound, state, ?_⟩
              unfold supervisedFailure at isFailure
              split at isFailure
              · next named => exact named
              · cases isFailure
          | running => exact absurd state running
          | _ =>
              simp only [state] at supervised
              cases supervised

/-! ## The law -/

/-- What operations do to a run from the moment on at which its lease has run
out. -/
structure LeaseOver (space : Char → Bool) (moment : World) (run : RunRow) : Prop where
  /-- Every operation leaves the run as it is or makes it failed or cancelled;
  only then it may be deleted. -/
  operations : ∀ later reached call next found, Trace (Served space) moment later reached →
    Served space reached call next → reached.store.findRun run.id = some found →
      next.store.findRun run.id = some found ∨
      (found = run ∧ ∃ lost, next.store.findRun run.id = some lost ∧ lost.Lost) ∨
      (found.Lost ∧ next.store.findRun run.id = none)
  /-- The worker's calls on the run raise and change nothing. -/
  worker : ∀ later reached (operation : Operation) outcome next,
    Trace (Served space) moment later reached → operation.WorksOn run.id →
      Served space reached ⟨operation, outcome⟩ next →
        (∃ error, outcome = .error error) ∧ next.store = reached.store
  /-- Supervision does not extend the lease. -/
  supervision : ∀ later reached renewForSeconds outcome next found expiry,
    Trace (Served space) moment later reached →
      Served space reached ⟨.superviseRun run.id renewForSeconds, outcome⟩ next →
        next.store.findRun run.id = some found → found.claimExpiresAt = some expiry →
          run.claimExpiresAt = some expiry

/-- What the lease of a run means in a state. -/
structure LeasesEnd (space : Char → Bool) (reached : World) : Prop where
  /-- Expired leases are over. -/
  expired : ∀ run expiry, reached.Overdue run expiry → LeaseOver space reached run
  /-- Supervision does not shorten a valid lease: the run goes on with a lease
  at least as long, or its task is cancelled at its deadline. -/
  valid : ∀ run ∈ reached.store.runs, ∀ expiry, run.state = .running →
    run.claimExpiresAt = some expiry → reached.clock 0 < expiry →
      ∀ renewForSeconds outcome next,
        Served space reached ⟨.superviseRun run.id renewForSeconds, outcome⟩ next →
          ∃ found, next.store.findRun run.id = some found ∧
            ((found.state = .running ∧
              ∃ later, found.claimExpiresAt = some later ∧ expiry ≤ later) ∨
            (found.state = .cancelled ∧ outcome = .ok .cancelled))
  /-- After `lease_lost` the run has failed under the reserved name, and stays
  so while its task exists. -/
  lost : ∀ runId renewForSeconds next,
    Served space reached ⟨.superviseRun runId renewForSeconds, .ok .leaseLost⟩ next →
      ∃ run, next.store.findRun runId = some run ∧ run.state = .failed ∧
        run.failureName = some leaseExpiredName ∧
          ∀ later final, Trace (Served space) next later final →
            (final.store.findTask run.taskId).isSome → final.store.findRun runId = some run

section Law

variable {initial reached final next : World} {past later : List Call} {call : Call}
  {run found : RunRow}

/-- A run that is still overdue at a later moment. -/
theorem World.Overdue.remains (overdue : reached.Overdue run expiry)
    (history : History space initial past reached) (forward : reached.Forward)
    (trace : Trace (Served space) reached later final)
    (isFound : final.store.findRun run.id = some run) :
    final.Overdue run expiry ∧ final.Forward := by
  obtain ⟨_, _, _, _, advances⟩ := Trace.advances trace history.sound
  obtain ⟨forwardAfter, notBefore⟩ := advances.forward forward
  exact ⟨⟨mem_of_find isFound, overdue.running, overdue.isExpiry,
    overdue.late.trans notBefore⟩, forwardAfter⟩

/-- A lost run keeps its row while it exists. -/
theorem History.lost_kept (history : History space initial past reached)
    (isFound : reached.store.findRun run.id = some found) (lost : found.Lost)
    (served : Served space reached call next) :
    next.store.findRun run.id = some found ∨ next.store.findRun run.id = none := by
  have sameId : found.id = run.id := Queue.findRun_id isFound
  have member := mem_of_find isFound
  have trace : Trace (Served space) reached [call] next := .cons served (.nil next)
  cases isNext : next.store.findRun run.id with
  | none => exact .inr rfl
  | some row =>
      have sameTask : row.taskId = found.taskId :=
        history.same_task trace member (sameId ▸ isNext)
      obtain ⟨life, inRuns, shows_⟩ := (history.append trace).sound.shows_of_findRun isNext
      have exists_ : (next.store.findTask found.taskId).isSome := by
        rw [← sameTask, shows_.owner inRuns]
        rfl
      have kept := history.verdicts_final.runs found member lost.terminal _ _ trace exists_
      rw [sameId, isNext] at kept
      exact .inl kept

/-- In every later state, and after one more call, an overdue run is as it was
or lost. -/
theorem World.Overdue.over (overdue : reached.Overdue run expiry)
    (history : History space initial past reached) (forward : reached.Forward) :
    LeaseOver space reached run where
  operations := by
    intro later final call next found trace served isFound
    rcases overdue.finds history forward trace isFound with same | lost
    · subst same
      obtain ⟨still, forwardThen⟩ := overdue.remains history forward trace isFound
      obtain ⟨after, isAfter, same | lost⟩ := still.served (history.append trace) forwardThen served
      · exact .inl (same ▸ isAfter)
      · exact .inr (.inl ⟨rfl, after, isAfter, lost⟩)
    · rcases (history.append trace).lost_kept isFound lost served with kept | deleted
      · exact .inl kept
      · exact .inr (.inr ⟨lost, deleted⟩)
  worker := by
    intro later final operation outcome next trace worksOn served
    have sound := (history.append trace).sound
    have unusable : ∀ found, final.store.findRun run.id = some found →
        ¬(found.state = .running ∧ expiredAt (final.clock 0) found = false) := by
      rintro found isFound ⟨running, inTime⟩
      rcases overdue.finds history forward trace isFound with same | failed | cancelled
      · subst same
        obtain ⟨still, _⟩ := overdue.remains history forward trace isFound
        have late : expiredAt (final.clock 0) found = true := by
          simp [expiredAt, still.running, still.isExpiry, still.late]
        rw [late] at inTime
        cases inTime
      · rw [failed] at running
        cases running
      · rw [cancelled] at running
        cases running
    obtain ⟨error, refused⟩ := sound.refuses_others unusable
    obtain ⟨raised, raises⟩ := worksOn.raises refused
    obtain ⟨isOutcome, sameStore⟩ := served.of_raises sound raises
    exact ⟨⟨raised, isOutcome⟩, sameStore⟩
  supervision := by
    intro later final renewForSeconds outcome next found expires trace served isFound isExpires
    have whole := trace.append (.cons served (.nil next))
    rcases overdue.finds history forward whole isFound with same | lost
    · exact same ▸ isExpires
    · obtain ⟨life, inRuns, shows_⟩ := (history.append whole).sound.shows_of_findRun isFound
      have notLeased := shows_.valid.lease inRuns
      have notRunning : found.state ≠ .running := by
        intro running
        have terminal := lost.terminal
        rw [running] at terminal
        cases terminal
      simp only [RunRow.leaseMatchesState, if_neg notRunning, Bool.and_eq_true] at notLeased
      rw [isExpires] at notLeased
      simp at notLeased

/-- In every history whose clock does not go back, an expired lease is over:
the run is left as it is or fails or is cancelled, the calls of its worker have
no effect and supervision does not extend its lease.  A valid lease is not
shortened, and a lost lease is recorded as the failure of the run. -/
theorem History.leases_end (history : History space initial past reached)
    (forward : initial.Forward) : LeasesEnd space reached := by
  obtain ⟨_, _, _, _, advances⟩ := history.advances
  obtain ⟨forwardThen, _⟩ := advances.forward forward
  refine ⟨?_, ?_, ?_⟩
  · intro run expiry overdue
    exact overdue.over history forwardThen
  · intro run member expiry running isExpiry early renewForSeconds outcome next served
    have isFound := find_of_mem history.sound.keyed.runs member
    obtain ⟨life, inRuns, shows_⟩ := history.sound.shows_of_findRun isFound
    obtain ⟨isLast, _⟩ := shows_.valid.running_last inRuns running
    subst isLast
    exact superviseRun_keeps history.sound shows_ running isExpiry early served
  · intro runId renewForSeconds next served
    obtain ⟨run, isFound, failed, named⟩ := superviseRun_lost history.ready forwardThen served
    refine ⟨run, isFound, failed, named, ?_⟩
    intro later final trace exists_
    have nextHistory := history.append (.cons served (.nil next))
    rw [← Queue.findRun_id isFound]
    exact nextHistory.verdicts_final.runs run (mem_of_find isFound)
      (RunRow.Lost.terminal (.inl failed)) later final trace exists_

end Law

/-- The clock of a blank world that advances does not go back. -/
theorem World.forward_blank {tick : Int} (advancing : 0 ≤ tick) : (World.blank tick).Forward := by
  intro first second ordered
  exact Int.mul_le_mul_of_nonneg_right (Int.ofNat_le.mpr ordered) advancing

/-- A run whose lease ends exactly at the next reading. -/
theorem History.leases_end_claimed :
    let served := World.serve asciiSpace [plainSubmission [], plainClaim "worker"]
      (.blank (60 * second))
    served.2.store.runs.map RunRow.claimExpiresAt = [some (served.2.clock 0)] ∧
      LeasesEnd asciiSpace served.2 :=
  ⟨rfl, History.leases_end (World.history_serve _ _) (World.forward_blank (by decide))⟩

end Steda
