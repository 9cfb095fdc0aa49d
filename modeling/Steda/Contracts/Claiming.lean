import Steda.Contracts.Failure

/-!
# Contracts of supervision, of the sweeps and of claiming
-/

namespace Steda

open Postgres Transaction Relational

variable {space : Char → Bool} {quiet : Prop} {raises : SqlError → Tx → Prop}
variable {tx : Tx} {ledger : Ledger}

/-! ## Expired leases -/

/-- An event that fails a run because its lease ended, or cancels its task. -/
def Reaped (space : Char → Bool) (quiet : Prop) (ledger : Ledger) (runId : Uuid) (tx : Tx) :
    Prop :=
  ∃ context, FailedRun space quiet ledger runId (some (leaseExpiredReason context)) tx

/-- A running run of a valid life is its last run and authoritative. -/
theorem Life.Valid.running_run {life : Life} (valid : life.Valid space) {run : RunRow}
    (member : run ∈ life.runs) (running : run.state = .running) :
    run = life.last ∧ life.task.state = .running ∧ life.task.lastAttemptRun = run.id ∧
      ∃ expiry, run.claimExpiresAt = some expiry := by
  have active : run.state.active = true := by
    rw [running]
    rfl
  obtain ⟨isLast, sameState⟩ := valid.active_run member active
  refine ⟨isLast, sameState.trans running, ?_, ?_⟩
  · rw [isLast]
    exact valid.pointed
  · have leased := valid.lease member
    cases lease : run.claimExpiresAt with
    | some expiry => exact ⟨expiry, rfl⟩
    | none =>
        cases owner : run.claimedBy <;>
          simp [RunRow.leaseMatchesState, running, owner, lease] at leased

/-- `reap_expired_run` returns TRUE after failing the run and FALSE after
finding it no longer expired. -/
theorem guarantees_reapExpiredRun (reports : Reports quiet raises) (runId : Uuid)
    (settled : Stably space quiet (Settled space quiet ledger) tx) :
    Guarantees space quiet (reapExpiredRun runId)
      (fun reaped tx => (reaped = true ∧ Reaped space quiet ledger runId tx) ∨
        (reaped = false ∧ Reaches space quiet ledger [] tx)) raises tx := by
  have anything : Stably space quiet (fun _ => True) tx := fun _ _ => trivial
  apply Program.Ensures.bind
  refine Program.Ensures.mono ?_ (fun _ _ raised => raised)
    (guarantees_lockAttemptContext reports runId persistent_true settled anything)
  rintro context afterGate ⟨⟨life, run, observedAt, member, isRun, isContext, owns⟩, -⟩
  subst isContext isRun
  have valid := owns.now.lives.1
  have extended := ledger.extends_observe observedAt
  have settledNow : Stably space quiet (Settled space quiet (ledger.observe observedAt))
      afterGate := Rely.Stable.mono (fun _ known => known.settle) owns
  by_cases expired : (AttemptContext.ofRows run life.task observedAt).leaseExpired = true
  · simp only [expired, Bool.not_true, Bool.false_eq_true, if_false]
    have both := (Bool.and_eq_true _ _).mp expired
    have running : run.state = .running := by simpa [AttemptContext.ofRows] using both.1
    obtain ⟨isLast, taskRunning, pointed, expiry, lease⟩ := valid.running_run member running
    have late : expiry ≤ observedAt := by
      simpa [AttemptContext.ofRows, lease] using both.2
    have authoritative : ¬((AttemptContext.ofRows run life.task observedAt).taskState ≠ .running ∨
        (AttemptContext.ofRows run life.task observedAt).authoritativeRunId ≠ run.id) := by
      simp [AttemptContext.ofRows, taskRunning, pointed]
    simp only [authoritative, if_false]
    apply Program.Ensures.bind
    have sees : Stably space quiet (Sees life.task.id (Life.rows (some life))) afterGate :=
      Rely.Stable.mono (fun _ known => ⟨known.locked, known.rows⟩) owns
    refine Program.Ensures.mono ?_ (fun _ _ raised => raised)
      (guarantees_failRun reports run.id (some true) (persistent_sees _ _) settledNow sees ?_
        (Or.inl rfl))
    · rintro _ later failed store moved
      exact Or.inl ⟨rfl, _, (failed.after moved).prepend extended⟩
    · intro _ other secondAt otherExpiry now known seen isOther otherLease observedEarly
      have sameRun : other.last = run := by
        have first := known.findRun other.last_mem_runs
        have second : now.queue.findRun run.id = some run := by
          apply known.consistent.keyed.findRun_of_mem
          rw [seen.2]
          exact member
        rw [isOther] at first
        exact Option.some.inj (first.symm.trans second)
      rw [sameRun, lease] at otherLease
      cases otherLease
      refine reports.leaseNotExpired run.id now ?_
      rw [known.consistent.readings]
      intro ordered
      have increasing := (List.pairwise_append.mp ordered).2.2 observedAt
        (by simp [Ledger.observe]) secondAt (by simp)
      exact absurd (increasing.trans_lt observedEarly) (not_lt.mpr late)
  · have notExpired : (AttemptContext.ofRows run life.task observedAt).leaseExpired = false := by
      simpa using expired
    simp only [notExpired, Bool.not_false, if_true]
    intro store moved
    exact Or.inr ⟨rfl, Reaches.prepend extended (Reaches.nothing (settledNow.after moved))⟩

/-! ## Supervision -/

/-- The transaction sees a run that is running. -/
def SeesRunning (runId : Uuid) (tx : Tx) : Prop :=
  ∃ run, tx.queue.findRun runId = some run ∧ run.state = .running

/-- What `supervise_run` has done when it returns. -/
def Supervised (space : Char → Bool) (quiet : Prop) (ledger : Ledger) (runId : Uuid) :
    RunSupervision → Tx → Prop
  | .running, tx => Stably space quiet (SeesRunning runId) tx ∧
      (Reaches space quiet ledger [] tx ∨ ∃ task observedAt expiry,
        Reaches space quiet ledger [.moved task (.renew runId observedAt expiry)] tx)
  | .completed, tx | .failed, tx | .suspended, tx => Reaches space quiet ledger [] tx
  | .cancelled, tx => Reaches space quiet ledger [] tx ∨
      (∃ task nowAt, Reaches space quiet ledger [.moved task (.cancel nowAt)] tx) ∨
      Reaped space quiet ledger runId tx
  | .leaseLost, tx => Reaches space quiet ledger [] tx ∨ Reaped space quiet ledger runId tx

theorem Reaped.prepend {runId : Uuid} {middle : Ledger} (extended : ledger.Extends [] middle)
    (reaped : Reaped space quiet middle runId tx) : Reaped space quiet ledger runId tx := by
  obtain ⟨context, failed⟩ := reaped
  exact ⟨context, failed.prepend extended⟩

theorem Reaped.after {runId : Uuid} {store : Queue}
    (reaped : Reaped space quiet ledger runId tx)
    (moved : (interference space quiet).moves tx.held tx.committed store) :
    Reaped space quiet ledger runId (tx.withCommitted store) := by
  obtain ⟨context, failed⟩ := reaped
  exact ⟨context, failed.after moved⟩

/-- A change of the last run that keeps it running is a renewal. -/
theorem guarantees_superviseRunning (reports : Reports quiet raises)
    (renewForSeconds : Option Int) {life : Life} {observedAt : Timestamp}
    (owns : Stably space quiet (Owns space quiet ledger life.task.id life
      (Life.rows (some life))) tx)
    (running : life.last.state = .running) (observed : observedAt ∈ ledger.readings) :
    Guarantees space quiet (superviseRunning life.last.id renewForSeconds
        (.ofRows life.last life.task observedAt))
      (Supervised space quiet ledger life.last.id) raises tx := by
  have valid := owns.now.lives.1
  obtain ⟨_, taskRunning, pointed, expiry, lease⟩ :=
    valid.running_run life.last_mem_runs running
  have sameTask : (AttemptContext.ofRows life.last life.task observedAt).taskId =
      life.task.id := valid.owned _ life.last_mem_runs
  have authoritative : ¬((AttemptContext.ofRows life.last life.task observedAt).taskState ≠
      .running ∨ (AttemptContext.ofRows life.last life.task observedAt).authoritativeRunId ≠
        life.last.id) := by
    simp [AttemptContext.ofRows, taskRunning, pointed]
  unfold superviseRunning
  rw [sameTask]
  simp only [authoritative, if_false]
  apply Program.Ensures.bind
  refine Program.Ensures.mono ?_ (fun _ _ raised => raised)
    (guarantees_ofExcept owns fun error tx failed known =>
      reports.deadline error life.task _ tx (fun _ => known.task_mem rfl) failed)
  rintro due afterDue ⟨isDue, owned⟩
  cases due with
  | true =>
      apply Program.Ensures.bind
      refine Program.Ensures.mono ?_ (fun _ _ raised => raised)
        (guarantees_cancelTask_running owned ⟨rfl, running⟩)
      rintro _ later ⟨-, ⟨nowAt, reached⟩, -⟩ store moved
      exact Or.inr (Or.inl ⟨life.task.id, nowAt, reached.after moved⟩)
  | false =>
      simp only [Bool.false_eq_true, if_false]
      rw [show (AttemptContext.ofRows life.last life.task observedAt).claimExpiresAt =
        some expiry from lease]
      have settled : Stably space quiet (Settled space quiet ledger) afterDue :=
        Rely.Stable.mono (fun _ known => known.settle) owned
      by_cases expired : expiry ≤ observedAt
      · have late : expiry ≤
            (AttemptContext.ofRows life.last life.task observedAt).observedAt := expired
        simp only [late, if_true]
        apply Program.Ensures.bind
        refine Program.Ensures.mono ?_ (fun _ _ raised => raised)
          (guarantees_reapExpiredRun reports life.last.id settled)
        intro reaped afterReap outcome
        have lost : ∀ later, (interference space quiet).moves afterReap.held afterReap.committed
            later → Reaches space quiet ledger [] (afterReap.withCommitted later) ∨
              Reaped space quiet ledger life.last.id (afterReap.withCommitted later) := by
          intro later moved
          rcases outcome with ⟨-, reaped⟩ | ⟨-, reached⟩
          · exact Or.inr (reaped.after moved)
          · exact Or.inl (reached.after moved)
        apply Program.Ensures.bind
        apply Program.ensures_read
        intro store moved later movedLater again movedAgain
        have outcomeLater := lost again ((interference space quiet).trans moved
          ((interference space quiet).trans movedLater movedAgain))
        split
        · rcases outcomeLater with reached | reaped
          · exact Or.inl reached
          · exact Or.inr (Or.inr reaped)
        · exact outcomeLater
      · have early : ¬expiry ≤
            (AttemptContext.ofRows life.last life.task observedAt).observedAt := expired
        have seesRunning : ∀ {now : Tx}, Stably space quiet (Owns space quiet ledger life.task.id
            life (Life.rows (some life))) now →
              Stably space quiet (SeesRunning life.last.id) now := fun known =>
          Rely.Stable.mono (fun _ owned => ⟨_, owned.findRun life.last_mem_runs, running⟩) known
        simp only [early, if_false]
        cases renewForSeconds with
        | none =>
            intro store moved
            exact ⟨seesRunning (owned.after moved),
              Or.inl (Reaches.nothing (settled.after moved))⟩
        | some seconds =>
            by_cases window : 2 * (expiry -
                (AttemptContext.ofRows life.last life.task observedAt).observedAt) ≤
                  seconds * second
            · simp only [window, if_true]
              have enabled : (Transition.renew life.last.id observedAt
                  (observedAt + seconds * second)).Enabled space life := ⟨rfl, running⟩
              have nextValid := Transition.valid_after valid enabled
              have nextChecked := nextValid.runsChecked _ (Life.last_mem_runs _)
              apply Program.Ensures.bind
              refine Program.Ensures.mono ?_ (fun _ _ raised => raised)
                (guarantees_updateLast owned rfl ?_)
              · rintro _ afterRun ⟨-, owned⟩ store moved
                refine ⟨?_, Or.inr ⟨life.task.id, observedAt, observedAt + seconds * second, ?_⟩⟩
                · refine Rely.Stable.mono (fun _ known => ?_) (owned.after moved)
                  have isLast := known.findRun (List.mem_append_right _
                    (List.mem_singleton_self _))
                  exact ⟨_, isLast, running⟩
                · refine Reaches.moved (owned.after moved) enabled
                    (fun _ => ⟨isDue, expiry, lease, not_le.mp expired⟩) observed ?_
                  exact Ledger.named_nothing _
              · intro error later refused
                cases nextChecked.symm.trans refused
            · simp only [window, if_false]
              intro store moved
              exact ⟨seesRunning (owned.after moved),
                Or.inl (Reaches.nothing (settled.after moved))⟩

/-- `supervise_run` reports the state of the run and may renew its lease, cancel
its task or reap it. -/
theorem guarantees_superviseRun (reports : Reports quiet raises) (runId : Uuid)
    (renewForSeconds : Option Int) (settled : Stably space quiet (Settled space quiet ledger) tx)
    (positive : (∀ seconds ∈ renewForSeconds, 0 < seconds) ∨ Tolerates raises) :
    Guarantees space quiet (superviseRun runId renewForSeconds)
      (Supervised space quiet ledger runId) raises tx := by
  unfold superviseRun
  by_cases notPositive : (renewForSeconds.map fun seconds => decide (seconds ≤ 0)) = some true
  · simp only [notPositive, if_true]
    rcases positive with allPositive | tolerates
    · obtain ⟨seconds, given, nonpositive⟩ := Option.map_eq_some_iff.mp notPositive
      have bound := allPositive seconds given
      exact absurd (of_decide_eq_true nonpositive) (not_le.mpr bound)
    · exact fun store _ => tolerates _ _ rfl
  · simp only [notPositive, if_false]
    have anything : Stably space quiet (fun _ => True) tx := fun _ _ => trivial
    apply Program.Ensures.bind
    refine Program.Ensures.mono ?_ (fun _ _ raised => raised)
      (guarantees_lockAttemptContext reports runId persistent_true settled anything)
    rintro context afterGate ⟨⟨life, run, observedAt, member, isRun, isContext, owns⟩, -⟩
    subst isContext isRun
    have valid := owns.now.lives.1
    have extended := ledger.extends_observe observedAt
    have unchanged : ∀ store, (interference space quiet).moves afterGate.held afterGate.committed
        store → Reaches space quiet ledger [] (afterGate.withCommitted store) := by
      intro store moved
      exact Reaches.prepend extended (Reaches.nothing
        (Rely.Stable.mono (fun _ known => known.settle) (owns.after moved)))
    by_cases cancelled : (AttemptContext.ofRows run life.task observedAt).taskState = .cancelled ∨
        (AttemptContext.ofRows run life.task observedAt).runState = .cancelled
    · simp only [cancelled, if_true]
      exact fun store moved => Or.inl (unchanged store moved)
    · simp only [cancelled, if_false]
      have sameState : (AttemptContext.ofRows run life.task observedAt).runState = run.state := rfl
      rw [sameState]
      cases state : run.state with
      | failed =>
          intro store moved
          unfold supervisedFailure
          split
          · exact Or.inl (unchanged store moved)
          · exact unchanged store moved
      | completed => exact unchanged
      | sleeping => exact unchanged
      | running =>
          obtain ⟨isLast, _⟩ := valid.running_run member state
          subst isLast
          refine Program.Ensures.mono ?_ (fun _ _ raised => raised)
            (guarantees_superviseRunning reports renewForSeconds owns state
              (by simp [Ledger.observe]))
          intro outcome later supervised
          cases outcome with
          | running =>
              obtain ⟨sees, reached | ⟨task, renewedAt, expiry, reached⟩⟩ := supervised
              · exact ⟨sees, Or.inl (reached.prepend extended)⟩
              · exact ⟨sees, Or.inr ⟨task, renewedAt, expiry, reached.prepend extended⟩⟩
          | completed => exact Reaches.prepend extended supervised
          | failed => exact Reaches.prepend extended supervised
          | suspended => exact Reaches.prepend extended supervised
          | cancelled =>
              rcases supervised with reached | ⟨task, nowAt, reached⟩ | reaped
              · exact Or.inl (reached.prepend extended)
              · exact Or.inr (Or.inl ⟨task, nowAt, reached.prepend extended⟩)
              · exact Or.inr (Or.inr (reaped.prepend extended))
          | leaseLost =>
              rcases supervised with reached | reaped
              · exact Or.inl (reached.prepend extended)
              · exact Or.inr (reaped.prepend extended)
      | pending =>
          intro store moved
          exact reports.neverClaimed run.id run _ ((owns store moved).findRun member) state
      | cancelled => exact absurd (Or.inr state) cancelled

/-! ## Sweeps -/

/-- The transitions of the sweeps: cancellations and failures. -/
def Transition.Sweeps : Transition → Prop
  | .cancel _ | .exhaust _ _ _ | .retry _ _ _ _ _ _ | .abandon _ _ _ _ => True
  | _ => False

theorem Transition.Fails.sweeps {runId : Uuid} {reason : Option Json} {transition : Transition}
    (fails : transition.Fails runId reason) : transition.Sweeps := by
  cases transition <;> trivial

/-- The events of the sweeps. -/
def Event.Sweeps : Event → Prop
  | .moved _ transition => transition.Sweeps
  | _ => False

/-- The transaction has settled after some cancellations and failures. -/
def Swept (space : Char → Bool) (quiet : Prop) (ledger : Ledger) (tx : Tx) : Prop :=
  ∃ events, (∀ event ∈ events, event.Sweeps) ∧ Reaches space quiet ledger events tx

theorem Swept.nothing (settled : Stably space quiet (Settled space quiet ledger) tx) :
    Swept space quiet ledger tx :=
  ⟨[], by simp, Reaches.nothing settled⟩

theorem Swept.after {store : Queue} (swept : Swept space quiet ledger tx)
    (moved : (interference space quiet).moves tx.held tx.committed store) :
    Swept space quiet ledger (tx.withCommitted store) := by
  obtain ⟨events, sweeps, reached⟩ := swept
  exact ⟨events, sweeps, reached.after moved⟩

theorem Swept.prepend {events : List Event} {middle : Ledger}
    (extended : ledger.Extends events middle) (sweeps : ∀ event ∈ events, event.Sweeps)
    (swept : Swept space quiet middle tx) : Swept space quiet ledger tx := by
  obtain ⟨more, moreSweep, reached⟩ := swept
  refine ⟨events ++ more, ?_, reached.prepend extended⟩
  intro event member
  rcases List.mem_append.mp member with early | late
  · exact sweeps event early
  · exact moreSweep event late

theorem Reaped.swept {runId : Uuid} (reaped : Reaped space quiet ledger runId tx) :
    Swept space quiet ledger tx := by
  obtain ⟨context, task, transition, fails, reached, _⟩ := reaped
  refine ⟨[.moved task transition], ?_, reached⟩
  intro event member
  rw [List.mem_singleton.mp member]
  exact fails.sweeps

/-- Two sweeps after each other are a sweep. -/
theorem guarantees_swept_bind {α β : Type} {program : Sql α} {next : α → Sql β}
    (first : Guarantees space quiet program (fun _ tx => Swept space quiet ledger tx) raises tx)
    (second : ∀ value {middle : Ledger} {tx : Tx},
      Stably space quiet (Settled space quiet middle) tx →
        Guarantees space quiet (next value) (fun _ tx => Swept space quiet middle tx) raises tx) :
    Guarantees space quiet (program >>= next) (fun _ tx => Swept space quiet ledger tx)
      raises tx := by
  apply Program.Ensures.bind
  refine Program.Ensures.mono ?_ (fun _ _ raised => raised) first
  rintro value now ⟨events, sweeps, middle, extended, settled⟩
  refine Program.Ensures.mono ?_ (fun _ _ raised => raised) (second value settled)
  intro _ later swept
  exact swept.prepend extended sweeps

theorem guarantees_reapEach (reports : Reports quiet raises) (runs : List Uuid)
    (settled : Stably space quiet (Settled space quiet ledger) tx) :
    Guarantees space quiet (reapEach runs) (fun _ tx => Swept space quiet ledger tx)
      raises tx := by
  induction runs generalizing ledger tx with
  | nil => exact fun store moved => Swept.nothing (settled.after moved)
  | cons run rest inductionHypothesis =>
      apply guarantees_swept_bind
      · refine Program.Ensures.mono ?_ (fun _ _ raised => raised)
          (guarantees_reapExpiredRun reports run settled)
        rintro _ now (⟨-, reaped⟩ | ⟨-, reached⟩)
        · exact reaped.swept
        · exact ⟨[], by simp, reached⟩
      · intro reaped middle now settledNow
        apply guarantees_swept_bind (inductionHypothesis settledNow)
        intro others last later settledLater
        exact fun store moved => Swept.nothing (settledLater.after moved)

theorem guarantees_cancelEach (tolerates : Tolerates raises) (tasks : List Uuid)
    (settled : Stably space quiet (Settled space quiet ledger) tx) :
    Guarantees space quiet (cancelEach tasks) (fun _ tx => Swept space quiet ledger tx)
      raises tx := by
  induction tasks generalizing ledger tx with
  | nil => exact fun store moved => Swept.nothing (settled.after moved)
  | cons task rest inductionHypothesis =>
      apply guarantees_swept_bind
      · refine Program.Ensures.mono ?_ (fun _ _ raised => raised)
          (guarantees_cancelTask settled fun tx => tolerates _ tx rfl)
        rintro _ now (⟨-, nowAt, reached⟩ | ⟨-, reached⟩)
        · refine ⟨[.moved task (.cancel nowAt)], ?_, reached⟩
          intro event member
          rw [List.mem_singleton.mp member]
          trivial
        · exact ⟨[], by simp, reached⟩
      · intro cancelled middle now settledNow
        apply guarantees_swept_bind (inductionHypothesis settledNow)
        intro others last later settledLater
        exact fun store moved => Swept.nothing (settledLater.after moved)

theorem guarantees_reapExpiredRuns (reports : Reports quiet raises)
    (tolerates : Tolerates raises) (limit : Option Int)
    (settled : Stably space quiet (Settled space quiet ledger) tx) :
    Guarantees space quiet (reapExpiredRuns limit) (fun _ tx => Swept space quiet ledger tx)
      raises tx := by
  apply Program.Ensures.bind
  have read : Guarantees space quiet currentTime (fun reading => Stably space quiet
      (Settled space quiet (ledger.observe reading))) raises tx :=
    guarantees_currentTime settled fun reading _ known => known.observe reading
  refine Program.Ensures.mono ?_ (fun _ _ raised => raised) read
  intro nowAt afterClock settledNow
  have extended := ledger.extends_observe nowAt
  cases limit with
  | none => exact fun store _ => tolerates _ _ rfl
  | some limit =>
      by_cases bounded : limit ≤ 0
      · simp only [bounded, if_true]
        exact fun store _ => tolerates _ _ rfl
      · simp only [bounded, if_false]
        apply Program.Ensures.bind
        refine Program.Ensures.mono ?_ (fun _ _ raised => raised)
          (guarantees_snapshot (fun _ => True) settledNow fun _ _ => trivial)
        rintro visible afterRead ⟨-, known⟩
        apply Program.Ensures.bind
        refine Program.Ensures.mono ?_ (fun _ _ raised => raised)
          (guarantees_lockRuns .skipLocked RunRow.id _ _ _
            (Rely.Stable.mono (fun _ both => both.1) known) (fun _ keys facts => facts.hold keys)
            (fun _ facts => facts.retained) ?_)
        · rintro selected afterLocks ⟨-, -, known⟩
          refine Program.Ensures.mono ?_ (fun _ _ raised => raised)
            (guarantees_reapEach reports _ (Rely.Stable.mono (fun _ both => both.1) known))
          intro _ later swept
          exact swept.prepend extended (by simp)
        · intro _ _ _ _ _ _ _ impossible
          cases impossible

theorem filterExcept_error {ε α : Type} {keeps : α → Except ε Bool} {values : List α} {error : ε}
    (failed : filterExcept keeps values = .error error) :
    ∃ value ∈ values, keeps value = .error error := by
  induction values with
  | nil => cases failed
  | cons value rest inductionHypothesis =>
      unfold filterExcept at failed
      cases first : keeps value with
      | error other =>
          rw [first] at failed
          cases failed
          exact ⟨value, List.mem_cons_self, first⟩
      | ok kept =>
          cases others : filterExcept keeps rest with
          | error other =>
              rw [first, others] at failed
              cases failed
              obtain ⟨found, member, refused⟩ := inductionHypothesis others
              exact ⟨found, List.mem_cons_of_mem _ member, refused⟩
          | ok remaining =>
              rw [first, others] at failed
              cases failed

theorem filterExcept_ok {ε α : Type} {keeps : α → Except ε Bool} {values kept : List α}
    (filtered : filterExcept keeps values = .ok kept) :
    kept.Sublist values ∧ ∀ value ∈ kept, keeps value = .ok true := by
  induction values generalizing kept with
  | nil =>
      cases filtered
      simp
  | cons value rest inductionHypothesis =>
      unfold filterExcept at filtered
      obtain ⟨isKept, passed, filtered⟩ := except_bind_ok.mp filtered
      obtain ⟨others, restFiltered, filtered⟩ := except_bind_ok.mp filtered
      obtain ⟨sublist, allKept⟩ := inductionHypothesis restFiltered
      cases filtered
      cases isKept with
      | true =>
          refine ⟨sublist.cons_cons value, ?_⟩
          intro other member
          rcases List.mem_cons.mp member with isFirst | inRest
          · rw [isFirst]
            exact passed
          · exact allKept other inRest
      | false => exact ⟨sublist.cons value, allKept⟩

/-- A candidate test of the deadline sweep raises only what the deadline of the
task raises. -/
theorem deadlineCandidate_error {nowAt : Timestamp} {task : TaskRow} {run : RunRow}
    {error : SqlError} (failed : deadlineCandidate nowAt task run = .error error) :
    task.due nowAt = .error error := by
  unfold deadlineCandidate at failed
  split at failed
  · exact failed
  · cases failed

theorem mem_lastRunJoin {visible : Queue} {pair : TaskRow × RunRow}
    (member : pair ∈ lastRunJoin visible) : pair.1 ∈ visible.tasks := by
  obtain ⟨task, inTasks, joined⟩ := List.mem_filterMap.mp member
  obtain ⟨run, _, isPair⟩ := Option.map_eq_some_iff.mp joined
  rw [← isPair]
  exact inTasks

theorem guarantees_cancelExpiredTasks (reports : Reports quiet raises)
    (tolerates : Tolerates raises) (limit : Option Int)
    (settled : Stably space quiet (Settled space quiet ledger) tx) :
    Guarantees space quiet (cancelExpiredTasks limit) (fun _ tx => Swept space quiet ledger tx)
      raises tx := by
  apply Program.Ensures.bind
  have read : Guarantees space quiet currentTime (fun reading => Stably space quiet
      (Settled space quiet (ledger.observe reading))) raises tx :=
    guarantees_currentTime settled fun reading _ known => known.observe reading
  refine Program.Ensures.mono ?_ (fun _ _ raised => raised) read
  intro nowAt afterClock settledNow
  have extended := ledger.extends_observe nowAt
  cases limit with
  | none => exact fun store _ => tolerates _ _ rfl
  | some limit =>
      by_cases bounded : limit ≤ 0
      · simp only [bounded, if_true]
        exact fun store _ => tolerates _ _ rfl
      · simp only [bounded, if_false]
        apply Program.Ensures.bind
        refine Program.Ensures.mono ?_ (fun _ _ raised => raised)
          (guarantees_snapshot (fun _ => True) settledNow fun _ _ => trivial)
        rintro visible afterRead ⟨-, known⟩
        apply Program.Ensures.bind
        refine Program.Ensures.mono ?_ (fun _ _ raised => raised)
          (guarantees_ofExcept known fun error tx failed facts => ?_)
        swap
        · obtain ⟨pair, member, refused⟩ := filterExcept_error failed
          refine reports.deadline error pair.1 _ tx ?_ (deadlineCandidate_error refused)
          intro silent
          rw [facts.2 silent]
          exact mem_lastRunJoin member
        rintro candidates afterFilter ⟨filtered, known⟩
        have joined := (filterExcept_ok filtered).1
        apply Program.Ensures.bind
        refine Program.Ensures.mono ?_ (fun _ _ raised => raised)
          (guarantees_lockRuns .skipLocked _ _ _ _ known
            (fun _ keys facts => ⟨facts.1.hold keys, facts.2⟩)
            (fun _ facts => facts.1.retained) ?_)
        · rintro selected afterLocks ⟨-, -, known⟩
          refine Program.Ensures.mono ?_ (fun _ _ raised => raised)
            (guarantees_cancelEach tolerates _
              (Rely.Stable.mono (fun _ both => both.1.1) known))
          intro _ later swept
          exact swept.prepend extended (by simp)
        · intro pair member run error now facts _ refused
          refine reports.deadline error pair.1 _ now ?_ (deadlineCandidate_error refused)
          intro silent
          rw [facts.2 silent]
          exact mem_lastRunJoin (joined.subset ((List.mem_insertionSort _).mp member))

end Steda
