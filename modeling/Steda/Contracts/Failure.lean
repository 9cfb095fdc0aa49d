import Steda.Contracts.RunControl

/-!
# Contracts of failure and manual retry
-/

namespace Steda

open Postgres Transaction Relational

variable {space : Char → Bool} {quiet : Prop} {raises : SqlError → Tx → Prop}
variable {tx : Tx} {ledger : Ledger}

/-- The transitions of `fail_run`: the task is cancelled, exhausted, retried, or
cancelled after its attempt has failed. -/
def Transition.Fails (runId : Uuid) (reason : Option Json) : Transition → Prop
  | .cancel _ => True
  | .exhaust run _ why | .retry run _ why _ _ _ | .abandon run _ why _ =>
      run = runId ∧ why = reason
  | _ => False

/-- What `fail_run` has done when it returns.  It cancels only the task whose
last attempt is the run. -/
def FailedRun (space : Char → Bool) (quiet : Prop) (ledger : Ledger) (runId : Uuid)
    (reason : Option Json) (tx : Tx) : Prop :=
  ∃ task transition, transition.Fails runId reason ∧
    Reaches space quiet ledger [.moved task transition] tx ∧
    ∀ nowAt, transition = .cancel nowAt →
      Stably space quiet (fun tx => LastAttempt task runId tx.queue) tx

theorem FailedRun.after {runId : Uuid} {reason : Option Json} {store : Queue}
    (failed : FailedRun space quiet ledger runId reason tx)
    (moved : (interference space quiet).moves tx.held tx.committed store) :
    FailedRun space quiet ledger runId reason (tx.withCommitted store) := by
  obtain ⟨task, transition, fails, reached, addressed⟩ := failed
  exact ⟨task, transition, fails, reached.after moved,
    fun nowAt cancels => (addressed nowAt cancels).after moved⟩

theorem FailedRun.prepend {middle : Ledger} {runId : Uuid} {reason : Option Json}
    (extended : ledger.Extends [] middle) (failed : FailedRun space quiet middle runId reason tx) :
    FailedRun space quiet ledger runId reason tx := by
  obtain ⟨task, transition, fails, reached, addressed⟩ := failed
  exact ⟨task, transition, fails, reached.prepend extended, addressed⟩

theorem nextAvailableAt_ge {context : AttemptContext} {availableAt : Timestamp}
    (computed : nextAvailableAt context = .ok availableAt) : context.observedAt ≤ availableAt := by
  obtain ⟨delay, _, returned⟩ := except_bind_ok.mp computed
  have equal : max (context.observedAt + delayMicroseconds delay) context.observedAt =
      availableAt := Except.ok.inj returned
  rw [← equal]
  exact le_max_right _ _

/-- The delay of a retry never fails on a stored task. -/
theorem nextAvailableAt_ok {life : Life} (valid : life.Valid space) (observedAt : Timestamp) :
    ∃ availableAt, nextAvailableAt (.ofRows life.last life.task observedAt) = .ok availableAt := by
  obtain ⟨⟨_, _, ⟨delay, accepted, _⟩, _⟩, _⟩ := TaskRow.check_ok.mp valid.taskChecked
  have numbered := (RunRow.check_ok.mp (valid.runsChecked _ life.last_mem_runs)).1
  obtain ⟨later, computed⟩ := retryDelaySeconds_ok_of_ok accepted numbered
  refine ⟨max (observedAt + delayMicroseconds later) observedAt, ?_⟩
  exact except_bind_ok.mpr ⟨later, computed, rfl⟩

theorem Owns.run_mem {task : Uuid} {life : Life} {rows : Rows} {run : RunRow}
    (owns : Owns space quiet ledger task life rows tx) (member : run ∈ rows.runs) :
    run ∈ tx.queue.runs := by
  rw [← owns.rows] at member
  exact (mem_select.mp member).1

theorem integerSucc_cases (value : Nat) :
    (maxInteger ≤ value ∧ integerSucc value = .error .integerOutOfRange) ∨
      (value < maxInteger ∧ integerSucc value = .ok (value + 1)) := by
  unfold integerSucc
  by_cases large : maxInteger ≤ value
  · exact Or.inl ⟨large, if_pos large⟩
  · exact Or.inr ⟨not_le.mp large, if_neg large⟩

/-- The attempts of a task are numbered below the next one. -/
theorem Life.Valid.attempt_le {life : Life} (valid : life.Valid space) {run : RunRow}
    (member : run ∈ life.runs) : run.attempt ≤ life.task.attempts := by
  have inRange : run.attempt ∈ List.range' 1 life.task.attempts := by
    rw [← valid.numbered]
    exact List.mem_map_of_mem member
  have bounds := List.mem_range'_1.mp inRange
  omega

section FailRun

variable {life : Life} {observedAt : Timestamp} {reason : Option Json}

/-- The last step of a failure without retry. -/
theorem guarantees_exhaust {runId : Uuid}
    (owns : Stably space quiet (Owns space quiet ledger life.task.id life
      { task := some life.task, runs := life.history ++ [life.last.fail observedAt reason] }) tx)
    (running : Transition.Running runId life) (given : reason.isSome)
    (noneLeft : life.retriable = false)
    (notDue : life.task.due observedAt = .ok false)
    (observed : observedAt ∈ ledger.readings) :
    Guarantees space quiet (updateTask life.task.id fun task =>
        task.afterFailure .failed life.last.attempt runId)
      (fun _ tx => FailedRun space quiet ledger runId reason tx) raises tx := by
  have enabled : (Transition.exhaust runId observedAt reason).Enabled space life :=
    ⟨running, given, noneLeft⟩
  have nextValid := Transition.valid_after owns.now.lives.1 enabled
  refine Program.Ensures.mono ?_ (fun _ _ raised => raised)
    (guarantees_updateTask owns rfl rfl rfl nextValid.taskChecked)
  intro _ later owned
  refine ⟨life.task.id, .exhaust runId observedAt reason, ⟨rfl, rfl⟩, ?_, nofun⟩
  refine Reaches.moved owned enabled (fun _ => notDue) observed ?_
  exact Ledger.named_nothing _

/-- The steps of an automatic retry. -/
theorem guarantees_retry {runId : Uuid} {availableAt : Timestamp} {state : State}
    (reports : Reports quiet raises)
    (owns : Stably space quiet (Owns space quiet ledger life.task.id life
      { task := some life.task, runs := life.history ++ [life.last.fail observedAt reason] }) tx)
    (running : Transition.Running runId life) (given : reason.isSome)
    (notDue : life.task.due observedAt = .ok false)
    (notDueThen : life.task.due availableAt = .ok false)
    (later : observedAt ≤ availableAt)
    (isState : state = if observedAt < availableAt then .sleeping else .pending)
    (left : life.retriable = true)
    (observed : observedAt ∈ ledger.readings) :
    Guarantees space quiet (do
        let newRunId ← uuidv7
        let _ ← change (.insertRun
          (RunRow.fresh newRunId life.task.id (life.last.attempt + 1) state availableAt))
        updateTask life.task.id fun task =>
          task.afterFailure state (life.last.attempt + 1) newRunId)
      (fun _ tx => FailedRun space quiet ledger runId reason tx) raises tx := by
  have waiting : state.claimable = true := by
    rw [isState]
    split <;> rfl
  have valid := owns.now.lives.1
  apply Program.Ensures.bind
  have drew : Guarantees space quiet uuidv7 (fun name => Stably space quiet
      (Owns space quiet (ledger.draw name) life.task.id life
        { task := some life.task,
          runs := life.history ++ [life.last.fail observedAt reason] })) raises tx :=
    guarantees_uuidv7 owns fun name _ known => known.draw name
  refine Program.Ensures.mono ?_ (fun _ _ raised => raised) drew
  intro newRunId afterDraw owned
  have enabled : (Transition.retry runId observedAt reason newRunId state availableAt).Enabled
      space life := ⟨running, given, left, waiting⟩
  have nextValid := Transition.valid_after valid enabled
  have sameAttempt := valid.last_attempt
  apply Program.Ensures.bind
  refine Program.Ensures.mono ?_ (fun _ _ raised => raised)
    (guarantees_insertRun owned rfl rfl (RunRow.check_fresh _ _ _ waiting _) ?_ ?_ ?_)
  · intro _ afterInsert owned
    refine Program.Ensures.mono ?_ (fun _ _ raised => raised)
      (guarantees_updateTask owned rfl rfl rfl nextValid.taskChecked)
    intro _ last owned
    refine ⟨life.task.id, .retry runId observedAt reason newRunId state availableAt,
      ⟨rfl, rfl⟩, ?_, nofun⟩
    refine Reaches.prepend (ledger.extends_draw newRunId) (Reaches.moved owned enabled
      (fun _ => ⟨notDue, notDueThen, later, isState⟩) observed ?_)
    exact ledger.named_draw _
  · intro other member
    have bound : other.attempt ≤ life.task.attempts := by
      rcases List.mem_append.mp member with earlier | isLast
      · exact valid.attempt_le (Life.mem_runs.mpr (Or.inl earlier))
      · rw [List.mem_singleton.mp isLast]
        exact sameAttempt.le
    simp only [RunRow.fresh]
    omega
  · intro other member
    rcases List.mem_append.mp member with earlier | isLast
    · rw [valid.historyFailed other earlier]
      rfl
    · rw [List.mem_singleton.mp isLast]
      rfl
  · intro now known taken
    refine reports.identTaken _ now fun unused => ?_
    have absent : now.queue.findRun newRunId = none := by
      refine known.findRun_unused unused ?_
      intro run member
      rcases List.mem_append.mp member with earlier | isLast
      · exact ⟨run, Life.mem_runs.mpr (Or.inl earlier), rfl⟩
      · rw [List.mem_singleton.mp isLast]
        exact ⟨life.last, life.last_mem_runs, rfl⟩
    cases absent ▸ taken

/-- The cancellation of a task whose retry would start past its deadline. -/
theorem guarantees_abandon {runId : Uuid}
    (owns : Stably space quiet (Owns space quiet ledger life.task.id life
      { task := some life.task, runs := life.history ++ [life.last.fail observedAt reason] }) tx)
    (running : Transition.Running runId life) (given : reason.isSome)
    (notDue : life.task.due observedAt = .ok false)
    (observed : observedAt ∈ ledger.readings) :
    Guarantees space quiet (cancelTask life.task.id)
      (fun _ tx => FailedRun space quiet ledger runId reason tx) raises tx := by
  have valid := owns.now.lives.1
  have notTerminal : life.task.state.terminal = false := by
    rw [running.task_state valid]
    rfl
  refine Program.Ensures.mono ?_ (fun _ _ raised => raised)
    (guarantees_cancelTask_owned owns rfl rfl notTerminal ?_ valid.taskChecked
      (RunRow.check_fail (valid.runsChecked _ life.last_mem_runs) given _))
  · rintro _ later ⟨-, nowAt, owned⟩
    have enabled : (Transition.abandon runId observedAt reason nowAt).Enabled space life :=
      ⟨running, given⟩
    refine ⟨life.task.id, .abandon runId observedAt reason nowAt, ⟨rfl, rfl⟩, ?_, nofun⟩
    refine Reaches.prepend (ledger.extends_observe nowAt)
      (Reaches.moved owned enabled (fun _ => notDue) ?_ ?_)
    · exact List.mem_append_left _ observed
    · exact Ledger.named_nothing _
  · intro run member
    rw [valid.historyFailed run member]
    rfl

/-- `fail_run` fails the attempt and applies the retry strategy of the task. -/
theorem guarantees_failRun (reports : Reports quiet raises) (runId : Uuid)
    (expectExpired : Option Bool) {condition : Tx → Prop} (persistent : Persistent condition)
    (settled : Stably space quiet (Settled space quiet ledger) tx)
    (stable : Stably space quiet condition tx)
    (early : expectExpired = some true → ∀ life observedAt expiry tx,
      Owns space quiet (ledger.observe observedAt) life.task.id life (Life.rows (some life)) tx →
        condition tx → life.last.id = runId → life.last.claimExpiresAt = some expiry →
          observedAt < expiry → raises (.leaseNotExpired runId) tx)
    (given : reason.isSome ∨ Refuses raises) :
    Guarantees space quiet (failRun runId reason expectExpired)
      (fun _ tx => FailedRun space quiet ledger runId reason tx) raises tx := by
  apply Program.Ensures.bind
  refine Program.Ensures.mono ?_ (fun _ _ raised => raised)
    (guarantees_lockRunningAttempt reports runId expectExpired persistent settled stable early)
  rintro context afterGate ⟨⟨life, observedAt, running, lease, isContext, owns⟩, -⟩
  subst isContext
  have valid := owns.now.lives.1
  have extended := ledger.extends_observe observedAt
  have observed : observedAt ∈ (ledger.observe observedAt).readings := by
    simp [Ledger.observe]
  have sameRun := running.1
  subst sameRun
  have sameTask : (AttemptContext.ofRows life.last life.task observedAt).taskId =
      life.task.id := valid.owned _ life.last_mem_runs
  have prepended : ∀ later, FailedRun space quiet (ledger.observe observedAt) life.last.id reason
      later → FailedRun space quiet ledger life.last.id reason later :=
    fun _ failed => failed.prepend extended
  rw [sameTask]
  apply Program.Ensures.bind
  refine Program.Ensures.mono ?_ (fun _ _ raised => raised)
    (guarantees_ofExcept owns fun error tx failed known =>
      reports.deadline error life.task _ tx (fun _ => known.task_mem rfl) failed)
  rintro due afterDue ⟨isDue, owned⟩
  cases due with
  | true =>
      apply Program.Ensures.bind
      refine Program.Ensures.mono ?_ (fun _ _ raised => raised)
        (guarantees_cancelTask_running owned running)
      rintro _ later ⟨-, ⟨nowAt, reached⟩, addressed⟩ store moved
      exact ⟨life.task.id, .cancel nowAt, trivial, (reached.after moved).prepend extended,
        fun _ _ => addressed.after moved⟩
  | false =>
      apply Program.Ensures.bind
      refine Program.Ensures.mono ?_ (fun _ _ raised => raised)
        (guarantees_updateLast owned rfl ?_)
      swap
      · intro error later refused
        rcases given with isGiven | refuses
        · cases (RunRow.check_fail (valid.runsChecked _ life.last_mem_runs) isGiven
            _).symm.trans refused
        · obtain ⟨column, isError⟩ := RunRow.refusing_check _ error refused
          exact isError ▸ refuses column later
      rintro _ afterRun ⟨checked, owned⟩
      have isGiven : reason.isSome := ((RunRow.check_ok.mp checked).2.2.1 rfl).2
      apply Program.Ensures.bind
      refine Program.Ensures.mono ?_ (fun _ _ raised => raised)
        (guarantees_ofExcept owned fun error tx failed known => ?_)
      swap
      · rcases integerSucc_cases life.last.attempt with ⟨large, overflow⟩ | ⟨_, next⟩
        · cases overflow.symm.trans failed
          exact reports.attemptOverflow _ tx
            (known.run_mem (List.mem_append_right _ (List.mem_singleton_self _))) large
        · cases next.symm.trans failed
      rintro nextAttempt afterNext ⟨isNext, owned⟩
      have nextEq : nextAttempt = life.last.attempt + 1 := by
        rcases integerSucc_cases life.last.attempt with ⟨_, overflow⟩ | ⟨_, next⟩
        · cases overflow.symm.trans isNext
        · exact (Except.ok.inj (next.symm.trans isNext)).symm
      subst nextEq
      by_cases retries : retriesLeft (.ofRows life.last life.task observedAt)
          (life.last.attempt + 1) = true
      · rw [if_pos retries]
        apply Program.Ensures.bind
        refine Program.Ensures.mono ?_ (fun _ _ raised => raised)
          (guarantees_ofExcept owned fun error tx failed known => ?_)
        swap
        · obtain ⟨availableAt, computed⟩ := nextAvailableAt_ok valid observedAt
          cases computed.symm.trans failed
        rintro availableAt afterDelay ⟨computed, owned⟩
        have notBefore : observedAt ≤ availableAt := nextAvailableAt_ge computed
        apply Program.Ensures.bind
        refine Program.Ensures.mono ?_ (fun _ _ raised => raised)
          (guarantees_ofExcept owned fun error tx failed known =>
            reports.deadline error life.task _ tx (fun _ => known.task_mem rfl) failed)
        rintro dueThen afterDueThen ⟨isDueThen, owned⟩
        cases dueThen with
        | true =>
            apply Program.Ensures.bind
            refine Program.Ensures.mono ?_ (fun _ _ raised => raised)
              (guarantees_abandon owned running isGiven isDue observed)
            intro _ later reached store moved
            exact prepended _ (reached.after moved)
        | false =>
            refine Program.Ensures.mono (fun _ later reached => prepended later reached)
              (fun _ _ raised => raised)
              (guarantees_retry reports owned running isGiven isDue isDueThen notBefore rfl retries
                observed)
      · rw [if_neg retries]
        exact Program.Ensures.mono (fun _ later reached => prepended later reached)
          (fun _ _ raised => raised) (guarantees_exhaust owned running isGiven
            (Bool.eq_false_iff.mpr retries) isDue observed)

end FailRun

/-! ## Manual retry -/

/-- `retry_task` reopens a failed task with the run it returns. -/
theorem guarantees_retryTask (reports : Reports quiet raises) (tolerates : Tolerates raises)
    (task : Uuid) (settled : Stably space quiet (Settled space quiet ledger) tx) :
    Guarantees space quiet (retryTask task)
      (fun newRun tx => ∃ nowAt,
        Reaches space quiet ledger [.moved task (.reopen newRun nowAt)] tx) raises tx := by
  apply Program.Ensures.bind
  have read : Guarantees space quiet currentTime (fun reading => Stably space quiet
      (Settled space quiet (ledger.observe reading))) raises tx :=
    guarantees_currentTime settled fun reading _ known => known.observe reading
  refine Program.Ensures.mono ?_ (fun _ _ raised => raised) read
  intro nowAt afterClock settled
  have anything : Stably space quiet (fun _ => True) afterClock := fun _ _ => trivial
  apply Program.Ensures.bind
  refine Program.Ensures.mono ?_ (fun _ _ raised => raised)
    (guarantees_lockTask task .wait settled anything fun _ _ _ => trivial)
  rintro found afterLock ⟨locked, -, -⟩
  cases found with
  | none => exact fun store _ => tolerates _ _ rfl
  | some row =>
      obtain ⟨life, sameRow, owns⟩ := locked
      subst sameRow
      obtain ⟨valid, sameTask⟩ := owns.now.lives
      by_cases failed : life.task.state = .failed
      · simp only [failed, ne_eq, not_true_eq_false, if_false]
        apply Program.Ensures.bind
        refine Program.Ensures.mono ?_ (fun _ _ raised => raised)
          (guarantees_ofExcept owns fun error tx refused known =>
            reports.deadline error life.task _ tx (fun _ => known.task_mem rfl) refused)
        rintro due afterDue ⟨isDue, owned⟩
        cases due with
        | true => exact fun store _ => tolerates _ _ rfl
        | false =>
            simp only [Bool.false_eq_true, if_false]
            apply Program.Ensures.bind
            refine Program.Ensures.mono ?_ (fun _ _ raised => raised)
              (guarantees_ofExcept owned fun error tx refused _ => ?_)
            swap
            · rcases integerSucc_cases life.task.attempts with ⟨_, overflow⟩ | ⟨_, next⟩
              · cases overflow.symm.trans refused
                exact tolerates _ _ rfl
              · cases next.symm.trans refused
            rintro nextAttempt afterNext ⟨isNext, owned⟩
            have nextEq : nextAttempt = life.task.attempts + 1 := by
              rcases integerSucc_cases life.task.attempts with ⟨_, overflow⟩ | ⟨_, next⟩
              · cases overflow.symm.trans isNext
              · exact (Except.ok.inj (next.symm.trans isNext)).symm
            subst nextEq
            apply Program.Ensures.bind
            have drew : Guarantees space quiet uuidv7 (fun name => Stably space quiet
                (Owns space quiet ((ledger.observe nowAt).draw name) task life
                  (Life.rows (some life)))) raises afterNext :=
              guarantees_uuidv7 owned fun name _ known => known.draw name
            refine Program.Ensures.mono ?_ (fun _ _ raised => raised) drew
            intro newRun afterDraw owned
            have enabled : (Transition.reopen newRun nowAt).Enabled space life := failed
            have nextValid := Transition.valid_after valid enabled
            have extended := (ledger.extends_observe nowAt).trans
              ((ledger.observe nowAt).extends_draw newRun)
            apply Program.Ensures.bind
            refine Program.Ensures.mono ?_ (fun _ _ raised => raised)
              (guarantees_insertRun owned rfl rfl (RunRow.check_fresh _ _ _ rfl _) ?_ ?_ ?_)
            · intro _ afterInsert owned
              apply Program.Ensures.bind
              refine Program.Ensures.mono ?_ (fun _ _ raised => raised)
                (guarantees_updateTask owned rfl rfl rfl nextValid.taskChecked)
              intro _ afterTask owned store moved
              have sameRows : Life.rows (some ((Transition.reopen newRun nowAt).after life)) =
                  { task := some (life.task.reopen (life.task.attempts + 1) newRun),
                    runs := life.runs ++
                      [RunRow.fresh newRun task (life.task.attempts + 1) .pending nowAt] } := by
                rw [← sameTask]
                rfl
              refine ⟨nowAt, Reaches.prepend extended (Reaches.moved
                (by rw [sameRows]; exact owned.after moved) enabled (fun _ => isDue) ?_ ?_)⟩
              · simp [Ledger.draw, Ledger.observe, Transition.stamp]
              · exact Ledger.named_draw _ _
            · intro other member
              have bound := valid.attempt_le member
              simp only [RunRow.fresh]
              omega
            · intro other member
              have lastFailed : life.last.state = .failed := by
                rcases valid.agrees with same | ⟨cancelled, _⟩
                · rw [← same]
                  exact failed
                · rw [failed] at cancelled
                  cases cancelled
              rcases Life.mem_runs.mp member with earlier | isLast
              · rw [valid.historyFailed other earlier]
                rfl
              · rw [isLast, lastFailed]
                rfl
            · intro now known taken
              refine reports.identTaken _ now fun unused => ?_
              have absent : now.queue.findRun newRun = none :=
                known.findRun_unused unused fun run member => ⟨run, member, rfl⟩
              cases absent ▸ taken
      · have notFailed : (life.task.state ≠ .failed) = True := by simp [failed]
        simp only [notFailed, if_true]
        exact fun store _ => tolerates _ _ rfl

end Steda
