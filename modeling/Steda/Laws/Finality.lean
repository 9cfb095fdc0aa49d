import Steda.Laws.TaskInvariant

/-!
# Terminal verdicts are final

What a history has decided lasts until the task is deleted: the rows of
terminal runs, the states of completed and cancelled tasks, and the result of a
completed task.
-/

namespace Steda

open Postgres Transaction Relational

variable {space : Char → Bool}

/-! ## Two moments of a history -/

/-- A history goes on. -/
theorem History.append {initial middle final : World} {past later : List Call}
    (history : History space initial past middle)
    (trace : Trace (Served space) middle later final) :
    History space initial (past ++ later) final where
  empty := history.empty
  fresh := history.fresh
  trace := history.trace.append trace

/-- The identifier of a task that exists is not introduced again. -/
theorem History.not_named_again {initial middle final : World} {past : List Call}
    (history : History space initial past middle) {readings : List Timestamp} {drawn : List Uuid}
    {events : List Event} (advances : Advances space middle readings drawn events final)
    {task : Uuid} {life : Life} (rows : middle.store.rowsOf task = Life.rows (some life)) :
    task ∉ events.flatMap Event.names := by
  obtain ⟨_, _, chunks, _, early⟩ := history.advances
  have fresh := (early.trans advances).names_nodup history.fresh
  rw [List.flatMap_append, List.nodup_append] at fresh
  obtain ⟨last, lastRows, evolves⟩ := early.evolves_to (history.initial_rows task)
  have isLife : last = some life := Life.rows_injective (lastRows.symm.trans rows)
  subst isLife
  exact fun again => fresh.2.2 task evolves.task_named_of_some task again rfl

/-- A task that exists at two moments of a history keeps what lasts. -/
theorem History.precedes {initial middle final : World} {past later : List Call}
    (history : History space initial past middle)
    (trace : Trace (Served space) middle later final) {task : Uuid} {first last : Life}
    (firstRows : middle.store.rowsOf task = Life.rows (some first))
    (lastRows : final.store.rowsOf task = Life.rows (some last)) : first.Precedes last := by
  obtain ⟨_, _, chunks, _, advances⟩ := Trace.advances trace history.sound
  obtain ⟨other, otherRows, evolves⟩ := advances.evolves_to firstRows
  have isLast : other = some last := Life.rows_injective (otherRows.symm.trans lastRows)
  subst isLast
  obtain ⟨valid, owner⟩ := history.sound.life_of_rows firstRows
  exact evolves.precedes valid owner fun _ => history.not_named_again advances firstRows

/-! ## Leaving a verdict -/

/-- Only a manual retry leaves a terminal state. -/
theorem Transition.Enabled.of_terminal {transition : Transition} {life : Life}
    (enabled : transition.Enabled space life) (valid : life.Valid space)
    (terminal : life.task.state.terminal = true) :
    life.task.state = .failed ∧ ∃ newRun nowAt, transition = .reopen newRun nowAt := by
  have lastTerminal : life.last.state.terminal = true := valid.terminal_iff ▸ terminal
  have notRunning : ∀ run, ¬Running run life := by
    intro run running
    rw [running.2] at lastTerminal
    cases lastTerminal
  cases transition with
  | claim run worker nowAt expiresAt =>
      have active := State.active_of_claimable enabled.2.1
      rw [State.active_eq_not_terminal, lastTerminal] at active
      cases active
  | complete run observedAt result => exact absurd enabled.1 (notRunning run)
  | sleep run observedAt wakeAt => exact absurd enabled (notRunning run)
  | renew run observedAt expiry => exact absurd enabled (notRunning run)
  | cancel nowAt =>
      rw [show life.task.state.terminal = false from enabled] at terminal
      cases terminal
  | exhaust run observedAt reason => exact absurd enabled.1 (notRunning run)
  | retry run observedAt reason newRun state availableAt => exact absurd enabled.1 (notRunning run)
  | abandon run observedAt reason nowAt => exact absurd enabled.1 (notRunning run)
  | reopen newRun nowAt => exact ⟨enabled, newRun, nowAt, rfl⟩

/-- A failed task that changes was reopened. -/
theorem Evolves.reopened {timely : Prop} {task : Uuid} {events : List Event} {first last : Life}
    (evolves : Evolves space timely task events (some first) (some last))
    (valid : first.Valid space) (fresh : task ∉ events.flatMap Event.names)
    (failed : first.task.state = .failed) (left : last.task.state ≠ .failed) :
    ∃ newRun nowAt, Event.moved task (.reopen newRun nowAt) ∈ events := by
  induction events with
  | nil =>
      cases (show some last = some first from evolves)
      exact absurd failed left
  | cons event rest inductionHypothesis =>
      rw [List.flatMap_cons, List.mem_append, not_or] at fresh
      obtain ⟨_, freshRest⟩ := fresh
      have terminal : first.task.state.terminal = true := by
        rw [failed]
        rfl
      rw [Evolves] at evolves
      by_cases own : event.task = task
      · rw [if_pos own] at evolves
        obtain ⟨between, acts, restEvolves⟩ := evolves
        cases event with
        | submitted row run => cases acts.1
        | moved id transition =>
            obtain ⟨life, isLife, enabled, _, _⟩ := acts
            cases isLife
            obtain ⟨_, newRun, nowAt, isReopen⟩ := enabled.of_terminal valid terminal
            have isTask : id = task := own
            rw [isTask, isReopen]
            exact ⟨newRun, nowAt, List.mem_cons_self⟩
        | recorded checkpoint run observedAt =>
            obtain ⟨life, isLife, running, _⟩ := acts
            cases isLife
            rw [running.task_state valid] at failed
            cases failed
        | deleted id =>
            obtain ⟨_, isBetween⟩ := acts
            subst isBetween
            exact absurd restEvolves.task_named_of_some freshRest
      · rw [if_neg own] at evolves
        obtain ⟨newRun, nowAt, member⟩ := inductionHypothesis evolves freshRest
        exact ⟨newRun, nowAt, List.mem_cons_of_mem _ member⟩

/-- Only a successful `retry_task` reopens a task, and it leaves it pending. -/
theorem Call.Caused.reopened {call : Call} {events : List Event} {task newRun : Uuid}
    {nowAt : Timestamp} (caused : call.Caused space events)
    (member : Event.moved task (.reopen newRun nowAt) ∈ events) :
    call = ⟨.retryTask task, .ok newRun⟩ ∧ events = [.moved task (.reopen newRun nowAt)] := by
  have may := caused.mayCause _ member
  obtain ⟨operation, outcome⟩ := call
  cases operation with
  | retryTask id =>
      have sameTask : task = id := may
      subst sameTask
      cases outcome with
      | error error =>
          rw [show events = [] from caused] at member
          cases member
      | ok result =>
          obtain ⟨at_, isEvents⟩ := caused
          rw [isEvents] at member
          cases List.mem_singleton.mp member
          exact ⟨rfl, isEvents⟩
  | superviseRun => exact absurd may.choose_spec id
  | reapExpiredRun => exact absurd may.choose_spec id
  | _ => exact absurd may id

/-! ## Completion -/

/-- What `get_task_result` reads from the life of a task. -/
def Life.result (life : Life) : TaskResult where
  taskName := life.task.name
  state := life.task.state
  result := if life.task.state = .completed then life.last.result else none
  failureReason := if life.task.state = .failed then life.last.failureReason else none

/-- `get_task_result` reads the life of the task and changes nothing. -/
theorem Queue.Sound.serves_getTaskResult {world : World} (sound : world.store.Sound space)
    {task : Uuid} {life : Option Life} (rows : world.store.rowsOf task = Life.rows life) :
    Served space world ⟨.getTaskResult task, .ok (life.map Life.result)⟩ world := by
  have ran : (getTaskResult task).run (storage space).handle world =
      (.ok (life.map Life.result), world) := by
    have found : world.store.findTask task = life.map Life.task := by
      rw [show world.store.findTask task = (Life.rows life).task from congrArg Rows.task rows]
      cases life <;> rfl
    simp only [getTaskResult, snapshot, Program.run_bind, Program.run_issue, Storage.handle,
      Program.run_pure, found, Option.map_map]
    cases life with
    | none => rfl
    | some life =>
        obtain ⟨valid, _⟩ := sound.life_of_rows rows
        have last : world.store.findRun life.task.lastAttemptRun = some life.last := by
          rw [valid.pointed]
          have inRows : life.last ∈ (world.store.rowsOf task).runs := by
            rw [rows]
            exact life.last_mem_runs
          exact sound.keyed.findRun_of_mem inRows
        simp [Life.result, last]
  unfold Served Operation.perform Storage.atomically
  simp only [Operation.program, ran]
  rw [show (storage space).deferred world.store = .ok () from sound.deferred]

/-- The call completed a run of a task with a result. -/
def Call.Completes (before : Queue) (call : Call) (task : Uuid) (value : Json) : Prop :=
  ∃ run ∈ before.runs, run.taskId = task ∧
    call = ⟨.completeRun run.id (some value), .ok true⟩

/-- Every `complete_run` that returns TRUE completes the task of its run. -/
theorem Served.completes {before after : World} {runId : Uuid} {result : Option Json}
    (served : Served space before ⟨.completeRun runId result, .ok true⟩ after)
    (sound : before.store.Sound space) :
    ∃ (life : Life) (value : Json) (observedAt : Timestamp), result = some value ∧
      life.Valid space ∧ before.store.rowsOf life.task.id = Life.rows (some life) ∧
      Transition.Running runId life ∧
      after.store.rowsOf life.task.id =
        Life.rows (some ((Transition.complete runId observedAt result).after life)) := by
  obtain ⟨_, _, events, caused, advances⟩ := served.advances sound
  rcases caused with ⟨_, task, observedAt, isEvents⟩ | ⟨impossible, _⟩
  · subst isEvents
    obtain ⟨first, last, firstRows, lastRows, evolves⟩ := advances.evolves task
    obtain ⟨life, isLife, ⟨running, given⟩, _, isAfter⟩ := (evolves_singleton rfl).mp evolves
    subst isLife isAfter
    obtain ⟨valid, owner⟩ := sound.life_of_rows firstRows
    subst owner
    obtain ⟨value, isValue⟩ := Option.isSome_iff_exists.mp given
    exact ⟨life, value, observedAt, isValue, valid, firstRows, running, lastRows⟩
  · cases impossible

/-- What has been decided in a state is never taken back. -/
structure VerdictsFinal (space : Char → Bool) (decided : World) : Prop where
  /-- A terminal run keeps its row while its task exists. -/
  runs : ∀ run ∈ decided.store.runs, run.state.terminal = true →
    ∀ later final, Trace (Served space) decided later final →
      (final.store.findTask run.taskId).isSome → final.store.findRun run.id = some run
  /-- A completed or cancelled task keeps its state while it exists. -/
  tasks : ∀ task ∈ decided.store.tasks, task.state = .completed ∨ task.state = .cancelled →
    ∀ later final row, Trace (Served space) decided later final →
      final.store.findTask task.id = some row → row.state = task.state
  /-- A failed task becomes pending by a successful manual retry or stays failed. -/
  failures : ∀ task ∈ decided.store.tasks, task.state = .failed →
    ∀ call after row, Served space decided call after →
      after.store.findTask task.id = some row → row.state ≠ .failed →
        row.state = .pending ∧ ∃ newRun, call = ⟨.retryTask task.id, .ok newRun⟩
  /-- A completion is the only one of its task and decides its result. -/
  completions : ∀ runId result after,
    Served space decided ⟨.completeRun runId result, .ok true⟩ after →
      ∃ task value,
        Call.Completes decided.store ⟨.completeRun runId result, .ok true⟩ task value ∧
        ∀ later final, Trace (Served space) after later final →
          (∀ call next other, Served space final call next →
            ¬call.Completes final.store task other) ∧
          ∀ outcome next, Served space final ⟨.getTaskResult task, outcome⟩ next →
            (final.store.findTask task).isSome →
              ∃ name, outcome = .ok (some
                { taskName := name, state := .completed, result := some value,
                  failureReason := none })

/-- In every state a history reaches, terminal verdicts are final. -/
theorem History.verdicts_final {initial middle : World} {past : List Call}
    (history : History space initial past middle) : VerdictsFinal space middle := by
  refine ⟨?_, ?_, ?_, ?_⟩
  · intro run member terminal later final trace exists_
    obtain ⟨first, valid, firstRows, inRuns⟩ := history.sound.life_of_run member
    obtain ⟨row, found⟩ := Option.isSome_iff_exists.mp exists_
    have sound := (history.append trace).sound
    obtain ⟨last, _, _, lastRows⟩ := sound.life_of_findTask found
    have kept := (history.precedes trace firstRows lastRows).terminalRuns run inRuns terminal
    have inRows : run ∈ (final.store.rowsOf run.taskId).runs := by
      rw [lastRows]
      exact kept
    exact sound.keyed.findRun_of_mem inRows
  · intro task member verdict later final row trace found
    obtain ⟨first, isTask, valid, firstRows⟩ := history.sound.life member
    subst isTask
    obtain ⟨last, isRow, _, lastRows⟩ := (history.append trace).sound.life_of_findTask found
    subst isRow
    exact ((history.precedes trace firstRows lastRows).verdict verdict).1
  · intro task member failed call after row served found left
    obtain ⟨first, isTask, valid, firstRows⟩ := history.sound.life member
    subst isTask
    obtain ⟨_, _, events, caused, advances⟩ := served.advances history.sound
    obtain ⟨last, isRow, _, lastRows⟩ := advances.sound.life_of_findTask found
    subst isRow
    obtain ⟨other, otherRows, evolves⟩ := advances.evolves_to firstRows
    have isLast : other = some last := Life.rows_injective (otherRows.symm.trans lastRows)
    subst isLast
    obtain ⟨newRun, nowAt, reopened⟩ := evolves.reopened valid
      (history.not_named_again advances firstRows) failed left
    obtain ⟨isCall, isEvents⟩ := caused.reopened reopened
    subst isEvents
    obtain ⟨life, _, _, _, isAfter⟩ := (evolves_singleton rfl).mp evolves
    cases isAfter
    exact ⟨rfl, newRun, isCall⟩
  · intro runId result after served
    obtain ⟨life, value, observedAt, isValue, valid, rows, running, afterRows⟩ :=
      served.completes history.sound
    subst isValue
    refine ⟨life.task.id, value, ⟨life.last, ?_, valid.owned _ life.last_mem_runs, ?_⟩, ?_⟩
    · have inRuns : life.last ∈ middle.store.runsOf life.task.id := by
        rw [show middle.store.runsOf life.task.id = life.runs from congrArg Rows.runs rows]
        exact life.last_mem_runs
      exact (mem_select.mp inRuns).1
    · rw [running.1]
    · intro later final trace
      have next : History space initial
          (past ++ [⟨.completeRun runId (some value), .ok true⟩]) after :=
        history.append (.cons served (.nil after))
      have sound := (next.append trace).sound
      have precedes : ∀ last, final.store.rowsOf life.task.id = Life.rows (some last) →
          last.task.state = .completed ∧
            last.last = life.last.complete observedAt (some value) := fun last lastRows =>
        (next.precedes trace afterRows lastRows).verdict (Or.inl rfl)
      refine ⟨?_, ?_⟩
      · rintro call next other served ⟨run, member, owner, isCall⟩
        subst isCall
        obtain ⟨again, _, _, _, againValid, againRows, againRunning, _⟩ := served.completes sound
        obtain ⟨present, presentValid, presentRows, inRuns⟩ := sound.life_of_run member
        have inAgain : again.last ∈ final.store.runs := by
          have inRuns : again.last ∈ final.store.runsOf again.task.id := by
            rw [show final.store.runsOf again.task.id = again.runs from
              congrArg Rows.runs againRows]
            exact again.last_mem_runs
          exact (mem_select.mp inRuns).1
        have isLast : again.last = run :=
          List.inj_on_of_nodup_map sound.keyed.runs inAgain member againRunning.1
        have sameTask : again.task.id = life.task.id := by
          rw [← againValid.owned _ again.last_mem_runs, isLast, owner]
        rw [sameTask] at againRows
        have completed := (precedes again againRows).1
        rw [againRunning.task_state againValid] at completed
        cases completed
      · intro outcome next reads exists_
        obtain ⟨row, found⟩ := Option.isSome_iff_exists.mp exists_
        obtain ⟨last, isRow, _, lastRows⟩ := sound.life_of_findTask found
        have answered := sound.serves_getTaskResult lastRows
        have same : Except.ok (some last.result) = outcome :=
          congrArg Prod.fst (Eq.trans answered.symm reads)
        obtain ⟨completed, isLast⟩ := precedes last lastRows
        refine ⟨last.task.name, ?_⟩
        rw [← same]
        simp [Life.result, completed, isLast, RunRow.complete]

/-- A task that is completed and can be retried no more. -/
theorem History.verdicts_final_completed :
    let served := World.serve asciiSpace [plainSubmission [], plainClaim "worker",
      .completeRun 1 (some .null), .retryTask 0] (.blank second)
    served.2.store.tasks.map TaskRow.state = [.completed] ∧ VerdictsFinal asciiSpace served.2 :=
  ⟨rfl, History.verdicts_final (World.history_serve _ second)⟩

end Steda
