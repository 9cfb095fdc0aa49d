import Steda.Biography

/-!
# The invariant of tasks and runs

In every state a history reaches, the runs of each task are its attempts in
order, only the last one may be active, and the task row agrees with it.
-/

namespace Steda

open Postgres Transaction Relational

variable {space : Char → Bool}

/-- The rows of one task fit together, and with the rows that were ever
claimed. -/
structure Queue.TaskInvariant (queue : Queue) (claimed : List ClaimedTask) (task : TaskRow) :
    Prop where
  attempts : (queue.runsOf task.id).map RunRow.attempt = List.range' 1 task.attempts
  lastRun : ∃ run ∈ queue.runsOf task.id, run.id = task.lastAttemptRun ∧
    run.attempt = task.attempts ∧
    (task.state = run.state ∨ (task.state = .cancelled ∧ run.state = .failed))
  budget : 1 ≤ task.initialMaxAttempts ∧ task.initialMaxAttempts ≤ task.maxAttempts ∧
    task.attempts ≤ task.maxAttempts
  earlierRuns : ∀ run ∈ queue.runsOf task.id, run.id ≠ task.lastAttemptRun → run.state = .failed
  leases : ∀ run ∈ queue.runsOf task.id,
    (run.claimedBy.isSome ↔ run.state = .running) ∧
      (run.claimExpiresAt.isSome ↔ run.state = .running)
  started : task.firstStartedAt = none ↔ ∀ row ∈ claimed, row.taskId ≠ task.id
  unstarted : task.firstStartedAt = none →
    task.attempts = 1 ∧ (task.state = .pending ∨ task.state = .cancelled)

theorem leases_of_leaseMatchesState {run : RunRow}
    (leased : run.leaseMatchesState space = true) :
    (run.claimedBy.isSome ↔ run.state = .running) ∧
      (run.claimExpiresAt.isSome ↔ run.state = .running) := by
  unfold RunRow.leaseMatchesState at leased
  by_cases running : run.state = .running
  · rw [if_pos running] at leased
    cases owner : run.claimedBy with
    | none => simp [owner] at leased
    | some worker =>
        simp only [owner, Bool.and_eq_true] at leased
        simp [running, leased.2]
  · rw [if_neg running, Bool.and_eq_true, Option.isNone_iff_eq_none,
      Option.isNone_iff_eq_none] at leased
    simp [running, leased.1, leased.2]

/-- The invariant holds of every task in every state a history reaches. -/
theorem History.taskInvariant {initial final : World} {calls : List Call}
    (history : History space initial calls final) (task : TaskRow)
    (member : task ∈ final.store.tasks) :
    final.store.TaskInvariant (calls.flatMap Call.claimed) task := by
  obtain ⟨_, _, chunks, caused, advances⟩ := history.advances
  obtain ⟨life, isTask, valid, rows⟩ := advances.sound.life member
  subst isTask
  have runs : final.store.runsOf life.task.id = life.runs := congrArg Rows.runs rows
  obtain ⟨last, lastRows, evolves⟩ := advances.evolves_to (history.initial_rows life.task.id)
  have isLife : last = some life := Life.rows_injective (lastRows.symm.trans rows)
  subst isLife
  have budget := TaskRow.check_ok.mp valid.taskChecked
  refine ⟨?_, ?_, ⟨budget.1.2.2.2.1, budget.2.1, valid.withinBudget⟩, ?_, ?_, ?_, ?_⟩
  · rw [runs]
    exact valid.numbered
  · rw [runs]
    exact ⟨life.last, life.last_mem_runs, valid.pointed.symm, valid.last_attempt, valid.agrees⟩
  · rw [runs]
    intro run inRuns notLast
    rcases Life.mem_runs.mp inRuns with earlier | isLast
    · exact valid.historyFailed run earlier
    · rw [isLast] at notLast
      exact absurd valid.pointed.symm notLast
  · rw [runs]
    exact fun run inRuns => leases_of_leaseMatchesState (valid.lease inRuns)
  · have started := evolves.started_iff (advances.names_nodup history.fresh)
    rw [claimed_iff_of_caused caused] at started
    constructor
    · intro unstarted row inClaimed owner
      exact started.mpr ⟨row, inClaimed, owner⟩ unstarted
    · intro unclaimed
      by_contra isStarted
      obtain ⟨row, inClaimed, owner⟩ := started.mp isStarted
      exact unclaimed row inClaimed owner
  · intro unstarted
    obtain ⟨noHistory, waiting⟩ := valid.unstarted unstarted
    have attempts := valid.attempts_eq
    rw [noHistory] at attempts
    refine ⟨attempts, ?_⟩
    rcases valid.agrees with same | ⟨cancelled, _⟩
    · rw [same]
      exact waiting
    · exact Or.inr cancelled

/-- A submission whose strategy allows no retry. -/
def plainSubmission (options : List (String × Json)) : Operation :=
  .spawnTask (some "report") none
    (some (.object (("retryStrategy", .object [("kind", .string "none")]) :: options)))

/-- A claim of one run for a minute. -/
def plainClaim (worker : String) : Operation :=
  .claimTasks (some worker) (some 60) (some 1) (some [some "report"])

/-- A task that is submitted and claimed. -/
theorem History.taskInvariant_claimed :
    let served := World.serve asciiSpace [plainSubmission [], plainClaim "worker"] (.blank second)
    ∃ task ∈ served.2.store.tasks, task.state = .running ∧
      served.2.store.TaskInvariant (served.1.flatMap Call.claimed) task := by
  intro served
  have one : 0 < served.2.store.tasks.length := by decide
  exact ⟨served.2.store.tasks.get ⟨0, one⟩, List.get_mem _ _, rfl,
    History.taskInvariant (World.history_serve _ second) _ (List.get_mem _ _)⟩

end Steda
