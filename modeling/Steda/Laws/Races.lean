import Steda.Contention
import Steda.Laws.TaskInvariant

/-!
# Transition races

Whatever calls contend for a task, and however their statements interleave, the
committed rows of the task agree with each other, a cancellation that returned
TRUE leaves no active run behind, and every attempt is ended by one call.
-/

namespace Steda

open Postgres Transaction Relational

variable {space : Char → Bool}

/-- The task row agrees with the runs of the task. -/
structure Queue.Agrees (queue : Queue) (task : TaskRow) : Prop where
  last : ∃ run, queue.findRun task.lastAttemptRun = some run ∧ run.taskId = task.id ∧
    (task.state = run.state ∨ (task.state = .cancelled ∧ run.state = .failed))
  oneActive : ((queue.runsOf task.id).filter fun run => run.state.active).length ≤ 1
  active : ∀ run ∈ queue.runsOf task.id, run.state.active = true → task.state = run.state

/-- A call that has returned commits. -/
structure Contest.Commits (space : Char → Bool) (before : Contest) (id : Nat)
    (returned : Returned) (after : Contest) : Prop where
  call : ∃ call, before.party id = some call ∧ call.rest = .done returned
  step : before.step (storage space) (.commit id) = some after

/-- An attempt that was active has come to its end. -/
def Contest.Ends (before after : Contest) (run : Uuid) : Prop :=
  (∃ row, before.store.findRun run = some row ∧ row.state.active = true) ∧
    ∃ row, after.store.findRun run = some row ∧ row.state.terminal = true

/-- What the calls that contend for a queue agree on in one of its states. -/
structure RacesDecided (space : Char → Bool) (contest : Contest) : Prop where
  /-- The committed rows of every task fit together. -/
  agrees : ∀ task ∈ contest.store.tasks, contest.store.Agrees task
  /-- A cancellation that returned TRUE has left no active run when it commits. -/
  cancelled : ∀ id task after, contest.Commits space id ⟨.cancelTask task, true⟩ after →
    ∀ run ∈ after.store.runs, run.taskId = task → run.state.active = false
  /-- A completion that returned TRUE has ended its attempt. -/
  completes : ∀ id run result after,
    contest.Commits space id ⟨.completeRun run result, true⟩ after → contest.Ends after run
  /-- A failure that returned has ended its attempt. -/
  fails : ∀ id run reason expectExpiredLease after,
    contest.Commits space id ⟨.failRun run reason expectExpiredLease, ()⟩ after →
      contest.Ends after run
  /-- A cancellation that returned TRUE has ended the active attempt of the task. -/
  cancels : ∀ id task after, contest.Commits space id ⟨.cancelTask task, true⟩ after →
    ∃ run, contest.Ends after run.id ∧ run ∈ contest.store.runsOf task
  /-- An attempt is ended once. -/
  once : ∀ id returned after run, contest.Commits space id returned after →
    contest.Ends after run → ∀ (labels : List Contest.Move) (later : Contest),
      (∀ script, .start script ∈ labels → Contending space script) →
      Trace (System.Steps (storage space)) after labels later →
        ∀ other another last, later.Commits space other another last → ¬later.Ends last run

/-- A failure ends the active last run. -/
theorem Transition.Fails.ends {run : Uuid} {reason : Option Json} {transition : Transition}
    {life : Life} (fails : transition.Fails run reason) (valid : life.Valid space)
    (enabled : transition.Enabled space life) :
    life.last.state.active = true ∧
      (life.last.id = run ∨ ∃ nowAt, transition = .cancel nowAt) ∧
      ∃ ended ∈ (transition.after life).runs, ended.id = life.last.id ∧
        ended.state.terminal = true := by
  have running : ∀ {failed : Uuid}, Running failed life → life.last.state.active = true := by
    intro failed isRunning
    rw [isRunning.2]
    rfl
  cases transition with
  | cancel nowAt =>
      refine ⟨?_, Or.inr ⟨nowAt, rfl⟩, _, Life.last_mem_runs _, rfl, rfl⟩
      rw [State.active_eq_not_terminal, ← valid.terminal_iff,
        show life.task.state.terminal = false from enabled]
      rfl
  | exhaust failed observedAt why =>
      exact ⟨running enabled.1, Or.inl (enabled.1.1.trans fails.1), _, Life.last_mem_runs _, rfl, rfl⟩
  | retry failed observedAt why newRun state availableAt =>
      refine ⟨running enabled.1, Or.inl (enabled.1.1.trans fails.1), life.last.fail observedAt why,
        ?_, rfl, rfl⟩
      exact Life.mem_runs.mpr (Or.inl (List.mem_append_right _ List.mem_cons_self))
  | abandon failed observedAt why nowAt =>
      exact ⟨running enabled.1, Or.inl (enabled.1.1.trans fails.1), _, Life.last_mem_runs _, rfl, rfl⟩
  | _ => exact fails.elim

/-! ## Commits -/

theorem Queue.Sound.agrees {queue : Queue} (sound : queue.Sound space) {task : TaskRow}
    (member : task ∈ queue.tasks) : queue.Agrees task := by
  obtain ⟨life, isTask, valid, rows⟩ := sound.life member
  subst isTask
  have runs : queue.runsOf life.task.id = life.runs := congrArg Rows.runs rows
  refine ⟨⟨life.last, ?_, valid.owned _ life.last_mem_runs, valid.agrees⟩, ?_, ?_⟩
  · rw [valid.pointed]
    exact sound.keyed.findRun_of_mem (by rw [rows]; exact life.last_mem_runs)
  · have inactive : life.history.filter (fun run => run.state.active) = [] := by
      refine List.filter_eq_nil_iff.mpr fun run member => ?_
      rw [valid.historyFailed run member]
      decide
    rw [runs, Life.runs, List.filter_append, inactive, List.nil_append]
    exact List.length_filter_le _ _
  · intro run inRuns active
    rw [runs] at inRuns
    exact (valid.active_run inRuns active).2

section Commits

variable {store : Queue} {labels : List Contest.Move} {contest after : Contest} {id : Nat}
variable {returned : Returned}

/-- A commit takes every task from one stage of its life to another by the
events of the call. -/
theorem Contested.commits (contested : Contested space store labels contest)
    (commits : contest.Commits space id returned after) :
    ∃ events, (returned.1.Ordinary → returned.1.Caused space returned.2 events) ∧
      returned.1.Addresses events after.store ∧ ∀ task, ∃ first last, contest.store.rowsOf task = Life.rows first ∧
        after.store.rowsOf task = Life.rows last ∧
        Evolves space False task events first last := by
  have coherent := contested.coherent
  obtain ⟨call, present, isDone⟩ := commits.call
  obtain ⟨operation, contends, isScript⟩ := coherent.allowed id call present
  obtain ⟨start, sound, conduct⟩ := coherent.conduct id call present
  rw [isScript, isDone] at conduct
  obtain ⟨_, events, concluded⟩ := contends.concluded sound (Amid.interference conduct)
  obtain ⟨committedSound, _⟩ := coherent.commits discipline_contending present isDone
  have committed := System.step_commit present isDone committedSound.deferred commits.step
  refine ⟨events, concluded.caused, by rw [committed]; exact concluded.addresses, fun task => ?_⟩
  obtain ⟨first, last, firstRows, lastRows, evolves⟩ := concluded.evolves task
  rw [coherent.current id call present] at firstRows
  rw [committed]
  exact ⟨first, last, firstRows, lastRows, evolves⟩

/-- The last run of a life is found in the queue. -/
theorem Queue.Sound.findRun_last {queue : Queue} (sound : queue.Sound space) {task : Uuid}
    {life : Life} (rows : queue.rowsOf task = Life.rows (some life)) :
    queue.findRun life.last.id = some life.last :=
  sound.keyed.findRun_of_mem (by rw [rows]; exact life.last_mem_runs)

/-- A transition of the last run to a terminal state ends the attempt. -/
theorem Contested.ends (contested : Contested space store labels contest)
    (afterSound : after.store.Sound space) {task : Uuid} {first last : Life}
    (firstRows : contest.store.rowsOf task = Life.rows (some first))
    (lastRows : after.store.rowsOf task = Life.rows (some last))
    (active : first.last.state.active = true) {ended : RunRow} (member : ended ∈ last.runs)
    (same : ended.id = first.last.id) (terminal : ended.state.terminal = true) :
    contest.Ends after first.last.id := by
  refine ⟨⟨first.last, contested.coherent.store.findRun_last firstRows, active⟩, ended, ?_, terminal⟩
  rw [← same]
  exact afterSound.keyed.findRun_of_mem (by rw [lastRows]; exact member)

theorem Contested.step (contested : Contested space store labels contest)
    (commits : contest.Commits space id returned after) :
    Contested space store (labels ++ [.commit id]) after := by
  refine ⟨contested.1, ?_, contested.2.2.append (.cons commits.step (.nil _))⟩
  intro script member
  rcases List.mem_append.mp member with earlier | isLast
  · exact contested.2.1 script earlier
  · cases List.mem_singleton.mp isLast

/-- A cancellation that returned TRUE commits the cancelled task. -/
theorem Contested.cancelTask_commits {task : Uuid}
    (contested : Contested space store labels contest)
    (commits : contest.Commits space id ⟨.cancelTask task, true⟩ after) :
    ∃ (life : Life) (nowAt : Timestamp), contest.store.rowsOf task = Life.rows (some life) ∧
      life.task.state.terminal = false ∧
      after.store.rowsOf task = Life.rows (some ((Transition.cancel nowAt).after life)) := by
  obtain ⟨events, caused, _, evolves⟩ := contested.commits commits
  rcases caused trivial with ⟨_, nowAt, isEvents⟩ | ⟨impossible, _⟩
  · subst isEvents
    obtain ⟨first, last, firstRows, lastRows, steps⟩ := evolves task
    obtain ⟨life, isLife, isOpen, _, isLast⟩ := (evolves_singleton rfl).mp steps
    subst isLife isLast
    exact ⟨life, nowAt, firstRows, isOpen, lastRows⟩
  · cases impossible

/-- A run that has ended stays as it is. -/
theorem Contested.terminal_stays {more : List Contest.Move} {later : Contest} {run : Uuid}
    {row : RunRow} (contested : Contested space store labels contest)
    (found : contest.store.findRun run = some row) (terminal : row.state.terminal = true)
    (starts : ∀ script, .start script ∈ more → Contending space script)
    (trace : Trace (System.Steps (storage space)) contest more later) :
    later.store.findRun run = some row := by
  have coherent := contested.coherent
  obtain ⟨interfered, lives, _⟩ := coherent.store_run discipline_contending starts trace
  obtain ⟨life, _, rows, inRuns⟩ := coherent.store.life_of_run (mem_of_find found)
  obtain ⟨last, lastRows, precedes⟩ := lives coherent.store _ life rows
  have inRows : row ∈ (later.store.rowsOf row.taskId).runs := by
    rw [lastRows]
    exact precedes.terminalRuns row inRuns terminal
  rw [← Queue.findRun_id found]
  exact (interfered.1 coherent.store).keyed.findRun_of_mem inRows

end Commits

/-- In every state of every run of contending calls, races are decided. -/
theorem Contested.racesDecided {store : Queue} {labels : List Contest.Move} {contest : Contest}
    (contested : Contested space store labels contest) : RacesDecided space contest := by
  refine ⟨fun task member => contested.coherent.store.agrees member, ?_, ?_, ?_, ?_, ?_⟩
  · intro id task after commits run member owner
    obtain ⟨life, nowAt, _, _, lastRows⟩ := contested.cancelTask_commits commits
    obtain ⟨valid, _⟩ := (contested.step commits).coherent.store.life_of_rows lastRows
    have inRuns : run ∈ ((Transition.cancel nowAt).after life).runs := by
      have inRows : run ∈ (after.store.rowsOf task).runs := mem_select.mpr ⟨member, owner⟩
      rwa [lastRows] at inRows
    by_contra isActive
    have active : run.state.active = true := by simpa using isActive
    have cancelled : run.state = .cancelled := (valid.active_run inRuns active).2.symm
    rw [cancelled] at active
    cases active
  · intro id run result after commits
    obtain ⟨events, caused, _, evolves⟩ := contested.commits commits
    have afterSound := (contested.step commits).coherent.store
    rcases caused trivial with ⟨_, task, observedAt, isEvents⟩ | ⟨impossible, _⟩
    · subst isEvents
      obtain ⟨first, last, firstRows, lastRows, steps⟩ := evolves task
      obtain ⟨life, isLife, ⟨⟨isRun, running⟩, _⟩, _, isLast⟩ := (evolves_singleton rfl).mp steps
      subst isLife isLast
      rw [← isRun]
      exact contested.ends afterSound firstRows lastRows (by rw [running]; rfl)
        (Life.last_mem_runs _) rfl rfl
    · cases impossible
  · intro id run reason expectExpiredLease after commits
    obtain ⟨events, caused, addresses, evolves⟩ := contested.commits commits
    have afterSound := (contested.step commits).coherent.store
    obtain ⟨task, transition, fails, isEvents⟩ := caused trivial
    subst isEvents
    obtain ⟨first, last, firstRows, lastRows, steps⟩ := evolves task
    obtain ⟨life, isLife, enabled, _, isLast⟩ := (evolves_singleton rfl).mp steps
    subst isLife isLast
    obtain ⟨valid, _⟩ := contested.coherent.store.life_of_rows firstRows
    obtain ⟨active, itsRun, ended, member, same, terminal⟩ := fails.ends valid enabled
    have isRun : life.last.id = run := by
      rcases itsRun with itsRun | ⟨nowAt, rfl⟩
      · exact itsRun
      · have last := addresses task nowAt List.mem_cons_self
        rw [LastAttempt, show after.store.findTask task = _ from congrArg Rows.task lastRows] at last
        exact valid.pointed.symm.trans (Option.some.inj last)
    rw [← isRun]
    exact contested.ends afterSound firstRows lastRows active member same terminal
  · intro id task after commits
    have afterSound := (contested.step commits).coherent.store
    obtain ⟨life, nowAt, firstRows, isOpen, lastRows⟩ := contested.cancelTask_commits commits
    obtain ⟨valid, _⟩ := contested.coherent.store.life_of_rows firstRows
    have active : life.last.state.active = true := by
      rw [State.active_eq_not_terminal, ← valid.terminal_iff, isOpen]
      rfl
    refine ⟨life.last, contested.ends afterSound firstRows lastRows active (Life.last_mem_runs _) rfl
      rfl, ?_⟩
    have inRows : life.last ∈ (contest.store.rowsOf task).runs := by
      rw [firstRows]
      exact life.last_mem_runs
    exact inRows
  · intro id returned after run commits ends more later starts trace other another last _ endsAgain
    obtain ⟨_, row, found, terminal⟩ := ends
    obtain ⟨⟨again, foundAgain, active⟩, _⟩ := endsAgain
    rw [(contested.step commits).terminal_stays found terminal starts trace] at foundAgain
    cases foundAgain
    rw [State.active_eq_not_terminal, terminal] at active
    cases active

/-- A cancellation that has locked the run of a task, and a claim that passes
over it. -/
def cancelRace : List Contest.Move :=
  let cancels := .advance 0 second 2
  let claims := .advance 1 second 2
  [.start ((Operation.cancelTask 0).script asciiSpace),
    .start ((plainClaim "worker").script asciiSpace)] ++ List.replicate 3 cancels ++
      List.replicate 7 claims ++ List.replicate 6 cancels ++ [.commit 0, claims, .commit 1]

/-- The race ends with the cancelled task. -/
theorem Contested.racesDecided_cancelled :
    ∃ contest, Contested asciiSpace (World.serve asciiSpace [plainSubmission []]
        (.blank second)).2.store cancelRace contest ∧
      contest.store.tasks.map TaskRow.state = [.cancelled] ∧ RacesDecided asciiSpace contest := by
  have raced : ∃ contest, Contested asciiSpace (World.serve asciiSpace [plainSubmission []]
      (.blank second)).2.store cancelRace contest ∧
        contest.store.tasks.map TaskRow.state = [.cancelled] := by
    refine ⟨_, ⟨(World.history_serve _ second).sound, ?_, System.trace_moves rfl⟩, rfl⟩
    intro script member
    simp only [cancelRace, List.cons_append, List.nil_append, List.mem_cons, List.mem_append,
      List.mem_replicate, reduceCtorEq, and_false, or_false, Move.start.injEq,
      List.not_mem_nil] at member
    rcases member with rfl | rfl
    · exact ⟨.cancelTask 0, trivial, rfl⟩
    · exact ⟨plainClaim "worker", trivial, rfl⟩
  obtain ⟨contest, contested, cancelled⟩ := raced
  exact ⟨contest, contested, cancelled, contested.racesDecided⟩

end Steda
