import Steda.Functions.Retention

/-!
# The life of one task

A task with its runs is a `Life`: the task row, the earlier runs and the last
one.  `Valid` is the invariant of a life and `Transition` lists everything a
stored function can do to one.  Each transition states when it is enabled and
at which times it may happen; `Valid.step` shows that it keeps the invariant.
-/

namespace Steda

open Postgres Transaction

variable {space : Char → Bool}

/-! ## Row checks -/

theorem RunRow.check_ok {run : RunRow} :
    run.check space = .ok () ↔
      1 ≤ run.attempt ∧
        (run.state = .completed → run.completedAt.isSome ∧ run.result.isSome) ∧
        (run.state = .failed → run.failedAt.isSome ∧ run.failureReason.isSome) ∧
        run.leaseMatchesState space = true := by
  unfold RunRow.check
  rw [except_guard_ok, except_guard_ok, except_guard_ok, except_last_guard_ok]
  simp only [Option.isNone_iff_eq_none, Option.isSome_iff_ne_none]
  grind

/-- The part of the task checks that only the request decides. -/
def TaskRow.requestCheck (space : Char → Bool) (task : TaskRow) : Prop :=
  (¬isBlank space task.name ∧ task.name.utf8ByteSize ≤ maxNameBytes) ∧
    (task.headers.map Json.isObject).getD true = true ∧
    (∃ delay, retryDelaySeconds task.retryStrategy 1 = .ok delay ∧ 0 ≤ delay) ∧
    1 ≤ task.initialMaxAttempts ∧
    ∀ key ∈ task.idempotencyKey, ¬isBlank space key ∧ key.utf8ByteSize ≤ maxNameBytes

theorem TaskRow.check_ok {task : TaskRow} :
    task.check space = .ok () ↔
      task.requestCheck space ∧ task.initialMaxAttempts ≤ task.maxAttempts ∧
        (task.state = .cancelled → task.cancelledAt.isSome) := by
  unfold TaskRow.check TaskRow.requestCheck
  rw [except_guard_ok, except_guard_ok, except_bind_ok]
  simp only [except_guard_ok]
  cases task.idempotencyKey with
  | none =>
      simp only [Option.isNone_iff_eq_none, Option.isSome_iff_ne_none]
      simp [pure, Except.pure]
      grind
  | some key =>
      simp only [Option.isNone_iff_eq_none, Option.isSome_iff_ne_none, except_last_guard_ok]
      simp
      grind

section RunChecks

variable {run : RunRow}

theorem RunRow.check_claim (checked : run.check space = .ok ()) {worker : String}
    (named : isBlank space worker = false) (nowAt expiresAt : Timestamp) :
    (run.claim worker nowAt expiresAt).check space = .ok () := by
  rw [RunRow.check_ok] at checked ⊢
  simp [RunRow.claim, RunRow.leaseMatchesState, named, checked.1]

theorem RunRow.check_complete (checked : run.check space = .ok ()) {result : Option Json}
    (given : result.isSome) (completedAt : Timestamp) :
    (run.complete completedAt result).check space = .ok () := by
  rw [RunRow.check_ok] at checked ⊢
  simp [RunRow.complete, RunRow.leaseMatchesState, given, checked.1]

theorem RunRow.check_sleep (checked : run.check space = .ok ()) (wakeAt : Timestamptz) :
    (run.sleep wakeAt).check space = .ok () := by
  rw [RunRow.check_ok] at checked ⊢
  simp [RunRow.sleep, RunRow.leaseMatchesState, checked.1]

theorem RunRow.check_cancel (checked : run.check space = .ok ()) :
    run.cancel.check space = .ok () := by
  rw [RunRow.check_ok] at checked ⊢
  simp [RunRow.cancel, RunRow.leaseMatchesState, checked.1]

theorem RunRow.check_fail (checked : run.check space = .ok ()) {reason : Option Json}
    (given : reason.isSome) (failedAt : Timestamp) :
    (run.fail failedAt reason).check space = .ok () := by
  rw [RunRow.check_ok] at checked ⊢
  simp [RunRow.fail, RunRow.leaseMatchesState, given, checked.1]

theorem RunRow.check_renew (checked : run.check space = .ok ())
    (running : run.state = .running) (expiry : Timestamp) :
    (run.renew expiry).check space = .ok () := by
  rw [RunRow.check_ok] at checked ⊢
  obtain ⟨numbered, completed, failed, leased⟩ := checked
  refine ⟨numbered, completed, failed, ?_⟩
  simp only [RunRow.leaseMatchesState, RunRow.renew, running, if_true] at leased ⊢
  cases owner : run.claimedBy with
  | none => simp [owner] at leased
  | some worker =>
      simp only [owner, Bool.and_eq_true] at leased
      simp [leased.1]

theorem RunRow.check_fresh (id task : Uuid) (attempt : Nat) {state : State}
    (waiting : state.claimable = true) (availableAt : Timestamp) :
    (RunRow.fresh id task (attempt + 1) state availableAt).check space = .ok () := by
  rw [RunRow.check_ok]
  cases state <;> simp_all [State.claimable, RunRow.fresh, RunRow.leaseMatchesState]

end RunChecks

/-- A task keeps its checks when its request, its budget and the time of its
cancellation are kept. -/
theorem TaskRow.check_of_same {task changed : TaskRow} (checked : task.check space = .ok ())
    (request : changed.requestCheck space = task.requestCheck space)
    (initial : changed.initialMaxAttempts = task.initialMaxAttempts)
    (budget : task.maxAttempts ≤ changed.maxAttempts)
    (cancelled : changed.state = .cancelled → changed.cancelledAt.isSome) :
    changed.check space = .ok () := by
  rw [TaskRow.check_ok] at checked ⊢
  obtain ⟨requestChecked, withinBudget, _⟩ := checked
  refine ⟨request ▸ requestChecked, ?_, cancelled⟩
  omega

/-! ## Lives -/

/-- The rows of one task: its task row and its runs, oldest first. -/
structure Rows where
  task : Option TaskRow
  runs : List RunRow

/-- A task with its earlier runs, oldest first, and its last run. -/
structure Life where
  task : TaskRow
  history : List RunRow
  last : RunRow

namespace Life

/-- All runs of a task, oldest first. -/
def runs (life : Life) : List RunRow := life.history ++ [life.last]

/-- The rows of a task that may have been deleted or not yet submitted. -/
def rows : Option Life → Rows
  | none => { task := none, runs := [] }
  | some life => { task := some life.task, runs := life.runs }

theorem last_mem_runs (life : Life) : life.last ∈ life.runs := by
  simp [runs]

theorem mem_runs {life : Life} {run : RunRow} :
    run ∈ life.runs ↔ run ∈ life.history ∨ run = life.last := by
  simp [runs]

/-- The rows of a task determine its life. -/
theorem rows_injective : Function.Injective rows := by
  rintro (_ | ⟨task, history, last⟩) (_ | ⟨otherTask, otherHistory, otherLast⟩) equal
  · rfl
  · simp [rows] at equal
  · simp [rows] at equal
  · simp only [rows, Rows.mk.injEq, Option.some.injEq, runs] at equal
    obtain ⟨sameTask, sameRuns⟩ := equal
    obtain ⟨sameHistory, sameLast⟩ := List.append_inj' sameRuns rfl
    simp only [List.cons.injEq, and_true] at sameLast
    rw [sameTask, sameHistory, sameLast]

/-- The invariant of a task and its runs. -/
structure Valid (space : Char → Bool) (life : Life) : Prop where
  owned : ∀ run ∈ life.runs, run.taskId = life.task.id
  numbered : life.runs.map RunRow.attempt = List.range' 1 life.task.attempts
  pointed : life.task.lastAttemptRun = life.last.id
  historyFailed : ∀ run ∈ life.history, run.state = .failed
  agrees : life.task.state = life.last.state ∨
    (life.task.state = .cancelled ∧ life.last.state = .failed)
  withinBudget : life.task.attempts ≤ life.task.maxAttempts
  taskChecked : life.task.check space = .ok ()
  runsChecked : ∀ run ∈ life.runs, run.check space = .ok ()
  neverClaimed : life.task.firstStartedAt = none ↔ ∀ run ∈ life.runs, run.startedAt = none
  unstarted : life.task.firstStartedAt = none →
    life.history = [] ∧ (life.last.state = .pending ∨ life.last.state = .cancelled)

/-- The retry strategy allows another automatic attempt after the last one. -/
def retriable (life : Life) : Bool :=
  Steda.retriesLeft (.ofRows life.last life.task life.task.enqueueAt) (life.last.attempt + 1)

theorem next_le_of_retriable {life : Life} (left : life.retriable = true) :
    life.last.attempt + 1 ≤ life.task.maxAttempts := by
  have both := (Bool.and_eq_true _ _).mp left
  exact of_decide_eq_true both.2

end Life

/-! ## Transitions -/

/-- Everything that can happen to a task after its submission.  A failed
attempt may exhaust the task, be followed by an automatic retry, or cancel the
task when the retry would start past its deadline. -/
inductive Transition
  | claim (run : Uuid) (worker : String) (nowAt expiresAt : Timestamp)
  | complete (run : Uuid) (observedAt : Timestamp) (result : Option Json)
  | sleep (run : Uuid) (observedAt : Timestamp) (wakeAt : Timestamptz)
  | renew (run : Uuid) (observedAt expiry : Timestamp)
  | cancel (nowAt : Timestamp)
  | exhaust (run : Uuid) (observedAt : Timestamp) (reason : Option Json)
  | retry (run : Uuid) (observedAt : Timestamp) (reason : Option Json)
      (newRun : Uuid) (state : State) (availableAt : Timestamp)
  | abandon (run : Uuid) (observedAt : Timestamp) (reason : Option Json) (nowAt : Timestamp)
  | reopen (newRun : Uuid) (nowAt : Timestamp)

namespace Transition

/-- The life after a transition. -/
def after : Transition → Life → Life
  | .claim _ worker nowAt expiresAt, life =>
      { life with
        task := life.task.claim life.last nowAt
        last := life.last.claim worker nowAt expiresAt }
  | .complete run observedAt result, life =>
      { life with
        task := { life.task with state := .completed, lastAttemptRun := run }
        last := life.last.complete observedAt result }
  | .sleep _ _ wakeAt, life =>
      { life with
        task := { life.task with state := .sleeping }
        last := life.last.sleep wakeAt }
  | .renew _ _ expiry, life => { life with last := life.last.renew expiry }
  | .cancel nowAt, life =>
      { life with task := life.task.cancel nowAt, last := life.last.cancel }
  | .exhaust run observedAt reason, life =>
      { life with
        task := life.task.afterFailure .failed life.last.attempt run
        last := life.last.fail observedAt reason }
  | .retry _ observedAt reason newRun state availableAt, life =>
      { task := life.task.afterFailure state (life.last.attempt + 1) newRun
        history := life.history ++ [life.last.fail observedAt reason]
        last := RunRow.fresh newRun life.task.id (life.last.attempt + 1) state availableAt }
  | .abandon _ observedAt reason nowAt, life =>
      { life with
        task := life.task.cancel nowAt
        last := life.last.fail observedAt reason }
  | .reopen newRun nowAt, life =>
      { task := life.task.reopen (life.task.attempts + 1) newRun
        history := life.runs
        last := RunRow.fresh newRun life.task.id (life.task.attempts + 1) .pending nowAt }

/-- The run a worker acts on is the last run and it is running. -/
def Running (run : Uuid) (life : Life) : Prop :=
  life.last.id = run ∧ life.last.state = .running

/-- When the rows of a task permit a transition. -/
def Enabled (space : Char → Bool) : Transition → Life → Prop
  | .claim run worker _ _, life =>
      life.last.id = run ∧ life.last.state.claimable = true ∧ isBlank space worker = false
  | .complete run _ result, life => Running run life ∧ result.isSome
  | .sleep run _ _, life => Running run life
  | .renew run _ _, life => Running run life
  | .cancel _, life => life.task.state.terminal = false
  | .exhaust run _ reason, life =>
      Running run life ∧ reason.isSome ∧ life.retriable = false
  | .retry run _ reason _ state _, life =>
      Running run life ∧ reason.isSome ∧ life.retriable = true ∧ state.claimable = true
  | .abandon run _ reason _, life => Running run life ∧ reason.isSome
  | .reopen _ _, life => life.task.state = .failed

/-- The lease of the last run is valid at a time. -/
def Leased (observedAt : Timestamp) (life : Life) : Prop :=
  ∃ expiry, life.last.claimExpiresAt = some expiry ∧ observedAt < expiry

/-- The times at which a transition may happen. -/
def Timely : Transition → Life → Prop
  | .claim _ _ nowAt _, life =>
      life.task.due nowAt = .ok false ∧ life.last.availableAt ≤ nowAt
  | .complete _ observedAt _, life =>
      life.task.due observedAt = .ok false ∧ Leased observedAt life
  | .sleep _ observedAt wakeAt, life =>
      life.task.due observedAt = .ok false ∧ life.task.due (some wakeAt) = .ok false ∧
        Leased observedAt life ∧ observedAt < wakeAt
  | .renew _ observedAt _, life =>
      life.task.due observedAt = .ok false ∧ Leased observedAt life
  | .cancel _, _ => True
  | .exhaust _ observedAt _, life => life.task.due observedAt = .ok false
  | .retry _ observedAt _ _ state availableAt, life =>
      life.task.due observedAt = .ok false ∧ life.task.due availableAt = .ok false ∧
        observedAt ≤ availableAt ∧
        state = if observedAt < availableAt then .sleeping else .pending
  | .abandon _ observedAt _ _, life => life.task.due observedAt = .ok false
  | .reopen _ nowAt, life => life.task.due nowAt = .ok false

/-- The clock reading at which a transition was decided. -/
def stamp : Transition → Timestamp
  | .claim _ _ nowAt _ | .cancel nowAt | .reopen _ nowAt => nowAt
  | .complete _ observedAt _ | .sleep _ observedAt _ | .renew _ observedAt _
  | .exhaust _ observedAt _ | .retry _ observedAt _ _ _ _ | .abandon _ observedAt _ _ =>
      observedAt

/-- The run a transition creates. -/
def newRun? : Transition → Option Uuid
  | .retry _ _ _ newRun _ _ | .reopen newRun _ => some newRun
  | _ => none

end Transition

/-! ## The invariant is kept -/

namespace Life.Valid

variable {life : Life}

theorem attempts_eq (valid : life.Valid space) :
    life.task.attempts = life.history.length + 1 := by
  have lengths := congrArg List.length valid.numbered
  simp [Life.runs] at lengths
  omega

theorem last_attempt (valid : life.Valid space) : life.last.attempt = life.task.attempts := by
  have numbered := valid.numbered
  rw [valid.attempts_eq, Life.runs, List.map_append, List.range'_concat] at numbered
  have lasts := (List.append_inj' numbered rfl).2
  simp only [List.map_cons, List.map_nil, List.cons.injEq, and_true] at lasts
  rw [lasts, valid.attempts_eq]
  omega

theorem started_of_state (valid : life.Valid space)
    (notPending : life.last.state ≠ .pending) (notCancelled : life.last.state ≠ .cancelled) :
    life.task.firstStartedAt ≠ none := by
  intro unstarted
  rcases (valid.unstarted unstarted).2 with pending | cancelled
  · exact notPending pending
  · exact notCancelled cancelled

/-- A terminal task state is that of a terminal last run. -/
theorem terminal_iff (valid : life.Valid space) :
    life.task.state.terminal = life.last.state.terminal := by
  rcases valid.agrees with same | ⟨cancelled, failed⟩
  · rw [same]
  · rw [cancelled, failed]
    rfl

/-- An active run is the last run of its task, and the task is in its state. -/
theorem active_run (valid : life.Valid space) {run : RunRow} (member : run ∈ life.runs)
    (active : run.state.active = true) : run = life.last ∧ life.task.state = run.state := by
  have isLast : run = life.last := by
    rcases Life.mem_runs.mp member with earlier | last
    · rw [valid.historyFailed run earlier] at active
      cases active
    · exact last
  refine ⟨isLast, ?_⟩
  rcases valid.agrees with same | ⟨_, failed⟩
  · rw [same, isLast]
  · rw [isLast, failed] at active
    cases active

theorem lease (valid : life.Valid space) {run : RunRow} (member : run ∈ life.runs) :
    run.leaseMatchesState space = true :=
  (RunRow.check_ok.mp (valid.runsChecked run member)).2.2.2

/-- New versions of the task row and of the last run keep the invariant. -/
theorem withLast (valid : life.Valid space) {task : TaskRow} {last : RunRow}
    (sameTask : task.id = life.task.id)
    (sameAttempts : task.attempts = life.task.attempts)
    (sameAttempt : last.attempt = life.last.attempt)
    (sameOwner : last.taskId = life.last.taskId)
    (pointed : task.lastAttemptRun = last.id)
    (agrees : task.state = last.state ∨ (task.state = .cancelled ∧ last.state = .failed))
    (withinBudget : life.task.attempts ≤ task.maxAttempts)
    (taskChecked : task.check space = .ok ())
    (runChecked : last.check space = .ok ())
    (started : (task.firstStartedAt ≠ none ∧ last.startedAt ≠ none) ∨
      (task.firstStartedAt = life.task.firstStartedAt ∧ last.startedAt = life.last.startedAt ∧
        (task.firstStartedAt = none → last.state = .pending ∨ last.state = .cancelled))) :
    ({ task := task, history := life.history, last := last } : Life).Valid space where
  owned := by
    intro run member
    rcases Life.mem_runs.mp member with earlier | isLast
    · rw [sameTask]
      exact valid.owned run (Life.mem_runs.mpr (Or.inl earlier))
    · subst isLast
      rw [sameTask]
      exact sameOwner.trans (valid.owned _ life.last_mem_runs)
  numbered := by
    have numbered := valid.numbered
    simp only [Life.runs, List.map_append, List.map_cons, List.map_nil] at numbered ⊢
    rw [sameAttempts, sameAttempt]
    exact numbered
  pointed := pointed
  historyFailed := valid.historyFailed
  agrees := agrees
  withinBudget := by
    rw [sameAttempts]
    exact withinBudget
  taskChecked := taskChecked
  runsChecked := by
    intro run member
    rcases Life.mem_runs.mp member with earlier | isLast
    · exact valid.runsChecked run (Life.mem_runs.mpr (Or.inl earlier))
    · rw [isLast]
      exact runChecked
  neverClaimed := by
    rcases started with ⟨taskStarted, runStarted⟩ | ⟨sameStart, sameRunStart, _⟩
    · constructor
      · intro unstarted
        exact absurd unstarted taskStarted
      · intro unclaimed
        exact absurd (unclaimed last (Life.last_mem_runs _)) runStarted
    · have before := valid.neverClaimed
      simp only [Life.mem_runs, or_imp, forall_and, forall_eq] at before ⊢
      rw [sameStart, sameRunStart]
      exact before
  unstarted := by
    intro unstarted
    rcases started with ⟨taskStarted, _⟩ | ⟨sameStart, _, state⟩
    · exact absurd unstarted taskStarted
    · exact ⟨(valid.unstarted (sameStart ▸ unstarted)).1, state unstarted⟩

/-- A fresh run after a failed one keeps the invariant. -/
theorem append (valid : life.Valid space) {task : TaskRow} {run : RunRow}
    (failed : life.last.state = .failed)
    (sameTask : task.id = life.task.id)
    (sameStart : task.firstStartedAt = life.task.firstStartedAt)
    (attempts : task.attempts = life.task.attempts + 1)
    (attempt : run.attempt = life.task.attempts + 1)
    (owner : run.taskId = life.task.id)
    (pointed : task.lastAttemptRun = run.id)
    (agrees : task.state = run.state)
    (withinBudget : life.task.attempts + 1 ≤ task.maxAttempts)
    (taskChecked : task.check space = .ok ())
    (runChecked : run.check space = .ok ())
    (unclaimed : run.startedAt = none) :
    ({ task := task, history := life.runs, last := run } : Life).Valid space where
  owned := by
    intro other member
    rcases Life.mem_runs.mp member with earlier | isLast
    · rw [sameTask]
      exact valid.owned other earlier
    · rw [isLast, sameTask]
      exact owner
  numbered := by
    have numbered := valid.numbered
    rw [Life.runs, List.map_append, numbered, attempts, List.range'_concat]
    simp [attempt]
    omega
  pointed := pointed
  historyFailed := by
    intro other member
    rcases Life.mem_runs.mp member with earlier | isLast
    · exact valid.historyFailed other earlier
    · rw [isLast]
      exact failed
  agrees := Or.inl agrees
  withinBudget := by
    rw [attempts]
    exact withinBudget
  taskChecked := taskChecked
  runsChecked := by
    intro other member
    rcases Life.mem_runs.mp member with earlier | isLast
    · exact valid.runsChecked other earlier
    · rw [isLast]
      exact runChecked
  neverClaimed := by
    rw [sameStart, valid.neverClaimed]
    simp only [Life.mem_runs, or_imp, forall_and, forall_eq]
    simp [unclaimed]
  unstarted := by
    intro unstarted
    refine absurd (sameStart ▸ unstarted) (valid.started_of_state ?_ ?_) <;>
      simp [failed]

end Life.Valid

namespace Transition

variable {life : Life}

theorem Running.task_state {run : Uuid} (valid : life.Valid space) (running : Running run life) :
    life.task.state = .running := by
  have active : life.last.state.active = true := by
    rw [running.2]
    rfl
  rw [(valid.active_run life.last_mem_runs active).2, running.2]

theorem Running.started {run : Uuid} (valid : life.Valid space) (running : Running run life) :
    life.task.firstStartedAt ≠ none := by
  apply valid.started_of_state <;> simp [running.2]

/-- A failed attempt without successor keeps the invariant. -/
theorem valid_exhaust (valid : life.Valid space) {run : Uuid} {observedAt : Timestamp}
    {reason : Option Json} (running : Running run life) (given : reason.isSome) :
    ((exhaust run observedAt reason).after life).Valid space := by
  refine valid.withLast rfl ?_ rfl rfl running.1.symm (Or.inl rfl) valid.withinBudget ?_
    (RunRow.check_fail (valid.runsChecked _ life.last_mem_runs) given _) (Or.inr ⟨rfl, rfl, ?_⟩)
  · rw [TaskRow.afterFailure, valid.last_attempt, Nat.max_self]
  · refine TaskRow.check_of_same valid.taskChecked rfl rfl le_rfl ?_
    intro impossible
    cases impossible
  · intro unstarted
    exact absurd unstarted (running.started valid)

/-- Every enabled transition keeps the invariant. -/
theorem valid_after {transition : Transition} (valid : life.Valid space)
    (enabled : transition.Enabled space life) : (transition.after life).Valid space := by
  have lastChecked := valid.runsChecked _ life.last_mem_runs
  cases transition with
  | claim run worker nowAt expiresAt =>
      obtain ⟨_, _, named⟩ := enabled
      refine valid.withLast rfl ?_ rfl rfl rfl (Or.inl rfl) valid.withinBudget ?_
        (RunRow.check_claim lastChecked named _ _) (Or.inl ⟨by simp [TaskRow.claim],
          by simp [RunRow.claim]⟩)
      · rw [TaskRow.claim, valid.last_attempt, Nat.max_self]
      · refine TaskRow.check_of_same valid.taskChecked rfl rfl le_rfl ?_
        intro impossible
        cases impossible
  | complete run observedAt result =>
      obtain ⟨running, given⟩ := enabled
      refine valid.withLast rfl rfl rfl rfl running.1.symm (Or.inl rfl) valid.withinBudget ?_
        (RunRow.check_complete lastChecked given _) (Or.inr ⟨rfl, rfl, ?_⟩)
      · refine TaskRow.check_of_same valid.taskChecked rfl rfl le_rfl ?_
        intro impossible
        cases impossible
      · intro unstarted
        exact absurd unstarted (running.started valid)
  | sleep run observedAt wakeAt =>
      refine valid.withLast rfl rfl rfl rfl valid.pointed (Or.inl rfl) valid.withinBudget ?_
        (RunRow.check_sleep lastChecked _) (Or.inr ⟨rfl, rfl, ?_⟩)
      · refine TaskRow.check_of_same valid.taskChecked rfl rfl le_rfl ?_
        intro impossible
        cases impossible
      · intro unstarted
        exact absurd unstarted (Running.started valid enabled)
  | renew run observedAt expiry =>
      refine valid.withLast rfl rfl rfl rfl valid.pointed valid.agrees valid.withinBudget
        valid.taskChecked (RunRow.check_renew lastChecked enabled.2 _) (Or.inr ⟨rfl, rfl, ?_⟩)
      intro unstarted
      exact (valid.unstarted unstarted).2
  | cancel nowAt =>
      refine valid.withLast rfl rfl rfl rfl valid.pointed (Or.inl rfl) valid.withinBudget ?_
        (RunRow.check_cancel lastChecked) (Or.inr ⟨rfl, rfl, ?_⟩)
      · refine TaskRow.check_of_same valid.taskChecked rfl rfl le_rfl ?_
        intro _
        rfl
      · intro _
        exact Or.inr rfl
  | exhaust run observedAt reason => exact valid_exhaust valid enabled.1 enabled.2.1
  | retry run observedAt reason newRun state availableAt =>
      obtain ⟨running, given, left, waiting⟩ := enabled
      have budget := Life.next_le_of_retriable left
      have failed : ((exhaust run observedAt reason).after life).Valid space :=
        valid_exhaust valid running given
      have sameAttempt := valid.last_attempt
      have attempts := failed.last_attempt
      refine failed.append rfl rfl rfl ?_ ?_ rfl rfl rfl ?_ ?_
        (RunRow.check_fresh _ _ _ waiting _) rfl
      · simp only [after, TaskRow.afterFailure]
        omega
      · simp only [after, TaskRow.afterFailure, RunRow.fresh]
        omega
      · simp only [after, TaskRow.afterFailure]
        omega
      · refine TaskRow.check_of_same valid.taskChecked rfl rfl le_rfl ?_
        intro impossible
        change state = .cancelled at impossible
        rw [impossible] at waiting
        cases waiting
  | abandon run observedAt reason nowAt =>
      obtain ⟨running, given⟩ := enabled
      refine valid.withLast rfl rfl rfl rfl valid.pointed (Or.inr ⟨rfl, rfl⟩) valid.withinBudget
        ?_ (RunRow.check_fail lastChecked given _) (Or.inr ⟨rfl, rfl, ?_⟩)
      · refine TaskRow.check_of_same valid.taskChecked rfl rfl le_rfl ?_
        intro _
        rfl
      · intro unstarted
        exact absurd unstarted (running.started valid)
  | reopen newRun nowAt =>
      have failed : life.last.state = .failed := by
        rcases valid.agrees with same | ⟨cancelled, _⟩
        · rw [← same]
          exact enabled
        · rw [show life.task.state = .failed from enabled] at cancelled
          cases cancelled
      refine valid.append failed rfl rfl rfl rfl rfl rfl rfl ?_ ?_
        (RunRow.check_fresh _ _ _ rfl _) rfl
      · simp only [TaskRow.reopen]
        omega
      · refine TaskRow.check_of_same valid.taskChecked rfl rfl ?_ ?_
        · simp only [TaskRow.reopen]
          omega
        · intro impossible
          cases impossible

end Transition

end Steda
