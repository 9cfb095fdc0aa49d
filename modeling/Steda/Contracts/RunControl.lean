import Steda.Statements

/-!
# Contracts of the gate, of cancellation, completion and suspension

Each contract says which event a stored function adds to the ledger of its
transaction, for which answer, and what the queue looked like when it raised.
-/

namespace Steda

open Postgres Transaction Relational

variable {space : Char → Bool} {quiet : Prop} {raises : SqlError → Tx → Prop}
variable {tx : Tx} {ledger : Ledger}

/-- The errors of attempt-scoped functions, with what each tells about the
queue.  Errors without a condition may be raised at any time. -/
structure Reports (quiet : Prop) (raises : SqlError → Tx → Prop) : Prop where
  runNotFound : ∀ run tx, (quiet → tx.queue.findRun run = none) → raises (.runNotFound run) tx
  taskCancelled : ∀ tx, raises .taskCancelled tx
  runAlreadyFailed : ∀ run tx, raises (.runAlreadyFailed run) tx
  leaseExpired : ∀ run tx, raises (.leaseExpired run) tx
  runNotRunning : ∀ id run tx, tx.queue.findRun id = some run →
    run.state = .pending ∨ run.state = .sleeping ∨ run.state = .completed →
      raises (.runNotRunning id) tx
  deadline : ∀ error task observedAt tx, (quiet → task ∈ tx.queue.tasks) →
    task.due observedAt = .error error → raises error tx
  identTaken : ∀ constraint tx, ¬Tx.Unused tx → raises (.uniqueViolation constraint) tx
  attemptOverflow : ∀ run tx, run ∈ tx.queue.runs → maxInteger ≤ run.attempt →
    raises .integerOutOfRange tx
  leaseNotExpired : ∀ run tx, ¬tx.readings.Pairwise (· ≤ ·) → raises (.leaseNotExpired run) tx
  neverClaimed : ∀ id run tx, tx.queue.findRun id = some run → run.state = .pending →
    raises (.unsupportedSupervisionState id .pending) tx

/-- The errors of a cast of a policy bound to a 64-bit integer. -/
def SqlError.concernsDeadline : SqlError → Bool
  | .invalidBigint _ | .bigintOutOfRange _ => true
  | _ => false

/-- The errors that only a broken queue or a NULL payload leads to: a refusal by
a constraint, and the exceptions on an attempt that contradicts its task. -/
def SqlError.defensive : SqlError → Bool
  | .checkViolation _ | .uniqueViolation _ | .foreignKeyViolation _
  | .taskForRunNotFound _ _ | .notAuthoritativeAttempt _ _ | .noFiniteLease _
  | .noFiniteClaim _ | .expiredRunNotAuthoritative _ _ | .runningRunNotAuthoritative _ _
  | .insertConflictWithoutKey => true
  | _ => false

/-- The errors that arise from the arguments and from the state of a sound queue. -/
def SqlError.plain (error : SqlError) : Bool := !error.concernsDeadline && !error.defensive

/-- Every plain error may be raised. -/
def Tolerates (raises : SqlError → Tx → Prop) : Prop :=
  ∀ error tx, error.plain = true → raises error tx

/-- The refusal of a row may be raised. -/
def Refuses (raises : SqlError → Tx → Prop) : Prop :=
  ∀ column tx, raises (.checkViolation column) tx

/-- A computation that fails with plain errors only. -/
abbrev Plain {α : Type} (outcome : Except SqlError α) : Prop :=
  OnlyRaises (fun error => error.plain = true) outcome

/-- The constraints of a row refuse it with the name of a column. -/
abbrev Refusing {α : Type} (outcome : Except SqlError α) : Prop :=
  OnlyRaises (fun error => ∃ column, error = .checkViolation column) outcome

theorem RunRow.refusing_check (run : RunRow) : Refusing (run.check space) := by
  unfold RunRow.check
  exact onlyRaises_guard ⟨_, rfl⟩ (onlyRaises_guard ⟨_, rfl⟩ (onlyRaises_guard ⟨_, rfl⟩
    (onlyRaises_guard ⟨_, rfl⟩ (onlyRaises_ok _))))

/-! ## The gate -/

/-- A transaction that has read the context of an attempt owns its task. -/
def Observed (space : Char → Bool) (quiet : Prop) (ledger : Ledger) (runId : Uuid)
    (context : AttemptContext) (tx : Tx) : Prop :=
  ∃ (life : Life) (run : RunRow) (observedAt : Timestamp),
    run ∈ life.runs ∧ run.id = runId ∧ context = .ofRows run life.task observedAt ∧
      Stably space quiet (Owns space quiet (ledger.observe observedAt) life.task.id life
        (Life.rows (some life))) tx

theorem guarantees_lockAttemptContext (reports : Reports quiet raises) (runId : Uuid)
    {condition : Tx → Prop} (persistent : Persistent condition)
    (settled : Stably space quiet (Settled space quiet ledger) tx)
    (stable : Stably space quiet condition tx) :
    Guarantees space quiet (lockAttemptContext runId)
      (fun context tx => Observed space quiet ledger runId context tx ∧
        Stably space quiet condition tx) raises tx := by
  apply Program.Ensures.bind
  refine Program.Ensures.mono ?_ (fun _ _ raised => raised)
    (guarantees_lockRun runId .wait (settled.and stable)
      (fun tx keys known => ⟨known.1.hold keys, persistent.hold tx keys known.2⟩)
      fun _ known => known.1.retained)
  intro found now locked
  cases found with
  | none =>
      intro store moved
      obtain ⟨_, missing⟩ := locked store moved
      exact reports.runNotFound runId _ fun silent => missing silent rfl
  | some run =>
      have settledNow : Stably space quiet (Settled space quiet ledger) now :=
        Rely.Stable.mono (fun _ known => known.1.1) locked
      have present : Stably space quiet
          (fun tx => condition tx ∧ tx.queue.findRun runId = some run) now :=
        Rely.Stable.mono (fun _ known => ⟨known.1.2, known.2.2⟩) locked
      apply Program.Ensures.bind
      refine Program.Ensures.mono ?_ (fun _ _ raised => raised)
        (guarantees_lockTask run.taskId .wait settledNow present fun tx keys known =>
          ⟨persistent.hold tx keys known.1, known.2⟩)
      rintro foundTask later ⟨taskLocked, presentLater, sawMissing⟩
      cases foundTask with
      | none =>
          obtain ⟨earlier, settledEarlier, ⟨_, found⟩, missing⟩ := sawMissing rfl rfl
          obtain ⟨life, rows, _⟩ := settledEarlier.lives run.taskId
          have member := Queue.mem_rowsOf_of_findRun found
          have noTask : (earlier.queue.rowsOf run.taskId).task = none := missing
          rw [rows] at member noTask
          cases life with
          | none => cases member
          | some life => cases noTask
      | some task =>
          obtain ⟨life, sameTask, owns⟩ := taskLocked
          have found := presentLater.now.2
          have member : run ∈ life.runs := by
            have inRows := Queue.mem_rowsOf_of_findRun found
            rw [owns.now.rows] at inRows
            exact inRows
          have sameId : run.taskId = life.task.id := owns.now.lives.2.symm
          rw [sameId] at owns
          apply Program.Ensures.bind
          have read : Guarantees space quiet currentTime (fun reading => Stably space quiet
              fun tx => Owns space quiet (ledger.observe reading) life.task.id life
                (Life.rows (some life)) tx ∧ condition tx) raises later :=
            guarantees_currentTime (owns.and presentLater) fun reading tx known =>
              ⟨known.1.observe reading, persistent.observe tx reading known.2.1⟩
          refine Program.Ensures.mono ?_ (fun _ _ raised => raised) read
          intro observedAt last known store moved
          refine ⟨⟨life, run, observedAt, member, Queue.findRun_id found, by rw [sameTask], ?_⟩, ?_⟩
          · exact Rely.Stable.mono (fun _ both => both.1) (known.after moved)
          · exact Rely.Stable.mono (fun _ both => both.2) (known.after moved)

/-- The lease is expired, or not yet, at the observed time. -/
def LeaseAt (expectExpired : Option Bool) (observedAt : Timestamp) (life : Life) : Prop :=
  ∃ expiry, life.last.claimExpiresAt = some expiry ∧
    if expectExpired = some true then expiry ≤ observedAt else observedAt < expiry

/-- A transaction that has passed the gate owns the task of the running attempt. -/
def Admitted (space : Char → Bool) (quiet : Prop) (ledger : Ledger) (runId : Uuid)
    (expectExpired : Option Bool) (context : AttemptContext) (tx : Tx) : Prop :=
  ∃ (life : Life) (observedAt : Timestamp),
    Transition.Running runId life ∧ LeaseAt expectExpired observedAt life ∧
      context = .ofRows life.last life.task observedAt ∧
      Stably space quiet (Owns space quiet (ledger.observe observedAt) life.task.id life
        (Life.rows (some life))) tx

/-- The gate lets exactly the running authoritative attempt pass. -/
theorem runningAttemptChecks_cases {life : Life} (valid : life.Valid space) {run : RunRow}
    (member : run ∈ life.runs) (expectExpired : Option Bool) (observedAt : Timestamp) :
    match runningAttemptChecks run.id expectExpired (.ofRows run life.task observedAt) with
    | .ok () => run = life.last ∧ life.last.state = .running ∧
        LeaseAt expectExpired observedAt life
    | .error error => error = .taskCancelled ∨ error = .runAlreadyFailed run.id ∨
        (error = .runNotRunning run.id ∧
          (run.state = .pending ∨ run.state = .sleeping ∨ run.state = .completed)) ∨
        error = .leaseExpired run.id ∨
        (error = .leaseNotExpired run.id ∧ expectExpired = some true ∧ run = life.last ∧
          ∃ expiry, run.claimExpiresAt = some expiry ∧ observedAt < expiry) := by
  by_cases running : run.state = .running
  · have active : run.state.active = true := by
      rw [running]
      rfl
    obtain ⟨isLast, sameState⟩ := valid.active_run member active
    subst isLast
    have pointed := valid.pointed
    have leased := valid.lease life.last_mem_runs
    rw [running] at sameState
    cases lease : life.last.claimExpiresAt with
    | none => cases owner : life.last.claimedBy <;>
        simp [RunRow.leaseMatchesState, running, owner, lease] at leased
    | some expiry =>
        have checks : runningAttemptChecks life.last.id expectExpired
            (.ofRows life.last life.task observedAt) =
              if expectExpired = some true then
                if observedAt < expiry then .error (.leaseNotExpired life.last.id) else .ok ()
              else if expiry ≤ observedAt then .error (.leaseExpired life.last.id)
              else .ok () := by
          simp [runningAttemptChecks, AttemptContext.ofRows, running, sameState, pointed, lease]
          rfl
        rw [checks]
        by_cases expects : expectExpired = some true
        · by_cases early : observedAt < expiry
          · rw [if_pos expects, if_pos early]
            exact Or.inr (Or.inr (Or.inr (Or.inr ⟨rfl, expects, rfl, expiry, rfl, early⟩)))
          · rw [if_pos expects, if_neg early]
            exact ⟨rfl, running, expiry, lease, by rw [if_pos expects]; exact not_lt.mp early⟩
        · by_cases late : expiry ≤ observedAt
          · rw [if_neg expects, if_pos late]
            exact Or.inr (Or.inr (Or.inr (Or.inl rfl)))
          · rw [if_neg expects, if_neg late]
            exact ⟨rfl, running, expiry, lease, by rw [if_neg expects]; exact not_le.mp late⟩
  · cases state : run.state <;>
      simp_all [runningAttemptChecks, AttemptContext.ofRows, bind, Except.bind, throw, throwThe,
        MonadExceptOf.throw]

theorem guarantees_lockRunningAttempt (reports : Reports quiet raises) (runId : Uuid)
    (expectExpired : Option Bool) {condition : Tx → Prop} (persistent : Persistent condition)
    (settled : Stably space quiet (Settled space quiet ledger) tx)
    (stable : Stably space quiet condition tx)
    (early : expectExpired = some true → ∀ life observedAt expiry tx,
      Owns space quiet (ledger.observe observedAt) life.task.id life (Life.rows (some life)) tx →
        condition tx → life.last.id = runId → life.last.claimExpiresAt = some expiry →
          observedAt < expiry → raises (.leaseNotExpired runId) tx) :
    Guarantees space quiet (lockRunningAttempt runId expectExpired)
      (fun context tx => Admitted space quiet ledger runId expectExpired context tx ∧
        Stably space quiet condition tx) raises tx := by
  apply Program.Ensures.bind
  refine Program.Ensures.mono ?_ (fun _ _ raised => raised)
    (guarantees_lockAttemptContext reports runId persistent settled stable)
  rintro context now ⟨⟨life, run, observedAt, member, isRun, isContext, owns⟩, known⟩
  subst isRun isContext
  have valid := owns.now.lives.1
  have checks := runningAttemptChecks_cases valid member expectExpired observedAt
  apply Program.Ensures.bind
  apply Program.ensures_ofExcept
  · intro _ passed
    rw [passed] at checks
    obtain ⟨isLast, running, lease⟩ := checks
    subst isLast
    intro store moved later movedLater
    have movedBoth := (interference space quiet).trans moved movedLater
    exact ⟨⟨life, observedAt, ⟨rfl, running⟩, lease, rfl, owns.after movedBoth⟩,
      known.after movedBoth⟩
  · intro error failed store moved
    rw [failed] at checks
    rcases checks with cancelled | alreadyFailed | ⟨idle, state⟩ | expired |
      ⟨notExpired, expects, isLast, expiry, lease, observedEarly⟩
    · rw [cancelled]
      exact reports.taskCancelled _
    · rw [alreadyFailed]
      exact reports.runAlreadyFailed _ _
    · rw [idle]
      exact reports.runNotRunning _ run _ ((owns store moved).findRun member) state
    · rw [expired]
      exact reports.leaseExpired _ _
    · rw [notExpired]
      subst isLast
      exact early expects life observedAt expiry _ (owns store moved) (known store moved) rfl
        lease observedEarly

/-! ## Cancellation -/

/-- The last run of a cancelled task. -/
def RunRow.cancelled (run : RunRow) : RunRow :=
  if run.state.terminal = true then run else run.cancel

theorem filter_cancellableRun {queue : Queue} {task : Uuid} {rows : Rows} {history : List RunRow}
    {last : RunRow} (seen : queue.rowsOf task = rows) (runs : rows.runs = history ++ [last])
    (done : ∀ run ∈ history, run.state.terminal = true) :
    queue.runs.filter (cancellableRun task) =
      if last.state.terminal = true then [] else [last] := by
  have split : queue.runs.filter (cancellableRun task) =
      rows.runs.filter fun run => !run.state.terminal := by
    rw [← seen]
    simp only [Queue.rowsOf, Queue.runsOf, select, List.filter_filter]
    apply List.filter_congr
    intro run _
    rw [cancellableRun, Bool.and_comm, beq_eq_decide]
  have noHistory : (history.filter fun run => !run.state.terminal) = [] := by
    rw [List.filter_eq_nil_iff]
    intro run member
    simp [done run member]
  rw [split, runs, List.filter_append, noHistory]
  by_cases finished : last.state.terminal = true <;> simp [finished]

section CancelTask

variable {task : Uuid} {life : Life} {rows : Rows} {row : TaskRow} {history : List RunRow}
variable {last : RunRow}

/-- The updates of a cancellation on an owned task. -/
theorem guarantees_cancelOpenTask (nowAt : Timestamp)
    (owns : Stably space quiet (Owns space quiet ledger task life rows) tx)
    (current : rows.task = some row) (runs : rows.runs = history ++ [last])
    (done : ∀ run ∈ history, run.state.terminal = true)
    (rowChecked : row.check space = .ok ()) (lastChecked : last.check space = .ok ()) :
    Guarantees space quiet (cancelOpenTask task nowAt)
      (fun cancelled tx => cancelled = true ∧ Stably space quiet
        (Owns space quiet ledger task life
          { task := some (row.cancel nowAt), runs := history ++ [last.cancelled] }) tx)
      raises tx := by
  apply Program.Ensures.bind
  refine Program.Ensures.mono ?_ (fun _ _ raised => raised)
    (guarantees_updateTask owns current rfl rfl
      (TaskRow.check_of_same rowChecked rfl rfl le_rfl fun _ => rfl))
  intro _ afterTask owned
  apply Program.Ensures.bind
  refine Program.Ensures.mono ?_ (fun _ _ raised => raised)
    (guarantees_snapshot (fun visible => visible.runs.filter (cancellableRun task) =
      if last.state.terminal = true then [] else [last]) owned
      fun _ known => filter_cancellableRun known.rows runs done)
  rintro visible afterRead ⟨candidates, owned⟩
  have owned := Rely.Stable.mono (fun _ known => known.1) owned
  rw [candidates]
  apply Program.Ensures.bind
  by_cases finished : last.state.terminal = true
  · rw [if_pos finished]
    have unchanged : rows.runs = history ++ [last.cancelled] := by
      rw [RunRow.cancelled, if_pos finished]
      exact runs
    rw [← unchanged]
    intro store moved later movedLater
    exact ⟨rfl, owned.after ((interference space quiet).trans moved movedLater)⟩
  · rw [if_neg finished]
    have isLast : last ∈ rows.runs := by
      rw [runs]
      exact List.mem_append_right _ (List.mem_singleton_self last)
    have owner : last.taskId = task := owned.now.owner isLast
    have cancellable : cancellableRun task last = true := by
      simp [cancellableRun, owner, finished]
    have replaced : replace RunRow.key last.cancel rows.runs = history ++ [last.cancelled] := by
      rw [RunRow.cancelled, if_neg finished]
      exact owned.now.replace_last runs rfl
    rw [cancelRuns]
    apply Program.Ensures.bind
    refine Program.Ensures.mono ?_ (fun _ _ raised => raised)
      (guarantees_lockRun_owned owned isLast)
    rintro found afterLock ⟨isRun, owned⟩
    subst isRun
    simp only [cancellable, if_true]
    apply Program.Ensures.bind
    refine Program.Ensures.mono ?_ (fun _ _ raised => raised)
      (guarantees_putRun owned owner ?_ ?_)
    · rintro _ afterPut ⟨-, owned⟩
      rw [replaced] at owned
      intro store moved later movedLater
      exact ⟨rfl, owned.after ((interference space quiet).trans moved movedLater)⟩
    · intro error _ refused
      rw [RunRow.check_cancel lastChecked] at refused
      cases refused
    · intro impossible
      cases impossible

/-- Reading the clock and locking the visible runs before the task. -/
theorem guarantees_cancelTask_prefix {condition : Timestamp → Tx → Prop}
    {returns : Bool → Tx → Prop}
    (stable : Stably space quiet (fun tx => ∀ nowAt, condition nowAt (tx.observe nowAt)) tx)
    (holds : ∀ nowAt tx keys, condition nowAt tx → condition nowAt (tx.hold keys))
    (retained : ∀ nowAt tx, condition nowAt tx →
      quiet ∨ ∀ change ∈ tx.log, ∀ id, change ≠ .deleteTask id)
    (rest : ∀ nowAt tx, Stably space quiet (condition nowAt) tx →
      Guarantees space quiet (do
        match ← lockTask task .wait with
        | none => .raise (.taskNotFound task)
        | some task' =>
            if task'.state.terminal then return false
            cancelOpenTask task nowAt) returns raises tx) :
    Guarantees space quiet (cancelTask task) returns raises tx := by
  apply Program.Ensures.bind
  refine Program.Ensures.mono ?_ (fun _ _ raised => raised)
    (guarantees_currentTime stable fun reading _ known => known reading)
  intro nowAt afterClock known
  apply Program.Ensures.bind
  refine Program.Ensures.mono ?_ (fun _ _ raised => raised)
    (guarantees_snapshot (fun _ => True) known fun _ _ => trivial)
  rintro visible afterRead ⟨-, known⟩
  apply Program.Ensures.bind
  refine Program.Ensures.mono ?_ (fun _ _ raised => raised)
    (guarantees_lockRuns .wait RunRow.id _ _ _
      (Rely.Stable.mono (fun _ both => both.1) known) (holds nowAt) (retained nowAt) ?_)
  · rintro selected afterLocks ⟨-, -, known⟩
    exact rest nowAt afterLocks (Rely.Stable.mono (fun _ both => both.1) known)
  · intro _ _ _ _ _ _ _ impossible
    cases impossible

/-- Cancelling an owned task that is in the middle of a transition. -/
theorem guarantees_cancelTask_owned
    (owns : Stably space quiet (Owns space quiet ledger task life rows) tx)
    (current : rows.task = some row) (runs : rows.runs = history ++ [last])
    (notTerminal : row.state.terminal = false)
    (done : ∀ run ∈ history, run.state.terminal = true)
    (rowChecked : row.check space = .ok ()) (lastChecked : last.check space = .ok ()) :
    Guarantees space quiet (cancelTask task)
      (fun cancelled tx => cancelled = true ∧ ∃ nowAt, Stably space quiet
        (Owns space quiet (ledger.observe nowAt) task life
          { task := some (row.cancel nowAt), runs := history ++ [last.cancelled] }) tx)
      raises tx := by
  refine guarantees_cancelTask_prefix
    (Rely.Stable.mono (fun _ known nowAt => known.observe nowAt) owns)
    (fun _ _ keys known => known.hold keys) (fun _ _ known => known.consistent.retained) ?_
  intro nowAt now owned
  apply Program.Ensures.bind
  refine Program.Ensures.mono ?_ (fun _ _ raised => raised)
    (guarantees_lockTask_owned owned current)
  rintro found afterLock ⟨isRow, owned⟩
  subst isRow
  simp only [notTerminal, Bool.false_eq_true, if_false]
  refine Program.Ensures.mono ?_ (fun _ _ raised => raised)
    (guarantees_cancelOpenTask nowAt owned current runs done rowChecked lastChecked)
  rintro cancelled later ⟨isTrue, owned⟩
  exact ⟨isTrue, nowAt, owned⟩

/-- `cancel_task` returns TRUE after cancelling the task and FALSE after
finding it terminal. -/
theorem guarantees_cancelTask
    (settled : Stably space quiet (Settled space quiet ledger) tx)
    (missing : ∀ tx, raises (.taskNotFound task) tx) :
    Guarantees space quiet (cancelTask task)
      (fun cancelled tx => (cancelled = true ∧
          ∃ nowAt, Reaches space quiet ledger [.moved task (.cancel nowAt)] tx) ∨
        (cancelled = false ∧ Reaches space quiet ledger [] tx)) raises tx := by
  refine guarantees_cancelTask_prefix
    (Rely.Stable.mono (fun _ known nowAt => known.observe nowAt) settled)
    (fun _ _ keys known => known.hold keys) (fun _ _ known => known.retained) ?_
  intro nowAt now settledNow
  have extended := ledger.extends_observe nowAt
  apply Program.Ensures.bind
  have anything : Stably space quiet (fun _ => True) now := fun _ _ => trivial
  refine Program.Ensures.mono ?_ (fun _ _ raised => raised)
    (guarantees_lockTask task .wait settledNow anything fun _ _ _ => trivial)
  rintro found afterLock ⟨locked, -, -⟩
  cases found with
  | none => exact fun store _ => missing _
  | some row =>
      obtain ⟨life, sameRow, owns⟩ := locked
      subst sameRow
      have valid := owns.now.lives.1
      by_cases terminal : life.task.state.terminal = true
      · simp only [terminal, if_true]
        intro store moved
        refine Or.inr ⟨rfl, (Reaches.nothing ?_).prepend extended⟩
        exact Rely.Stable.mono (fun _ known => known.settle) (owns.after moved)
      · have notTerminal : life.task.state.terminal = false := by simpa using terminal
        simp only [notTerminal, Bool.false_eq_true, if_false]
        have lastActive : life.last.cancelled = life.last.cancel := by
          rw [RunRow.cancelled, ← valid.terminal_iff, notTerminal]
          rfl
        refine Program.Ensures.mono ?_ (fun _ _ raised => raised)
          (guarantees_cancelOpenTask nowAt owns rfl rfl ?_ valid.taskChecked
            (valid.runsChecked _ life.last_mem_runs))
        · rintro cancelled later ⟨isTrue, owned⟩
          refine Or.inl ⟨isTrue, nowAt, Reaches.prepend extended (Reaches.moved ?_ notTerminal
            (fun _ => trivial) ?_ ?_)⟩
          · rw [lastActive] at owned
            exact owned
          · simp [Ledger.observe, Transition.stamp]
          · exact Ledger.named_nothing _
        · intro run member
          rw [valid.historyFailed run member]
          rfl

/-- The last attempt of the task is the run. -/
def LastAttempt (task runId : Uuid) (queue : Queue) : Prop :=
  (queue.findTask task).map TaskRow.lastAttemptRun = some runId

/-- Cancelling the task of a running attempt from within another function. -/
theorem guarantees_cancelTask_running {runId : Uuid}
    (owns : Stably space quiet (Owns space quiet ledger task life (Life.rows (some life))) tx)
    (running : Transition.Running runId life) :
    Guarantees space quiet (cancelTask task)
      (fun cancelled tx => cancelled = true ∧
        (∃ nowAt, Reaches space quiet ledger [.moved task (.cancel nowAt)] tx) ∧
        Stably space quiet (fun tx => LastAttempt task runId tx.queue) tx) raises tx := by
  have valid := owns.now.lives.1
  have notTerminal : life.task.state.terminal = false := by
    rw [running.task_state valid]
    rfl
  have lastActive : life.last.cancelled = life.last.cancel := by
    rw [RunRow.cancelled, running.2]
    rfl
  refine Program.Ensures.mono ?_ (fun _ _ raised => raised)
    (guarantees_cancelTask_owned owns rfl rfl notTerminal ?_ valid.taskChecked
      (valid.runsChecked _ life.last_mem_runs))
  · rintro cancelled later ⟨isTrue, nowAt, owned⟩
    rw [lastActive] at owned
    refine ⟨isTrue, ⟨nowAt, Reaches.prepend (ledger.extends_observe nowAt)
      (Reaches.moved owned notTerminal (fun _ => trivial) ?_ ?_)⟩, ?_⟩
    · simp [Ledger.observe, Transition.stamp]
    · exact Ledger.named_nothing _
    · refine Rely.Stable.mono (fun _ known => ?_) owned
      rw [LastAttempt, known.findTask, ← running.1]
      exact congrArg some valid.pointed
  · intro run member
    rw [valid.historyFailed run member]
    rfl

end CancelTask

/-! ## Completion and suspension -/

theorem Owns.task_mem {task : Uuid} {life : Life} {rows : Rows} {row : TaskRow}
    (owns : Owns space quiet ledger task life rows tx) (current : rows.task = some row) :
    row ∈ tx.queue.tasks :=
  mem_of_find (owns.findTask.trans current)

/-- The other runs of a valid life are not active. -/
theorem Life.Valid.others_inactive {life : Life} (valid : life.Valid space) :
    ∀ other ∈ life.runs, other.id ≠ life.last.id → other.state.active = false := by
  intro other member different
  rcases Life.mem_runs.mp member with earlier | isLast
  · rw [valid.historyFailed other earlier]
    rfl
  · exact absurd (congrArg RunRow.id isLast) different

/-- Updating the last run of an owned task. -/
theorem guarantees_updateLast {task : Uuid} {life : Life} {set : RunRow → RunRow}
    (owns : Stably space quiet (Owns space quiet ledger task life (Life.rows (some life))) tx)
    (sameKey : (set life.last).key = life.last.key)
    (refused : ∀ error tx, (set life.last).check space = .error error → raises error tx) :
    Guarantees space quiet (updateRun life.last.id set)
      (fun _ tx => (set life.last).check space = .ok () ∧ Stably space quiet
        (Owns space quiet ledger task life
          { task := some life.task, runs := life.history ++ [set life.last] }) tx) raises tx := by
  have replaced : replace RunRow.key (set life.last) life.runs =
      life.history ++ [set life.last] := owns.now.replace_last rfl sameKey
  refine Program.Ensures.mono ?_ (fun _ _ raised => raised)
    (guarantees_updateRun owns life.last_mem_runs sameKey refused
      fun _ => owns.now.lives.1.others_inactive)
  rintro _ later ⟨checked, owned⟩
  change Stably space quiet (Owns space quiet ledger task life
    { task := some life.task, runs := replace RunRow.key (set life.last) life.runs }) later at owned
  rw [replaced] at owned
  exact ⟨checked, owned⟩

/-- `complete_run` returns TRUE after completing the run and FALSE after
cancelling its task. -/
theorem guarantees_completeRun (reports : Reports quiet raises) (runId : Uuid)
    (result : Option Json) (settled : Stably space quiet (Settled space quiet ledger) tx)
    (given : result.isSome ∨ Refuses raises) :
    Guarantees space quiet (completeRun runId result)
      (fun completed tx => ∃ task, (completed = true ∧ ∃ observedAt,
          Reaches space quiet ledger [.moved task (.complete runId observedAt result)] tx) ∨
        (completed = false ∧ ∃ nowAt,
          Reaches space quiet ledger [.moved task (.cancel nowAt)] tx)) raises tx := by
  have anything : Stably space quiet (fun _ => True) tx := fun _ _ => trivial
  apply Program.Ensures.bind
  refine Program.Ensures.mono ?_ (fun _ _ raised => raised)
    (guarantees_lockRunningAttempt reports runId (some false) persistent_true settled anything
      (by simp))
  rintro context afterGate ⟨⟨life, observedAt, running, lease, isContext, owns⟩, -⟩
  subst isContext
  have valid := owns.now.lives.1
  have lastChecked := valid.runsChecked _ life.last_mem_runs
  have extended := ledger.extends_observe observedAt
  apply Program.Ensures.bind
  refine Program.Ensures.mono ?_ (fun _ _ raised => raised)
    (guarantees_ofExcept owns fun error tx failed known =>
      reports.deadline error life.task _ tx (fun _ => known.task_mem rfl) failed)
  rintro due afterDue ⟨isDue, owned⟩
  have sameTask : (AttemptContext.ofRows life.last life.task observedAt).taskId =
      life.task.id := valid.owned _ life.last_mem_runs
  rw [sameTask]
  cases due with
  | true =>
      apply Program.Ensures.bind
      refine Program.Ensures.mono ?_ (fun _ _ raised => raised)
        (guarantees_cancelTask_running owned running)
      rintro _ later ⟨-, ⟨nowAt, reached⟩, -⟩ store moved
      exact ⟨life.task.id, Or.inr ⟨rfl, nowAt, (reached.after moved).prepend extended⟩⟩
  | false =>
      apply Program.Ensures.bind
      have sameRun := running.1
      subst sameRun
      refine Program.Ensures.mono ?_ (fun _ _ raised => raised)
        (guarantees_updateLast owned rfl ?_)
      · rintro _ afterRun ⟨checked, owned⟩
        have isGiven : result.isSome := ((RunRow.check_ok.mp checked).2.1 rfl).2
        have enabled : (Transition.complete life.last.id observedAt result).Enabled space life :=
          ⟨running, isGiven⟩
        have nextValid := Transition.valid_after valid enabled
        apply Program.Ensures.bind
        refine Program.Ensures.mono ?_ (fun _ _ raised => raised)
          (guarantees_updateTask owned rfl rfl rfl nextValid.taskChecked)
        intro _ afterTask owned store moved
        refine ⟨life.task.id, Or.inl ⟨rfl, observedAt, Reaches.prepend extended
          (Reaches.moved (owned.after moved) enabled (fun _ => ⟨isDue, lease⟩) ?_ ?_)⟩⟩
        · simp [Ledger.observe, Transition.stamp]
        · exact Ledger.named_nothing _
      · intro error later refused
        rcases given with isGiven | refuses
        · rw [RunRow.check_complete lastChecked isGiven] at refused
          cases refused
        · obtain ⟨column, isError⟩ := RunRow.refusing_check _ error refused
          exact isError ▸ refuses column later

/-- What `schedule_run` has done when it returns. -/
def Scheduled (space : Char → Bool) (quiet : Prop) (ledger : Ledger) (runId : Uuid)
    (wakeAt : Option Timestamptz) : ScheduleOutcome → Tx → Prop
  | .ready, tx => Reaches space quiet ledger [] tx
  | .suspended, tx => ∃ task observedAt wake, wakeAt = some wake ∧
      Reaches space quiet ledger [.moved task (.sleep runId observedAt wake)] tx
  | .cancelled, tx => ∃ task nowAt, Reaches space quiet ledger [.moved task (.cancel nowAt)] tx

theorem guarantees_scheduleRun (reports : Reports quiet raises) (runId : Uuid)
    (wakeAt : Option Timestamptz) (settled : Stably space quiet (Settled space quiet ledger) tx)
    (given : wakeAt.isSome ∨ Tolerates raises) :
    Guarantees space quiet (scheduleRun runId wakeAt)
      (Scheduled space quiet ledger runId wakeAt) raises tx := by
  have anything : Stably space quiet (fun _ => True) tx := fun _ _ => trivial
  apply Program.Ensures.bind
  refine Program.Ensures.mono ?_ (fun _ _ raised => raised)
    (guarantees_lockRunningAttempt reports runId (some false) persistent_true settled anything
      (by simp))
  rintro context afterGate ⟨⟨life, observedAt, running, lease, isContext, owns⟩, -⟩
  subst isContext
  have valid := owns.now.lives.1
  have extended := ledger.extends_observe observedAt
  have sameRun := running.1
  subst sameRun
  have sameTask : (AttemptContext.ofRows life.last life.task observedAt).taskId =
      life.task.id := valid.owned _ life.last_mem_runs
  rw [sameTask]
  have dues : (AttemptContext.ofRows life.last life.task observedAt).dueBy wakeAt =
      life.task.due observedAt >>= fun dueNow =>
        bif dueNow then .ok true else life.task.due wakeAt := by
    unfold AttemptContext.dueBy
    change (do if ← life.task.due observedAt then return true
               life.task.due wakeAt) = _
    rcases life.task.due observedAt with error | (_ | _) <;> rfl
  rw [dues]
  apply Program.Ensures.bind
  refine Program.Ensures.mono ?_ (fun _ _ raised => raised) (guarantees_ofExcept owns ?_)
  swap
  · intro error later failed known
    rcases dueNow : life.task.due observedAt with other | (_ | _)
    · rw [dueNow] at failed
      cases failed
      exact reports.deadline error life.task _ later (fun _ => known.task_mem rfl) dueNow
    · rw [dueNow] at failed
      exact reports.deadline error life.task _ later (fun _ => known.task_mem rfl) failed
    · rw [dueNow] at failed
      cases failed
  rintro due afterDue ⟨isDue, owned⟩
  cases due with
  | true =>
      apply Program.Ensures.bind
      refine Program.Ensures.mono ?_ (fun _ _ raised => raised)
        (guarantees_cancelTask_running owned running)
      rintro _ later ⟨-, ⟨nowAt, reached⟩, -⟩ store moved
      exact ⟨life.task.id, nowAt, (reached.after moved).prepend extended⟩
  | false =>
      have notDue : life.task.due observedAt = .ok false ∧ life.task.due wakeAt = .ok false := by
        rcases dueNow : life.task.due observedAt with other | (_ | _)
        · rw [dueNow] at isDue
          cases isDue
        · rw [dueNow] at isDue
          exact ⟨rfl, isDue⟩
        · rw [dueNow] at isDue
          cases isDue
      cases wakeAt with
      | none =>
          rcases given with impossible | tolerates
          · cases impossible
          · exact fun store _ => tolerates _ _ rfl
      | some wake =>
          by_cases awake : wake ≤ observedAt
          · have ready : wake ≤ (AttemptContext.ofRows life.last life.task observedAt).observedAt :=
              awake
            simp only [Bool.false_eq_true, if_false, ready, if_true]
            intro store moved
            exact Reaches.prepend extended (Reaches.nothing
              (Rely.Stable.mono (fun _ known => known.settle) (owned.after moved)))
          · have asleep :
                ¬wake ≤ (AttemptContext.ofRows life.last life.task observedAt).observedAt := awake
            simp only [Bool.false_eq_true, if_false, asleep]
            have enabled : (Transition.sleep life.last.id observedAt wake).Enabled space life :=
              running
            have nextValid := Transition.valid_after valid enabled
            have nextChecked := nextValid.runsChecked _ (Life.last_mem_runs _)
            apply Program.Ensures.bind
            refine Program.Ensures.mono ?_ (fun _ _ raised => raised)
              (guarantees_updateLast owned rfl ?_)
            · rintro _ afterRun ⟨-, owned⟩
              apply Program.Ensures.bind
              refine Program.Ensures.mono ?_ (fun _ _ raised => raised)
                (guarantees_updateTask owned rfl rfl rfl nextValid.taskChecked)
              intro _ afterTask owned store moved
              refine ⟨life.task.id, observedAt, wake, rfl, Reaches.prepend extended
                (Reaches.moved (owned.after moved) enabled
                  (fun _ => ⟨notDue.1, notDue.2, lease, not_le.mp awake⟩) ?_ ?_)⟩
              · simp [Ledger.observe, Transition.stamp]
              · exact Ledger.named_nothing _
            · intro error later refused
              cases nextChecked.symm.trans refused

end Steda
