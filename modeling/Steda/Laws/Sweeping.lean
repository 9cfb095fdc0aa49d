import Steda.Contention
import Steda.Laws.PolicyUse

/-!
# Deadline sweeps amid claims

`cancel_expired_tasks` finds its candidates in one statement, which locks their
runs and tests the deadline on the task rows of its snapshot; `cancel_task`
locks the tasks afterwards and does not test the deadline again.  A sweep
cancels only tasks that are due when it locks them as long as nobody commits
the first claim of a candidate between the snapshot of that statement and the
lock of the candidate's run.
-/

namespace Steda

open Postgres Transaction Relational

variable {space : Char → Bool}

/-- The deadline sweep of a call as far as it has got: the whole call, or the
part of `claim_tasks` after its first clock reading. -/
def Operation.Sweeping : Operation → List Exchange → List Exchange → Prop
  | .cancelExpiredTasks _, past, sweep => sweep = past
  | .claimTasks _ _ quantity _, past, sweep =>
      ∃ (met : Queue) (reading : Timestamp) (later : List Exchange) (rest : Sql Nat),
        past = ⟨met, .clock, reading⟩ :: (sweep ++ later) ∧
          (Steda.cancelExpiredTasks quantity).Follows sweep rest
  | _, _, _ => False

/-- Whenever the sweep has locked an open task, the deadline of the task is due
at the time of the sweep. -/
def CancelsDue (sweep : List Exchange) : Prop :=
  ∀ (first : Queue) (nowAt : Timestamp) (rest : List Exchange),
    sweep = ⟨first, .clock, nowAt⟩ :: rest →
      ∀ (task : Uuid) (met newest : Queue) (row : TaskRow),
        ⟨met, .lock (.task task) .wait, some newest⟩ ∈ rest → newest.findTask task = some row →
          row.state.terminal = false → row.due nowAt = .ok true

/-- Between the snapshot of the sweep and its lock of a candidate's run, nobody
has committed the first claim of the candidate. -/
def NotStartedMeanwhile (sweep : List Exchange) : Prop :=
  ∀ (first second : Queue) (nowAt : Timestamp) (visible : Queue) (rest : List Exchange),
    sweep = ⟨first, .clock, nowAt⟩ :: ⟨second, .read, visible⟩ :: rest →
      ∀ task ∈ visible.tasks, ∀ (met newest : Queue) (row : TaskRow),
        ⟨met, .lock (.run task.lastAttemptRun) .skipLocked, some newest⟩ ∈ rest →
          newest.findTask task.id = some row → row.firstStartedAt = task.firstStartedAt

/-! ## Reserved tasks -/

/-- A later stage of a life with the same first start has the same deadline. -/
theorem Life.Precedes.due {earlier later : Life} (precedes : earlier.Precedes later)
    (started : later.task.firstStartedAt = earlier.task.firstStartedAt)
    (observedAt : Option Timestamptz) : later.task.due observedAt = earlier.task.due observedAt := by
  have cancellation : later.task.cancellation = earlier.task.cancellation :=
    congrArg Submission.cancellation precedes.submission
  rw [TaskRow.due, TaskRow.due, cancellation, precedes.enqueueAt, started]

/-- A life whose active last run has not changed has not been started since. -/
theorem Life.Precedes.started_of_last {earlier later : Life} (precedes : earlier.Precedes later)
    (valid : earlier.Valid space) (laterValid : later.Valid space)
    (sameLast : later.last = earlier.last) :
    later.task.firstStartedAt = earlier.task.firstStartedAt := by
  cases started : earlier.task.firstStartedAt with
  | some startedAt => exact precedes.started startedAt started
  | none =>
      have attempts : later.history.length = earlier.history.length := by
        have first := valid.last_attempt
        have second := laterValid.last_attempt
        rw [valid.attempts_eq] at first
        rw [laterValid.attempts_eq, sameLast] at second
        omega
      have noHistory : later.history = [] := by
        rw [(valid.unstarted started).1] at attempts
        exact List.eq_nil_of_length_eq_zero attempts
      refine laterValid.neverClaimed.mpr fun run member => ?_
      rcases Life.mem_runs.mp member with inHistory | isLast
      · rw [noHistory] at inHistory
        cases inHistory
      · rw [isLast, sameLast]
        exact valid.neverClaimed.mp started _ earlier.last_mem_runs

/-- The transaction has locked the active last run of a task that is due. -/
def Reserved (space : Char → Bool) (nowAt : Timestamp) (task : Uuid) (tx : Tx) : Prop :=
  tx.committed.Sound space ∧ ∃ life, tx.committed.rowsOf task = Life.rows (some life) ∧
    .run life.last.id ∈ tx.held ∧ life.last.state.active = true ∧ life.task.due nowAt = .ok true

variable {nowAt : Timestamp} {task : Uuid} {tx : Tx}

/-- A reserved task stays due whatever others commit. -/
theorem Reserved.after {store : Queue} (reserved : Reserved space nowAt task tx)
    (moved : (contention space).moves tx.held tx.committed store) :
    Reserved space nowAt task (tx.withCommitted store) := by
  obtain ⟨sound, life, rows, locked, active, due⟩ := reserved
  obtain ⟨interfered, lives, _⟩ := moved
  have storeSound := interfered.1 sound
  obtain ⟨later, laterRows, precedes⟩ := lives sound task life rows
  obtain ⟨valid, owner⟩ := sound.life_of_rows rows
  obtain ⟨laterValid, _⟩ := storeSound.life_of_rows laterRows
  have found : tx.committed.findRun life.last.id = some life.last :=
    sound.keyed.findRun_of_mem (by rw [rows]; exact life.last_mem_runs)
  have member : life.last ∈ later.runs := by
    have inRows := Queue.mem_rowsOf_of_findRun ((interfered.2.2.1 _ locked).trans found)
    rw [valid.owned _ life.last_mem_runs, owner, laterRows] at inRows
    exact inRows
  have sameLast : later.last = life.last := (laterValid.active_run member active).1.symm
  refine ⟨storeSound, later, laterRows, ?_, ?_, ?_⟩
  · rw [sameLast]
    exact locked
  · rw [sameLast]
    exact active
  · rw [precedes.due (precedes.started_of_last valid laterValid sameLast)]
    exact due

theorem Reserved.answered {command : Command RowKey Change}
    {answer : command.Response Queue Timestamp Uuid} {after : Tx}
    (reserved : Reserved space nowAt task tx)
    (answered : Answered (storage space) command tx answer after) :
    Reserved space nowAt task after := by
  obtain ⟨sound, life, rows, locked, known⟩ := reserved
  rw [Reserved, answered.committed]
  exact ⟨sound, life, rows, answered.held.subset locked, known⟩

/-- A reserved task stays reserved until the transaction ends. -/
theorem Reserved.amid {α : Type} {program rest : Sql α} {past : List Exchange} {last : Tx}
    (conduct : Amid (storage space) (contention space) program tx past rest last)
    (reserved : Reserved space nowAt task tx) : Reserved space nowAt task last :=
  conduct.lasts (fun _ _ reserved moved => reserved.after moved)
    (fun reserved answered => reserved.answered answered) reserved

/-! ## The candidates -/

theorem deadlineCandidate_ok {row : TaskRow} {run : RunRow}
    (candidate : deadlineCandidate nowAt row run = .ok true) :
    run.state.active = true ∧ row.due nowAt = .ok true := by
  unfold deadlineCandidate at candidate
  split at candidate
  · next active => exact ⟨(Bool.and_eq_true_iff.mp active).2, candidate⟩
  · cases candidate

theorem mem_lastRunJoin_run {visible : Queue} {pair : TaskRow × RunRow}
    (member : pair ∈ lastRunJoin visible) :
    visible.findRun pair.1.lastAttemptRun = some pair.2 := by
  obtain ⟨row, _, joined⟩ := List.mem_filterMap.mp member
  obtain ⟨run, found, isPair⟩ := Option.map_eq_some_iff.mp joined
  rw [← isPair]
  exact found

/-- A candidate that passes the test when its run is locked, and that nobody has
started since the snapshot, is reserved. -/
theorem reserved_of_candidate {visible : Queue} {pair : TaskRow × RunRow} {run : RunRow}
    (sound : visible.Sound space) (moved : (contention space).moves [] visible tx.committed)
    (member : pair ∈ lastRunJoin visible) (found : tx.committed.findRun pair.2.id = some run)
    (candidate : deadlineCandidate nowAt pair.1 run = .ok true)
    (notStarted : ∀ row, tx.committed.findTask pair.1.id = some row →
      row.firstStartedAt = pair.1.firstStartedAt)
    (locked : .run pair.2.id ∈ tx.held) : Reserved space nowAt pair.1.id tx := by
  obtain ⟨interfered, lives, runs⟩ := moved
  have committedSound := interfered.1 sound
  obtain ⟨early, isTask, valid, earlyRows⟩ := sound.life (mem_lastRunJoin member)
  have earlyFound := sound.keyed.findRun_of_mem (by rw [earlyRows]; exact early.last_mem_runs)
  have isLast : pair.2 = early.last := by
    rw [← valid.pointed, isTask, mem_lastRunJoin_run member] at earlyFound
    exact Option.some.inj earlyFound
  obtain ⟨life, rows, precedes⟩ := lives sound _ early earlyRows
  obtain ⟨lifeValid, _⟩ := committedSound.life_of_rows rows
  obtain ⟨active, due⟩ := deadlineCandidate_ok candidate
  have owner : run.taskId = pair.1.id := by
    obtain ⟨later, laterFound, sameTask⟩ := runs _ _ earlyFound
    rw [← isLast, found] at laterFound
    rw [Option.some.inj laterFound, sameTask, valid.owned _ early.last_mem_runs, isTask]
  have inRuns : run ∈ life.runs := by
    have inRows := Queue.mem_rowsOf_of_findRun found
    rw [owner, rows] at inRows
    exact inRows
  have isLifeLast := (lifeValid.active_run inRuns active).1
  refine ⟨committedSound, life, rows, ?_, isLifeLast ▸ active, ?_⟩
  · rw [← isLifeLast, Queue.findRun_id found]
    exact locked
  · have started : life.task.firstStartedAt = early.task.firstStartedAt := by
      rw [isTask]
      exact notStarted life.task (congrArg Rows.task rows)
    rw [precedes.due started, isTask]
    exact due

/-- The locking part of the candidate statement. -/
abbrev reserveRuns (nowAt : Timestamp) (candidates : List (TaskRow × RunRow)) (limit : Nat) :
    Sql (List ((TaskRow × RunRow) × RunRow)) :=
  lockRuns .skipLocked (fun pair => pair.2.id) (fun pair run => deadlineCandidate nowAt pair.1 run)
    candidates limit

/-- The interaction is the lock of a candidate's run. -/
def Exchange.Reserves (exchange : Exchange) : Prop :=
  ∃ (met : Queue) (run : Uuid) (newest : Option Queue),
    exchange = ⟨met, .lock (.run run) .skipLocked, newest⟩

theorem issues_lockRuns {α : Type} {allowed : Command RowKey Change → Prop} {policy : LockPolicy}
    {runId : α → Uuid} {keeps : α → RunRow → Except SqlError Bool} {candidates : List α}
    (locks : ∀ candidate ∈ candidates, allowed (.lock (.run (runId candidate)) policy))
    (limit : Nat) : (lockRuns policy runId keeps candidates limit).Issues allowed := by
  induction candidates generalizing limit with
  | nil => exact Program.issues_pure _
  | cons candidate rest inductionHypothesis =>
      obtain ⟨isAllowed, others⟩ := List.forall_mem_cons.mp locks
      cases limit with
      | zero => exact Program.issues_pure _
      | succ limit =>
          refine Program.issues_bind (Program.issues_bind (Program.issues_issue isAllowed)
            fun newest => Program.issues_pure _) fun found => ?_
          cases found with
          | none => exact inductionHypothesis others (limit + 1)
          | some run =>
              refine Program.issues_bind (Program.issues_ofExcept _) fun kept => ?_
              cases kept with
              | false => exact inductionHypothesis others (limit + 1)
              | true =>
                  exact Program.issues_bind (inductionHypothesis others limit)
                    fun others => Program.issues_pure _

/-- The locking statement of the sweep locks runs and changes nothing. -/
theorem reserveRuns_conduct {candidates : List (TaskRow × RunRow)} {limit : Nat}
    {rest : Sql (List ((TaskRow × RunRow) × RunRow))} {past : List Exchange} {last : Tx}
    {visible : Queue}
    (conduct : Amid (storage space) (contention space) (reserveRuns nowAt candidates limit)
      tx past rest last)
    (unwritten : tx.log = []) (moved : (contention space).moves [] visible tx.committed) :
    (last.log = [] ∧ (contention space).moves [] visible last.committed) ∧
      ∀ exchange ∈ past, Exchange.Reserves exchange := by
  have issues : (reserveRuns nowAt candidates limit).Issues
      fun command => ∃ run, command = .lock (.run run) .skipLocked :=
    issues_lockRuns (fun candidate _ => ⟨_, rfl⟩) limit
  apply conduct.keeps issues ?_ ?_ ⟨unwritten, moved⟩
  · intro tx store now moves
    exact ⟨now.1, (contention space).trans now.2 ((contention space).anti (List.nil_subset _) moves)⟩
  · rintro _ answer tx after ⟨run, rfl⟩ now answered
    refine ⟨?_, _, run, answer, rfl⟩
    cases answered with
    | locked found => exact now
    | missed missing => exact now

theorem reserveRuns_eq (candidate : TaskRow × RunRow) (rest : List (TaskRow × RunRow))
    (limit : Nat) :
    reserveRuns nowAt (candidate :: rest) (limit + 1) =
      .perform (.lock (.run candidate.2.id) .skipLocked) (fun newest =>
        match newest.bind fun queue => queue.findRun candidate.2.id with
        | none => reserveRuns nowAt rest (limit + 1)
        | some run => do
            if ← Program.ofExcept (deadlineCandidate nowAt candidate.1 run) then
              let others ← reserveRuns nowAt rest limit
              return (candidate, run) :: others
            else reserveRuns nowAt rest (limit + 1)) := rfl

/-- A candidate is reserved once its run is locked and passes the test. -/
theorem reserved_of_locked {visible store : Queue} {pair : TaskRow × RunRow} {run : RunRow}
    {answer : Option Queue} {after : Tx} (sound : visible.Sound space)
    (moved : (contention space).moves [] visible after.committed)
    (member : pair ∈ lastRunJoin visible) (unwritten : tx.log = [])
    (answered : Answered (storage space) (.lock (.run pair.2.id) .skipLocked)
      (tx.withCommitted store) answer after)
    (seen : (answer.bind fun queue => queue.findRun pair.2.id) = some run)
    (candidate : deadlineCandidate nowAt pair.1 run = .ok true)
    (notStarted : ∀ newest row, answer = some newest → newest.findTask pair.1.id = some row →
      row.firstStartedAt = pair.1.firstStartedAt) :
    Reserved space nowAt pair.1.id after := by
  cases answered with
  | missed missing => cases seen
  | locked present =>
      have isView : (tx.withCommitted store).view (storage space) = store :=
        @Tx.queue_of_unwritten (tx.withCommitted store) unwritten
      rw [isView] at seen
      exact reserved_of_candidate sound moved member seen candidate
        (fun row found => notStarted _ row rfl (by rw [isView]; exact found)) List.mem_cons_self

/-- The selected candidates are reserved. -/
theorem reserved_of_selected {visible : Queue} {candidates : List (TaskRow × RunRow)}
    {limit : Nat} {past : List Exchange} {last : Tx}
    {selected : List ((TaskRow × RunRow) × RunRow)}
    (conduct : Amid (storage space) (contention space) (reserveRuns nowAt candidates limit)
      tx past (.done selected) last)
    (sound : visible.Sound space) (joined : candidates ⊆ lastRunJoin visible)
    (unwritten : tx.log = []) (moved : (contention space).moves [] visible tx.committed)
    (notStarted : ∀ task ∈ visible.tasks, ∀ (met newest : Queue) (row : TaskRow),
      ⟨met, .lock (.run task.lastAttemptRun) .skipLocked, some newest⟩ ∈ past →
        newest.findTask task.id = some row → row.firstStartedAt = task.firstStartedAt) :
    ∀ pair ∈ selected, Reserved space nowAt pair.1.1.id last := by
  induction candidates generalizing tx past limit selected last with
  | nil =>
      cases conduct.done_cases.2
      simp
  | cons candidate rest inductionHypothesis =>
      obtain ⟨isJoined, others⟩ := List.cons_subset.mp joined
      cases limit with
      | zero =>
          cases conduct.done_cases.2
          simp
      | succ limit =>
          rw [reserveRuns_eq] at conduct
          rcases conduct.perform_cases with ⟨_, impossible⟩ |
            ⟨store, answer, after, late, moves, answered, isPast, remaining⟩
          · cases impossible
          · subst isPast
            have movedAfter : (contention space).moves [] visible after.committed := by
              rw [answered.committed]
              exact (contention space).trans moved
                ((contention space).anti (List.nil_subset _) moves)
            have unwrittenAfter : after.log = [] := by
              cases answered with
              | locked found => exact unwritten
              | missed missing => exact unwritten
            have notStartedLater : ∀ task ∈ visible.tasks, ∀ (met newest : Queue) (row : TaskRow),
                ⟨met, .lock (.run task.lastAttemptRun) .skipLocked, some newest⟩ ∈ late →
                  newest.findTask task.id = some row → row.firstStartedAt = task.firstStartedAt :=
              fun task inTasks met newest row member =>
                notStarted task inTasks met newest row (List.mem_cons_of_mem _ member)
            cases seen : answer.bind fun queue => queue.findRun candidate.2.id with
            | none =>
                simp only [seen] at remaining
                exact inductionHypothesis remaining others unwrittenAfter movedAfter notStartedLater
            | some run =>
                simp only [seen] at remaining
                cases kept : deadlineCandidate nowAt candidate.1 run with
                | error error =>
                    rw [kept] at remaining
                    cases (Amid.raise_cases remaining).2
                | ok keeps =>
                    rw [kept] at remaining
                    cases keeps with
                    | false =>
                        exact inductionHypothesis remaining others unwrittenAfter movedAfter
                          notStartedLater
                    | true =>
                        have composed : Amid (storage space) (contention space)
                            (reserveRuns nowAt rest limit >>= fun others =>
                              .done ((candidate, run) :: others)) after late (.done selected)
                            last := remaining
                        obtain ⟨chosen, between, early, done, isLate, first, second⟩ :=
                          composed.bind_done
                        obtain ⟨noMore, isSelected⟩ := second.done_cases
                        cases isSelected
                        subst noMore isLate
                        rw [List.append_nil] at notStartedLater
                        have chosenReserved := inductionHypothesis first others unwrittenAfter
                          movedAfter notStartedLater
                        refine List.forall_mem_cons.mpr ⟨Reserved.amid second (Reserved.amid first ?_),
                          fun pair member => Reserved.amid second (chosenReserved pair member)⟩
                        refine reserved_of_locked sound movedAfter isJoined unwritten answered seen
                          kept ?_
                        intro newest row isNewest found
                        refine notStarted candidate.1 (mem_lastRunJoin isJoined) store newest row ?_
                          found
                        rw [← isNewest, Queue.findRun_id (mem_lastRunJoin_run isJoined)]
                        exact List.mem_cons_self

/-! ## The cancellations -/

/-- The changes of a cancellation. -/
def Change.Cancels : Change → Prop
  | .putRun run => run.state = .cancelled
  | .putTask row => row.state = .cancelled
  | _ => False

/-- The commands of the cancellation of some tasks. -/
def CancelCommand (tasks : List Uuid) : Command RowKey Change → Prop
  | .lock (.task task) _ => task ∈ tasks
  | .write change => change.Cancels
  | _ => True

section Cancellations

variable {tasks : List Uuid}

theorem issues_lockTask {policy : LockPolicy} (member : task ∈ tasks) :
    (lockTask task policy).Issues (CancelCommand tasks) :=
  Program.issues_bind (Program.issues_issue member) fun _ => Program.issues_pure _

theorem issues_cancelRuns (candidates : List RunRow) :
    (cancelRuns task candidates).Issues (CancelCommand tasks) := by
  induction candidates with
  | nil => exact Program.issues_pure _
  | cons candidate rest inductionHypothesis =>
      refine Program.issues_bind (Program.issues_bind (Program.issues_issue trivial)
        fun newest => Program.issues_pure _) fun found => ?_
      cases found with
      | none => exact inductionHypothesis
      | some run =>
          cases cancellable : cancellableRun task run with
          | false =>
              simp only [cancellable]
              exact inductionHypothesis
          | true =>
              simp only [cancellable, if_true]
              exact Program.issues_bind (Program.issues_issue rfl) fun _ => inductionHypothesis

theorem issues_cancelTask (member : task ∈ tasks) :
    (cancelTask task).Issues (CancelCommand tasks) := by
  refine Program.issues_bind (Program.issues_issue trivial) fun nowAt => ?_
  refine Program.issues_bind (Program.issues_issue trivial) fun visible => ?_
  refine Program.issues_bind (issues_lockRuns (fun _ _ => trivial) _) fun locked => ?_
  refine Program.issues_bind (issues_lockTask member) fun found => ?_
  cases found with
  | none => exact Program.issues_raise _
  | some row =>
      cases terminal : row.state.terminal with
      | true =>
          simp only [terminal, if_true]
          exact Program.issues_pure _
      | false =>
          simp only [terminal]
          refine Program.issues_bind (Program.issues_bind (issues_lockTask member) fun newest => ?_)
            fun _ => ?_
          · cases newest with
            | none => exact Program.issues_pure _
            | some row =>
                exact Program.issues_bind (Program.issues_issue rfl) fun _ => Program.issues_pure _
          · refine Program.issues_bind (Program.issues_issue trivial) fun visible => ?_
            exact Program.issues_bind (issues_cancelRuns _) fun _ => Program.issues_pure _

theorem issues_cancelEach {cancelled : List Uuid} (included : cancelled ⊆ tasks) :
    (cancelEach cancelled).Issues (CancelCommand tasks) := by
  induction cancelled with
  | nil => exact Program.issues_pure _
  | cons task rest inductionHypothesis =>
      obtain ⟨member, others⟩ := List.cons_subset.mp included
      refine Program.issues_bind (issues_cancelTask member) fun _ => ?_
      exact Program.issues_bind (inductionHypothesis others) fun _ => Program.issues_pure _

/-- Cancellations leave a task as it was or cancelled. -/
theorem findTask_of_cancels {log : List Change} (cancels : ∀ change ∈ log, change.Cancels)
    {queue : Queue} {row : TaskRow}
    (found : (log.foldl (fun queue change => Queue.apply change queue) queue).findTask task =
      some row) : row.state = .cancelled ∨ queue.findTask task = some row := by
  induction log generalizing queue with
  | nil => exact Or.inr found
  | cons change rest inductionHypothesis =>
      obtain ⟨isCancel, others⟩ := List.forall_mem_cons.mp cancels
      rcases inductionHypothesis others found with cancelled | earlier
      · exact Or.inl cancelled
      · cases change with
        | putRun run => exact Or.inr earlier
        | putTask written =>
            have isWritten : written.state = .cancelled := isCancel
            change (queue.putTask written).findTask task = some row at earlier
            rw [Queue.findTask_putTask] at earlier
            split at earlier
            · obtain ⟨old, _, isRow⟩ := Option.map_eq_some_iff.mp earlier
              exact Or.inl (isRow ▸ isWritten)
            · exact Or.inr earlier
        | _ => cases isCancel

/-- The transaction has reserved some tasks and has cancelled tasks only. -/
def Cancelling (space : Char → Bool) (nowAt : Timestamp) (tasks : List Uuid) (tx : Tx) : Prop :=
  (∀ change ∈ tx.log, change.Cancels) ∧ ∀ task ∈ tasks, Reserved space nowAt task tx

/-- An open task is due when the sweep locks it. -/
def Exchange.LocksDue (nowAt : Timestamp) (exchange : Exchange) : Prop :=
  ∀ (met : Queue) (task : Uuid) (newest : Queue) (row : TaskRow),
    exchange = ⟨met, .lock (.task task) .wait, some newest⟩ → newest.findTask task = some row →
      row.state.terminal = false → row.due nowAt = .ok true

/-- Reserved tasks are due when they are locked for their cancellation. -/
theorem cancelEach_conduct {cancelled : List Uuid} {rest : Sql Nat} {past : List Exchange}
    {last : Tx}
    (conduct : Amid (storage space) (contention space) (cancelEach cancelled) tx past rest last)
    (unwritten : tx.log = []) (reserved : ∀ task ∈ cancelled, Reserved space nowAt task tx) :
    ∀ exchange ∈ past, Exchange.LocksDue nowAt exchange := by
  have initial : Cancelling space nowAt cancelled tx := by
    refine ⟨?_, reserved⟩
    rw [unwritten]
    simp
  refine (conduct.keeps (issues_cancelEach (List.Subset.refl cancelled)) ?_ ?_ initial).2
  · intro tx store now moved
    exact ⟨now.1, fun task member => (now.2 task member).after moved⟩
  · intro command answer tx after isAllowed now answered
    have reservedAfter : ∀ task ∈ cancelled, Reserved space nowAt task after := fun task member =>
      (now.2 task member).answered answered
    have quietly : ∀ {met : Queue} {other : Command RowKey Change}
        {answer : other.Response Queue Timestamp Uuid},
        (∀ task policy, other ≠ .lock (.task task) policy) →
          Exchange.LocksDue nowAt ⟨met, other, answer⟩ := by
      intro met other answer notLock first task newest row isLock
      cases isLock
      exact absurd rfl (notLock task .wait)
    cases answered with
    | @locked key policy tx found =>
        refine ⟨⟨now.1, reservedAfter⟩, ?_⟩
        intro met task newest row isLock isRow isOpen
        cases isLock
        obtain ⟨_, life, rows, _, _, due⟩ := now.2 task isAllowed
        rcases findTask_of_cancels now.1 isRow with cancelled | committed
        · rw [cancelled] at isOpen
          cases isOpen
        · have isTask : tx.committed.findTask task = some life.task := congrArg Rows.task rows
          rw [Option.some.inj (committed.symm.trans isTask)]
          exact due
    | missed missing =>
        refine ⟨⟨now.1, reservedAfter⟩, ?_⟩
        intro met task newest row isLock
        cases isLock
    | @written change tx attempted =>
        refine ⟨⟨?_, reservedAfter⟩, quietly fun _ _ impossible => by cases impossible⟩
        intro other member
        rcases List.mem_append.mp member with earlier | isNew
        · exact now.1 other earlier
        · rw [List.mem_singleton.mp isNew]
          exact isAllowed
    | read => exact ⟨⟨now.1, reservedAfter⟩, quietly fun _ _ impossible => by cases impossible⟩
    | dropped attempted =>
        exact ⟨⟨now.1, reservedAfter⟩, quietly fun _ _ impossible => by cases impossible⟩
    | clock reading =>
        exact ⟨⟨now.1, reservedAfter⟩, quietly fun _ _ impossible => by cases impossible⟩
    | ident name =>
        exact ⟨⟨now.1, reservedAfter⟩, quietly fun _ _ impossible => by cases impossible⟩

end Cancellations

/-! ## The sweep -/

theorem Exchange.Reserves.locksDue {exchange : Exchange} (reserves : exchange.Reserves) :
    exchange.LocksDue nowAt := by
  obtain ⟨met, run, newest, rfl⟩ := reserves
  intro other task newest row isLock
  cases isLock

/-- The sweep after its snapshot. -/
abbrev sweepVisible (nowAt : Timestamp) (limit : Int) (visible : Queue) : Sql Nat := do
  let candidates ← Program.ofExcept <|
    filterExcept (fun pair => deadlineCandidate nowAt pair.1 pair.2) (lastRunJoin visible)
  let due ← reserveRuns nowAt (candidates.insertionSort fun left right => left.1.id ≤ right.1.id)
    limit.toNat
  cancelEach (due.map fun selected => selected.1.1.id)

theorem sweepVisible_conduct {limit : Int} {rest : Sql Nat} {past : List Exchange} {last : Tx}
    (conduct : Amid (storage space) (contention space) (sweepVisible nowAt limit tx.committed)
      tx past rest last)
    (sound : tx.committed.Sound space) (unwritten : tx.log = [])
    (notStarted : ∀ task ∈ tx.committed.tasks, ∀ (met newest : Queue) (row : TaskRow),
      ⟨met, .lock (.run task.lastAttemptRun) .skipLocked, some newest⟩ ∈ past →
        newest.findTask task.id = some row → row.firstStartedAt = task.firstStartedAt) :
    ∀ exchange ∈ past, Exchange.LocksDue nowAt exchange := by
  have reservesOnly : ∀ {early : List Exchange}, (∀ exchange ∈ early, Exchange.Reserves exchange) →
      ∀ exchange ∈ early, Exchange.LocksDue nowAt exchange :=
    fun reserves exchange member => (reserves exchange member).locksDue
  have unmoved : (contention space).moves [] tx.committed tx.committed := (contention space).refl _ _
  cases filtered : filterExcept (fun pair => deadlineCandidate nowAt pair.1 pair.2)
      (lastRunJoin tx.committed) with
  | error error =>
      simp only [sweepVisible, filtered] at conduct
      rw [(Amid.raise_cases conduct).1]
      simp
  | ok candidates =>
      simp only [sweepVisible, filtered] at conduct
      have locking : Amid (storage space) (contention space)
          (reserveRuns nowAt (candidates.insertionSort fun left right => left.1.id ≤ right.1.id)
              limit.toNat >>= fun due => cancelEach (due.map fun selected => selected.1.1.id))
          tx past rest last := conduct
      rcases locking.bind_cases with ⟨first, underWay, _⟩ |
        ⟨selected, between, early, late, isPast, locked, cancelling⟩
      · exact reservesOnly (reserveRuns_conduct underWay unwritten unmoved).2
      · subst isPast
        obtain ⟨⟨stillUnwritten, _⟩, reserves⟩ := reserveRuns_conduct locked unwritten unmoved
        have joined : (candidates.insertionSort fun left right => left.1.id ≤ right.1.id) ⊆
            lastRunJoin tx.committed := fun pair member =>
          (filterExcept_ok filtered).1.subset ((List.mem_insertionSort _).mp member)
        have reserved := reserved_of_selected locked sound joined unwritten unmoved
          fun task inTasks met newest row member =>
            notStarted task inTasks met newest row (List.mem_append_left _ member)
        have lateDue : ∀ exchange ∈ late, Exchange.LocksDue nowAt exchange := by
          refine cancelEach_conduct cancelling stillUnwritten fun task member => ?_
          obtain ⟨pair, inSelected, isTask⟩ := List.mem_map.mp member
          exact isTask ▸ reserved pair inSelected
        intro exchange member
        rcases List.mem_append.mp member with isEarly | isLate
        · exact reservesOnly reserves exchange isEarly
        · exact lateDue exchange isLate

theorem cancelExpiredTasks_eq (limit : Option Int) :
    cancelExpiredTasks limit = .perform .clock fun nowAt =>
      match limit with
      | none => .raise .cancelLimitNotPositive
      | some limit =>
          if limit ≤ 0 then .raise .cancelLimitNotPositive
          else snapshot >>= sweepVisible nowAt limit := rfl

/-- A sweep of a sound queue cancels only due tasks unless a candidate is
started meanwhile. -/
theorem cancelExpiredTasks_conduct {limit : Option Int} {rest : Sql Nat} {sweep : List Exchange}
    {last : Tx}
    (conduct : Amid (storage space) (contention space) (cancelExpiredTasks limit) tx sweep rest last)
    (sound : tx.committed.Sound space) (unwritten : tx.log = [])
    (notStarted : NotStartedMeanwhile sweep) : CancelsDue sweep := by
  rintro first nowAt past rfl
  suffices locksDue : ∀ exchange ∈ past, Exchange.LocksDue nowAt exchange from
    fun task met newest row member => locksDue _ member met task newest row rfl
  rw [cancelExpiredTasks_eq] at conduct
  rcases conduct.perform_cases with ⟨impossible, _⟩ |
    ⟨store, reading, afterClock, late, moves, answered, isPast, remaining⟩
  · cases impossible
  cases isPast
  have unwrittenNow : afterClock.log = [] := by
    cases answered
    exact unwritten
  have soundNow : afterClock.committed.Sound space := by
    rw [answered.committed]
    exact moves.1.1 sound
  cases limit with
  | none =>
      rw [(Amid.raise_cases remaining).1]
      simp
  | some limit =>
      by_cases bounded : limit ≤ 0
      · simp only [bounded, if_true] at remaining
        rw [(Amid.raise_cases remaining).1]
        simp
      · simp only [bounded, if_false] at remaining
        have reads : Amid (storage space) (contention space)
            (.perform .read (sweepVisible nowAt limit)) afterClock past rest last := remaining
        rcases reads.perform_cases with ⟨isPast, _⟩ |
          ⟨seen, visible, afterRead, late, movesToRead, answeredRead, isPast, remainingRead⟩
        · rw [isPast]
          simp
        subst isPast
        have unwrittenThen : afterRead.log = [] := by
          cases answeredRead
          exact unwrittenNow
        have isVisible : visible = afterRead.committed := by
          cases answeredRead
          simp [Local.view, Local.withCommitted, unwrittenNow]
        subst isVisible
        have soundThen : afterRead.committed.Sound space := by
          rw [answeredRead.committed]
          exact movesToRead.1.1 soundNow
        have lateDue := sweepVisible_conduct remainingRead soundThen unwrittenThen
          fun task inTasks met newest row member =>
            notStarted _ _ nowAt _ late rfl task inTasks met newest row member
        refine List.forall_mem_cons.mpr ⟨?_, lateDue⟩
        intro met task newest row isLock
        cases isLock

/-- In every run of contending calls, a deadline sweep, alone or inside
`claim_tasks`, cancels only tasks that are due when it locks them, unless
somebody has committed the first claim of a candidate between the snapshot of
the sweep and the lock of the candidate's run. -/
theorem Contested.cancelsDue {store : Queue} {labels : List Contest.Move} {contest : Contest}
    {id : Nat} {call : Session.Call} {operation : Operation} {sweep : List Exchange}
    (contested : Contested space store labels contest) (present : contest.party id = some call)
    (isCall : call.script = operation.script space) (sweeping : operation.Sweeping call.past sweep)
    (notStarted : NotStartedMeanwhile sweep) : CancelsDue sweep := by
  obtain ⟨start, sound, conduct⟩ := contested.coherent.conduct id call present
  rw [isCall] at conduct
  obtain ⟨rest, last, underWay⟩ := Operation.conduct_program conduct
  cases operation with
  | cancelExpiredTasks limit =>
      have isSweep : sweep = call.past := sweeping
      subst isSweep
      exact cancelExpiredTasks_conduct underWay sound rfl notStarted
  | claimTasks workerId leaseSeconds quantity taskNames =>
      obtain ⟨met, reading, later, after, isPast, follows⟩ := sweeping
      rw [isPast] at underWay
      have whole : Amid (storage space) (contention space)
          (.perform .clock fun _ =>
            Program.ofExcept (validateClaim space workerId leaseSeconds quantity taskNames) >>=
              fun request => cancelExpiredTasks (some request.quantity) >>= fun _ =>
                reapExpiredRuns (some request.quantity) >>= fun _ =>
                  currentTime >>= claimStatement request)
          (Local.start start) (⟨met, .clock, reading⟩ :: (sweep ++ later)) rest last := underWay
      rcases whole.perform_cases with ⟨impossible, _⟩ |
        ⟨queue, seen, afterClock, more, moves, answered, isMore, remaining⟩
      · cases impossible
      cases isMore
      have soundNow : afterClock.committed.Sound space := by
        rw [answered.committed]
        exact moves.1.1 sound
      have unwritten : afterClock.log = [] := by
        cases answered
        rfl
      cases validated : validateClaim space workerId leaseSeconds quantity taskNames with
      | error error =>
          rw [validated] at remaining
          have nothing := (Amid.raise_cases remaining).1
          rw [(List.append_eq_nil_iff.mp nothing).1]
          rintro first nowAt past impossible
          cases impossible
      | ok request =>
          rw [validated] at remaining
          rw [(validateClaim_ok validated).2.1] at follows
          obtain ⟨between, swept⟩ := Amid.of_follows follows remaining
          exact cancelExpiredTasks_conduct swept soundNow unwritten notStarted
  | _ => cases sweeping

/-- A queue with one task that must start within a minute. -/
def minuteQueue : Queue :=
  (World.serve asciiSpace [plainSubmission [("cancellation", minutePolicy ⟨60, 0⟩)]]
    (.blank second)).2.store

/-- A sweep when the minute is over. -/
def timelySweep : List Contest.Move :=
  .start ((Operation.cancelExpiredTasks (some 1)).script asciiSpace) ::
    List.replicate 12 (.advance 0 (60 * second) 0)

/-- A sweep without company cancels the task, which is due. -/
theorem Contested.cancelsDue_timely :
    ∃ contest call, Contested asciiSpace minuteQueue timelySweep contest ∧
      contest.party 0 = some call ∧ call.rest = .done ⟨.cancelExpiredTasks (some 1), (1 : Nat)⟩ ∧
      CancelsDue call.past := by
  have swept : ∃ contest call, Contested asciiSpace minuteQueue timelySweep contest ∧
      contest.party 0 = some call ∧ call.rest = .done ⟨.cancelExpiredTasks (some 1), (1 : Nat)⟩ ∧
      call.script = (Operation.cancelExpiredTasks (some 1)).script asciiSpace ∧
      NotStartedMeanwhile call.past := by
    refine ⟨_, _, ⟨(World.history_serve _ second).sound, ?_, System.trace_moves rfl⟩, rfl, rfl,
      rfl, ?_⟩
    · intro script member
      simp only [timelySweep, List.mem_cons, List.mem_replicate, reduceCtorEq, and_false, or_false,
        Move.start.injEq] at member
      exact ⟨.cancelExpiredTasks (some 1), trivial, member⟩
    · intro first second nowAt visible rest isSweep task inTasks met newest row member found
      cases isSweep
      have isTask := List.mem_singleton.mp (show task ∈ [_] from inTasks)
      subst isTask
      rcases member with _ | ⟨_, later⟩
      · cases found
        rfl
      · iterate 9 rcases later with _ | ⟨_, later⟩
        cases later
  obtain ⟨contest, call, contested, present, returned, isCall, notStarted⟩ := swept
  exact ⟨contest, call, contested, present, returned,
    contested.cancelsDue present isCall rfl notStarted⟩

/-- A sweep that reads the clock when the minute is over and takes its snapshot,
before a claim of the last moment commits. -/
def lateSweep : List Contest.Move :=
  let sweeps := .advance 0 (60 * second) 0
  let claims := .advance 1 (60 * second - 1) 0
  [.start ((Operation.cancelExpiredTasks (some 1)).script asciiSpace), sweeps, sweeps,
    .start ((plainClaim "worker").script asciiSpace)] ++ List.replicate 12 claims ++
      [.commit 1] ++ List.replicate 10 sweeps

/-- The sweep cancels the task although it was claimed in time. -/
theorem Contested.cancelsDue_late :
    ∃ contest call sweep, Contested asciiSpace minuteQueue lateSweep contest ∧
      contest.party 0 = some call ∧
      call.script = (Operation.cancelExpiredTasks (some 1)).script asciiSpace ∧
      call.rest = .done ⟨.cancelExpiredTasks (some 1), (1 : Nat)⟩ ∧
      (Operation.cancelExpiredTasks (some 1)).Sweeping call.past sweep ∧ ¬CancelsDue sweep := by
  refine ⟨_, _, _, ⟨(World.history_serve _ second).sound, ?_, System.trace_moves rfl⟩, rfl, rfl,
    rfl, rfl, ?_⟩
  · intro script member
    simp only [lateSweep, List.cons_append, List.nil_append, List.mem_cons, List.mem_append,
      List.mem_replicate, reduceCtorEq, and_false, false_or, or_false, Move.start.injEq,
      List.not_mem_nil] at member
    rcases member with rfl | rfl
    · exact ⟨.cancelExpiredTasks (some 1), trivial, rfl⟩
    · exact ⟨plainClaim "worker", trivial, rfl⟩
  · intro cancelsDue
    have due := cancelsDue _ (60 * second) _ rfl 0 _ _ _ (List.mem_of_getElem? (i := 5) rfl) rfl rfl
    cases due

end Steda
