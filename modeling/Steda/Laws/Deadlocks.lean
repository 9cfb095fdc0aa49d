import Steda.Laws.BatchLocks

/-!
# Locks of runs before tasks

Every call that submits no tasks locks the runs of a task before the task, with
two exceptions.  A cleanup deletes tasks, and the deletion of a task locks its
runs after it.  A cancellation updates the runs of the task a second time after
it has locked the task, and meets there the runs that others have added since
its first statement.  Two calls that keep the order do not wait for each other
at one task.
-/

namespace Steda

open Postgres Transaction Relational

variable {space : Char → Bool} {tx after last : Tx} {task run : Uuid}

/-- Every run that is active when a cancellation has locked the task was active
in the snapshot of its first statement. -/
def FindsActive (task : Uuid) (past : List Exchange) : Prop :=
  ∀ (first second : Queue) (nowAt : Timestamp) (visible : Queue) (rest : List Exchange),
    past = ⟨first, .clock, nowAt⟩ :: ⟨second, .read, visible⟩ :: rest →
      ∀ met newest : Queue, ⟨met, .lock (.task task) .wait, some newest⟩ ∈ rest →
        ∀ run ∈ newest.runsOf task, run.state.active = true →
          ∃ row ∈ visible.runsOf task, row.id = run.id ∧ row.state.active = true

/-! ## Cancellations -/

/-- A task of a sound queue has at most one run that can be cancelled. -/
theorem cancellable_unique {visible : Queue} (sound : visible.Sound space) {first second : RunRow}
    (isFirst : first ∈ cancellableRuns task visible)
    (isSecond : second ∈ cancellableRuns task visible) : first = second := by
  obtain ⟨seen, cancellable⟩ := List.mem_filter.mp (mem_cancellableRuns.mp isFirst)
  obtain ⟨alsoSeen, alsoCancellable⟩ := List.mem_filter.mp (mem_cancellableRuns.mp isSecond)
  obtain ⟨owner, isOpen⟩ := Bool.and_eq_true_iff.mp cancellable
  obtain ⟨sameOwner, alsoOpen⟩ := Bool.and_eq_true_iff.mp alsoCancellable
  rw [← State.active_eq_not_terminal] at isOpen alsoOpen
  obtain ⟨life, valid, rows, inRuns⟩ := sound.life_of_run seen
  have alsoInRuns : second ∈ life.runs := by
    have inRows : second ∈ visible.runsOf first.taskId := mem_select.mpr
      ⟨alsoSeen, (beq_iff_eq.mp sameOwner).trans (beq_iff_eq.mp owner).symm⟩
    rwa [show visible.runsOf first.taskId = life.runs from congrArg Rows.runs rows] at inRows
  exact (valid.active_run inRuns isOpen).1.trans (valid.active_run alsoInRuns alsoOpen).1.symm

/-- The first statement of a cancellation holds nothing when it waits. -/
theorem keepsOrder_lockCancellable {visible : Queue} (sound : visible.Sound space)
    (empty : tx.held = []) : KeepsOrder space (lockCancellable task visible) tx := by
  refine Program.respects_while (fun tx : Tx => tx.held = [] ∨
      ∀ candidate ∈ cancellableRuns task visible, RowKey.run candidate.id ∈ tx.held)
    (issues_lockRuns (fun candidate member => ⟨candidate, member, rfl⟩) _ :
      (lockCancellable task visible).Issues fun command =>
        ∃ candidate ∈ cancellableRuns task visible, command = .lock (.run candidate.id) .wait)
    (fun _ _ now _ => now) ?_ ?_ (Or.inl empty)
  · rintro _ answer tx after ⟨chosen, isChosen, rfl⟩ now answered
    cases answered with
    | missed missing => exact now
    | locked present =>
        refine Or.inr fun candidate member => ?_
        rw [cancellable_unique sound member isChosen]
        exact List.mem_cons_self
  · rintro tx _ now ⟨candidate, member, rfl⟩
    exact now.symm.imp (fun held => held candidate member) id

/-- A cancellation whose first statement has found the active runs of its task
has locked them. -/
theorem covers_of_found {store : Queue} {late : List Exchange}
    {selected : List (RunRow × RunRow)} {between : Tx} (steady : Steady space tx)
    (unwritten : tx.log = [])
    (conduct : Amid (storage space) (upkeep space) (lockCancellable task tx.committed) tx late
      (.done selected) between)
    (moves : (upkeep space).moves between.held between.committed store)
    (present : store.findTask task ≠ none)
    (finds : ∀ run ∈ store.runsOf task, run.state.active = true →
      ∃ row ∈ tx.committed.runsOf task, row.id = run.id ∧ row.state.active = true) :
    Tx.Covers (between.withCommitted store) task := by
  intro run inRuns active
  obtain ⟨row, inVisible, sameId, rowActive⟩ := finds run inRuns active
  obtain ⟨seen, owner⟩ := mem_select.mp inVisible
  have cancellable : cancellableRun task row = true := by
    rw [State.active_eq_not_terminal] at rowActive
    exact Bool.and_eq_true_iff.mpr ⟨beq_iff_eq.mpr owner, rowActive⟩
  have isCandidate := mem_cancellableRuns.mpr (List.mem_filter.mpr ⟨seen, cancellable⟩)
  rcases lockRuns_reached conduct (le_refl _) row isCandidate with held | ⟨met, sameLog, movesMet,
    absent, later⟩
  · exact sameId ▸ held
  · rw [Tx.queue_of_unwritten (sameLog.trans unwritten)] at absent
    have found := steady.sound.keyed.findRun_of_mem_runs seen
    rcases movesMet.2.2 _ _ found with ⟨kept, stays, _⟩ | gone
    · rw [absent] at stays
      cases stays
    · rw [owner] at gone
      exact absurd (moves.2.1 _ (later.2.1 _ gone)) present

/-- What a cancellation does after its first statement is in order once it has
found the active runs. -/
theorem cancelLocked_inOrder {nowAt : Timestamp} {rest : Sql Bool} {late : List Exchange}
    (ordered : Ordered space tx) (steady : Steady space tx) (unwritten : tx.log = [])
    (covers : ∀ store, (upkeep space).moves tx.held tx.committed store →
      store.findTask task ≠ none → ∀ more,
        late = ⟨store, .lock (.task task) .wait, some store⟩ :: more →
          Tx.Covers (tx.withCommitted store) task)
    (conduct : Amid (storage space) (upkeep space) (cancelLocked task nowAt) tx late rest last) :
    InOrder space rest last := by
  have whole : Amid (storage space) (upkeep space) (.perform (.lock (.task task) .wait)
    fun newest => cancelFound task nowAt (newest.bind fun queue => queue.findTask task))
      tx late rest last := conduct
  rcases whole.perform_cases with ⟨isNil, _⟩ |
    ⟨store, answer, after, more, moves, answered, isLate, remaining⟩
  · subst isNil
    exact inOrder_unanswered whole ordered fun _ => trivial
  · have orderly : Tx.Orderly (tx.withCommitted store) (.lock (.task task) .wait) := trivial
    have orderedAfter := (ordered.moved moves).answered orderly answered
    have steadyAfter := (steady.moved moves).answered orderly answered
    refine KeepsOrder.inOrder (?_ : KeepsOrder space _ after) orderedAfter remaining
    cases seen : answer.bind fun queue => queue.findTask task with
    | none => exact Program.respects_raise _
    | some row =>
        cases answered with
        | missed missing => cases seen
        | locked present =>
            have isView : (tx.withCommitted store).view (storage space) = store :=
              @Tx.queue_of_unwritten (tx.withCommitted store) unwritten
            rw [isView] at seen isLate
            have found : store.findTask task ≠ none := by
              have isRow : store.findTask task = some row := seen
              rw [isRow]
              exact Option.some_ne_none row
            have covered := covers store moves found more isLate
            have guarded : Guarded space task ((tx.withCommitted store).hold [.task task]) :=
              fun _ moved => Tx.Covers.moved (fun run inRuns active =>
                List.mem_cons_of_mem _ (covered run inRuns active)) List.mem_cons_self moved
            exact (staysClosed_cancelFound ⟨steadyAfter, guarded⟩ nowAt (some row)).keepsOrder

/-- A cancellation that finds the active runs of its task is in order. -/
theorem cancelTask_inOrder {start : Queue} {rest : Sql Bool} {past : List Exchange}
    (sound : start.Sound space) (finds : FindsActive task past)
    (conduct : Amid (storage space) (upkeep space) (cancelTask task) (Local.start start) past rest
      last) : InOrder space rest last := by
  have whole : Amid (storage space) (upkeep space) (.perform .clock fun nowAt =>
    snapshot >>= fun visible => lockCancellable task visible >>= fun _ => cancelLocked task nowAt)
      (Local.start start) past rest last := conduct
  rcases whole.perform_cases with ⟨isNil, _⟩ |
    ⟨store, nowAt, afterClock, late, moves, answered, isPast, remaining⟩
  · subst isNil
    exact inOrder_unanswered whole (ordered_idle rfl rfl sound) fun _ => trivial
  cases answered
  have soundClock : store.Sound space := moves.1.1 sound
  have reading : Amid (storage space) (upkeep space) (.perform .read fun visible =>
    lockCancellable task visible >>= fun _ => cancelLocked task nowAt)
      (Local.observe (Local.start store) nowAt) late rest last := remaining
  rcases reading.perform_cases with ⟨isNil, _⟩ |
    ⟨met, visible, afterRead, more, movesLater, answered, isLate, continued⟩
  · subst isNil
    exact inOrder_unanswered reading (ordered_idle rfl rfl soundClock) fun _ => trivial
  cases answered
  subst isLate
  have soundRead : met.Sound space := movesLater.1.1 soundClock
  have ordered : Ordered space (Local.observe (Local.start met) nowAt) :=
    ordered_idle rfl rfl soundRead
  have steady : Steady space (Local.observe (Local.start met) nowAt) := steady_idle rfl soundRead
  have locking : Amid (storage space) (upkeep space)
    (lockCancellable task met >>= fun _ => cancelLocked task nowAt)
      (Local.observe (Local.start met) nowAt) more rest last := continued
  have keeps : KeepsOrder space (lockCancellable task met)
    (Local.observe (Local.start met) nowAt) := keepsOrder_lockCancellable soundRead rfl
  rcases locking.bind_cases with ⟨first, underWay, isRest⟩ |
    ⟨selected, between, early, late, isMore, locked, cancelling⟩
  · subst isRest
    refine (keeps.inOrder ordered underWay).bind fun _ command next isNext => ?_
    cases isNext
    trivial
  · have unwritten : between.log = [] := locked.log (issues_lockRuns (fun _ _ => id) _)
    refine cancelLocked_inOrder (keeps.inOrder ordered locked).ordered (steady.amid keeps locked)
      unwritten (fun store moves found rest isLate => ?_) cancelling
    refine covers_of_found steady rfl locked moves found fun run inRuns active => ?_
    refine finds _ _ nowAt met more isPast store store ?_ run inRuns active
    rw [isMore, isLate]
    exact List.mem_append_right _ List.mem_cons_self

/-! ## Calls -/

/-- A call that deletes nothing and is no cancellation keeps the lock order. -/
theorem Operation.Contends.keepsOrder {operation : Operation} (contends : operation.Contends)
    (different : ∀ task, operation ≠ .cancelTask task) {start : Queue}
    (sound : start.Sound space) :
    KeepsOrder space (operation.program space) (Local.start start) := by
  have steady : Steady space (Local.start start) := steady_idle rfl sound
  have composed : Composed space (Local.start start) :=
    ⟨steady, fun _ impossible => by cases impossible⟩
  cases operation with
  | spawnTask taskName params options => cases contends
  | cleanupTasks => cases contends
  | cancelTask taskId => exact absurd rfl (different taskId)
  | claimTasks workerId leaseSeconds quantity taskNames =>
      exact keepsOrder_claimTasks composed rfl _ _ _ _
  | completeRun runId result => exact keepsOrder_completeRun steady rfl rfl result
  | failRun runId reason expectExpiredLease => exact keepsOrder_failRun steady rfl rfl _ _
  | scheduleRun runId wakeAt => exact keepsOrder_scheduleRun steady rfl rfl wakeAt
  | superviseRun runId renewForSeconds => exact keepsOrder_superviseRun steady rfl rfl _
  | reapExpiredRun runId => exact keepsOrder_reapExpiredRun steady rfl rfl
  | reapExpiredRuns reapLimit =>
      exact (staysClosed_reapExpiredRuns composed (fun _ impossible => by cases impossible)
        _).keepsOrder
  | cancelExpiredTasks cancelLimit =>
      exact (staysClosed_cancelExpiredTasks composed rfl _).keepsOrder
  | retryTask taskId => exact keepsOrder_of_issues issues_retryTask
  | setTaskCheckpointState taskId checkpointName newCheckpointState runId =>
      exact keepsOrder_setTaskCheckpointState rfl _ _
  | getTaskCheckpointStates taskId runId => exact keepsOrder_getTaskCheckpointStates rfl
  | getTaskResult taskId =>
      exact keepsOrder_of_issues ⟨fun _ => trivial, fun _ => trivial⟩

/-- The call deletes nothing, and as a cancellation it finds the active runs of
its task. -/
def Session.Call.LocksInOrder (space : Char → Bool) (call : Session.Call) : Prop :=
  ∃ operation : Operation, operation.Contends ∧ call.script = operation.script space ∧
    ∀ task, operation = .cancelTask task → FindsActive task call.past

/-- The transaction of a call is in order as its stored function is. -/
theorem Operation.inOrder_script {operation : Operation} {rest : Sql Returned}
    {past : List Exchange}
    (inOrder : ∀ (rest : Sql operation.Result) (last : Tx), Amid (storage space) (upkeep space)
      (operation.program space) tx past rest last → InOrder space rest last)
    (conduct : Amid (storage space) (upkeep space) (operation.script space) tx past rest last) :
    InOrder space rest last := by
  rcases conduct.bind_cases with ⟨first, underWay, isRest⟩ |
    ⟨result, between, early, late, isPast, returned, finished⟩
  · rw [isRest]
    exact (inOrder first last underWay).bind fun _ _ _ impossible => by cases impossible
  · obtain ⟨isNil, _⟩ := finished.done_cases
    rw [isPast, isNil, List.append_nil] at inOrder
    exact KeepsOrder.inOrder (Program.respects_done _) (inOrder _ _ returned).ordered finished

/-! ## Cleanups -/

/-- The transaction took the locks of runs after the locks of their tasks. -/
def Tx.TasksFirst (tx : Tx) : Prop :=
  ∀ (newer older : List RowKey) (row : RunRow), tx.held = newer ++ .run row.id :: older →
    row ∈ tx.committed.runs → .task row.taskId ∈ older

/-- The guard of a cleanup: it locks runs of tasks that it holds, and deletes. -/
def CleansUp (tx : Tx) : Command RowKey Change → Prop
  | .lock (.run run) _ => ∀ row ∈ tx.committed.runs, row.id = run → .task row.taskId ∈ tx.held
  | .lock (.task _) _ => True
  | .write (.deleteTask _) => True
  | .write _ => False
  | _ => True

/-- What holds all along a cleanup. -/
structure Cleaning (space : Char → Bool) (tx : Tx) : Prop where
  tasksFirst : tx.TasksFirst
  deletes : ∀ change ∈ tx.log, ∃ task, change = .deleteTask task
  sound : tx.committed.Sound space

section Cleanups

variable {α : Type} {program rest : Sql α} {past : List Exchange} {store : Queue}

/-- A committed run that is locked was committed as it is before. -/
theorem mem_runs_before (sound : tx.committed.Sound space)
    (moved : (upkeep space).moves tx.held tx.committed store) {row : RunRow}
    (locked : .run row.id ∈ tx.held) (member : row ∈ store.runs) : row ∈ tx.committed.runs := by
  have found := (moved.1.1 sound).keyed.findRun_of_mem_runs member
  exact mem_of_find ((moved.1.2.2.1 _ locked).symm.trans found)

theorem Cleaning.moved (cleaning : Cleaning space tx)
    (moved : (upkeep space).moves tx.held tx.committed store) :
    Cleaning space (tx.withCommitted store) := by
  refine ⟨fun newer older row isHeld member => ?_, cleaning.deletes, moved.1.1 cleaning.sound⟩
  have isHeldBefore : tx.held = newer ++ .run row.id :: older := isHeld
  have locked : .run row.id ∈ tx.held := by
    rw [isHeldBefore]
    exact List.mem_append_right _ List.mem_cons_self
  exact cleaning.tasksFirst newer older row isHeldBefore
    (mem_runs_before cleaning.sound moved locked member)

theorem Tx.TasksFirst.hold (tasksFirst : tx.TasksFirst) {key : RowKey}
    (covered : ∀ row ∈ tx.committed.runs, key = .run row.id → .task row.taskId ∈ tx.held) :
    Tx.TasksFirst (tx.hold [key]) := by
  intro newer older row isHeld member
  rcases List.cons_eq_append_iff.mp isHeld with ⟨_, isOlder⟩ | ⟨rest, _, isRest⟩
  · obtain ⟨isKey, sameOlder⟩ := List.cons.inj isOlder
    exact sameOlder ▸ covered row member isKey.symm
  · exact tasksFirst rest older row isRest member

theorem Cleaning.answered {command : Command RowKey Change} {answer : Answer command}
    (cleaning : Cleaning space tx) (cleansUp : CleansUp tx command)
    (answered : Answered (storage space) command tx answer after) : Cleaning space after := by
  cases answered with
  | @locked key policy _ present =>
      refine ⟨cleaning.tasksFirst.hold fun row member isKey => ?_, cleaning.deletes, cleaning.sound⟩
      subst isKey
      exact cleansUp row member rfl
  | @written change _ attempted =>
      cases change with
      | deleteTask id =>
          have noRun : ∀ row ∈ tx.committed.runs, RowKey.task id = .run row.id →
              .task row.taskId ∈ tx.held := by
            intro row member impossible
            cases impossible
          refine ⟨cleaning.tasksFirst.hold noRun, ?_, cleaning.sound⟩
          intro change member
          rcases List.mem_append.mp member with earlier | isNew
          · exact cleaning.deletes change earlier
          · exact ⟨id, List.mem_singleton.mp isNew⟩
      | _ => exact cleansUp.elim
  | _ => exact ⟨cleaning.tasksFirst, cleaning.deletes, cleaning.sound⟩

theorem Cleaning.amid (cleaning : Cleaning space tx)
    (respects : program.Respects (storage space) (upkeep space) CleansUp tx)
    (conduct : Amid (storage space) (upkeep space) program tx past rest last) :
    Cleaning space last :=
  conduct.upholds respects (fun _ _ cleaning moved => cleaning.moved moved)
    (fun cleansUp cleaning answered => cleaning.answered cleansUp answered) cleaning

/-- What a transaction that only deletes sees is committed. -/
theorem Cleaning.committed (cleaning : Cleaning space tx) {row : RunRow}
    (seen : row ∈ tx.queue.runs) : row ∈ tx.committed.runs := by
  have general : ∀ changes ⊆ tx.log, ∀ queue : Queue,
      row ∈ (changes.foldl (fun queue change => Queue.apply change queue) queue).runs →
        row ∈ queue.runs := by
    intro changes included
    induction changes with
    | nil => exact fun _ => id
    | cons change rest inductionHypothesis =>
        obtain ⟨inLog, others⟩ := List.cons_subset.mp included
        intro queue member
        obtain ⟨task, isDeletion⟩ := cleaning.deletes change inLog
        subst isDeletion
        exact (List.mem_filter.mp (inductionHypothesis others _ member)).1
  exact general tx.log (List.Subset.refl _) _ seen

/-- The runs of a locked task are locked after it. -/
theorem respects_lockCascade {runs : List RunRow} (sound : tx.committed.Sound space)
    (locked : .task task ∈ tx.held) (visible : ∀ row ∈ runs, row ∈ tx.committed.runsOf task) :
    (lockCascade runs).Respects (storage space) (upkeep space) CleansUp tx := by
  refine Program.respects_while (fun tx : Tx => tx.committed.Sound space ∧
      RowKey.task task ∈ tx.held ∧ ∀ row ∈ runs, row ∈ tx.committed.runsOf task)
    (issues_lockCascade (fun row member => ⟨row, member, rfl⟩) :
      (lockCascade runs).Issues fun command =>
        ∃ row ∈ runs, command = .lock (.run row.id) .wait) ?_ ?_ ?_ ⟨sound, locked, visible⟩
  · rintro tx store ⟨sound, locked, visible⟩ moved
    exact ⟨moved.1.1 sound, locked, fun row member =>
      (runsOf_of_moved moved locked).symm ▸ visible row member⟩
  · rintro command answer tx after _ ⟨sound, locked, visible⟩ answered
    rw [answered.committed]
    exact ⟨sound, answered.held.subset locked, visible⟩
  · rintro tx _ ⟨sound, locked, visible⟩ ⟨row, member, rfl⟩ other inRuns sameId
    obtain ⟨inCommitted, owner⟩ := mem_select.mp (visible row member)
    rw [sound.keyed.run_unique inRuns inCommitted sameId, owner]
    exact locked

/-- The selected tasks are deleted one by one. -/
theorem respects_deleteTasks {tasks : List Uuid} (cleaning : Cleaning space tx)
    (locked : ∀ task ∈ tasks, .task task ∈ tx.held) :
    (deleteTasks tasks).Respects (storage space) (upkeep space) CleansUp tx := by
  induction tasks generalizing tx with
  | nil => exact Program.respects_done _
  | cons task rest inductionHypothesis =>
      obtain ⟨isLocked, others⟩ := List.forall_mem_cons.mp locked
      refine Program.respects_perform (fun _ _ => trivial)
        fun store visible afterRead moves read => ?_
      cases read
      have cleaningRead := cleaning.moved moves
      have cascades : (lockCascade ((Tx.queue (tx.withCommitted store)).runsOf task)).Respects
          (storage space) (upkeep space) CleansUp (tx.withCommitted store) := by
        refine respects_lockCascade cleaningRead.sound isLocked fun row member => ?_
        obtain ⟨seen, owner⟩ := mem_select.mp member
        exact mem_select.mpr ⟨cleaningRead.committed seen, owner⟩
      refine cascades.bind fun _ past between conduct => ?_
      have deletes : (change (.deleteTask task)).Respects (storage space) (upkeep space) CleansUp
          between := Program.respects_issue fun _ _ => trivial
      refine deletes.bind fun _ more deleted deleting => ?_
      refine inductionHypothesis ((cleaningRead.amid cascades conduct).amid deletes deleting)
        fun other member => ?_
      exact deleting.held.subset (conduct.held.subset (others other member))

theorem respects_cleanupTasks (cleaning : Cleaning space tx) :
    cleanupTasks.Respects (storage space) (upkeep space) CleansUp tx := by
  have always : ∀ {α : Type} {program : Sql α} {tx : Tx},
      (program.Issues fun command => ∀ tx, CleansUp tx command) →
        program.Respects (storage space) (upkeep space) CleansUp tx := fun issues =>
    Program.respects_of_issues issues fun tx _ allowed => allowed tx
  have clock : currentTime.Issues fun command => ∀ tx, CleansUp tx command :=
    Program.issues_issue fun _ => trivial
  have reads : snapshot.Issues fun command => ∀ tx, CleansUp tx command :=
    Program.issues_issue fun _ => trivial
  refine (always clock).bind fun nowAt past started conduct => ?_
  have cleaningStarted := cleaning.amid (always clock) conduct
  refine (always reads).bind fun policy past configured conduct => ?_
  have cleaningConfigured := cleaningStarted.amid (always reads) conduct
  refine (always reads).bind fun visible past looked conduct => ?_
  have cleaningLooked := cleaningConfigured.amid (always reads) conduct
  have locks := @issues_lockCleanupTasks (fun command => ∀ tx, CleansUp tx command)
    (fun _ _ => trivial) (nowAt - policy.cleanupTtl)
    (((lastRunLeftJoin visible).filter fun pair => cleanupCandidate (nowAt - policy.cleanupTtl)
      pair.1 pair.2).insertionSort terminalOrder) policy.cleanupLimit
  refine (always locks).bind fun selected past between conduct => ?_
  have cleaningLocked := cleaningLooked.amid (always locks) conduct
  have deletes := respects_deleteTasks cleaningLocked (lockCleanupTasks_locks conduct)
  exact deletes.bind fun _ _ _ _ => Program.respects_done _

theorem cleaning_start (sound : store.Sound space) : Cleaning space (Local.start store) := by
  refine ⟨fun newer older row isHeld => ?_, ?_, sound⟩
  · cases newer <;> cases isHeld
  · intro change impossible
    cases impossible

end Cleanups

/-! ## Waiting -/

/-- The rows a command waits for.  An insertion waits for no row that exists. -/
def awaited : Command RowKey Change → List RowKey
  | .lock key .wait => [key]
  | .write (.insertTask _) | .write (.insertRun _) => []
  | .write change => change.touches
  | _ => []

/-- The rows of a task and of its runs. -/
def Queue.Holds (queue : Queue) (task : Uuid) (key : RowKey) : Prop :=
  key = .task task ∨ ∃ run ∈ queue.runsOf task, key = .run run.id

/-- A call waits for a row of the task that another call has locked. -/
def Contest.WaitsAt (contest : Contest) (task : Uuid) (one other : Session.Call) : Prop :=
  ∃ command next, one.rest = .perform command next ∧
    ∃ key ∈ awaited command, contest.store.Holds task key ∧ key ∈ other.state.held

/-- A call in order that waits for a row of another call waits for the task, or
holds nothing. -/
theorem InOrder.waitsAt {contest : Contest} {one other : Session.Call}
    (inOrder : InOrder space one.rest one.state)
    (exclusive : ∀ key ∈ one.state.held, key ∉ other.state.held)
    (waits : contest.WaitsAt task one other) :
    .task task ∈ other.state.held ∨ one.state.held = [] := by
  obtain ⟨command, next, isRest, key, isAwaited, holds, locked⟩ := waits
  have orderly := inOrder.next command next isRest
  have isTask : ∀ id, key = .task id → .task task ∈ other.state.held := by
    rintro id rfl
    rcases holds with same | ⟨run, _, impossible⟩
    · exact same ▸ locked
    · cases impossible
  cases command with
  | lock key policy =>
      cases policy with
      | skipLocked => cases isAwaited
      | wait =>
          have isKey := List.mem_singleton.mp isAwaited
          cases key with
          | task id => exact Or.inl (isTask id isKey)
          | run id =>
              rcases orderly with held | empty
              · rw [isKey] at locked
                exact absurd locked (exclusive _ held)
              · exact Or.inr empty
  | write change =>
      cases change with
      | insertTask row => cases isAwaited
      | insertRun row => cases isAwaited
      | insertCheckpoint row => cases isAwaited
      | deleteTask id => exact orderly.elim
      | putTask row => exact Or.inl (isTask row.id (List.mem_singleton.mp isAwaited))
      | putRun row =>
          rw [List.mem_singleton.mp isAwaited] at locked
          exact absurd locked (exclusive _ orderly)
  | _ => cases isAwaited

/-- Two calls in order do not wait for each other at one task. -/
theorem InOrder.not_cycle {contest : Contest} {one other : Session.Call}
    (first : InOrder space one.rest one.state) (second : InOrder space other.rest other.state)
    (exclusive : ∀ key ∈ one.state.held, key ∉ other.state.held) :
    ¬(contest.WaitsAt task one other ∧ contest.WaitsAt task other one) := by
  rintro ⟨waits, awaits⟩
  have apart : ∀ key ∈ other.state.held, key ∉ one.state.held :=
    fun key held also => exclusive key also held
  have occupied : ∀ {call blocked : Session.Call}, contest.WaitsAt task blocked call →
      call.state.held ≠ [] := by
    rintro call blocked ⟨_, _, _, key, _, _, locked⟩ empty
    rw [empty] at locked
    cases locked
  have held := (first.waitsAt exclusive waits).resolve_right (occupied awaits)
  have alsoHeld := (second.waitsAt apart awaits).resolve_right (occupied waits)
  exact exclusive _ alsoHeld held

/-! ## Runs -/

/-- The locks of the calls on the rows of one task are ordered. -/
structure LocksOrdered (space : Char → Bool) (contest : Contest) : Prop where
  /-- A call that deletes nothing, and as a cancellation finds the active runs of
  its task, locks the runs of a task before the task. -/
  runsFirst : ∀ (id : Nat) (call : Session.Call), contest.party id = some call →
    call.LocksInOrder space → Tx.RunsFirst call.state
  /-- A cleanup locks a task before its runs. -/
  tasksFirst : ∀ (id : Nat) (call : Session.Call), contest.party id = some call →
    call.script = Operation.cleanupTasks.script space → Tx.TasksFirst call.state
  /-- Two calls that lock runs first do not wait for each other at one task. -/
  acyclic : ∀ (first second : Nat) (one other : Session.Call) (task : Uuid), first ≠ second →
    contest.party first = some one → contest.party second = some other →
      one.LocksInOrder space → other.LocksInOrder space →
        ¬(contest.WaitsAt task one other ∧ contest.WaitsAt task other one)

section Runs

variable {start : Queue} {labels : List Contest.Move} {contest : Contest} {id : Nat}
variable {call : Session.Call}

theorem Upkept.inOrder (upkept : Upkept space start labels contest)
    (present : contest.party id = some call) (inOrder : call.LocksInOrder space) :
    InOrder space call.rest call.state := by
  obtain ⟨store, sound, conduct⟩ := upkept.coherent.conduct id call present
  obtain ⟨operation, contends, isScript, finds⟩ := inOrder
  rw [isScript] at conduct
  refine Operation.inOrder_script (fun rest last conduct => ?_) conduct
  by_cases cancels : ∃ task, operation = .cancelTask task
  · obtain ⟨task, isCancel⟩ := cancels
    have found := finds task isCancel
    subst isCancel
    exact cancelTask_inOrder sound found conduct
  · exact (contends.keepsOrder (fun task same => cancels ⟨task, same⟩) sound).inOrder
      (ordered_idle rfl rfl sound) conduct

theorem Upkept.tasksFirst (upkept : Upkept space start labels contest)
    (present : contest.party id = some call)
    (isCleanup : call.script = Operation.cleanupTasks.script space) :
    Tx.TasksFirst call.state := by
  obtain ⟨store, sound, conduct⟩ := upkept.coherent.conduct id call present
  rw [isCleanup] at conduct
  have cleaning := cleaning_start sound
  have respects : (Operation.cleanupTasks.script space).Respects (storage space) (upkeep space)
      CleansUp (Local.start store) :=
    (respects_cleanupTasks cleaning).bind fun _ _ _ _ => Program.respects_done _
  exact (cleaning.amid respects conduct).tasksFirst

/-- In every state of every run of the upkeep, the locks are ordered. -/
theorem Upkept.locksOrdered (upkept : Upkept space start labels contest) :
    LocksOrdered space contest where
  runsFirst := fun _ _ present inOrder => (upkept.inOrder present inOrder).ordered.runsFirst
  tasksFirst := fun _ _ => upkept.tasksFirst
  acyclic := by
    intro first second one other task different isOne isOther oneInOrder otherInOrder
    exact (upkept.inOrder isOne oneInOrder).not_cycle (upkept.inOrder isOther otherInOrder)
      (upkept.coherent.exclusive first second one other different isOne isOther)

end Runs

/-- A queue whose only task is running. -/
def runningQueue : Queue :=
  (World.serve asciiSpace [plainSubmission [], plainClaim "worker"] (.blank second)).2.store

/-- A completion that has locked the run and the task, while a cancellation
waits for the run. -/
def lockingCompletion : List Contest.Move :=
  let completes := .advance 0 (10 * second) 0
  let cancels := .advance 1 (10 * second) 0
  [.start ((Operation.completeRun 1 (some .null)).script asciiSpace),
    .start ((Operation.cancelTask 0).script asciiSpace), completes, completes, cancels, cancels]

/-- The run is locked before the task. -/
theorem Upkept.locksOrdered_completion :
    ∃ contest call, Upkept asciiSpace runningQueue lockingCompletion contest ∧
      contest.party 0 = some call ∧ call.state.held = [.task 0, .run 1] ∧
      LocksOrdered asciiSpace contest := by
  have locked : ∃ contest call, Upkept asciiSpace runningQueue lockingCompletion contest ∧
      contest.party 0 = some call ∧ call.state.held = [.task 0, .run 1] := by
    refine ⟨_, _, ⟨(World.history_serve _ second).sound, ?_, System.trace_moves rfl⟩, rfl, rfl⟩
    intro script member
    simp only [lockingCompletion, List.mem_cons, reduceCtorEq, or_false, Move.start.injEq,
      List.not_mem_nil] at member
    rcases member with rfl | rfl
    · exact ⟨.completeRun 1 (some .null), trivial, rfl⟩
    · exact ⟨.cancelTask 0, trivial, rfl⟩
  obtain ⟨contest, call, upkept, present, held⟩ := locked
  exact ⟨contest, call, upkept, present, held, upkept.locksOrdered⟩

/-! ## The exceptions -/

/-- A queue whose only task is cancelled. -/
def cancelledQueue : Queue :=
  (World.serve asciiSpace [plainSubmission [], .cancelTask 0] (.blank second)).2.store

/-- A cleanup that has locked the task and its run. -/
def lockingCleanup : List Contest.Move :=
  .start (Operation.cleanupTasks.script asciiSpace) ::
    List.replicate 6 (.advance 0 (60 * second) 0)

theorem lockingCleanup_unordered :
    ∃ contest call, Upkept asciiSpace cancelledQueue lockingCleanup contest ∧
      contest.party 0 = some call ∧ ¬Tx.RunsFirst call.state := by
  refine ⟨_, _, ⟨(World.history_serve _ second).sound, ?_, System.trace_moves rfl⟩, rfl, ?_⟩
  · intro script member
    simp only [lockingCleanup, List.mem_cons, List.mem_replicate, reduceCtorEq, and_false, or_false,
      Move.start.injEq] at member
    exact ⟨.cleanupTasks, trivial, member⟩
  · intro runsFirst
    cases runsFirst [.run 1] [] 0 rfl _ (mem_select.mpr ⟨List.mem_cons_self, rfl⟩)
      List.mem_cons_self

/-- A queue whose only task has failed. -/
def failedQueue : Queue :=
  (World.serve asciiSpace [plainSubmission [], plainClaim "worker",
    .failRun 1 (some .null) (some false)] (.blank second)).2.store

/-- A cancellation whose second update meets the run that a retry has inserted
since its first statement. -/
def retriedCancellation : List Contest.Move :=
  let cancels := .advance 0 (60 * second) 0
  [.start ((Operation.cancelTask 0).script asciiSpace), cancels, cancels,
    .start ((Operation.retryTask 0).script asciiSpace)] ++
      List.replicate 6 (.advance 1 (60 * second) 7) ++ [.commit 1] ++ List.replicate 5 cancels

theorem retriedCancellation_unordered :
    ∃ contest call, Upkept asciiSpace failedQueue retriedCancellation contest ∧
      contest.party 0 = some call ∧ ¬Tx.RunsFirst call.state := by
  refine ⟨_, _, ⟨(World.history_serve _ second).sound, ?_, System.trace_moves rfl⟩, rfl, ?_⟩
  · intro script member
    simp only [retriedCancellation, List.cons_append, List.nil_append, List.mem_cons,
      List.mem_append, List.mem_replicate, reduceCtorEq, and_false, false_or, or_false,
      Move.start.injEq, List.not_mem_nil] at member
    rcases member with rfl | rfl
    · exact ⟨.cancelTask 0, trivial, rfl⟩
    · exact ⟨.retryTask 0, trivial, rfl⟩
  · intro runsFirst
    have older : RowKey.run 7 ∈ [RowKey.task 0, .task 0] :=
      runsFirst [.run 7] [.task 0, .task 0] 0 rfl _
        (mem_select.mpr ⟨List.mem_cons_of_mem _ List.mem_cons_self, rfl⟩) List.mem_cons_self
    exact absurd older (by decide)

/-- A supervision that waits for the task a cleanup has locked, and the cleanup
that waits for the run. -/
def supervisedCleanup : List Contest.Move :=
  [.start (Operation.cleanupTasks.script asciiSpace),
    .start ((Operation.superviseRun 1 none).script asciiSpace), .advance 1 (60 * second) 0] ++
      List.replicate 5 (.advance 0 (60 * second) 0)

theorem supervisedCleanup_cyclic :
    ∃ contest one other, Upkept asciiSpace cancelledQueue supervisedCleanup contest ∧
      contest.party 0 = some one ∧ contest.party 1 = some other ∧
      contest.WaitsAt 0 one other ∧ contest.WaitsAt 0 other one := by
  refine ⟨_, _, _, ⟨(World.history_serve _ second).sound, ?_, System.trace_moves rfl⟩, rfl, rfl,
    ?_, ?_⟩
  · intro script member
    simp only [supervisedCleanup, List.cons_append, List.nil_append, List.mem_cons,
      List.mem_replicate, reduceCtorEq, and_false, or_false, Move.start.injEq] at member
    rcases member with rfl | rfl
    · exact ⟨.cleanupTasks, trivial, rfl⟩
    · exact ⟨.superviseRun 1 none, trivial, rfl⟩
  · exact ⟨_, _, rfl, .run 1, List.mem_cons_self,
      Or.inr ⟨_, mem_select.mpr ⟨List.mem_cons_self, rfl⟩, rfl⟩, List.mem_cons_self⟩
  · exact ⟨_, _, rfl, .task 0, List.mem_cons_self, Or.inl rfl, List.mem_cons_self⟩

/-- A cleanup locks a run after its task, and so does a cancellation that meets
a new run; a cleanup and a supervision can wait for each other. -/
theorem Upkept.unordered :
    (∃ contest call, Upkept asciiSpace cancelledQueue lockingCleanup contest ∧
      contest.party 0 = some call ∧ ¬Tx.RunsFirst call.state) ∧
    (∃ contest call, Upkept asciiSpace failedQueue retriedCancellation contest ∧
      contest.party 0 = some call ∧ ¬Tx.RunsFirst call.state) ∧
    ∃ contest one other, Upkept asciiSpace cancelledQueue supervisedCleanup contest ∧
      contest.party 0 = some one ∧ contest.party 1 = some other ∧
      contest.WaitsAt 0 one other ∧ contest.WaitsAt 0 other one :=
  ⟨lockingCleanup_unordered, retriedCancellation_unordered, supervisedCleanup_cyclic⟩

end Steda
