import Steda.Laws.LockOrder
import Steda.Laws.Sweeping

/-!
# Locked tasks and their active runs

A transaction that has locked the active runs of a task may lock the task and
go on to cancel it: every run it comes to lock it has locked already.  The
functions that go through many tasks keep it so for each task they have locked.
-/

namespace Steda

open Postgres Transaction Relational

variable {space : Char → Bool} {tx after last : Tx} {task run : Uuid}

namespace Tx

/-- The committed active runs of the task are locked. -/
def Covers (tx : Tx) (task : Uuid) : Prop :=
  ∀ run ∈ tx.committed.runsOf task, run.state.active = true → .run run.id ∈ tx.held

/-- The committed active runs of every locked task are locked. -/
def Closed (tx : Tx) : Prop := ∀ task, .task task ∈ tx.held → tx.Covers task

/-- An active committed run of the task is locked. -/
def Reserves (tx : Tx) (task run : Uuid) : Prop :=
  .run run ∈ tx.held ∧
    ∃ row, tx.committed.findRun run = some row ∧ row.taskId = task ∧ row.state.active = true

/-- The run is locked, or it is no committed run of a locked task. -/
def Lockable (tx : Tx) (run : Uuid) : Prop :=
  .run run ∈ tx.held ∨
    ∀ task, .task task ∈ tx.held → ∀ row ∈ tx.committed.runsOf task, row.id ≠ run

end Tx

/-- The committed active runs of the task are locked, whatever others commit. -/
def Guarded (space : Char → Bool) (task : Uuid) (tx : Tx) : Prop :=
  (upkeep space).Stable (fun tx => Tx.Covers tx task) tx

/-- What holds of every transaction that deletes nothing. -/
structure Steady (space : Char → Bool) (tx : Tx) : Prop where
  sound : tx.committed.Sound space
  covered : tx.Covered (storage space)
  retains : tx.Retains

/-- The guard of the lock order, and tasks are locked after their active runs. -/
def Secure (space : Char → Bool) (tx : Tx) : Command RowKey Change → Prop
  | .lock (.task task) _ => Guarded space task tx
  | .write (.putTask row) => Guarded space row.id tx
  | .write (.insertTask _) => False
  | command => tx.Orderly command

theorem Secure.orderly {command : Command RowKey Change} (secure : Secure space tx command) :
    tx.Orderly command := by
  cases command with
  | lock key policy =>
      cases key with
      | task task => trivial
      | run run => exact secure
  | write change =>
      cases change with
      | insertTask row => trivial
      | putTask row => trivial
      | _ => exact secure
  | _ => trivial

/-! ## Stability -/

section Stability

variable {store : Queue} {command : Command RowKey Change} {answer : Answer command}

theorem steady_idle (unwritten : tx.log = []) (sound : tx.committed.Sound space) :
    Steady space tx :=
  ⟨sound, by simp [Local.Covered, unwritten], by simp [Tx.Retains, unwritten]⟩

theorem Steady.moved (steady : Steady space tx)
    (moved : (upkeep space).moves tx.held tx.committed store) :
    Steady space (tx.withCommitted store) :=
  ⟨moved.1.1 steady.sound, steady.covered, steady.retains⟩

theorem Steady.answered (steady : Steady space tx) (orderly : tx.Orderly command)
    (answered : Answered (storage space) command tx answer after) : Steady space after :=
  ⟨answered.committed ▸ steady.sound, answered.covered steady.covered,
    steady.retains.answered orderly answered⟩

theorem Tx.Covers.answered (covers : tx.Covers task)
    (answered : Answered (storage space) command tx answer after) : after.Covers task := by
  intro run inRuns active
  rw [answered.committed] at inRuns
  exact answered.held.subset (covers run inRuns active)

/-- What is covered stays covered while the task is locked. -/
theorem Tx.Covers.moved (covers : tx.Covers task) (locked : .task task ∈ tx.held)
    (moved : (upkeep space).moves tx.held tx.committed store) :
    Tx.Covers (tx.withCommitted store) task := by
  intro run inRuns active
  exact covers run (runsOf_of_moved moved locked ▸ inRuns) active

theorem Guarded.moved (guarded : Guarded space task tx)
    (moved : (upkeep space).moves tx.held tx.committed store) :
    Guarded space task (tx.withCommitted store) := Rely.Stable.after guarded moved

theorem Guarded.answered (guarded : Guarded space task tx)
    (answered : Answered (storage space) command tx answer after) : Guarded space task after := by
  intro store moves
  rw [answered.committed] at moves
  intro run inRuns active
  exact answered.held.subset (guarded store ((upkeep space).anti answered.held.subset moves)
    run inRuns active)

theorem Tx.Closed.guarded (closed : tx.Closed) (locked : .task task ∈ tx.held) :
    Guarded space task tx := fun _ moved => (closed task locked).moved locked moved

theorem Tx.Closed.moved (closed : tx.Closed)
    (moved : (upkeep space).moves tx.held tx.committed store) :
    Tx.Closed (tx.withCommitted store) := fun task locked => (closed task locked).moved locked moved

/-- A secure command leaves the locked tasks covered. -/
theorem Tx.Closed.answered (closed : tx.Closed) (secure : Secure space tx command)
    (answered : Answered (storage space) command tx answer after) : after.Closed := by
  intro task locked
  by_cases earlier : .task task ∈ tx.held
  · exact (closed task earlier).answered answered
  · refine Tx.Covers.answered (Rely.Stable.now (?_ : Guarded space task tx)) answered
    cases answered with
    | @locked key policy _ present =>
        rcases List.mem_cons.mp locked with isKey | held
        · subst isKey
          exact secure
        · exact absurd held earlier
    | @written change _ attempted =>
        rcases List.mem_append.mp locked with touched | held
        · cases change with
          | putTask row =>
              rw [RowKey.task.inj (List.mem_singleton.mp touched)]
              exact secure
          | insertTask row => exact secure.elim
          | insertRun row => cases List.mem_singleton.mp touched
          | putRun row => cases List.mem_singleton.mp touched
          | insertCheckpoint row => cases touched
          | deleteTask id => exact secure.elim
        · exact absurd held earlier
    | _ => exact absurd locked earlier

theorem Tx.Reserves.moved (reserves : tx.Reserves task run)
    (moved : (upkeep space).moves tx.held tx.committed store) :
    Tx.Reserves (tx.withCommitted store) task run := by
  obtain ⟨locked, row, found, known⟩ := reserves
  exact ⟨locked, row, (moved.1.2.2.1 run locked).trans found, known⟩

theorem Tx.Reserves.answered (reserves : tx.Reserves task run)
    (answered : Answered (storage space) command tx answer after) : after.Reserves task run := by
  obtain ⟨locked, row, found, known⟩ := reserves
  exact ⟨answered.held.subset locked, row, by rw [answered.committed]; exact found, known⟩

/-- A reserved run is the only active run of its task. -/
theorem Tx.Reserves.covers (reserves : tx.Reserves task run) (sound : tx.committed.Sound space) :
    tx.Covers task := by
  obtain ⟨locked, row, found, owner, active⟩ := reserves
  intro other inRuns otherActive
  obtain ⟨life, valid, rows, rowInRuns⟩ := sound.life_of_run (mem_of_find found)
  have isRuns : tx.committed.runsOf task = life.runs := by
    rw [← owner]
    exact congrArg Rows.runs rows
  rw [isRuns] at inRuns
  have same : other = row :=
    (valid.active_run inRuns otherActive).1.trans (valid.active_run rowInRuns active).1.symm
  rw [same, Queue.findRun_id found]
  exact locked

theorem Tx.Reserves.guarded (reserves : tx.Reserves task run) (steady : Steady space tx) :
    Guarded space task tx := fun _ moved =>
  (reserves.moved moved).covers (moved.1.1 steady.sound)

theorem Tx.Lockable.moved (lockable : tx.Lockable run)
    (moved : (upkeep space).moves tx.held tx.committed store) :
    Tx.Lockable (tx.withCommitted store) run := by
  refine lockable.imp_right fun apart task locked row inRuns => apart task locked row ?_
  exact runsOf_of_moved moved locked ▸ inRuns

/-- Locking a run leaves other runs lockable. -/
theorem Tx.Lockable.answered {other : Uuid} {policy : LockPolicy} {answer : Option Queue}
    (lockable : tx.Lockable run)
    (answered : Answered (storage space) (.lock (.run other) policy) tx answer after) :
    after.Lockable run := by
  cases answered with
  | locked present =>
      refine lockable.imp (List.mem_cons_of_mem _) fun apart task locked => ?_
      rcases List.mem_cons.mp locked with impossible | held
      · cases impossible
      · exact apart task held
  | missed missing => exact lockable

end Stability

/-! ## What a transaction sees -/

/-- A run that a transaction sees is locked or committed as it sees it. -/
theorem Tx.held_or_committed (covered : tx.Covered (storage space)) {row : RunRow}
    (seen : row ∈ tx.queue.runs) : .run row.id ∈ tx.held ∨ row ∈ tx.committed.runs := by
  have general : ∀ changes ⊆ tx.log, ∀ queue : Queue,
      row ∈ (changes.foldl (fun queue change => Queue.apply change queue) queue).runs →
        .run row.id ∈ tx.held ∨ row ∈ queue.runs := by
    intro changes included
    induction changes with
    | nil => exact fun _ => Or.inr
    | cons change rest inductionHypothesis =>
        obtain ⟨inLog, others⟩ := List.cons_subset.mp included
        intro queue member
        refine (inductionHypothesis others _ member).elim Or.inl fun applied => ?_
        cases change with
        | insertRun run =>
            rcases List.mem_append.mp applied with earlier | isNew
            · exact Or.inr earlier
            · rw [List.mem_singleton.mp isNew]
              exact Or.inl (covered _ inLog _ List.mem_cons_self)
        | putRun run =>
            rcases mem_replace applied with isRun | earlier
            · rw [isRun]
              exact Or.inl (covered _ inLog _ List.mem_cons_self)
            · exact Or.inr earlier
        | deleteTask id => exact Or.inr (List.mem_filter.mp applied).1
        | _ => exact Or.inr applied
  exact general tx.log (List.Subset.refl _) _ seen

/-- The active runs that a transaction sees of a covered task are locked. -/
theorem Tx.Covers.locked (covers : tx.Covers task) (covered : tx.Covered (storage space))
    {row : RunRow} (seen : row ∈ tx.queue.runs) (owner : row.taskId = task)
    (active : row.state.active = true) : .run row.id ∈ tx.held :=
  (Tx.held_or_committed covered seen).elim id fun committed =>
    covers row (mem_select.mpr ⟨committed, owner⟩) active

/-- The active runs that a transaction sees are lockable once the locked tasks
are covered. -/
theorem Tx.Closed.lockable (closed : tx.Closed) (steady : Steady space tx) {row : RunRow}
    (seen : row ∈ tx.queue.runs) (active : row.state.active = true) : tx.Lockable row.id := by
  rcases Tx.held_or_committed steady.covered seen with held | committed
  · exact Or.inl held
  · by_cases held : .run row.id ∈ tx.held
    · exact Or.inl held
    · refine Or.inr fun task locked other inRuns sameId => held ?_
      have same := steady.sound.keyed.run_unique (mem_select.mp inRuns).1 committed sameId
      subst same
      exact closed task locked other inRuns active

/-- A transaction that has reserved a run sees it as a run of its task. -/
theorem Tx.Reserves.owner (reserves : tx.Reserves task run) (retains : tx.Retains) {row : RunRow}
    (seen : tx.queue.findRun run = some row) : row.taskId = task := by
  obtain ⟨_, committed, found, owner, _⟩ := reserves
  obtain ⟨later, isLater, sameTask⟩ := findRun_retained retains found
  rw [Option.some.inj (seen.symm.trans isLater), sameTask, owner]

/-! ## Programs that keep to one task -/

/-- The commands that lock and write one task and some runs. -/
def KeepsTo (held : List RowKey) (task : Uuid) : Command RowKey Change → Prop
  | .lock (.run run) .wait => .run run ∈ held
  | .lock (.run _) .skipLocked => False
  | .lock (.task other) _ => other = task
  | .write (.putRun run) => .run run.id ∈ held
  | .write (.putTask row) => row.id = task
  | .write (.insertTask _) => False
  | .write (.deleteTask _) => False
  | _ => True

/-- The program locks the tasks it comes to lock after their active runs. -/
abbrev StaysClosed (space : Char → Bool) {α : Type} (program : Sql α) (tx : Tx) : Prop :=
  program.Respects (storage space) (upkeep space) (Secure space) tx

theorem StaysClosed.keepsOrder {α : Type} {program : Sql α}
    (closed : StaysClosed space program tx) : KeepsOrder space program tx :=
  closed.mono fun _ _ => Secure.orderly

section Issues

variable {α : Type} {held : List RowKey} {allowed : Command RowKey Change → Prop}

theorem KeepsTo.secure {command : Command RowKey Change} (keeps : KeepsTo held task command)
    (subset : held ⊆ tx.held) (guarded : Guarded space task tx) : Secure space tx command := by
  cases command with
  | lock key policy =>
      cases key with
      | task other =>
          have same : other = task := keeps
          rw [same]
          exact guarded
      | run run =>
          cases policy with
          | wait => exact Or.inl (subset keeps)
          | skipLocked => exact keeps.elim
  | write change =>
      cases change with
      | insertTask row => exact keeps
      | putTask row =>
          have same : row.id = task := keeps
          rw [Secure, same]
          exact guarded
      | insertRun run => trivial
      | putRun run => exact subset keeps
      | insertCheckpoint row => trivial
      | deleteTask id => exact keeps
  | _ => trivial

/-- A program that keeps to a guarded task is secure. -/
theorem staysClosed_of_issues {program : Sql α} (issues : program.Issues (KeepsTo held task))
    (subset : held ⊆ tx.held) (guarded : Guarded space task tx) : StaysClosed space program tx := by
  refine Program.respects_while (fun tx => held ⊆ tx.held ∧ Guarded space task tx) issues ?_ ?_ ?_
    ⟨subset, guarded⟩
  · exact fun tx store now moved => ⟨now.1, now.2.moved moved⟩
  · exact fun _ now answered =>
      ⟨List.Subset.trans now.1 answered.held.subset, now.2.answered answered⟩
  · exact fun tx command now keeps => KeepsTo.secure keeps now.1 now.2

theorem issues_lockRun_bind {id : Uuid} {policy : LockPolicy} {next : Option RunRow → Sql α}
    (isAllowed : allowed (.lock (.run id) policy)) (absent : (next none).Issues allowed)
    (present : ∀ row, row.id = id → (next (some row)).Issues allowed) :
    (lockRun id policy >>= next).Issues allowed := by
  refine ⟨isAllowed, fun newest => ?_⟩
  change (next (newest.bind fun queue => queue.findRun id)).Issues allowed
  cases seen : newest.bind fun queue => queue.findRun id with
  | none => exact absent
  | some row =>
      obtain ⟨queue, _, found⟩ := Option.bind_eq_some_iff.mp seen
      exact present row (Queue.findRun_id found)

theorem issues_lockTask_bind {id : Uuid} {policy : LockPolicy} {next : Option TaskRow → Sql α}
    (isAllowed : allowed (.lock (.task id) policy)) (absent : (next none).Issues allowed)
    (present : ∀ row, row.id = id → (next (some row)).Issues allowed) :
    (lockTask id policy >>= next).Issues allowed := by
  refine ⟨isAllowed, fun newest => ?_⟩
  change (next (newest.bind fun queue => queue.findTask id)).Issues allowed
  cases seen : newest.bind fun queue => queue.findTask id with
  | none => exact absent
  | some row =>
      obtain ⟨queue, _, found⟩ := Option.bind_eq_some_iff.mp seen
      exact present row (Queue.findTask_id found)

theorem issues_updateRun {id : Uuid} {set : RunRow → RunRow}
    (keepsId : ∀ row, (set row).id = row.id) (locks : allowed (.lock (.run id) .wait))
    (writes : ∀ row : RunRow, row.id = id → allowed (.write (.putRun row))) :
    (updateRun id set).Issues allowed := by
  refine issues_lockRun_bind locks (Program.issues_pure _) fun row isRow => ?_
  exact Program.issues_bind (Program.issues_issue (writes _ ((keepsId row).trans isRow)))
    fun _ => Program.issues_pure _

theorem issues_updateTask {id : Uuid} {set : TaskRow → TaskRow}
    (keepsId : ∀ row, (set row).id = row.id) (locks : allowed (.lock (.task id) .wait))
    (writes : ∀ row : TaskRow, row.id = id → allowed (.write (.putTask row))) :
    (updateTask id set).Issues allowed := by
  refine issues_lockTask_bind locks (Program.issues_pure _) fun row isRow => ?_
  exact Program.issues_bind (Program.issues_issue (writes _ ((keepsId row).trans isRow)))
    fun _ => Program.issues_pure _

theorem keepsTo_updateRun {set : RunRow → RunRow} (keepsId : ∀ row, (set row).id = row.id)
    (locked : .run run ∈ held) : (updateRun run set).Issues (KeepsTo held task) := by
  refine issues_updateRun keepsId locked fun row isRow => ?_
  rw [KeepsTo, isRow]
  exact locked

theorem keepsTo_updateTask {set : TaskRow → TaskRow} (keepsId : ∀ row, (set row).id = row.id) :
    (updateTask task set).Issues (KeepsTo held task) :=
  issues_updateTask keepsId rfl fun _ isRow => isRow

theorem keepsTo_cancelRuns {candidates : List RunRow}
    (locked : ∀ candidate ∈ candidates, .run candidate.id ∈ held) :
    (cancelRuns task candidates).Issues (KeepsTo held task) := by
  induction candidates with
  | nil => exact Program.issues_pure _
  | cons candidate rest inductionHypothesis =>
      obtain ⟨isLocked, others⟩ := List.forall_mem_cons.mp locked
      refine issues_lockRun_bind isLocked (inductionHypothesis others) fun row isRow => ?_
      dsimp only
      split
      · refine Program.issues_bind (Program.issues_issue ?_) fun _ => inductionHypothesis others
        rw [← isRow] at isLocked
        exact isLocked
      · exact inductionHypothesis others

end Issues

/-! ## Cancellation -/

/-- The transaction may lock the task. -/
structure Ready (space : Char → Bool) (task : Uuid) (tx : Tx) : Prop where
  steady : Steady space tx
  guarded : Guarded space task tx

/-- The transaction has covered every task it has locked. -/
structure Composed (space : Char → Bool) (tx : Tx) : Prop where
  steady : Steady space tx
  closed : tx.Closed

section Along

variable {α : Type} {program rest : Sql α} {past : List Exchange} {store : Queue}
variable {command : Command RowKey Change} {answer : Answer command}

theorem Ready.moved (ready : Ready space task tx)
    (moved : (upkeep space).moves tx.held tx.committed store) :
    Ready space task (tx.withCommitted store) :=
  ⟨ready.steady.moved moved, ready.guarded.moved moved⟩

theorem Ready.answered (ready : Ready space task tx) (orderly : tx.Orderly command)
    (answered : Answered (storage space) command tx answer after) : Ready space task after :=
  ⟨ready.steady.answered orderly answered, ready.guarded.answered answered⟩

theorem Ready.observe (ready : Ready space task tx) (reading : Timestamp) :
    Ready space task (tx.observe reading) :=
  @Ready.answered space tx _ task .clock reading ready trivial (.clock reading tx)

theorem Ready.amid (ready : Ready space task tx) (closed : StaysClosed space program tx)
    (conduct : Amid (storage space) (upkeep space) program tx past rest last) :
    Ready space task last :=
  conduct.upholds closed (fun _ _ ready moved => ready.moved moved)
    (fun secure ready answered => ready.answered secure.orderly answered) ready

theorem Composed.moved (composed : Composed space tx)
    (moved : (upkeep space).moves tx.held tx.committed store) :
    Composed space (tx.withCommitted store) :=
  ⟨composed.steady.moved moved, composed.closed.moved moved⟩

theorem Composed.answered (composed : Composed space tx) (secure : Secure space tx command)
    (answered : Answered (storage space) command tx answer after) : Composed space after :=
  ⟨composed.steady.answered secure.orderly answered, composed.closed.answered secure answered⟩

theorem Composed.observe (composed : Composed space tx) (reading : Timestamp) :
    Composed space (tx.observe reading) :=
  @Composed.answered space tx _ .clock reading composed trivial (.clock reading tx)

theorem Composed.amid (composed : Composed space tx) (closed : StaysClosed space program tx)
    (conduct : Amid (storage space) (upkeep space) program tx past rest last) :
    Composed space last :=
  conduct.upholds closed (fun _ _ composed moved => composed.moved moved)
    (fun secure composed answered => composed.answered secure answered) composed

theorem Tx.Reserves.amid (reserves : tx.Reserves task run)
    (conduct : Amid (storage space) (upkeep space) program tx past rest last) :
    last.Reserves task run :=
  conduct.lasts (fun tx _ (reserves : Tx.Reserves tx task run) moved => reserves.moved moved)
    (fun reserves answered => reserves.answered answered) reserves

theorem Guarded.amid (guarded : Guarded space task tx)
    (conduct : Amid (storage space) (upkeep space) program tx past rest last) :
    Guarded space task last :=
  conduct.lasts (fun _ _ guarded moved => guarded.moved moved)
    (fun guarded answered => guarded.answered answered) guarded

/-- A snapshot is always allowed. -/
theorem staysClosed_snapshot_bind {next : Queue → Sql α}
    (later : ∀ store, (upkeep space).moves tx.held tx.committed store →
      StaysClosed space (next (Tx.queue (tx.withCommitted store))) (tx.withCommitted store)) :
    StaysClosed space (snapshot >>= next) tx := by
  refine Program.respects_perform (fun _ _ => trivial) fun store answer after moves answered => ?_
  cases answered
  exact later store moves

/-- The clock is always allowed. -/
theorem staysClosed_currentTime_bind {next : Timestamp → Sql α}
    (later : ∀ reading store, (upkeep space).moves tx.held tx.committed store →
      StaysClosed space (next reading) ((tx.withCommitted store).observe reading)) :
    StaysClosed space (currentTime >>= next) tx := by
  refine Program.respects_perform (fun _ _ => trivial) fun store answer after moves answered => ?_
  cases answered
  exact later _ store moves

end Along

/-- The cancellable runs that a transaction sees of a guarded task are locked. -/
theorem Ready.locked (ready : Ready space task tx) :
    ∀ candidate ∈ tx.queue.runs.filter (cancellableRun task), .run candidate.id ∈ tx.held := by
  intro candidate member
  obtain ⟨seen, cancellable⟩ := List.mem_filter.mp member
  obtain ⟨owner, isOpen⟩ := Bool.and_eq_true_iff.mp cancellable
  refine (Rely.Stable.now ready.guarded).locked ready.steady.covered seen (beq_iff_eq.mp owner) ?_
  rw [State.active_eq_not_terminal]
  exact isOpen

/-- A guarded task is cancelled in order. -/
theorem staysClosed_cancelOpenTask (ready : Ready space task tx) (nowAt : Timestamp) :
    StaysClosed space (cancelOpenTask task nowAt) tx := by
  have updates := staysClosed_of_issues (keepsTo_updateTask fun row => rfl :
    (updateTask task fun row => row.cancel nowAt).Issues (KeepsTo tx.held task))
    (List.Subset.refl _) ready.guarded
  refine updates.bind fun _ past between conduct => ?_
  have readyBetween := ready.amid updates conduct
  refine staysClosed_snapshot_bind fun store moves => ?_
  have readyNow := readyBetween.moved moves
  exact staysClosed_of_issues (Program.issues_bind (keepsTo_cancelRuns readyNow.locked)
    fun _ => Program.issues_pure _) (List.Subset.refl _) readyNow.guarded

/-- What a cancellation does with the task it has locked. -/
abbrev cancelFound (task : Uuid) (nowAt : Timestamp) : Option TaskRow → Sql Bool
  | none => .raise (.taskNotFound task)
  | some row => do
      if row.state.terminal then return false
      cancelOpenTask task nowAt

theorem staysClosed_cancelFound (ready : Ready space task tx) (nowAt : Timestamp)
    (found : Option TaskRow) : StaysClosed space (cancelFound task nowAt found) tx := by
  cases found with
  | none => exact Program.respects_raise _
  | some row =>
      rw [cancelFound]
      split
      · exact Program.respects_done _
      · exact staysClosed_cancelOpenTask ready nowAt

/-- The part of a cancellation after its first statement. -/
abbrev cancelLocked (task : Uuid) (nowAt : Timestamp) : Sql Bool :=
  lockTask task .wait >>= cancelFound task nowAt

theorem staysClosed_cancelLocked (ready : Ready space task tx) (nowAt : Timestamp) :
    StaysClosed space (cancelLocked task nowAt) tx := by
  have locks := staysClosed_of_issues (Program.issues_bind (Program.issues_issue rfl)
    fun _ => Program.issues_pure _ : (lockTask task .wait).Issues (KeepsTo tx.held task))
    (List.Subset.refl _) ready.guarded
  exact locks.bind fun found past between conduct =>
    staysClosed_cancelFound (ready.amid locks conduct) nowAt found

/-- The candidates of the first statement of a cancellation. -/
abbrev cancellableRuns (task : Uuid) (visible : Queue) : List RunRow :=
  (visible.runs.filter (cancellableRun task)).insertionSort fun left right => left.id ≤ right.id

theorem mem_cancellableRuns {visible : Queue} {candidate : RunRow} :
    candidate ∈ cancellableRuns task visible ↔
      candidate ∈ visible.runs.filter (cancellableRun task) :=
  List.mem_insertionSort _

/-- The first statement of a cancellation. -/
abbrev lockCancellable (task : Uuid) (visible : Queue) : Sql (List (RunRow × RunRow)) :=
  lockRuns .wait RunRow.id (fun _ run => .ok (cancellableRun task run))
    (cancellableRuns task visible) (cancellableRuns task visible).length

theorem cancelTask_eq (task : Uuid) :
    cancelTask task = currentTime >>= fun nowAt => snapshot >>= fun visible =>
      lockCancellable task visible >>= fun _ => cancelLocked task nowAt := rfl

theorem Ready.lockCancellable (ready : Ready space task tx) :
    StaysClosed space (lockCancellable task tx.queue) tx :=
  staysClosed_of_issues (issues_lockRuns (fun candidate member =>
    ready.locked candidate (mem_cancellableRuns.mp member)) _ :
      (Steda.lockCancellable task tx.queue).Issues (KeepsTo tx.held task))
    (List.Subset.refl _) ready.guarded

theorem staysClosed_cancelTask (ready : Ready space task tx) :
    StaysClosed space (cancelTask task) tx := by
  rw [cancelTask_eq]
  refine staysClosed_currentTime_bind fun nowAt store moves => ?_
  refine staysClosed_snapshot_bind fun later movesLater => ?_
  have readyNow : Ready space task (((tx.withCommitted store).observe nowAt).withCommitted later) :=
    ((ready.moved moves).observe nowAt).moved movesLater
  exact readyNow.lockCancellable.bind fun _ past between conduct =>
    staysClosed_cancelLocked (readyNow.amid readyNow.lockCancellable conduct) nowAt

end Steda
