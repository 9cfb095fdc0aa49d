import Steda.Contracts.Claiming

/-!
# Contracts of checkpoints and cleanup

Recording a checkpoint passes the gate and leaves every run and task as it is.
Cleanup deletes terminal tasks; its contract holds in a quiet database.
-/

namespace Steda

open Postgres Transaction Relational

variable {space : Char → Bool} {quiet : Prop} {raises : SqlError → Tx → Prop}
variable {tx : Tx} {ledger : Ledger}

/-! ## Checkpoints -/

/-- The errors of the checkpoint functions besides those of the gate. -/
structure ReportsCheckpoint (raises : SqlError → Tx → Prop) (taskId runId : Uuid) : Prop where
  runNotOfTask : ∀ run tx, tx.queue.findRun runId = some run → run.taskId ≠ taskId →
    raises (.runNotOfTask runId taskId) tx
  deadlineElapsed : ∀ tx, raises .checkpointDeadlineElapsed tx

/-- The arguments of `set_task_checkpoint_state` are acceptable, or any error
may be raised. -/
def CheckpointArguments (space : Char → Bool) (raises : SqlError → Tx → Prop)
    (checkpointName : Option String) (newCheckpointState : Option Json) : Prop :=
  (newCheckpointState.isSome ∧ ∃ name, checkpointName = some name ∧
    isBlank space name = false ∧ name.utf8ByteSize ≤ maxNameBytes) ∨
  Tolerates raises

/-- Recording a checkpoint of an owned task at its life. -/
theorem Owns.record_checkpoint {task : Uuid} {life : Life} {checkpoint : CheckpointRow}
    {run : Uuid} {observedAt : Timestamp} {keys : List RowKey}
    (owns : Owns space quiet ledger task life (Life.rows (some life)) tx)
    (owner : checkpoint.taskId = task) (running : Transition.Running run life)
    (notDue : life.task.due observedAt = .ok false) (leased : Transition.Leased observedAt life)
    (stamped : ∀ reading ∈ (Event.recorded checkpoint run observedAt).stamps,
      reading ∈ ledger.readings) :
    Settled space quiet
      (ledger.cause (.recorded checkpoint run observedAt) stamped ledger.named_nothing)
      ((tx.hold keys).record (.insertCheckpoint checkpoint)) := by
  have settled := owns.settle
  have sameRows : ∀ other, (Tx.queue ((tx.hold keys).record
      (.insertCheckpoint checkpoint))).rowsOf other = tx.queue.rowsOf other := by
    intro other
    rw [Tx.queue_record, Queue.rowsOf_apply]
    rfl
  obtain ⟨before, committedRows, evolves⟩ := owns.committed
  refine ⟨settled.readings, settled.drawn, settled.committed, ?_, ?_, ?_, ?_, ?_⟩
  · rw [Tx.queue_record]
    exact ⟨settled.keyed.tasks, settled.keyed.runs, settled.keyed.keys⟩
  · rcases settled.retained with silent | retained
    · exact Or.inl silent
    · right
      intro change member
      rcases List.mem_append.mp member with earlier | added
      · exact retained change earlier
      · rw [List.mem_singleton.mp added]
        simp
  · intro other _
    rw [sameRows]
    by_cases same : other = task
    · subst same
      exact ⟨before, some life, committedRows, owns.rows,
        evolves.snoc owner ⟨life, rfl, running, notDue, leased, rfl⟩⟩
    · obtain ⟨first, last, firstRows, lastRows, steps⟩ := settled.evolves other (by simp)
      exact ⟨first, last, firstRows, lastRows,
        steps.snoc_other fun equal => same (equal.symm.trans owner)⟩
  · intro other _ unlocked
    have free : RowKey.task other ∉ tx.held := fun locked =>
      unlocked (List.mem_append_right keys locked)
    rw [sameRows]
    obtain ⟨unchanged, noEvents⟩ := settled.untouched other (by simp) free
    refine ⟨unchanged, ?_⟩
    intro event member
    rcases List.mem_append.mp member with earlier | added
    · exact noEvents event earlier
    · rw [List.mem_singleton.mp added]
      intro same
      have isOwn : task = other := owner.symm.trans same
      exact free (isOwn ▸ owns.locked)
  · rw [Tx.queue_record]
    change tx.queue.checkpoints ++ [checkpoint] = _
    rw [settled.checkpoints]
    simp [Ledger.cause, Event.replay, Event.onCheckpoints]
    rfl

/-- What `set_task_checkpoint_state` has done when it returns. -/
def Recorded (space : Char → Bool) (quiet : Prop) (ledger : Ledger) (taskId runId : Uuid)
    (checkpointName : Option String) (newCheckpointState : Option Json)
    (result : CheckpointResult) (tx : Tx) : Prop :=
  ∃ name state, checkpointName = some name ∧ newCheckpointState = some state ∧
    ((result = { checkpointState := some state, written := true } ∧ ∃ observedAt,
        Reaches space quiet ledger
          [.recorded { taskId := taskId, name := name, state := state } runId observedAt] tx) ∨
      (result.written = false ∧ Reaches space quiet ledger [] tx ∧
        (quiet → (tx.queue.findCheckpoint taskId name).map CheckpointRow.state =
          result.checkpointState)))

theorem attempt_insertCheckpoint {queue : Queue} {checkpoint : CheckpointRow}
    (named : isBlank space checkpoint.name = false)
    (short : checkpoint.name.utf8ByteSize ≤ maxNameBytes)
    (present : (queue.findTask checkpoint.taskId).isSome) :
    Queue.attempt space (.insertCheckpoint checkpoint) queue =
      .ok (!(queue.findCheckpoint checkpoint.taskId checkpoint.name).isSome) := by
  have referenced : (queue.tasks.any fun task => task.id == checkpoint.taskId) = true := by
    obtain ⟨task, found⟩ := Option.isSome_iff_exists.mp present
    exact List.any_eq_true.mpr ⟨task, mem_of_find found, by simp [Queue.findTask_id found]⟩
  have acceptable : ¬(isBlank space checkpoint.name = true ∨
      maxNameBytes < checkpoint.name.utf8ByteSize) := by
    simp [named, short]
  simp only [Queue.attempt, if_neg acceptable, referenced]
  cases (queue.findCheckpoint checkpoint.taskId checkpoint.name).isSome <;> rfl

/-- Inserting a checkpoint of an owned task either records it or finds its name
taken. -/
theorem guarantees_insertCheckpoint {life : Life} {name : String} {state : Json} {run : Uuid}
    {observedAt : Timestamp}
    (owns : Stably space quiet
      (Owns space quiet ledger life.task.id life (Life.rows (some life))) tx)
    (named : isBlank space name = false) (short : name.utf8ByteSize ≤ maxNameBytes)
    (running : Transition.Running run life) (notDue : life.task.due observedAt = .ok false)
    (leased : Transition.Leased observedAt life) (observed : observedAt ∈ ledger.readings) :
    Guarantees space quiet
      (change (.insertCheckpoint { taskId := life.task.id, name := name, state := state }))
      (fun written tx => (written = true ∧ Reaches space quiet ledger
          [.recorded { taskId := life.task.id, name := name, state := state } run observedAt]
          tx) ∨
        (written = false ∧ Stably space quiet (Settled space quiet ledger) tx)) raises tx := by
  let checkpoint : CheckpointRow := { taskId := life.task.id, name := name, state := state }
  have attempted : ∀ store, (interference space quiet).moves tx.held tx.committed store →
      Queue.attempt space (.insertCheckpoint checkpoint) (Tx.queue (tx.withCommitted store)) =
        .ok (!((Tx.queue (tx.withCommitted store)).findCheckpoint checkpoint.taskId
          checkpoint.name).isSome) := by
    intro store moved
    refine attempt_insertCheckpoint named short ?_
    have found : (Tx.queue (tx.withCommitted store)).findTask checkpoint.taskId =
        some life.task := (owns store moved).findTask
    rw [found]
    rfl
  have stamped : ∀ reading ∈ (Event.recorded checkpoint run observedAt).stamps,
      reading ∈ ledger.readings := by
    intro reading member
    rw [List.mem_singleton.mp member]
    exact observed
  apply Program.ensures_write
  · intro store moved _
    have known : Stably space quiet (Settled space quiet
        (ledger.cause (.recorded checkpoint run observedAt) stamped ledger.named_nothing))
        (((tx.withCommitted store).hold []).record (.insertCheckpoint checkpoint)) :=
      Rely.Stable.write _ _ (fun _ _ owned =>
        owned.record_checkpoint rfl running notDue leased stamped) (owns.after moved)
    intro later movedLater
    exact Or.inl ⟨rfl, _, ledger.extends_cause _ stamped ledger.named_nothing,
      known.after movedLater⟩
  · intro store moved _ later movedLater
    refine Or.inr ⟨rfl, Rely.Stable.mono (fun _ owned => owned.settle)
      ((owns.after moved).after movedLater)⟩
  · intro store moved error refused
    cases (attempted store moved).symm.trans refused

/-- The gate of the checkpoint functions also checks the task of the run. -/
theorem guarantees_lockAttemptOfTask {α : Type} {rest : AttemptContext → Sql α}
    {returns : α → Tx → Prop} (reports : Reports quiet raises) {taskId runId : Uuid}
    (reportsCheckpoint : ReportsCheckpoint raises taskId runId)
    (settled : Stably space quiet (Settled space quiet ledger) tx)
    (continues : ∀ (life : Life) (observedAt : Timestamp) (tx : Tx), life.task.id = taskId →
      Transition.Running runId life → Transition.Leased observedAt life →
        Stably space quiet (Owns space quiet (ledger.observe observedAt) life.task.id life
          (Life.rows (some life))) tx →
        Guarantees space quiet (rest (.ofRows life.last life.task observedAt)) returns raises
          tx) :
    Guarantees space quiet (do
      let context ← lockRunningAttempt runId (some false)
      if context.taskId ≠ taskId then .raise (.runNotOfTask runId taskId)
      else rest context) returns raises tx := by
  have anything : Stably space quiet (fun _ => True) tx := fun _ _ => trivial
  apply Program.Ensures.bind
  refine Program.Ensures.mono ?_ (fun _ _ raised => raised)
    (guarantees_lockRunningAttempt reports runId (some false) persistent_true settled anything
      (by simp))
  rintro context afterGate ⟨⟨life, observedAt, running, lease, isContext, owns⟩, -⟩
  subst isContext
  have valid := owns.now.lives.1
  have extended := ledger.extends_observe observedAt
  have sameTask : (AttemptContext.ofRows life.last life.task observedAt).taskId =
      life.task.id := valid.owned _ life.last_mem_runs
  rw [sameTask]
  by_cases mismatch : life.task.id ≠ taskId
  · rw [if_pos mismatch]
    intro store moved
    refine reportsCheckpoint.runNotOfTask life.last _ ?_ ?_
    · rw [← running.1]
      exact (owns store moved).findRun life.last_mem_runs
    · rw [valid.owned _ life.last_mem_runs]
      exact mismatch
  · rw [if_neg mismatch]
    exact continues life observedAt afterGate (not_not.mp mismatch) running lease owns

theorem guarantees_setTaskCheckpointState (reports : Reports quiet raises) (taskId runId : Uuid)
    (checkpointName : Option String) (newCheckpointState : Option Json)
    (reportsCheckpoint : ReportsCheckpoint raises taskId runId)
    (arguments : CheckpointArguments space raises checkpointName newCheckpointState)
    (settled : Stably space quiet (Settled space quiet ledger) tx) :
    Guarantees space quiet
      (setTaskCheckpointState space taskId checkpointName newCheckpointState runId)
      (Recorded space quiet ledger taskId runId checkpointName newCheckpointState) raises tx := by
  unfold setTaskCheckpointState
  rcases checkpointName with _ | name
  · rcases arguments with ⟨_, name, impossible, _⟩ | tolerates
    · cases impossible
    · exact fun store _ => tolerates _ _ rfl
  by_cases blank : isBlank space name = true
  · rcases arguments with ⟨_, other, isName, named, _⟩ | tolerates
    · cases isName
      rw [named] at blank
      cases blank
    · simp only [blank, if_true]
      exact fun store _ => tolerates _ _ rfl
  by_cases long : maxNameBytes < name.utf8ByteSize
  · rcases arguments with ⟨_, other, isName, _, short⟩ | tolerates
    · cases isName
      omega
    · simp only [blank, long, if_true]
      exact fun store _ => tolerates _ _ rfl
  simp only [blank, if_false, long]
  apply guarantees_lockAttemptOfTask reports reportsCheckpoint settled
  rintro life observedAt afterGate rfl running lease owns
  have extended := ledger.extends_observe observedAt
  apply Program.Ensures.bind
  refine Program.Ensures.mono ?_ (fun _ _ raised => raised)
    (guarantees_ofExcept owns fun error tx failed known =>
      reports.deadline error life.task _ tx (fun _ => known.task_mem rfl) failed)
  rintro due afterDue ⟨isDue, owned⟩
  cases due with
  | true => exact fun store _ => reportsCheckpoint.deadlineElapsed _
  | false =>
      rcases newCheckpointState with _ | state
      · rcases arguments with ⟨impossible, _⟩ | tolerates
        · cases impossible
        · exact fun store _ => tolerates _ _ rfl
      have observed : observedAt ∈ (ledger.observe observedAt).readings := by
        simp [Ledger.observe]
      apply Program.Ensures.bind
      refine Program.Ensures.mono ?_ (fun _ _ raised => raised)
        (guarantees_insertCheckpoint owned (by simpa using blank) (not_lt.mp long) running isDue
          lease observed)
      rintro written afterInsert (⟨isWritten, reached⟩ | ⟨notWritten, settledNow⟩)
      · subst isWritten
        intro store moved
        exact ⟨name, state, rfl, rfl, Or.inl ⟨rfl, observedAt,
          (reached.after moved).prepend extended⟩⟩
      · subst notWritten
        apply Program.Ensures.bind
        refine Program.Ensures.mono ?_ (fun _ _ raised => raised)
          (guarantees_snapshot (fun _ => True) settledNow fun _ _ => trivial)
        rintro visible afterRead ⟨-, known⟩ store moved
        refine ⟨name, state, rfl, rfl, Or.inr ⟨rfl, ?_, ?_⟩⟩
        · exact Reaches.prepend extended (Reaches.nothing
            (Rely.Stable.mono (fun _ facts => facts.1) (known.after moved)))
        · intro silent
          rw [(known store moved).2 silent]

/-- What `get_task_checkpoint_states` returns in a quiet database. -/
def Listed (space : Char → Bool) (quiet : Prop) (ledger : Ledger) (taskId : Uuid)
    (listed : List (String × Json)) (tx : Tx) : Prop :=
  Reaches space quiet ledger [] tx ∧
    (quiet → listed = (tx.queue.checkpoints.filter fun row => row.taskId == taskId).map
      fun row => (row.name, row.state))

theorem guarantees_getTaskCheckpointStates (reports : Reports quiet raises)
    (taskId runId : Uuid) (reportsCheckpoint : ReportsCheckpoint raises taskId runId)
    (settled : Stably space quiet (Settled space quiet ledger) tx) :
    Guarantees space quiet (getTaskCheckpointStates taskId runId)
      (Listed space quiet ledger taskId) raises tx := by
  apply guarantees_lockAttemptOfTask reports reportsCheckpoint settled
  rintro life observedAt afterGate - running lease owns
  apply Program.Ensures.bind
  refine Program.Ensures.mono ?_ (fun _ _ raised => raised)
    (guarantees_snapshot (fun _ => True) owns fun _ _ => trivial)
  rintro visible afterRead ⟨-, known⟩ store moved
  refine ⟨Reaches.prepend (ledger.extends_observe observedAt) (Reaches.nothing
    (Rely.Stable.mono (fun _ facts => facts.1.settle) (known.after moved))), ?_⟩
  intro silent
  rw [(known store moved).2 silent]

/-! ## Cleanup -/

/-- A terminal task the transaction has locked. -/
def Deletable (task : Uuid) (tx : Tx) : Prop :=
  .task task ∈ tx.held ∧ ∃ life : Life, tx.queue.rowsOf task = Life.rows (some life) ∧
    life.task.state.terminal = true

theorem Deletable.hold {task : Uuid} (deletable : Deletable task tx) (keys : List RowKey) :
    Deletable task (tx.hold keys) :=
  ⟨List.mem_append_right keys deletable.1, deletable.2⟩

/-- Locking the candidates of a cleanup selects terminal tasks. -/
theorem guarantees_lockCleanupTasks (cutoff : Timestamp)
    (candidates : List (TaskRow × Option RunRow)) (limit : Nat) {condition : Tx → Prop}
    (settled : Stably space quiet (Settled space quiet ledger) tx)
    (stable : Stably space quiet condition tx)
    (holds : ∀ tx keys, condition tx → condition (tx.hold keys)) :
    Guarantees space quiet (lockCleanupTasks cutoff candidates limit)
      (fun selected tx => selected.Sublist (candidates.map fun pair => pair.1.id) ∧
        Stably space quiet (Settled space quiet ledger) tx ∧
        Stably space quiet (fun tx => condition tx ∧ ∀ task ∈ selected, Deletable task tx) tx)
      raises tx := by
  induction candidates generalizing limit tx condition with
  | nil =>
      exact fun store moved => ⟨by simp, settled.after moved,
        Rely.Stable.mono (fun _ known => ⟨known, by simp⟩) (stable.after moved)⟩
  | cons candidate rest inductionHypothesis =>
      cases limit with
      | zero =>
          exact fun store moved => ⟨by simp, settled.after moved,
            Rely.Stable.mono (fun _ known => ⟨known, by simp⟩) (stable.after moved)⟩
      | succ limit =>
          have skip : ∀ {now : Tx}, Stably space quiet (Settled space quiet ledger) now →
              Stably space quiet condition now →
              Guarantees space quiet (lockCleanupTasks cutoff rest (limit + 1))
                (fun selected tx =>
                  selected.Sublist ((candidate :: rest).map fun pair => pair.1.id) ∧
                  Stably space quiet (Settled space quiet ledger) tx ∧
                  Stably space quiet
                    (fun tx => condition tx ∧ ∀ task ∈ selected, Deletable task tx) tx)
                raises now := by
            intro now settledNow known
            refine Program.Ensures.mono ?_ (fun _ _ raised => raised)
              (inductionHypothesis (limit + 1) settledNow known holds)
            rintro selected later ⟨sublist, facts⟩
            exact ⟨sublist.cons _, facts⟩
          apply Program.Ensures.bind
          refine Program.Ensures.mono ?_ (fun _ _ raised => raised)
            (guarantees_lockTask candidate.1.id .skipLocked settled stable holds)
          rintro found now ⟨locked, known, -⟩
          cases found with
          | none => exact skip locked known
          | some task =>
              obtain ⟨life, isTask, owns⟩ := locked
              have settledNow : Stably space quiet (Settled space quiet ledger) now :=
                Rely.Stable.mono (fun _ owned => owned.settle) owns
              by_cases selects : cleanupCandidate cutoff task (rejoined task candidate.2) = true
              · have terminal : life.task.state.terminal = true := by
                  rw [isTask]
                  exact (Bool.and_eq_true_iff.mp selects).1
                have sameId : task.id = candidate.1.id := by
                  rw [← isTask]
                  exact owns.now.lives.2
                have chosen : Stably space quiet
                    (fun tx => condition tx ∧ Deletable task.id tx) now := by
                  refine Rely.Stable.mono ?_ (known.and owns)
                  rintro tx ⟨holdsNow, owned⟩
                  rw [sameId]
                  exact ⟨holdsNow, owned.locked, life, owned.rows, terminal⟩
                simp only [selects, if_true]
                apply Program.Ensures.bind
                refine Program.Ensures.mono ?_ (fun _ _ raised => raised)
                  (inductionHypothesis limit settledNow chosen
                    (fun tx keys facts => ⟨holds tx keys facts.1, facts.2.hold keys⟩))
                rintro selected later ⟨sublist, settledLater, facts⟩ store moved
                refine ⟨?_, settledLater.after moved, ?_⟩
                · rw [List.map_cons, sameId]
                  exact sublist.cons_cons _
                · refine Rely.Stable.mono ?_ (facts.after moved)
                  rintro tx ⟨⟨holdsNow, deletable⟩, others⟩
                  refine ⟨holdsNow, ?_⟩
                  intro other member
                  rcases List.mem_cons.mp member with isHead | inRest
                  · rw [isHead]
                    exact deletable
                  · exact others other inRest
              · simp only [selects]
                exact skip settledNow known

/-- Deleting a terminal task settles the transaction with its deletion. -/
theorem Consistent.delete {task : Uuid} {keys : List RowKey} (silent : quiet)
    (settled : Settled space quiet ledger tx) (deletable : Deletable task tx)
    (stamped : ∀ reading ∈ (Event.deleted task).stamps, reading ∈ ledger.readings) :
    Settled space quiet (ledger.cause (.deleted task) stamped ledger.named_nothing)
      ((tx.hold keys).record (.deleteTask task)) := by
  obtain ⟨locked, life, rows, terminal⟩ := deletable
  refine ⟨settled.readings, settled.drawn, settled.committed, ?_, Or.inl silent, ?_, ?_, ?_⟩
  · rw [Tx.queue_record]
    refine ⟨settled.keyed.tasks.sublist (List.filter_sublist.map _),
      settled.keyed.runs.sublist (List.filter_sublist.map _),
      settled.keyed.keys.sublist (List.filter_sublist.filterMap _)⟩
  · intro other _
    obtain ⟨before, after, committedRows, viewRows, evolves⟩ := settled.evolves other (by simp)
    rw [Tx.queue_record, Queue.rowsOf_apply, Tx.queue_hold]
    by_cases same : task = other
    · subst same
      have isLife : after = some life := Life.rows_injective (viewRows.symm.trans rows)
      subst isLife
      refine ⟨before, none, committedRows, ?_,
        evolves.snoc rfl ⟨⟨life, rfl, terminal⟩, rfl⟩⟩
      simp [Change.onRows, Life.rows]
    · refine ⟨before, after, committedRows, ?_, evolves.snoc_other same⟩
      simp only [Change.onRows, if_neg same]
      exact viewRows
  · intro other _ unlocked
    have free : RowKey.task other ∉ tx.held := fun held =>
      unlocked (List.mem_append_right keys held)
    have different : task ≠ other := fun same => free (same ▸ locked)
    obtain ⟨unchanged, noEvents⟩ := settled.untouched other (by simp) free
    rw [Tx.queue_record, Queue.rowsOf_apply, Tx.queue_hold]
    simp only [Change.onRows, if_neg different]
    refine ⟨unchanged, ?_⟩
    intro event member
    rcases List.mem_append.mp member with earlier | added
    · exact noEvents event earlier
    · rw [List.mem_singleton.mp added]
      exact different
  · rw [Tx.queue_record]
    change tx.queue.checkpoints.filter (fun row => row.taskId != task) = _
    rw [settled.checkpoints]
    simp [Ledger.cause, Event.replay, Event.onCheckpoints]
    rfl

theorem Deletable.delete {task other : Uuid} {keys : List RowKey} (different : task ≠ other)
    (deletable : Deletable other tx) :
    Deletable other ((tx.hold keys).record (.deleteTask task)) := by
  obtain ⟨locked, life, rows, terminal⟩ := deletable
  refine ⟨List.mem_append_right keys locked, life, ?_, terminal⟩
  rw [Tx.queue_record, Queue.rowsOf_apply, Tx.queue_hold]
  simp only [Change.onRows, if_neg different]
  exact rows

theorem guarantees_lockCascade (runs : List RunRow) {condition : Tx → Prop}
    (stable : Stably space quiet condition tx)
    (holds : ∀ tx keys, condition tx → condition (tx.hold keys))
    (retained : ∀ tx, condition tx →
      quiet ∨ ∀ change ∈ tx.log, ∀ id, change ≠ .deleteTask id) :
    Guarantees space quiet (lockCascade runs) (fun _ => Stably space quiet condition)
      raises tx := by
  induction runs generalizing tx with
  | nil => exact stable.stable
  | cons run rest inductionHypothesis =>
      apply Program.Ensures.bind
      refine Program.Ensures.mono ?_ (fun _ _ raised => raised)
        (guarantees_lockRun run.id .wait stable holds retained)
      intro found now locked
      refine inductionHypothesis (Rely.Stable.mono ?_ locked)
      intro tx known
      cases found with
      | none => exact known.1
      | some run => exact known.1

/-- Deleting selected terminal tasks reaches their deletions. -/
theorem guarantees_deleteTasks (silent : quiet) (tasks : List Uuid) (distinct : tasks.Nodup)
    (settled : Settled space quiet ledger tx) (deletable : ∀ task ∈ tasks, Deletable task tx) :
    Guarantees space quiet (deleteTasks tasks)
      (fun _ tx => Reaches space quiet ledger (tasks.map Event.deleted) tx) raises tx := by
  induction tasks generalizing ledger tx with
  | nil => exact fun store moved =>
      Reaches.nothing ((Stably.of_quiet silent settled).after moved)
  | cons task rest inductionHypothesis =>
      obtain ⟨notInRest, restDistinct⟩ := List.nodup_cons.mp distinct
      have stable : Stably space quiet (fun tx => Settled space quiet ledger tx ∧
          ∀ task' ∈ task :: rest, Deletable task' tx) tx :=
        Stably.of_quiet silent ⟨settled, deletable⟩
      apply Program.Ensures.bind
      refine Program.Ensures.mono ?_ (fun _ _ raised => raised)
        (guarantees_snapshot (fun _ => True) stable fun _ _ => trivial)
      rintro visible afterRead ⟨-, known⟩
      apply Program.Ensures.bind
      refine Program.Ensures.mono ?_ (fun _ _ raised => raised)
        (guarantees_lockCascade (visible.runsOf task)
          (Rely.Stable.mono (fun _ facts => facts.1) known)
          (fun tx keys facts => ⟨facts.1.hold keys, fun other member =>
            (facts.2 other member).hold keys⟩)
          fun _ _ => Or.inl silent)
      intro _ afterLocks locked
      apply Program.Ensures.bind
      have stamped : ∀ reading ∈ (Event.deleted task).stamps, reading ∈ ledger.readings := by
        simp [Event.stamps]
      have deleted : Guarantees space quiet (change (.deleteTask task))
          (fun _ => Stably space quiet (fun tx => Settled space quiet
              (ledger.cause (.deleted task) stamped ledger.named_nothing) tx ∧
            ∀ other ∈ rest, Deletable other tx)) raises afterLocks := by
        apply Program.ensures_write
        · intro store moved _
          refine Rely.Stable.stable (Stably.of_quiet silent ?_)
          obtain ⟨settledNow, deletableNow⟩ := locked store moved
          refine ⟨settledNow.delete silent (deletableNow task List.mem_cons_self) stamped, ?_⟩
          intro other member
          refine (deletableNow other (List.mem_cons_of_mem _ member)).delete ?_
          exact fun same => notInRest (same ▸ member)
        · intro store _ dropped
          cases dropped
        · intro store _ error refused
          cases refused
      refine Program.Ensures.mono ?_ (fun _ _ raised => raised) deleted
      intro _ afterDelete known
      refine Program.Ensures.mono ?_ (fun _ _ raised => raised)
        (inductionHypothesis restDistinct known.now.1 known.now.2)
      intro _ later reached
      exact reached.prepend (ledger.extends_cause _ stamped ledger.named_nothing)

/-- `cleanup_tasks` deletes some terminal tasks and counts them. -/
theorem guarantees_cleanupTasks (silent : quiet) (settled : Settled space quiet ledger tx) :
    Guarantees space quiet cleanupTasks
      (fun count tx => ∃ tasks : List Uuid, count = tasks.length ∧
        Reaches space quiet ledger (tasks.map Event.deleted) tx) raises tx := by
  apply Program.Ensures.bind
  have read : Guarantees space quiet currentTime (fun reading => Stably space quiet
      (Settled space quiet (ledger.observe reading))) raises tx :=
    guarantees_currentTime (Stably.of_quiet silent settled) fun reading _ known =>
      known.observe reading
  refine Program.Ensures.mono ?_ (fun _ _ raised => raised) read
  intro nowAt afterClock settledNow
  apply Program.Ensures.bind
  refine Program.Ensures.mono ?_ (fun _ _ raised => raised)
    (guarantees_snapshot (fun _ => True) settledNow fun _ _ => trivial)
  rintro policy afterPolicy ⟨-, settledPolicy⟩
  apply Program.Ensures.bind
  refine Program.Ensures.mono ?_ (fun _ _ raised => raised)
    (guarantees_snapshot Queue.Keyed settledPolicy fun _ known => known.1.keyed)
  rintro visible afterRead ⟨keyed, settledRead⟩
  have settledLast : Stably space quiet (Settled space quiet (ledger.observe nowAt)) afterRead :=
    Rely.Stable.mono (fun _ facts => facts.1.1) settledRead
  have anything : Stably space quiet (fun _ => True) afterRead := fun _ _ => trivial
  apply Program.Ensures.bind
  refine Program.Ensures.mono ?_ (fun _ _ raised => raised)
    (guarantees_lockCleanupTasks (nowAt - policy.cleanupTtl) _ _ settledLast anything
      fun _ _ _ => trivial)
  rintro selected afterLocks ⟨sublist, settledLocked, deletable⟩
  have distinct : selected.Nodup := by
    refine List.Nodup.sublist sublist ?_
    refine ((List.perm_insertionSort _ _).map _).nodup_iff.mpr ?_
    refine List.Nodup.sublist (List.filter_sublist.map _) ?_
    unfold lastRunLeftJoin
    rw [List.map_map]
    exact keyed.tasks
  apply Program.Ensures.bind
  refine Program.Ensures.mono ?_ (fun _ _ raised => raised)
    (guarantees_deleteTasks silent selected distinct settledLocked.now deletable.now.2)
  intro _ afterDelete reached store moved
  exact ⟨selected, rfl, (reached.after moved).prepend (ledger.extends_observe nowAt)⟩

end Steda
