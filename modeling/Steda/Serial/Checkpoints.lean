import Steda.Serial.RunControl

/-!
# Checkpoints alone

A checkpoint is written only past the gate and before the deadline; the answer
is the stored value of the name.
-/

namespace Steda

open Postgres Transaction Relational

variable {space : Char → Bool} {life : Life} {world : World}

/-- What a checkpoint call answers and stores past the gate and before the
deadline. -/
def Queue.recordCheckpoint (queue : Queue) (task : Uuid) (name : String) (state : Json) :
    CheckpointResult × Queue :=
  match queue.findCheckpoint task name with
  | some row => ({ checkpointState := some row.state, written := false }, queue)
  | none => ({ checkpointState := some state, written := true },
      queue.insertCheckpoint { taskId := task, name := name, state := state })

/-- Inserting a checkpoint of an existing task under a valid name. -/
theorem alone_insertCheckpoint (world : World) {checkpoint : CheckpointRow}
    (named : isBlank space checkpoint.name = false)
    (short : ¬maxNameBytes < checkpoint.name.utf8ByteSize)
    (exists_ : (world.store.tasks.any fun task => task.id == checkpoint.taskId) = true) :
    alone space (change (.insertCheckpoint checkpoint)) world =
      if (world.store.findCheckpoint checkpoint.taskId checkpoint.name).isSome then
        (.ok false, world)
      else (.ok true, world.withStore (world.store.insertCheckpoint checkpoint)) := by
  have valid : ¬(isBlank space checkpoint.name = true ∨
      maxNameBytes < checkpoint.name.utf8ByteSize) := by
    simp [named, short]
  rw [alone_change]
  simp only [Queue.attempt, if_neg valid, exists_]
  cases (world.store.findCheckpoint checkpoint.taskId checkpoint.name).isSome <;> rfl

/-- Inserting a checkpoint and, when its name is taken, reading the stored
value. -/
theorem alone_recordCheckpoint (world : World) {task : Uuid} {name : String}
    (named : isBlank space name = false) (short : ¬maxNameBytes < name.utf8ByteSize)
    (exists_ : (world.store.tasks.any fun row => row.id == task) = true) (state : Json) :
    alone space (do
      if ← change (.insertCheckpoint { taskId := task, name := name, state := state })
      then return ({ checkpointState := some state, written := true } : CheckpointResult)
      else
        let visible ← snapshot
        return {
          checkpointState := (visible.findCheckpoint task name).map CheckpointRow.state
          written := false }) world =
      (.ok (world.store.recordCheckpoint task name state).1,
        world.withStore (world.store.recordCheckpoint task name state).2) := by
  have inserted : alone space (change (.insertCheckpoint
      { taskId := task, name := name, state := state })) world = _ :=
    alone_insertCheckpoint world named short exists_
  unfold Queue.recordCheckpoint
  cases found : world.store.findCheckpoint task name with
  | some row =>
      rw [found, if_pos Option.isSome_some] at inserted
      rw [alone_then inserted]
      simp only [Bool.false_eq_true, if_false]
      rw [alone_then (alone_snapshot _), found]
      rfl
  | none =>
      rw [found, if_neg (by decide)] at inserted
      rw [alone_then inserted]
      rfl

/-- The gate with the check that the run belongs to a task. -/
theorem alone_gateOfTask {α : Type} (shows_ : world.store.Shows space life) {run : RunRow}
    (member : run ∈ life.runs) (task : Uuid) (rest : AttemptContext → Sql α) :
    alone space (do
      let context ← lockRunningAttempt run.id (some false)
      if context.taskId ≠ task then .raise (.runNotOfTask run.id task)
      else rest context) world =
      match run.gate (world.clock 0) with
      | .error error => (.error error, world.tick)
      | .ok () =>
          if life.task.id ≠ task then (.error (.runNotOfTask run.id task), world.tick)
          else alone space (rest (.ofRows run life.task (world.clock 0))) world.tick := by
  have owner : (AttemptContext.ofRows run life.task (world.clock 0)).taskId = life.task.id :=
    shows_.valid.owned run member
  rw [alone_bind, alone_lockRunningAttempt_of_life shows_ member]
  cases run.gate (world.clock 0) with
  | error error => rfl
  | ok _ =>
      simp only [owner]
      by_cases other : life.task.id ≠ task
      · simp only [if_pos other]
        rfl
      · simp only [if_neg other]

/-- `set_task_checkpoint_state` with a valid name. -/
theorem alone_setTaskCheckpointState (shows_ : world.store.Shows space life) {run : RunRow}
    (member : run ∈ life.runs) {name : String} (named : isBlank space name = false)
    (short : ¬maxNameBytes < name.utf8ByteSize) (task : Uuid) (newState : Option Json) :
    alone space (setTaskCheckpointState space task (some name) newState run.id) world =
      match run.gate (world.clock 0) with
      | .error error => (.error error, world.tick)
      | .ok () =>
          if life.task.id ≠ task then (.error (.runNotOfTask run.id task), world.tick)
          else match life.task.due (some (world.clock 0)), newState with
            | .error error, _ => (.error error, world.tick)
            | .ok true, _ => (.error .checkpointDeadlineElapsed, world.tick)
            | .ok false, none => (.error (.notNullViolation "state"), world.tick)
            | .ok false, some state =>
                (.ok (world.store.recordCheckpoint task name state).1,
                  world.tick.withStore (world.store.recordCheckpoint task name state).2) := by
  simp only [setTaskCheckpointState, named, Bool.false_eq_true, if_false, short]
  rw [alone_gateOfTask shows_ member]
  cases run.gate (world.clock 0) with
  | error error => rfl
  | ok _ =>
      simp only
      by_cases other : life.task.id ≠ task
      · rw [if_pos other, if_pos other]
      · rw [if_neg other, if_neg other]
        have owner : life.task.id = task := not_not.mp other
        subst owner
        rw [alone_bind, alone_ofExcept, AttemptContext.due_ofRows, AttemptContext.observedAt_ofRows]
        cases life.task.due (some (world.clock 0)) with
        | error error => rfl
        | ok isDue =>
            cases isDue with
            | true => rfl
            | false =>
                cases newState with
                | none => rfl
                | some state =>
                    have exists_ : (world.store.tasks.any fun row => row.id == life.task.id) = true :=
                      List.any_eq_true.mpr ⟨life.task, mem_of_find shows_.findTask, by simp⟩
                    simp only [Bool.false_eq_true, if_false]
                    exact alone_recordCheckpoint world.tick named short exists_ state

/-- The live, leased and timely attempt of a task a checkpoint call goes
through. -/
structure Life.Attempting (life : Life) (task run : Uuid) (observedAt : Timestamp) : Prop where
  task : life.task.id = task
  running : Transition.Running run life
  leased : Transition.Leased observedAt life

/-- A checkpoint call that returns has recorded under its task and name. -/
theorem alone_setTaskCheckpointState_ok (sound : world.store.Sound space) {task runId : Uuid}
    {checkpointName : Option String} {newState : Option Json} {result : CheckpointResult}
    {after : World}
    (ran : alone space (setTaskCheckpointState space task checkpointName newState runId) world =
      (.ok result, after)) :
    ∃ name state life, checkpointName = some name ∧ newState = some state ∧
      world.store.Shows space life ∧ life.Attempting task runId (world.clock 0) ∧
      life.task.due (some (world.clock 0)) = .ok false ∧
      result = (world.store.recordCheckpoint task name state).1 ∧
      after = world.tick.withStore (world.store.recordCheckpoint task name state).2 := by
  cases checkpointName with
  | none => cases ran
  | some name =>
      by_cases blank : isBlank space name = true
      · simp only [setTaskCheckpointState, blank, if_true] at ran
        cases ran
      by_cases long : maxNameBytes < name.utf8ByteSize
      · simp only [setTaskCheckpointState, blank, Bool.false_eq_true, if_false, long, if_true] at ran
        cases ran
      have named : isBlank space name = false := Bool.eq_false_iff.mpr blank
      cases found : world.store.findRun runId with
      | none =>
          simp only [setTaskCheckpointState, named, Bool.false_eq_true, if_false, long,
            alone_stop (alone_lockRunningAttempt_absent found _)] at ran
          cases ran
      | some run =>
          obtain ⟨life, member, shows_⟩ := sound.shows_of_findRun found
          have isRun := Queue.findRun_id found
          subst isRun
          rw [alone_setTaskCheckpointState shows_ member named long] at ran
          obtain ⟨passes, own, inTime, state, isState, isResult, isAfter⟩ :
              run.gate (world.clock 0) = .ok () ∧ life.task.id = task ∧
                life.task.due (some (world.clock 0)) = .ok false ∧ ∃ state, newState = some state ∧
                  result = (world.store.recordCheckpoint task name state).1 ∧
                  after = world.tick.withStore (world.store.recordCheckpoint task name state).2 := by
            grind
          obtain ⟨_, running, leased⟩ := (shows_.valid.gate_ok member).mp passes
          exact ⟨name, state, life, rfl, isState, shows_, ⟨own, running, leased⟩, inTime, isResult,
            isAfter⟩

/-- `get_task_checkpoint_states` past the gate lists the stored values. -/
theorem alone_getTaskCheckpointStates (shows_ : world.store.Shows space life) {run : RunRow}
    (member : run ∈ life.runs) (task : Uuid) :
    alone space (getTaskCheckpointStates task run.id) world =
      match run.gate (world.clock 0) with
      | .error error => (.error error, world.tick)
      | .ok () =>
          if life.task.id ≠ task then (.error (.runNotOfTask run.id task), world.tick)
          else (.ok ((world.store.checkpoints.filter fun row => row.taskId == task).map fun row =>
            (row.name, row.state)), world.tick) :=
  alone_gateOfTask shows_ member task _

/-- A listing that returns is that of the stored values. -/
theorem alone_getTaskCheckpointStates_ok (sound : world.store.Sound space) {task runId : Uuid}
    {listed : List (String × Json)} {after : World}
    (ran : alone space (getTaskCheckpointStates task runId) world = (.ok listed, after)) :
    (world.store.findTask task).isSome ∧
      listed = (world.store.checkpoints.filter fun row => row.taskId == task).map
        (fun row => (row.name, row.state)) ∧ after = world.tick := by
  cases found : world.store.findRun runId with
  | none =>
      rw [getTaskCheckpointStates, alone_stop (alone_lockRunningAttempt_absent found _)] at ran
      cases ran
  | some run =>
      obtain ⟨life, member, shows_⟩ := sound.shows_of_findRun found
      have isRun := Queue.findRun_id found
      subst isRun
      rw [alone_getTaskCheckpointStates shows_ member] at ran
      obtain ⟨own, isListed, isAfter⟩ : life.task.id = task ∧
          listed = (world.store.checkpoints.filter fun row => row.taskId == task).map
            (fun row => (row.name, row.state)) ∧ after = world.tick := by
        grind
      refine ⟨?_, isListed, isAfter⟩
      rw [← own, shows_.findTask]
      rfl

/-! ## The constraints of the table -/

/-- The rows of `checkpoints_<queue>` have accepted names, each once for a task,
and belong to tasks of the queue. -/
structure Queue.CheckpointsChecked (space : Char → Bool) (queue : Queue) : Prop where
  names : ∀ row ∈ queue.checkpoints,
    isBlank space row.name = false ∧ row.name.utf8ByteSize ≤ maxNameBytes
  keys : (queue.checkpoints.map fun row => (row.taskId, row.name)).Nodup
  owners : ∀ row ∈ queue.checkpoints, ∃ task ∈ queue.tasks, task.id = row.taskId

theorem Queue.checkpointsChecked_empty (space : Char → Bool) (cleanupTtl : Int)
    (cleanupLimit : Nat) : (Queue.empty cleanupTtl cleanupLimit).CheckpointsChecked space where
  names row member := by cases member
  keys := List.nodup_nil
  owners row member := by cases member

/-- The constraints are about the tasks and the checkpoints. -/
theorem Queue.CheckpointsChecked.of_rows {first second : Queue}
    (checked : first.CheckpointsChecked space) (tasks : second.tasks = first.tasks)
    (checkpoints : second.checkpoints = first.checkpoints) : second.CheckpointsChecked space where
  names := checkpoints ▸ checked.names
  keys := checkpoints ▸ checked.keys
  owners := by
    rw [tasks, checkpoints]
    exact checked.owners

/-- An accepted checkpoint has an accepted name, which its task does not have yet. -/
theorem Queue.attempt_insertCheckpoint {queue : Queue} {checkpoint : CheckpointRow}
    (accepted : Queue.attempt space (.insertCheckpoint checkpoint) queue = .ok true) :
    (isBlank space checkpoint.name = false ∧ checkpoint.name.utf8ByteSize ≤ maxNameBytes) ∧
      (∀ row ∈ queue.checkpoints,
        (row.taskId, row.name) ≠ (checkpoint.taskId, checkpoint.name)) ∧
      ∃ task ∈ queue.tasks, task.id = checkpoint.taskId := by
  unfold Queue.attempt at accepted
  simp only [except_guard_ok] at accepted
  obtain ⟨valid, accepted⟩ := accepted
  obtain ⟨named, short⟩ := not_or.mp valid
  by_cases present : (queue.findCheckpoint checkpoint.taskId checkpoint.name).isSome = true
  · rw [if_pos present] at accepted
    cases accepted
  simp only [present, Bool.false_eq_true, if_false, except_guard_ok] at accepted
  refine ⟨⟨by simpa using named, not_lt.mp short⟩, fun row member same => present ?_,
    by simpa using accepted.1⟩
  obtain ⟨sameTask, sameName⟩ := Prod.mk.inj same
  exact List.find?_isSome.mpr ⟨row, member, by simp [sameTask, sameName]⟩

/-- Every change that the tables accept keeps the constraints. -/
theorem Queue.CheckpointsChecked.apply {queue : Queue} {change : Change}
    (checked : queue.CheckpointsChecked space) (accepted : Queue.attempt space change queue = .ok true) :
    (Queue.apply change queue).CheckpointsChecked space := by
  cases change with
  | insertTask task =>
      refine ⟨checked.names, checked.keys, fun row member => ?_⟩
      obtain ⟨owner, isTask, owns⟩ := checked.owners row member
      exact ⟨owner, List.mem_append_left _ isTask, owns⟩
  | putTask task =>
      refine ⟨checked.names, checked.keys, fun row member => ?_⟩
      obtain ⟨owner, isTask, owns⟩ := checked.owners row member
      refine ⟨_, List.mem_map_of_mem isTask, ?_⟩
      by_cases same : owner.id = task.id
      · rw [if_pos same, ← same, owns]
      · rw [if_neg same, owns]
  | insertRun run => exact ⟨checked.names, checked.keys, checked.owners⟩
  | putRun run => exact ⟨checked.names, checked.keys, checked.owners⟩
  | insertCheckpoint checkpoint =>
      obtain ⟨named, fresh, owner⟩ := Queue.attempt_insertCheckpoint accepted
      refine ⟨?_, ?_, ?_⟩
      · intro row member
        rcases List.mem_append.mp member with isOld | isNew
        · exact checked.names row isOld
        · rw [List.mem_singleton.mp isNew]
          exact named
      · change ((queue.checkpoints ++ [checkpoint]).map _).Nodup
        rw [List.map_append, List.nodup_append]
        refine ⟨checked.keys, List.nodup_singleton _, ?_⟩
        intro key isOld other isNew same
        obtain ⟨row, isRow, isKey⟩ := List.mem_map.mp isOld
        rw [List.map_singleton, List.mem_singleton, ← same, ← isKey] at isNew
        exact fresh row isRow isNew
      · intro row member
        rcases List.mem_append.mp member with isOld | isNew
        · exact checked.owners row isOld
        · rw [List.mem_singleton.mp isNew]
          exact owner
  | deleteTask id =>
      refine ⟨fun row member => checked.names row (List.mem_of_mem_filter member),
        checked.keys.sublist (List.filter_sublist.map _), fun row member => ?_⟩
      obtain ⟨isOld, different⟩ := List.mem_filter.mp member
      obtain ⟨owner, isTask, owns⟩ := checked.owners row isOld
      exact ⟨owner, List.mem_filter.mpr ⟨isTask, owns ▸ different⟩, owns⟩

/-- No stored function breaks the constraints. -/
theorem checkpointsChecked_alone {α : Type} (program : Sql α) (world : World)
    (checked : world.store.CheckpointsChecked space) :
    (alone space program world).2.store.CheckpointsChecked space :=
  @Storage.run_store_related _ _ _ _ _ _ _ (storage space)
    (fun before after => before.CheckpointsChecked space → after.CheckpointsChecked space)
    (fun _ => id) (fun early late => late ∘ early)
    (fun _ _ accepted checked => checked.apply accepted) program world checked

end Steda
