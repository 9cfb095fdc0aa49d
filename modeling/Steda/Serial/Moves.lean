import Steda.Serial.Supervision

/-!
# Moves of many tasks

A sweep makes at most one transition for every task.  `Queue.Moved` relates the
queues before and after by the chosen transitions.
-/

namespace Steda

open Postgres Transaction Relational

variable {space : Char → Bool} {life other : Life} {queue : Queue}

/-- A choice of at most one transition for every task. -/
abbrev Moves : Type := Uuid → Option Transition

namespace Moves

/-- No task moves. -/
def none : Moves := fun _ => Option.none

/-- Only one task moves. -/
def single (task : Uuid) (transition : Transition) : Moves := fun id =>
  if id = task then some transition else Option.none

/-- The moves of one choice and, for the other tasks, of another. -/
def orElse (first second : Moves) : Moves := fun id => (first id).or (second id)

variable {task other : Uuid} {transition : Transition} {first second : Moves}

theorem single_self (task : Uuid) (transition : Transition) :
    single task transition task = some transition := if_pos rfl

theorem single_of_ne (different : other ≠ task) :
    single task transition other = Option.none := if_neg different

theorem eq_of_single (chosen : single task transition other ≠ Option.none) : other = task := by
  by_contra different
  exact chosen (single_of_ne different)

theorem orElse_of_none (stays : first task = Option.none) :
    first.orElse second task = second task := by
  rw [orElse, stays, Option.none_or]

theorem orElse_of_some (chosen : first task = some transition) :
    first.orElse second task = some transition := by
  rw [orElse, chosen, Option.some_or]

end Moves

/-- The life after the transition chosen for its task. -/
def Life.moved (moves : Moves) (life : Life) : Life :=
  match moves life.task.id with
  | none => life
  | some transition => transition.after life

theorem Life.moved_id (moves : Moves) (life : Life) : (life.moved moves).task.id = life.task.id := by
  unfold moved
  split
  · rfl
  · exact Transition.after_id _ life

theorem Life.moved_of_none {moves : Moves} (stays : moves life.task.id = none) :
    life.moved moves = life := by
  rw [moved, stays]

theorem Life.moved_of_some {moves : Moves} {transition : Transition}
    (moves_ : moves life.task.id = some transition) :
    life.moved moves = transition.after life := by
  rw [moved, moves_]

/-- Lives of one queue with the same task are the same. -/
theorem Queue.Shows.unique (shows_ : queue.Shows space life) (showsOther : queue.Shows space other)
    (same : life.task.id = other.task.id) : life = other := by
  have rows := shows_.rows
  rw [same, showsOther.rows] at rows
  exact (Option.some.inj (Life.rows_injective rows)).symm

/-- Lives of one queue with a common run are the same. -/
theorem Queue.Shows.unique_of_run (shows_ : queue.Shows space life)
    (showsOther : queue.Shows space other) {run : RunRow} {id : Uuid} (member : run ∈ life.runs)
    (isRun : run.id = id) {otherRun : RunRow} (memberOther : otherRun ∈ other.runs)
    (isOther : otherRun.id = id) : life = other := by
  have found := shows_.findRun member
  have foundOther := showsOther.findRun memberOther
  rw [isRun] at found
  rw [isOther, found] at foundOther
  have sameRun := Option.some.inj foundOther
  refine shows_.unique showsOther ?_
  rw [← shows_.valid.owned run member, ← showsOther.valid.owned otherRun memberOther, sameRun]

/-- The task row with the identifier of a life is the row of the life. -/
theorem Queue.Shows.eq_task (shows_ : queue.Shows space life) {stored : TaskRow}
    (inTasks : stored ∈ queue.tasks) (same : stored.id = life.task.id) : life.task = stored :=
  List.inj_on_of_nodup_map shows_.keyed.tasks (mem_of_find shows_.findTask) inTasks same.symm

/-- The run with the identifier of a run of a life is that run. -/
theorem Queue.Shows.eq_run (shows_ : queue.Shows space life) {run stored : RunRow}
    (member : run ∈ life.runs) (inRuns : stored ∈ queue.runs) (same : stored.id = run.id) :
    run = stored :=
  shows_.keyed.run_unique (mem_of_find (shows_.findRun member)) inRuns same.symm

/-- A queue after the chosen transitions. -/
structure Queue.Moved (space : Char → Bool) (moves : Moves) (before after : Queue) : Prop where
  rows : ∀ life, before.Shows space life →
    after.rowsOf life.task.id = Life.rows (some (life.moved moves))
  absent : ∀ task, before.findTask task = none → after.rowsOf task = before.rowsOf task
  checkpoints : after.checkpoints = before.checkpoints

namespace Queue.Moved

variable {before middle after : Queue} {moves more : Moves}

theorem refl (queue : Queue) : queue.Moved space Moves.none queue where
  rows := fun _ shows_ => shows_.rows
  absent := fun _ _ => rfl
  checkpoints := rfl

/-- The queue shows the moved lives. -/
theorem shows (moved : before.Moved space moves after) (sound : after.Sound space)
    (shows_ : before.Shows space life) : after.Shows space (life.moved moves) :=
  sound.shows_of_rows (moved.rows life shows_)

/-- A task without a move keeps its life. -/
theorem shows_of_none (moved : before.Moved space moves after) (sound : after.Sound space)
    (shows_ : before.Shows space life) (stays : moves life.task.id = none) :
    after.Shows space life := by
  have shown := moved.shows sound shows_
  rwa [Life.moved_of_none stays] at shown

/-- Every life after the moves is a moved life. -/
theorem back (moved : before.Moved space moves after) (sound : before.Sound space)
    (shows_ : after.Shows space life) :
    ∃ old, before.Shows space old ∧ life = old.moved moves := by
  cases found : before.findTask life.task.id with
  | none =>
      have rows := congrArg Rows.task (moved.absent _ found)
      exact absurd (shows_.findTask.symm.trans (rows.trans found)) (by simp)
  | some task =>
      obtain ⟨old, _, isId, showsOld⟩ := sound.shows_of_findTask found
      have rows := moved.rows old showsOld
      rw [isId, shows_.rows] at rows
      exact ⟨old, showsOld, Option.some.inj (Life.rows_injective rows)⟩

/-- Writing one transition moves one task. -/
theorem write (shows_ : before.Shows space life) {transition : Transition}
    (enabled : transition.Enabled space life) (fresh : transition.Fresh before) :
    before.Moved space (Moves.single life.task.id transition) (transition.write life before) where
  rows := by
    intro other showsOther
    by_cases same : other.task.id = life.task.id
    · have isLife := showsOther.unique shows_ same
      subst isLife
      rw [Life.moved_of_some (Moves.single_self _ _)]
      have written := (shows_.write enabled fresh).rows
      rwa [Transition.after_id] at written
    · rw [Life.moved_of_none (Moves.single_of_ne same),
        Transition.rowsOf_write (shows_.valid.owned _ life.last_mem_runs) (Ne.symm same)]
      exact showsOther.rows
  absent := by
    intro task absent
    refine Transition.rowsOf_write (shows_.valid.owned _ life.last_mem_runs) ?_ before
    intro same
    rw [← same, shows_.findTask] at absent
    cases absent
  checkpoints := Transition.write_checkpoints transition life before

/-- Moves of different tasks one after the other. -/
theorem trans (early : before.Moved space moves middle) (sound : middle.Sound space)
    (late : middle.Moved space more after)
    (apart : ∀ task, moves task ≠ none → more task = none) :
    before.Moved space (moves.orElse more) after where
  rows := by
    intro life shows_
    have rows := late.rows _ (early.shows sound shows_)
    rw [Life.moved_id] at rows
    rw [rows]
    cases isEarly : moves life.task.id with
    | none =>
        rw [Life.moved_of_none isEarly]
        simp only [Life.moved, Moves.orElse_of_none isEarly]
    | some transition =>
        have stays : more (life.moved moves).task.id = none := by
          rw [Life.moved_id]
          exact apart _ (by simp [isEarly])
        rw [Life.moved_of_none stays]
        simp only [Life.moved, Moves.orElse_of_some isEarly, isEarly]
  absent := by
    intro task absent
    have rows := early.absent task absent
    have stillAbsent : middle.findTask task = none := (congrArg Rows.task rows).trans absent
    exact (late.absent task stillAbsent).trans rows
  checkpoints := late.checkpoints.trans early.checkpoints

end Queue.Moved

namespace World.Ready

variable {world : World} {observedAt nowAt : Timestamp} {reason : Json} {transition : Transition}

/-- The next identifier is the only one a failed attempt uses. -/
theorem fresh_failure (ready : world.Ready space)
    (fails : life.failure observedAt nowAt reason (world.idents 0) = .ok transition) :
    transition.Fresh world.store := by
  refine ready.fresh fun newRun isNew => ?_
  unfold Life.failure at fails
  split at fails
  · cases fails
  · cases fails
    cases isNew
  · rcases Life.failureInTime_cases fails with ⟨isExhaust, _⟩ | isAbandon |
      ⟨availableAt, isRetry, _⟩
    · subst isExhaust
      cases isNew
    · subst isAbandon
      cases isNew
    · subst isRetry
      exact (Option.some.inj isNew).symm

/-- A world is still ready after a failed attempt. -/
theorem write_failure (ready : world.Ready space) (shows_ : world.store.Shows space life)
    (running : life.last.state = .running)
    (fails : life.failure observedAt nowAt reason (world.idents 0) = .ok transition) :
    World.Ready space ((transition.spent world).withStore (transition.write life world.store)) := by
  have enabled := Life.failure_enabled running shows_.valid fails
  unfold Life.failure at fails
  split at fails
  · cases fails
  · cases fails
    exact ready.tick.write shows_ enabled rfl
  · rcases Life.failureInTime_cases fails with ⟨isExhaust, _⟩ | isAbandon |
      ⟨availableAt, isRetry, _⟩
    · subst isExhaust
      exact ready.write shows_ enabled rfl
    · subst isAbandon
      exact ready.tick.write shows_ enabled rfl
    · subst isRetry
      exact ready.write_next shows_ enabled rfl

end World.Ready

/-- A failed attempt consumes what comes next. -/
theorem Transition.later_spent (transition : Transition) (world : World) (store : Queue) :
    world.Later ((transition.spent world).withStore store) := by
  refine World.Later.trans ?_ (World.Later.withStore _ _)
  cases transition with
  | cancel nowAt => exact World.Later.tick world
  | abandon run observedAt reason nowAt => exact World.Later.tick world
  | retry run observedAt reason newRun state availableAt => exact World.Later.draw world
  | _ => exact World.Later.refl world

end Steda
