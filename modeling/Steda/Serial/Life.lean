import Steda.Serial
import Steda.Evolution
import Steda.Statements

/-!
# One task alone

A queue shows a life when its rows are those of the life.  A transition writes
its new rows; the queue then shows the life after the transition, and the rows
of all other tasks are the same.
-/

namespace Steda

open Postgres Transaction Relational

variable {space : Char → Bool} {queue : Queue} {life : Life}

/-- The rows of a task are those of a valid life. -/
structure Queue.Shows (space : Char → Bool) (queue : Queue) (life : Life) : Prop where
  keyed : queue.Keyed
  valid : life.Valid space
  rows : queue.rowsOf life.task.id = Life.rows (some life)

namespace Queue.Shows

theorem findTask (shows_ : queue.Shows space life) :
    queue.findTask life.task.id = some life.task :=
  congrArg Rows.task shows_.rows

theorem runsOf (shows_ : queue.Shows space life) : queue.runsOf life.task.id = life.runs :=
  congrArg Rows.runs shows_.rows

theorem findRun (shows_ : queue.Shows space life) {run : RunRow} (member : run ∈ life.runs) :
    queue.findRun run.id = some run := by
  have inRows : run ∈ (queue.rowsOf life.task.id).runs := by
    rw [shows_.rows]
    exact member
  exact shows_.keyed.findRun_of_mem inRows

theorem owner (shows_ : queue.Shows space life) {run : RunRow} (member : run ∈ life.runs) :
    queue.findTask run.taskId = some life.task := by
  rw [shows_.valid.owned run member]
  exact shows_.findTask

/-- Only the last run may be active. -/
theorem no_other_active (shows_ : queue.Shows space life) {run : RunRow}
    (same : run.key = life.last.key) : queue.hasOtherActiveRun run = false := by
  obtain ⟨sameTask, sameId⟩ := Prod.mk.inj same
  unfold Queue.hasOtherActiveRun
  rw [List.any_eq_false]
  intro other member both
  simp only [Bool.and_eq_true, beq_iff_eq, bne_iff_ne] at both
  obtain ⟨⟨sibling, different⟩, active⟩ := both
  have inRuns : other ∈ life.runs := by
    rw [← shows_.runsOf]
    refine mem_select.mpr ⟨member, ?_⟩
    rw [sibling, sameTask]
    exact shows_.valid.owned _ life.last_mem_runs
  obtain ⟨isLast, _⟩ := shows_.valid.active_run inRuns active
  exact different (isLast ▸ sameId.symm)

end Queue.Shows

/-- A sound queue shows the life whose rows it holds. -/
theorem Queue.Sound.shows_of_rows (sound : queue.Sound space) {task : Uuid}
    (rows : queue.rowsOf task = Life.rows (some life)) : queue.Shows space life := by
  obtain ⟨valid, owner⟩ := sound.life_of_rows rows
  exact ⟨sound.keyed, valid, owner ▸ rows⟩

/-- The life of a task in a sound queue. -/
theorem Queue.Sound.shows_of_findTask (sound : queue.Sound space) {id : Uuid} {task : TaskRow}
    (found : queue.findTask id = some task) :
    ∃ life : Life, life.task = task ∧ life.task.id = id ∧ queue.Shows space life := by
  obtain ⟨life, isTask, _, rows⟩ := sound.life_of_findTask found
  exact ⟨life, isTask, (sound.life_of_rows rows).2, sound.shows_of_rows rows⟩

/-- The life of the task of a run in a sound queue. -/
theorem Queue.Sound.shows_of_findRun (sound : queue.Sound space) {id : Uuid} {run : RunRow}
    (found : queue.findRun id = some run) :
    ∃ life : Life, run ∈ life.runs ∧ queue.Shows space life := by
  obtain ⟨life, _, rows, inRuns⟩ := sound.life_of_run (mem_of_find found)
  exact ⟨life, inRuns, sound.shows_of_rows rows⟩

/-! ## Statements on a shown life -/

theorem alone_updateRun_last {world : World} (shows_ : world.store.Shows space life)
    {set : RunRow → RunRow} (sameKey : (set life.last).key = life.last.key)
    (checked : (set life.last).check space = .ok ()) :
    alone space (updateRun life.last.id set) world =
      (.ok (), world.withStore (world.store.putRun (set life.last))) := by
  rw [alone_updateRun (shows_.findRun life.last_mem_runs)]
  have passes : putRunCheck space world.store (set life.last) = .ok () := by
    simp only [putRunCheck, Queue.attempt, checked, shows_.no_other_active sameKey,
      Bool.false_eq_true, and_false, if_false]
    rfl
  rw [passes]

theorem alone_updateTask_checked {world : World} {id : Uuid} {row : TaskRow}
    (found : world.store.findTask id = some row) {set : TaskRow → TaskRow}
    (checked : (set row).check space = .ok ()) :
    alone space (updateTask id set) world =
      (.ok (), world.withStore (world.store.putTask (set row))) := by
  rw [alone_updateTask found, checked]

/-! ## Written transitions -/

/-- The rows a transition writes. -/
def Transition.write (transition : Transition) (life : Life) (queue : Queue) : Queue :=
  match transition with
  | .retry _ observedAt reason _ _ _ =>
      ((queue.putRun (life.last.fail observedAt reason)).insertRun
        (transition.after life).last).putTask (transition.after life).task
  | .reopen _ _ =>
      (queue.insertRun (transition.after life).last).putTask (transition.after life).task
  | _ => (queue.putRun (transition.after life).last).putTask (transition.after life).task

theorem Transition.after_id (transition : Transition) (life : Life) :
    (transition.after life).task.id = life.task.id := by
  cases transition <;> rfl

theorem Queue.rowsOf_putRun (queue : Queue) (run : RunRow) (task : Uuid) :
    (queue.putRun run).rowsOf task = Change.onRows task (.putRun run) (queue.rowsOf task) :=
  rowsOf_apply (.putRun run) queue task

theorem Queue.rowsOf_putTask (queue : Queue) (row : TaskRow) (task : Uuid) :
    (queue.putTask row).rowsOf task = Change.onRows task (.putTask row) (queue.rowsOf task) :=
  rowsOf_apply (.putTask row) queue task

theorem Queue.rowsOf_insertRun (queue : Queue) (run : RunRow) (task : Uuid) :
    (queue.insertRun run).rowsOf task = Change.onRows task (.insertRun run) (queue.rowsOf task) :=
  rowsOf_apply (.insertRun run) queue task

namespace Queue.Shows

/-- Replacing the last run of a shown life. -/
theorem replace_last (shows_ : queue.Shows space life) {run : RunRow}
    (sameKey : run.key = life.last.key) :
    replace RunRow.key run life.runs = life.history ++ [run] := by
  have distinct : (life.runs.map RunRow.id).Nodup := by
    rw [← shows_.runsOf]
    exact shows_.keyed.runs.sublist (List.filter_sublist.map RunRow.id)
  unfold Life.runs at distinct ⊢
  rw [List.map_append, List.nodup_append] at distinct
  apply replace_append_last sameKey.symm
  intro other member same
  have sameId : other.id = life.last.id := (congrArg Prod.snd same).trans (congrArg Prod.snd sameKey)
  exact distinct.2.2 other.id (List.mem_map_of_mem member) life.last.id (by simp) sameId

/-- New versions of the task row and of the last run. -/
theorem putLife (shows_ : queue.Shows space life) {task : TaskRow} {last : RunRow}
    (sameId : task.id = life.task.id)
    (sameHolder : task.idempotencyKey = life.task.idempotencyKey)
    (sameKey : last.key = life.last.key)
    (valid : ({ task := task, history := life.history, last := last } : Life).Valid space) :
    ((queue.putRun last).putTask task).Shows space
      { task := task, history := life.history, last := last } where
  keyed := by
    have found : (queue.putRun last).findTask task.id = some life.task := by
      rw [sameId]
      exact shows_.findTask
    exact (shows_.keyed.putRun last).putTask found sameHolder.symm
  valid := valid
  rows := by
    have owner : last.taskId = life.task.id :=
      (congrArg Prod.fst sameKey).trans (shows_.valid.owned _ life.last_mem_runs)
    rw [Queue.rowsOf_putTask, Queue.rowsOf_putRun]
    simp only [sameId, shows_.rows, Change.onRows, owner, if_true, Life.rows,
      shows_.replace_last sameKey, Option.map_some]
    rfl

/-- The other tasks after new versions of the rows of one. -/
theorem rowsOf_putLife (queue : Queue) {task : TaskRow} {last : RunRow} {other : Uuid}
    (notTask : task.id ≠ other) (notOwner : last.taskId ≠ other) :
    ((queue.putRun last).putTask task).rowsOf other = queue.rowsOf other := by
  rw [Queue.rowsOf_putTask, Queue.rowsOf_putRun]
  simp only [Change.onRows, if_neg notTask, if_neg notOwner]

/-- A fresh run after a terminal one. -/
theorem addRun (shows_ : queue.Shows space life) {task : TaskRow} {run : RunRow}
    (sameId : task.id = life.task.id)
    (sameHolder : task.idempotencyKey = life.task.idempotencyKey)
    (owner : run.taskId = life.task.id) (fresh : queue.findRun run.id = none)
    (valid : ({ task := task, history := life.runs, last := run } : Life).Valid space) :
    ((queue.insertRun run).putTask task).Shows space
      { task := task, history := life.runs, last := run } where
  keyed := by
    have found : (queue.insertRun run).findTask task.id = some life.task := by
      rw [sameId]
      exact shows_.findTask
    exact (shows_.keyed.insertRun fresh).putTask found sameHolder.symm
  valid := valid
  rows := by
    rw [Queue.rowsOf_putTask, Queue.rowsOf_insertRun]
    simp only [sameId, shows_.rows, Change.onRows, owner, if_true, Life.rows, Option.map_some]
    rfl

end Queue.Shows

theorem Queue.putTask_putTask (queue : Queue) {first second : TaskRow}
    (same : first.id = second.id) :
    (queue.putTask first).putTask second = queue.putTask second := by
  unfold putTask
  rw [replace_replace same]

/-- The run a transition creates is not in use. -/
def Transition.Fresh (queue : Queue) (transition : Transition) : Prop :=
  ∀ newRun, transition.newRun? = some newRun → queue.findRun newRun = none

/-- After an enabled transition is written the queue shows the life after it. -/
theorem Queue.Shows.write (shows_ : queue.Shows space life) {transition : Transition}
    (enabled : transition.Enabled space life) (fresh : transition.Fresh queue) :
    (transition.write life queue).Shows space (transition.after life) := by
  have valid := Transition.valid_after shows_.valid enabled
  cases transition with
  | retry run observedAt reason newRun state availableAt =>
      let exhausted := (Transition.exhaust run observedAt reason).after life
      let retried := (Transition.retry run observedAt reason newRun state availableAt).after life
      have failed : exhausted.Valid space := Transition.valid_exhaust shows_.valid enabled.1 enabled.2.1
      have shown : ((queue.putRun exhausted.last).putTask exhausted.task).Shows space exhausted :=
        shows_.putLife rfl rfl rfl failed
      have unused : (queue.putRun exhausted.last).findRun newRun = none := by
        have keeps : ∀ id, Change.putRun exhausted.last ≠ .deleteTask id := fun _ => by simp
        refine (Queue.findRun_apply keeps queue newRun).trans ?_
        rw [fresh newRun rfl]
        rfl
      have added : ((((queue.putRun exhausted.last).putTask exhausted.task).insertRun
          retried.last).putTask retried.task).Shows space retried :=
        shown.addRun rfl rfl rfl unused valid
      have once : (((queue.putRun exhausted.last).insertRun retried.last).putTask
          exhausted.task).putTask retried.task =
            ((queue.putRun exhausted.last).insertRun retried.last).putTask retried.task :=
        Queue.putTask_putTask _ rfl
      rw [Transition.write]
      change (((queue.putRun exhausted.last).insertRun retried.last).putTask
        retried.task).Shows space retried
      rw [← once]
      exact added
  | reopen newRun nowAt =>
      exact shows_.addRun rfl rfl rfl (fresh newRun rfl) valid
  | _ => exact shows_.putLife rfl rfl rfl valid

/-- A written transition leaves the other tasks. -/
theorem Transition.rowsOf_write {transition : Transition} (owner : life.last.taskId = life.task.id)
    {other : Uuid} (different : life.task.id ≠ other) (queue : Queue) :
    (transition.write life queue).rowsOf other = queue.rowsOf other := by
  have notOwner : life.last.taskId ≠ other := owner ▸ different
  cases transition with
  | retry run observedAt reason newRun state availableAt =>
      unfold write
      rw [Queue.rowsOf_putTask, Queue.rowsOf_insertRun, Queue.rowsOf_putRun]
      simp [Change.onRows, Transition.after, RunRow.fail, RunRow.fresh, TaskRow.afterFailure,
        different, notOwner]
  | reopen newRun nowAt =>
      unfold write
      rw [Queue.rowsOf_putTask, Queue.rowsOf_insertRun]
      simp [Change.onRows, Transition.after, RunRow.fresh, TaskRow.reopen, different]
  | _ => exact Queue.Shows.rowsOf_putLife queue different notOwner

@[simp] theorem Transition.write_checkpoints (transition : Transition) (life : Life)
    (queue : Queue) : (transition.write life queue).checkpoints = queue.checkpoints := by
  cases transition <;> rfl

end Steda
