import Steda.Serial.Moves

/-!
# Retention alone

What `cleanup_tasks` selects and deletes when no other transaction interferes.
-/

namespace Steda

open Postgres Transaction Relational

variable {space : Char → Bool} {world : World} {cutoff : Timestamp}

/-! ## Eligible tasks -/

/-- The eligible tasks with their last runs, by terminal time and id. -/
def Queue.eligible (queue : Queue) (cutoff : Timestamp) : List (TaskRow × Option RunRow) :=
  ((lastRunLeftJoin queue).filter fun pair =>
    cleanupCandidate cutoff pair.1 pair.2).insertionSort terminalOrder

/-- The identifiers of the eligible tasks, in the order of their deletion. -/
def Queue.eligibleIds (queue : Queue) (cutoff : Timestamp) : List Uuid :=
  (queue.eligible cutoff).map fun pair => pair.1.id

/-- The queue without some tasks, their runs and their checkpoints. -/
def Queue.without (queue : Queue) (ids : List Uuid) : Queue :=
  { queue with
    tasks := queue.tasks.filter fun task => task.id ∉ ids
    runs := queue.runs.filter fun run => run.taskId ∉ ids
    checkpoints := queue.checkpoints.filter fun row => row.taskId ∉ ids }

theorem Queue.without_nil (queue : Queue) : queue.without [] = queue := by
  simp [Queue.without]

/-- Deleting one task after another. -/
theorem Queue.without_cons (queue : Queue) (id : Uuid) (ids : List Uuid) :
    (queue.deleteTask id).without ids = queue.without (id :: ids) := by
  have agree : ∀ owner : Uuid, (decide (owner ∉ ids) && owner != id) =
      decide (owner ∉ id :: ids) := by
    intro owner
    by_cases same : owner = id <;> simp [same]
  simp only [Queue.without, Queue.deleteTask, List.filter_filter, agree]

theorem mem_lastRunLeftJoin {queue : Queue} {pair : TaskRow × Option RunRow} :
    pair ∈ lastRunLeftJoin queue ↔
      pair.1 ∈ queue.tasks ∧ pair.2 = queue.findRun pair.1.lastAttemptRun := by
  unfold lastRunLeftJoin
  constructor
  · intro member
    obtain ⟨task, inTasks, isPair⟩ := List.mem_map.mp member
    rw [← isPair]
    exact ⟨inTasks, rfl⟩
  · rintro ⟨inTasks, isRun⟩
    refine List.mem_map.mpr ⟨pair.1, inTasks, ?_⟩
    rw [← isRun]

theorem Queue.mem_eligible {queue : Queue} {pair : TaskRow × Option RunRow} :
    pair ∈ queue.eligible cutoff ↔
      pair.1 ∈ queue.tasks ∧ pair.2 = queue.findRun pair.1.lastAttemptRun ∧
        cleanupCandidate cutoff pair.1 pair.2 = true := by
  unfold Queue.eligible
  rw [List.mem_insertionSort, List.mem_filter, mem_lastRunLeftJoin, and_assoc]

theorem Queue.Keyed.eligibleIds_nodup {queue : Queue} (keyed : queue.Keyed) (cutoff : Timestamp) :
    (queue.eligibleIds cutoff).Nodup := by
  refine ((List.perm_insertionSort _ _).map _).nodup_iff.mpr ?_
  refine List.Nodup.sublist (List.filter_sublist.map _) ?_
  unfold lastRunLeftJoin
  rw [List.map_map]
  exact keyed.tasks

/-! ## The stored function -/

/-- A task that has not changed is joined with its last run again. -/
theorem rejoined_findRun (queue : Queue) (task : TaskRow) :
    rejoined task (queue.findRun task.lastAttemptRun) = queue.findRun task.lastAttemptRun := by
  cases found : queue.findRun task.lastAttemptRun with
  | none => rfl
  | some run =>
      have same := Queue.findRun_id found
      simp [rejoined, same]

/-- Alone, every candidate is locked, and the first ones up to the limit are
selected. -/
theorem alone_lockCleanupTasks {candidates : List (TaskRow × Option RunRow)}
    (current : ∀ pair ∈ candidates, world.store.findTask pair.1.id = some pair.1 ∧
      cleanupCandidate cutoff pair.1 (rejoined pair.1 pair.2) = true) (limit : Nat) :
    alone space (lockCleanupTasks cutoff candidates limit) world =
      (.ok ((candidates.take limit).map fun pair => pair.1.id), world) := by
  induction candidates generalizing limit with
  | nil => rw [List.take_nil]; rfl
  | cons candidate rest inductionHypothesis =>
      obtain ⟨⟨found, passes⟩, currentRest⟩ := List.forall_mem_cons.mp current
      cases limit with
      | zero => rfl
      | succ limit =>
          rw [lockCleanupTasks, alone_then (alone_lockTask _ _ _), found]
          simp only [passes, if_true]
          rw [alone_then (inductionHypothesis currentRest limit)]
          rfl

theorem alone_lockCascade (runs : List RunRow) (world : World) :
    alone space (lockCascade runs) world = (.ok (), world) := by
  induction runs with
  | nil => rfl
  | cons run rest inductionHypothesis =>
      rw [lockCascade, alone_then (alone_lockRun _ _ _)]
      exact inductionHypothesis

theorem alone_deleteTasks (ids : List Uuid) (world : World) :
    alone space (deleteTasks ids) world =
      (.ok (), world.withStore (world.store.without ids)) := by
  induction ids generalizing world with
  | nil =>
      rw [Queue.without_nil, Session.withStore_self]
      rfl
  | cons id rest inductionHypothesis =>
      have deleted : alone space (change (.deleteTask id)) world =
          (.ok true, world.withStore (world.store.deleteTask id)) := by
        rw [alone_change]
        rfl
      rw [deleteTasks, alone_then (alone_snapshot world), alone_then (alone_lockCascade _ world),
        alone_then deleted, inductionHypothesis]
      simp only [Session.withStore_withStore, Session.withStore_store, Queue.without_cons]

/-- Alone, a cleanup deletes the first eligible tasks, as many as the policy
allows, and returns their number. -/
theorem alone_cleanupTasks (keyed : world.store.Keyed) :
    alone space cleanupTasks world =
      (.ok (min world.store.cleanupLimit
          (world.store.eligibleIds (world.clock 0 - world.store.cleanupTtl)).length),
        world.tick.withStore (world.store.without
          ((world.store.eligibleIds (world.clock 0 - world.store.cleanupTtl)).take
            world.store.cleanupLimit))) := by
  have current : ∀ pair ∈ world.store.eligible (world.clock 0 - world.store.cleanupTtl),
      world.tick.store.findTask pair.1.id = some pair.1 ∧
        cleanupCandidate (world.clock 0 - world.store.cleanupTtl) pair.1
          (rejoined pair.1 pair.2) = true := by
    intro pair member
    obtain ⟨inTasks, isRun, passes⟩ := Queue.mem_eligible.mp member
    refine ⟨find_of_mem keyed.tasks inTasks, ?_⟩
    rw [isRun] at passes ⊢
    rwa [rejoined_findRun]
  rw [cleanupTasks, alone_then (alone_currentTime world), alone_then (alone_snapshot _)]
  simp only
  rw [alone_then (alone_snapshot _)]
  refine (alone_then (alone_lockCleanupTasks current _) _).trans ?_
  rw [alone_then (alone_deleteTasks _ _)]
  simp only [alone_pure, Queue.eligibleIds, List.map_take, List.length_take, List.length_map]
  rfl

/-! ## What is left -/

/-- The rows of a task after a deletion. -/
theorem Queue.rowsOf_without (queue : Queue) (ids : List Uuid) (task : Uuid) :
    (queue.without ids).rowsOf task =
      if task ∈ ids then Life.rows none else queue.rowsOf task := by
  induction ids generalizing queue with
  | nil =>
      rw [Queue.without_nil]
      simp
  | cons id rest inductionHypothesis =>
      rw [← Queue.without_cons, inductionHypothesis]
      have deleted : (queue.deleteTask id).rowsOf task =
          (Change.deleteTask id).onRows task (queue.rowsOf task) :=
        Queue.rowsOf_apply (.deleteTask id) queue task
      rw [deleted]
      by_cases inRest : task ∈ rest
      · rw [if_pos inRest, if_pos (List.mem_cons_of_mem _ inRest)]
      · rw [if_neg inRest]
        by_cases same : id = task
        · simp [Change.onRows, same, Life.rows]
        · simp [Change.onRows, same, Ne.symm same, inRest]

/-! ## The policy -/

/-- Two queues have the same retention policy. -/
def Queue.SamePolicy (first second : Queue) : Prop :=
  second.cleanupTtl = first.cleanupTtl ∧ second.cleanupLimit = first.cleanupLimit

theorem Queue.samePolicy_apply (change : Change) (queue : Queue) :
    queue.SamePolicy (Queue.apply change queue) := by
  cases change <;> exact ⟨rfl, rfl⟩

/-- No stored function of the queue changes the policy. -/
theorem samePolicy_alone {α : Type} (program : Sql α) (world : World) :
    world.store.SamePolicy (alone space program world).2.store :=
  Storage.run_store_related (fun _ => ⟨rfl, rfl⟩)
    (fun early late => ⟨late.1.trans early.1, late.2.trans early.2⟩)
    (fun change store _ => Queue.samePolicy_apply change store) program world

end Steda
