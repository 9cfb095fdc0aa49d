import Mathlib.Data.List.Induction
import Steda.Lifecycle

/-!
# Evolution of a queue

The rows of each task evolve on their own: a change of the queue touches the
rows of one task, and a sequence of events takes the life of that task from
one valid life to another.  `Queue.Sound` is the invariant of the whole queue.
-/

namespace Steda

open Postgres Transaction Relational

variable {space : Char → Bool}

/-! ## Events -/

/-- What a stored function does to the tasks of a queue. -/
inductive Event
  | submitted (task : TaskRow) (run : RunRow)
  | moved (task : Uuid) (transition : Transition)
  | recorded (checkpoint : CheckpointRow) (run : Uuid) (observedAt : Timestamp)
  | deleted (task : Uuid)

namespace Event

/-- The task an event is about. -/
def task : Event → Uuid
  | .submitted task _ => task.id
  | .moved task _ => task
  | .recorded checkpoint _ _ => checkpoint.taskId
  | .deleted task => task

/-- The clock readings an event was decided by. -/
def stamps : Event → List Timestamp
  | .submitted task _ => [task.enqueueAt]
  | .moved _ transition => [transition.stamp]
  | .recorded _ _ observedAt => [observedAt]
  | .deleted _ => []

/-- The identifiers an event introduces. -/
def names : Event → List Uuid
  | .submitted task run => [task.id, run.id]
  | .moved _ transition => transition.newRun?.toList
  | .recorded _ _ _ | .deleted _ => []

/-- The effect of an event on the checkpoints. -/
def onCheckpoints : Event → List CheckpointRow → List CheckpointRow
  | .recorded checkpoint _ _, rows => rows ++ [checkpoint]
  | .deleted task, rows => rows.filter fun row => row.taskId != task
  | .submitted _ _, rows | .moved _ _, rows => rows

/-- The checkpoints after a sequence of events. -/
def replay (events : List Event) (rows : List CheckpointRow) : List CheckpointRow :=
  events.foldl (fun rows event => event.onCheckpoints rows) rows

/-- The effect of an event on the life of its own task.  `timely` says whether
claims are known to respect the deadline. -/
def Acts (space : Char → Bool) (timely : Prop) : Event → Option Life → Option Life → Prop
  | .submitted task run, before, after =>
      before = none ∧ after = some { task := task, history := [], last := run } ∧
        ({ task := task, history := [], last := run } : Life).Valid space ∧
        run.state = .pending ∧ task.firstStartedAt = none
  | .moved _ transition, before, after =>
      ∃ life, before = some life ∧ transition.Enabled space life ∧
        (timely → transition.Timely life) ∧ after = some (transition.after life)
  | .recorded _ run observedAt, before, after =>
      ∃ life, before = some life ∧ Transition.Running run life ∧
        life.task.due observedAt = .ok false ∧ Transition.Leased observedAt life ∧ after = before
  | .deleted _, before, after =>
      (∃ life, before = some life ∧ life.task.state.terminal = true) ∧ after = none

end Event

/-- A sequence of events takes the life of a task from one stage to another;
events of other tasks leave it alone. -/
def Evolves (space : Char → Bool) (timely : Prop) (task : Uuid) :
    List Event → Option Life → Option Life → Prop
  | [], before, after => after = before
  | event :: rest, before, after =>
      if event.task = task then
        ∃ between, event.Acts space timely before between ∧
          Evolves space timely task rest between after
      else Evolves space timely task rest before after

/-- A life that belongs to a task and keeps the invariant, if there is one. -/
def Lives (space : Char → Bool) (task : Uuid) (life : Option Life) : Prop :=
  ∀ present, life = some present → present.Valid space ∧ present.task.id = task

section Evolves

variable {timely : Prop} {task : Uuid} {first second third : Option Life}

theorem Evolves.append {events more : List Event}
    (early : Evolves space timely task events first second)
    (late : Evolves space timely task more second third) :
    Evolves space timely task (events ++ more) first third := by
  induction events generalizing first with
  | nil =>
      have equal : second = first := early
      rw [equal] at late
      exact late
  | cons event rest inductionHypothesis =>
      simp only [Evolves, List.cons_append] at early ⊢
      by_cases own : event.task = task
      · rw [if_pos own] at early ⊢
        obtain ⟨between, acts, restEvolves⟩ := early
        exact ⟨between, acts, inductionHypothesis restEvolves⟩
      · rw [if_neg own] at early ⊢
        exact inductionHypothesis early

theorem Evolves.snoc {events : List Event} {event : Event}
    (early : Evolves space timely task events first second) (own : event.task = task)
    (acts : event.Acts space timely second third) :
    Evolves space timely task (events ++ [event]) first third := by
  refine early.append ?_
  simp only [Evolves, if_pos own]
  exact ⟨third, acts, rfl⟩

theorem Evolves.snoc_other {events : List Event} {event : Event}
    (early : Evolves space timely task events first second) (other : event.task ≠ task) :
    Evolves space timely task (events ++ [event]) first second := by
  refine early.append ?_
  simp only [Evolves, if_neg other]

/-- Every event keeps the invariant of the life it acts on. -/
theorem Event.Acts.lives {event : Event} (acts : event.Acts space timely first second)
    (lives : Lives space event.task first) : Lives space event.task second := by
  cases event with
  | submitted row run =>
      obtain ⟨_, after, valid, _⟩ := acts
      intro present isPresent
      rw [after] at isPresent
      cases isPresent
      exact ⟨valid, rfl⟩
  | moved id transition =>
      obtain ⟨life, before, enabled, _, after⟩ := acts
      obtain ⟨valid, owner⟩ := lives life before
      intro present isPresent
      rw [after] at isPresent
      cases isPresent
      refine ⟨Transition.valid_after valid enabled, ?_⟩
      rw [← owner]
      cases transition <;> rfl
  | recorded checkpoint run observedAt =>
      obtain ⟨_, _, _, _, _, after⟩ := acts
      rw [after]
      exact lives
  | deleted id =>
      intro present isPresent
      rw [acts.2] at isPresent
      cases isPresent

theorem Evolves.lives {events : List Event}
    (evolves : Evolves space timely task events first second)
    (lives : Lives space task first) : Lives space task second := by
  induction events generalizing first with
  | nil =>
      have equal : second = first := evolves
      rw [equal]
      exact lives
  | cons event rest inductionHypothesis =>
      simp only [Evolves] at evolves
      by_cases own : event.task = task
      · rw [if_pos own] at evolves
        obtain ⟨between, acts, restEvolves⟩ := evolves
        subst own
        exact inductionHypothesis restEvolves (acts.lives lives)
      · rw [if_neg own] at evolves
        exact inductionHypothesis evolves lives

end Evolves

/-! ## Identifiers -/

section Identifiers

variable {timely : Prop} {task : Uuid}

/-- A sequence of events can be cut anywhere. -/
theorem evolves_append {events more : List Event} {first last : Option Life} :
    Evolves space timely task (events ++ more) first last ↔
      ∃ middle, Evolves space timely task events first middle ∧
        Evolves space timely task more middle last := by
  constructor
  · intro whole
    induction events generalizing first with
    | nil => exact ⟨first, rfl, whole⟩
    | cons event rest inductionHypothesis =>
        simp only [List.cons_append, Evolves] at whole ⊢
        by_cases own : event.task = task
        · rw [if_pos own] at whole
          simp only [if_pos own]
          obtain ⟨between, acts, restEvolves⟩ := whole
          obtain ⟨middle, early, late⟩ := inductionHypothesis restEvolves
          exact ⟨middle, ⟨between, acts, early⟩, late⟩
        · rw [if_neg own] at whole
          simp only [if_neg own]
          exact inductionHypothesis whole
  · rintro ⟨middle, early, late⟩
    exact early.append late

/-- A single event of a task. -/
theorem evolves_singleton {event : Event} {first last : Option Life} (own : event.task = task) :
    Evolves space timely task [event] first last ↔ event.Acts space timely first last := by
  simp only [Evolves, if_pos own]
  constructor
  · rintro ⟨between, acts, equal⟩
    exact equal ▸ acts
  · exact fun acts => ⟨last, acts, rfl⟩

/-- The last event of a sequence. -/
theorem evolves_concat {events : List Event} {event : Event} {first last : Option Life} :
    Evolves space timely task (events ++ [event]) first last ↔
      if event.task = task then
        ∃ middle, Evolves space timely task events first middle ∧
          event.Acts space timely middle last
      else Evolves space timely task events first last := by
  rw [evolves_append]
  by_cases own : event.task = task
  · simp only [Evolves, if_pos own]
    constructor
    · rintro ⟨middle, early, after, acts, equal⟩
      exact ⟨middle, early, equal ▸ acts⟩
    · rintro ⟨middle, early, acts⟩
      exact ⟨middle, early, last, acts, rfl⟩
  · simp only [Evolves, if_neg own]
    constructor
    · rintro ⟨middle, early, equal⟩
      exact equal ▸ early
    · intro early
      exact ⟨last, early, rfl⟩

/-- The first event of a task introduces its identifier. -/
theorem Evolves.task_named {events : List Event} {last : Option Life}
    (evolves : Evolves space timely task events none last)
    (involved : ∃ event ∈ events, event.task = task) : task ∈ events.flatMap Event.names := by
  induction events with
  | nil =>
      obtain ⟨event, member, _⟩ := involved
      cases member
  | cons event rest inductionHypothesis =>
      rw [List.flatMap_cons]
      simp only [Evolves] at evolves
      by_cases own : event.task = task
      · rw [if_pos own] at evolves
        obtain ⟨between, acts, _⟩ := evolves
        apply List.mem_append_left
        cases event with
        | submitted row run =>
            have isRow : row.id = task := own
            rw [← isRow]
            exact List.mem_cons_self
        | moved id transition =>
            obtain ⟨life, impossible, _⟩ := acts
            cases impossible
        | recorded checkpoint run observedAt =>
            obtain ⟨life, impossible, _⟩ := acts
            cases impossible
        | deleted id =>
            obtain ⟨⟨life, impossible, _⟩, _⟩ := acts
            cases impossible
      · rw [if_neg own] at evolves
        obtain ⟨other, member, otherOwn⟩ := involved
        rcases List.mem_cons.mp member with isHead | inRest
        · rw [isHead] at otherOwn
          exact absurd otherOwn own
        · exact List.mem_append_right _ (inductionHypothesis evolves ⟨other, inRest, otherOwn⟩)

/-- A task that exists was introduced by one of its events. -/
theorem Evolves.task_named_of_some {events : List Event} {life : Life}
    (evolves : Evolves space timely task events none (some life)) :
    task ∈ events.flatMap Event.names := by
  refine evolves.task_named ?_
  by_contra uninvolved
  have unchanged : ∀ {events : List Event} {first last : Option Life},
      Evolves space timely task events first last →
        (¬∃ event ∈ events, event.task = task) → last = first := by
    intro events first last steps
    induction events generalizing first with
    | nil => exact fun _ => steps
    | cons event rest inductionHypothesis =>
        intro noneOwn
        have notOwn : event.task ≠ task := fun own => noneOwn ⟨event, List.mem_cons_self, own⟩
        rw [Evolves, if_neg notOwn] at steps
        exact inductionHypothesis steps fun ⟨other, member, own⟩ =>
          noneOwn ⟨other, List.mem_cons_of_mem _ member, own⟩
  cases unchanged evolves uninvolved

/-- A transition keeps the identifiers of the runs and introduces at most one. -/
theorem Transition.mem_runs_after {transition : Transition} {life : Life} {run : RunRow}
    (member : run ∈ (transition.after life).runs) :
    (∃ old ∈ life.runs, old.id = run.id) ∨ transition.newRun? = some run.id := by
  have isLast : life.last ∈ life.runs := life.last_mem_runs
  have earlier : ∀ old ∈ life.history, old ∈ life.runs := fun old isOld =>
    Life.mem_runs.mpr (Or.inl isOld)
  rcases Life.mem_runs.mp member with inHistory | isNew
  · cases transition with
    | retry failed observedAt reason newRun state availableAt =>
        rcases List.mem_append.mp inHistory with isOld | isFailed
        · exact Or.inl ⟨run, earlier run isOld, rfl⟩
        · rw [List.mem_singleton.mp isFailed]
          exact Or.inl ⟨life.last, isLast, rfl⟩
    | reopen newRun nowAt => exact Or.inl ⟨run, inHistory, rfl⟩
    | _ => exact Or.inl ⟨run, earlier run inHistory, rfl⟩
  · subst isNew
    cases transition with
    | retry failed observedAt reason newRun state availableAt => exact Or.inr rfl
    | reopen newRun nowAt => exact Or.inr rfl
    | _ => exact Or.inl ⟨life.last, isLast, rfl⟩

/-- The runs of a task were there before or were introduced by its events. -/
theorem Evolves.runs_introduced {timely : Prop} {task : Uuid} {events : List Event}
    {first : Option Life} {life : Life}
    (evolves : Evolves space timely task events first (some life)) :
    ∀ run ∈ life.runs, (∃ early ∈ first, ∃ old ∈ early.runs, old.id = run.id) ∨
      run.id ∈ events.flatMap Event.names := by
  induction events using List.reverseRecOn generalizing life with
  | nil =>
      intro run member
      have equal : some life = first := evolves
      exact Or.inl ⟨life, equal.symm, run, member, rfl⟩
  | append_singleton events event inductionHypothesis =>
      rw [evolves_concat] at evolves
      have earlier : ∀ {middle : Life}, Evolves space timely task events first (some middle) →
          ∀ run : RunRow, (∃ old ∈ middle.runs, old.id = run.id) →
            (∃ early ∈ first, ∃ old ∈ early.runs, old.id = run.id) ∨
              run.id ∈ (events ++ [event]).flatMap Event.names := by
        rintro middle early run ⟨old, inOld, same⟩
        rw [← same, List.flatMap_append]
        rcases inductionHypothesis early old inOld with before | named
        · exact Or.inl before
        · exact Or.inr (List.mem_append_left _ named)
      intro run member
      by_cases own : event.task = task
      · rw [if_pos own] at evolves
        obtain ⟨middle, early, acts⟩ := evolves
        cases event with
        | submitted row submittedRun =>
            obtain ⟨_, isLife, _⟩ := acts
            cases isLife
            rw [List.mem_singleton.mp member]
            exact Or.inr (by simp [Event.names])
        | moved id transition =>
            obtain ⟨before, isBefore, _, _, isLife⟩ := acts
            subst isBefore
            cases isLife
            rcases Transition.mem_runs_after member with old | isNew
            · exact earlier early run old
            · exact Or.inr (by simp [Event.names, isNew])
        | recorded checkpoint recordedRun observedAt =>
            obtain ⟨_, _, _, _, _, same⟩ := acts
            subst same
            exact earlier early run ⟨run, member, rfl⟩
        | deleted id => cases acts.2
      · rw [if_neg own] at evolves
        exact earlier evolves run ⟨run, member, rfl⟩

/-- The runs of a task were introduced by its events. -/
theorem Evolves.runs_named {timely : Prop} {task : Uuid} {events : List Event} {life : Life}
    (evolves : Evolves space timely task events none (some life)) :
    ∀ run ∈ life.runs, run.id ∈ events.flatMap Event.names := by
  intro run member
  rcases evolves.runs_introduced run member with ⟨_, impossible, _⟩ | named
  · cases impossible
  · exact named

end Identifiers

/-! ## Invariants of lives -/

section Invariants

variable {timely : Prop} {task : Uuid} {events : List Event} {property : Life → Prop}

/-- A life has every property that submissions establish and transitions keep. -/
theorem Evolves.invariant {life : Life}
    (evolves : Evolves space timely task events none (some life))
    (submitted : ∀ row run, .submitted row run ∈ events →
      ({ task := row, history := [], last := run } : Life).Valid space → run.state = .pending →
        property { task := row, history := [], last := run })
    (moved : ∀ transition before, .moved task transition ∈ events → before.Valid space →
      transition.Enabled space before → (timely → transition.Timely before) →
        property before → property (transition.after before)) : property life := by
  induction events using List.reverseRecOn generalizing life with
  | nil => cases evolves
  | append_singleton events event inductionHypothesis =>
      have earlier : ∀ {before : Life}, Evolves space timely task events none (some before) →
          property before := fun early =>
        inductionHypothesis early
          (fun row run member => submitted row run (List.mem_append_left _ member))
          (fun transition before member => moved transition before (List.mem_append_left _ member))
      rw [evolves_concat] at evolves
      by_cases own : event.task = task
      · rw [if_pos own] at evolves
        obtain ⟨middle, early, acts⟩ := evolves
        have isLast : event ∈ events ++ [event] := List.mem_append_right _ List.mem_cons_self
        cases event with
        | submitted row run =>
            obtain ⟨_, isLife, valid, pending, _⟩ := acts
            cases isLife
            exact submitted row run isLast valid pending
        | moved id transition =>
            have isTask : id = task := own
            subst isTask
            obtain ⟨before, isBefore, enabled, onTime, isLife⟩ := acts
            subst isBefore
            cases isLife
            have lives : Lives space id none := by simp [Lives]
            exact moved transition before isLast (early.lives lives before rfl).1 enabled onTime
              (earlier early)
        | recorded checkpoint run observedAt =>
            obtain ⟨_, _, _, _, _, same⟩ := acts
            subst same
            exact earlier early
        | deleted id => cases acts.2
      · rw [if_neg own] at evolves
        exact earlier evolves

/-- A task that is not deleted and submitted again keeps every property that
transitions keep. -/
theorem Evolves.keeps {first last : Life}
    (evolves : Evolves space timely task events (some first) (some last))
    (valid : first.Valid space) (owner : first.task.id = task)
    (fresh : .deleted task ∈ events → task ∉ events.flatMap Event.names)
    (begins : property first)
    (moved : ∀ transition before, .moved task transition ∈ events → before.Valid space →
      transition.Enabled space before → (timely → transition.Timely before) →
        property before → property (transition.after before)) : property last := by
  induction events generalizing first with
  | nil =>
      cases (show some last = some first from evolves)
      exact begins
  | cons event rest inductionHypothesis =>
      rw [List.flatMap_cons, List.mem_append, not_or] at fresh
      have freshRest : .deleted task ∈ rest → task ∉ rest.flatMap Event.names := fun inRest =>
        (fresh (List.mem_cons_of_mem _ inRest)).2
      have movedRest := fun transition before inRest =>
        moved transition before (List.mem_cons_of_mem _ inRest)
      rw [Evolves] at evolves
      by_cases own : event.task = task
      · rw [if_pos own] at evolves
        obtain ⟨between, acts, restEvolves⟩ := evolves
        cases event with
        | submitted row run => cases acts.1
        | moved id transition =>
            have isTask : id = task := own
            subst isTask
            obtain ⟨before, isBefore, enabled, onTime, isBetween⟩ := acts
            cases isBefore
            subst isBetween
            have sameId : (transition.after first).task.id = id := by
              rw [← owner]
              cases transition <;> rfl
            exact inductionHypothesis restEvolves (Transition.valid_after valid enabled) sameId
              freshRest (moved transition first List.mem_cons_self valid enabled onTime begins)
              movedRest
        | recorded checkpoint run observedAt =>
            obtain ⟨_, _, _, _, _, isBetween⟩ := acts
            subst isBetween
            exact inductionHypothesis restEvolves valid owner freshRest begins movedRest
        | deleted id =>
            obtain ⟨_, isBetween⟩ := acts
            subst isBetween
            have isTask : id = task := own
            subst isTask
            exact absurd restEvolves.task_named_of_some (fresh List.mem_cons_self).2
      · rw [if_neg own] at evolves
        exact inductionHypothesis evolves valid owner freshRest begins movedRest

end Invariants

/-! ## The rows of one task in a queue -/

/-- The rows of a task. -/
def Queue.rowsOf (queue : Queue) (task : Uuid) : Rows where
  task := queue.findTask task
  runs := queue.runsOf task

/-- What a change does to the rows of a task. -/
def Change.onRows (task : Uuid) : Change → Rows → Rows
  | .insertTask row, rows =>
      if row.id = task then { rows with task := rows.task.or (some row) } else rows
  | .putTask row, rows =>
      if row.id = task then { rows with task := rows.task.map fun _ => row } else rows
  | .insertRun run, rows =>
      if run.taskId = task then { rows with runs := rows.runs ++ [run] } else rows
  | .putRun run, rows =>
      if run.taskId = task then { rows with runs := replace RunRow.key run rows.runs } else rows
  | .insertCheckpoint _, rows => rows
  | .deleteTask id, rows => if id = task then { task := none, runs := [] } else rows

/-- What a change other than a deletion does to a run. -/
def Change.onRun (id : Uuid) : Change → Option RunRow → Option RunRow
  | .insertRun run, found => found.or (if run.id = id then some run else none)
  | .putRun run, found => found.map fun old => if old.key = run.key then run else old
  | _, found => found

namespace Queue

theorem findTask_putTask (queue : Queue) (row : TaskRow) (task : Uuid) :
    (queue.putTask row).findTask task =
      if row.id = task then (queue.findTask task).map fun _ => row else queue.findTask task := by
  unfold findTask putTask
  rw [find_replace row queue.tasks fun old same => same]
  cases found : find TaskRow.id task queue.tasks with
  | none => simp
  | some old =>
      have oldId := key_of_find found
      by_cases same : row.id = task
      · simp [same, oldId]
      · have different : old.id ≠ row.id := fun equal => same (equal.symm.trans oldId)
        simp [same, different]

theorem findTask_insertTask (queue : Queue) (row : TaskRow) (task : Uuid) :
    (queue.insertTask row).findTask task =
      (queue.findTask task).or (if row.id = task then some row else none) := by
  unfold findTask insertTask
  rw [find_append, find_singleton]

theorem findTask_deleteTask (queue : Queue) (id task : Uuid) :
    (queue.deleteTask id).findTask task =
      if id = task then none else queue.findTask task := by
  unfold findTask deleteTask
  by_cases same : id = task
  · rw [if_pos same, find_eq_none]
    intro row member equal
    have kept := (List.mem_filter.mp member).2
    simp [equal, same] at kept
  · rw [if_neg same]
    exact find_filter_of_imp fun row equal => by simp [equal, Ne.symm same]

/-- The rows of a task after a change depend on its rows before. -/
theorem rowsOf_apply (change : Change) (queue : Queue) (task : Uuid) :
    (apply change queue).rowsOf task = change.onRows task (queue.rowsOf task) := by
  cases change with
  | insertTask row =>
      simp only [apply, rowsOf, Change.onRows, findTask_insertTask]
      by_cases same : row.id = task
      · simp [same, runsOf, insertTask]
      · simp [same, runsOf, insertTask]
  | putTask row =>
      simp only [apply, rowsOf, Change.onRows, findTask_putTask]
      by_cases same : row.id = task
      · simp [same, runsOf, putTask]
      · simp [same, runsOf, putTask]
  | insertRun run =>
      simp only [apply, rowsOf, Change.onRows, runsOf, insertRun, select_append, findTask]
      by_cases same : run.taskId = task
      · simp [same, select]
      · simp [same, select]
  | putRun run =>
      simp only [apply, rowsOf, Change.onRows, runsOf, putRun, findTask]
      have determined : ∀ old : RunRow, old.key = run.key → old.taskId = run.taskId :=
        fun old same => congrArg Prod.fst same
      by_cases same : run.taskId = task
      · rw [if_pos same, select_replace run queue.runs task determined]
      · rw [if_neg same, select_replace_ne run queue.runs determined same]
  | insertCheckpoint row => rfl
  | deleteTask id =>
      simp only [apply, rowsOf, Change.onRows, findTask_deleteTask]
      by_cases same : id = task
      · rw [if_pos same, if_pos same]
        simp only [runsOf, deleteTask, Rows.mk.injEq, true_and]
        exact select_filter_of_not fun run owner => by simp [owner, same]
      · rw [if_neg same, if_neg same]
        simp only [runsOf, deleteTask, Rows.mk.injEq, true_and]
        exact select_filter_of_imp fun run owner => by simp [owner, Ne.symm same]

/-- A run after a change that deletes nothing depends on the run before. -/
theorem findRun_apply {change : Change} (keeps : ∀ id, change ≠ .deleteTask id)
    (queue : Queue) (id : Uuid) :
    (apply change queue).findRun id = change.onRun id (queue.findRun id) := by
  cases change with
  | insertTask row => rfl
  | putTask row => rfl
  | insertRun run =>
      simp only [apply, findRun, insertRun, Change.onRun, find_append, find_singleton]
  | putRun run =>
      simp only [apply, findRun, putRun, Change.onRun]
      exact find_replace run queue.runs fun old same => congrArg Prod.snd same
  | insertCheckpoint row => rfl
  | deleteTask id => exact absurd rfl (keeps id)

/-- Identifiers and idempotency keys are unique. -/
structure Keyed (queue : Queue) : Prop where
  tasks : (queue.tasks.map TaskRow.id).Nodup
  runs : (queue.runs.map RunRow.id).Nodup
  keys : (queue.tasks.filterMap TaskRow.idempotencyKey).Nodup

/-- The invariant of a queue: unique keys, and a valid life or no rows at all
for every task. -/
structure Sound (space : Char → Bool) (queue : Queue) : Prop where
  keyed : queue.Keyed
  lives : ∀ task, ∃ life, queue.rowsOf task = Life.rows life ∧ Lives space task life

theorem Keyed.findRun_of_mem_runs {queue : Queue} (keyed : queue.Keyed) {run : RunRow}
    (member : run ∈ queue.runs) : queue.findRun run.id = some run :=
  find_of_mem keyed.runs member

theorem Keyed.run_unique {queue : Queue} (keyed : queue.Keyed) {first second : RunRow}
    (isFirst : first ∈ queue.runs) (isSecond : second ∈ queue.runs)
    (sameId : first.id = second.id) : first = second :=
  List.inj_on_of_nodup_map keyed.runs isFirst isSecond sameId

theorem Keyed.findRun_of_mem {queue : Queue} (keyed : queue.Keyed) {task : Uuid} {run : RunRow}
    (member : run ∈ (queue.rowsOf task).runs) : queue.findRun run.id = some run :=
  keyed.findRun_of_mem_runs (mem_select.mp member).1

theorem Keyed.putRun {queue : Queue} (keyed : queue.Keyed) (run : RunRow) :
    (queue.putRun run).Keyed where
  tasks := keyed.tasks
  runs := by
    have sameIds : (replace RunRow.key run queue.runs).map RunRow.id =
        queue.runs.map RunRow.id :=
      map_replace_of_agree fun old _ same => congrArg Prod.snd same
    unfold Queue.putRun
    rw [sameIds]
    exact keyed.runs
  keys := keyed.keys

theorem Keyed.putTask {queue : Queue} (keyed : queue.Keyed) {row old : TaskRow}
    (found : queue.findTask row.id = some old)
    (sameKey : old.idempotencyKey = row.idempotencyKey) : (queue.putTask row).Keyed where
  tasks := by
    have sameIds : (replace TaskRow.id row queue.tasks).map TaskRow.id =
        queue.tasks.map TaskRow.id :=
      map_replace_of_agree fun old _ same => same
    unfold Queue.putTask
    rw [sameIds]
    exact keyed.tasks
  runs := keyed.runs
  keys := by
    have sameKeys : (replace TaskRow.id row queue.tasks).map TaskRow.idempotencyKey =
        queue.tasks.map TaskRow.idempotencyKey := by
      apply map_replace_of_agree
      intro other member same
      have isOld : other = old :=
        List.inj_on_of_nodup_map keyed.tasks member (mem_of_find found)
          (same.trans (key_of_find found).symm)
      rw [isOld, sameKey]
    have asMap : ∀ tasks : List TaskRow, tasks.filterMap TaskRow.idempotencyKey =
        (tasks.map TaskRow.idempotencyKey).filterMap id := by
      intro tasks
      rw [List.filterMap_map]
      rfl
    have keys := keyed.keys
    unfold Queue.putTask
    rw [asMap] at keys ⊢
    rw [sameKeys]
    exact keys

theorem Keyed.insertRun {queue : Queue} (keyed : queue.Keyed) {run : RunRow}
    (fresh : queue.findRun run.id = none) : (queue.insertRun run).Keyed where
  tasks := keyed.tasks
  runs := by
    have absent := find_eq_none.mp fresh
    unfold Queue.insertRun
    rw [List.map_append, List.map_singleton]
    refine List.Nodup.append keyed.runs (List.nodup_singleton _) ?_
    intro id isOld isNew
    obtain ⟨old, member, same⟩ := List.mem_map.mp isOld
    exact absent old member (same.trans (List.mem_singleton.mp isNew))
  keys := keyed.keys

theorem mem_rowsOf_of_findRun {queue : Queue} {id : Uuid} {run : RunRow}
    (found : queue.findRun id = some run) : run ∈ (queue.rowsOf run.taskId).runs :=
  mem_select.mpr ⟨mem_of_find found, rfl⟩

theorem findRun_id {queue : Queue} {id : Uuid} {run : RunRow}
    (found : queue.findRun id = some run) : run.id = id :=
  key_of_find found

theorem findTask_id {queue : Queue} {id : Uuid} {task : TaskRow}
    (found : queue.findTask id = some task) : task.id = id :=
  key_of_find found

theorem sound_empty (space : Char → Bool) (cleanupTtl : Int) (cleanupLimit : Nat) :
    (empty cleanupTtl cleanupLimit).Sound space := by
  refine ⟨⟨List.nodup_nil, List.nodup_nil, List.nodup_nil⟩, ?_⟩
  intro task
  refine ⟨none, rfl, ?_⟩
  intro present impossible
  cases impossible

end Queue

/-- The rows of a task of a sound queue are those of a valid life. -/
theorem Queue.Sound.life_of_rows {queue : Queue} (sound : queue.Sound space) {task : Uuid}
    {life : Life} (rows : queue.rowsOf task = Life.rows (some life)) :
    life.Valid space ∧ life.task.id = task := by
  obtain ⟨known, knownRows, lives⟩ := sound.lives task
  exact lives life (Life.rows_injective (knownRows.symm.trans rows))

/-- A task of a sound queue with its life. -/
theorem Queue.Sound.life {queue : Queue} (sound : queue.Sound space) {task : TaskRow}
    (member : task ∈ queue.tasks) :
    ∃ life : Life, life.task = task ∧ life.Valid space ∧
      queue.rowsOf task.id = Life.rows (some life) := by
  obtain ⟨life, rows, lives⟩ := sound.lives task.id
  have found : queue.findTask task.id = some task := find_of_mem sound.keyed.tasks member
  have isTask : (Life.rows life).task = some task := by
    rw [← rows]
    exact found
  cases life with
  | none => cases isTask
  | some life =>
      exact ⟨life, Option.some.inj isTask, (lives life rfl).1, rows⟩

/-- The life of a task that is found. -/
theorem Queue.Sound.life_of_findTask {queue : Queue} (sound : queue.Sound space) {id : Uuid}
    {task : TaskRow} (found : queue.findTask id = some task) :
    ∃ life : Life, life.task = task ∧ life.Valid space ∧
      queue.rowsOf id = Life.rows (some life) := by
  obtain ⟨life, isTask, valid, rows⟩ := sound.life (mem_of_find found)
  rw [Queue.findTask_id found] at rows
  exact ⟨life, isTask, valid, rows⟩

/-- The life of the task of a run. -/
theorem Queue.Sound.life_of_run {queue : Queue} (sound : queue.Sound space) {run : RunRow}
    (member : run ∈ queue.runs) :
    ∃ life : Life, life.Valid space ∧ queue.rowsOf run.taskId = Life.rows (some life) ∧
      run ∈ life.runs := by
  obtain ⟨life, rows, lives⟩ := sound.lives run.taskId
  have inRows : run ∈ (Life.rows life).runs := by
    rw [← rows]
    exact mem_select.mpr ⟨member, rfl⟩
  cases life with
  | none => cases inRows
  | some life => exact ⟨life, (lives life rfl).1, rows, inRows⟩

/-- The deferred references of a sound queue hold. -/
theorem Queue.Sound.deferred {queue : Queue} (sound : queue.Sound space) :
    queue.deferred = .ok () := by
  refine if_pos (List.all_eq_true.mpr fun task member => ?_)
  obtain ⟨life, isTask, valid, rows⟩ := sound.life member
  have inRuns : life.last ∈ queue.runsOf task.id := by
    rw [show queue.runsOf task.id = life.runs from congrArg Rows.runs rows]
    exact life.last_mem_runs
  obtain ⟨inQueue, owner⟩ := mem_select.mp inRuns
  refine List.any_eq_true.mpr ⟨life.last, inQueue, ?_⟩
  rw [owner, ← isTask, valid.pointed]
  simp

end Steda
