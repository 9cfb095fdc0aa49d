import Steda.Contention

/-!
# Upkeep of a queue

Calls that submit no tasks run at the same time, and some of them may clean the
queue up.  No task appears, so a run that is gone has gone with its task.  The
calls that delete nothing keep to the rules of contention; a cleanup holds the
locks of the tasks it deletes and of all their runs.
-/

namespace Steda

open Postgres Transaction Relational

variable {space : Char → Bool}

/-- The calls that submit no tasks. -/
def Operation.Upkeeps : Operation → Prop
  | .spawnTask _ _ _ => False
  | _ => True

/-- The transactions of the upkeep. -/
def Upkeeping (space : Char → Bool) (script : Sql Returned) : Prop :=
  ∃ operation : Operation, operation.Upkeeps ∧ script = operation.script space

/-- What other calls may commit meanwhile: no task appears, and a run stays with
its task or goes with it. -/
def upkeep (space : Char → Bool) : Rely RowKey Queue where
  moves := fun held before after =>
    (interference space False).moves held before after ∧
      (∀ task, before.findTask task = none → after.findTask task = none) ∧
      (∀ run row, before.findRun run = some row →
        (∃ later, after.findRun run = some later ∧ later.taskId = row.taskId) ∨
          after.findTask row.taskId = none)
  refl := fun held store =>
    ⟨(interference space False).refl held store, fun _ => id,
      fun _ row found => Or.inl ⟨row, found, rfl⟩⟩
  trans := by
    rintro held first second third ⟨early, earlyTasks, earlyRuns⟩ ⟨late, lateTasks, lateRuns⟩
    refine ⟨(interference space False).trans early late,
      fun task absent => lateTasks task (earlyTasks task absent), ?_⟩
    intro run row found
    rcases earlyRuns run row found with ⟨middle, middleFound, sameTask⟩ | gone
    · rw [← sameTask]
      exact lateRuns run middle middleFound
    · exact Or.inr (lateTasks _ gone)
  anti := fun subset moved => ⟨(interference space False).anti subset moved.1, moved.2⟩

/-- Upkeep is interference. -/
theorem upkeep_interference {held : List RowKey} {before after : Queue}
    (moved : (upkeep space).moves held before after) :
    (interference space False).moves held before after := moved.1

/-- The runs of a locked task stay as they are. -/
theorem runsOf_of_moved {held : List RowKey} {before after : Queue} {task : Uuid}
    (moved : (upkeep space).moves held before after) (locked : .task task ∈ held) :
    after.runsOf task = before.runsOf task := congrArg Rows.runs (moved.1.2.1 task locked)

/-! ## Calls that delete nothing -/

/-- A task that is not submitted does not appear. -/
theorem Evolves.absent {timely : Prop} {task : Uuid} {events : List Event} {last : Option Life}
    (evolves : Evolves space timely task events none last)
    (unsubmitted : ∀ row run, .submitted row run ∉ events) : last = none := by
  induction events with
  | nil => exact evolves
  | cons event rest inductionHypothesis =>
      have others : ∀ row run, .submitted row run ∉ rest := fun row run member =>
        unsubmitted row run (List.mem_cons_of_mem _ member)
      simp only [Evolves] at evolves
      by_cases own : event.task = task
      · rw [if_pos own] at evolves
        obtain ⟨between, acts, later⟩ := evolves
        cases event with
        | submitted row run => exact absurd List.mem_cons_self (unsubmitted row run)
        | moved id transition =>
            obtain ⟨life, impossible, _⟩ := acts
            cases impossible
        | recorded checkpoint run observedAt =>
            obtain ⟨life, impossible, _⟩ := acts
            cases impossible
        | deleted id =>
            obtain ⟨⟨life, impossible, _⟩, _⟩ := acts
            cases impossible
      · rw [if_neg own] at evolves
        exact inductionHypothesis evolves others

/-- A call that contends submits no task. -/
theorem Operation.Contends.unsubmitted {operation : Operation} (contends : operation.Contends)
    (row : TaskRow) (run : RunRow) : ¬operation.MayCause (.submitted row run) := by
  cases operation with
  | spawnTask taskName params options => cases contends
  | _ => exact id

/-- The commit of a call that contends is upkeep. -/
theorem Operation.Contends.upkeeps {operation : Operation} (contends : operation.Contends)
    {value : Returned} {events : List Event} {tx : Tx} (isOperation : value.1 = operation)
    (concluded : Concluded space value events tx) (covered : tx.Covered (storage space))
    (committed : tx.committed.Sound space) :
    tx.queue.Sound space ∧ ∀ held : List RowKey, (∀ key ∈ held, key ∉ tx.held) →
      (upkeep space).moves held tx.committed tx.queue := by
  obtain ⟨sound, moves⟩ := contends.commits isOperation concluded covered committed
  refine ⟨sound, fun held apart => ?_⟩
  obtain ⟨interfered, _, runs⟩ := moves held apart
  refine ⟨interfered, ?_, fun run row found => Or.inl (runs run row found)⟩
  intro task absent
  obtain ⟨before, after, committedRows, viewRows, evolves⟩ := concluded.evolves task
  have noLife : before = none := by
    cases before with
    | none => rfl
    | some life =>
        have found : tx.committed.findTask task = some life.task :=
          congrArg Rows.task committedRows
        rw [absent] at found
        cases found
  subst noLife
  have noneAfter : after = none := evolves.absent fun row run member =>
    contends.unsubmitted row run (isOperation ▸ concluded.mayCause _ member)
  subst noneAfter
  exact congrArg Rows.task viewRows

/-! ## Cleanups -/

/-- The transaction has deleted some tasks, which it has locked with all their
runs, and changed nothing else. -/
structure Erases (gone : List Uuid) (tx : Tx) : Prop where
  log : tx.log = gone.map Change.deleteTask
  locked : ∀ task ∈ gone, .task task ∈ tx.held
  cascade : ∀ task ∈ gone, ∀ run ∈ tx.committed.runsOf task, .run run.id ∈ tx.held

section Cleanup

variable {gone : List Uuid} {tx after last : Tx} {past : List Exchange}

theorem Erases.moved {store : Queue} (erases : Erases gone tx)
    (moved : (upkeep space).moves tx.held tx.committed store) :
    Erases gone (tx.withCommitted store) := by
  refine ⟨erases.log, erases.locked, fun task member run inRuns => ?_⟩
  refine erases.cascade task member run ?_
  rw [← runsOf_of_moved moved (erases.locked task member)]
  exact inRuns

theorem Erases.hold (erases : Erases gone tx) (keys : List RowKey) : Erases gone (tx.hold keys) :=
  ⟨erases.log, fun task member => List.mem_append_right keys (erases.locked task member),
    fun task member run inRuns =>
      List.mem_append_right keys (erases.cascade task member run inRuns)⟩

/-- The rows of a task that is deleted are gone, and the others are as committed. -/
theorem Erases.rowsOf (erases : Erases gone tx) (task : Uuid) :
    tx.queue.rowsOf task = if task ∈ gone then Life.rows none else tx.committed.rowsOf task := by
  have general : ∀ (gone : List Uuid) (queue : Queue),
      ((gone.map Change.deleteTask).foldl (fun queue change => Queue.apply change queue)
        queue).rowsOf task = if task ∈ gone then Life.rows none else queue.rowsOf task := by
    intro gone
    induction gone with
    | nil => exact fun queue => (if_neg List.not_mem_nil).symm
    | cons first rest inductionHypothesis =>
        intro queue
        rw [List.map_cons, List.foldl_cons, inductionHypothesis, Queue.rowsOf_apply]
        by_cases inRest : task ∈ rest
        · rw [if_pos inRest, if_pos (List.mem_cons_of_mem _ inRest)]
        · by_cases isFirst : first = task
          · rw [if_neg inRest, if_pos (isFirst ▸ List.mem_cons_self)]
            exact if_pos isFirst
          · have others : task ∉ first :: rest := fun member =>
              (List.mem_cons.mp member).elim (fun same => isFirst same.symm) inRest
            rw [if_neg inRest, if_neg others]
            exact if_neg isFirst
  rw [Tx.queue, erases.log]
  exact general gone tx.committed

theorem Erases.keyed (erases : Erases gone tx) (keyed : tx.committed.Keyed) : tx.queue.Keyed := by
  have general : ∀ (gone : List Uuid) (queue : Queue), queue.Keyed →
      ((gone.map Change.deleteTask).foldl (fun queue change => Queue.apply change queue)
        queue).Keyed := by
    intro gone
    induction gone with
    | nil => exact fun queue keyed => keyed
    | cons first rest inductionHypothesis =>
        exact fun queue keyed => inductionHypothesis _
          ⟨keyed.tasks.sublist (List.filter_sublist.map _),
            keyed.runs.sublist (List.filter_sublist.map _),
            keyed.keys.sublist (List.filter_sublist.filterMap _)⟩
  rw [Tx.queue, erases.log]
  exact general gone tx.committed keyed

/-- A run is seen if it is committed and its task is not deleted. -/
theorem Erases.findRun (erases : Erases gone tx) (keyed : tx.committed.Keyed) {run : Uuid}
    {row : RunRow} : tx.queue.findRun run = some row ↔
      tx.committed.findRun run = some row ∧ row.taskId ∉ gone := by
  constructor
  · intro found
    have member := Queue.mem_rowsOf_of_findRun found
    rw [erases.rowsOf] at member
    split at member
    · cases member
    · next kept =>
        refine ⟨?_, kept⟩
        rw [← Queue.findRun_id found]
        exact keyed.findRun_of_mem member
  · rintro ⟨found, kept⟩
    have member := Queue.mem_rowsOf_of_findRun found
    have rows := erases.rowsOf row.taskId
    rw [if_neg kept] at rows
    rw [← rows] at member
    rw [← Queue.findRun_id found]
    exact (erases.keyed keyed).findRun_of_mem member

/-- The commit of a cleanup is upkeep. -/
theorem Erases.upkeeps (erases : Erases gone tx) (committed : tx.committed.Sound space) :
    tx.queue.Sound space ∧ ∀ held : List RowKey, (∀ key ∈ held, key ∉ tx.held) →
      (upkeep space).moves held tx.committed tx.queue := by
  have sound : tx.queue.Sound space := by
    refine ⟨erases.keyed committed.keyed, fun task => ?_⟩
    rw [erases.rowsOf]
    split
    · exact ⟨none, rfl, fun _ impossible => nomatch impossible⟩
    · exact committed.lives task
  have notDeleted : ∀ {held : List RowKey} {task : Uuid}, (∀ key ∈ held, key ∉ tx.held) →
      .task task ∈ held → task ∉ gone := fun apart locked isGone =>
    apart _ locked (erases.locked _ isGone)
  refine ⟨sound, fun held apart => ⟨⟨fun _ => sound, ?_, ?_, fun quiet => quiet.elim⟩, ?_, ?_⟩⟩
  · intro task locked
    rw [erases.rowsOf, if_neg (notDeleted apart locked)]
  · intro run locked
    refine Option.ext fun row => (erases.findRun committed.keyed).trans (and_iff_left_of_imp ?_)
    intro found isGone
    refine apart _ locked ?_
    rw [← Queue.findRun_id found]
    exact erases.cascade _ isGone row (Queue.mem_rowsOf_of_findRun found)
  · intro task absent
    have rows := congrArg Rows.task (erases.rowsOf task)
    split at rows
    · exact rows
    · exact rows.trans absent
  · intro run row found
    by_cases isGone : row.taskId ∈ gone
    · have rows := congrArg Rows.task (erases.rowsOf row.taskId)
      rw [if_pos isGone] at rows
      exact Or.inr rows
    · exact Or.inl ⟨row, (erases.findRun committed.keyed).mpr ⟨found, isGone⟩, rfl⟩

/-! ## The conduct of a cleanup -/

theorem lockCleanupTasks_eq (cutoff : Timestamp) (candidate : TaskRow × Option RunRow)
    (rest : List (TaskRow × Option RunRow)) (limit : Nat) :
    lockCleanupTasks cutoff (candidate :: rest) (limit + 1) =
      .perform (.lock (.task candidate.1.id) .skipLocked) (fun newest =>
        match newest.bind fun queue => queue.findTask candidate.1.id with
        | none => lockCleanupTasks cutoff rest (limit + 1)
        | some task =>
            if cleanupCandidate cutoff task (rejoined task candidate.2) then do
              let others ← lockCleanupTasks cutoff rest limit
              return task.id :: others
            else lockCleanupTasks cutoff rest (limit + 1)) := rfl

/-- The selected tasks are locked. -/
theorem lockCleanupTasks_locks {cutoff : Timestamp}
    {candidates : List (TaskRow × Option RunRow)} {limit : Nat} {selected : List Uuid}
    (conduct : Amid (storage space) (upkeep space) (lockCleanupTasks cutoff candidates limit) tx
      past (.done selected) last) : ∀ task ∈ selected, .task task ∈ last.held := by
  induction candidates generalizing limit tx past selected last with
  | nil =>
      cases conduct.done_cases.2
      simp
  | cons candidate rest inductionHypothesis =>
      cases limit with
      | zero =>
          cases conduct.done_cases.2
          simp
      | succ limit =>
          rw [lockCleanupTasks_eq] at conduct
          rcases conduct.perform_cases with ⟨_, impossible⟩ |
            ⟨store, answer, after, late, moves, answered, isPast, remaining⟩
          · cases impossible
          · cases seen : answer.bind fun queue => queue.findTask candidate.1.id with
            | none =>
                simp only [seen] at remaining
                exact inductionHypothesis remaining
            | some task =>
                simp only [seen] at remaining
                split at remaining
                · obtain ⟨others, between, early, more, _, first, second⟩ := remaining.bind_done
                  cases second.done_cases.2
                  refine List.forall_mem_cons.mpr ⟨?_, fun other member =>
                    second.held.subset (inductionHypothesis first other member)⟩
                  cases answered with
                  | missed missing => cases seen
                  | locked present =>
                      obtain ⟨queue, _, found⟩ := Option.bind_eq_some_iff.mp seen
                      rw [Queue.findTask_id found]
                      exact second.held.subset (first.held.subset List.mem_cons_self)
                · exact inductionHypothesis remaining

/-- The runs that a deletion takes with it are locked. -/
theorem lockCascade_locks {task : Uuid} {runs : List RunRow}
    (conduct : Amid (storage space) (upkeep space) (lockCascade runs) tx past (.done ()) last)
    (locked : .task task ∈ tx.held) (visible : ∀ run ∈ runs, run ∈ tx.queue.runsOf task) :
    ∀ run ∈ runs, .run run.id ∈ last.held := by
  induction runs generalizing tx past with
  | nil => simp
  | cons run rest inductionHypothesis =>
      rcases conduct.perform_cases with ⟨_, impossible⟩ |
        ⟨store, answer, after, late, moves, answered, isPast, remaining⟩
      · cases impossible
      · have sameRuns : (Tx.queue (tx.withCommitted store)).runsOf task = tx.queue.runsOf task :=
          congrArg Rows.runs (Tx.rowsOf_withCommitted locked moves.1)
        have stillVisible : ∀ other ∈ run :: rest,
            other ∈ (Tx.queue (tx.withCommitted store)).runsOf task := by
          rw [sameRuns]
          exact visible
        cases answered with
        | locked present =>
            refine List.forall_mem_cons.mpr ⟨?_, inductionHypothesis remaining
              (List.mem_cons_of_mem _ locked) fun other member =>
                stillVisible other (List.mem_cons_of_mem _ member)⟩
            exact remaining.held.subset List.mem_cons_self
        | missed missing =>
            have absent := missing.resolve_right (by decide)
            have inRuns := (mem_select.mp (stillVisible run List.mem_cons_self)).1
            have present : ((Tx.queue (tx.withCommitted store)).findRun run.id).isSome = true := by
              rw [Queue.findRun, isSome_find]
              exact List.any_eq_true.mpr ⟨run, inRuns, beq_self_eq_true _⟩
            exact absurd (present.symm.trans absent) (by decide)

theorem Erases.amid {α : Type} {program rest : Sql α}
    (conduct : Amid (storage space) (upkeep space) program tx past rest last)
    (issues : program.Issues fun command => ¬command.Writes)
    (erases : Erases gone tx) : Erases gone last := by
  refine ⟨(conduct.log issues).trans erases.log,
    fun task member => conduct.held.subset (erases.locked task member), ?_⟩
  intro task member run inRuns
  have sameRuns := runsOf_of_moved conduct.moves (erases.locked task member)
  rw [sameRuns] at inRuns
  exact conduct.held.subset (erases.cascade task member run inRuns)

theorem issues_lockCascade {allowed : Command RowKey Change → Prop} {runs : List RunRow}
    (locks : ∀ run ∈ runs, allowed (.lock (.run run.id) .wait)) :
    (lockCascade runs).Issues allowed := by
  induction runs with
  | nil => trivial
  | cons run rest inductionHypothesis =>
      obtain ⟨isAllowed, others⟩ := List.forall_mem_cons.mp locks
      exact ⟨isAllowed, fun _ => inductionHypothesis others⟩

/-- The runs of a locked task are locked before the task is deleted. -/
theorem Erases.cascaded {task : Uuid} {visible : Queue} (erases : Erases gone tx)
    (locked : .task task ∈ tx.held) (isVisible : visible = tx.queue)
    (conduct : Amid (storage space) (upkeep space) (lockCascade (visible.runsOf task)) tx past
      (.done ()) last) : ∀ run ∈ last.committed.runsOf task, .run run.id ∈ last.held := by
  subst isVisible
  have after := erases.amid conduct (issues_lockCascade fun _ _ => id)
  intro run inRuns
  by_cases isGone : task ∈ gone
  · exact after.cascade task isGone run inRuns
  · refine lockCascade_locks conduct locked (fun _ => id) run ?_
    have sameRuns := runsOf_of_moved conduct.moves locked
    have seen : tx.queue.runsOf task = tx.committed.runsOf task := by
      have rows := erases.rowsOf task
      rw [if_neg isGone] at rows
      exact congrArg Rows.runs rows
    rw [seen, ← sameRuns]
    exact inRuns

/-- Deleting locked tasks erases them. -/
theorem deleteTasks_erases {tasks : List Uuid}
    (conduct : Amid (storage space) (upkeep space) (deleteTasks tasks) tx past (.done ()) last)
    (erases : Erases gone tx) (locked : ∀ task ∈ tasks, .task task ∈ tx.held) :
    ∃ all, Erases all last := by
  induction tasks generalizing tx past gone with
  | nil =>
      obtain ⟨isNil, _⟩ := conduct.done_cases
      subst isNil
      obtain ⟨_, store, moves, isLast⟩ := conduct.nil_cases
      exact ⟨gone, isLast ▸ erases.moved moves⟩
  | cons task rest inductionHypothesis =>
      obtain ⟨visible, seen, _, _, _, isRead, remaining⟩ := conduct.bind_done
      obtain ⟨store, _, moves, answered, movesLater, isSeen⟩ := isRead.issue_done
      cases answered
      obtain ⟨_, between, _, _, _, cascade, deleting⟩ := remaining.bind_done
      rw [isSeen] at cascade
      have whole := Amid.moved movesLater cascade
      have erasesNow := erases.moved moves
      have lockedNow : RowKey.task task ∈ tx.held := locked task List.mem_cons_self
      have cascaded := erasesNow.cascaded lockedNow rfl whole
      have erasesBetween := erasesNow.amid whole (issues_lockCascade fun _ _ => id)
      have heldBetween : tx.held ⊆ between.held := whole.held.subset
      obtain ⟨written, after, _, _, _, isWrite, later⟩ := deleting.bind_done
      obtain ⟨met, now, movesWrite, answered, movesAfter, isAfter⟩ := isWrite.issue_done
      have erasesMet := erasesBetween.moved movesWrite
      have cascadedMet : ∀ run ∈ met.runsOf task, .run run.id ∈ between.held := by
        intro run inRuns
        have sameRuns := runsOf_of_moved movesWrite (heldBetween lockedNow)
        exact cascaded run (sameRuns ▸ inRuns)
      cases answered with
      | dropped attempted => cases attempted
      | written attempted =>
          have erasesAll : Erases (gone ++ [task]) (((between.withCommitted met).hold
              ((storage space).touches (.deleteTask task))).record (.deleteTask task)) := by
            refine ⟨?_, ?_, ?_⟩
            · change between.log ++ [Change.deleteTask task] = _
              rw [erasesBetween.log, List.map_append, List.map_singleton]
            · intro other member
              rcases List.mem_append.mp member with earlier | isTask
              · exact List.mem_cons_of_mem _ (erasesBetween.locked other earlier)
              · rw [List.mem_singleton.mp isTask]
                exact List.mem_cons_self
            · intro other member run inRuns
              rcases List.mem_append.mp member with earlier | isTask
              · exact List.mem_cons_of_mem _ (erasesMet.cascade other earlier run inRuns)
              · rw [List.mem_singleton.mp isTask] at inRuns
                exact List.mem_cons_of_mem _ (cascadedMet run inRuns)
          rw [isAfter] at later
          refine inductionHypothesis later (erasesAll.moved movesAfter) fun other member => ?_
          exact List.mem_cons_of_mem _ (heldBetween (locked other (List.mem_cons_of_mem _ member)))

theorem issues_lockCleanupTasks {allowed : Command RowKey Change → Prop}
    (locks : ∀ task, allowed (.lock (.task task) .skipLocked)) (cutoff : Timestamp)
    (candidates : List (TaskRow × Option RunRow)) (limit : Nat) :
    (lockCleanupTasks cutoff candidates limit).Issues allowed := by
  induction candidates generalizing limit with
  | nil => trivial
  | cons candidate rest inductionHypothesis =>
      cases limit with
      | zero => trivial
      | succ limit =>
          rw [lockCleanupTasks_eq]
          refine ⟨locks _, fun newest => ?_⟩
          dsimp only
          split
          · exact inductionHypothesis (limit + 1)
          · split
            · exact Program.issues_bind (inductionHypothesis limit) fun _ => Program.issues_pure _
            · exact inductionHypothesis (limit + 1)

/-- A cleanup that has returned has erased some tasks. -/
theorem cleanupTasks_erases {start : Queue} {count : Nat}
    (conduct : Amid (storage space) (upkeep space) cleanupTasks (Local.start start) past
      (.done count) last) : ∃ gone, Erases gone last := by
  obtain ⟨nowAt, first, _, _, _, isClock, conduct⟩ := conduct.bind_done
  obtain ⟨policy, second, _, _, _, isPolicy, conduct⟩ := conduct.bind_done
  obtain ⟨visible, third, _, _, _, isVisible, conduct⟩ := conduct.bind_done
  obtain ⟨selected, fourth, _, _, _, isSelected, conduct⟩ := conduct.bind_done
  obtain ⟨_, fifth, _, _, _, isDeleted, returned⟩ := conduct.bind_done
  obtain ⟨isNil, _⟩ := returned.done_cases
  subst isNil
  obtain ⟨_, store, moves, isLast⟩ := returned.nil_cases
  have blank : Erases [] (Local.start start : Tx) :=
    ⟨rfl, by simp, by simp⟩
  have erasesClock := blank.amid isClock ⟨id, fun _ => trivial⟩
  have erasesPolicy := erasesClock.amid isPolicy ⟨id, fun _ => trivial⟩
  have erasesVisible := erasesPolicy.amid isVisible ⟨id, fun _ => trivial⟩
  have erasesSelected := erasesVisible.amid isSelected (issues_lockCleanupTasks (fun _ => id) _ _ _)
  obtain ⟨gone, erases⟩ :=
    deleteTasks_erases isDeleted erasesSelected (lockCleanupTasks_locks isSelected)
  exact ⟨gone, isLast ▸ erases.moved moves⟩

end Cleanup

/-! ## Coherence -/

/-- A call of the upkeep that is no cleanup contends. -/
theorem Operation.Upkeeps.contends {operation : Operation} (upkeeps : operation.Upkeeps)
    (different : operation ≠ .cleanupTasks) : operation.Contends := by
  cases operation with
  | cleanupTasks => exact absurd rfl different
  | spawnTask taskName params options => cases upkeeps
  | _ => trivial

/-- The calls of the upkeep keep to its rules. -/
theorem discipline_upkeep :
    Discipline (storage space) (upkeep space) (Upkeeping space) (Queue.Sound space) where
  commits := by
    rintro script start past value tx ⟨operation, upkeeps, isScript⟩ sound conduct covered
      committed
    subst isScript
    by_cases isCleanup : operation = .cleanupTasks
    · subst isCleanup
      obtain ⟨count, between, _, _, _, cleaned, returned⟩ := conduct.bind_done
      obtain ⟨isNil, _⟩ := returned.done_cases
      subst isNil
      obtain ⟨_, store, moves, isLast⟩ := returned.nil_cases
      obtain ⟨gone, erases⟩ := cleanupTasks_erases cleaned
      rw [isLast] at committed ⊢
      exact (erases.moved moves).upkeeps committed
    · have contends := upkeeps.contends isCleanup
      obtain ⟨isOperation, events, concluded⟩ := contends.concluded sound
        (conduct.weaken fun _ _ _ moved => upkeep_interference moved)
      exact contends.upkeeps isOperation concluded covered committed

/-- A run of the upkeep from a sound queue. -/
def Upkept (space : Char → Bool) (store : Queue) (labels : List Contest.Move)
    (contest : Contest) : Prop :=
  store.Sound space ∧ (∀ script, .start script ∈ labels → Upkeeping space script) ∧
    Trace (System.Steps (storage space)) (System.idle store) labels contest

/-- In every state the upkeep reaches, the committed queue is sound, each call
has been conducted amid permitted commits, and no row is locked twice. -/
theorem Upkept.coherent {store : Queue} {labels : List Contest.Move} {contest : Contest}
    (upkept : Upkept space store labels contest) :
    contest.Coherent (storage space) (upkeep space) (Upkeeping space) (Queue.Sound space) :=
  (System.coherent_idle upkept.1).run discipline_upkeep upkept.2.1 upkept.2.2

end Steda
