import Steda.Functions.QueuePolicy
import Steda.Laws.ExactSweeps
import Steda.Serial.Retention

/-!
# Exact retention

Every terminal task has a terminal time, so a cleanup deletes exactly the first
eligible tasks, and no terminal task outlives repeated cleanups.
-/

namespace Steda

open Postgres Transaction Relational

variable {space : Char → Bool} {life : Life} {queue : Queue} {world : World} {time : Timestamp}

/-! ## Managed queues -/

/-- A call of the queue or of its policy. -/
inductive ManagedStep
  | call (call : Call)
  | setQueuePolicy (requestedCleanupTtlSeconds requestedCleanupLimit : Option Int)

/-- A step takes the queue from one state to the next.  A refused policy changes
nothing. -/
def Managed (space : Char → Bool) (before : World) : ManagedStep → World → Prop
  | .call call, after => Served space before call after
  | .setQueuePolicy requestedCleanupTtlSeconds requestedCleanupLimit, after =>
      after = match setQueuePolicy requestedCleanupTtlSeconds requestedCleanupLimit
          before.store with
        | .ok changed => before.withStore changed
        | .error _ => before

/-- Calls and changes of the policy from the creation of a queue on. -/
structure ManagedHistory (space : Char → Bool) (initial : World) (steps : List ManagedStep)
    (final : World) : Prop where
  created : initial.store = createdQueue
  fresh : Function.Injective initial.idents
  trace : Trace (Managed space) initial steps final

/-- The lives of a queue depend only on its tables. -/
theorem Queue.Sound.of_tables {changed : Queue} (sound : queue.Sound space)
    (tasks : changed.tasks = queue.tasks) (runs : changed.runs = queue.runs) :
    changed.Sound space := by
  obtain ⟨keyed, lives⟩ := sound
  refine ⟨⟨tasks ▸ keyed.tasks, runs ▸ keyed.runs, tasks ▸ keyed.keys⟩, fun task => ?_⟩
  have same : changed.rowsOf task = queue.rowsOf task := by
    simp only [Queue.rowsOf, Queue.findTask, Queue.runsOf, tasks, runs]
  rw [same]
  exact lives task

/-! ## Terminal times -/

/-- Every path into a terminal state has stamped the column of that state. -/
theorem Life.Valid.terminalAt_isSome (valid : life.Valid space)
    (terminal : life.task.state.terminal = true) :
    ∃ time, terminalAt life.task (some life.last) = some time := by
  have checked := RunRow.check_ok.mp (valid.runsChecked _ life.last_mem_runs)
  unfold terminalAt
  cases state : life.task.state with
  | pending | running | sleeping =>
      rw [state] at terminal
      cases terminal
  | completed =>
      rcases valid.agrees with same | ⟨cancelled, _⟩
      · exact Option.isSome_iff_exists.mp (checked.2.1 (same.symm.trans state)).1
      · rw [state] at cancelled
        cases cancelled
  | failed =>
      rcases valid.agrees with same | ⟨cancelled, _⟩
      · exact Option.isSome_iff_exists.mp (checked.2.2.1 (same.symm.trans state)).1
      · rw [state] at cancelled
        cases cancelled
  | cancelled =>
      exact Option.isSome_iff_exists.mp ((TaskRow.check_ok.mp valid.taskChecked).2.2 state)

/-- A life that ended at or before the cutoff. -/
def Life.EndedBy (cutoff : Timestamp) (life : Life) : Prop :=
  life.task.state.terminal = true ∧
    ∃ time, terminalAt life.task (some life.last) = some time ∧ time ≤ cutoff

theorem cleanupCandidate_iff :
    cleanupCandidate time life.task (some life.last) = true ↔ life.EndedBy time := by
  unfold cleanupCandidate Life.EndedBy
  rw [Bool.and_eq_true]
  refine and_congr_right fun _ => ?_
  cases terminalAt life.task (some life.last) <;> simp

/-- The eligible tasks are those whose life ended by the cutoff. -/
theorem Queue.Sound.mem_eligibleIds (sound : queue.Sound space) {task : Uuid} :
    task ∈ queue.eligibleIds time ↔
      ∃ life, queue.Shows space life ∧ life.task.id = task ∧ life.EndedBy time := by
  constructor
  · intro member
    obtain ⟨pair, inEligible, isTask⟩ := List.mem_map.mp member
    obtain ⟨inTasks, isRun, passes⟩ := Queue.mem_eligible.mp inEligible
    obtain ⟨life, isRow, _, shows_⟩ :=
      sound.shows_of_findTask (sound.keyed.findTask_of_mem inTasks)
    rw [isRun, ← isRow, shows_.valid.pointed, shows_.findRun life.last_mem_runs] at passes
    exact ⟨life, shows_, isRow ▸ isTask, cleanupCandidate_iff.mp passes⟩
  · rintro ⟨life, shows_, isTask, ended⟩
    refine List.mem_map.mpr ⟨(life.task, some life.last), ?_, isTask⟩
    refine Queue.mem_eligible.mpr ⟨mem_of_find shows_.findTask, ?_, cleanupCandidate_iff.mpr ended⟩
    rw [shows_.valid.pointed, shows_.findRun life.last_mem_runs]

instance : Std.Total terminalOrder where
  total left right := by
    unfold terminalOrder
    rcases lt_trichotomy ((terminalAt left.1 left.2).getD 0)
      ((terminalAt right.1 right.2).getD 0) with earlier | same | later
    · exact Or.inl (Or.inl earlier)
    · rcases le_total left.1.id right.1.id with smaller | greater
      · exact Or.inl (Or.inr ⟨same, smaller⟩)
      · exact Or.inr (Or.inr ⟨same.symm, greater⟩)
    · exact Or.inr (Or.inl later)

instance : IsTrans (TaskRow × Option RunRow) terminalOrder where
  trans first second third := by
    unfold terminalOrder
    rintro (earlier | ⟨same, smaller⟩) (earlierToo | ⟨sameToo, smallerToo⟩)
    · exact Or.inl (earlier.trans earlierToo)
    · exact Or.inl (sameToo ▸ earlier)
    · exact Or.inl (same ▸ earlierToo)
    · exact Or.inr ⟨same.trans sameToo, smaller.trans smallerToo⟩

/-! ## One pass -/

theorem Queue.Shows.without {ids : List Uuid} (shows_ : queue.Shows space life)
    (kept : life.task.id ∉ ids) (sound : (queue.without ids).Sound space) :
    (queue.without ids).Shows space life :=
  ⟨sound.keyed, shows_.valid, by rw [Queue.rowsOf_without, if_neg kept, shows_.rows]⟩

theorem Queue.Shows.of_without {ids : List Uuid} (shows_ : (queue.without ids).Shows space life)
    (sound : queue.Sound space) : queue.Shows space life ∧ life.task.id ∉ ids := by
  have rows := shows_.rows
  rw [Queue.rowsOf_without] at rows
  by_cases deleted : life.task.id ∈ ids
  · rw [if_pos deleted] at rows
    cases congrArg Rows.task rows
  · rw [if_neg deleted] at rows
    exact ⟨⟨sound.keyed, shows_.valid, rows⟩, deleted⟩

/-- The retention of a task that ended at or before the cutoff is over. -/
def World.cutoff (world : World) : Timestamp := world.clock 0 - world.store.cleanupTtl

/-- What a pass that starts now deletes. -/
def World.cleaned (world : World) : List Uuid :=
  (world.store.eligibleIds world.cutoff).take world.store.cleanupLimit

/-- A pass deletes exactly the chosen tasks and returns their number. -/
theorem World.Ready.cleanup (ready : world.Ready space) :
    Operation.cleanupTasks.perform space world =
        (.ok (min world.store.cleanupLimit
            (world.store.eligibleIds world.cutoff).length),
          world.tick.withStore (world.store.without world.cleaned)) ∧
      World.Ready space (world.tick.withStore (world.store.without world.cleaned)) := by
  have performed := Operation.cleanupTasks.perform_returned ready.sound
    (alone_cleanupTasks ready.sound.keyed)
  have served : Served space world ⟨.cleanupTasks, _⟩ _ := performed
  exact ⟨performed, (served.ready ready).1⟩

/-- A pass that stays below its limit leaves no eligible task. -/
theorem World.Ready.eligibleIds_cleaned (ready : world.Ready space)
    (below : min world.store.cleanupLimit (world.store.eligibleIds world.cutoff).length <
      world.store.cleanupLimit) :
    (world.store.without world.cleaned).eligibleIds world.cutoff = [] := by
  have sound := ready.cleanup.2.sound
  have all : world.cleaned = world.store.eligibleIds world.cutoff := by
    refine List.take_of_length_le ?_
    omega
  refine List.eq_nil_iff_forall_not_mem.mpr fun task member => ?_
  obtain ⟨life, shows_, isTask, ended⟩ := (Queue.Sound.mem_eligibleIds sound).mp member
  obtain ⟨showsBefore, kept⟩ := shows_.of_without ready.sound
  refine kept ?_
  rw [all]
  exact ready.sound.mem_eligibleIds.mpr ⟨life, showsBefore, rfl, ended⟩

/-! ## Repeated passes -/

/-- A deleted task stays deleted. -/
theorem World.Ready.cleanups_absent (ready : world.Ready space) {task : Uuid}
    (absent : world.store.rowsOf task = Life.rows none) (rounds : Nat) :
    (World.serve space (List.replicate rounds .cleanupTasks) world).2.store.rowsOf task =
      Life.rows none := by
  induction rounds generalizing world with
  | zero => exact absent
  | succ rounds inductionHypothesis =>
      obtain ⟨performed, readyAfter⟩ := ready.cleanup
      rw [List.replicate_succ, World.serve, performed]
      refine inductionHypothesis readyAfter ?_
      change (world.store.without world.cleaned).rowsOf task = _
      rw [Queue.rowsOf_without, absent]
      exact ite_self _

/-- A pass with an eligible task deletes a task. -/
theorem World.Ready.length_cleaned (ready : world.Ready space)
    (limited : 1 ≤ world.store.cleanupLimit) {task : Uuid}
    (eligible : task ∈ world.store.eligibleIds world.cutoff) :
    (world.store.without world.cleaned).tasks.length < world.store.tasks.length := by
  obtain ⟨first, rest, isList⟩ := List.exists_cons_of_ne_nil (List.ne_nil_of_mem eligible)
  have chosen : first ∈ world.cleaned := by
    obtain ⟨limit, isLimit⟩ := Nat.exists_eq_add_of_le' limited
    rw [World.cleaned, isList, isLimit]
    exact List.mem_cons_self
  obtain ⟨life, shows_, isFirst, _⟩ :=
    ready.sound.mem_eligibleIds.mp (isList ▸ (List.mem_cons_self : first ∈ first :: rest))
  have inTasks := mem_of_find shows_.findTask
  refine lt_of_le_of_ne (List.length_filter_le _ _) fun same => ?_
  have kept := List.length_filter_eq_length_iff.mp same life.task inTasks
  rw [isFirst] at kept
  exact of_decide_eq_true kept chosen

/-- A terminal task is deleted by as many passes as there are tasks, once its
retention is over. -/
theorem World.Ready.cleanups_delete (ready : world.Ready space)
    (limited : 1 ≤ world.store.cleanupLimit) (shows_ : world.store.Shows space life)
    (ended : ∀ position, life.EndedBy (world.clock position - world.store.cleanupTtl))
    {rounds : Nat} (enough : world.store.tasks.length ≤ rounds) :
    (World.serve space (List.replicate rounds .cleanupTasks) world).2.store.rowsOf
      life.task.id = Life.rows none := by
  induction rounds generalizing world with
  | zero =>
      have inTasks := mem_of_find shows_.findTask
      rw [List.length_eq_zero_iff.mp (Nat.le_zero.mp enough)] at inTasks
      cases inTasks
  | succ rounds inductionHypothesis =>
      obtain ⟨performed, readyAfter⟩ := ready.cleanup
      have fewer := ready.length_cleaned limited
        (ready.sound.mem_eligibleIds.mpr ⟨life, shows_, rfl, ended 0⟩)
      rw [List.replicate_succ, World.serve, performed]
      by_cases chosen : life.task.id ∈ world.cleaned
      · refine readyAfter.cleanups_absent ?_ rounds
        change (world.store.without world.cleaned).rowsOf life.task.id = _
        rw [Queue.rowsOf_without, if_pos chosen]
      · refine inductionHypothesis readyAfter limited (shows_.without chosen readyAfter.sound)
          (fun position => ended (position + 1)) ?_
        change (world.store.without world.cleaned).tasks.length ≤ rounds
        omega

/-! ## The law -/

theorem Queue.SamePolicy.checked {changed : Queue} (same : queue.SamePolicy changed)
    (checked : queue.PolicyChecked) : changed.PolicyChecked :=
  ⟨same.1 ▸ checked.cleanupTtl, same.2 ▸ checked.cleanupLimit⟩

/-- A call leaves the queue as it was or as its stored function leaves it. -/
theorem Served.store_cases {before after : World} {call : Call}
    (served : Served space before call after) (sound : before.store.Sound space) :
    after.store = before.store ∨
      after.store = (alone space (call.operation.program space) before).2.store := by
  have performed := call.operation.perform_eq sound
  rw [show call.operation.perform space before = (call.outcome, after) from served] at performed
  rcases ran : alone space (call.operation.program space) before with ⟨error | result, reached⟩
  · rw [ran] at performed
    exact Or.inl (by rw [(Prod.mk.inj performed).2]; rfl)
  · rw [ran] at performed
    exact Or.inr (by rw [(Prod.mk.inj performed).2])

/-- A call leaves the policy alone. -/
theorem Served.samePolicy {before after : World} {call : Call}
    (served : Served space before call after) (sound : before.store.Sound space) :
    before.store.SamePolicy after.store := by
  rcases served.store_cases sound with same | ran
  · rw [same]
    exact ⟨rfl, rfl⟩
  · rw [ran]
    exact samePolicy_alone _ before

/-- The identifiers to come stay unused, and the policy passes its checks. -/
theorem Managed.ready {before after : World} {step : ManagedStep}
    (managed : Managed space before step after)
    (now : before.Ready space ∧ before.store.PolicyChecked) :
    after.Ready space ∧ after.store.PolicyChecked := by
  obtain ⟨ready, checked⟩ := now
  cases step with
  | call call => exact ⟨(Served.ready managed ready).1, (managed.samePolicy ready.sound).checked checked⟩
  | setQueuePolicy requestedCleanupTtlSeconds requestedCleanupLimit =>
      rw [show after = _ from managed]
      cases set : setQueuePolicy requestedCleanupTtlSeconds requestedCleanupLimit before.store with
      | error error => exact ⟨ready, checked⟩
      | ok changed =>
          obtain ⟨policy, tasks, runs, _⟩ := setQueuePolicy_ok set
          refine ⟨⟨ready.sound.of_tables tasks runs, ready.distinct, fun position => ?_⟩, policy⟩
          have unused := ready.unused position
          simp only [Queue.findRun] at unused ⊢
          rw [show (before.withStore changed).store.runs = _ from runs]
          exact unused

/-- What a pass does in a state, and what repeated passes do. -/
structure RetainsExactly (space : Char → Bool) (world : World) : Prop where
  eligible : ∀ task, task ∈ world.store.eligibleIds world.cutoff ↔
    ∃ life, world.store.Shows space life ∧ life.task.id = task ∧
      life.EndedBy world.cutoff
  distinct : (world.store.eligibleIds world.cutoff).Nodup
  ordered : (world.store.eligible world.cutoff).Pairwise terminalOrder
  pass : ∃ after, Served space world ⟨.cleanupTasks, .ok (min world.store.cleanupLimit
      (world.store.eligibleIds world.cutoff).length)⟩ after ∧
    after.store = world.store.without world.cleaned
  complete : ∀ count after, Served space world ⟨.cleanupTasks, .ok count⟩ after →
    count < world.store.cleanupLimit →
      after.store.eligibleIds world.cutoff = []
  timed : ∀ life, world.store.Shows space life → life.task.state.terminal = true →
    ∃ time, terminalAt life.task (some life.last) = some time ∧
      ((∀ position, time ≤ world.clock position - world.store.cleanupTtl) →
        (World.serve space (List.replicate world.store.tasks.length .cleanupTasks)
          world).2.store.rowsOf life.task.id = Life.rows none)

namespace ManagedHistory

variable {initial reached : World} {steps : List ManagedStep}

theorem ready (managed : ManagedHistory space initial steps reached) :
    reached.Ready space ∧ reached.store.PolicyChecked := by
  refine managed.trace.invariant (fun _ _ _ => Managed.ready) ⟨⟨?_, managed.fresh, ?_⟩, ?_⟩
  · rw [managed.created]
    exact Queue.sound_empty space _ _
  · intro position
    rw [managed.created]
    rfl
  · rw [managed.created]
    exact createdQueue_policyChecked

/-- In every state of a managed queue a cleanup deletes exactly the first
eligible tasks with their runs and checkpoints, and a terminal task whose
retention is over is deleted by repeated cleanups. -/
theorem retention_exact (managed : ManagedHistory space initial steps reached) :
    RetainsExactly space reached := by
  obtain ⟨ready, checked⟩ := managed.ready
  obtain ⟨performed, readyAfter⟩ := ready.cleanup
  refine ⟨fun _ => ready.sound.mem_eligibleIds, ready.sound.keyed.eligibleIds_nodup _,
    List.pairwise_insertionSort _ _, ⟨_, performed, rfl⟩, ?_, ?_⟩
  · intro count after served below
    obtain ⟨isCount, isAfter⟩ := Prod.mk.inj (performed.symm.trans served)
    rw [← isAfter]
    rw [← Except.ok.inj isCount] at below
    exact ready.eligibleIds_cleaned below
  · intro life shows_ terminal
    obtain ⟨time, isTime⟩ := shows_.valid.terminalAt_isSome terminal
    refine ⟨time, isTime, fun elapsed => ?_⟩
    exact ready.cleanups_delete checked.cleanupLimit shows_
      (fun position => ⟨terminal, time, isTime, elapsed position⟩) le_rfl

end ManagedHistory

/-- A world whose queue has just been created. -/
def World.created (tick : Int) : World := { World.blank tick with store := createdQueue }

/-- Calls of a managed queue. -/
theorem World.managed_serve (operations : List Operation) (world : World) :
    Trace (Managed space) world ((World.serve space operations world).1.map ManagedStep.call)
      (World.serve space operations world).2 := by
  induction operations generalizing world with
  | nil => exact .nil world
  | cons operation rest inductionHypothesis =>
      exact .cons (rfl : operation.perform space world = _) (inductionHypothesis _)

/-- A cancelled task under a policy that keeps nothing. -/
theorem ManagedHistory.retention_exact_cancelled :
    let served := World.serve asciiSpace [plainSubmission [], .cancelTask 0] (.created second)
    served.2.store.tasks.map TaskRow.state = [.cancelled] ∧
      ∃ changed, setQueuePolicy (some 0) (some 1) served.2.store = .ok changed ∧
        changed.eligibleIds (served.2.clock 0) = [0] ∧
        RetainsExactly asciiSpace (served.2.withStore changed) := by
  intro served
  refine ⟨rfl, _, rfl, rfl, ?_⟩
  have managed : ManagedHistory asciiSpace (.created second)
      (served.1.map ManagedStep.call ++ [.setQueuePolicy (some 0) (some 1)])
      (served.2.withStore _) :=
    ⟨rfl, fun _ _ same => same, (World.managed_serve _ _).append (.cons rfl (.nil _))⟩
  exact managed.retention_exact

end Steda
