import Steda.Serial.Calls
import Steda.Serial.Sweeps
import Steda.Laws.TaskInvariant

/-!
# Noticing an expiry

A due deadline and an expired lease may be noticed by the worker's own calls,
by supervision or by a sweep.  At one and the same time all of them leave the
same rows, up to the identifier of a new run, and the two sweeps commute.
-/

namespace Steda

open Postgres Transaction Relational

variable {space : Char → Bool} {life : Life} {world : World} {time : Timestamp}

/-! ## Outcomes for one task -/

/-- A call returns after one transition of a task. -/
def Operation.Transitions (space : Char → Bool) (operation : Operation) (world : World)
    (life : Life) (transition : Transition) : Prop :=
  ∃ result after, operation.perform space world = (.ok result, after) ∧
    after.store.rowsOf life.task.id = Life.rows (some (transition.after life)) ∧
    after.store.checkpoints = world.store.checkpoints

/-- A stored function that writes one transition. -/
theorem Operation.transitions_of_write {operation : Operation} {after : World}
    {result : operation.Result} {transition : Transition} (ready : world.Ready space)
    (shows_ : world.store.Shows space life) (enabled : transition.Enabled space life)
    (fresh : transition.Fresh world.store)
    (returned : alone space (operation.program space) world = (.ok result, after))
    (written : after.store = transition.write life world.store) :
    operation.Transitions space world life transition := by
  refine ⟨result, after, Operation.perform_returned ready.sound returned, ?_, ?_⟩
  · have rows := (shows_.write enabled fresh).rows
    rwa [Transition.after_id, ← written] at rows
  · rw [written, Transition.write_checkpoints]

/-! ## Due deadlines -/

/-- The calls that notice the due deadline of a task whose last run holds its
lease. -/
inductive Operation.NoticesDeadline (space : Char → Bool) (world : World) (life : Life)
    (time : Timestamp) : Operation → Prop
  | completeRun (result : Option Json) :
      NoticesDeadline space world life time (.completeRun life.last.id result)
  | failRun (reason : Option Json) :
      NoticesDeadline space world life time (.failRun life.last.id reason (some false))
  | scheduleRun (wakeAt : Option Timestamptz) :
      NoticesDeadline space world life time (.scheduleRun life.last.id wakeAt)
  | superviseRun (renewForSeconds : Option Int) (positive : RenewsPositively renewForSeconds) :
      NoticesDeadline space world life time (.superviseRun life.last.id renewForSeconds)
  | cancelExpiredTasks (limit : Int) (count : Nat)
      (returned : (Operation.cancelExpiredTasks (some limit)).answer space world = .ok count)
      (reached : life.task ∈ (world.store.dueTasks time).take limit.toNat) :
      NoticesDeadline space world life time (.cancelExpiredTasks (some limit))

theorem positive_of_mem_take {α : Type} {value : α} {values : List α} {limit : Int}
    (member : value ∈ values.take limit.toNat) : 0 < limit := by
  by_contra notPositive
  rw [Int.toNat_of_nonpos (not_lt.mp notPositive), List.take_zero] at member
  cases member

/-- Whoever notices a due deadline cancels the task. -/
theorem Operation.NoticesDeadline.cancels {operation : Operation}
    (notices : operation.NoticesDeadline space world life time) (ready : world.Ready space)
    (frozen : world.Frozen time) (shows_ : world.store.Shows space life)
    (running : life.last.state = .running) (leased : expiredAt time life.last = false)
    (isDue : life.task.due (some time) = .ok true) :
    operation.Transitions space world life (.cancel time) := by
  have passes : life.last.gate (world.clock 0) = .ok () := by
    rw [frozen 0]
    simp [RunRow.gate, running, leased]
  have isRunning : Transition.Running life.last.id life := ⟨rfl, running⟩
  have enabled : (Transition.cancel time).Enabled space life := by
    change life.task.state.terminal = false
    rw [isRunning.task_state shows_.valid]
    rfl
  have fresh : (Transition.cancel time).Fresh world.store := fun _ impossible => by cases impossible
  have dueNow : life.task.due (some (world.clock 0)) = .ok true := by rw [frozen 0, isDue]
  have passed := alone_gate_passed shows_ passes
  have written : (Session.withStore (world.tick.tick) ((Transition.cancel (world.clock 1)).write life
      world.store)).store = (Transition.cancel time).write life world.store := by
    rw [frozen 1]
    rfl
  have dueBy : ∀ wakeAt : Option Timestamptz, (AttemptContext.ofRows life.last life.task
      (world.clock 0)).dueBy wakeAt = .ok true := by
    intro wakeAt
    change life.task.dueBy (world.clock 0) wakeAt = .ok true
    unfold TaskRow.dueBy
    rw [dueNow]
    rfl
  cases notices with
  | completeRun result =>
      have returned := alone_unlessDue shows_ passed running
        (fun context => context.due context.observedAt) false fun context => do
        updateRun life.last.id fun run => run.complete context.observedAt result
        updateTask context.taskId fun task =>
          { task with state := .completed, lastAttemptRun := life.last.id }
        return true
      simp only [AttemptContext.due_ofRows, AttemptContext.observedAt_ofRows, dueNow] at returned
      exact Operation.transitions_of_write ready shows_ enabled fresh returned written
  | failRun reason =>
      have returned := alone_unlessDue shows_ passed running
        (fun context => context.due context.observedAt) () (failInTime life.last.id reason)
      simp only [AttemptContext.due_ofRows, AttemptContext.observedAt_ofRows, dueNow] at returned
      exact Operation.transitions_of_write ready shows_ enabled fresh returned written
  | scheduleRun wakeAt =>
      have returned : alone space (Steda.scheduleRun life.last.id wakeAt) world = _ :=
        alone_unlessDue shows_ passed running (fun context => context.dueBy wakeAt)
          ScheduleOutcome.cancelled _
      simp only [dueBy] at returned
      exact Operation.transitions_of_write ready shows_ enabled fresh returned written
  | superviseRun renewForSeconds positive =>
      have notCancelled : ¬(life.task.state = .cancelled ∨ life.last.state = .cancelled) := by
        rw [isRunning.task_state shows_.valid, running]
        decide
      have ticked : world.tick.store.Shows space life := shows_
      have returned := alone_superviseRun shows_ life.last_mem_runs positive
      rw [if_neg notCancelled] at returned
      simp only [running] at returned
      rw [alone_superviseRunning ticked running, dueNow] at returned
      exact Operation.transitions_of_write ready shows_ enabled fresh returned written
  | cancelExpiredTasks limit count returned reached =>
      rw [Operation.answer_eq _ ready.sound] at returned
      rcases alone_cancelExpiredTasks ready (positive_of_mem_take reached) with
        ⟨_, error, _, _, _, raised⟩ | ⟨_, moves, after, swept, sweeps, cancels⟩
      · exact absurd (returned.symm.trans raised) (by simp)
      · have inSweep : life.task.id ∈ ((world.store.dueTasks (world.clock 0)).take
            limit.toNat).map TaskRow.id := by
          rw [frozen 0]
          exact List.mem_map_of_mem reached
        obtain ⟨position, chosen⟩ := cancels.chosen _ inSweep
        refine ⟨_, after, Operation.perform_returned ready.sound swept, ?_, sweeps.moved.checkpoints⟩
        rw [sweeps.moved.rows life shows_, Life.moved_of_some chosen, Session.tick_clock, frozen]

/-! ## Expired leases -/

/-- What reaping a task does when the clock stands still. -/
def Life.reaped (life : Life) (time : Timestamp) (newRun : Uuid) : Except SqlError Transition :=
  life.failure time time (life.expiryReason time) newRun

theorem Life.ReapsTo.reaped {outcome : Except SqlError Transition}
    (reaps : life.ReapsTo world outcome) (frozen : world.Frozen time) :
    ∃ position, life.reaped time (world.idents position) = outcome := by
  obtain ⟨observed, cancelled, reasoned, drawn, fails⟩ := reaps
  rw [frozen, frozen, frozen] at fails
  exact ⟨drawn, fails⟩

/-- Another name for the last run of a life. -/
def Life.renameLast (life : Life) (id : Uuid) : Life where
  task := { life.task with lastAttemptRun := id }
  history := life.history
  last := { life.last with id := id }

/-- Two lives are the same, or the same up to the name of their last run, which
a queue does not have. -/
def Life.SameUpToNew (before : Queue) (left right : Life) : Prop :=
  left = right ∨ (before.findRun left.last.id = none ∧ before.findRun right.last.id = none ∧
    left.renameLast right.last.id = right)

theorem Life.SameUpToNew.refl (before : Queue) (life : Life) : life.SameUpToNew before life :=
  Or.inl rfl

/-- The new identifier decides nothing. -/
theorem Life.failure_newRun {observedAt nowAt : Timestamp} {reason : Json} {newRun : Uuid}
    (other : Uuid) :
    (∀ error, life.failure observedAt nowAt reason newRun = .error error →
      life.failure observedAt nowAt reason other = .error error) ∧
    ∀ transition, life.failure observedAt nowAt reason newRun = .ok transition →
      ∃ renamed, life.failure observedAt nowAt reason other = .ok renamed ∧
        (transition = renamed ∨ ((transition.after life).last.id = newRun ∧
          (renamed.after life).last.id = other ∧
          (transition.after life).renameLast other = renamed.after life)) := by
  unfold failure
  rcases life.task.due (some observedAt) with error | (_ | _)
  · exact ⟨fun _ same => same, fun _ impossible => by cases impossible⟩
  · unfold failureInTime
    rcases integerSucc life.last.attempt with error | next
    · exact ⟨fun _ same => same, fun _ impossible => by cases impossible⟩
    by_cases left : retriesLeft (.ofRows life.last life.task observedAt) next = true
    · simp only [left, if_true]
      rcases nextAvailableAt (.ofRows life.last life.task observedAt) with error | availableAt
      · exact ⟨fun _ same => same, fun _ impossible => by cases impossible⟩
      simp only
      rcases life.task.due (some availableAt) with error | (_ | _)
      · exact ⟨fun _ same => same, fun _ impossible => by cases impossible⟩
      · refine ⟨fun _ impossible => (nomatch impossible), fun transition isRetry => ?_⟩
        cases isRetry
        exact ⟨_, rfl, Or.inr ⟨rfl, rfl, rfl⟩⟩
      · exact ⟨fun _ same => same, fun transition same => ⟨transition, same, Or.inl rfl⟩⟩
    · simp only [left]
      exact ⟨fun _ same => same, fun transition same => ⟨transition, same, Or.inl rfl⟩⟩
  · exact ⟨fun _ same => same, fun transition same => ⟨transition, same, Or.inl rfl⟩⟩

/-- Two names for a new run give the same life up to the name. -/
theorem Life.sameUpToNew_of_reaped {before : Queue} {newRun other : Uuid}
    {transition renamed : Transition} (unused : before.findRun newRun = none)
    (unusedToo : before.findRun other = none)
    (reaps : life.reaped time newRun = .ok transition)
    (reapsToo : life.reaped time other = .ok renamed) :
    (transition.after life).SameUpToNew before (renamed.after life) := by
  obtain ⟨found, isFound, same | ⟨isNew, isOther, renames⟩⟩ :=
    (Life.failure_newRun other).2 transition reaps
  · rw [same, Except.ok.inj (isFound.symm.trans reapsToo)]
    exact SameUpToNew.refl before _
  · cases Except.ok.inj (isFound.symm.trans reapsToo)
    refine Or.inr ⟨by rw [isNew, unused], by rw [isOther, unusedToo], ?_⟩
    rw [isOther, renames]

/-- The calls that notice the expired lease of a run. -/
inductive Operation.NoticesExpiry (space : Char → Bool) (world : World) (life : Life)
    (time : Timestamp) : Operation → Prop
  | superviseRun (renewForSeconds : Option Int) (positive : RenewsPositively renewForSeconds) :
      NoticesExpiry space world life time (.superviseRun life.last.id renewForSeconds)
  | reapExpiredRun : NoticesExpiry space world life time (.reapExpiredRun life.last.id)
  | reapExpiredRuns (limit : Int) (count : Nat)
      (returned : (Operation.reapExpiredRuns (some limit)).answer space world = .ok count)
      (reached : life.last ∈ (world.store.expiredRuns time).take limit.toNat) :
      NoticesExpiry space world life time (.reapExpiredRuns (some limit))

theorem World.Frozen.steady (frozen : world.Frozen time) : world.Steady := by
  intro run expired position
  rw [frozen] at expired ⊢
  exact expired

/-- Whoever notices an expired lease fails the attempt, or raises what its
failure raises. -/
theorem Operation.NoticesExpiry.fails {operation : Operation}
    (notices : operation.NoticesExpiry space world life time) (ready : world.Ready space)
    (frozen : world.Frozen time) (shows_ : world.store.Shows space life)
    (expired : expiredAt time life.last = true) :
    (∃ error newRun, life.reaped time newRun = .error error ∧
      operation.answer space world = .error error) ∨
    ∃ transition newRun, world.store.findRun newRun = none ∧
      life.reaped time newRun = .ok transition ∧
      operation.Transitions space world life transition := by
  have expires : ∀ {later : World}, later.Frozen time → later.Expires life.last := by
    intro later stands position
    rw [stands]
    exact expired
  have running := running_of_expiredAt expired
  cases notices with
  | reapExpiredRun =>
      rcases ready.reap shows_ (expires frozen) with ⟨error, raised, reaps⟩ |
        ⟨transition, after, returned, reaps, sweeps⟩
      · obtain ⟨position, fails⟩ := reaps.reaped frozen
        refine Or.inl ⟨error, _, fails, ?_⟩
        rw [Operation.answer_eq _ ready.sound]
        exact raised
      · obtain ⟨position, fails⟩ := reaps.reaped frozen
        refine Or.inr ⟨transition, _, ready.unused position, fails, _, after,
          Operation.perform_returned ready.sound returned, ?_, sweeps.moved.checkpoints⟩
        rw [sweeps.moved.rows life shows_, Life.moved_of_some (Moves.single_self _ _)]
  | superviseRun renewForSeconds positive =>
      have isRunning : Transition.Running life.last.id life := ⟨rfl, running⟩
      have notCancelled : ¬(life.task.state = .cancelled ∨ life.last.state = .cancelled) := by
        rw [isRunning.task_state shows_.valid, running]
        decide
      have ticked : world.tick.store.Shows space life := shows_
      have supervised := alone_superviseRun shows_ life.last_mem_runs positive
      rw [if_neg notCancelled] at supervised
      simp only [running] at supervised
      rw [alone_superviseRunning ticked running, frozen 0] at supervised
      cases due : life.task.due (some time) with
      | error error =>
          have fails : life.reaped time 0 = .error error := by
            rw [Life.reaped, Life.failure, due]
          rw [due] at supervised
          refine Or.inl ⟨error, 0, fails, ?_⟩
          rw [Operation.answer_eq _ ready.sound]
          exact congrArg Prod.fst supervised
      | ok isDue =>
          cases isDue with
          | true =>
              have fails : life.reaped time (world.idents 0) = .ok (.cancel time) := by
                rw [Life.reaped, Life.failure, due]
              have enabled : (Transition.cancel time).Enabled space life :=
                Life.failure_enabled running shows_.valid fails
              rw [due] at supervised
              refine Or.inr ⟨_, _, ready.unused 0, fails, ?_⟩
              refine Operation.transitions_of_write ready shows_ enabled
                (fun _ impossible => nomatch impossible) supervised ?_
              rw [Session.withStore_store, Session.tick_clock, frozen]
              rfl
          | false =>
              rw [due] at supervised
              have isReap := @alone_superviseInTime_expired space life world.tick
                renewForSeconds time expired
              have stands := frozen.later (World.Later.tick world)
              rcases ready.tick.reap ticked (expires stands) with ⟨error, raised, reaps⟩ |
                ⟨transition, after, returned, reaps, sweeps⟩
              · obtain ⟨position, fails⟩ := reaps.reaped stands
                refine Or.inl ⟨error, _, fails, ?_⟩
                rw [Operation.answer_eq _ ready.sound]
                refine (congrArg Prod.fst (supervised.trans isReap)).trans ?_
                rcases ran : alone space (Steda.reapExpiredRun life.last.id) world.tick with ⟨_ | _, _⟩
                · rw [ran] at raised
                  cases raised
                  rfl
                · rw [ran] at raised
                  cases raised
              · obtain ⟨position, fails⟩ := reaps.reaped stands
                rw [returned] at isReap
                refine Or.inr ⟨transition, _, ready.unused position, fails, _, after,
                  Operation.perform_returned ready.sound (supervised.trans isReap), ?_,
                  sweeps.moved.checkpoints⟩
                rw [sweeps.moved.rows life shows_, Life.moved_of_some (Moves.single_self _ _)]
  | reapExpiredRuns limit count returned reached =>
      rw [Operation.answer_eq _ ready.sound] at returned
      rcases alone_reapExpiredRuns ready frozen.steady (positive_of_mem_take reached) with
        ⟨_, error, _, _, _, raised⟩ | ⟨moves, after, swept, sweeps, reaps⟩
      · exact absurd (returned.symm.trans raised) (by simp)
      · have inSweep : life.last.id ∈ ((world.store.expiredRuns (world.clock 0)).take
            limit.toNat).map RunRow.id := by
          rw [frozen 0]
          exact List.mem_map_of_mem reached
        obtain ⟨transition, chosen, reapsLife⟩ := reaps.chosen life shows_ inSweep
        obtain ⟨position, fails⟩ := reapsLife.reaped (frozen.later (World.Later.tick world))
        refine Or.inr ⟨transition, _, ready.unused position, fails, _, after,
          Operation.perform_returned ready.sound swept, ?_, sweeps.moved.checkpoints⟩
        rw [sweeps.moved.rows life shows_, Life.moved_of_some chosen]

/-! ## Both sweeps -/

/-- Every expired run can be failed at a time. -/
def Queue.Reapable (space : Char → Bool) (queue : Queue) (time : Timestamp) : Prop :=
  ∀ life, queue.Shows space life → expiredAt time life.last = true →
    ∀ newRun, ∃ transition, life.reaped time newRun = .ok transition

/-- A task past its deadline. -/
def Life.Due (life : Life) (time : Timestamp) : Prop :=
  life.task.state.terminal = false ∧ life.task.due (some time) = .ok true

/-- A call whose transaction makes at most one transition of every task. -/
structure Operation.Makes (space : Char → Bool) (operation : Operation) (world : World)
    (time : Timestamp) (moves : Moves) (after : World) : Prop where
  performed : ∃ outcome, operation.perform space world = (outcome, after)
  ready : after.Ready space
  frozen : after.Frozen time
  later : world.Later after
  moved : world.store.Moved space moves after.store

theorem Operation.makes_of_raised {operation : Operation} (ready : world.Ready space)
    (frozen : world.Frozen time) {error : SqlError}
    (raised : (alone space (operation.program space) world).1 = .error error) :
    ∃ after, operation.Makes space world time Moves.none after := by
  obtain ⟨after, performed, sameStore, later, readyAfter⟩ :=
    Operation.perform_raised ready raised
  refine ⟨after, ⟨_, performed⟩, readyAfter, frozen.later later, later, ?_⟩
  rw [sameStore]
  exact Queue.Moved.refl world.store

theorem Operation.makes_of_sweeps {operation : Operation} (ready : world.Ready space)
    (frozen : world.Frozen time) {result : operation.Result} {moves : Moves} {after : World}
    (returned : alone space (operation.program space) world = (.ok result, after))
    (sweeps : world.Sweeps space moves after) :
    operation.Makes space world time moves after :=
  ⟨⟨_, Operation.perform_returned ready.sound returned⟩, sweeps.ready,
    frozen.later sweeps.later, sweeps.later, sweeps.moved⟩

theorem mem_dueTasks {queue : Queue} {task : TaskRow} : task ∈ queue.dueTasks time ↔
    task ∈ queue.tasks ∧ task.state.terminal = false ∧ task.due (some time) = .ok true := by
  rw [Queue.dueTasks, List.mem_insertionSort, List.mem_filter, Bool.and_eq_true, passes_iff,
    Bool.not_eq_true']

/-- A deadline sweep with a sufficient limit cancels every due task, unless a
deadline does not evaluate. -/
theorem cancelExpiredTasks_makes (ready : world.Ready space) (frozen : world.Frozen time)
    {limit : Int} (positive : 0 < limit)
    (enough : (world.store.dueTasks time).length ≤ limit.toNat) :
    ∃ moves after, (Operation.cancelExpiredTasks (some limit)).Makes space world time moves after ∧
      (world.store.Evaluates space time → ∀ life, world.store.Shows space life →
        (life.Due time → moves life.task.id = some (.cancel time)) ∧
        (¬life.Due time → moves life.task.id = none)) ∧
      (¬world.store.Evaluates space time → ∀ task, moves task = none) := by
  rcases alone_cancelExpiredTasks ready positive with
    ⟨life, error, shows_, isOpen, failed, raised⟩ | ⟨evaluates, moves, after, swept, sweeps, cancels⟩
  · have fails : (alone space ((Operation.cancelExpiredTasks (some limit)).program space) world).1 =
      .error error := raised
    obtain ⟨after, makes⟩ := Operation.makes_of_raised ready frozen fails
    refine ⟨_, after, makes, fun evaluates => ?_, fun _ _ => rfl⟩
    obtain ⟨isDue, evaluated⟩ := evaluates life shows_ isOpen
    rw [frozen 0, evaluated] at failed
    cases failed
  · rw [frozen 0] at evaluates
    refine ⟨moves, after, Operation.makes_of_sweeps ready frozen swept sweeps, ?_,
      fun raises => absurd evaluates raises⟩
    rw [frozen 0, List.take_of_length_le enough] at cancels
    intro _ life shows_
    constructor
    · rintro ⟨isOpen, isDue⟩
      have member : life.task ∈ world.store.dueTasks time :=
        mem_dueTasks.mpr ⟨mem_of_find shows_.findTask, isOpen, isDue⟩
      obtain ⟨position, chosen⟩ := cancels.chosen _ (List.mem_map_of_mem member)
      rw [chosen, Session.tick_clock, frozen]
    · intro notDue
      refine cancels.others _ fun member => notDue ?_
      obtain ⟨task, inDue, sameId⟩ := List.mem_map.mp member
      obtain ⟨inTasks, isOpen, isDue⟩ := mem_dueTasks.mp inDue
      rw [← shows_.eq_task inTasks sameId] at isOpen isDue
      exact ⟨isOpen, isDue⟩

/-- A lease sweep with a sufficient limit fails every expired run, unless one of
them cannot be failed. -/
theorem reapExpiredRuns_makes (ready : world.Ready space) (frozen : world.Frozen time)
    {limit : Int} (positive : 0 < limit)
    (enough : (world.store.expiredRuns time).length ≤ limit.toNat) :
    ∃ moves after, (Operation.reapExpiredRuns (some limit)).Makes space world time moves after ∧
      (world.store.Reapable space time → ∀ life, world.store.Shows space life →
        (expiredAt time life.last = true → ∃ transition position,
          moves life.task.id = some transition ∧
            life.reaped time (world.idents position) = .ok transition) ∧
        (expiredAt time life.last = false → moves life.task.id = none)) ∧
      (¬world.store.Reapable space time → ∀ task, moves task = none) := by
  have stands : World.Frozen (Session.tick world) time := frozen.later (World.Later.tick world)
  have inExpired : ∀ {life : Life}, world.store.Shows space life →
      (life.last.id ∈ (world.store.expiredRuns time).map RunRow.id ↔
        expiredAt time life.last = true) := by
    intro life shows_
    have found := shows_.findRun life.last_mem_runs
    constructor
    · intro member
      obtain ⟨run, inExpired, sameId⟩ := List.mem_map.mp member
      obtain ⟨inRuns, expired⟩ := Queue.mem_expiredRuns.mp inExpired
      rwa [shows_.eq_run life.last_mem_runs inRuns sameId]
    · intro expired
      exact List.mem_map_of_mem (Queue.mem_expiredRuns.mpr ⟨mem_of_find found, expired⟩)
  rcases alone_reapExpiredRuns ready frozen.steady positive with
    ⟨life, error, shows_, member, fails, raised⟩ | ⟨moves, after, swept, sweeps, reaps⟩
  · have stops : (alone space ((Operation.reapExpiredRuns (some limit)).program space) world).1 =
      .error error := raised
    obtain ⟨after, makes⟩ := Operation.makes_of_raised ready frozen stops
    refine ⟨_, after, makes, fun reapable => ?_, fun _ _ => rfl⟩
    rw [frozen 0] at member
    obtain ⟨position, isFailure⟩ := fails.reaped stands
    obtain ⟨transition, isReaped⟩ := reapable life shows_
      (Queue.mem_expiredRuns.mp (List.mem_of_mem_take member)).2 (world.tick.idents position)
    rw [isReaped] at isFailure
    cases isFailure
  · rw [frozen 0, List.take_of_length_le enough] at reaps
    have facts : ∀ life, world.store.Shows space life →
        (expiredAt time life.last = true → ∃ transition position,
          moves life.task.id = some transition ∧
            life.reaped time (world.idents position) = .ok transition) ∧
        (expiredAt time life.last = false → moves life.task.id = none) := by
      intro life shows_
      constructor
      · intro expired
        obtain ⟨transition, chosen, reapsLife⟩ :=
          reaps.chosen life shows_ ((inExpired shows_).mpr expired)
        obtain ⟨position, isReaped⟩ := reapsLife.reaped stands
        exact ⟨transition, position, chosen, isReaped⟩
      · intro valid
        refine reaps.others life shows_ fun member => ?_
        rw [(inExpired shows_).mp member] at valid
        cases valid
    refine ⟨moves, after, Operation.makes_of_sweeps ready frozen swept sweeps, fun _ => facts, ?_⟩
    intro notReapable
    refine absurd ?_ notReapable
    intro life shows_ expired newRun
    obtain ⟨transition, position, _, isReaped⟩ := (facts life shows_).1 expired
    obtain ⟨renamed, isRenamed, _⟩ := (Life.failure_newRun newRun).2 transition isReaped
    exact ⟨renamed, isRenamed⟩

/-! ## The order of the sweeps -/

/-- A reaped task that stays open is not past its deadline. -/
theorem Life.due_reaped {newRun : Uuid} {transition : Transition}
    (reaps : life.reaped time newRun = .ok transition)
    (isOpen : (transition.after life).task.state.terminal = false) :
    (transition.after life).task.due (some time) = .ok false := by
  unfold reaped failure at reaps
  split at reaps
  · cases reaps
  · cases reaps
    cases isOpen
  · next notDue =>
      rcases failureInTime_cases reaps with ⟨isExhaust, _⟩ | isAbandon |
      ⟨availableAt, isRetry, _⟩
      · subst isExhaust
        cases isOpen
      · subst isAbandon
        cases isOpen
      · subst isRetry
        exact notDue

theorem Life.reaped_of_due {newRun : Uuid} (due : life.task.due (some time) = .ok true) :
    life.reaped time newRun = .ok (.cancel time) := by
  rw [reaped, failure, due]

/-- Lists of distinct elements, one within the other. -/
theorem length_le_of_subset {α : Type} {first second : List α} (distinct : first.Nodup)
    (within : first ⊆ second) : first.length ≤ second.length :=
  (List.subperm_of_subset distinct within).length_le

theorem Queue.Keyed.dueTasks_nodup {queue : Queue} (keyed : queue.Keyed) (time : Timestamp) :
    (queue.dueTasks time).Nodup := by
  refine (List.perm_insertionSort _ _).nodup_iff.mpr (List.Nodup.filter _ ?_)
  exact List.Nodup.of_map _ keyed.tasks

theorem Queue.Keyed.expiredRuns_nodup {queue : Queue} (keyed : queue.Keyed) (time : Timestamp) :
    (queue.expiredRuns time).Nodup := by
  refine (List.perm_insertionSort _ _).nodup_iff.mpr (List.Nodup.filter _ ?_)
  exact List.Nodup.of_map _ keyed.runs

/-- A choice of failures of expired runs at a time. -/
def Moves.Reaping (space : Char → Bool) (queue : Queue) (time : Timestamp) (moves : Moves) : Prop :=
  ∀ life, queue.Shows space life → moves life.task.id = Option.none ∨
    ∃ transition newRun, moves life.task.id = some transition ∧
      expiredAt time life.last = true ∧ life.reaped time newRun = .ok transition

section Order

variable {before after : Queue} {moves : Moves}

/-- Failures of expired runs leave the open tasks whose deadline is due or does
not evaluate. -/
theorem Queue.Moved.open_of_reaping (moved : before.Moved space moves after)
    (sound : before.Sound space) (reaping : moves.Reaping space before time)
    (shows_ : after.Shows space life) (isOpen : life.task.state.terminal = false)
    (notInTime : life.task.due (some time) ≠ .ok false) :
    before.Shows space life ∧ moves life.task.id = none := by
  obtain ⟨old, showsOld, isLife⟩ := moved.back sound shows_
  rcases reaping old showsOld with stays | ⟨transition, newRun, chosen, _, reaps⟩
  · rw [Life.moved_of_none stays] at isLife
    exact ⟨isLife ▸ showsOld, isLife ▸ stays⟩
  · rw [isLife, Life.moved_of_some chosen] at isOpen notInTime
    exact absurd (Life.due_reaped reaps isOpen) notInTime

theorem Queue.Moved.expiredRuns_le (moved : before.Moved space moves after)
    (sound : before.Sound space) (soundAfter : after.Sound space)
    (cancelling : moves.Cancelling space before) :
    (after.expiredRuns time).length ≤ (before.expiredRuns time).length := by
  refine length_le_of_subset (soundAfter.keyed.expiredRuns_nodup time) fun run member => ?_
  obtain ⟨inRuns, expired⟩ := Queue.mem_expiredRuns.mp member
  obtain ⟨life, shows_, isLast⟩ := soundAfter.shows_of_running inRuns (running_of_expiredAt expired)
  subst isLast
  have showsOld := (moved.running_of_cancelling sound cancelling shows_ (running_of_expiredAt expired)).1
  exact Queue.mem_expiredRuns.mpr ⟨mem_of_find (showsOld.findRun life.last_mem_runs), expired⟩

theorem Queue.Moved.dueTasks_le (moved : before.Moved space moves after)
    (sound : before.Sound space) (soundAfter : after.Sound space)
    (reaping : moves.Reaping space before time) :
    (after.dueTasks time).length ≤ (before.dueTasks time).length := by
  refine length_le_of_subset (soundAfter.keyed.dueTasks_nodup time) fun task member => ?_
  obtain ⟨inTasks, isOpen, isDue⟩ := mem_dueTasks.mp member
  obtain ⟨life, isTask, _, shows_⟩ :=
    soundAfter.shows_of_findTask (soundAfter.keyed.findTask_of_mem inTasks)
  subst isTask
  have showsOld := (moved.open_of_reaping sound reaping shows_ isOpen (by simp [isDue])).1
  exact mem_dueTasks.mpr ⟨mem_of_find showsOld.findTask, isOpen, isDue⟩

/-- Cancelling the due tasks does not decide whether the expired runs can be
failed. -/
theorem Queue.Moved.reapable_iff (moved : before.Moved space moves after)
    (sound : before.Sound space) (soundAfter : after.Sound space)
    (cancelling : ∀ life, before.Shows space life → moves life.task.id = none ∨
      (life.Due time ∧ moves life.task.id = some (.cancel time))) :
    after.Reapable space time ↔ before.Reapable space time := by
  constructor
  · intro reapable life shows_ expired newRun
    rcases cancelling life shows_ with stays | ⟨⟨_, isDue⟩, _⟩
    · exact reapable life (moved.shows_of_none soundAfter shows_ stays) expired newRun
    · exact ⟨_, Life.reaped_of_due isDue⟩
  · intro reapable life shows_ expired newRun
    have chosen : moves.Cancelling space before := fun other showsOther =>
      (cancelling other showsOther).imp_right fun due => ⟨time, due.2⟩
    exact reapable life
      (moved.running_of_cancelling sound chosen shows_ (running_of_expiredAt expired)).1 expired newRun

/-- Failing the expired runs does not decide whether the deadlines evaluate. -/
theorem Queue.Moved.evaluates_iff (moved : before.Moved space moves after)
    (sound : before.Sound space) (soundAfter : after.Sound space)
    (reaping : moves.Reaping space before time) :
    after.Evaluates space time ↔ before.Evaluates space time := by
  constructor
  · intro evaluates life shows_ isOpen
    rcases reaping life shows_ with stays | ⟨transition, newRun, _, _, reaps⟩
    · exact evaluates life (moved.shows_of_none soundAfter shows_ stays) isOpen
    · cases isDue : life.task.due (some time) with
      | ok value => exact ⟨value, rfl⟩
      | error error =>
          rw [Life.reaped, Life.failure, isDue] at reaps
          cases reaps
  · intro evaluates life shows_ isOpen
    by_contra raises
    have notInTime : life.task.due (some time) ≠ .ok false := fun inTime => raises ⟨_, inTime⟩
    exact raises (evaluates life
      (moved.open_of_reaping sound reaping shows_ isOpen notInTime).1 isOpen)

end Order

/-- Two queues have the same rows for every task, up to the names of runs that
a third one does not have. -/
def Queue.SameUpToNew (before left right : Queue) : Prop :=
  left.checkpoints = right.checkpoints ∧
    ∀ task, ∃ first second : Option Life, left.rowsOf task = Life.rows first ∧
      right.rowsOf task = Life.rows second ∧ Option.Rel (Life.SameUpToNew before) first second

/-- Two calls one after the other. -/
def Operation.then (space : Char → Bool) (first second : Operation) (world : World) : Queue :=
  (second.perform space (first.perform space world).2).2.store

/-- What both sweeps together do to a task. -/
def Life.Outcome (before : Queue) (evaluates reapable : Prop) (time : Timestamp)
    (life final : Life) : Prop :=
  (evaluates ∧ life.Due time ∧ final = (Transition.cancel time).after life) ∨
  (¬(evaluates ∧ life.Due time) ∧ reapable ∧ expiredAt time life.last = true ∧
    ∃ newRun transition, before.findRun newRun = none ∧
      life.reaped time newRun = .ok transition ∧ final = transition.after life) ∨
  (¬(evaluates ∧ life.Due time) ∧ ¬(reapable ∧ expiredAt time life.last = true) ∧ final = life)

/-- What both sweeps together do to a queue. -/
structure Queue.Swept (space : Char → Bool) (time : Timestamp) (before after : Queue) : Prop where
  outcome : ∀ life, before.Shows space life → ∃ final,
    after.rowsOf life.task.id = Life.rows (some final) ∧
      life.Outcome before (before.Evaluates space time) (before.Reapable space time) time final
  absent : ∀ task, before.findTask task = none → after.rowsOf task = before.rowsOf task
  checkpoints : after.checkpoints = before.checkpoints

/-- The outcome of both sweeps is determined up to the names of new runs. -/
theorem Life.Outcome.same {before : Queue} {evaluates reapable : Prop} {first second : Life}
    (left : life.Outcome before evaluates reapable time first)
    (right : life.Outcome before evaluates reapable time second) :
    first.SameUpToNew before second := by
  rcases left with ⟨works, due, isFirst⟩ | ⟨notDue, works, expired, newRun, transition, unused, reaps,
    isFirst⟩ | ⟨notDue, notExpired, isFirst⟩ <;>
  rcases right with ⟨works', due', isSecond⟩ | ⟨notDue', works', expired', other, renamed, unused',
    reaps', isSecond⟩ | ⟨notDue', notExpired', isSecond⟩
  · exact Or.inl (isFirst.trans isSecond.symm)
  · exact absurd ⟨works, due⟩ notDue'
  · exact absurd ⟨works, due⟩ notDue'
  · exact absurd ⟨works', due'⟩ notDue
  · rw [isFirst, isSecond]
    exact sameUpToNew_of_reaped unused unused' reaps reaps'
  · exact absurd ⟨works, expired⟩ notExpired'
  · exact absurd ⟨works', due'⟩ notDue
  · exact absurd ⟨works', expired'⟩ notExpired
  · exact Or.inl (isFirst.trans isSecond.symm)

theorem Queue.Swept.same {before left right : Queue} (sound : before.Sound space)
    (first : before.Swept space time left) (second : before.Swept space time right) :
    before.SameUpToNew left right := by
  refine ⟨first.checkpoints.trans second.checkpoints.symm, fun task => ?_⟩
  cases found : before.findTask task with
  | none =>
      obtain ⟨life, rows, _⟩ := sound.lives task
      have isNone : life = none := by
        cases life with
        | none => rfl
        | some life =>
            have isTask : before.findTask task = some life.task := congrArg Rows.task rows
            rw [found] at isTask
            cases isTask
      subst isNone
      exact ⟨none, none, (first.absent task found).trans rows, (second.absent task found).trans rows,
        .none⟩
  | some row =>
      obtain ⟨life, _, isId, shows_⟩ := sound.shows_of_findTask found
      subst isId
      obtain ⟨left, leftRows, leftOutcome⟩ := first.outcome life shows_
      obtain ⟨right, rightRows, rightOutcome⟩ := second.outcome life shows_
      exact ⟨some left, some right, leftRows, rightRows, .some (leftOutcome.same rightOutcome)⟩

section Order

variable {cancelLimit reapLimit : Int}

/-- The identifiers of a later world are unused in the queue of an earlier one. -/
theorem World.Ready.unused_later {before after : World} (ready : before.Ready space)
    (later : before.Later after) (position : Nat) :
    before.store.findRun (after.idents position) = none := by
  obtain ⟨drawn, isIdents⟩ := later.idents
  rw [isIdents]
  exact ready.unused _

/-- First the deadlines, then the leases. -/
theorem swept_cancel_reap (ready : world.Ready space) (frozen : world.Frozen time)
    (cancels : 0 < cancelLimit) (reaps : 0 < reapLimit)
    (cancelsAll : (world.store.dueTasks time).length ≤ cancelLimit.toNat)
    (reapsAll : (world.store.expiredRuns time).length ≤ reapLimit.toNat) :
    world.store.Swept space time
      (Operation.then space (.cancelExpiredTasks (some cancelLimit))
        (.reapExpiredRuns (some reapLimit)) world) := by
  obtain ⟨first, middle, cancelled, ifEvaluates, ifNot⟩ :=
    cancelExpiredTasks_makes ready frozen cancels cancelsAll
  have chooses : ∀ life, world.store.Shows space life →
      (world.store.Evaluates space time ∧ life.Due time ∧
        first life.task.id = some (.cancel time)) ∨
      (¬(world.store.Evaluates space time ∧ life.Due time) ∧ first life.task.id = none) := by
    intro life shows_
    by_cases evaluates : world.store.Evaluates space time
    · by_cases due : life.Due time
      · exact Or.inl ⟨evaluates, due, (ifEvaluates evaluates life shows_).1 due⟩
      · exact Or.inr ⟨fun both => due both.2, (ifEvaluates evaluates life shows_).2 due⟩
    · exact Or.inr ⟨fun both => evaluates both.1, ifNot evaluates _⟩
  have cancelling : first.Cancelling space world.store := fun life shows_ =>
    (chooses life shows_).elim (fun chosen => Or.inr ⟨time, chosen.2.2⟩) fun stays => Or.inl stays.2
  have soundMiddle := cancelled.ready.sound
  obtain ⟨second, final, reaped, ifReapable, ifStuck⟩ :=
    reapExpiredRuns_makes cancelled.ready cancelled.frozen reaps
      ((cancelled.moved.expiredRuns_le ready.sound soundMiddle cancelling).trans reapsAll)
  have sameReapable : middle.store.Reapable space time ↔ world.store.Reapable space time :=
    cancelled.moved.reapable_iff ready.sound soundMiddle fun life shows_ =>
      (chooses life shows_).elim (fun chosen => Or.inr chosen.2) fun stays => Or.inl stays.2
  obtain ⟨_, performedFirst⟩ := cancelled.performed
  obtain ⟨_, performedSecond⟩ := reaped.performed
  have isFinal : Operation.then space (.cancelExpiredTasks (some cancelLimit))
      (.reapExpiredRuns (some reapLimit)) world = final.store := by
    rw [Operation.then, performedFirst, performedSecond]
  rw [isFinal]
  refine ⟨fun life shows_ => ?_, fun task absent => ?_,
    reaped.moved.checkpoints.trans cancelled.moved.checkpoints⟩
  · have showsMiddle := cancelled.moved.shows soundMiddle shows_
    have rows := reaped.moved.rows _ showsMiddle
    rw [Life.moved_id] at rows
    refine ⟨_, rows, ?_⟩
    by_cases reapable : world.store.Reapable space time
    · have facts := ifReapable (sameReapable.mpr reapable) _ showsMiddle
      rcases chooses life shows_ with ⟨evaluates, due, chosen⟩ | ⟨notDue, stays⟩
      · have stays := facts.2 (by rw [Life.moved_of_some chosen]; rfl)
        rw [Life.moved_of_none stays, Life.moved_of_some chosen]
        exact Or.inl ⟨evaluates, due, rfl⟩
      · rw [Life.moved_of_none stays] at facts ⊢
        cases expired : expiredAt time life.last with
        | true =>
            obtain ⟨transition, position, chosen, reapsLife⟩ := facts.1 expired
            rw [Life.moved_of_some chosen]
            exact Or.inr (Or.inl ⟨notDue, reapable, expired, _, transition,
              ready.unused_later cancelled.later position, reapsLife, rfl⟩)
        | false =>
            rw [Life.moved_of_none (facts.2 expired)]
            exact Or.inr (Or.inr ⟨notDue, fun both => absurd both.2 (by simp [expired]), rfl⟩)
    · rw [Life.moved_of_none (ifStuck (fun now => reapable (sameReapable.mp now)) _)]
      rcases chooses life shows_ with ⟨evaluates, due, chosen⟩ | ⟨notDue, stays⟩
      · rw [Life.moved_of_some chosen]
        exact Or.inl ⟨evaluates, due, rfl⟩
      · rw [Life.moved_of_none stays]
        exact Or.inr (Or.inr ⟨notDue, fun both => reapable both.1, rfl⟩)
  · have first := cancelled.moved.absent task absent
    exact (reaped.moved.absent task ((congrArg Rows.task first).trans absent)).trans first

/-- First the leases, then the deadlines. -/
theorem swept_reap_cancel (ready : world.Ready space) (frozen : world.Frozen time)
    (cancels : 0 < cancelLimit) (reaps : 0 < reapLimit)
    (cancelsAll : (world.store.dueTasks time).length ≤ cancelLimit.toNat)
    (reapsAll : (world.store.expiredRuns time).length ≤ reapLimit.toNat) :
    world.store.Swept space time
      (Operation.then space (.reapExpiredRuns (some reapLimit))
        (.cancelExpiredTasks (some cancelLimit)) world) := by
  obtain ⟨first, middle, reaped, ifReapable, ifStuck⟩ :=
    reapExpiredRuns_makes ready frozen reaps reapsAll
  have chooses : ∀ life, world.store.Shows space life →
      (world.store.Reapable space time ∧ expiredAt time life.last = true ∧
        ∃ transition newRun, first life.task.id = some transition ∧
          world.store.findRun newRun = none ∧ life.reaped time newRun = .ok transition) ∨
      (¬(world.store.Reapable space time ∧ expiredAt time life.last = true) ∧
        first life.task.id = none) := by
    intro life shows_
    by_cases reapable : world.store.Reapable space time
    · cases expired : expiredAt time life.last with
      | true =>
          obtain ⟨transition, position, chosen, reapsLife⟩ :=
            (ifReapable reapable life shows_).1 expired
          exact Or.inl ⟨reapable, rfl, transition, _, chosen, ready.unused position, reapsLife⟩
      | false =>
          exact Or.inr ⟨by simp, (ifReapable reapable life shows_).2 expired⟩
    · exact Or.inr ⟨fun both => reapable both.1, ifStuck reapable _⟩
  have reaping : first.Reaping space world.store time := fun life shows_ =>
    (chooses life shows_).elim
      (fun chosen => Or.inr (by
        obtain ⟨_, expired, transition, newRun, isChosen, _, reapsLife⟩ := chosen
        exact ⟨transition, newRun, isChosen, expired, reapsLife⟩))
      fun stays => Or.inl stays.2
  have soundMiddle := reaped.ready.sound
  obtain ⟨second, final, cancelled, ifEvaluates, ifNot⟩ :=
    cancelExpiredTasks_makes reaped.ready reaped.frozen cancels
      ((reaped.moved.dueTasks_le ready.sound soundMiddle reaping).trans cancelsAll)
  have sameEvaluates : middle.store.Evaluates space time ↔ world.store.Evaluates space time :=
    reaped.moved.evaluates_iff ready.sound soundMiddle reaping
  obtain ⟨_, performedFirst⟩ := reaped.performed
  obtain ⟨_, performedSecond⟩ := cancelled.performed
  have isFinal : Operation.then space (.reapExpiredRuns (some reapLimit))
      (.cancelExpiredTasks (some cancelLimit)) world = final.store := by
    rw [Operation.then, performedFirst, performedSecond]
  rw [isFinal]
  refine ⟨fun life shows_ => ?_, fun task absent => ?_,
    cancelled.moved.checkpoints.trans reaped.moved.checkpoints⟩
  · have showsMiddle := reaped.moved.shows soundMiddle shows_
    have rows := cancelled.moved.rows _ showsMiddle
    rw [Life.moved_id] at rows
    refine ⟨_, rows, ?_⟩
    have later : ∀ {now : Life}, middle.store.Shows space now →
        (world.store.Evaluates space time ∧ now.Due time ∧
          now.moved second = (Transition.cancel time).after now) ∨
        (¬(world.store.Evaluates space time ∧ now.Due time) ∧ now.moved second = now) := by
      intro now showsNow
      by_cases evaluates : world.store.Evaluates space time
      · have facts := ifEvaluates (sameEvaluates.mpr evaluates) now showsNow
        by_cases due : now.Due time
        · exact Or.inl ⟨evaluates, due, Life.moved_of_some (facts.1 due)⟩
        · exact Or.inr ⟨fun both => due both.2, Life.moved_of_none (facts.2 due)⟩
      · exact Or.inr ⟨fun both => evaluates both.1,
          Life.moved_of_none (ifNot (fun now => evaluates (sameEvaluates.mp now)) _)⟩
    rcases chooses life shows_ with
      ⟨reapable, expired, transition, newRun, chosen, unused, reapsLife⟩ | ⟨notExpired, stays⟩
    · have notAgain : (life.moved first).moved second = life.moved first := by
        rcases later showsMiddle with ⟨_, ⟨isOpen, isDue⟩, _⟩ | ⟨_, same⟩
        · rw [Life.moved_of_some chosen] at isOpen isDue
          rw [Life.due_reaped reapsLife isOpen] at isDue
          cases isDue
        · exact same
      rw [notAgain, Life.moved_of_some chosen]
      by_cases due : world.store.Evaluates space time ∧ life.Due time
      · refine Or.inl ⟨due.1, due.2, ?_⟩
        rw [Life.reaped_of_due due.2.2] at reapsLife
        cases reapsLife
        rfl
      · exact Or.inr (Or.inl ⟨due, reapable, expired, newRun, transition, unused, reapsLife, rfl⟩)
    · rw [Life.moved_of_none stays] at showsMiddle ⊢
      rcases later showsMiddle with ⟨evaluates, due, isCancelled⟩ | ⟨notDue, same⟩
      · exact Or.inl ⟨evaluates, due, isCancelled⟩
      · exact Or.inr (Or.inr ⟨notDue, notExpired, same⟩)
  · have first := reaped.moved.absent task absent
    exact (cancelled.moved.absent task ((congrArg Rows.task first).trans absent)).trans first

end Order

/-! ## The law -/

/-- A reached queue under a standing clock, with unused identifiers to come. -/
structure World.Stands (space : Char → Bool) (reached : World) (time : Timestamp) (world : World) :
    Prop where
  store : world.store = reached.store
  frozen : world.Frozen time
  ready : world.Ready space

/-- The task and its last run are cancelled, the run is nobody's and has neither
a result nor a failure, and there is no new run. -/
structure Life.CancelledFrom (before after : Life) : Prop where
  task : after.task.state = .cancelled
  run : after.last.state = .cancelled
  claimedBy : after.last.claimedBy = none
  claimExpiresAt : after.last.claimExpiresAt = none
  result : after.last.result = none
  failureReason : after.last.failureReason = none
  history : after.history = before.history
  sameRun : after.last.id = before.last.id

/-- Whoever notices an expiry, the rows are the same. -/
structure ExpiryAgrees (space : Char → Bool) (reached : World) : Prop where
  /-- A due deadline under a valid lease. -/
  deadline : ∀ life (time : Timestamp), reached.store.Shows space life → life.task.state = .running →
    life.task.due (some time) = .ok true → expiredAt time life.last = false →
      life.CancelledFrom ((Transition.cancel time).after life) ∧
      ∀ world, reached.Stands space time world → ∀ operation : Operation,
        operation.NoticesDeadline space world life time →
          operation.Transitions space world life (.cancel time)
  /-- An expired lease. -/
  lease : ∀ life time, reached.store.Shows space life → expiredAt time life.last = true →
    ∀ left right, reached.Stands space time left → reached.Stands space time right →
      ∀ first second : Operation, first.NoticesExpiry space left life time →
        second.NoticesExpiry space right life time →
          let one := (first.perform space left).2.store
          let other := (second.perform space right).2.store
          one.checkpoints = other.checkpoints ∧
            ∃ after renamed : Life, one.rowsOf life.task.id = Life.rows (some after) ∧
              other.rowsOf life.task.id = Life.rows (some renamed) ∧
              after.SameUpToNew reached.store renamed
  /-- Both sweeps in either order. -/
  sweeps : ∀ time left right, reached.Stands space time left → reached.Stands space time right →
    ∀ cancelLimit reapLimit, 0 < cancelLimit → 0 < reapLimit →
      (reached.store.dueTasks time).length ≤ cancelLimit.toNat →
      (reached.store.expiredRuns time).length ≤ reapLimit.toNat →
        reached.store.SameUpToNew
          (Operation.then space (.cancelExpiredTasks (some cancelLimit))
            (.reapExpiredRuns (some reapLimit)) left)
          (Operation.then space (.reapExpiredRuns (some reapLimit))
            (.cancelExpiredTasks (some cancelLimit)) right)

/-- The rows after a call that notices an expiry, whether it returns or raises. -/
theorem Operation.NoticesExpiry.rows {operation : Operation}
    (notices : operation.NoticesExpiry space world life time) (ready : world.Ready space)
    (frozen : world.Frozen time) (shows_ : world.store.Shows space life)
    (expired : expiredAt time life.last = true) :
    (operation.perform space world).2.store.checkpoints = world.store.checkpoints ∧
      ∃ after, (operation.perform space world).2.store.rowsOf life.task.id =
          Life.rows (some after) ∧
        ((after = life ∧ ∃ error newRun, life.reaped time newRun = .error error) ∨
          ∃ transition newRun, world.store.findRun newRun = none ∧
            life.reaped time newRun = .ok transition ∧ after = transition.after life) := by
  rcases notices.fails ready frozen shows_ expired with
    ⟨error, newRun, stuck, raised⟩ |
    ⟨transition, newRun, unused, reaps, result, after, performed, rows, checkpoints⟩
  · rw [Operation.store_of_raised raised]
    exact ⟨rfl, life, shows_.rows, Or.inl ⟨rfl, error, newRun, stuck⟩⟩
  · rw [performed]
    exact ⟨checkpoints, _, rows, Or.inr ⟨transition, newRun, unused, reaps, rfl⟩⟩

/-- In every state a history reaches, whoever notices an expiry leaves the same
rows. -/
theorem History.expiryAgrees {initial reached : World} {past : List Call}
    (history : History space initial past reached) : ExpiryAgrees space reached where
  deadline := by
    intro life time shows_ taskRunning isDue leased
    have running : life.last.state = .running := by
      rcases shows_.valid.agrees with same | ⟨cancelled, _⟩
      · exact same ▸ taskRunning
      · rw [taskRunning] at cancelled
        cases cancelled
    obtain ⟨result, failureReason⟩ := history.unended shows_.rows (by rw [running]; rfl)
    refine ⟨⟨rfl, rfl, rfl, rfl, result, failureReason, rfl, rfl⟩, ?_⟩
    intro world stands operation notices
    have shown : world.store.Shows space life := stands.store ▸ shows_
    exact notices.cancels stands.ready stands.frozen shown running leased isDue
  lease := by
    intro life time shows_ expired left right standsLeft standsRight first second notices noticesToo
    have showsLeft : left.store.Shows space life := standsLeft.store ▸ shows_
    have showsRight : right.store.Shows space life := standsRight.store ▸ shows_
    obtain ⟨kept, after, rows, outcome⟩ :=
      notices.rows standsLeft.ready standsLeft.frozen showsLeft expired
    obtain ⟨keptToo, renamed, rowsToo, outcomeToo⟩ :=
      noticesToo.rows standsRight.ready standsRight.frozen showsRight expired
    rw [standsLeft.store] at kept outcome
    rw [standsRight.store] at keptToo outcomeToo
    refine ⟨kept.trans keptToo.symm, after, renamed, rows, rowsToo, ?_⟩
    have neverBoth : ∀ {error transition newRun other}, life.reaped time newRun = .error error →
        life.reaped time other = .ok transition → False := by
      intro error transition newRun other stuck reaps
      have stuckToo : life.reaped time other = .error error :=
        (Life.failure_newRun other).1 error stuck
      rw [reaps] at stuckToo
      cases stuckToo
    rcases outcome with ⟨isLife, _, _, stuck⟩ | ⟨transition, newRun, unused, reaps, isAfter⟩ <;>
    rcases outcomeToo with ⟨isLifeToo, _, _, stuckToo⟩ |
      ⟨transitionToo, other, unusedToo, reapsToo, isAfterToo⟩
    · exact Or.inl (isLife.trans isLifeToo.symm)
    · exact (neverBoth stuck reapsToo).elim
    · exact (neverBoth stuckToo reaps).elim
    · rw [isAfter, isAfterToo]
      exact Life.sameUpToNew_of_reaped unused unusedToo reaps reapsToo
  sweeps := by
    intro time left right standsLeft standsRight cancelLimit reapLimit cancels reaps cancelsAll
      reapsAll
    have first := swept_cancel_reap standsLeft.ready standsLeft.frozen cancels reaps
      (standsLeft.store ▸ cancelsAll) (standsLeft.store ▸ reapsAll)
    have second := swept_reap_cancel standsRight.ready standsRight.frozen cancels reaps
      (standsRight.store ▸ cancelsAll) (standsRight.store ▸ reapsAll)
    rw [standsLeft.store] at first
    rw [standsRight.store] at second
    exact first.same history.sound second

/-- A reached queue stands at any time. -/
theorem World.stands_stopped {reached : World} (ready : reached.Ready space) (time : Timestamp) :
    reached.Stands space time (reached.stopped time) :=
  ⟨rfl, World.frozen_stopped reached time, ready.stopped time⟩

/-- A running task with a deadline. -/
theorem History.expiryAgrees_running :
    let served := World.serve asciiSpace
      [plainSubmission [("cancellation", .object [("maxDuration", .number ⟨5, 0⟩)])],
        plainClaim "worker"] (.blank second)
    served.2.store.runs.map RunRow.state = [.running] ∧
      (∀ time, served.2.Stands asciiSpace time (served.2.stopped time)) ∧
      ExpiryAgrees asciiSpace served.2 :=
  ⟨rfl, fun time => World.stands_stopped (World.history_serve _ second).ready time,
    History.expiryAgrees (World.history_serve _ second)⟩

end Steda
