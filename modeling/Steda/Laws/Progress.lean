import Steda.Laws.Claims
import Steda.Laws.Expiry

/-!
# Progress

From some time on, a waiting task is claimed or cancelled by the next call that
is large enough, and the lease of a running task can be reaped.
-/

namespace Steda

open Postgres Transaction Relational

variable {space : Char → Bool} {life : Life} {world : World} {queue : Queue} {time : Timestamp}

/-! ## Sizes -/

theorem Queue.Sound.tasks_le_runs (sound : queue.Sound space) :
    queue.tasks.length ≤ queue.runs.length := by
  have shown : ∀ task ∈ queue.tasks, ∃ life : Life, queue.Shows space life ∧ life.task = task := by
    intro task member
    obtain ⟨life, isTask, _, shows_⟩ :=
      sound.shows_of_findTask (sound.keyed.findTask_of_mem member)
    exact ⟨life, shows_, isTask⟩
  have distinct : (queue.tasks.map TaskRow.lastAttemptRun).Nodup := by
    have ids := sound.keyed.tasks
    rw [List.Nodup, List.pairwise_map] at ids ⊢
    refine ids.imp_of_mem ?_
    intro first second inFirst inSecond different samePointer
    obtain ⟨life, shows_, isFirst⟩ := shown first inFirst
    obtain ⟨other, showsOther, isSecond⟩ := shown second inSecond
    subst isFirst isSecond
    rw [shows_.valid.pointed, showsOther.valid.pointed] at samePointer
    have same := shows_.unique_of_run showsOther life.last_mem_runs samePointer other.last_mem_runs
      rfl
    exact different (by rw [same])
  have within : queue.tasks.map TaskRow.lastAttemptRun ⊆ queue.runs.map RunRow.id := by
    intro id member
    obtain ⟨task, inTasks, isId⟩ := List.mem_map.mp member
    obtain ⟨life, shows_, isTask⟩ := shown task inTasks
    subst isTask
    rw [← isId, shows_.valid.pointed]
    exact List.mem_map_of_mem (mem_of_find (shows_.findRun life.last_mem_runs))
  have lengths := length_le_of_subset distinct within
  simpa using lengths

theorem Queue.dueTasks_length (queue : Queue) (time : Timestamp) :
    (queue.dueTasks time).length ≤ queue.tasks.length := by
  rw [Queue.dueTasks, List.length_insertionSort]
  exact List.length_filter_le _ _

theorem Queue.Moved.tasks_le {before after : Queue} {moves : Moves}
    (moved : before.Moved space moves after) (sound : after.Sound space) :
    after.tasks.length ≤ before.tasks.length := by
  have within : after.tasks.map TaskRow.id ⊆ before.tasks.map TaskRow.id := by
    intro id member
    obtain ⟨task, inTasks, isId⟩ := List.mem_map.mp member
    have found := sound.keyed.findTask_of_mem inTasks
    rw [isId] at found
    cases isBefore : before.findTask id with
    | none =>
        rw [← show (after.rowsOf id).task = after.findTask id from rfl, moved.absent id isBefore]
          at found
        exact absurd (isBefore.symm.trans found) (by simp)
    | some old => exact List.mem_map.mpr ⟨old, mem_of_find isBefore, Queue.findTask_id isBefore⟩
  have lengths := length_le_of_subset sound.keyed.tasks within
  simpa using lengths

theorem Queue.Sound.runnableRuns_length (sound : queue.Sound space) (nowAt : Timestamp)
    (names : List String) : (queue.runnableRuns nowAt names).length ≤ queue.tasks.length := by
  have waits : queue.Waits space (queue.runnableRuns nowAt names) := fun run member =>
    sound.shows_of_runnable (Queue.mem_runnableRuns.mp member).1 (Queue.mem_runnableRuns.mp member).2
  have distinct := waits.distinct_tasks (sound.keyed.runnableRuns_nodup nowAt names)
  have within : (queue.runnableRuns nowAt names).map RunRow.taskId ⊆ queue.tasks.map TaskRow.id := by
    intro id member
    obtain ⟨run, inRuns, isId⟩ := List.mem_map.mp member
    obtain ⟨_, life, shows_, isLast⟩ := waits run inRuns
    subst isLast
    rw [← isId, shows_.valid.owned _ life.last_mem_runs]
    exact List.mem_map_of_mem (mem_of_find shows_.findTask)
  have lengths := length_le_of_subset distinct within
  simpa using lengths

/-! ## Running tasks -/

/-- The expired lease of a task is reaped: the run has failed or is cancelled. -/
def ReapSucceeds (space : Char → Bool) (world : World) (task : TaskRow) : Prop :=
  ∃ after, (Operation.reapExpiredRun task.lastAttemptRun).perform space world = (.ok true, after) ∧
    ∃ run, after.store.findRun task.lastAttemptRun = some run ∧
      (run.state = .failed ∨ run.state = .cancelled)

theorem reapSucceeds (ready : world.Ready space) (usable : world.store.AllUsable)
    (shows_ : world.store.Shows space life) (bounded : life.last.attempt < maxInteger)
    (expires : world.Expires life.last) : ReapSucceeds space world life.task := by
  rcases ready.reap shows_ expires with ⟨error, _, reaps⟩ |
    ⟨transition, after, returned, reaps, sweeps⟩
  · obtain ⟨_, _, _, _, fails⟩ := reaps
    obtain ⟨transition, isTransition⟩ := Life.failure_total shows_.valid (usable.due shows_) bounded
      _ _ _ _
    rw [isTransition] at fails
    cases fails
  · obtain ⟨_, _, _, _, fails⟩ := reaps
    obtain ⟨run, member, isRun, ended⟩ := Life.ended_of_failure fails
    have shown := sweeps.moved.shows sweeps.ready.sound shows_
    rw [Life.moved_of_some (Moves.single_self _ _)] at shown
    unfold ReapSucceeds
    rw [shows_.valid.pointed]
    refine ⟨after, Operation.perform_returned ready.sound returned, run, ?_, ended⟩
    rw [← isRun]
    exact shown.findRun member

/-! ## Waiting tasks -/

/-- A claim that asks for enough runs returns the run of a task. -/
def ClaimSucceeds (space : Char → Bool) (world : World) (task : TaskRow) : Prop :=
  ∀ workerId leaseSeconds quantity taskNames request,
    validateClaim space workerId leaseSeconds quantity taskNames = .ok request →
    request.taskNames.contains task.name = true → world.store.runs.length ≤ request.quantity →
      ∃ rows after, (Operation.claimTasks workerId leaseSeconds quantity taskNames).perform space
          world = (.ok rows, after) ∧
        (∃ row ∈ rows, row.runId = task.lastAttemptRun ∧ row.taskId = task.id) ∧
        (after.store.findTask task.id).map TaskRow.state = some .running

/-- A deadline sweep with a sufficient limit cancels a task. -/
def CancelSucceeds (space : Char → Bool) (world : World) (task : TaskRow) : Prop :=
  ∀ limit : Int, 0 < limit → world.store.runs.length ≤ limit →
    ∃ count after, (Operation.cancelExpiredTasks (some limit)).perform space world =
        (.ok count, after) ∧
      (after.store.findTask task.id).map TaskRow.state = some .cancelled

theorem cancelSucceeds (ready : world.Ready space) (usable : world.store.AllUsable)
    (shows_ : world.store.Shows space life) (isOpen : life.task.state.terminal = false)
    (isDue : life.task.due (some (world.clock 0)) = .ok true) :
    CancelSucceeds space world life.task := by
  intro limit positive enough
  rcases alone_cancelExpiredTasks ready positive with
    ⟨other, error, showsOther, _, failed, _⟩ | ⟨_, moves, after, returned, sweeps, cancels⟩
  · obtain ⟨isDueToo, due⟩ := usable.due showsOther (some (world.clock 0))
    rw [due] at failed
    cases failed
  · have short : (world.store.dueTasks (world.clock 0)).length ≤ limit.toNat := by
      have dueLength := world.store.dueTasks_length (world.clock 0)
      have tasksLength := ready.sound.tasks_le_runs
      omega
    rw [List.take_of_length_le short] at cancels
    have member : life.task ∈ world.store.dueTasks (world.clock 0) :=
      mem_dueTasks.mpr ⟨mem_of_find shows_.findTask, isOpen, isDue⟩
    obtain ⟨position, chosen⟩ := cancels.chosen _ (List.mem_map_of_mem member)
    have rows := sweeps.moved.rows life shows_
    rw [Life.moved_of_some chosen] at rows
    refine ⟨_, after, Operation.perform_returned ready.sound returned, ?_⟩
    rw [show after.store.findTask life.task.id = _ from congrArg Rows.task rows]
    rfl

theorem World.Frozen.forward (frozen : world.Frozen time) : world.Forward := by
  intro first second _
  rw [frozen, frozen]

/-- A deadline sweep does not select a task before its deadline. -/
theorem Queue.Shows.not_mem_dueTasks (shows_ : queue.Shows space life)
    (notDue : life.task.due (some time) = .ok false) (count : Nat) :
    life.task.id ∉ ((queue.dueTasks time).take count).map TaskRow.id := by
  intro member
  obtain ⟨task, inTaken, isId⟩ := List.mem_map.mp member
  obtain ⟨inTasks, _, isDue⟩ := mem_dueTasks.mp (List.mem_of_mem_take inTaken)
  rw [← shows_.eq_task inTasks isId, notDue] at isDue
  cases isDue

/-- Sweeps leave a waiting task before its deadline. -/
theorem Queue.Shows.swept {swept : World} {limit : Int} (ready : world.Ready space)
    (frozen : world.Frozen time) (usable : world.store.AllUsable) (bounded : world.store.Bounded)
    (positive : 0 < limit) (shows_ : world.store.Shows space life)
    (waiting : life.last.state.claimable = true)
    (notDue : life.task.due (some time) = .ok false)
    (sweptBy : World.SweptBy space limit world swept) :
    swept.store.Shows space life ∧ swept.Frozen time ∧ swept.store.Sound space ∧
      swept.store.tasks.length ≤ world.store.tasks.length := by
  obtain ⟨first, middle, second, final, cancelled, cancelSweep, cancels, reaped, reapSweep, reaps,
    _⟩ := alone_sweeps ready frozen.forward usable bounded positive
  obtain ⟨_, other, _, cancelledToo, reapedToo⟩ := sweptBy
  have isMiddle : middle = other := congrArg Prod.snd (cancelled.symm.trans cancelledToo)
  subst isMiddle
  have isFinal : final = swept := congrArg Prod.snd (reaped.symm.trans reapedToo)
  subst isFinal
  have notDueNow : life.task.due (some (world.clock 0)) = .ok false := by
    rw [frozen]
    exact notDue
  have notCancelled := shows_.not_mem_dueTasks notDueNow limit.toNat
  have showsMiddle := cancelSweep.moved.shows_of_none cancelSweep.ready.sound shows_
    (cancels.others _ notCancelled)
  have notReaped : life.last.id ∉
      ((middle.store.expiredRuns (middle.clock 0)).take limit.toNat).map RunRow.id := by
    intro member
    obtain ⟨run, inTaken, isId⟩ := List.mem_map.mp member
    obtain ⟨inRuns, expired⟩ := Queue.mem_expiredRuns.mp (List.mem_of_mem_take inTaken)
    rw [showsMiddle.eq_run life.last_mem_runs inRuns isId, running_of_expiredAt expired] at waiting
    cases waiting
  have tickedMiddle : middle.tick.store.Shows space life := showsMiddle
  have stays : second life.task.id = none := reaps.others life tickedMiddle notReaped
  exact ⟨reapSweep.moved.shows_of_none reapSweep.ready.sound showsMiddle stays,
    frozen.later (cancelSweep.later.trans reapSweep.later), reapSweep.ready.sound,
    (reapSweep.moved.tasks_le reapSweep.ready.sound).trans
      (cancelSweep.moved.tasks_le cancelSweep.ready.sound)⟩

/-- A waiting last run before its deadline is runnable once it is available. -/
theorem Queue.Shows.runnable {names : List String} (shows_ : queue.Shows space life)
    (waiting : life.last.state.claimable = true) (available : life.last.availableAt ≤ time)
    (notDue : life.task.due (some time) = .ok false)
    (capable : names.contains life.task.name = true) :
    queue.runnable time names life.last = true := by
  have taskWaits : life.task.state.claimable = true := by
    rw [(shows_.valid.active_run life.last_mem_runs (State.active_of_claimable waiting)).2]
    exact waiting
  unfold Queue.runnable
  rw [shows_.owner life.last_mem_runs]
  simp only [waiting, taskWaits, shows_.valid.pointed, available, capable, notDue, Bool.true_and,
    beq_self_eq_true, decide_true]
  rfl

/-- The task row of a claimed run. -/
theorem Queue.Shows.running_claimed {workerId : String} {nowAt expiresAt : Timestamp}
    {taken : List RunRow} (shows_ : queue.Shows space life) (member : life.last ∈ taken) :
    ((queue.claimed workerId nowAt expiresAt taken).findTask life.task.id).map TaskRow.state =
      some .running := by
  have found : (queue.claimed workerId nowAt expiresAt taken).findTask life.task.id = _ :=
    @find_map TaskRow Uuid _ TaskRow.id _ (fun task => by split <;> rfl) life.task.id queue.tasks
  rw [found, show find TaskRow.id life.task.id queue.tasks = _ from shows_.findTask,
    Option.map_some, Option.map_some]
  have matched : (taken.find? fun run => run.taskId == life.task.id).isSome := by
    rw [List.find?_isSome]
    exact ⟨life.last, member, by simp [shows_.valid.owned _ life.last_mem_runs]⟩
  obtain ⟨run, isRun⟩ := Option.isSome_iff_exists.mp matched
  rw [isRun]
  rfl

theorem claimSucceeds (ready : world.Ready space) (frozen : world.Frozen time)
    (usable : world.store.AllUsable) (bounded : world.store.Bounded)
    (shows_ : world.store.Shows space life) (waiting : life.last.state.claimable = true)
    (available : life.last.availableAt ≤ time) (notDue : life.task.due (some time) = .ok false) :
    ClaimSucceeds space world life.task := by
  intro workerId leaseSeconds quantity taskNames request validated capable enough
  obtain ⟨swept, sweptBy, performed, _, _⟩ :=
    World.claims_exactly ready frozen.forward usable bounded validated
  have stands : World.Frozen (Session.tick world) time := frozen.later (World.Later.tick world)
  have ticked : world.tick.store.Shows space life := shows_
  obtain ⟨showsSwept, frozenSwept, soundSwept, tasksLength⟩ := ticked.swept ready.tick stands usable
    bounded (validateClaim_ok validated).2.2.1 waiting notDue sweptBy
  have short : (swept.store.runnableRuns (swept.clock 0) request.taskNames).length ≤
      request.quantity.toNat := by
    have runnableLength := soundSwept.runnableRuns_length (swept.clock 0) request.taskNames
    have runsLength := ready.sound.tasks_le_runs
    rw [Session.tick_store] at tasksLength
    omega
  have member : life.last ∈ swept.store.runnableRuns (swept.clock 0) request.taskNames := by
    rw [frozenSwept]
    exact Queue.mem_runnableRuns.mpr ⟨mem_of_find (showsSwept.findRun life.last_mem_runs),
      showsSwept.runnable waiting available notDue capable⟩
  rw [List.take_of_length_le short] at performed
  refine ⟨_, _, performed, ⟨claimedTask life.task life.last, ?_, shows_.valid.pointed.symm, rfl⟩,
    showsSwept.running_claimed member⟩
  refine List.mem_filterMap.mpr ⟨life.last, member, ?_⟩
  rw [showsSwept.owner life.last_mem_runs]
  rfl

/-! ## Sleeping forever -/

/-- A run is only available at `infinity` while it sleeps, or if its task was
cancelled then. -/
def Life.Dated (life : Life) : Prop :=
  life.last.availableAt = .infinity → life.last.state = .sleeping ∨ life.last.state = .cancelled

theorem Life.Dated.not_running (dated : life.Dated) {run : Uuid}
    (running : Transition.Running run life) : life.last.availableAt ≠ .infinity := by
  intro forever
  rcases dated forever with sleeping | cancelled
  · cases running.2.symm.trans sleeping
  · cases running.2.symm.trans cancelled

/-- Only a suspension makes a run available at `infinity`. -/
theorem Transition.dated_after {transition : Transition} (dated : life.Dated)
    (enabled : transition.Enabled space life) : (transition.after life).Dated := by
  intro forever
  cases transition with
  | claim | retry | reopen => cases forever
  | sleep => exact Or.inl rfl
  | cancel => exact Or.inr rfl
  | renew => exact absurd forever (dated.not_running enabled)
  | complete | exhaust | abandon => exact absurd forever (dated.not_running enabled.1)

/-- A submitted run is available when its submission was decided. -/
theorem Call.Caused.submitted_at {call : Call} {events : List Event} {row : TaskRow} {run : RunRow}
    (caused : call.Caused space events) (member : .submitted row run ∈ events) :
    run.availableAt = row.enqueueAt := by
  obtain ⟨operation, outcome⟩ := call
  cases outcome with
  | error error =>
      rw [show events = [] from caused] at member
      cases member
  | ok result =>
      have may := Operation.Caused.mayCause caused _ member
      cases operation with
      | spawnTask taskName params options =>
          obtain ⟨request, _, ⟨_, runId, nowAt, isEvents⟩ | ⟨_, isEvents⟩⟩ := caused
          · rw [isEvents, List.mem_singleton] at member
            cases member
            rfl
          · rw [isEvents] at member
            cases member
      | _ => cases may

theorem History.dated {initial reached : World} {past : List Call}
    (history : History space initial past reached)
    (rows : reached.store.rowsOf life.task.id = Life.rows (some life)) : life.Dated := by
  obtain ⟨_, _, chunks, areCaused, advances⟩ := history.advances
  obtain ⟨last, lastRows, evolves⟩ := advances.evolves_to (history.initial_rows life.task.id)
  obtain rfl : last = some life := Life.rows_injective (lastRows.symm.trans rows)
  refine evolves.invariant ?_ fun transition before _ _ enabled _ dated =>
    transition.dated_after dated enabled
  intro row run member _ _ forever
  obtain ⟨call, _, chunk, causes, inChunk⟩ := call_of_event areCaused member
  have submitted : run.availableAt = row.enqueueAt := causes.submitted_at inChunk
  cases submitted.symm.trans forever

/-- A task sleeps until `infinity`. -/
def Queue.SleepsForever (queue : Queue) (task : TaskRow) : Prop :=
  task.state = .sleeping ∧
    ∃ run, queue.findRun task.lastAttemptRun = some run ∧ run.availableAt = .infinity

/-- A waiting task that does not sleep forever is available from some time on. -/
theorem Queue.Shows.available_since (shows_ : queue.Shows space life) (dated : life.Dated)
    (waiting : life.last.state.claimable = true) (awake : ¬queue.SleepsForever life.task) :
    ∃ since : Timestamp, life.last.availableAt = since := by
  cases available : life.last.availableAt with
  | point since => exact ⟨since, rfl⟩
  | infinity =>
      refine absurd ?_ awake
      obtain ⟨_, sameState⟩ :=
        shows_.valid.active_run life.last_mem_runs (State.active_of_claimable waiting)
      rcases dated available with sleeping | cancelled
      · exact ⟨sameState.trans sleeping, life.last,
          shows_.valid.pointed ▸ shows_.findRun life.last_mem_runs, available⟩
      · rw [cancelled] at waiting
        cases waiting

/-- No claim returns a run that is available at `infinity`. -/
theorem not_claimSucceeds {workerId : Option String} {leaseSeconds quantity : Option Int}
    {taskNames : Option (List (Option String))} {request : ClaimRequest}
    (ready : world.Ready space) (frozen : world.Frozen time) (usable : world.store.AllUsable)
    (bounded : world.store.Bounded) (shows_ : world.store.Shows space life)
    (waiting : life.last.state.claimable = true) (forever : life.last.availableAt = .infinity)
    (notDue : life.task.due (some time) = .ok false)
    (validated : validateClaim space workerId leaseSeconds quantity taskNames = .ok request)
    (capable : request.taskNames.contains life.task.name = true)
    (enough : world.store.runs.length ≤ request.quantity) :
    ¬ClaimSucceeds space world life.task := by
  intro succeeds
  obtain ⟨rows, after, claims, ⟨row, member, isRun, _⟩, _⟩ :=
    succeeds _ _ _ _ _ validated capable enough
  obtain ⟨swept, sweptBy, performed, areRuns, available⟩ :=
    World.claims_exactly ready frozen.forward usable bounded validated
  have stands : World.Frozen (Session.tick world) time := frozen.later (World.Later.tick world)
  have ticked : world.tick.store.Shows space life := shows_
  obtain ⟨showsSwept, _⟩ := ticked.swept ready.tick stands usable bounded
    (validateClaim_ok validated).2.2.1 waiting notDue sweptBy
  have sameRows := Except.ok.inj (congrArg Prod.fst (claims.symm.trans performed))
  have returned : life.last.id ∈ rows.map ClaimedTask.runId := by
    rw [← shows_.valid.pointed, ← isRun]
    exact List.mem_map_of_mem member
  rw [sameRows, areRuns] at returned
  obtain ⟨run, taken, isLast⟩ := List.mem_map.mp returned
  have inRuns := (Queue.mem_runnableRuns.mp (List.mem_of_mem_take taken)).1
  have early := available run taken
  rw [← showsSwept.eq_run life.last_mem_runs inRuns isLast, forever] at early
  exact Timestamptz.not_infinity_le _ early

/-- No deadline sweep cancels a task whose deadline is not reached. -/
theorem not_cancelSucceeds (ready : world.Ready space) (usable : world.store.AllUsable)
    (shows_ : world.store.Shows space life) (isOpen : life.task.state.terminal = false)
    (notDue : life.task.due (some (world.clock 0)) = .ok false) :
    ¬CancelSucceeds space world life.task := by
  intro succeeds
  obtain ⟨limit, positive, enough⟩ : ∃ limit : Int, 0 < limit ∧ world.store.runs.length ≤ limit :=
    ⟨world.store.runs.length + 1, by omega, by omega⟩
  obtain ⟨_, after, performed, isCancelled⟩ := succeeds limit positive enough
  rcases alone_cancelExpiredTasks ready positive with
    ⟨other, error, showsOther, _, failed, _⟩ | ⟨_, moves, final, returned, sweeps, cancels⟩
  · obtain ⟨isDue, due⟩ := usable.due showsOther (some (world.clock 0))
    rw [due] at failed
    cases failed
  · have same := performed.symm.trans (Operation.perform_returned ready.sound returned)
    obtain rfl : after = final := congrArg Prod.snd same
    have kept := sweeps.moved.shows_of_none sweeps.ready.sound shows_
      (cancels.others _ (shows_.not_mem_dueTasks notDue limit.toNat))
    rw [kept.findTask, Option.map_some, Option.some.injEq] at isCancelled
    rw [isCancelled] at isOpen
    cases isOpen

/-! ## The law -/

/-- From some time on, a running task is reaped, and a waiting one is claimed or
cancelled. -/
def World.Progresses (space : Char → Bool) (reached : World) (task : TaskRow) : Prop :=
  ∃ since, ∀ time, since ≤ time → ∀ world, reached.Stands space time world →
    (task.state = .running → ReapSucceeds space world task) ∧
    (task.state ≠ .running → ClaimSucceeds space world task ∨ CancelSucceeds space world task)

/-- In every state of a history whose policies are written without fractions
and whose attempt numbers are not exhausted, every open task that does not sleep
until `infinity` progresses. -/
theorem History.progresses {initial reached : World} {past : List Call}
    (history : History space initial past reached)
    (literal : ∀ call ∈ past, call.SubmitsLiteral space)
    (numbered : ∀ run ∈ reached.store.runs, run.attempt < maxInteger) :
    ∀ task ∈ reached.store.tasks, task.state.terminal = false →
      ¬reached.store.SleepsForever task → reached.Progresses space task := by
  intro task member isOpen awake
  obtain ⟨life, isTask, _, shows_⟩ :=
    history.sound.shows_of_findTask (history.sound.keyed.findTask_of_mem member)
  subst isTask
  have available : life.last.state.claimable = true →
      ∃ since : Timestamp, life.last.availableAt = since :=
    fun waiting => shows_.available_since (history.dated shows_.rows) waiting awake
  have since : ∃ since : Timestamp, (life.last.state.claimable = true →
      life.last.availableAt ≤ since) ∧ ∀ expiry ∈ life.last.claimExpiresAt, expiry ≤ since := by
    cases waits : life.last.state.claimable with
    | true =>
        obtain ⟨opens, isOpening⟩ := available waits
        refine ⟨max opens (life.last.claimExpiresAt.getD 0), fun _ => ?_, fun expiry isExpiry => ?_⟩
        · rw [isOpening]
          exact Timestamptz.point_le_point.mpr (le_max_left _ _)
        · rw [Option.mem_def.mp isExpiry]
          exact le_max_right _ _
    | false =>
        refine ⟨life.last.claimExpiresAt.getD 0, ?_, fun expiry isExpiry => ?_⟩
        · rintro ⟨⟩
        · rw [Option.mem_def.mp isExpiry]
          rfl
  obtain ⟨since, opens, ends⟩ := since
  refine ⟨since, ?_⟩
  intro time late world stands
  have usable := history.allUsable literal
  rw [← stands.store] at usable
  have shown : world.store.Shows space life := stands.store ▸ shows_
  have sameState : life.task.state = life.last.state := by
    rcases shows_.valid.agrees with same | ⟨cancelled, _⟩
    · exact same
    · rw [cancelled] at isOpen
      cases isOpen
  have bounded : world.store.Bounded := fun run inRuns _ => by
    rw [stands.store] at inRuns
    exact numbered run inRuns
  constructor
  · intro running
    have lastRuns := sameState.symm.trans running
    obtain ⟨expiry, isExpiry⟩ :=
      RunRow.expiry_of_running (shows_.valid.lease life.last_mem_runs) lastRuns
    refine reapSucceeds stands.ready usable shown
      (numbered _ (mem_of_find (shows_.findRun life.last_mem_runs))) ?_
    intro position
    have expired : expiry ≤ time := (ends expiry isExpiry).trans late
    simp [expiredAt, lastRuns, isExpiry, stands.frozen position, expired]
  · intro notRunning
    have waiting : life.last.state.claimable = true := by
      rw [← sameState]
      revert isOpen notRunning
      cases life.task.state <;> decide
    obtain ⟨isDue, due⟩ := usable.due shown (some time)
    cases isDue with
    | true => exact Or.inr (cancelSucceeds stands.ready usable shown isOpen (by
        rw [stands.frozen]
        exact due))
    | false =>
        exact Or.inl (claimSucceeds stands.ready stands.frozen usable bounded shown waiting
          ((opens waiting).trans (Timestamptz.point_le_point.mpr late)) due)

theorem Call.submitsLiteral_plain {call : Call} (isPlain : call.operation = plainSubmission []) :
    call.SubmitsLiteral asciiSpace := by
  intro taskName params options submission policy isSpawn accepted isPolicy
  rw [isPlain] at isSpawn
  cases isSpawn
  cases accepted
  cases isPolicy

/-- A submitted task and a claimed one. -/
theorem History.progresses_claimed :
    let served := World.serve asciiSpace
      [plainSubmission [], plainClaim "worker", plainSubmission []] (.blank second)
    served.2.store.tasks.map TaskRow.state = [.running, .pending] ∧
      ∀ task ∈ served.2.store.tasks, served.2.Progresses asciiSpace task := by
  intro served
  have open_ : ∀ task ∈ served.2.store.tasks,
      task.state.terminal = false ∧ ¬served.2.store.SleepsForever task := by
    intro task member
    rcases List.mem_pair.mp (show task ∈ [_, _] from member) with rfl | rfl
    · exact ⟨rfl, fun forever => by cases forever.1⟩
    · exact ⟨rfl, fun forever => by cases forever.1⟩
  refine ⟨rfl, fun task member => History.progresses (World.history_serve _ second) ?_ ?_ task member
    (open_ task member).1 (open_ task member).2⟩
  · intro call member
    rcases List.mem_cons.mp (show call ∈ [_, _, _] from member) with rfl | others
    · exact Call.submitsLiteral_plain rfl
    rcases List.mem_pair.mp others with rfl | rfl
    · intro _ _ _ _ _ isSpawn
      cases isSpawn
    · exact Call.submitsLiteral_plain rfl
  · intro run member
    rcases List.mem_pair.mp (show run ∈ [_, _] from member) with rfl | rfl
    · decide
    · decide

/-- A worker suspends its run until `infinity`, and nothing moves the task again. -/
theorem History.not_progresses_asleep :
    let served := World.serve asciiSpace
      [plainSubmission [], plainClaim "worker", .scheduleRun 1 (some .infinity)] (.blank second)
    History asciiSpace (.blank second) served.1 served.2 ∧
      (∀ call ∈ served.1, call.SubmitsLiteral asciiSpace) ∧
      (∀ run ∈ served.2.store.runs, run.attempt < maxInteger) ∧
      ∃ task ∈ served.2.store.tasks, task.state.terminal = false ∧
        ¬served.2.Progresses asciiSpace task := by
  intro served
  have history : History asciiSpace (.blank second) served.1 served.2 :=
    World.history_serve _ second
  have literal : ∀ call ∈ served.1, call.SubmitsLiteral asciiSpace := by
    intro call member
    rcases List.mem_cons.mp (show call ∈ [_, _, _] from member) with rfl | others
    · exact Call.submitsLiteral_plain rfl
    rcases List.mem_pair.mp others with rfl | rfl <;>
      · intro _ _ _ _ _ isSpawn
        cases isSpawn
  have numbered : ∀ run ∈ served.2.store.runs, run.attempt < maxInteger := by
    intro run member
    rw [List.mem_singleton.mp (show run ∈ [_] from member)]
    decide
  have one : 0 < served.2.store.tasks.length := by decide
  let task := served.2.store.tasks.get ⟨0, one⟩
  have member : task ∈ served.2.store.tasks := List.get_mem _ _
  refine ⟨history, literal, numbered, task, member, rfl, ?_⟩
  rintro ⟨since, progresses⟩
  obtain ⟨_, waits⟩ := progresses since le_rfl _ (World.stands_stopped history.ready since)
  obtain ⟨life, isTask, _, shows_⟩ :=
    history.sound.shows_of_findTask (history.sound.keyed.findTask_of_mem member)
  have found := shows_.findRun life.last_mem_runs
  rw [← shows_.valid.pointed, isTask] at found
  have isLast : life.last = _ := Option.some.inj (found.symm.trans (show _ = some _ from rfl))
  have usable := history.allUsable literal
  have ready := history.ready.stopped since
  have shown : (served.2.stopped since).store.Shows asciiSpace life := shows_
  have notDue : life.task.due (some since) = .ok false := by
    rw [isTask]
    rfl
  have sleeps : life.task.state = .sleeping := by
    rw [isTask]
    rfl
  rw [← isTask] at waits
  rcases waits (by rw [sleeps]; decide) with claimed | cancelled
  · refine not_claimSucceeds ready (World.frozen_stopped served.2 since) usable ?_ shown ?_ ?_ notDue
      (show validateClaim asciiSpace (some "worker") (some 60) (some 1) (some [some "report"]) =
        .ok _ from rfl) ?_ ?_ claimed
    · exact fun run inRuns _ => numbered run inRuns
    · rw [isLast]
      rfl
    · rw [isLast]
      rfl
    · rw [isTask]
      rfl
    · exact le_refl (1 : Int)
  · exact not_cancelSucceeds ready usable shown (by rw [sleeps]; rfl) notDue cancelled

end Steda
