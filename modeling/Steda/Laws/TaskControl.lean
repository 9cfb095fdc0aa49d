import Steda.Client.TaskControl
import Steda.Laws.Budget
import Steda.Laws.Defences
import Steda.Laws.References

/-!
# Control through handles

A call of a handle checks its reference and acts in two transactions.  What it
does is what it would do in one: a reference never comes to name another task
between the two, and the action has at most one effect.
-/

namespace Steda

open Postgres Transaction Relational

variable {space : Char → Bool} {queue : String} {world after : World} {task : TaskRef}

/-! ## One step -/

/-- A call as one step: its check and its action on one state. -/
def ControlAction.atomically (space : Char → Bool) (queue : String) (task : TaskRef)
    (action : ControlAction) (world : World) : Except Error action.Result × World :=
  let (found, checked) := (Operation.getTaskResult task.taskId).perform space world
  match ensureTaskRef task.taskId
      (fetchedSnapshot queue task.taskName task.taskId found) with
  | .error error => (.error error, checked)
  | .ok () =>
      let (outcome, after) := (action.operation task.taskId).perform space checked
      (action.received queue task.taskId outcome, after)

/-- A check that fails is the whole step. -/
theorem ControlAction.atomically_refused {action : ControlAction} {error : Error}
    {outcome : Except SqlError (Option TaskResult)}
    (serves : Served space world ⟨.getTaskResult task.taskId, outcome⟩ after)
    (refused : ensureTaskRef task.taskId
      (fetchedSnapshot queue task.taskName task.taskId outcome) = .error error) :
    action.atomically space queue task world = (.error error, after) := by
  have performed : (Operation.getTaskResult task.taskId).perform space world = (outcome, after) :=
    serves
  simp only [atomically, performed, refused]

/-- The check passes for a task of the name of the reference. -/
theorem ensureTaskRef_named {life : Life} (valid : life.Valid space)
    (named : life.task.name = task.taskName) :
    ensureTaskRef task.taskId (fetchedSnapshot queue task.taskName task.taskId
      (.ok (some life.result))) = .ok () := by
  obtain ⟨snapshot, decoded⟩ := @fetchTaskResultSnapshot_ok task.taskName task.taskId life.result
    named valid.result_payload.1 valid.result_payload.2
  simp only [fetchedSnapshot, decoded, Except.mapError]
  rfl

/-- A check that passes has found a task of the name of the reference. -/
theorem named_of_ensureTaskRef {outcome : Except SqlError (Option TaskResult)}
    (sound : world.store.Sound space)
    (serves : Served space world ⟨.getTaskResult task.taskId, outcome⟩ after)
    (passed : ensureTaskRef task.taskId
      (fetchedSnapshot queue task.taskName task.taskId outcome) = .ok ()) :
    ∃ life : Life, world.store.rowsOf task.taskId = Life.rows (some life) ∧
      life.task.name = task.taskName := by
  obtain ⟨life, rows, _⟩ := sound.lives task.taskId
  have isOutcome : Except.ok (life.map Life.result) = outcome :=
    congrArg Prod.fst (Eq.trans (sound.serves_getTaskResult rows).symm serves)
  subst isOutcome
  cases life with
  | none => cases passed
  | some life =>
      refine ⟨life, rows, ?_⟩
      by_contra different
      have refused : fetchTaskResultSnapshot task.taskName task.taskId (some life.result) =
          .error (.taskNameMismatch task.taskId task.taskName life.task.name) := if_pos different
      simp only [Option.map_some, fetchedSnapshot, refused, Except.mapError] at passed
      cases passed

/-- The action on a task of the name of the reference is the whole step. -/
theorem ControlAction.atomically_named {action : ControlAction} {life : Life}
    {outcome : Except SqlError (action.operation task.taskId).Result}
    (sound : world.store.Sound space)
    (rows : world.store.rowsOf task.taskId = Life.rows (some life))
    (named : life.task.name = task.taskName)
    (serves : Served space world ⟨action.operation task.taskId, outcome⟩ after) :
    action.atomically space queue task world =
      (action.received queue task.taskId outcome, after) := by
  have checked : (Operation.getTaskResult task.taskId).perform space world =
      (.ok (some life.result), world) := sound.serves_getTaskResult rows
  have performed : (action.operation task.taskId).perform space world = (outcome, after) := serves
  simp only [atomically, checked, ensureTaskRef_named (sound.life_of_rows rows).1 named, performed]

/-! ## Deleted tasks -/

/-- `cancel_task` of a task that does not exist. -/
theorem alone_cancelTask_absent {id : Uuid} (absent : world.store.findTask id = none) :
    alone space (cancelTask id) world = (.error (.taskNotFound id), world.tick) := by
  simp only [cancelTask, alone_bind, alone_currentTime, alone_snapshot, Session.tick_store,
    alone_lockRuns]
  obtain ⟨selected, isSelected⟩ := selectRuns_total world.store RunRow.id
    (fun _ run => cancellableRun id run)
    ((world.store.runs.filter (cancellableRun id)).insertionSort
      fun left right => left.id ≤ right.id)
    ((world.store.runs.filter (cancellableRun id)).insertionSort
      fun left right => left.id ≤ right.id).length
  simp only [isSelected, alone_lockTask, Session.tick_store, absent]
  rfl

/-- `retry_task` of a task that does not exist. -/
theorem alone_retryTask_absent {id : Uuid} (absent : world.store.findTask id = none) :
    alone space (retryTask id) world = (.error (.taskNotFound id), world.tick) := by
  simp only [retryTask, alone_bind, alone_currentTime, alone_lockTask, Session.tick_store, absent]
  rfl

/-- An action on a task that does not exist fails. -/
theorem ControlAction.raises_absent (action : ControlAction) {id : Uuid}
    (absent : world.store.findTask id = none) :
    (alone space ((action.operation id).program space) world).1 = .error (.taskNotFound id) := by
  cases action with
  | cancel => exact congrArg Prod.fst (alone_cancelTask_absent absent)
  | retry => exact congrArg Prod.fst (alone_retryTask_absent absent)

/-- What a call returns whose action failed. -/
theorem ControlAction.received_error (action : ControlAction) (id : Uuid) (error : SqlError) :
    action.received queue id (.error error) = .error (.database (error.received queue)) := by
  cases action <;> rfl

/-- What a call returns whose action did not fail. -/
theorem ControlAction.received_ok {action : ControlAction} {id : Uuid}
    (result : (action.operation id).Result) :
    ∃ value, action.received queue id (.ok result) = .ok value := by
  cases action <;> exact ⟨_, rfl⟩

/-- A call that succeeds in one step has found a task of its name, and its action
has succeeded. -/
theorem ControlAction.atomically_ok {action : ControlAction} {value : action.Result}
    (sound : world.store.Sound space)
    (succeeded : action.atomically space queue task world = (.ok value, after)) :
    ∃ (life : Life) (result : (action.operation task.taskId).Result),
      world.store.rowsOf task.taskId = Life.rows (some life) ∧ life.task.name = task.taskName ∧
        Served space world ⟨action.operation task.taskId, .ok result⟩ after ∧
        action.received queue task.taskId (.ok result) = .ok value := by
  rcases checked : (Operation.getTaskResult task.taskId).perform space world with ⟨found, middle⟩
  cases passed : ensureTaskRef task.taskId
      (fetchedSnapshot queue task.taskName task.taskId found) with
  | error error =>
      rw [ControlAction.atomically_refused checked passed] at succeeded
      cases succeeded
  | ok =>
      obtain ⟨life, rows, named⟩ := named_of_ensureTaskRef sound checked passed
      rcases performed : (action.operation task.taskId).perform space world with ⟨outcome, last⟩
      rw [ControlAction.atomically_named sound rows named performed] at succeeded
      obtain ⟨isValue, rfl⟩ := Prod.mk.inj succeeded
      cases outcome with
      | error error =>
          rw [ControlAction.received_error] at isValue
          cases isValue
      | ok result => exact ⟨life, result, rows, named, performed, isValue⟩

/-! ## Runs -/

/-- The call of a step. -/
def ControlEvent.call? : ControlEvent → Option Nat
  | .served _ => none
  | .began id | .checked id _ | .acted id _ | .unheard id _ | .unsent id => some id

/-- The call that acts in a step. -/
def ControlEvent.acting? : ControlEvent → Option Nat
  | .acted id _ | .unheard id _ => some id
  | _ => none

/-- A task of the name of a reference was there at some time. -/
def ControlledQueue.Seen (space : Char → Bool) (initial world : World) (task : TaskRef) : Prop :=
  ∃ past later seen, History space initial past seen ∧ Trace (Served space) seen later world ∧
    ∃ life : Life, seen.store.rowsOf task.taskId = Life.rows (some life) ∧
      life.task.name = task.taskName

namespace ControlledQueue

variable {initial : World} {before next final : ControlledQueue} {events : List ControlEvent}
  {event : ControlEvent}

/-- A task that was seen has the name of the reference as long as it exists. -/
theorem Seen.named (seen : Seen space initial world task) {life : Life}
    (rows : world.store.rowsOf task.taskId = Life.rows (some life)) :
    life.task.name = task.taskName := by
  obtain ⟨past, later, early, history, trace, first, firstRows, named⟩ := seen
  have same := (history.precedes trace firstRows rows).submission
  exact (congrArg Submission.name same).trans named

/-- What was seen was seen. -/
theorem Seen.later (seen : Seen space initial world task) {calls : List Call}
    (trace : Trace (Served space) world calls after) : Seen space initial after task := by
  obtain ⟨past, later, early, history, earlier, found⟩ := seen
  exact ⟨past, later ++ calls, early, history, earlier.append trace, found⟩

/-- The queue serves at most one call in a step. -/
theorem Step.world_trace (steps : Step space queue before event next) :
    Trace (Served space) before.world event.served?.toList next.world := by
  cases steps with
  | served serves => exact .cons serves (.nil _)
  | began | unsent => exact .nil _
  | checked _ serves => exact .cons serves (.nil _)
  | acted _ serves => exact .cons serves (.nil _)
  | unheard _ serves => exact .cons serves (.nil _)

/-- The history of the queue. -/
theorem Run.history (run : Run space queue initial events final) :
    History space initial (events.filterMap ControlEvent.served?) final.world :=
  ⟨run.empty, run.fresh, run.trace.project ControlledQueue.world ControlEvent.served?
    fun _ _ _ => Step.world_trace⟩

/-- The queue after one more step. -/
theorem Run.snoc (run : Run space queue initial events before)
    (steps : Step space queue before event next) :
    Run space queue initial (events ++ [event]) next :=
  ⟨run.empty, run.fresh, run.trace.append (.cons steps (.nil _))⟩

/-- A property that every step from a reached state keeps holds in every reached
state. -/
theorem Run.induction {holds : List ControlEvent → ControlledQueue → Prop}
    (run : Run space queue initial events final) (begins : holds [] (.start initial))
    (kept : ∀ past source event target, Run space queue initial past source →
      Step space queue source event target → holds past source →
      holds (past ++ [event]) target) : holds events final := by
  let reached (past : List ControlEvent) (state : ControlledQueue) : Prop :=
    Run space queue initial past state ∧ holds past state
  have started : reached [] (.start initial) := ⟨⟨run.empty, run.fresh, .nil _⟩, begins⟩
  have all : reached events final := by
    refine Trace.invariant_labels run.trace ?_ started
    intro past source event target steps now
    exact ⟨now.1.snoc steps, kept past source event target now.1 steps now.2⟩
  exact all.2

/-- A step decides what a call returns: its check fails, or its action is
answered. -/
inductive Decides (queue : String) (id : Nat) (task : TaskRef) :
    (action : ControlAction) → Except Error action.Result → ControlEvent → Prop
  | checked {action : ControlAction} (call : Call) (error : Error) :
      Decides queue id task action (.error error) (.checked id call)
  | acted {action : ControlAction} (outcome : Except SqlError (action.operation task.taskId).Result) :
      Decides queue id task action (action.received queue task.taskId outcome)
        (.acted id ⟨action.operation task.taskId, outcome⟩)

/-- How a call has come to return a result. -/
inductive Returns (space : Char → Bool) (queue : String) (initial : World)
    (events : List ControlEvent) (final : ControlledQueue) (id : Nat) (task : TaskRef) :
    (action : ControlAction) → Except Error action.Result → Prop
  /-- It is the result of the check and the action in one step. -/
  | atomically {action : ControlAction} {result : Except Error action.Result}
      {past future : List ControlEvent} {event : ControlEvent} {source target : ControlledQueue}
      (moment : Moment (Step space queue) (.start initial) events final past event future source
        target)
      (decides : Decides queue id task action result event)
      (isResult : action.atomically space queue task source.world = (result, target.world)) :
      Returns space queue initial events final id task action result
  /-- The task of the reference was deleted after the check. -/
  | deleted {action : ControlAction} {result : Except Error action.Result}
      {past future : List ControlEvent} {call : Call} {source target : ControlledQueue}
      (moment : Moment (Step space queue) (.start initial) events final past (.acted id call) future
        source target)
      (seen : Seen space initial source.world task)
      (absent : source.world.store.findTask task.taskId = none)
      (isResult : result = .error (.database ((SqlError.taskNotFound task.taskId).received queue))) :
      Returns space queue initial events final id task action result
  /-- A statement did not reach the database, or its answer was lost. -/
  | lost {action : ControlAction} {error : SqlxError}
      (interrupted : .unsent id ∈ events ∨ ∃ call, .unheard id call ∈ events) :
      Returns space queue initial events final id task action (.error (.database error))

theorem Returns.snoc {id : Nat} {action : ControlAction} {result : Except Error action.Result}
    (returns : Returns space queue initial events before id task action result)
    (steps : Step space queue before event next) :
    Returns space queue initial (events ++ [event]) next id task action result := by
  cases returns with
  | atomically moment decides isResult => exact .atomically (moment.snoc steps) decides isResult
  | deleted moment seen absent isResult => exact .deleted (moment.snoc steps) seen absent isResult
  | lost interrupted =>
      refine .lost ?_
      rcases interrupted with unsent | ⟨call, unheard⟩
      · exact Or.inl (List.mem_append_left _ unsent)
      · exact Or.inr ⟨call, List.mem_append_left _ unheard⟩

/-- What holds of a queue with handles: calls that act have seen their task,
results have come about, and no call acts twice. -/
structure Coherent (space : Char → Bool) (queue : String) (initial : World)
    (events : List ControlEvent) (final : ControlledQueue) : Prop where
  acting : ∀ id task action, final.calls id = some ⟨task, action, .acting⟩ →
    Seen space initial final.world task
  returned : ∀ id task action result, final.calls id = some ⟨task, action, .returned result⟩ →
    Returns space queue initial events final id task action result
  acted : ∀ id ∈ events.filterMap ControlEvent.acting?,
    ∃ task action result, final.calls id = some ⟨task, action, .returned result⟩
  once : (events.filterMap ControlEvent.acting?).Nodup

/-- A call whose check has passed acts. -/
theorem checked_acting {Result : Type} {check : Except Error Unit}
    (isActing : ControlPhase.checked check = (.acting : ControlPhase Result)) : check = .ok () := by
  cases check with
  | error error => cases isActing
  | ok => rfl

/-- A call whose check has not passed has returned the error. -/
theorem checked_returned {Result : Type} {check : Except Error Unit}
    {result : Except Error Result}
    (isReturned : ControlPhase.checked check = .returned result) :
    ∃ error, check = .error error ∧ result = .error error := by
  cases check with
  | error error => exact ⟨error, rfl, (ControlPhase.returned.inj isReturned).symm⟩
  | ok => cases isReturned

/-- What a call that acts has seen. -/
theorem Coherent.acting_next (coherent : Coherent space queue initial events before)
    (run : Run space queue initial events before) (steps : Step space queue before event next)
    {id : Nat} {task : TaskRef} {action : ControlAction}
    (isCall : next.calls id = some ⟨task, action, .acting⟩) :
    Seen space initial next.world task := by
  have old : before.calls id = some ⟨task, action, .acting⟩ → Seen space initial next.world task :=
    fun known => (coherent.acting id task action known).later steps.world_trace
  cases steps with
  | served => exact old isCall
  | @checked used found foundAction outcome world isFound serves =>
      rw [withCall_calls] at isCall
      split at isCall
      · obtain ⟨rfl, rfl, isPhase⟩ := ControlCall.mk.inj (Option.some.inj isCall)
        obtain ⟨life, rows, named⟩ := named_of_ensureTaskRef run.history.sound serves
          (checked_acting (eq_of_heq isPhase))
        exact ⟨_, [_], before.world, run.history, .cons serves (.nil _), life, rows, named⟩
      · exact old isCall
  | began | acted | unheard | unsent =>
      rw [withCall_calls] at isCall
      split at isCall
      · have phases := (ControlCall.mk.inj (Option.some.inj isCall)).2
        obtain ⟨rfl, isPhase⟩ := phases
        cases eq_of_heq isPhase
      · exact old isCall

/-- An action of a call whose check has passed is one step with its check, or
finds the task deleted. -/
theorem Seen.acts {action : ControlAction}
    {outcome : Except SqlError (action.operation task.taskId).Result}
    (seen : Seen space initial world task) (sound : world.store.Sound space)
    (serves : Served space world ⟨action.operation task.taskId, outcome⟩ after) :
    action.atomically space queue task world =
        (action.received queue task.taskId outcome, after) ∨
      world.store.findTask task.taskId = none ∧ outcome = .error (.taskNotFound task.taskId) ∧
        after.store = world.store := by
  obtain ⟨life, rows, _⟩ := sound.lives task.taskId
  cases life with
  | some life => exact Or.inl (ControlAction.atomically_named sound rows (seen.named rows) serves)
  | none =>
      have absent : world.store.findTask task.taskId = none := congrArg Rows.task rows
      exact Or.inr ⟨absent, serves.of_raises sound (action.raises_absent absent)⟩

/-- How a call has returned after one more step. -/
theorem Coherent.returned_next (coherent : Coherent space queue initial events before)
    (run : Run space queue initial events before) (steps : Step space queue before event next)
    {id : Nat} {task : TaskRef} {action : ControlAction} {result : Except Error action.Result}
    (isCall : next.calls id = some ⟨task, action, .returned result⟩) :
    Returns space queue initial (events ++ [event]) next id task action result := by
  have old : before.calls id = some ⟨task, action, .returned result⟩ →
      Returns space queue initial (events ++ [event]) next id task action result :=
    fun known => (coherent.returned id task action result known).snoc steps
  have moment := Moment.now run.trace steps
  cases steps with
  | served => exact old isCall
  | began =>
      rw [withCall_calls] at isCall
      split at isCall
      · obtain ⟨rfl, rfl, isPhase⟩ := ControlCall.mk.inj (Option.some.inj isCall)
        cases eq_of_heq isPhase
      · exact old isCall
  | checked isFound serves =>
      rw [withCall_calls] at isCall
      split at isCall
      · next same =>
          subst same
          obtain ⟨rfl, rfl, isPhase⟩ := ControlCall.mk.inj (Option.some.inj isCall)
          obtain ⟨error, refused, rfl⟩ := checked_returned (eq_of_heq isPhase)
          exact .atomically moment (.checked _ _)
            (ControlAction.atomically_refused serves refused)
      · exact old isCall
  | acted isFound serves =>
      rw [withCall_calls] at isCall
      split at isCall
      · next same =>
          subst same
          obtain ⟨rfl, rfl, isPhase⟩ := ControlCall.mk.inj (Option.some.inj isCall)
          obtain rfl := ControlPhase.returned.inj (eq_of_heq isPhase)
          have seen := coherent.acting _ _ _ isFound
          rcases seen.acts run.history.sound serves with isStep | ⟨absent, rfl, _⟩
          · exact .atomically moment (.acted _) isStep
          · exact .deleted moment seen absent (ControlAction.received_error _ _ _)
      · exact old isCall
  | unheard isFound serves error =>
      rw [withCall_calls] at isCall
      split at isCall
      · next same =>
          subst same
          obtain ⟨rfl, rfl, isPhase⟩ := ControlCall.mk.inj (Option.some.inj isCall)
          obtain rfl := ControlPhase.returned.inj (eq_of_heq isPhase)
          exact .lost (Or.inr ⟨_, List.mem_append_right _ (List.mem_singleton_self _)⟩)
      · exact old isCall
  | unsent isFound open_ error =>
      rw [withCall_calls] at isCall
      split at isCall
      · next same =>
          subst same
          obtain ⟨rfl, rfl, isPhase⟩ := ControlCall.mk.inj (Option.some.inj isCall)
          obtain rfl := ControlPhase.returned.inj (eq_of_heq isPhase)
          exact .lost (Or.inl (List.mem_append_right _ (List.mem_singleton_self _)))
      · exact old isCall

/-- A call that has returned stays so. -/
theorem Step.returned (steps : Step space queue before event next) {id : Nat} {task : TaskRef}
    {action : ControlAction} {result : Except Error action.Result}
    (isCall : before.calls id = some ⟨task, action, .returned result⟩) :
    next.calls id = some ⟨task, action, .returned result⟩ := by
  cases steps with
  | served => exact isCall
  | began isFound =>
      rw [withCall_calls, if_neg, isCall]
      rintro rfl
      cases isCall.symm.trans isFound
  | checked isFound | acted isFound | unheard isFound =>
      rw [withCall_calls, withWorld_calls, if_neg, isCall]
      rintro rfl
      cases isCall.symm.trans isFound
  | unsent isFound open_ =>
      rw [withCall_calls, if_neg, isCall]
      rintro rfl
      cases isCall.symm.trans isFound
      rcases open_ with impossible | impossible <;> cases impossible

/-- The call that acts in a step has not returned before, and then it has. -/
theorem Step.acting (steps : Step space queue before event next) {id : Nat}
    (acts : event.acting? = some id) :
    (∃ task action, before.calls id = some ⟨task, action, .acting⟩) ∧
      ∃ task action result, next.calls id = some ⟨task, action, .returned result⟩ := by
  cases steps with
  | served | began | checked | unsent => cases acts
  | acted isFound | unheard isFound =>
      obtain rfl := Option.some.inj acts
      exact ⟨⟨_, _, isFound⟩, _, _, _, by rw [withCall_calls, if_pos rfl]⟩

/-- Every step keeps the invariant. -/
theorem Coherent.step (coherent : Coherent space queue initial events before)
    (run : Run space queue initial events before) (steps : Step space queue before event next) :
    Coherent space queue initial (events ++ [event]) next where
  acting := fun _ _ _ isCall => coherent.acting_next run steps isCall
  returned := fun _ _ _ _ isCall => coherent.returned_next run steps isCall
  acted := by
    intro id member
    rw [List.filterMap_append, List.mem_append] at member
    rcases member with old | isNow
    · obtain ⟨task, action, result, isCall⟩ := coherent.acted id old
      exact ⟨task, action, result, steps.returned isCall⟩
    · obtain ⟨_, inNow, acts⟩ := List.mem_filterMap.mp isNow
      obtain rfl := List.mem_singleton.mp inNow
      exact (steps.acting acts).2
  once := by
    rw [List.filterMap_append]
    refine coherent.once.append ?_ ?_
    · cases acts : event.acting? <;> simp [acts]
    · intro id old isNow
      obtain ⟨_, inNow, acts⟩ := List.mem_filterMap.mp isNow
      obtain rfl := List.mem_singleton.mp inNow
      obtain ⟨⟨task, action, isActing⟩, _⟩ := steps.acting acts
      obtain ⟨_, _, _, isCall⟩ := coherent.acted id old
      cases isActing.symm.trans isCall

/-- The invariant holds of every reached queue. -/
theorem Run.coherent (run : Run space queue initial events final) :
    Coherent space queue initial events final := by
  refine run.induction ⟨nofun, nofun, nofun, List.nodup_nil⟩ ?_
  intro past source event target reached steps coherent
  exact coherent.step reached steps

end ControlledQueue

/-! ## What an action does -/

/-- A task after `cancel_task`. -/
def Life.afterCancel (life : Life) (nowAt : Timestamp) : Life :=
  if life.task.state.terminal then life else (Transition.cancel nowAt).after life

theorem Life.afterCancel_terminal (life : Life) (nowAt : Timestamp) :
    (life.afterCancel nowAt).task.state.terminal = true := by
  unfold afterCancel
  split
  · next terminal => exact terminal
  · rfl

/-- A cancellation that is answered has ended its task. -/
theorem Served.cancels {world after : World} {life : Life} {id : Uuid} {result : Bool}
    (served : Served space world ⟨.cancelTask id, .ok result⟩ after)
    (sound : world.store.Sound space) (rows : world.store.rowsOf id = Life.rows (some life)) :
    after.store.rowsOf id = Life.rows (some (life.afterCancel (world.clock 0))) := by
  have shows_ := sound.shows_of_rows rows
  obtain rfl := (sound.life_of_rows rows).2
  have ran := @alone_cancelTask_of_life space life world shows_
  unfold Life.afterCancel
  split at ran
  · next terminal =>
      have performed := (Operation.cancelTask life.task.id).perform_returned sound ran
      obtain ⟨_, rfl⟩ := Prod.mk.inj (performed.symm.trans served)
      rw [if_pos terminal]
      exact rows
  · next open_ =>
      have performed := (Operation.cancelTask life.task.id).perform_returned sound ran
      obtain ⟨_, rfl⟩ := Prod.mk.inj (performed.symm.trans served)
      rw [if_neg open_]
      have enabled : (Transition.cancel (world.clock 0)).Enabled space life :=
        eq_false_of_ne_true open_
      exact (shows_.write enabled nofun).rows

/-- The run a call has granted a task. -/
def Call.granted? : Call → Option Uuid
  | ⟨.retryTask _, .ok runId⟩ => some runId
  | _ => none

/-- Granted runs are introduced by the events of their calls. -/
theorem Call.Caused.granted {call : Call} {events : List Event}
    (caused : call.Caused space events) :
    call.granted?.toList.Sublist (events.flatMap Event.names) := by
  cases granted : call.granted? with
  | none => exact List.nil_sublist _
  | some runId =>
      obtain ⟨operation, outcome⟩ := call
      cases operation with
      | retryTask id =>
          cases outcome with
          | error error => cases granted
          | ok newRun =>
              obtain ⟨nowAt, rfl⟩ := caused
              cases granted
              exact List.Sublist.refl _
      | _ => cases granted

/-- What is selected only once is selected from one item. -/
theorem eq_of_nodup_filterMap {α β : Type} {select : α → Option β} {items : List α}
    (distinct : (items.filterMap select).Nodup) {first second : α} {value : β}
    (inItems : first ∈ items) (alsoInItems : second ∈ items)
    (isValue : select first = some value) (sameValue : select second = some value) :
    first = second := by
  by_contra different
  let apart (first second : α) : Prop :=
    ∀ value, select first = some value → ∀ other, select second = some other → value ≠ other
  have symmetric : Std.Symm apart :=
    ⟨fun first second before other isOther value isValue same =>
      before value isValue other isOther same.symm⟩
  have separated : items.Pairwise apart := List.pairwise_filterMap.mp distinct
  exact separated.forall inItems alsoInItems different value isValue value sameValue rfl

/-- No run is granted twice. -/
theorem History.granted_nodup {initial final : World} {calls : List Call}
    (history : History space initial calls final) : (calls.filterMap Call.granted?).Nodup := by
  obtain ⟨_, _, chunks, caused, advances⟩ := history.advances
  have distinct := advances.names_nodup history.fresh
  refine List.Nodup.sublist ?_ distinct
  clear advances distinct history
  induction caused with
  | nil => exact List.Sublist.refl _
  | @cons call events calls chunks first rest inductionHypothesis =>
      rw [← List.singleton_append, List.filterMap_append, List.flatten_cons, List.flatMap_append]
      refine List.Sublist.append ?_ inductionHypothesis
      have granted := first.granted
      cases isGranted : call.granted? with
      | none => simp [isGranted]
      | some runId => simpa [isGranted] using granted

/-! ## The law -/

variable {initial : World} {events : List ControlEvent} {final : ControlledQueue}

/-- A step of a queue with handles, with what led to it and what follows it. -/
abbrev ControlMoment (space : Char → Bool) (queue : String) (initial : World)
    (events : List ControlEvent) (final : ControlledQueue) (past : List ControlEvent)
    (event : ControlEvent) (future : List ControlEvent) (source target : ControlledQueue) : Prop :=
  Moment (ControlledQueue.Step space queue) (.start initial) events final past event future source
    target

/-- What handles do to a queue. -/
structure HandlesAct (space : Char → Bool) (queue : String) (initial : World)
    (events : List ControlEvent) (final : ControlledQueue) : Prop where
  /-- A step of a call changes nothing, or is the action on a task of the name of
  the reference. -/
  effects : ∀ id past event future source target,
    ControlMoment space queue initial events final past event future source target →
    event.call? = some id → target.world.store = source.world.store ∨
      ∃ task action value, source.calls id = some ⟨task, action, .acting⟩ ∧
        action.atomically space queue task source.world = (.ok value, target.world)
  /-- No call acts twice. -/
  once : (events.filterMap ControlEvent.acting?).Nodup
  /-- What a call returns is what it would have returned in one step, unless an
  answer was lost or the task was deleted after the check. -/
  returned : ∀ id task action result, final.calls id = some ⟨task, action, .returned result⟩ →
    ControlledQueue.Returns space queue initial events final id task action result
  /-- A cancellation that succeeds has ended the task, which stays ended until it
  is retried by hand. -/
  cancelled : ∀ id task, final.calls id = some ⟨task, .cancel, .returned (.ok ())⟩ →
    ∃ past event future source target life,
      ControlMoment space queue initial events final past event future source target ∧
      event.call? = some id ∧
      source.world.store.rowsOf task.taskId = Life.rows (some life) ∧
      life.task.name = task.taskName ∧
      target.world.store.rowsOf task.taskId =
        Life.rows (some (life.afterCancel (source.world.clock 0))) ∧
      ∀ last : Life, final.world.store.rowsOf task.taskId = Life.rows (some last) →
        last.task.state.terminal = true ∨
          ∃ newRun, ⟨.retryTask task.taskId, .ok newRun⟩ ∈ future.filterMap ControlEvent.served?
  /-- A retry that succeeds has reopened a failed task with the run it returns. -/
  retried : ∀ id task runId, final.calls id = some ⟨task, .retry, .returned (.ok runId)⟩ →
    ∃ past event future source target life nowAt,
      ControlMoment space queue initial events final past event future source target ∧
      event.call? = some id ∧
      source.world.store.rowsOf task.taskId = Life.rows (some life) ∧
      life.task.name = task.taskName ∧ life.task.state = .failed ∧
      target.world.store.rowsOf task.taskId =
        Life.rows (some ((Transition.reopen runId nowAt).after life))
  /-- Retries of different calls return different runs. -/
  distinct : ∀ id other task otherTask runId,
    final.calls id = some ⟨task, .retry, .returned (.ok runId)⟩ →
    final.calls other = some ⟨otherTask, .retry, .returned (.ok runId)⟩ → id = other

/-- A task that has ended stays ended, or is retried. -/
theorem Trace.ended {world after : World} {calls : List Call}
    (trace : Trace (Served space) world calls after) {past : List Call}
    (history : History space initial past world) {id : Uuid} {life last : Life}
    (rows : world.store.rowsOf id = Life.rows (some life))
    (ended : life.task.state.terminal = true)
    (lastRows : after.store.rowsOf id = Life.rows (some last)) :
    last.task.state.terminal = true ∨ ∃ newRun, ⟨.retryTask id, .ok newRun⟩ ∈ calls := by
  have precedes := history.precedes trace rows lastRows
  by_cases failed : life.task.state = .failed
  · by_cases left : last.task.state = .failed
    · rw [left]
      exact Or.inl rfl
    · obtain ⟨_, _, chunks, caused, advances⟩ := Trace.advances trace history.sound
      obtain ⟨other, otherRows, evolves⟩ := advances.evolves_to rows
      obtain rfl : other = some last := Life.rows_injective (otherRows.symm.trans lastRows)
      obtain ⟨newRun, nowAt, member⟩ := evolves.reopened (history.sound.life_of_rows rows).1
        (history.not_named_again advances rows) failed left
      obtain ⟨call, inCalls, callEvents, causes, inEvents⟩ := call_of_event caused member
      exact Or.inr ⟨newRun, (causes.reopened inEvents).1 ▸ inCalls⟩
  · have settled : life.task.state = .completed ∨ life.task.state = .cancelled := by
      cases state : life.task.state <;> simp_all [State.terminal]
    rw [(precedes.verdict settled).1]
    exact Or.inl ended

namespace ControlledQueue

/-- A call that succeeds is decided by the success of its action. -/
theorem Decides.ok {id : Nat} {task : TaskRef} {action : ControlAction} {value : action.Result}
    {event : ControlEvent} (decides : Decides queue id task action (.ok value) event) :
    ∃ result, event = .acted id ⟨action.operation task.taskId, .ok result⟩ ∧
      action.received queue task.taskId (.ok result) = .ok value := by
  generalize isResult : Except.ok value = decided at decides
  cases decides with
  | checked => cases isResult
  | acted outcome =>
      cases outcome with
      | error error =>
          rw [ControlAction.received_error] at isResult
          cases isResult
      | ok result => exact ⟨result, rfl, rfl⟩

/-- What came of a call that succeeded. -/
theorem Run.succeeded (run : Run space queue initial events final) {id : Nat} {task : TaskRef}
    {action : ControlAction} {value : action.Result}
    (isCall : final.calls id = some ⟨task, action, .returned (.ok value)⟩) :
    ∃ past event future source target,
      ControlMoment space queue initial events final past event future source target ∧
      Decides queue id task action (.ok value) event ∧
      source.world.store.Sound space ∧
      ∃ (life : Life) (result : (action.operation task.taskId).Result),
        source.world.store.rowsOf task.taskId = Life.rows (some life) ∧
        life.task.name = task.taskName ∧
        Served space source.world ⟨action.operation task.taskId, .ok result⟩ target.world ∧
        action.received queue task.taskId (.ok result) = .ok value := by
  have returns := run.coherent.returned id task action _ isCall
  cases returns with
  | deleted _ _ _ impossible => cases impossible
  | @atomically _ past future event source target moment decides isResult =>
      have reached : Run space queue initial past source := ⟨run.empty, run.fresh, moment.early⟩
      exact ⟨past, event, future, source, target, moment, decides, reached.history.sound,
        ControlAction.atomically_ok reached.history.sound isResult⟩

/-- What follows a moment is a part of the history of the queue. -/
theorem Run.moment_history (run : Run space queue initial events final)
    {past future : List ControlEvent} {event : ControlEvent} {source target : ControlledQueue}
    (moment : ControlMoment space queue initial events final past event future source target) :
    History space initial ((past ++ [event]).filterMap ControlEvent.served?) target.world ∧
      Trace (Served space) target.world (future.filterMap ControlEvent.served?) final.world := by
  have reached : Run space queue initial past source := ⟨run.empty, run.fresh, moment.early⟩
  exact ⟨(reached.snoc moment.steps).history, moment.late.project ControlledQueue.world
    ControlEvent.served? fun _ _ _ => Step.world_trace⟩

/-- A step of a call changes nothing, or is its action. -/
theorem Run.effects (run : Run space queue initial events final) {id : Nat}
    {past future : List ControlEvent} {event : ControlEvent} {source target : ControlledQueue}
    (moment : ControlMoment space queue initial events final past event future source target)
    (own : event.call? = some id) : target.world.store = source.world.store ∨
      ∃ task action value, source.calls id = some ⟨task, action, .acting⟩ ∧
        action.atomically space queue task source.world = (.ok value, target.world) := by
  have reached : Run space queue initial past source := ⟨run.empty, run.fresh, moment.early⟩
  have sound := reached.history.sound
  have acts : ∀ {task : TaskRef} {action : ControlAction}
      {outcome : Except SqlError (action.operation task.taskId).Result} {world : World},
      source.calls id = some ⟨task, action, .acting⟩ →
      Served space source.world ⟨action.operation task.taskId, outcome⟩ world →
      world.store = source.world.store ∨
        ∃ task action value, source.calls id = some ⟨task, action, .acting⟩ ∧
          action.atomically space queue task source.world = (.ok value, world) := by
    intro task action outcome world isCall serves
    rcases (reached.coherent.acting id task action isCall).acts sound serves with
      isStep | ⟨_, _, unchanged⟩
    · cases outcome with
      | error error => exact Or.inl serves.unchanged
      | ok result =>
          obtain ⟨value, isValue⟩ := @ControlAction.received_ok queue action task.taskId result
          exact Or.inr ⟨task, action, value, isCall, isStep.trans (by rw [isValue])⟩
    · exact Or.inl unchanged
  have steps := moment.steps
  cases steps with
  | served => cases own
  | began | unsent => exact Or.inl rfl
  | checked isCall serves =>
      obtain ⟨life, rows, _⟩ := sound.lives _
      have same := congrArg Prod.snd (Eq.trans (sound.serves_getTaskResult rows).symm serves)
      exact Or.inl (congrArg Session.store same).symm
  | acted isCall serves =>
      obtain rfl := Option.some.inj own
      exact acts isCall serves
  | unheard isCall serves =>
      obtain rfl := Option.some.inj own
      exact acts isCall serves

/-- A cancellation that succeeded has ended its task. -/
theorem Run.cancelled (run : Run space queue initial events final) {id : Nat} {task : TaskRef}
    (isCall : final.calls id = some ⟨task, .cancel, .returned (.ok ())⟩) :
    ∃ past event future source target life,
      ControlMoment space queue initial events final past event future source target ∧
      event.call? = some id ∧
      source.world.store.rowsOf task.taskId = Life.rows (some life) ∧
      life.task.name = task.taskName ∧
      target.world.store.rowsOf task.taskId =
        Life.rows (some (life.afterCancel (source.world.clock 0))) ∧
      ∀ last : Life, final.world.store.rowsOf task.taskId = Life.rows (some last) →
        last.task.state.terminal = true ∨
          ∃ newRun, ⟨.retryTask task.taskId, .ok newRun⟩ ∈
            future.filterMap ControlEvent.served? := by
  obtain ⟨past, event, future, source, target, moment, decides, sound, life, result, rows, named,
    serves, _⟩ := run.succeeded isCall
  obtain ⟨_, rfl, _⟩ := decides.ok
  have ended := serves.cancels sound rows
  obtain ⟨history, trace⟩ := run.moment_history moment
  exact ⟨past, _, future, source, target, life, moment, rfl, rows, named, ended, fun last lastRows =>
    Trace.ended trace history ended (life.afterCancel_terminal _) lastRows⟩

/-- A retry that succeeded has reopened its task. -/
theorem Run.retried (run : Run space queue initial events final) {id : Nat} {task : TaskRef}
    {runId : Uuid}
    (isCall : final.calls id = some ⟨task, .retry, .returned (.ok runId)⟩) :
    ∃ past event future source target life nowAt,
      ControlMoment space queue initial events final past event future source target ∧
      event.call? = some id ∧
      source.world.store.rowsOf task.taskId = Life.rows (some life) ∧
      life.task.name = task.taskName ∧ life.task.state = .failed ∧
      target.world.store.rowsOf task.taskId =
        Life.rows (some ((Transition.reopen runId nowAt).after life)) := by
  obtain ⟨past, event, future, source, target, moment, decides, sound, life, result, rows, named,
    serves, isValue⟩ := run.succeeded isCall
  obtain ⟨_, rfl, _⟩ := decides.ok
  obtain rfl : result = runId := Except.ok.inj isValue
  obtain ⟨other, nowAt, _, _, otherRows, failed, nextRows⟩ := serves.reopens sound
  obtain rfl := Option.some.inj (Life.rows_injective (otherRows.symm.trans rows))
  exact ⟨past, _, future, source, target, other, nowAt, moment, rfl, rows, named, failed, nextRows⟩

/-- Retries of different calls return different runs. -/
theorem Run.distinct (run : Run space queue initial events final) {id other : Nat}
    {task otherTask : TaskRef} {runId : Uuid}
    (isCall : final.calls id = some ⟨task, .retry, .returned (.ok runId)⟩)
    (isOther : final.calls other = some ⟨otherTask, .retry, .returned (.ok runId)⟩) :
    id = other := by
  have granted : ∀ {id : Nat} {task : TaskRef},
      final.calls id = some ⟨task, .retry, .returned (.ok runId)⟩ →
      .acted id ⟨.retryTask task.taskId, .ok runId⟩ ∈ events := by
    intro id task isCall
    obtain ⟨past, event, future, source, target, moment, decides, _⟩ := run.succeeded isCall
    obtain ⟨result, rfl, isValue⟩ := decides.ok
    obtain rfl : result = runId := Except.ok.inj isValue
    rw [moment.split]
    exact List.mem_append_right _ List.mem_cons_self
  have distinct := run.history.granted_nodup
  rw [List.filterMap_filterMap] at distinct
  have same := eq_of_nodup_filterMap distinct (granted isCall) (granted isOther) rfl rfl
  exact (ControlEvent.acted.inj same).1

/-- In every run handles act as their references say. -/
theorem Run.handlesAct (run : Run space queue initial events final) :
    HandlesAct space queue initial events final where
  effects := fun _ _ _ _ _ _ moment own => run.effects moment own
  once := run.coherent.once
  returned := run.coherent.returned
  cancelled := fun _ _ isCall => run.cancelled isCall
  retried := fun _ _ _ isCall => run.retried isCall
  distinct := fun _ _ _ _ _ isCall isOther => run.distinct isCall isOther

end ControlledQueue

/-- A handle that retries a failed task, and one that then cancels it. -/
theorem ControlledQueue.Run.handlesAct_retried :
    ∃ events final, ControlledQueue.Run asciiSpace "children" (.blank second) events final ∧
      final.calls 0 = some ⟨firstChild, .retry, .returned (.ok 2)⟩ ∧
      final.calls 1 = some ⟨firstChild, .cancel, .returned (.ok ())⟩ ∧
      HandlesAct asciiSpace "children" (.blank second) events final := by
  have started : ControlledQueue.Run asciiSpace "children" (.blank second) [] (.start _) :=
    ⟨⟨0, 1, rfl⟩, fun _ _ same => same, .nil _⟩
  have spawned := started.snoc (.served (.perform (plainSubmission []) _))
  have claimed := spawned.snoc (.served (.perform (plainClaim "worker") _))
  have failed := claimed.snoc (.served (.perform (.failRun 1 (some .null) (some false)) _))
  have began := failed.snoc
    (@ControlledQueue.Step.began _ _ _ 0 firstChild .retry rfl rfl)
  have checked := began.snoc
    (@ControlledQueue.Step.checked _ _ _ 0 firstChild .retry _ _ rfl (.perform _ _))
  have retried := checked.snoc
    (@ControlledQueue.Step.acted _ _ _ 0 firstChild .retry _ _ rfl (.perform _ _))
  have beganAgain := retried.snoc
    (@ControlledQueue.Step.began _ _ _ 1 firstChild .cancel rfl rfl)
  have checkedAgain := beganAgain.snoc
    (@ControlledQueue.Step.checked _ _ _ 1 firstChild .cancel _ _ rfl (.perform _ _))
  have cancelled := checkedAgain.snoc
    (@ControlledQueue.Step.acted _ _ _ 1 firstChild .cancel _ _ rfl (.perform _ _))
  exact ⟨_, _, cancelled, rfl, rfl, cancelled.handlesAct⟩

end Steda
