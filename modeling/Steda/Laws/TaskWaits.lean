import Steda.Client.TaskWait
import Steda.Laws.Defences
import Steda.Laws.Polling
import Steda.Laws.References
import Steda.Laws.Sleeps
import Steda.Laws.WorkflowNames

/-!
# Waits for the tasks of other queues

A wait that returns an output has found the awaited task completed with it, and
all waits for a task return the same output: across attempts and across parent
tasks, and also when the awaited task has been deleted in between.
-/

namespace Steda

open Postgres Transaction Relational

variable {space : Char → Bool} {Output : String → Type} {Child : String → Uuid → Type}
  {encoding : Encoding Output} {waiting : WaitEncoding encoding Child} {queue : String}

/-! ## The parts of a network -/

/-- The steps of the contexts. -/
def ownEvents (events : List NetworkEvent) : List RuntimeEvent := events.filterMap NetworkEvent.own?

/-- The calls another queue has served. -/
def servedBy (queueName : String) (events : List NetworkEvent) : List Call :=
  events.filterMap (NetworkEvent.served? queueName)

theorem filterMap_snoc {α β : Type} (select : α → Option β) (items : List α) (last : α) :
    (items ++ [last]).filterMap select = items.filterMap select ++ (select last).toList := by
  rw [List.filterMap_append]
  cases chosen : select last with
  | none => rw [List.filterMap_cons_none chosen]; rfl
  | some value => rw [List.filterMap_cons_some chosen]; rfl

theorem ownEvents_snoc (events : List NetworkEvent) (event : NetworkEvent) :
    ownEvents (events ++ [event]) = ownEvents events ++ event.own?.toList :=
  filterMap_snoc _ events event

theorem servedBy_snoc (queueName : String) (events : List NetworkEvent) (event : NetworkEvent) :
    servedBy queueName (events ++ [event]) =
      servedBy queueName events ++ (event.served? queueName).toList :=
  filterMap_snoc _ events event

namespace QueueNetwork

variable {before after : QueueNetwork Output Child} {event : NetworkEvent}

/-- A step of the queues is a step of the contexts or leaves them alone. -/
theorem Step.own_trace (steps : Step space waiting queue before event after) :
    Trace (Runtime.Step space encoding queue) before.own event.own?.toList after.own := by
  cases steps with
  | other | polled | unanswered => exact .nil _
  | own steps => exact .cons steps (.nil _)
  | @began id context task timeout unused opened named =>
      refine .cons ?_ (.nil _)
      exact @Runtime.Step.began _ space _ queue _ id context
        (.taskWait task.queueName task.taskId) _ unused opened rfl
  | executed _ steps => exact .cons steps (.nil _)
  | settled _ _ steps => exact .cons steps (.nil _)

/-- A step of the queues is a call of another queue or leaves it alone. -/
theorem Step.other_trace (steps : Step space waiting queue before event after)
    (queueName : String) :
    Trace (Served space) (before.others queueName) (event.served? queueName).toList
      (after.others queueName) := by
  have updated : ∀ {name : String} {call : Call} {world : World},
      Served space (before.others name) call world →
        Trace (Served space) (before.others queueName)
          (if name = queueName then some call else none).toList
          (Function.update before.others name world queueName) := by
    intro name call world serves
    by_cases same : name = queueName
    · subst same
      rw [if_pos rfl, Function.update_self]
      exact .cons serves (.nil _)
    · rw [if_neg same, Function.update_of_ne (Ne.symm same)]
      exact .nil _
  cases steps with
  | other _ serves => exact updated serves
  | polled _ _ serves => exact updated serves
  | own | began | executed | unanswered | settled => exact .nil _

variable {initial : World} {others : String → World} {events : List NetworkEvent}
  {network : QueueNetwork Output Child}

/-- The queues after one more step. -/
theorem Run.snoc {next : QueueNetwork Output Child}
    (run : Run space waiting queue initial others events network)
    (steps : Step space waiting queue network event next) :
    Run space waiting queue initial others (events ++ [event]) next :=
  ⟨run.empty, run.fresh, run.othersEmpty, run.othersFresh, run.trace.append (.cons steps (.nil _))⟩

/-- A property that every step from a reached state keeps holds in every
reached state. -/
theorem Run.induction {holds : List NetworkEvent → QueueNetwork Output Child → Prop}
    (run : Run space waiting queue initial others events network)
    (begins : holds [] (.start initial others))
    (kept : ∀ past source event target,
      Run space waiting queue initial others past source →
      Step space waiting queue source event target → holds past source →
      holds (past ++ [event]) target) : holds events network := by
  let reached (past : List NetworkEvent) (state : QueueNetwork Output Child) : Prop :=
    Run space waiting queue initial others past state ∧ holds past state
  have started : reached [] (.start initial others) :=
    ⟨⟨run.empty, run.fresh, run.othersEmpty, run.othersFresh, .nil _⟩, begins⟩
  have all : reached events network := by
    refine Trace.invariant_labels run.trace ?_ started
    intro past source event target steps now
    exact ⟨now.1.snoc steps, kept past source event target now.1 steps now.2⟩
  exact all.2

/-- The contexts of a network are a system. -/
theorem Run.own (run : Run space waiting queue initial others events network) :
    Runtime.Run space encoding queue initial (ownEvents events) network.own :=
  ⟨run.empty, run.fresh, run.trace.project QueueNetwork.own NetworkEvent.own?
    fun _ _ _ => Step.own_trace⟩

/-- The calls of another queue lead from its first world to the current one. -/
theorem Run.served (run : Run space waiting queue initial others events network)
    (queueName : String) :
    Trace (Served space) (others queueName) (servedBy queueName events)
      (network.others queueName) :=
  run.trace.project (fun network => network.others queueName) (NetworkEvent.served? queueName)
    fun _ _ _ steps => steps.other_trace queueName

end QueueNetwork

/-! ## Attested outputs -/

/-- A queue shows a completed task of a name, whose result decodes to an output. -/
def World.Completed {Value : Type} (world : World) (codec : Codec Value) (taskId : Uuid)
    (checkpoint : TaskWaitCheckpoint Value) : Prop :=
  ∃ (life : Life) (result : Json), world.store.rowsOf taskId = Life.rows (some life) ∧
    life.task.name = checkpoint.taskName ∧ life.task.state = .completed ∧
      life.last.result = some result ∧ codec.decode result = .ok checkpoint.output

/-- After some of the calls another queue has served, it showed the task
completed with an output. -/
def Attested (space : Char → Bool) (waiting : WaitEncoding encoding Child)
    (others : String → World) (events : List NetworkEvent) (queueName : String) (taskId : Uuid)
    (checkpoint : TaskWaitCheckpoint (Child queueName taskId)) : Prop :=
  ∃ early late world, servedBy queueName events = early ++ late ∧
    Trace (Served space) (others queueName) early world ∧
    world.Completed (waiting.child queueName taskId) taskId checkpoint

variable {initial : World} {others : String → World} {events : List NetworkEvent}
  {network : QueueNetwork Output Child} {queueName : String} {taskId : Uuid}

theorem Attested.snoc {checkpoint : TaskWaitCheckpoint (Child queueName taskId)}
    (attested : Attested space waiting others events queueName taskId checkpoint)
    (event : NetworkEvent) :
    Attested space waiting others (events ++ [event]) queueName taskId checkpoint := by
  obtain ⟨early, late, world, split, trace, completed⟩ := attested
  refine ⟨early, late ++ (event.served? queueName).toList, world, ?_, trace, completed⟩
  rw [servedBy_snoc, split, List.append_assoc]

/-- The state of a checkpoint is that of a wait whose output is attested. -/
def Vouched (space : Char → Bool) (waiting : WaitEncoding encoding Child) (queue : String)
    (others : String → World) (events : List NetworkEvent) (name : String) (state : Json) : Prop :=
  ∃ (task : TaskRef) (checkpoint : TaskWaitCheckpoint (Child task.queueName task.taskId)),
    name = taskWaitName task.queueName task.taskId ∧ task.queueName ≠ queue ∧
    TaskWaitCheckpoint.serialize (waiting.child task.queueName task.taskId) checkpoint =
      .ok state ∧
    Attested space waiting others events task.queueName task.taskId checkpoint

theorem Vouched.snoc {name : String} {state : Json}
    (vouched : Vouched space waiting queue others events name state) (event : NetworkEvent) :
    Vouched space waiting queue others (events ++ [event]) name state := by
  obtain ⟨task, checkpoint, isName, different, isState, attested⟩ := vouched
  exact ⟨task, checkpoint, isName, different, isState, attested.snoc event⟩

/-! ## The body of a wait -/

/-- A body that has returned an output has found it attested. -/
def TaskWait.Truthful (space : Char → Bool) (waiting : WaitEncoding encoding Child)
    (others : String → World) (events : List NetworkEvent) (wait : TaskWait Child) : Prop :=
  ∀ checkpoint, wait.body = .returned (.ok checkpoint) →
    checkpoint.taskName = wait.task.taskName ∧
      Attested space waiting others events wait.task.queueName wait.task.taskId checkpoint

/-- The decoder returns a completed snapshot for a completed row of the name
only. -/
theorem fetchedSnapshot_completed {taskName : String} {result : Json}
    {outcome : Except SqlError (Option TaskResult)}
    (fetched : fetchedSnapshot queueName taskName taskId outcome =
      .ok (some (.completed result))) :
    ∃ row, outcome = .ok (some row) ∧ row.taskName = taskName ∧ row.state = .completed ∧
      row.result = some result := by
  cases outcome with
  | error error => cases fetched
  | ok found =>
      cases found with
      | none => cases fetched
      | some row =>
          refine ⟨row, rfl, ?_⟩
          unfold fetchedSnapshot fetchTaskResultSnapshot at fetched
          by_cases named : row.taskName = taskName
          · simp only [ne_eq, named, not_true_eq_false, if_false] at fetched
            cases state : row.state with
            | completed =>
                rw [state] at fetched
                cases isResult : row.result with
                | none =>
                    rw [isResult] at fetched
                    cases fetched
                | some found =>
                    rw [isResult] at fetched
                    cases fetched
                    exact ⟨named, rfl, rfl⟩
            | failed =>
                rw [state] at fetched
                cases isFailure : row.failureReason with
                | none =>
                    rw [isFailure] at fetched
                    cases fetched
                | some found =>
                    rw [isFailure] at fetched
                    cases fetched
            | pending | running | sleeping | cancelled =>
                rw [state] at fetched
                cases fetched
          · simp only [ne_eq, named, not_false_eq_true, if_true] at fetched
            cases fetched

/-- The history of another queue. -/
theorem QueueNetwork.Run.other_history
    (run : QueueNetwork.Run space waiting queue initial others events network)
    (queueName : String) :
    History space (others queueName) (servedBy queueName events) (network.others queueName) :=
  ⟨run.othersEmpty queueName, run.othersFresh queueName, run.served queueName⟩

/-- A body returns an output when its loop returns a completed snapshot. -/
theorem WaitBody.after_returned {Value : Type} {codec : Codec Value} {taskName : String}
    {next : Poller} {checkpoint : TaskWaitCheckpoint Value}
    (returned : WaitBody.after codec taskName next = .returned (.ok checkpoint)) :
    ∃ result, next = .returned (.ok (.completed result)) ∧ checkpoint.taskName = taskName ∧
      codec.decode result = .ok checkpoint.output := by
  cases next with
  | waiting delay earliest => cases returned
  | returned found =>
      cases found with
      | error error => cases returned
      | ok snapshot =>
          have decided := WaitBody.returned.inj returned
          cases snapshot with
          | pending | running | sleeping | failed | cancelled => cases decided
          | completed result =>
              have decoded : (codec.fromValue result).map (TaskWaitCheckpoint.mk taskName) =
                .ok checkpoint := decided
              cases value : codec.fromValue result with
              | error error =>
                  rw [value] at decoded
                  cases decoded
              | ok output =>
                  rw [value] at decoded
                  obtain rfl := Except.ok.inj decoded
                  exact ⟨result, rfl, rfl, Codec.fromValue_ok.mp value⟩

/-- A loop returns what its last poll fetched. -/
theorem Poller.Step.fetched {timeout : Option Nat} {poller : Poller} {poll : Poll}
    {snapshot : TaskResultSnapshot}
    (steps : Poller.Step taskId timeout poller poll (.returned (.ok snapshot))) :
    poll.fetched = .ok (some snapshot) := by
  cases poller with
  | returned result => cases steps
  | waiting delay earliest =>
      obtain ⟨_, ⟨result, isResult, returns⟩ | ⟨_, _, isWaiting⟩⟩ := steps.cases
      · obtain rfl := Poller.returned.inj isResult
        cases returns with
        | terminal fetched => exact fetched
      · cases isWaiting

/-- A poll that ends a wait with an output found the task completed with it. -/
theorem World.completed_of_poll {Value : Type} {codec : Codec Value} {world after : World}
    (sound : world.store.Sound space) {taskName : String}
    {outcome : Except SqlError (Option TaskResult)}
    (serves : Served space world ⟨.getTaskResult taskId, outcome⟩ after)
    {timeout : Option Nat} {poller next : Poller} {elapsed : Nat}
    (steps : Poller.Step taskId timeout poller
      ⟨fetchedSnapshot queueName taskName taskId outcome, elapsed⟩ next)
    {checkpoint : TaskWaitCheckpoint Value}
    (returned : WaitBody.after codec taskName next = .returned (.ok checkpoint)) :
    checkpoint.taskName = taskName ∧ world.Completed codec taskId checkpoint := by
  obtain ⟨result, rfl, isName, decoded⟩ := WaitBody.after_returned returned
  obtain ⟨row, isOutcome, named, state, isResult⟩ := fetchedSnapshot_completed steps.fetched
  obtain ⟨life, rows, _⟩ := sound.lives taskId
  have same := congrArg Prod.fst (Eq.trans (sound.serves_getTaskResult rows).symm serves)
  have isRow : life.map Life.result = some row := Except.ok.inj (same.trans isOutcome)
  obtain ⟨found, isLife, rfl⟩ := Option.map_eq_some_iff.mp isRow
  subst isLife
  have completed : found.task.state = .completed := state
  have isLast : (if found.task.state = .completed then found.last.result else none) =
    some result := isResult
  rw [if_pos completed] at isLast
  exact ⟨isName, found, result, rows, named.trans isName.symm, completed, isLast, decoded⟩

/-! ## The invariant -/

/-- What holds of a network: waits have their calls, bodies tell the truth, and
what calls ask to store or have stored under the name of a wait is vouched for. -/
structure QueueNetwork.Coherent (space : Char → Bool) (waiting : WaitEncoding encoding Child)
    (queue : String) (others : String → World) (events : List NetworkEvent)
    (network : QueueNetwork Output Child) : Prop where
  waits : ∀ id wait, network.waits id = some wait → wait.task.queueName ≠ queue ∧
    ∃ call, network.own.calls id = some call ∧
      call.name = taskWaitName wait.task.queueName wait.task.taskId ∧ call.work.sleeps = false
  named : ∀ id call queueName taskId, network.own.calls id = some call →
    call.name = taskWaitName queueName taskId → (network.waits id).isSome
  bodies : ∀ id wait, network.waits id = some wait →
    wait.Truthful space waiting others events
  asked : ∀ id call, network.own.calls id = some call → (network.waits id).isSome →
    ∀ taskId runId name state,
      call.Asks (.setTaskCheckpointState taskId (some name) (some state) runId) →
        Vouched space waiting queue others events name state
  stored : ∀ row ∈ committed (ownEvents events), ∀ queueName taskId,
    row.name = taskWaitName queueName taskId →
      Vouched space waiting queue others events row.name row.state

/-- A call that is not a sleep asks to store what it has asked before, or the
value its body has just returned. -/
theorem ContextCall.Step.asks_checkpoint {context : TaskContext} {call next : ContextCall Output}
    {event : CallEvent} (steps : ContextCall.Step encoding queue context call event next)
    (awake : call.work.sleeps = false) {taskId runId : Uuid} {name : String} {state : Json}
    (asks : next.Asks (.setTaskCheckpointState taskId (some name) (some state) runId)) :
    call.Asks (.setTaskCheckpointState taskId (some name) (some state) runId) ∨
      call.work = .checkpoint .executing ∧ name = call.name ∧ ∃ (value : Output call.name),
        (encoding.output call.name).toValue value = .ok state ∧
        next = { call with
          work := .checkpoint (.persisting value)
          statement := some (.sent (context.persistCheckpoint call.name state)) } := by
  cases steps with
  | persist executing encoded =>
      have isOperation := Option.some.inj asks
      cases isOperation
      exact Or.inr ⟨executing, rfl, _, encoded, rfl⟩
  | persistSleep entered =>
      rw [entered] at awake
      cases awake
  | replaySleep | persistedSleep => cases Option.some.inj asks
  | _ => exact Or.inl asks

/-- A call that is new has just begun. -/
theorem Runtime.Step.new_call {before after : Runtime Output} {event : RuntimeEvent}
    (steps : Runtime.Step space encoding queue before event after) {id : Nat}
    {call : ContextCall Output} (isCall : after.calls id = some call)
    (unused : before.calls id = none) : event = .began id := by
  have other : ∀ {used : Nat} {found : ContextCall Output}, before.calls used = some found →
      id ≠ used := by
    intro used found isFound same
    rw [same, isFound] at unused
    cases unused
  cases steps with
  | served | opened =>
      simp only [Runtime.withWorld_calls, Runtime.withContext_calls, unused] at isCall
      cases isCall
  | @began used | @beganSleep used =>
      by_cases same : id = used
      · rw [same]
      · rw [Runtime.withCall_calls, if_neg same, unused] at isCall
        cases isCall
  | moved isFound =>
      simp only [Runtime.put, Runtime.withCall_calls, Runtime.withContext_calls,
        if_neg (other isFound), unused] at isCall
      cases isCall
  | answered isFound =>
      simp only [Runtime.withWorld_calls, Runtime.withCall_calls, if_neg (other isFound),
        unused] at isCall
      cases isCall

/-- An answer is one to the statement of its call. -/
theorem Runtime.Step.answered_sent {before after : Runtime Output} {id : Nat} {answer : Call}
    (steps : Runtime.Step space encoding queue before (.answered id answer) after)
    {call : ContextCall Output} (isCall : before.calls id = some call) :
    call.statement = some (.sent answer.operation) := by
  cases steps with
  | answered isFound sent =>
      cases isCall.symm.trans isFound
      exact sent

/-- A body is called after its call has taken the guard. -/
theorem Runtime.Step.execute_entered {before after : Runtime Output} {id : Nat}
    (steps : Runtime.Step space encoding queue before (.moved id .execute) after)
    {call : ContextCall Output} (isCall : before.calls id = some call) :
    call.work = .checkpoint .entered := by
  cases steps with
  | moved isFound _ callSteps =>
      cases isCall.symm.trans isFound
      cases callSteps with
      | execute entered => exact entered

/-- A call stays under its name, and remains a sleep or not. -/
theorem Runtime.Step.keeps_call {before after : Runtime Output} {event : RuntimeEvent}
    (steps : Runtime.Step space encoding queue before event after) {id : Nat}
    {call : ContextCall Output} (isCall : before.calls id = some call) :
    ∃ later, after.calls id = some later ∧ later.name = call.name ∧
      later.work.sleeps = call.work.sleeps := by
  rcases steps.call isCall with ⟨isAfter, _⟩ | ⟨_, _, _, _, isAfter⟩ |
    ⟨_, next, _, _, _, callSteps, isAfter⟩
  · exact ⟨call, isAfter, rfl, rfl⟩
  · exact ⟨_, isAfter, rfl, rfl⟩
  · exact ⟨next, isAfter, callSteps.same.2⟩

namespace QueueNetwork.Coherent

variable {event : NetworkEvent} {after : QueueNetwork Output Child}

/-- A step of other queues keeps what holds. -/
theorem snoc (coherent : network.Coherent space waiting queue others events)
    (silent : event.own? = none) :
    network.Coherent space waiting queue others (events ++ [event]) where
  waits := coherent.waits
  named := coherent.named
  bodies := by
    intro id wait isWait checkpoint isBody
    obtain ⟨isName, attested⟩ := coherent.bodies id wait isWait checkpoint isBody
    exact ⟨isName, attested.snoc event⟩
  asked := fun id call isCall isWait taskId runId name state asks =>
    (coherent.asked id call isCall isWait taskId runId name state asks).snoc event
  stored := by
    intro row member queueName taskId isName
    rw [ownEvents_snoc, silent, Option.toList_none, List.append_nil] at member
    exact (coherent.stored row member queueName taskId isName).snoc event

/-- Bodies may go on as long as they tell the truth. -/
theorem withBody (coherent : network.Coherent space waiting queue others events) {id : Nat}
    {wait next : TaskWait Child} (isWait : network.waits id = some wait)
    (sameTask : next.task = wait.task) (truthful : next.Truthful space waiting others events) :
    (network.withWait id next).Coherent space waiting queue others events := by
  have isSome : ∀ other, ((network.withWait id next).waits other).isSome =
      (network.waits other).isSome := by
    intro other
    by_cases same : other = id
    · rw [withWait_waits, if_pos same, same, isWait]
      rfl
    · rw [withWait_waits, if_neg same]
  refine ⟨?_, ?_, ?_, ?_, coherent.stored⟩
  · intro other found isFound
    rw [withWait_waits] at isFound
    split at isFound
    · next same =>
        rw [same, ← Option.some.inj isFound, sameTask]
        exact coherent.waits id wait isWait
    · exact coherent.waits other found isFound
  · intro other call queueName taskId isCall isName
    rw [isSome]
    exact coherent.named other call queueName taskId isCall isName
  · intro other found isFound
    rw [withWait_waits] at isFound
    split at isFound
    · rw [← Option.some.inj isFound]
      exact truthful
    · exact coherent.bodies other found isFound
  · intro other call isCall isFound
    rw [isSome] at isFound
    exact coherent.asked other call isCall isFound

/-- A stored row of a wait is vouched for after a step of the contexts. -/
theorem stored_after (coherent : network.Coherent space waiting queue others events)
    {own : Runtime Output} {event : RuntimeEvent}
    (run : Runtime.Run space encoding queue initial (ownEvents events) network.own)
    (steps : Runtime.Step space encoding queue network.own event own)
    (unwritten : ∀ call, event = .served call →
      ∀ queueName taskId, ¬call.operation.Checkpoints (taskWaitName queueName taskId)) :
    ∀ row ∈ committed (ownEvents (events ++ [.own event])), ∀ queueName taskId,
      row.name = taskWaitName queueName taskId →
        Vouched space waiting queue others (events ++ [.own event]) row.name row.state := by
  intro row member queueName taskId isName
  refine Vouched.snoc ?_ _
  have isOwn : ownEvents (events ++ [.own event]) = ownEvents events ++ [event] :=
    ownEvents_snoc events (.own event)
  rw [isOwn, committed, servedCalls_snoc, List.filterMap_append] at member
  rcases List.mem_append.mp member with early | last
  · exact coherent.stored row early queueName taskId isName
  · obtain ⟨call, isServed, written⟩ := List.mem_filterMap.mp last
    obtain ⟨runId, isOperation⟩ : ∃ runId, call.operation =
        .setTaskCheckpointState row.taskId (some row.name) (some row.state) runId := by
      unfold Call.written at written
      split at written
      · next task name state runId result =>
          split at written
          · obtain rfl := Option.some.inj written
            exact ⟨runId, rfl⟩
          · cases written
      · cases written
    cases steps with
    | served =>
        obtain rfl := List.mem_singleton.mp isServed
        refine absurd ?_ (unwritten _ rfl queueName taskId)
        exact ⟨row.taskId, some row.state, runId, isName ▸ isOperation⟩
    | opened =>
        obtain rfl := List.mem_singleton.mp isServed
        cases isOperation
    | began | beganSleep | moved => cases isServed
    | @answered id found operation outcome world isFound sent serves =>
        obtain rfl := List.mem_singleton.mp isServed
        have asks : found.Asks
            (.setTaskCheckpointState row.taskId (some row.name) (some row.state) runId) := by
          unfold ContextCall.Asks
          rw [sent]
          exact congrArg some isOperation
        obtain ⟨context, _, sound⟩ := run.sound.calls id found isFound
        rcases sound.asks _ asks with ⟨_, isPersist⟩ | ⟨_, _, isSchedule, _⟩
        · have sameName : row.name = found.name :=
            Option.some.inj (Operation.setTaskCheckpointState.inj isPersist).2.1
          exact coherent.asked id found isFound
            (coherent.named id found queueName taskId isFound (sameName ▸ isName)) _ _ _ _ asks
        · cases isSchedule

/-- What waits say of their calls holds after a step of the contexts. -/
theorem waits_after (coherent : network.Coherent space waiting queue others events)
    {own : Runtime Output} {event : RuntimeEvent}
    (steps : Runtime.Step space encoding queue network.own event own) (id : Nat)
    (wait : TaskWait Child) (isWait : network.waits id = some wait) :
    wait.task.queueName ≠ queue ∧ ∃ call, own.calls id = some call ∧
      call.name = taskWaitName wait.task.queueName wait.task.taskId ∧
      call.work.sleeps = false := by
  obtain ⟨different, call, isCall, isName, awake⟩ := coherent.waits id wait isWait
  obtain ⟨later, isLater, sameName, sameKind⟩ := steps.keeps_call isCall
  exact ⟨different, later, isLater, sameName.trans isName, sameKind.trans awake⟩

/-- Calls that are not new keep the names of waits for waits. -/
theorem named_after (coherent : network.Coherent space waiting queue others events)
    {own : Runtime Output} {event : RuntimeEvent}
    (steps : Runtime.Step space encoding queue network.own event own) {id : Nat}
    {call : ContextCall Output} (isCall : own.calls id = some call) (old : event ≠ .began id)
    {queueName : String} {taskId : Uuid} (isName : call.name = taskWaitName queueName taskId) :
    (network.waits id).isSome := by
  cases isBefore : network.own.calls id with
  | none => exact absurd (steps.new_call isCall isBefore) old
  | some before =>
      obtain ⟨later, isLater, sameName, _⟩ := steps.keeps_call isBefore
      cases isCall.symm.trans isLater
      exact coherent.named id before queueName taskId isBefore (sameName.symm.trans isName)

/-- What the calls of waits ask to store is vouched for after a step of the
contexts, if it is for the value a body has just returned. -/
theorem asked_after (coherent : network.Coherent space waiting queue others events)
    {own : Runtime Output} {event : RuntimeEvent}
    (steps : Runtime.Step space encoding queue network.own event own)
    (persisted : ∀ id call state value callEvent, event = .moved id callEvent →
      network.own.calls id = some call → call.work = .checkpoint .executing →
      (network.waits id).isSome → (encoding.output call.name).toValue value = .ok state →
      (∃ statement, own.calls id = some { call with
        work := .checkpoint (.persisting value), statement := statement }) →
      Vouched space waiting queue others events call.name state)
    {id : Nat} {call : ContextCall Output} (isCall : own.calls id = some call)
    (isWait : (network.waits id).isSome) {taskId runId : Uuid} {name : String} {state : Json}
    (asks : call.Asks (.setTaskCheckpointState taskId (some name) (some state) runId)) :
    Vouched space waiting queue others events name state := by
  obtain ⟨wait, isSome⟩ := Option.isSome_iff_exists.mp isWait
  obtain ⟨_, before, isBefore, _, awake⟩ := coherent.waits id wait isSome
  have early := coherent.asked id before isBefore isWait taskId runId name state
  rcases steps.call isBefore with ⟨isAfter, _⟩ | ⟨_, answer, _, rfl, isAfter⟩ |
    ⟨context, next, callEvent, _, isEvent, callSteps, isAfter⟩
  · cases isCall.symm.trans isAfter
    exact early asks
  · cases isCall.symm.trans isAfter
    refine early ?_
    unfold ContextCall.Asks at asks ⊢
    rw [steps.answered_sent isBefore]
    exact asks
  · cases isCall.symm.trans isAfter
    rcases callSteps.asks_checkpoint awake asks with asked | ⟨executing, rfl, value, encoded, isNext⟩
    · exact early asked
    · exact persisted id before state value callEvent isEvent isBefore executing isWait encoded
        ⟨_, isNext ▸ isAfter⟩

/-- A step of the contexts keeps what holds. -/
theorem here (coherent : network.Coherent space waiting queue others events)
    (run : Runtime.Run space encoding queue initial (ownEvents events) network.own)
    {own : Runtime Output} {event : RuntimeEvent}
    (steps : Runtime.Step space encoding queue network.own event own)
    (apart : ∀ call, event = .served call →
      ∀ queueName taskId, ¬call.operation.Checkpoints (taskWaitName queueName taskId))
    (named : ∀ id call queueName taskId, event = .began id → own.calls id = some call →
      call.name ≠ taskWaitName queueName taskId)
    (persisted : ∀ id call state value callEvent, event = .moved id callEvent →
      network.own.calls id = some call → call.work = .checkpoint .executing →
      (network.waits id).isSome → (encoding.output call.name).toValue value = .ok state →
      (∃ statement, own.calls id = some { call with
        work := .checkpoint (.persisting value), statement := statement }) →
      Vouched space waiting queue others events call.name state) :
    (network.withOwn own).Coherent space waiting queue others (events ++ [.own event]) where
  waits := coherent.waits_after steps
  named := by
    intro id call queueName taskId isCall isName
    by_cases old : event = .began id
    · exact absurd isName (named id call queueName taskId old isCall)
    · exact coherent.named_after steps isCall old isName
  bodies := by
    intro id wait isWait checkpoint isBody
    obtain ⟨isName, attested⟩ := coherent.bodies id wait isWait checkpoint isBody
    exact ⟨isName, attested.snoc _⟩
  asked := by
    intro id call isCall isWait taskId runId name state asks
    exact (coherent.asked_after steps persisted isCall isWait asks).snoc _
  stored := coherent.stored_after run steps apart

/-- A wait that begins keeps what holds. -/
theorem began (coherent : network.Coherent space waiting queue others events)
    (run : Runtime.Run space encoding queue initial (ownEvents events) network.own)
    {id context : Nat} {task : TaskRef} {timeout : Option Nat}
    (unused : network.own.calls id = none) (opened : (network.own.contexts context).isSome)
    (different : task.queueName ≠ queue) :
    ((network.withOwn (network.own.withCall id
        { context := context, name := taskWaitName task.queueName task.taskId,
          work := .checkpoint .waiting, statement := none })).withWait id
      { task := task, timeout := timeout, body := .idle }).Coherent space waiting queue others
        (events ++ [.own (.began id)]) := by
  have steps := @Runtime.Step.began _ space encoding queue network.own id context
    (.taskWait task.queueName task.taskId) _ unused opened rfl
  refine ⟨?_, ?_, ?_, ?_, coherent.stored_after run steps fun _ isServed => by cases isServed⟩
  · intro other wait isWait
    rw [withWait_waits] at isWait
    split at isWait
    · next same =>
        rw [← Option.some.inj isWait, same]
        exact ⟨different, _, Function.update_self .., rfl, rfl⟩
    · exact coherent.waits_after steps other wait isWait
  · intro other call queueName taskId isCall isName
    rw [withWait_waits]
    split
    · rfl
    · next same =>
        exact coherent.named_after steps isCall
          (fun isEvent => same (RuntimeEvent.began.inj isEvent).symm) isName
  · intro other wait isWait checkpoint isBody
    rw [withWait_waits] at isWait
    split at isWait
    · obtain rfl := Option.some.inj isWait
      cases isBody
    · obtain ⟨isName, attested⟩ := coherent.bodies other wait isWait checkpoint isBody
      exact ⟨isName, attested.snoc _⟩
  · intro other call isCall isWait taskId runId name state asks
    rw [withWait_waits] at isWait
    rw [withWait_own, withOwn_own, Runtime.withCall_calls] at isCall
    split at isWait
    · next same =>
        rw [if_pos same] at isCall
        rw [← Option.some.inj isCall] at asks
        cases asks
    · next same =>
        refine (coherent.asked_after steps ?_ ?_ isWait asks).snoc _
        · intro _ _ _ _ _ isMoved
          cases isMoved
        · rw [Runtime.withCall_calls]
          exact isCall

/-- What a settled body stores is vouched for. -/
theorem settled (coherent : network.Coherent space waiting queue others events) {id : Nat}
    {task : TaskRef} {timeout : Option Nat}
    {body : WaitBody (Child task.queueName task.taskId)}
    (isWait : network.waits id = some ⟨task, timeout, body⟩)
    {value : Output (taskWaitName task.queueName task.taskId)} {state : Json}
    (settles : body.Settles waiting (.persisting value))
    (encoded : (encoding.output (taskWaitName task.queueName task.taskId)).toValue value =
      .ok state) :
    Vouched space waiting queue others events (taskWaitName task.queueName task.taskId)
      state := by
  cases settles with
  | persisting checkpoint =>
      obtain ⟨_, attested⟩ := coherent.bodies id _ isWait checkpoint rfl
      refine ⟨task, checkpoint, rfl, (coherent.waits id _ isWait).1, ?_, attested⟩
      rw [← waiting.encodes]
      unfold Codec.toValue at encoded
      cases isEncoded : (encoding.output (taskWaitName task.queueName task.taskId)).encode
          (waiting.checkpoint task.queueName task.taskId checkpoint) with
      | error text =>
          rw [isEncoded] at encoded
          cases encoded
      | ok json =>
          rw [isEncoded] at encoded
          exact congrArg Except.ok (Except.ok.inj encoded)

end QueueNetwork.Coherent

/-- Every step of the queues keeps what holds. -/
theorem QueueNetwork.Step.coherent {event : NetworkEvent} {after : QueueNetwork Output Child}
    (steps : QueueNetwork.Step space waiting queue network event after)
    (run : QueueNetwork.Run space waiting queue initial others events network)
    (coherent : network.Coherent space waiting queue others events) :
    after.Coherent space waiting queue others (events ++ [event]) := by
  cases steps with
  | @other queueName call world different serves =>
      have later : network.Coherent space waiting queue others
          (events ++ [.other queueName call]) := coherent.snoc rfl
      exact ⟨later.waits, later.named, later.bodies, later.asked, later.stored⟩
  | own steps apart =>
      refine coherent.here run.own steps ?_ ?_ ?_
      · rintro call rfl
        exact apart
      · rintro id call queueName taskId rfl isCall
        exact apart call isCall queueName taskId
      · rintro id call state value callEvent rfl isCall executing isWait
        exact absurd executing ((apart isWait).2 call isCall)
  | @began id context task timeout unused opened named =>
      refine coherent.began run.own unused opened fun same => ?_
      rw [awaitName, if_pos same] at named
      cases named
  | @executed id wait own isWait steps =>
      have later := coherent.here run.own steps (fun _ isServed => by cases isServed)
        (fun _ _ _ _ isBegan => by cases isBegan) ?_
      · refine later.withBody isWait rfl ?_
        intro checkpoint isBody
        cases isBody
      · rintro other call state value callEvent isMoved isCall executing isSome encoded
          ⟨statement, isAfter⟩
        cases isMoved
        cases executing.symm.trans (steps.execute_entered isCall)
  | @polled id index task timeout poller next statement outcome world elapsed isWait executing serves
      steps =>
      have later : network.Coherent space waiting queue others
          (events ++ [.polled id task.queueName ⟨.getTaskResult task.taskId, outcome⟩]) :=
        coherent.snoc rfl
      have elsewhere : (network.withOther task.queueName world).Coherent space waiting queue others
          (events ++ [.polled id task.queueName ⟨.getTaskResult task.taskId, outcome⟩]) :=
        ⟨later.waits, later.named, later.bodies, later.asked, later.stored⟩
      refine elsewhere.withBody isWait rfl ?_
      intro checkpoint isBody
      obtain ⟨isName, completed⟩ :=
        World.completed_of_poll (run.other_history _).sound serves steps isBody
      exact ⟨isName, _, _, _, servedBy_snoc _ _ _, run.served _, completed⟩
  | @unanswered id index task timeout poller next statement error elapsed isWait executing steps =>
      have later : network.Coherent space waiting queue others (events ++ [.unanswered id]) :=
        coherent.snoc rfl
      refine later.withBody isWait rfl ?_
      intro checkpoint isBody
      obtain ⟨result, rfl, _⟩ := WaitBody.after_returned isBody
      cases steps.fetched
  | @settled id index task timeout body phase statement later event own isWait executing steps isNext
      settles =>
      refine coherent.here run.own steps (fun _ isServed => by cases isServed)
        (fun _ _ _ _ isBegan => by cases isBegan) ?_
      rintro other call state value callEvent isMoved isCall _ _ encoded ⟨changed, isAfter⟩
      cases isMoved
      cases isCall.symm.trans executing
      cases isAfter.symm.trans isNext
      exact coherent.settled isWait settles encoded

/-- In every reached network what is said of waits holds. -/
theorem QueueNetwork.Run.coherent
    (run : QueueNetwork.Run space waiting queue initial others events network) :
    network.Coherent space waiting queue others events := by
  refine run.induction ?_ fun past source event target early steps now => steps.coherent early now
  refine ⟨?_, ?_, ?_, ?_, ?_⟩
  · rintro id wait ⟨⟩
  · rintro id call queueName taskId ⟨⟩
  · rintro id wait ⟨⟩
  · rintro id call ⟨⟩
  · rintro row ⟨⟩

/-! ## Names and results that last -/

/-- The name of a wait determines the task it is for. -/
theorem taskWaitName_inj {task other : TaskRef}
    (same : taskWaitName task.queueName task.taskId = taskWaitName other.queueName other.taskId) :
    task.queueName = other.queueName ∧ task.taskId.val = other.taskId.val := by
  have refers : ∀ reference : TaskRef, (DurableIdentity.workflow
      (.taskWait reference.queueName reference.taskId)).Refers := fun reference =>
    ⟨(Client.validateQueueName_ok reference.queueNamed).2.2, reference.taskId.property⟩
  have sameIdentity := DurableIdentity.content_inj (refers task) (refers other) rfl
    (by
      unfold taskWaitName at same
      simp only [DurableIdentity.content, String.append_assoc] at same ⊢
      exact (String.append_right_inj _).mp same)
  exact WorkflowIdentity.taskWait.inj (DurableIdentity.workflow.inj sameIdentity)

/-- A completed task of a history remains completed with its output while it
exists. -/
theorem World.Completed.lasts {Value : Type} {codec : Codec Value} {start world later : World}
    {past calls : List Call} {checkpoint : TaskWaitCheckpoint Value}
    (completed : world.Completed codec taskId checkpoint) (history : History space start past world)
    (trace : Trace (Served space) world calls later) {life : Life}
    (rows : later.store.rowsOf taskId = Life.rows (some life)) :
    later.Completed codec taskId checkpoint := by
  obtain ⟨earlier, result, earlierRows, isName, isCompleted, isResult, decoded⟩ := completed
  have precedes := history.precedes trace earlierRows rows
  obtain ⟨sameState, sameLast⟩ := precedes.verdict (Or.inl isCompleted)
  have sameName : life.task.name = earlier.task.name :=
    congrArg Submission.name precedes.submission
  exact ⟨life, result, rows, sameName.trans isName, sameState.trans isCompleted,
    sameLast ▸ isResult, decoded⟩

/-- A queue shows one output of a task. -/
theorem World.Completed.unique {Value : Type} {codec : Codec Value} {world : World}
    {first second : TaskWaitCheckpoint Value} (isFirst : world.Completed codec taskId first)
    (isSecond : world.Completed codec taskId second) : second = first := by
  obtain ⟨life, result, rows, isName, _, isResult, decoded⟩ := isFirst
  obtain ⟨other, otherResult, otherRows, otherName, _, isOther, otherDecoded⟩ := isSecond
  obtain rfl := Option.some.inj (Life.rows_injective (rows.symm.trans otherRows))
  obtain rfl := Option.some.inj (isResult.symm.trans isOther)
  have sameOutput := Except.ok.inj (otherDecoded.symm.trans decoded)
  obtain ⟨firstName, firstOutput⟩ := first
  obtain ⟨secondName, secondOutput⟩ := second
  cases isName
  cases otherName
  cases sameOutput
  rfl

/-- The queue of an attested task goes on showing the output while the task
exists. -/
theorem Attested.lasts {checkpoint : TaskWaitCheckpoint (Child queueName taskId)}
    (attested : Attested space waiting others events queueName taskId checkpoint)
    (run : QueueNetwork.Run space waiting queue initial others events network) {life : Life}
    (rows : (network.others queueName).store.rowsOf taskId = Life.rows (some life)) :
    (network.others queueName).Completed (waiting.child queueName taskId) taskId checkpoint := by
  obtain ⟨early, late, world, split, trace, completed⟩ := attested
  have whole := run.served queueName
  rw [split] at whole
  obtain ⟨middle, before, rest⟩ := Trace.append_iff.mp whole
  obtain rfl := trace.unique (fun first second => congrArg Prod.snd (first.symm.trans second)) before
  exact completed.lasts
    ⟨run.othersEmpty queueName, run.othersFresh queueName, trace⟩ rest rows

/-- A task is attested with one output. -/
theorem Attested.unique {first second : TaskWaitCheckpoint (Child queueName taskId)}
    (isFirst : Attested space waiting others events queueName taskId first)
    (isSecond : Attested space waiting others events queueName taskId second)
    (run : QueueNetwork.Run space waiting queue initial others events network) :
    second = first := by
  obtain ⟨early, late, world, split, trace, completed⟩ := isFirst
  obtain ⟨otherEarly, otherLate, otherWorld, otherSplit, otherTrace, otherCompleted⟩ := isSecond
  have sooner : ∀ {earlier more : List Call} {world later : World}
      {one another : TaskWaitCheckpoint (Child queueName taskId)},
      Trace (Served space) (others queueName) earlier world →
      Trace (Served space) (others queueName) (earlier ++ more) later →
      world.Completed (waiting.child queueName taskId) taskId one →
      later.Completed (waiting.child queueName taskId) taskId another → another = one := by
    intro earlier more world later one another start whole isOne isAnother
    obtain ⟨middle, before, rest⟩ := Trace.append_iff.mp whole
    obtain rfl := start.unique (fun first second => congrArg Prod.snd (first.symm.trans second))
      before
    obtain ⟨life, _, rows, _⟩ := id isAnother
    exact (isOne.lasts ⟨run.othersEmpty queueName, run.othersFresh queueName, start⟩ rest
      rows).unique isAnother
  rcases List.append_eq_append_iff.mp (split.symm.trans otherSplit) with
    ⟨more, isLater, _⟩ | ⟨more, isLater, _⟩
  · subst isLater
    exact sooner trace otherTrace completed otherCompleted
  · subst isLater
    exact (sooner otherTrace trace otherCompleted completed).symm

/-! ## The law -/

/-- A wait for a task of a queue, referenced under a name, has returned an
output. -/
inductive QueueNetwork.Returned (waiting : WaitEncoding encoding Child)
    (network : QueueNetwork Output Child) (id : Nat) :
    (queueName : String) → (taskId : Uuid) → String → Child queueName taskId → Prop
  | intro {task : TaskRef} {timeout : Option Nat}
      {body : WaitBody (Child task.queueName task.taskId)} {index : Nat}
      {statement : Option Statement}
      {checkpoint : TaskWaitCheckpoint (Child task.queueName task.taskId)}
      {output : Child task.queueName task.taskId}
      (isWait : network.waits id = some ⟨task, timeout, body⟩)
      (isCall : network.own.calls id = some ⟨index, taskWaitName task.queueName task.taskId,
        .checkpoint (.returned
          (.ok (waiting.checkpoint task.queueName task.taskId checkpoint))), statement⟩)
      (checked : checkTaskName task checkpoint = .ok output) :
      Returned waiting network id task.queueName task.taskId task.taskName output

/-- A wait returns what was attested. -/
theorem QueueNetwork.Returned.attested {id : Nat} {taskName : String}
    {output : Child queueName taskId}
    (returned : network.Returned waiting id queueName taskId taskName output)
    (run : QueueNetwork.Run space waiting queue initial others events network) :
    queueName ≠ queue ∧ Attested space waiting others events queueName taskId
      { taskName := taskName, output := output } := by
  cases returned with
  | @intro task timeout body index statement checkpoint _ isWait isCall checked =>
      refine ⟨(run.coherent.waits id _ isWait).1, ?_⟩
      obtain ⟨context, state, _, _, member, decoded⟩ := run.own.replayed isCall
      obtain ⟨source, stored, sameName, _, serialized, attested⟩ :=
        run.coherent.stored _ member _ _ rfl
      obtain ⟨sameQueue, sameTask⟩ := taskWaitName_inj sameName
      obtain ⟨_, taskName, taskId, _, _⟩ := task
      obtain ⟨_, _, sourceId, _, _⟩ := source
      dsimp only at sameQueue sameTask decoded checked serialized attested stored checkpoint ⊢
      subst sameQueue
      obtain rfl := Subtype.ext sameTask
      rw [waiting.decodes, TaskWaitCheckpoint.deserialize_serialize _ serialized] at decoded
      obtain rfl := (waiting.checkpoint _ _).injective (Except.ok.inj decoded)
      unfold checkTaskName at checked
      split at checked
      · next named =>
          obtain rfl := Except.ok.inj checked
          dsimp only at named
          subst named
          exact attested
      · cases checked

end Steda
