import Steda.Client.TaskContext
import Steda.Laws.Checkpoints

/-!
# Task contexts over the database

What a context has cached was written by a call of the database, the guard of a
name is held by at most one call, and a call knows what its statement asked.
-/

namespace Steda

open Postgres Transaction

variable {space : Char → Bool} {Output : String → Type} {encoding : Encoding Output}
  {queue : String}

/-! ## The database under a system -/

/-- The calls the database has served in a sequence of steps. -/
def servedCalls (events : List RuntimeEvent) : List Call := events.filterMap RuntimeEvent.call?

/-- The checkpoints written in a sequence of steps. -/
def committed (events : List RuntimeEvent) : List CheckpointRow :=
  (servedCalls events).filterMap Call.written

theorem servedCalls_append (events more : List RuntimeEvent) :
    servedCalls (events ++ more) = servedCalls events ++ servedCalls more :=
  List.filterMap_append

theorem servedCalls_snoc (events : List RuntimeEvent) (event : RuntimeEvent) :
    servedCalls (events ++ [event]) = servedCalls events ++ event.call?.toList := by
  rw [servedCalls_append]
  cases call : event.call? with
  | none => simp [servedCalls, call]
  | some value => simp [servedCalls, call]

theorem mem_servedCalls_append {events : List RuntimeEvent} {event : RuntimeEvent} {call : Call}
    (member : call ∈ servedCalls events) : call ∈ servedCalls (events ++ [event]) := by
  rw [servedCalls_append]
  exact List.mem_append_left _ member

theorem mem_committed_append {events : List RuntimeEvent} {event : RuntimeEvent}
    {row : CheckpointRow} (member : row ∈ committed events) :
    row ∈ committed (events ++ [event]) := by
  rw [committed, servedCalls_append, List.filterMap_append]
  exact List.mem_append_left _ member

/-- A step of the system is a call of the database or leaves it alone. -/
theorem Runtime.Step.world {before after : Runtime Output} {event : RuntimeEvent}
    (steps : Runtime.Step space encoding queue before event after) :
    Trace (Served space) before.world event.call?.toList after.world := by
  cases steps with
  | served serves => exact .cons serves (.nil _)
  | opened _ serves => exact .cons serves (.nil _)
  | answered _ _ serves => exact .cons serves (.nil _)
  | began | beganSleep | moved => exact .nil _

/-- The calls of a system are a history of its queue. -/
theorem Runtime.Run.history {initial : World} {events : List RuntimeEvent}
    {final : Runtime Output} (run : Runtime.Run space encoding queue initial events final) :
    History space initial (servedCalls events) final.world where
  empty := run.empty
  fresh := run.fresh
  trace := by
    let holds (past : List RuntimeEvent) (state : Runtime Output) : Prop :=
      Trace (Served space) initial (servedCalls past) state.world
    have begins : holds [] { world := initial, contexts := fun _ => none, calls := fun _ => none } :=
      .nil initial
    have reached : holds events final := by
      refine Trace.invariant_labels run.trace ?_ begins
      intro past source event target steps early
      change Trace (Served space) initial (servedCalls (past ++ [event])) target.world
      rw [servedCalls_snoc]
      exact early.append steps.world
    exact reached

/-- A system after one more step. -/
theorem Runtime.Run.snoc {initial : World} {events : List RuntimeEvent} {event : RuntimeEvent}
    {middle final : Runtime Output}
    (run : Runtime.Run space encoding queue initial events middle)
    (steps : Runtime.Step space encoding queue middle event final) :
    Runtime.Run space encoding queue initial (events ++ [event]) final :=
  ⟨run.empty, run.fresh, run.trace.append (.cons steps (.nil _))⟩

/-- A property that every step from a reached state keeps holds in every
reached state. -/
theorem Runtime.Run.induction {initial : World} {events : List RuntimeEvent}
    {final : Runtime Output} {holds : List RuntimeEvent → Runtime Output → Prop}
    (run : Runtime.Run space encoding queue initial events final)
    (begins : holds [] { world := initial, contexts := fun _ => none, calls := fun _ => none })
    (kept : ∀ past source event target, Runtime.Run space encoding queue initial past source →
      Runtime.Step space encoding queue source event target → holds past source →
        holds (past ++ [event]) target) : holds events final := by
  let both (past : List RuntimeEvent) (state : Runtime Output) : Prop :=
    Runtime.Run space encoding queue initial past state ∧ holds past state
  have start : both [] { world := initial, contexts := fun _ => none, calls := fun _ => none } :=
    ⟨⟨run.empty, run.fresh, .nil _⟩, begins⟩
  have reached : both events final := by
    refine Trace.invariant_labels run.trace ?_ start
    rintro past source event target steps ⟨early, now⟩
    exact ⟨early.snoc steps, kept past source event target early steps now⟩
  exact reached.2

/-- A checkpoint call that has returned answered with a written state, its own
when it has written. -/
theorem History.answers_written {initial final : World} {past : List Call}
    (history : History space initial past final) {taskId runId : Uuid} {name : String}
    {serialized : Json} {result : CheckpointResult}
    (member : ⟨.setTaskCheckpointState taskId (some name) (some serialized) runId, .ok result⟩ ∈
      past) :
    ∃ state, result.checkpointState = some state ∧
      { taskId := taskId, name := name, state := state } ∈ past.filterMap Call.written ∧
      (result.written = true → state = serialized) := by
  obtain ⟨earlier, later, isPast⟩ := List.append_of_mem member
  subst isPast
  obtain ⟨source, target, early, served, _⟩ := Trace.at_label history.trace
  have before : History space initial earlier source := ⟨history.empty, history.fresh, early⟩
  obtain ⟨_, _, isName, _, _, _, _, isState, isResult⟩ := served.records before.sound
  cases isName
  cases isState
  unfold Queue.recordCheckpoint at isResult
  cases found : source.store.findCheckpoint taskId name with
  | some row =>
      rw [found] at isResult
      have stored : row ∈ source.store.checkpoints := List.mem_of_find?_eq_some found
      have isKey := List.find?_some found
      simp only [Bool.and_eq_true, beq_iff_eq] at isKey
      rw [before.checkpoints_eq] at stored
      refine ⟨row.state, by rw [isResult], ?_, fun written => by simp [isResult] at written⟩
      rw [List.filterMap_append, ← isKey.1, ← isKey.2]
      exact List.mem_append_left _ (List.mem_filter.mp stored).1
  | none =>
      rw [found] at isResult
      refine ⟨serialized, by rw [isResult], ?_, fun _ => rfl⟩
      refine List.mem_filterMap.mpr ⟨_, member, ?_⟩
      rw [isResult]
      rfl

/-! ## Calls -/

/-- The call is one of `sleep_until_inner`. -/
def Work.sleeps {Value : Type} : Work Value → Bool
  | .checkpoint _ => false
  | .sleep _ _ => true

/-- What a statement asks the database for. -/
def Statement.operation : Statement → Operation
  | .sent operation => operation
  | .answered call => call.operation

/-- The last statement of a call asks for an operation. -/
def ContextCall.Asks (call : ContextCall Output) (operation : Operation) : Prop :=
  call.statement.map Statement.operation = some operation

/-- A committed checkpoint of the task decodes to a value. -/
def Commits {Value : Type} (codec : Codec Value) (events : List RuntimeEvent)
    (context : TaskContext) (name : String) (value : Value) : Prop :=
  ∃ state, { taskId := context.taskId, name := name, state := state } ∈ committed events ∧
    codec.fromValue state = .ok value

/-- What holds of a call at its point. -/
def ContextCall.Placed (encoding : Encoding Output) (events : List RuntimeEvent)
    (context : TaskContext) (call : ContextCall Output) : Prop :=
  match call.work with
  | .checkpoint .waiting | .checkpoint .entered | .checkpoint .executing
  | .sleep _ .waiting | .sleep _ .entered => call.statement = none
  | .checkpoint (.persisting value) =>
      ∃ serialized, (encoding.output call.name).toValue value = .ok serialized ∧
        call.Asks (context.persistCheckpoint call.name serialized)
  | .checkpoint (.returned (.ok value)) =>
      (context.checkpointCache call.name).isSome ∧
        Commits (encoding.output call.name) events context call.name value
  | .sleep _ .persisting =>
      ∃ serialized, call.Asks (context.persistCheckpoint call.name serialized)
  | .sleep _ (.scheduling actualWakeAt) => call.Asks (context.scheduleRun actualWakeAt)
  | .sleep _ (.returned (.ok _)) =>
      ∃ runId, ∃ actualWakeAt : Timestamp, call.statement = some
        (.answered ⟨.scheduleRun runId (some actualWakeAt), .ok .ready⟩)
  | .checkpoint (.returned (.error _)) | .checkpoint .dropped
  | .sleep _ (.returned (.error _)) | .sleep _ .dropped => True

/-- The invariant of a call on its context. -/
structure ContextCall.Sound (encoding : Encoding Output) (events : List RuntimeEvent)
    (context : TaskContext) (call : ContextCall Output) : Prop where
  placed : call.Placed encoding events context
  asks : ∀ operation, call.Asks operation →
    (∃ serialized, operation = context.persistCheckpoint call.name serialized) ∨
      ∃ actualWakeAt, call.work.sleeps = true ∧ operation = context.scheduleRun actualWakeAt ∧
        Commits encoding.wakeAt events context call.name actualWakeAt
  served : ∀ answer, call.statement = some (.answered answer) → answer ∈ servedCalls events

theorem Codec.fromValue_ok {Value : Type} {codec : Codec Value} {json : Json} {value : Value} :
    codec.fromValue json = .ok value ↔ codec.decode json = .ok value := by
  unfold fromValue
  cases codec.decode json <;> simp [Except.mapError]

theorem Codec.fromValue_toValue {Value : Type} {codec : Codec Value} {json : Json}
    {value : Value} (encoded : codec.toValue value = .ok json) :
    codec.fromValue json = .ok value := by
  refine fromValue_ok.mpr (codec.decode_encode ?_)
  unfold toValue at encoded
  cases isEncoded : codec.encode value with
  | error text => simp [isEncoded, Except.mapError] at encoded
  | ok other => simpa [isEncoded, Except.mapError] using encoded

/-- The cache of a context holds committed checkpoints of its task. -/
def TaskContext.Cached (events : List RuntimeEvent) (context : TaskContext) : Prop :=
  ∀ name state, context.checkpointCache name = some state →
    { taskId := context.taskId, name := name, state := state } ∈ committed events

/-- Served checkpoint calls answered with committed states. -/
def AnswersCommitted (events : List RuntimeEvent) : Prop :=
  ∀ {taskId runId : Uuid} {name : String} {serialized : Json} {result : CheckpointResult},
    ⟨.setTaskCheckpointState taskId (some name) (some serialized) runId, .ok result⟩ ∈
        servedCalls events →
      ∃ state, result.checkpointState = some state ∧
        { taskId := taskId, name := name, state := state } ∈ committed events ∧
        (result.written = true → state = serialized)

/-- The event of a step stores only committed states. -/
def CallEvent.Commits (events : List RuntimeEvent) (context : TaskContext) (name : String)
    (event : CallEvent) : Prop :=
  ∀ state, event = .receive state →
    { taskId := context.taskId, name := name, state := state } ∈ committed events

@[simp] theorem TaskContext.afterEvent_taskId (context : TaskContext) (name : String)
    (event : CallEvent) : (context.afterEvent name event).taskId = context.taskId := by
  cases event <;> rfl

@[simp] theorem TaskContext.afterEvent_runId (context : TaskContext) (name : String)
    (event : CallEvent) : (context.afterEvent name event).runId = context.runId := by
  cases event <;> rfl

@[simp] theorem TaskContext.afterEvent_locks (context : TaskContext) (name : String)
    (event : CallEvent) :
    (context.afterEvent name event).checkpointLocks = context.checkpointLocks := by
  cases event <;> rfl

/-- A cached name stays cached. -/
theorem TaskContext.afterEvent_isSome {context : TaskContext} {name other : String}
    {event : CallEvent} (cached : (context.checkpointCache other).isSome) :
    ((context.afterEvent name event).checkpointCache other).isSome := by
  cases event with
  | receive state =>
      simp only [afterEvent, cacheCheckpoint]
      by_cases same : other = name
      · rw [same, Function.update_self]
        rfl
      · rw [Function.update_of_ne same]
        exact cached
  | _ => exact cached

variable {events : List RuntimeEvent} {context : TaskContext} {call next : ContextCall Output}
  {event : CallEvent}

/-- The answer to a persisting call is that to its own request. -/
theorem ContextCall.Sound.answer (sound : call.Sound encoding events context)
    (answers : AnswersCommitted events) {serialized : Json}
    (asks : call.Asks (context.persistCheckpoint call.name serialized)) {taskId runId : Uuid}
    {name : Option String} {requested : Option Json} {result : CheckpointResult} {state : Json}
    (answered : call.statement = some
      (.answered ⟨.setTaskCheckpointState taskId name requested runId, .ok result⟩))
    (committed_ : result.checkpointState = some state) :
    { taskId := context.taskId, name := call.name, state := state } ∈ committed events ∧
      (result.written = true → state = serialized) := by
  have served := sound.served _ answered
  unfold Asks at asks
  rw [answered] at asks
  cases Option.some.inj asks
  obtain ⟨other, isOther, member, isOwn⟩ := answers served
  cases isOther.symm.trans committed_
  exact ⟨member, isOwn⟩

/-- A step keeps the context, the name and the kind of its call. -/
theorem ContextCall.Step.same (steps : ContextCall.Step encoding queue context call event next) :
    next.context = call.context ∧ next.name = call.name ∧
      next.work.sleeps = call.work.sleeps := by
  cases steps with
  | enter | fail | unserializable | unreadable | unserializableSleep | persistedUnreadable
  | refused | lost | drop =>
      refine ⟨rfl, rfl, ?_⟩
      cases call.work <;> rfl
  | replay entered | execute entered | replaySleep entered | persistSleep entered =>
      refine ⟨rfl, rfl, ?_⟩
      rw [entered]
      rfl
  | persist executing => exact ⟨rfl, rfl, by rw [executing]; rfl⟩
  | persisted persisting | persistedSleep persisting => exact ⟨rfl, rfl, by rw [persisting]; rfl⟩
  | scheduled scheduling => exact ⟨rfl, rfl, by rw [scheduling]; rfl⟩

/-- A step takes the guard only when it is free. -/
theorem ContextCall.Step.holds (steps : ContextCall.Step encoding queue context call event next)
    (holds : next.work.holds = true) :
    call.work.holds = true ∨ context.checkpointLocks call.name = none := by
  cases steps with
  | enter _ free => exact Or.inr free
  | replay entered | execute entered | replaySleep entered | persistSleep entered =>
      exact Or.inl (by rw [entered]; rfl)
  | persist executing => exact Or.inl (by rw [executing]; rfl)
  | persisted persisting | persistedSleep persisting => exact Or.inl (by rw [persisting]; rfl)
  | scheduled scheduling => exact Or.inl (by rw [scheduling]; rfl)
  | fail | unserializable | unreadable | unserializableSleep | persistedUnreadable | refused | lost
  | drop =>
      cases work : call.work <;> simp [work, Work.fail, Work.drop, Work.holds, Work.awaits] at holds

/-- What a step stores in the cache is committed. -/
theorem ContextCall.Step.commits (steps : ContextCall.Step encoding queue context call event next)
    (sound : call.Sound encoding events context) (answers : AnswersCommitted events) :
    event.Commits events context call.name := by
  have placed := sound.placed
  unfold ContextCall.Placed at placed
  cases steps with
  | persisted persisting answered isState =>
      rw [persisting] at placed
      obtain ⟨serialized, _, asks⟩ := placed
      rintro state ⟨⟩
      exact (sound.answer answers asks answered isState).1
  | persistedSleep persisting answered isState _ =>
      rw [persisting] at placed
      obtain ⟨serialized, asks⟩ := placed
      rintro state ⟨⟩
      exact (sound.answer answers asks answered isState).1
  | persistedUnreadable persisting answered isState _ =>
      rw [persisting] at placed
      obtain ⟨serialized, asks⟩ := placed
      rintro state ⟨⟩
      exact (sound.answer answers asks answered isState).1
  | _ => rintro state ⟨⟩

/-- What the last statement of a call asks for was asked before, or is the
request of its point. -/
theorem ContextCall.Step.asks (steps : ContextCall.Step encoding queue context call event next)
    (sound : call.Sound encoding events context) (cached : context.Cached events)
    (answers : AnswersCommitted events) {operation : Operation} (asks : next.Asks operation) :
    call.Asks operation ∨
      (∃ serialized, operation = context.persistCheckpoint call.name serialized) ∨
      ∃ actualWakeAt, next.work.sleeps = true ∧ operation = context.scheduleRun actualWakeAt ∧
        Commits encoding.wakeAt events context call.name actualWakeAt := by
  have stored := steps.commits sound answers
  cases steps with
  | persist | persistSleep => exact Or.inr (Or.inl ⟨_, (Option.some.inj asks).symm⟩)
  | replaySleep _ isCached decoded =>
      exact Or.inr (Or.inr ⟨_, rfl, (Option.some.inj asks).symm, _, cached _ _ isCached, decoded⟩)
  | persistedSleep _ _ _ decoded =>
      exact Or.inr (Or.inr ⟨_, rfl, (Option.some.inj asks).symm, _, stored _ rfl, decoded⟩)
  | _ => exact Or.inl asks

theorem ContextCall.placed_fail (error : Error) :
    ({ call with work := call.work.fail error } : ContextCall Output).Placed encoding events
      context := by
  unfold Placed
  cases call.work <;> trivial

theorem ContextCall.placed_drop :
    ({ call with work := call.work.drop } : ContextCall Output).Placed encoding events
      context := by
  unfold Placed
  cases call.work <;> trivial

theorem ContextCall.placed_returned {result : Except Error (Output call.name)}
    (value_ : ∀ value, result = .ok value → (context.checkpointCache call.name).isSome ∧
      Commits (encoding.output call.name) events context call.name value) :
    ({ call with work := .checkpoint (.returned result) } : ContextCall Output).Placed encoding
      events context := by
  unfold Placed
  cases result with
  | error error => trivial
  | ok value => exact value_ value rfl

/-- Every step leaves its call where it says it is. -/
theorem ContextCall.Step.placed (steps : ContextCall.Step encoding queue context call event next)
    (sound : call.Sound encoding events context) (cached : context.Cached events)
    (answers : AnswersCommitted events) :
    next.Placed encoding events (context.afterEvent call.name event) := by
  have placed := sound.placed
  have stored := steps.commits sound answers
  cases steps with
  | fail | unserializable | unreadable | unserializableSleep | persistedUnreadable | refused | lost =>
      exact ContextCall.placed_fail _
  | drop => exact ContextCall.placed_drop
  | enter waiting free =>
      unfold ContextCall.Placed at placed ⊢
      cases work : call.work with
      | checkpoint phase =>
          rw [work] at placed waiting
          cases phase <;> first | exact placed | cases waiting
      | sleep wakeAt phase =>
          rw [work] at placed waiting
          cases phase <;> first | exact placed | cases waiting
  | replay entered isCached =>
      refine ContextCall.placed_returned fun value decoded =>
        ⟨?_, _, cached _ _ isCached, decoded⟩
      simp only [TaskContext.afterEvent, isCached, Option.isSome_some]
  | execute entered missing =>
      unfold ContextCall.Placed at placed ⊢
      rw [entered] at placed
      exact placed
  | persist executing encoded => exact ⟨_, encoded, rfl⟩
  | @persisted _ _ _ _ _ result state persisting answered isState =>
      unfold ContextCall.Placed at placed
      rw [persisting] at placed
      obtain ⟨serialized, encoded, asks⟩ := placed
      obtain ⟨isCommitted, isOwn⟩ := sound.answer answers asks answered isState
      refine ContextCall.placed_returned fun value decoded => ⟨?_, state, isCommitted, ?_⟩
      · simp [TaskContext.afterEvent, TaskContext.cacheCheckpoint]
      · by_cases written : result.written = true
        · rw [if_pos written] at decoded
          rw [← isOwn written, Except.ok.inj decoded] at encoded
          exact Codec.fromValue_toValue encoded
        · rw [if_neg written] at decoded
          exact decoded
  | replaySleep => exact rfl
  | persistSleep => exact ⟨_, rfl⟩
  | persistedSleep => exact rfl
  | @scheduled wakeAt actualWakeAt runId requested outcome scheduling answered =>
      unfold ContextCall.Placed at placed ⊢
      rw [scheduling] at placed
      unfold ContextCall.Asks at placed
      rw [answered] at placed
      have isOperation : Operation.scheduleRun runId requested =
        .scheduleRun context.runId (some actualWakeAt) := Option.some.inj placed
      cases isOperation
      cases outcome with
      | ready => exact ⟨_, actualWakeAt, answered⟩
      | suspended | cancelled => trivial

/-- Every step keeps the invariant of its call. -/
theorem ContextCall.Step.sound (steps : ContextCall.Step encoding queue context call event next)
    (sound : call.Sound encoding events context) (cached : context.Cached events)
    (answers : AnswersCommitted events) :
    next.Sound encoding events (context.afterEvent call.name event) where
  placed := steps.placed sound cached answers
  asks := by
    intro operation asks
    obtain ⟨_, sameName, sameKind⟩ := steps.same
    have samePersist : ∀ serialized, (context.afterEvent call.name event).persistCheckpoint call.name
        serialized = context.persistCheckpoint call.name serialized := by
      intro serialized
      simp [TaskContext.persistCheckpoint]
    have sameSchedule : ∀ wakeAt, (context.afterEvent call.name event).scheduleRun wakeAt =
        context.scheduleRun wakeAt := by
      intro wakeAt
      simp [TaskContext.scheduleRun]
    simp only [sameName, samePersist, sameSchedule, Commits, TaskContext.afterEvent_taskId]
    rcases steps.asks sound cached answers asks with before | ⟨serialized, isPersist⟩ | isSchedule
    · rcases sound.asks operation before with isPersist | ⟨actualWakeAt, isSleep, isSchedule⟩
      · exact Or.inl isPersist
      · exact Or.inr ⟨actualWakeAt, sameKind.trans isSleep, isSchedule⟩
    · exact Or.inl ⟨serialized, isPersist⟩
    · exact Or.inr isSchedule
  served := by
    intro answer answered
    cases steps with
    | persist | persistSleep | replaySleep | persistedSleep => cases answered
    | _ => exact sound.served answer answered

/-! ## What only grows -/

theorem Commits.snoc {Value : Type} {codec : Codec Value} {name : String} {value : Value}
    (commits : Commits codec events context name value) (last : RuntimeEvent) :
    Commits codec (events ++ [last]) context name value := by
  obtain ⟨state, member, decoded⟩ := commits
  exact ⟨state, mem_committed_append member, decoded⟩

theorem TaskContext.Cached.snoc (cached : context.Cached events) (last : RuntimeEvent) :
    context.Cached (events ++ [last]) :=
  fun name state isCached => mem_committed_append (cached name state isCached)

/-- Storing a committed state keeps the cache committed. -/
theorem TaskContext.Cached.afterEvent {name : String} (cached : context.Cached events)
    (commits : event.Commits events context name) :
    (context.afterEvent name event).Cached events := by
  intro other state isState
  rw [TaskContext.afterEvent_taskId]
  cases event with
  | receive received =>
      simp only [TaskContext.afterEvent, TaskContext.cacheCheckpoint, Function.update_apply]
        at isState
      split at isState
      · next same =>
          rw [same]
          exact commits state (by rw [Option.some.inj isState])
      · exact cached other state isState
  | _ => exact cached other state isState

/-- A context of the same run with a larger cache. -/
structure TaskContext.Extends (before after : TaskContext) : Prop where
  taskId : after.taskId = before.taskId
  runId : after.runId = before.runId
  cache : ∀ name, (before.checkpointCache name).isSome → (after.checkpointCache name).isSome

theorem TaskContext.extends_afterEvent (context : TaskContext) (name : String) (event : CallEvent) :
    context.Extends (context.afterEvent name event) :=
  ⟨context.afterEvent_taskId name event, context.afterEvent_runId name event,
    fun _ => TaskContext.afterEvent_isSome⟩

theorem TaskContext.Extends.guard {after : TaskContext} (extends_ : context.Extends after)
    (name : String) (id : Nat) (holds : Bool) : context.Extends (after.guard name id holds) :=
  ⟨extends_.taskId, extends_.runId, extends_.cache⟩

theorem ContextCall.Sound.extend {after : TaskContext} (sound : call.Sound encoding events context)
    (extends_ : context.Extends after) : call.Sound encoding events after := by
  obtain ⟨sameTask, sameRun, grows⟩ := extends_
  refine ⟨?_, ?_, sound.served⟩
  · have placed := sound.placed
    unfold ContextCall.Placed at placed ⊢
    cases work : call.work with
    | checkpoint phase =>
        rw [work] at placed
        cases phase with
        | returned result =>
            cases result with
            | error error => trivial
            | ok value =>
                refine ⟨grows _ placed.1, ?_⟩
                simp only [Commits, sameTask]
                exact placed.2
        | persisting value =>
            simp only [TaskContext.persistCheckpoint, sameTask, sameRun]
            exact placed
        | _ => exact placed
    | sleep wakeAt phase =>
        rw [work] at placed
        cases phase with
        | returned result =>
            cases result with
            | error error => trivial
            | ok value => exact placed
        | persisting =>
            simp only [TaskContext.persistCheckpoint, sameTask, sameRun]
            exact placed
        | scheduling actualWakeAt =>
            simp only [TaskContext.scheduleRun, sameRun]
            exact placed
        | _ => exact placed
  · simp only [TaskContext.persistCheckpoint, TaskContext.scheduleRun, Commits, sameTask, sameRun]
    exact sound.asks

theorem ContextCall.Sound.snoc (sound : call.Sound encoding events context) (last : RuntimeEvent) :
    call.Sound encoding (events ++ [last]) context := by
  refine ⟨?_, ?_, fun answer answered => mem_servedCalls_append (sound.served answer answered)⟩
  · have placed := sound.placed
    unfold ContextCall.Placed at placed ⊢
    cases work : call.work with
    | checkpoint phase =>
        rw [work] at placed
        cases phase with
        | returned result =>
            cases result with
            | error error => trivial
            | ok value => exact ⟨placed.1, placed.2.snoc last⟩
        | _ => exact placed
    | sleep wakeAt phase =>
        rw [work] at placed
        cases phase with
        | returned result =>
            cases result with
            | error error => trivial
            | ok value => exact placed
        | _ => exact placed
  · intro operation asks
    rcases sound.asks operation asks with isPersist | ⟨actualWakeAt, isSleep, isSchedule, commits⟩
    · exact Or.inl isPersist
    · exact Or.inr ⟨actualWakeAt, isSleep, isSchedule, commits.snoc last⟩

/-- A call that has just begun. -/
theorem ContextCall.sound_begun {index : Nat} {name : String} {work : Work (Output name)}
    (waits : work.waits = true) :
    ({ context := index, name := name, work := work, statement := none } :
      ContextCall Output).Sound encoding events context := by
  refine ⟨?_, ?_, ?_⟩
  · unfold ContextCall.Placed
    cases work with
    | checkpoint phase => cases phase <;> first | rfl | cases waits
    | sleep wakeAt phase => cases phase <;> first | rfl | cases waits
  · rintro operation ⟨⟩
  · rintro answer ⟨⟩

/-- A call whose statement has been served. -/
theorem ContextCall.Sound.answered (sound : call.Sound encoding events context)
    {answer : Call} (sent : call.statement = some (.sent answer.operation))
    (served : answer ∈ servedCalls events) :
    ({ call with statement := some (.answered answer) } : ContextCall Output).Sound encoding
      events context := by
  have sameAsks : ∀ operation, ({ call with statement := some (.answered answer) } :
      ContextCall Output).Asks operation ↔ call.Asks operation := by
    intro operation
    unfold ContextCall.Asks
    rw [sent]
    rfl
  refine ⟨?_, ?_, ?_⟩
  · have placed := sound.placed
    unfold ContextCall.Placed at placed ⊢
    simp only [sameAsks]
    cases work : call.work with
    | checkpoint phase =>
        rw [work] at placed
        cases phase with
        | waiting | entered | executing => cases sent.symm.trans placed
        | returned result =>
            cases result with
            | error error => trivial
            | ok value => exact placed
        | _ => exact placed
    | sleep wakeAt phase =>
        rw [work] at placed
        cases phase with
        | waiting | entered => cases sent.symm.trans placed
        | returned result =>
            cases result with
            | error error => trivial
            | ok value =>
                obtain ⟨_, _, isAnswered⟩ := placed
                cases sent.symm.trans isAnswered
        | _ => exact placed
  · intro operation asks
    exact sound.asks operation ((sameAsks operation).mp asks)
  · rintro other ⟨⟩
    exact served

/-! ## The system -/

/-- The invariant of a system: caches hold committed checkpoints, a guard is
held by the one call that works under its name, and calls are where they say. -/
structure Runtime.Sound (encoding : Encoding Output) (events : List RuntimeEvent)
    (runtime : Runtime Output) : Prop where
  cached : ∀ index context, runtime.contexts index = some context → context.Cached events
  guarded : ∀ index context name id, runtime.contexts index = some context →
    (context.checkpointLocks name = some id ↔ ∃ call, runtime.calls id = some call ∧
      call.context = index ∧ call.name = name ∧ call.work.holds = true)
  calls : ∀ id call, runtime.calls id = some call →
    ∃ context, runtime.contexts call.context = some context ∧ call.Sound encoding events context

theorem TaskContext.mem_of_cacheOf {rows : List (String × Json)} {name : String} {state : Json}
    (cached : cacheOf rows name = some state) : (name, state) ∈ rows := by
  induction rows using List.reverseRecOn with
  | nil => cases cached
  | append_singleton rows row inductionHypothesis =>
      rw [cacheOf, List.foldl_append] at cached
      by_cases same : name = row.1
      · rw [same] at cached ⊢
        have isState : row.2 = state := by simpa using cached
        rw [← isState]
        exact List.mem_append_right _ (List.mem_singleton.mpr rfl)
      · have earlier : cacheOf rows name = some state := by
          rw [← cached]
          exact (Function.update_of_ne same _ _).symm
        exact List.mem_append_left _ (inductionHypothesis earlier)

/-- A listed name is cached. -/
theorem TaskContext.cacheOf_isSome {rows : List (String × Json)} {row : String × Json}
    (member : row ∈ rows) : (cacheOf rows row.1).isSome := by
  induction rows using List.reverseRecOn with
  | nil => cases member
  | append_singleton rows last inductionHypothesis =>
      rw [cacheOf, List.foldl_append]
      change (Function.update (cacheOf rows) last.1 (some last.2) row.1).isSome
      by_cases same : row.1 = last.1
      · rw [same, Function.update_self]
        rfl
      · rw [Function.update_of_ne same]
        refine inductionHypothesis ((List.mem_append.mp member).resolve_right fun isLast => ?_)
        exact same (congrArg Prod.fst (List.mem_singleton.mp isLast))

/-- A context starts with committed checkpoints of its task. -/
theorem Runtime.Run.cached_new {initial : World} {runtime : Runtime Output} {after : World}
    (run : Runtime.Run space encoding queue initial events runtime) {taskId runId : Uuid}
    {rows : List (String × Json)} (serves : Served space runtime.world
      ⟨.getTaskCheckpointStates taskId runId, .ok rows⟩ after) :
    (TaskContext.new taskId runId rows).Cached events := by
  intro name state cached
  have listed := TaskContext.mem_of_cacheOf cached
  have ran : alone space (getTaskCheckpointStates taskId runId) runtime.world = (.ok rows, after) :=
    serves.ran
  obtain ⟨_, isListed, _⟩ := alone_getTaskCheckpointStates_ok run.history.sound ran
  rw [isListed] at listed
  obtain ⟨row, member, isRow⟩ := List.mem_map.mp listed
  obtain ⟨stored, owner⟩ := List.mem_filter.mp member
  rw [run.history.checkpoints_eq] at stored
  have written := (List.mem_filter.mp stored).1
  cases isRow
  rw [show (TaskContext.new taskId runId rows).taskId = row.taskId from
    (beq_iff_eq.mp owner).symm]
  exact written

theorem Runtime.Run.answersCommitted {initial : World} {runtime : Runtime Output}
    (run : Runtime.Run space encoding queue initial events runtime) : AnswersCommitted events :=
  fun served => run.history.answers_written served

namespace Runtime.Sound

variable {runtime : Runtime Output} {id : Nat}

/-- The invariant does not look at the tables of the database. -/
theorem serve (sound : runtime.Sound encoding events) (last : RuntimeEvent) (world : World) :
    (runtime.withWorld world).Sound encoding (events ++ [last]) where
  cached := fun index context isContext => (sound.cached index context isContext).snoc last
  guarded := sound.guarded
  calls := by
    intro id call isCall
    obtain ⟨context, isContext, callSound⟩ := sound.calls id call isCall
    exact ⟨context, isContext, callSound.snoc last⟩

/-- A new context without calls. -/
theorem withContext (sound : runtime.Sound encoding events) {index : Nat}
    {context : TaskContext} (unused : runtime.contexts index = none)
    (cached : context.Cached events) (free : ∀ name, context.checkpointLocks name = none) :
    (runtime.withContext index context).Sound encoding events where
  cached := by
    intro other found isContext
    rw [withContext_contexts] at isContext
    split at isContext
    · rw [← Option.some.inj isContext]
      exact cached
    · exact sound.cached other found isContext
  guarded := by
    intro other found name id isContext
    rw [withContext_contexts] at isContext
    split at isContext
    · next same =>
        rw [← Option.some.inj isContext, free]
        refine iff_of_false (by simp) ?_
        rintro ⟨call, isCall, isOwn, _⟩
        obtain ⟨_, isOpen, _⟩ := sound.calls id call isCall
        rw [isOwn, same, unused] at isOpen
        cases isOpen
    · exact sound.guarded other found name id isContext
  calls := by
    intro id call isCall
    obtain ⟨found, isContext, callSound⟩ := sound.calls id call isCall
    refine ⟨found, ?_, callSound⟩
    have different : call.context ≠ index := fun same => by
      rw [same, unused] at isContext
      cases isContext
    rw [withContext_contexts, if_neg different]
    exact isContext

/-- A new version of a call that holds what it held before. -/
theorem withCall (sound : runtime.Sound encoding events) {call : ContextCall Output}
    {context : TaskContext} (isContext : runtime.contexts call.context = some context)
    (callSound : call.Sound encoding events context)
    (same : ∀ index name, (∃ old, runtime.calls id = some old ∧ old.context = index ∧
        old.name = name ∧ old.work.holds = true) ↔
      call.context = index ∧ call.name = name ∧ call.work.holds = true) :
    (runtime.withCall id call).Sound encoding events where
  cached := sound.cached
  guarded := by
    intro index found name holder isFound
    rw [sound.guarded index found name holder isFound]
    by_cases own : holder = id
    · rw [own, same]
      simp
    · simp [own]
  calls := by
    intro other found isCall
    rw [withCall_calls] at isCall
    split at isCall
    · rw [← Option.some.inj isCall]
      exact ⟨context, isContext, callSound⟩
    · exact sound.calls other found isCall

/-- The guards after a call went on. -/
theorem guarded_put (sound : runtime.Sound encoding events) {call next : ContextCall Output}
    {context : TaskContext} {event : CallEvent} (isCall : runtime.calls id = some call)
    (isContext : runtime.contexts call.context = some context)
    (steps : ContextCall.Step encoding queue context call event next) {name : String}
    {holder : Nat} :
    ((context.afterEvent call.name event).guard next.name id next.work.holds).checkpointLocks
        name = some holder ↔
      ∃ found, (runtime.put id (context.afterEvent call.name event) next).calls holder =
        some found ∧ found.context = call.context ∧ found.name = name ∧
          found.work.holds = true := by
  obtain ⟨sameContext, sameName, _⟩ := steps.same
  have before := sound.guarded call.context context
  have isLock : ((context.afterEvent call.name event).guard next.name id
      next.work.holds).checkpointLocks name = if name = call.name then
        (if next.work.holds then some id
          else (context.checkpointLocks call.name).filter fun other => other != id)
        else context.checkpointLocks name := by
    simp only [TaskContext.guard, TaskContext.afterEvent_locks, sameName, Function.update_apply]
  rw [isLock]
  simp only [Runtime.put, withCall_calls, withContext_calls]
  by_cases own : holder = id
  · subst own
    simp only [if_true, Option.some.injEq, exists_eq_left', sameContext, sameName, true_and]
    by_cases same : name = call.name
    · subst same
      cases holds : next.work.holds <;> simp
    · simp only [if_neg same, Ne.symm same, false_and, iff_false]
      intro locked
      obtain ⟨found, isFound, _, isName, _⟩ := (before name holder isContext).mp locked
      cases isCall.symm.trans isFound
      exact same isName.symm
  · simp only [if_neg own]
    rw [← before name holder isContext]
    by_cases same : name = call.name
    · subst same
      simp only [if_true]
      cases holds : next.work.holds with
      | false =>
          simp only [Bool.false_eq_true, if_false, Option.filter_eq_some_iff, bne_iff_ne]
          exact and_iff_left own
      | true =>
          simp only [if_true, Option.some.injEq]
          refine iff_of_false (Ne.symm own) fun locked => ?_
          rcases steps.holds holds with held | free
          · have ownLock := (before call.name id isContext).mpr ⟨call, isCall, rfl, rfl, held⟩
            exact own (Option.some.inj (locked.symm.trans ownLock))
          · rw [free] at locked
            cases locked
    · rw [if_neg same]

/-- A call that goes on keeps the invariant. -/
theorem put (sound : runtime.Sound encoding events) {call next : ContextCall Output}
    {context : TaskContext} {event : CallEvent} (isCall : runtime.calls id = some call)
    (isContext : runtime.contexts call.context = some context)
    (steps : ContextCall.Step encoding queue context call event next)
    (answers : AnswersCommitted events) :
    (runtime.put id (context.afterEvent call.name event) next).Sound encoding events := by
  obtain ⟨sameContext, sameName, _⟩ := steps.same
  obtain ⟨_, isFound, callSound⟩ := sound.calls id call isCall
  cases isContext.symm.trans isFound
  have cached := sound.cached _ context isContext
  have extends_ : context.Extends
      ((context.afterEvent call.name event).guard next.name id next.work.holds) :=
    (context.extends_afterEvent call.name event).guard _ _ _
  have isAfter : ∀ index, (runtime.put id (context.afterEvent call.name event) next).contexts
      index = if index = call.context then
        some ((context.afterEvent call.name event).guard next.name id next.work.holds)
        else runtime.contexts index := by
    intro index
    simp only [Runtime.put, withCall_contexts, withContext_contexts, sameContext]
  refine ⟨?_, ?_, ?_⟩
  · intro index found isFound
    rw [isAfter] at isFound
    split at isFound
    · rw [← Option.some.inj isFound]
      exact cached.afterEvent (steps.commits callSound answers)
    · exact sound.cached index found isFound
  · intro index found name holder isFound
    rw [isAfter] at isFound
    split at isFound
    · next same =>
        rw [← Option.some.inj isFound, same]
        exact sound.guarded_put isCall isContext steps
    · next different =>
        rw [sound.guarded index found name holder isFound]
        simp only [Runtime.put, withCall_calls, withContext_calls]
        by_cases own : holder = id
        · simp only [own, if_true, isCall, Option.some.injEq, exists_eq_left', sameContext,
            Ne.symm different, false_and]
        · simp only [if_neg own]
  · intro other found isFound
    simp only [isAfter]
    simp only [Runtime.put, withCall_calls, withContext_calls] at isFound
    split at isFound
    · rw [← Option.some.inj isFound]
      refine ⟨_, by rw [sameContext, if_pos rfl], ?_⟩
      exact (steps.sound callSound cached answers).extend ⟨rfl, rfl, fun _ isSome => isSome⟩
    · obtain ⟨before, isBefore, beforeSound⟩ := sound.calls other found isFound
      by_cases same : found.context = call.context
      · rw [same, isContext] at isBefore
        cases isBefore
        exact ⟨_, if_pos same, beforeSound.extend extends_⟩
      · exact ⟨before, by rw [if_neg same]; exact isBefore, beforeSound⟩

end Runtime.Sound

/-- Every reached state of a system is sound. -/
theorem Runtime.Run.sound {initial : World} {final : Runtime Output}
    (run : Runtime.Run space encoding queue initial events final) :
    final.Sound encoding events := by
  have begins : Runtime.Sound encoding []
      { world := initial, contexts := fun _ => none, calls := fun _ => none } := by
    refine ⟨?_, ?_, ?_⟩ <;> intros <;> contradiction
  refine run.induction begins ?_
  intro past source event target early steps sound
  have answers : AnswersCommitted past := early.answersCommitted
  cases steps with
  | served => exact sound.serve _ _
  | @opened context taskId runId rows world unused serves =>
      exact (sound.withContext unused (early.cached_new serves) fun _ => rfl).serve _ _
  | @began id context identity name unused opened named =>
      obtain ⟨found, isFound⟩ := Option.isSome_iff_exists.mp opened
      refine (Runtime.Sound.withCall sound isFound (ContextCall.sound_begun rfl) ?_).serve _
        source.world
      intro index other
      simp [unused, Work.holds, Work.awaits]
  | @beganSleep id context sleep name wakeAt unused opened named =>
      obtain ⟨found, isFound⟩ := Option.isSome_iff_exists.mp opened
      refine (Runtime.Sound.withCall sound isFound (ContextCall.sound_begun rfl) ?_).serve _
        source.world
      intro index other
      simp [unused, Work.holds, Work.awaits]
  | moved isCall isContext steps =>
      exact (sound.put isCall isContext steps answers).serve _ source.world
  | @answered id call operation outcome world isCall sent serves =>
      obtain ⟨context, isContext, callSound⟩ := sound.calls id call isCall
      let event : RuntimeEvent := .answered id ⟨operation, outcome⟩
      have isServed : (⟨operation, outcome⟩ : Call) ∈ servedCalls (past ++ [event]) := by
        rw [servedCalls_snoc]
        exact List.mem_append_right _ (List.mem_singleton.mpr rfl)
      have later : (source.withWorld world).Sound encoding (past ++ [event]) := sound.serve _ _
      have answered := (callSound.snoc event).answered sent isServed
      refine later.withCall isContext answered fun index name => ?_
      simp [isCall]

/-! ## Plain systems -/

/-- JSON values as they are, and wake times as whole numbers. -/
def plainEncoding : Encoding fun _ => Json where
  output := fun _ =>
    { toPrinter := .plain
      encode := Except.ok
      decode := Except.ok
      decode_encode := fun encoded => congrArg Except.ok (Except.ok.inj encoded).symm }
  wakeAt :=
    { toPrinter := .plain
      encode := fun time => .ok (.number ⟨time, 0⟩)
      decode := fun json =>
        match json with
        | .number value => .ok value.mantissa
        | _ => .error "expected a number"
      decode_encode := by
        intro time json encoded
        cases encoded
        rfl }

/-- A system whose database serves operations and that has no contexts yet. -/
theorem Runtime.run_serve (operations : List Operation) (tick : Int) :
    Runtime.Run space encoding queue (.blank tick)
      ((World.serve space operations (.blank tick)).1.map RuntimeEvent.served)
      { world := (World.serve space operations (.blank tick)).2, contexts := fun _ => none,
        calls := fun _ => none } := by
  refine ⟨⟨0, 1, rfl⟩, fun _ _ same => same, ?_⟩
  generalize World.blank tick = world
  induction operations generalizing world with
  | nil => exact .nil _
  | cons operation rest inductionHypothesis =>
      exact .cons (.served (rfl : operation.perform space world = _)) (inductionHypothesis _)

end Steda
