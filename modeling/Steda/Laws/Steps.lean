import Steda.Laws.Contexts

/-!
# Consistent replay of steps

All calls of `step` and `step_keyed` under one identity that return a value
return the decoding of its one committed checkpoint.  Within a context bodies
never overlap and none is started once the value is known there, and a body
that fails commits nothing.
-/

namespace Steda

open Postgres Transaction

variable {space : Char → Bool} {Output : String → Type} {encoding : Encoding Output}
  {queue : String} {initial : World} {events : List RuntimeEvent} {reached : Runtime Output}

/-! ## Values -/

/-- A checkpoint is committed at most once. -/
theorem Runtime.Run.committed_unique
    (run : Runtime.Run space encoding queue initial events reached) {row other : CheckpointRow}
    (member : row ∈ committed events) (memberOther : other ∈ committed events)
    (same : other.key = row.key) : other = row :=
  List.inj_on_of_nodup_map run.history.written_once memberOther member same

/-- A call that returned a value returned the decoding of a committed
checkpoint, and the value is known to its context. -/
theorem Runtime.Run.replayed (run : Runtime.Run space encoding queue initial events reached)
    {id index : Nat} {name : String} {value : Output name} {statement : Option Statement}
    (returned : reached.calls id =
      some ⟨index, name, .checkpoint (.returned (.ok value)), statement⟩) :
    ∃ context state, reached.contexts index = some context ∧
      (context.checkpointCache name).isSome ∧
      { taskId := context.taskId, name := name, state := state } ∈ committed events ∧
      (encoding.output name).decode state = .ok value := by
  obtain ⟨context, isContext, sound⟩ := run.sound.calls id _ returned
  obtain ⟨isCached, state, member, decoded⟩ := sound.placed
  exact ⟨context, state, isContext, isCached, member, Codec.fromValue_ok.mp decoded⟩

/-- The guard of a name has one holder. -/
theorem Runtime.Sound.holder_unique (sound : reached.Sound encoding events) {id other : Nat}
    {call otherCall : ContextCall Output} (isCall : reached.calls id = some call)
    (isOther : reached.calls other = some otherCall)
    (sameContext : otherCall.context = call.context) (sameName : otherCall.name = call.name)
    (holds : call.work.holds = true) (otherHolds : otherCall.work.holds = true) : other = id := by
  obtain ⟨context, isContext, _⟩ := sound.calls id call isCall
  have locked := (sound.guarded call.context context call.name id isContext).mpr
    ⟨call, isCall, rfl, rfl, holds⟩
  have lockedOther := (sound.guarded call.context context call.name other isContext).mpr
    ⟨otherCall, isOther, sameContext, sameName, otherHolds⟩
  exact Option.some.inj (lockedOther.symm.trans locked)

/-! ## What a step keeps -/

section Steps

variable {before after : Runtime Output} {event : RuntimeEvent}

/-- A context is never forgotten and only learns. -/
theorem Runtime.Step.extends (steps : Runtime.Step space encoding queue before event after)
    {index : Nat} {context : TaskContext} (isContext : before.contexts index = some context) :
    ∃ later, after.contexts index = some later ∧ context.Extends later := by
  have same : context.Extends context := ⟨rfl, rfl, fun _ isSome => isSome⟩
  cases steps with
  | served | began | beganSleep | answered => exact ⟨context, isContext, same⟩
  | @opened other taskId runId rows world unused serves =>
      refine ⟨context, ?_, same⟩
      have different : index ≠ other := fun isOther => by
        rw [isOther, unused] at isContext
        cases isContext
      rw [Runtime.withWorld_contexts, Runtime.withContext_contexts, if_neg different]
      exact isContext
  | @moved id found call next event isCall isFound steps =>
      obtain ⟨sameContext, _, _⟩ := steps.same
      simp only [Runtime.put, Runtime.withCall_contexts, Runtime.withContext_contexts, sameContext]
      by_cases own : index = call.context
      · rw [if_pos own]
        rw [own, isFound] at isContext
        rw [← Option.some.inj isContext]
        exact ⟨_, rfl, (found.extends_afterEvent call.name event).guard _ _ _⟩
      · rw [if_neg own]
        exact ⟨context, isContext, same⟩

/-- A call that goes on is still polled. -/
theorem ContextCall.Step.live {context : TaskContext} {call next : ContextCall Output}
    {event : CallEvent} (steps : ContextCall.Step encoding queue context call event next) :
    call.work.waits = true ∨ call.work.holds = true := by
  cases steps with
  | enter waiting => exact Or.inl waiting
  | replay entered | execute entered | replaySleep entered | unreadable entered
  | persistSleep entered | unserializableSleep entered => exact Or.inr (by rw [entered]; rfl)
  | fail _ executing | persist executing | unserializable executing =>
      exact Or.inr (by rw [executing]; rfl)
  | persisted persisting | persistedSleep persisting | persistedUnreadable persisting =>
      exact Or.inr (by rw [persisting]; rfl)
  | scheduled scheduling => exact Or.inr (by rw [scheduling]; rfl)
  | refused awaits | lost _ awaits =>
      refine Or.inr ?_
      unfold Work.holds
      split <;> first | rfl | exact awaits
  | drop live => exact live

/-- A call with a statement keeps having one. -/
theorem ContextCall.Step.statement {context : TaskContext} {call next : ContextCall Output}
    {event : CallEvent} (steps : ContextCall.Step encoding queue context call event next)
    (asked : call.statement.isSome) : next.statement.isSome := by
  cases steps with
  | persist | persistSleep | replaySleep | persistedSleep => rfl
  | _ => exact asked

/-- A call after a step of the system is the same, has been answered, or has
gone on. -/
theorem Runtime.Step.call (steps : Runtime.Step space encoding queue before event after)
    {id : Nat} {call : ContextCall Output} (isCall : before.calls id = some call) :
    (after.calls id = some call ∧ (∀ answer, event ≠ .answered id answer) ∧
        ∀ callEvent, event ≠ .moved id callEvent) ∨
      (∃ operation answer, call.statement = some (.sent operation) ∧ event = .answered id answer ∧
        after.calls id = some { call with statement := some (.answered answer) }) ∨
      ∃ context next callEvent, before.contexts call.context = some context ∧
        event = .moved id callEvent ∧
        ContextCall.Step encoding queue context call callEvent next ∧
        after.calls id = some next := by
  cases steps with
  | served | opened => exact Or.inl ⟨isCall, fun _ => by simp, fun _ => by simp⟩
  | @began other index identity name unused | @beganSleep other index sleep name wakeAt unused =>
      refine Or.inl ⟨?_, fun _ => by simp, fun _ => by simp⟩
      have different : id ≠ other := fun isOther => by
        rw [isOther, unused] at isCall
        cases isCall
      rw [Runtime.withCall_calls, if_neg different]
      exact isCall
  | @moved other context found next callEvent isFound isContext steps =>
      by_cases own : id = other
      · subst own
        cases isCall.symm.trans isFound
        exact Or.inr (Or.inr ⟨context, next, callEvent, isContext, rfl, steps, by
          simp [Runtime.put]⟩)
      · refine Or.inl ⟨?_, fun _ => by simp, fun _ equal => ?_⟩
        · simp only [Runtime.put, Runtime.withCall_calls, Runtime.withContext_calls, if_neg own]
          exact isCall
        · cases equal
          exact own rfl
  | @answered other found operation outcome world isFound sent serves =>
      by_cases own : id = other
      · subst own
        cases isCall.symm.trans isFound
        exact Or.inr (Or.inl ⟨operation, ⟨operation, outcome⟩, sent, rfl, by simp⟩)
      · refine Or.inl ⟨?_, fun answer equal => ?_, fun _ => by simp⟩
        · simp only [Runtime.withWorld_calls, Runtime.withCall_calls, if_neg own]
          exact isCall
        · cases equal
          exact own rfl

end Steps

/-! ## Bodies -/

/-- The call neither waits nor works any more, and has asked nothing. -/
def ContextCall.Silent (call : ContextCall Output) : Prop :=
  call.statement = none ∧ call.work.waits = false ∧ call.work.holds = false

/-- A call whose body failed has asked nothing and never will. -/
theorem Runtime.Run.silent_of_fail (run : Runtime.Run space encoding queue initial events reached)
    {id : Nat} (failed : .moved id .fail ∈ events) :
    ∃ call, reached.calls id = some call ∧ call.Silent := by
  let holds (past : List RuntimeEvent) (state : Runtime Output) : Prop :=
    .moved id .fail ∈ past → ∃ call, state.calls id = some call ∧ call.Silent
  have always : holds events reached := by
    refine run.induction (by rintro ⟨⟩) ?_
    intro past source event target early steps now member
    by_cases before : .moved id .fail ∈ past
    · obtain ⟨call, isCall, silent⟩ := now before
      obtain ⟨isNone, notWaiting, notHolding⟩ := silent
      rcases steps.call isCall with ⟨isAfter, _⟩ | ⟨operation, answer, sent, _⟩ |
        ⟨context, next, callEvent, _, _, callSteps, _⟩
      · exact ⟨call, isAfter, isNone, notWaiting, notHolding⟩
      · cases isNone.symm.trans sent
      · rcases callSteps.live with waits | isHolding
        · cases notWaiting.symm.trans waits
        · cases notHolding.symm.trans isHolding
    · have isLast := (List.mem_append.mp member).resolve_left before
      cases List.mem_singleton.mp isLast
      cases steps with
      | @moved _ context call next _ isCall isContext callSteps =>
          obtain ⟨_, isFound, sound⟩ := early.sound.calls id call isCall
          have placed := sound.placed
          cases callSteps with
          | fail error executing =>
              unfold ContextCall.Placed at placed
              rw [executing] at placed
              refine ⟨_, Function.update_self _ _ _, placed, ?_, ?_⟩ <;>
              · rw [executing]
                rfl
  exact always failed

/-- A call whose statement was served has asked something. -/
theorem Runtime.Run.asked_of_answered
    (run : Runtime.Run space encoding queue initial events reached) {id : Nat} {answer : Call}
    (answered : .answered id answer ∈ events) :
    ∃ call, reached.calls id = some call ∧ call.statement.isSome := by
  let holds (past : List RuntimeEvent) (state : Runtime Output) : Prop :=
    .answered id answer ∈ past → ∃ call, state.calls id = some call ∧ call.statement.isSome
  have always : holds events reached := by
    refine run.induction (by rintro ⟨⟩) ?_
    intro past source event target early steps now member
    by_cases before : .answered id answer ∈ past
    · obtain ⟨call, isCall, asked⟩ := now before
      rcases steps.call isCall with ⟨isAfter, _⟩ | ⟨_, _, _, _, isAfter⟩ |
        ⟨context, next, callEvent, _, _, callSteps, isAfter⟩
      · exact ⟨call, isAfter, asked⟩
      · exact ⟨_, isAfter, rfl⟩
      · exact ⟨next, isAfter, callSteps.statement asked⟩
    · have isLast := (List.mem_append.mp member).resolve_left before
      cases List.mem_singleton.mp isLast
      cases steps with
      | answered isCall sent serves => exact ⟨_, Function.update_self _ _ _, rfl⟩
  exact always answered

/-- What was listed for a new context stays known to it. -/
theorem Runtime.Run.loaded (run : Runtime.Run space encoding queue initial events reached)
    {index : Nat} {taskId runId : Uuid} {rows : List (String × Json)}
    (opened : .opened index ⟨.getTaskCheckpointStates taskId runId, .ok rows⟩ ∈ events) :
    ∃ context, reached.contexts index = some context ∧
      ∀ row ∈ rows, (context.checkpointCache row.1).isSome := by
  let holds (past : List RuntimeEvent) (state : Runtime Output) : Prop :=
    .opened index ⟨.getTaskCheckpointStates taskId runId, .ok rows⟩ ∈ past →
      ∃ context, state.contexts index = some context ∧
        ∀ row ∈ rows, (context.checkpointCache row.1).isSome
  have always : holds events reached := by
    refine run.induction (by rintro ⟨⟩) ?_
    intro past source event target early steps now member
    by_cases before : .opened index ⟨.getTaskCheckpointStates taskId runId, .ok rows⟩ ∈ past
    · obtain ⟨context, isContext, known⟩ := now before
      obtain ⟨later, isLater, extends_⟩ := steps.extends isContext
      exact ⟨later, isLater, fun row member => extends_.cache _ (known row member)⟩
    · have isLast := (List.mem_append.mp member).resolve_left before
      cases List.mem_singleton.mp isLast
      cases steps with
      | opened unused serves =>
          exact ⟨_, Function.update_self _ _ _, fun row member => TaskContext.cacheOf_isSome member⟩
  exact always opened

/-! ## The law -/

/-- Steps replay consistently in a state and in the next step. -/
structure StepsReplay (space : Char → Bool) (encoding : Encoding Output) (queue : String)
    (events : List RuntimeEvent) (reached : Runtime Output) : Prop where
  /-- A returned value is the decoding of the one checkpoint committed for the
  task under the name. -/
  committed : ∀ id index name value statement,
    reached.calls id = some ⟨index, name, .checkpoint (.returned (.ok value)), statement⟩ →
      ∃ context row, reached.contexts index = some context ∧
        (∀ other, other ∈ committed events ∧ other.key = (context.taskId, name) ↔ other = row) ∧
        (encoding.output name).decode row.state = .ok value
  /-- All returned values of a task under a name are the same. -/
  agree : ∀ name (value otherValue : Output name) id index context statement other otherIndex
      otherContext otherStatement,
    reached.calls id = some ⟨index, name, .checkpoint (.returned (.ok value)), statement⟩ →
    reached.calls other =
      some ⟨otherIndex, name, .checkpoint (.returned (.ok otherValue)), otherStatement⟩ →
    reached.contexts index = some context → reached.contexts otherIndex = some otherContext →
    otherContext.taskId = context.taskId → otherValue = value
  /-- Bodies of one name do not overlap within a context. -/
  exclusive : ∀ id other index name statement otherStatement,
    reached.calls id = some ⟨index, name, .checkpoint .executing, statement⟩ →
    reached.calls other = some ⟨index, name, .checkpoint .executing, otherStatement⟩ → other = id
  /-- A body starts only if its name was not loaded with its context and no call
  of the name on the context has returned a value. -/
  fresh : ∀ id after, Runtime.Step space encoding queue reached (.moved id .execute) after →
    ∃ index name statement,
      reached.calls id = some ⟨index, name, .checkpoint .entered, statement⟩ ∧
      (∀ other value otherStatement, reached.calls other ≠
        some ⟨index, name, .checkpoint (.returned (.ok value)), otherStatement⟩) ∧
      ∀ taskId runId rows,
        .opened index ⟨.getTaskCheckpointStates taskId runId, .ok rows⟩ ∈ events →
          ∀ row ∈ rows, row.1 ≠ name
  /-- A call whose body failed has no statement served. -/
  failed : ∀ id, .moved id .fail ∈ events → ∀ answer, .answered id answer ∉ events

theorem Runtime.Run.committed_iff
    (run : Runtime.Run space encoding queue initial events reached) {row : CheckpointRow}
    (member : row ∈ Steda.committed events) (other : CheckpointRow) :
    other ∈ Steda.committed events ∧ other.key = row.key ↔ other = row := by
  constructor
  · rintro ⟨memberOther, same⟩
    exact run.committed_unique member memberOther same
  · rintro rfl
    exact ⟨member, rfl⟩

/-- In every reached state of a system, steps replay consistently. -/
theorem Runtime.Run.steps_replay (run : Runtime.Run space encoding queue initial events reached) :
    StepsReplay space encoding queue events reached where
  committed := by
    intro id index name value statement returned
    obtain ⟨context, state, isContext, _, member, decoded⟩ := run.replayed returned
    exact ⟨context, _, isContext, run.committed_iff member, decoded⟩
  agree := by
    intro name value otherValue id index context statement other otherIndex otherContext
      otherStatement returned returnedOther isContext isOther sameTask
    obtain ⟨_, state, isFound, _, member, decoded⟩ := run.replayed returned
    obtain ⟨_, otherState, isFoundOther, _, memberOther, decodedOther⟩ :=
      run.replayed returnedOther
    cases isContext.symm.trans isFound
    cases isOther.symm.trans isFoundOther
    have same := run.committed_unique member memberOther (by simp [CheckpointRow.key, sameTask])
    have sameState : otherState = state := congrArg CheckpointRow.state same
    rw [sameState] at decodedOther
    exact Except.ok.inj (decodedOther.symm.trans decoded)
  exclusive := by
    intro id other index name statement otherStatement isCall isOther
    exact run.sound.holder_unique isCall isOther rfl rfl rfl rfl
  fresh := by
    intro id after steps
    cases steps with
    | @moved _ context call next _ isCall isContext callSteps =>
        obtain ⟨index, name, work, statement⟩ := call
        cases callSteps with
        | execute entered missing =>
            simp only at entered
            subst entered
            refine ⟨index, name, statement, isCall, ?_, ?_⟩
            · intro other value otherStatement returned
              obtain ⟨found, _, isFound, isCached, _⟩ := run.replayed returned
              cases isContext.symm.trans isFound
              rw [missing] at isCached
              cases isCached
            · intro taskId runId rows opened row member same
              obtain ⟨found, isFound, known⟩ := run.loaded opened
              cases isContext.symm.trans isFound
              have isCached := known row member
              rw [same, missing] at isCached
              cases isCached
  failed := by
    intro id failed answer answered
    obtain ⟨call, isCall, isNone, _⟩ := run.silent_of_fail failed
    obtain ⟨other, isOther, asked⟩ := run.asked_of_answered answered
    cases isCall.symm.trans isOther
    rw [isNone] at asked
    cases asked

/-- One step whose body runs and whose value is stored. -/
theorem Runtime.Run.steps_replay_stored :
    ∃ events reached, Runtime.Run asciiSpace plainEncoding "jobs" (.blank second) events reached ∧
      (∃ statement, reached.calls 0 =
        some ⟨0, "$step:total", .checkpoint (.returned (.ok .null)), statement⟩) ∧
      StepsReplay asciiSpace plainEncoding "jobs" events reached := by
  have claimed := @Runtime.run_serve asciiSpace _ plainEncoding "jobs"
    [plainSubmission [], plainClaim "worker"] second
  have opened := claimed.snoc (@Runtime.Step.opened _ asciiSpace _ "jobs" _ 0 0 1 [] _ rfl rfl)
  have began := opened.snoc
    (@Runtime.Step.began _ asciiSpace _ "jobs" _ 0 0 (.step "total") "$step:total" rfl rfl rfl)
  have entered := began.snoc (@Runtime.Step.moved _ asciiSpace _ "jobs" _ 0 _ _ _ .enter rfl rfl
    (.enter rfl rfl))
  have executing := entered.snoc (@Runtime.Step.moved _ asciiSpace _ "jobs" _ 0 _ _ _ .execute
    rfl rfl (.execute rfl rfl))
  have sent := executing.snoc (@Runtime.Step.moved _ asciiSpace _ "jobs" _ 0 _ _ _ .send rfl rfl
    (@ContextCall.Step.persist _ _ _ _ _ Json.null Json.null rfl rfl))
  have answered := sent.snoc (@Runtime.Step.answered _ asciiSpace _ "jobs" _ 0 _
    (.setTaskCheckpointState 0 (some "$step:total") (some .null) 1)
    (.ok { checkpointState := some .null, written := true }) _ rfl rfl rfl)
  have returned := answered.snoc (@Runtime.Step.moved _ asciiSpace _ "jobs" _ 0 _ _ _
    (.receive .null) rfl rfl (.persisted rfl rfl rfl))
  exact ⟨_, _, returned, ⟨_, rfl⟩, returned.steps_replay⟩

end Steda
