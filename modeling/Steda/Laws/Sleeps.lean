import Steda.Laws.Deadlines
import Steda.Laws.Reclaiming
import Steda.Laws.Steps

/-!
# Durable sleeps

A durable sleep lasts until the wake time its first call has committed, however
often the handler runs again and whatever wake times it passes later.  A run
that sleeps is not claimed before that time, which is within the `maxDuration`
of its task.
-/

namespace Steda

open Postgres Transaction Relational

variable {space : Char → Bool} {life : Life} {runId : Uuid} {wakeAt : Timestamptz}

/-! ## Sleeping runs -/

/-- The last run sleeps until a time, unless its task was cancelled meanwhile. -/
def Life.Asleep (runId : Uuid) (wakeAt : Timestamptz) (life : Life) : Prop :=
  life.last.id = runId ∧
    ((life.last.state = .sleeping ∧ life.last.availableAt = wakeAt) ∨ life.task.state = .cancelled)

theorem Life.Asleep.not_running (asleep : life.Asleep runId wakeAt) (valid : life.Valid space)
    {run : Uuid} : ¬Transition.Running run life := by
  intro running
  rcases asleep.2 with ⟨sleeping, _⟩ | cancelled
  · cases running.2.symm.trans sleeping
  · cases (running.task_state valid).symm.trans cancelled

/-- A sleeping run that can be claimed is available at its wake time. -/
theorem Life.Asleep.available (asleep : life.Asleep runId wakeAt) (valid : life.Valid space)
    (waiting : life.last.state.claimable = true) : life.last.availableAt = wakeAt := by
  rcases asleep.2 with ⟨_, available⟩ | cancelled
  · exact available
  · obtain ⟨_, sameState⟩ := valid.active_run life.last_mem_runs (State.active_of_claimable waiting)
    rw [← sameState, cancelled] at waiting
    cases waiting

/-- Until it is claimed, a sleeping run goes on sleeping or its task is
cancelled. -/
theorem Transition.asleep_after {transition : Transition} (asleep : life.Asleep runId wakeAt)
    (valid : life.Valid space) (enabled : transition.Enabled space life)
    (unclaimed : ∀ worker nowAt expiresAt, transition ≠ .claim runId worker nowAt expiresAt) :
    (transition.after life).Asleep runId wakeAt := by
  cases transition with
  | claim run worker nowAt expiresAt =>
      have isRun : run = runId := enabled.1.symm.trans asleep.1
      subst isRun
      exact absurd rfl (unclaimed worker nowAt expiresAt)
  | cancel nowAt => exact ⟨asleep.1, Or.inr rfl⟩
  | reopen newRun nowAt =>
      have failed : life.task.state = .failed := enabled
      rcases asleep.2 with ⟨sleeping, _⟩ | cancelled
      · obtain ⟨_, sameState⟩ := valid.active_run life.last_mem_runs (by rw [sleeping]; rfl)
        cases (failed.symm.trans sameState).trans sleeping
      · cases failed.symm.trans cancelled
  | sleep run observedAt wake => exact absurd enabled (asleep.not_running valid)
  | renew run observedAt expiry => exact absurd enabled (asleep.not_running valid)
  | complete | exhaust | retry | abandon => exact absurd enabled.1 (asleep.not_running valid)

/-- `schedule_run` finds a time ready that has come, and puts the last run to
sleep until any other time, which is not due. -/
theorem Served.schedules {before after : World} {outcome : ScheduleOutcome}
    (served : Served space before ⟨.scheduleRun runId (some wakeAt), .ok outcome⟩ after)
    (sound : before.store.Sound space) :
    (outcome = .ready → wakeAt ≤ before.clock 0) ∧
      (outcome = .suspended → ∃ life, after.store.Shows space life ∧ life.last.id = runId ∧
        life.last.state = .sleeping ∧ life.last.availableAt = wakeAt ∧
        life.task.firstStartedAt ≠ none ∧ life.task.due (some wakeAt) = .ok false) := by
  have ran : alone space (scheduleRun runId (some wakeAt)) before = (.ok outcome, after) :=
    served.ran
  cases found : before.store.findRun runId with
  | none =>
      have missing : alone space (scheduleRun runId (some wakeAt)) before =
          (.error (.runNotFound runId), before) :=
        alone_stop (alone_lockRunningAttempt_absent found (some false)) _
      rw [missing] at ran
      cases ran
  | some run =>
      obtain ⟨life, inRuns, shows_⟩ := sound.shows_of_findRun found
      have isRun : run.id = runId := Queue.findRun_id found
      subst isRun
      cases verdict : run.gate (before.clock 0) with
      | error error =>
          rw [alone_scheduleRun_refused shows_ inRuns verdict] at ran
          cases ran
      | ok passes =>
          obtain ⟨isLast, running, _⟩ := (shows_.valid.gate_ok inRuns).mp verdict
          subst isLast
          rw [alone_scheduleRun shows_ verdict] at ran
          cases due : life.task.dueBy (before.clock 0) (some wakeAt) with
          | error error =>
              rw [due] at ran
              cases ran
          | ok isDue =>
              rw [due] at ran
              cases isDue with
              | true =>
                  cases ran
                  constructor <;> rintro ⟨⟩
              | false =>
                  by_cases passed : wakeAt ≤ before.clock 0
                  · simp only [if_pos passed] at ran
                    cases ran
                    exact ⟨fun _ => passed, by rintro ⟨⟩⟩
                  · simp only [if_neg passed] at ran
                    cases ran
                    refine ⟨by rintro ⟨⟩, fun _ => ?_⟩
                    let transition := Transition.sleep life.last.id (before.clock 0) wakeAt
                    have enabled : transition.Enabled space life := running
                    have fresh : transition.Fresh before.store := by rintro newRun ⟨⟩
                    have started : life.task.firstStartedAt ≠ none := running.started shows_.valid
                    refine ⟨_, shows_.write enabled fresh, rfl, rfl, rfl, started, ?_⟩
                    obtain ⟨early, notEarly, rest⟩ := except_bind_ok.mp due
                    cases early with
                    | true => cases rest
                    | false => exact rest

/-! ## Claims of a sleeping run -/

/-- A sleeping run is claimed at its wake time or later if all claims of it are
decided by one reading of the clock. -/
theorem Evolves.claimed_late {task : Uuid} {events : List Event} {last : Option Life}
    (evolves : Evolves space True task events (some life) last) (valid : life.Valid space)
    (owner : life.task.id = task) (fresh : task ∉ events.flatMap Event.names)
    (asleep : life.Asleep runId wakeAt) {worker : String} {nowAt expiresAt : Timestamp}
    (member : .moved task (.claim runId worker nowAt expiresAt) ∈ events)
    (claims : ∀ worker now expiresAt,
      .moved task (.claim runId worker now expiresAt) ∈ events → now = nowAt) :
    wakeAt ≤ nowAt := by
  by_contra early
  obtain ⟨before, after, isEvents⟩ := List.append_of_mem member
  subst isEvents
  obtain ⟨claimed, earlyEvolves, enabled, timely, _⟩ := evolves.at_moved
  have freshBefore : task ∉ before.flatMap Event.names := fun named =>
    fresh (by rw [List.flatMap_append]; exact List.mem_append_left _ named)
  let waits (life : Life) : Prop := life.Valid space ∧ life.Asleep runId wakeAt
  have still : waits claimed := by
    refine earlyEvolves.keeps valid owner (fun _ => freshBefore) ⟨valid, asleep⟩ ?_
    rintro transition _ inBefore validBefore enabledBefore timelyBefore ⟨_, stillAsleep⟩
    refine ⟨Transition.valid_after validBefore enabledBefore,
      Transition.asleep_after stillAsleep validBefore enabledBefore ?_⟩
    rintro otherWorker now otherExpiry rfl
    have isNow := claims _ _ _ (List.mem_append_left _ inBefore)
    subst isNow
    have onTime := (timelyBefore trivial).2
    rw [stillAsleep.available validBefore enabledBefore.2.1] at onTime
    exact early onTime
  have onTime := (timely trivial).2
  rw [still.2.available still.1 enabled.2.1] at onTime
  exact early onTime

/-- The next claim of a sleeping run is made at a reading of the clock at or
after its wake time. -/
theorem History.claims_late {initial world middle final : World} {past calls : List Call}
    {call : Call} (history : History space initial past world)
    (shows_ : world.store.Shows space life) (asleep : life.Asleep runId wakeAt)
    (trace : Trace (Served space) world calls middle)
    (unclaimed : ∀ other ∈ calls, ∀ row ∈ other.claimed, row.runId ≠ runId)
    (served : Served space middle call final) {row : ClaimedTask} (member : row ∈ call.claimed)
    (isRun : row.runId = runId) :
    ∃ position run, wakeAt ≤ middle.clock position ∧ final.store.findRun runId = some run ∧
      run.state = .running ∧ run.availableAt = middle.clock position := by
  obtain ⟨readings, drawn, chunks, areCaused, early⟩ := Trace.advances trace history.sound
  obtain ⟨moreReadings, moreDrawn, events, caused, late⟩ :=
    served.advances (Trace.sound trace history.sound)
  have both := early.trans late
  obtain ⟨event, inEvents, worker, nowAt, expiresAt, isEvent⟩ :=
    (caused.claimed_iff row.taskId runId).mpr ⟨row, member, rfl, isRun⟩
  subst isEvent
  have inAll := List.mem_append_right chunks.flatten inEvents
  have isTask := history.owner_of_claim both shows_ asleep.1 inAll
  rw [isTask] at inEvents inAll
  obtain ⟨last, lastRows, evolves⟩ := both.evolves_to shows_.rows
  have fresh := history.not_named_again both shows_.rows
  obtain ⟨sweeps, claims, isEvents, inClaims, areSweeps, areClaims⟩ := caused.claims_last inEvents
  have onTime : wakeAt ≤ nowAt := by
    refine evolves.claimed_late shows_.valid rfl fresh asleep inAll ?_
    intro otherWorker now otherExpiry other
    rcases List.mem_append.mp other with inEarlier | inLast
    · obtain ⟨earlier, inCalls, chunk, causes, inChunk⟩ := call_of_event areCaused inEarlier
      obtain ⟨claimed, isClaimed, _, sameRun⟩ := (causes.claimed_iff life.task.id runId).mp
        ⟨_, inChunk, otherWorker, now, otherExpiry, rfl⟩
      exact absurd sameRun (unclaimed earlier inCalls claimed isClaimed)
    · rw [isEvents] at inLast
      rcases List.mem_append.mp inLast with inSweeps | isClaim
      · exact absurd ⟨_, _, _, rfl⟩ (areSweeps _ inSweeps).not_claims
      · obtain ⟨_, _, _, _, equal⟩ := areClaims _ isClaim
        cases equal
        rfl
  obtain ⟨run, found, running, available⟩ :=
    late.claimed (Trace.sound trace history.sound) caused inEvents
  have isReading : nowAt ∈ moreReadings := late.stamped _ inEvents nowAt List.mem_cons_self
  rw [late.consumed] at isReading
  obtain ⟨position, _, isPosition⟩ := List.mem_map.mp isReading
  rw [← isPosition] at onTime available
  exact ⟨position, run, onTime, found, running, available⟩

/-- A run sleeps until a time. -/
structure World.SleepsUntil (space : Char → Bool) (world : World) (runId : Uuid)
    (wakeAt : Timestamptz) : Prop where
  scheduled : ∃ run, world.store.findRun runId = some run ∧ run.state = .sleeping ∧
    run.availableAt = wakeAt
  /-- The time is within the `maxDuration` of the task. -/
  inTime : ∃ run task startedAt, world.store.findRun runId = some run ∧
    world.store.findTask run.taskId = some task ∧ task.firstStartedAt = some startedAt ∧
      ∀ bound, task.bound "maxDuration" = some bound → Within bound startedAt wakeAt
  /-- The next call that claims the run does so at a reading of the clock at or
  after the time. -/
  claimed : ∀ calls middle call final row, Trace (Served space) world calls middle →
    (∀ other ∈ calls, ∀ row ∈ other.claimed, row.runId ≠ runId) →
      Served space middle call final → row ∈ call.claimed → row.runId = runId →
        ∃ position run, wakeAt ≤ middle.clock position ∧
          final.store.findRun runId = some run ∧ run.state = .running ∧
            run.availableAt = middle.clock position

/-- A suspended run sleeps. -/
theorem History.sleepsUntil {initial before after : World} {past : List Call}
    (history : History space initial past before)
    (served : Served space before ⟨.scheduleRun runId (some wakeAt), .ok .suspended⟩ after) :
    after.SleepsUntil space runId wakeAt := by
  obtain ⟨life, shows_, isLast, sleeping, available, started, notDue⟩ :=
    (served.schedules history.sound).2 rfl
  have found := shows_.findRun life.last_mem_runs
  rw [isLast] at found
  have owner := shows_.valid.owned _ life.last_mem_runs
  refine ⟨⟨life.last, found, sleeping, available⟩, ?_, ?_⟩
  · obtain ⟨startedAt, isStart⟩ := Option.ne_none_iff_exists'.mp started
    exact ⟨life.last, life.task, startedAt, found, owner ▸ shows_.findTask, isStart,
      fun bound isBound => life.task.within_maxDuration notDue isStart isBound⟩
  · intro calls middle call final row trace unclaimed claims member isRun
    exact (history.append (.cons served (.nil _))).claims_late shows_
      ⟨isLast, Or.inl ⟨sleeping, available⟩⟩ trace unclaimed claims member isRun

/-! ## Sleeping calls -/

variable {Output : String → Type} {encoding : Encoding Output} {queue : String}
  {initial : World} {events : List RuntimeEvent} {reached : Runtime Output}

/-- A call gets no answer by going on. -/
theorem ContextCall.Step.answered {context : TaskContext} {call next : ContextCall Output}
    {event : CallEvent} (steps : ContextCall.Step encoding queue context call event next)
    {answer : Call} (answered : next.statement = some (.answered answer)) :
    call.statement = some (.answered answer) := by
  cases steps with
  | persist | persistSleep | replaySleep | persistedSleep => cases answered
  | _ => exact answered

/-- The answer of a call was given in an earlier step. -/
theorem Runtime.Run.answer_mem (run : Runtime.Run space encoding queue initial events reached)
    {id : Nat} {call : ContextCall Output} {answer : Call}
    (isCall : reached.calls id = some call)
    (answered : call.statement = some (.answered answer)) : .answered id answer ∈ events := by
  let holds (past : List RuntimeEvent) (state : Runtime Output) : Prop :=
    ∀ call, state.calls id = some call → call.statement = some (.answered answer) →
      .answered id answer ∈ past
  have always : holds events reached := by
    refine run.induction (by rintro _ ⟨⟩) ?_
    intro past source event target early steps now call isAfter answered
    have before : source.calls id = some call → .answered id answer ∈ past ++ [event] :=
      fun isBefore => List.mem_append_left _ (now call isBefore answered)
    cases steps with
    | served | opened => exact before isAfter
    | @began other | @beganSleep other =>
        rw [Runtime.withCall_calls] at isAfter
        split at isAfter
        · cases Option.some.inj isAfter
          cases answered
        · exact before isAfter
    | @moved other context found next callEvent isFound isContext callSteps =>
        simp only [Runtime.put, Runtime.withCall_calls, Runtime.withContext_calls] at isAfter
        split at isAfter
        · next own =>
            subst own
            cases Option.some.inj isAfter
            exact List.mem_append_left _ (now found isFound (callSteps.answered answered))
        · exact before isAfter
    | @answered other found operation outcome world isFound sent serves =>
        simp only [Runtime.withWorld_calls, Runtime.withCall_calls] at isAfter
        split at isAfter
        · next own =>
            subst own
            cases Option.some.inj isAfter
            cases answered
            exact List.mem_append_right _ (List.mem_singleton.mpr rfl)
        · exact before isAfter
  exact always call isCall answered

/-- A call stays on its context under its name, and the context stays that of
its run. -/
theorem Runtime.call_kept {source target : Runtime Output} {later : List RuntimeEvent}
    (trace : Trace (Runtime.Step space encoding queue) source later target) {id : Nat}
    {call : ContextCall Output} {context : TaskContext} (isCall : source.calls id = some call)
    (isContext : source.contexts call.context = some context) :
    ∃ after extended, target.calls id = some after ∧ after.context = call.context ∧
      after.name = call.name ∧ target.contexts call.context = some extended ∧
      context.Extends extended := by
  let holds (state : Runtime Output) : Prop :=
    ∃ after extended, state.calls id = some after ∧ after.context = call.context ∧
      after.name = call.name ∧ state.contexts call.context = some extended ∧
      context.Extends extended
  have always : holds target := by
    refine trace.invariant ?_ ⟨call, context, isCall, rfl, rfl, isContext, rfl, rfl,
      fun _ known => known⟩
    rintro before event after steps
      ⟨now, present, isNow, sameContext, sameName, isPresent, extends_⟩
    obtain ⟨extended, isExtended, further⟩ := steps.extends isPresent
    have whole : context.Extends extended := ⟨further.taskId.trans extends_.taskId,
      further.runId.trans extends_.runId,
      fun name known => further.cache name (extends_.cache name known)⟩
    rcases steps.call isNow with ⟨isAfter, _⟩ | ⟨_, _, _, _, isAfter⟩ |
      ⟨_, next, _, _, _, callSteps, isAfter⟩
    · exact ⟨now, extended, isAfter, sameContext, sameName, isExtended, whole⟩
    · exact ⟨_, extended, isAfter, sameContext, sameName, isExtended, whole⟩
    · obtain ⟨nextContext, nextName, _⟩ := callSteps.same
      exact ⟨next, extended, isAfter, nextContext.trans sameContext, nextName.trans sameName,
        isExtended, whole⟩
  exact always

/-! ## The law -/

/-- The wake time of a sleep is that of the one checkpoint committed for its
task under its name. -/
def WakesAt (encoding : Encoding Output) (events : List RuntimeEvent) (context : TaskContext)
    (name : String) (wakeAt : Timestamp) : Prop :=
  ∃ row, (∀ other, other ∈ committed events ∧ other.key = (context.taskId, name) ↔ other = row) ∧
    encoding.wakeAt.decode row.state = .ok wakeAt

/-- Sleeps keep their first wake time, whatever wake times their calls pass. -/
structure SleepsKeepWake (space : Char → Bool) (encoding : Encoding Output) (queue : String)
    (initial : World) (events : List RuntimeEvent) (reached : Runtime Output) : Prop where
  /-- A call that has returned `Ok` was found ready. -/
  returned : ∀ id index name requested statement,
    reached.calls id = some ⟨index, name, .sleep requested (.returned (.ok ())), statement⟩ →
      ∃ runId, ∃ actualWakeAt : Timestamp,
        .answered id ⟨.scheduleRun runId (some actualWakeAt), .ok .ready⟩ ∈ events
  /-- A call schedules the run of its context at the committed wake time.  It is
  found ready only at that time or later, and when it suspends the run, the run
  sleeps until that time. -/
  scheduled : ∀ id index name requested phase statement runId (wakeAt : Option Timestamptz)
      outcome earlier later,
    reached.calls id = some ⟨index, name, .sleep requested phase, statement⟩ →
    events = earlier ++ .answered id ⟨.scheduleRun runId wakeAt, .ok outcome⟩ :: later →
      ∃ context before after, ∃ actualWakeAt : Timestamp, reached.contexts index = some context ∧
        runId = context.runId ∧ wakeAt = some actualWakeAt ∧
        WakesAt encoding events context name actualWakeAt ∧
        Runtime.Run space encoding queue initial earlier before ∧
        Runtime.Step space encoding queue before
          (.answered id ⟨.scheduleRun runId wakeAt, .ok outcome⟩) after ∧
        (outcome = .ready → actualWakeAt ≤ before.world.clock 0) ∧
        (outcome = .suspended → after.world.SleepsUntil space runId actualWakeAt)

/-- What was committed early stays committed. -/
theorem mem_committed_of_early {earlier later : List RuntimeEvent} {row : CheckpointRow}
    (member : row ∈ committed earlier) : row ∈ committed (earlier ++ later) := by
  rw [committed, servedCalls_append, List.filterMap_append]
  exact List.mem_append_left _ member

/-- In every reached state of a system, sleeps keep their wake time. -/
theorem Runtime.Run.sleeps_keep_wake
    (run : Runtime.Run space encoding queue initial events reached) :
    SleepsKeepWake space encoding queue initial events reached where
  returned := by
    intro id index name requested statement returned
    obtain ⟨context, _, sound⟩ := run.sound.calls id _ returned
    obtain ⟨runId, actualWakeAt, answered⟩ := sound.placed
    exact ⟨runId, actualWakeAt, run.answer_mem returned answered⟩
  scheduled := by
    intro id index name requested phase statement runId wakeAt outcome earlier later isCall isEvents
    subst isEvents
    obtain ⟨before, after, early, steps, late⟩ := run.trace.at_label
    have past : Runtime.Run space encoding queue initial earlier before :=
      ⟨run.empty, run.fresh, early⟩
    have same := steps
    cases steps with
    | @answered _ call operation answer world isFound sent serves =>
        obtain ⟨context, isContext, sound⟩ := past.sound.calls id call isFound
        have asks : call.Asks (.scheduleRun runId wakeAt) := by rw [ContextCall.Asks, sent]; rfl
        rcases sound.asks _ asks with ⟨_, impossible⟩ | ⟨actualWakeAt, _, isAsked, committed_⟩
        · cases impossible
        · cases isAsked
          obtain ⟨state, member, decoded⟩ := committed_
          have trace : Trace (Runtime.Step space encoding queue) before _ reached := .cons same late
          obtain ⟨other, extended, isOther, sameContext, sameName, isExtended, extends_⟩ :=
            Runtime.call_kept trace isFound isContext
          cases isCall.symm.trans isOther
          simp only at sameContext sameName
          subst sameContext sameName
          have isCommitted := run.committed_iff (mem_committed_of_early member)
          rw [CheckpointRow.key, ← extends_.taskId] at isCommitted
          refine ⟨extended, before, _, actualWakeAt, isExtended, extends_.runId.symm, rfl,
            ⟨_, isCommitted, Codec.fromValue_ok.mp decoded⟩, past, same, ?_, ?_⟩
          · rintro rfl
            exact (serves.schedules past.history.sound).1 rfl
          · rintro rfl
            exact past.history.sleepsUntil serves

/-- A first sleep that is over at once and a second one that suspends the run. -/
theorem Runtime.Run.sleeps_keep_wake_suspended :
    ∃ events reached, Runtime.Run asciiSpace plainEncoding "jobs" (.blank second) events reached ∧
      (∃ statement, reached.calls 0 =
        some ⟨0, "$sleep:nap", .sleep 0 (.returned (.ok ())), statement⟩) ∧
      (∃ statement, reached.calls 1 =
        some ⟨0, "$sleep:rest", .sleep (100 * second) (.returned (.error .suspended)),
          statement⟩) ∧
      SleepsKeepWake asciiSpace plainEncoding "jobs" (.blank second) events reached := by
  have claimed := @Runtime.run_serve asciiSpace _ plainEncoding "jobs"
    [plainSubmission [], plainClaim "worker"] second
  have opened := claimed.snoc (@Runtime.Step.opened _ asciiSpace _ "jobs" _ 0 0 1 [] _ rfl rfl)
  have began := opened.snoc
    (@Runtime.Step.beganSleep _ asciiSpace _ "jobs" _ 0 0 "nap" "$sleep:nap" 0 rfl rfl rfl)
  have entered := began.snoc (@Runtime.Step.moved _ asciiSpace _ "jobs" _ 0 _ _ _ .enter rfl rfl
    (.enter rfl rfl))
  have sent := entered.snoc (@Runtime.Step.moved _ asciiSpace _ "jobs" _ 0 _ _ _ .send rfl rfl
    (@ContextCall.Step.persistSleep _ _ _ _ _ 0 (.number ⟨0, 0⟩) rfl rfl rfl))
  have written := sent.snoc (@Runtime.Step.answered _ asciiSpace _ "jobs" _ 0 _
    (.setTaskCheckpointState 0 (some "$sleep:nap") (some (.number ⟨0, 0⟩)) 1)
    (.ok { checkpointState := some (.number ⟨0, 0⟩), written := true }) _ rfl rfl rfl)
  have learned := written.snoc (@Runtime.Step.moved _ asciiSpace _ "jobs" _ 0 _ _ _
    (.receive (.number ⟨0, 0⟩)) rfl rfl (.persistedSleep rfl rfl rfl rfl))
  have ready := learned.snoc (@Runtime.Step.answered _ asciiSpace _ "jobs" _ 0 _
    (.scheduleRun 1 (some (.point 0))) (.ok .ready) _ rfl rfl rfl)
  have returned := ready.snoc (@Runtime.Step.moved _ asciiSpace _ "jobs" _ 0 _ _ _ .finish rfl rfl
    (.scheduled rfl rfl))
  have beganRest := returned.snoc (@Runtime.Step.beganSleep _ asciiSpace _ "jobs" _ 1 0 "rest"
    "$sleep:rest" (100 * second) rfl rfl rfl)
  have enteredRest := beganRest.snoc (@Runtime.Step.moved _ asciiSpace _ "jobs" _ 1 _ _ _ .enter
    rfl rfl (.enter rfl rfl))
  have sentRest := enteredRest.snoc (@Runtime.Step.moved _ asciiSpace _ "jobs" _ 1 _ _ _ .send
    rfl rfl (@ContextCall.Step.persistSleep _ _ _ _ _ (100 * second)
      (.number ⟨100 * second, 0⟩) rfl rfl rfl))
  have writtenRest := sentRest.snoc (@Runtime.Step.answered _ asciiSpace _ "jobs" _ 1 _
    (.setTaskCheckpointState 0 (some "$sleep:rest") (some (.number ⟨100 * second, 0⟩)) 1)
    (.ok { checkpointState := some (.number ⟨100 * second, 0⟩), written := true }) _ rfl rfl rfl)
  have learnedRest := writtenRest.snoc (@Runtime.Step.moved _ asciiSpace _ "jobs" _ 1 _ _ _
    (.receive (.number ⟨100 * second, 0⟩)) rfl rfl (.persistedSleep rfl rfl rfl rfl))
  have suspended := learnedRest.snoc (@Runtime.Step.answered _ asciiSpace _ "jobs" _ 1 _
    (.scheduleRun 1 (some (.point (100 * second)))) (.ok .suspended) _ rfl rfl rfl)
  have finished := suspended.snoc (@Runtime.Step.moved _ asciiSpace _ "jobs" _ 1 _ _ _ .finish
    rfl rfl (.scheduled rfl rfl))
  exact ⟨_, _, finished, ⟨_, rfl⟩, ⟨_, rfl⟩, finished.sleeps_keep_wake⟩

end Steda
