import Steda.Laws.Deadlines
import Steda.Serial.Checkpoints

/-!
# Write-once checkpoints

The stored checkpoints are the values that calls have written, in order, for
the tasks that still exist, and no call writes a name of a task again.  A later
call under the name answers with the stored value.
-/

namespace Steda

open Postgres Transaction Relational

variable {space : Char → Bool}

/-! ## Written checkpoints -/

/-- What a checkpoint is stored under. -/
def CheckpointRow.key (row : CheckpointRow) : Uuid × String := (row.taskId, row.name)

/-- The checkpoint a call has written. -/
def Call.written : Call → Option CheckpointRow
  | ⟨.setTaskCheckpointState task (some name) (some state) _, .ok result⟩ =>
      if result.written then some { taskId := task, name := name, state := state } else none
  | _ => none

/-- The checkpoint an event records. -/
def Event.recorded? : Event → Option CheckpointRow
  | .recorded checkpoint _ _ => some checkpoint
  | _ => none

/-- The checkpoints recorded by a call are those it has written. -/
theorem Call.Caused.written {call : Call} {events : List Event}
    (caused : call.Caused space events) : events.filterMap Event.recorded? = call.written.toList := by
  by_cases isSet : ∃ task name state runId outcome,
      call = ⟨.setTaskCheckpointState task name state runId, outcome⟩
  · obtain ⟨task, checkpointName, newState, runId, outcome, isCall⟩ := isSet
    subst isCall
    cases outcome with
    | error error =>
        rw [show events = [] from caused]
        cases checkpointName <;> cases newState <;> rfl
    | ok result =>
        obtain ⟨name, state, isName, isState, ⟨written, observedAt, isEvents⟩ |
          ⟨notWritten, isEvents⟩⟩ := caused
        · subst isName isState isEvents
          simp [Call.written, written, Event.recorded?]
        · subst isName isState isEvents
          simp [Call.written, notWritten]
  · have nothing : call.written = none := by
      obtain ⟨operation, outcome⟩ := call
      cases operation with
      | setTaskCheckpointState => exact absurd ⟨_, _, _, _, _, rfl⟩ isSet
      | _ => rfl
    rw [nothing, Option.toList_none, List.filterMap_eq_nil_iff]
    intro event member
    have may := caused.mayCause event member
    obtain ⟨operation, outcome⟩ := call
    cases event with
    | recorded checkpoint run observedAt =>
        cases operation with
        | setTaskCheckpointState => exact absurd ⟨_, _, _, _, _, rfl⟩ isSet
        | _ => exact absurd may id
    | _ => rfl

/-- The checkpoints recorded by a history are those its calls have written. -/
theorem recorded_of_caused {calls : List Call} {chunks : List (List Event)}
    (caused : List.Forall₂ (Call.Caused space) calls chunks) :
    chunks.flatten.filterMap Event.recorded? = calls.filterMap Call.written := by
  induction caused with
  | nil => rfl
  | @cons call events calls chunks first rest inductionHypothesis =>
      rw [List.flatten_cons, List.filterMap_append, Call.Caused.written first, inductionHypothesis]
      cases written : call.written with
      | none => rw [List.filterMap_cons_none written, Option.toList_none, List.nil_append]
      | some row => rw [List.filterMap_cons_some written]; rfl

/-- From an empty table, the checkpoints after some events are the recorded
ones of the tasks that still exist. -/
theorem replay_recorded {timely : Prop} {events : List Event} {lives : Uuid → Option Life}
    (evolves : ∀ task, Evolves space timely task events none (lives task))
    (fresh : (events.flatMap Event.names).Nodup) :
    Event.replay events [] =
      (events.filterMap Event.recorded?).filter fun row => (lives row.taskId).isSome := by
  induction events using List.reverseRecOn generalizing lives with
  | nil => rfl
  | append_singleton events event inductionHypothesis =>
      rw [List.flatMap_append, List.nodup_append] at fresh
      obtain ⟨freshBefore, _, disjoint⟩ := fresh
      have before : ∀ task, ∃ middle, Evolves space timely task events none middle ∧
          if event.task = task then event.Acts space timely middle (lives task)
          else lives task = middle := by
        intro task
        have last := evolves_concat.mp (evolves task)
        by_cases own : event.task = task
        · rw [if_pos own] at last
          obtain ⟨middle, early, acts⟩ := last
          exact ⟨middle, early, by rw [if_pos own]; exact acts⟩
        · rw [if_neg own] at last
          exact ⟨lives task, last, by rw [if_neg own]⟩
      choose earlier early step using before
      have replayed := inductionHypothesis early freshBefore
      have acts := step event.task
      rw [if_pos rfl] at acts
      have others : ∀ task, event.task ≠ task → lives task = earlier task := by
        intro task other
        have same := step task
        rwa [if_neg other] at same
      rw [Event.replay, List.foldl_append, List.filterMap_append, List.filter_append]
      change event.onCheckpoints (Event.replay events []) = _
      rw [replayed]
      have agree : (∀ row ∈ events.filterMap Event.recorded?, row.taskId = event.task →
            (lives row.taskId).isSome = (earlier row.taskId).isSome) →
          ((events.filterMap Event.recorded?).filter fun row => (earlier row.taskId).isSome) =
            (events.filterMap Event.recorded?).filter fun row => (lives row.taskId).isSome := by
        intro same
        apply List.filter_congr
        intro row member
        by_cases own : row.taskId = event.task
        · rw [same row member own]
        · rw [others _ (Ne.symm own)]
      cases event with
      | submitted task run =>
          refine (agree ?_).trans (List.append_nil _).symm
          intro row member own
          obtain ⟨recorded, inEvents, isRow⟩ := List.mem_filterMap.mp member
          have about : recorded.task = row.taskId := by
            cases recorded <;> cases isRow
            rfl
          have named := (early row.taskId).task_named ⟨recorded, inEvents, about⟩
          exact absurd rfl (disjoint _ named _ (by simp [Event.names, own, Event.task]))
      | moved id transition =>
          obtain ⟨life, isEarlier, _, _, isLater⟩ := acts
          refine (agree ?_).trans (List.append_nil _).symm
          intro row _ own
          rw [own, isEarlier, isLater]
          rfl
      | recorded checkpoint runId observedAt =>
          obtain ⟨life, isEarlier, _, _, _, same⟩ := acts
          have exists_ : (lives checkpoint.taskId).isSome = true := by
            rw [show lives checkpoint.taskId = some life from same.trans isEarlier]
            rfl
          change _ ++ [checkpoint] = _ ++ List.filter _ [checkpoint]
          have single : [checkpoint].filter (fun row => (lives row.taskId).isSome) = [checkpoint] := by
            simp [exists_]
          rw [single, agree ?_]
          intro row _ own
          rw [own, same]
      | deleted id =>
          change List.filter _ (List.filter _ _) = _ ++ []
          rw [List.append_nil, List.filter_filter]
          apply List.filter_congr
          intro row _
          by_cases own : row.taskId = id
          · rw [own, show lives id = none from acts.2]
            simp
          · rw [others _ (Ne.symm own)]
            simp [own]

/-- The checkpoints after a history are the written ones of the tasks that
still exist. -/
theorem History.checkpoints_eq {initial final : World} {calls : List Call}
    (history : History space initial calls final) :
    final.store.checkpoints = (calls.filterMap Call.written).filter fun row =>
      (final.store.findTask row.taskId).isSome := by
  obtain ⟨_, _, chunks, caused, advances⟩ := history.advances
  have evolves : ∀ task, ∃ last, Evolves space True task chunks.flatten none last ∧
      (final.store.findTask task).isSome = last.isSome := by
    intro task
    obtain ⟨last, lastRows, evolves⟩ := advances.evolves_to (history.initial_rows task)
    refine ⟨last, evolves, ?_⟩
    rw [show final.store.findTask task = _ from congrArg Rows.task lastRows]
    cases last <;> rfl
  choose lives evolves same using evolves
  obtain ⟨cleanupTtl, cleanupLimit, isEmpty⟩ := history.empty
  have noCheckpoints : initial.store.checkpoints = [] := by
    rw [isEmpty]
    rfl
  rw [advances.checkpoints, noCheckpoints,
    replay_recorded evolves (advances.names_nodup history.fresh), recorded_of_caused caused]
  simp only [same]

/-- The call has run its stored function to its end. -/
theorem Served.ran {before after : World} {operation : Operation} {result : operation.Result}
    (served : Served space before ⟨operation, .ok result⟩ after) :
    alone space (operation.program space) before = (.ok result, after) :=
  Storage.run_of_atomically_ok served

/-- The key of a stored checkpoint is taken. -/
theorem Queue.findCheckpoint_of_mem {queue : Queue}
    (distinct : (queue.checkpoints.map CheckpointRow.key).Nodup) {row : CheckpointRow}
    (member : row ∈ queue.checkpoints) : queue.findCheckpoint row.taskId row.name = some row := by
  have found := find_of_mem distinct member
  rw [← found]
  unfold findCheckpoint find CheckpointRow.key
  congr 1
  funext other
  rw [Bool.eq_iff_iff]
  simp

/-- Only a `set_task_checkpoint_state` call writes a checkpoint. -/
theorem Call.written_eq_some {call : Call} {row : CheckpointRow} (written : call.written = some row) :
    ∃ runId result, result.written = true ∧ call =
      ⟨.setTaskCheckpointState row.taskId (some row.name) (some row.state) runId, .ok result⟩ := by
  unfold Call.written at written
  split at written
  · next task name state runId result =>
      by_cases isWritten : result.written = true
      · rw [if_pos isWritten] at written
        cases written
        exact ⟨runId, result, isWritten, rfl⟩
      · rw [if_neg isWritten] at written
        cases written
  · cases written

/-- A `set_task_checkpoint_state` call that returns has recorded its value. -/
theorem Served.records {before after : World} {task runId : Uuid} {checkpointName : Option String}
    {newState : Option Json} {result : CheckpointResult}
    (served : Served space before
      ⟨.setTaskCheckpointState task checkpointName newState runId, .ok result⟩ after)
    (sound : before.store.Sound space) :
    ∃ name life, checkpointName = some name ∧ before.store.Shows space life ∧
      life.Attempting task runId (before.clock 0) ∧
      life.task.due (some (before.clock 0)) = .ok false ∧
      ∃ state, newState = some state ∧
        result = (before.store.recordCheckpoint task name state).1 := by
  have ran : alone space (setTaskCheckpointState space task checkpointName newState runId) before =
    (.ok result, after) := served.ran
  obtain ⟨name, state, life, isName, isState, shows_, attempting, inTime, isResult, _⟩ :=
    alone_setTaskCheckpointState_ok sound ran
  exact ⟨name, life, isName, shows_, attempting, inTime, state, isState, isResult⟩

/-- The task of a checkpoint call exists. -/
theorem Life.Attempting.task_exists {queue : Queue} {life : Life} {task run : Uuid}
    {observedAt : Timestamp} (attempting : life.Attempting task run observedAt)
    (shows_ : queue.Shows space life) : (queue.findTask task).isSome := by
  rw [← attempting.task, shows_.findTask]
  rfl

/-- A call that writes finds its task and no checkpoint under the name. -/
theorem Served.writes {before after : World} {call : Call} {row : CheckpointRow}
    (served : Served space before call after) (sound : before.store.Sound space)
    (written : call.written = some row) :
    (before.store.findTask row.taskId).isSome ∧
      before.store.findCheckpoint row.taskId row.name = none := by
  obtain ⟨runId, result, isWritten, isCall⟩ := Call.written_eq_some written
  subst isCall
  obtain ⟨name, life, isName, shows_, attempting, _, state, _, isResult⟩ := served.records sound
  cases isName
  refine ⟨attempting.task_exists shows_, ?_⟩
  cases found : before.store.findCheckpoint row.taskId row.name with
  | none => rfl
  | some other =>
      rw [isResult, Queue.recordCheckpoint, found] at isWritten
      cases isWritten

/-- No name of a task is written twice. -/
theorem History.written_once {initial final : World} {calls : List Call}
    (history : History space initial calls final) :
    ((calls.filterMap Call.written).map CheckpointRow.key).Nodup := by
  let holds (past : List Call) (reached : World) : Prop := History space initial past reached ∧
    ((past.filterMap Call.written).map CheckpointRow.key).Nodup
  have begins : holds [] initial := ⟨⟨history.empty, history.fresh, .nil initial⟩, by simp⟩
  have both : holds calls final := by
    refine Trace.invariant_labels history.trace ?_ begins
    rintro past source call target served ⟨earlier, distinct⟩
    refine ⟨earlier.append (.cons served (.nil target)), ?_⟩
    rw [List.filterMap_append, List.map_append]
    cases written : call.written with
    | none => simpa [written] using distinct
    | some row =>
        obtain ⟨exists_, free⟩ := served.writes earlier.sound written
        simp only [List.filterMap_cons, written, List.filterMap_nil, List.map_cons, List.map_nil]
        refine distinct.append (List.nodup_singleton _) ?_
        intro key isOld isNew
        rw [List.mem_singleton.mp isNew] at isOld
        obtain ⟨old, inPast, same⟩ := List.mem_map.mp isOld
        obtain ⟨sameTask, sameName⟩ := Prod.mk.inj same
        have stored : old ∈ source.store.checkpoints := by
          rw [earlier.checkpoints_eq]
          exact List.mem_filter.mpr ⟨inPast, by rw [sameTask]; exact exists_⟩
        unfold Queue.findCheckpoint at free
        have absent := List.find?_eq_none.mp free old stored
        simp [sameTask, sameName] at absent
  exact both.2

/-! ## The law -/

/-- Checkpoints are write-once in a state and from it on. -/
structure CheckpointsWriteOnce (space : Char → Bool) (past : List Call) (reached : World) :
    Prop where
  /-- The stored checkpoints are those written by calls, for the tasks that
  still exist. -/
  stored : reached.store.checkpoints = (past.filterMap Call.written).filter fun row =>
    (reached.store.findTask row.taskId).isSome
  /-- At most one call has written under a task and a name. -/
  once : ((past.filterMap Call.written).map CheckpointRow.key).Nodup
  /-- A written value is the answer of every later call under its name, is
  listed exactly once, and stays until its task is deleted. -/
  kept : ∀ row ∈ past.filterMap Call.written, ∀ later final,
    Trace (Served space) reached later final →
      (∀ newState runId result, ⟨.setTaskCheckpointState row.taskId (some row.name) newState runId,
        .ok result⟩ ∈ later → result = { checkpointState := some row.state, written := false }) ∧
      (∀ runId listed, ⟨.getTaskCheckpointStates row.taskId runId, .ok listed⟩ ∈ later →
        listed.filter (fun entry => entry.1 == row.name) = [(row.name, row.state)]) ∧
      ((final.store.findTask row.taskId).isSome →
        final.store.checkpoints.filter (fun other => decide (other.key = row.key)) = [row])
  /-- A call adds nothing unless its run is the running authoritative run of
  the task with a valid lease, and the deadline of the task is not due. -/
  fenced : ∀ task name newState runId outcome after,
    Served space reached ⟨.setTaskCheckpointState task name newState runId, outcome⟩ after →
      after.store ≠ reached.store →
        ∃ taskRow run, reached.store.findTask task = some taskRow ∧
          reached.store.findRun runId = some run ∧ run.taskId = task ∧
          taskRow.lastAttemptRun = runId ∧ taskRow.state = .running ∧ run.state = .running ∧
          (∃ expiry, run.claimExpiresAt = some expiry ∧ reached.clock 0 < expiry) ∧
          taskRow.due (some (reached.clock 0)) = .ok false

/-- The stored checkpoints of a history have different names. -/
theorem History.checkpoints_nodup {initial final : World} {calls : List Call}
    (history : History space initial calls final) :
    (final.store.checkpoints.map CheckpointRow.key).Nodup := by
  rw [history.checkpoints_eq]
  exact history.written_once.sublist (List.filter_sublist.map _)

/-- A written checkpoint is stored as long as its task exists. -/
theorem History.stored_of_written {initial final : World} {calls : List Call}
    (history : History space initial calls final) {row : CheckpointRow}
    (written : row ∈ calls.filterMap Call.written)
    (exists_ : (final.store.findTask row.taskId).isSome) : row ∈ final.store.checkpoints := by
  rw [history.checkpoints_eq]
  exact List.mem_filter.mpr ⟨written, exists_⟩

/-- A call under a written name answers with the written value. -/
theorem History.replays_checkpoint {initial source target : World} {past : List Call}
    (history : History space initial past source) {row : CheckpointRow}
    (written : row ∈ past.filterMap Call.written) {newState : Option Json} {runId : Uuid}
    {result : CheckpointResult}
    (served : Served space source
      ⟨.setTaskCheckpointState row.taskId (some row.name) newState runId, .ok result⟩ target) :
    result = { checkpointState := some row.state, written := false } := by
  obtain ⟨name, life, isName, shows_, attempting, _, state, _, isResult⟩ :=
    served.records history.sound
  cases isName
  have found := Queue.findCheckpoint_of_mem history.checkpoints_nodup
    (history.stored_of_written written (attempting.task_exists shows_))
  rw [isResult, Queue.recordCheckpoint, found]

/-- A listing shows a written value exactly once. -/
theorem History.lists_checkpoint {initial source target : World} {past : List Call}
    (history : History space initial past source) {row : CheckpointRow}
    (written : row ∈ past.filterMap Call.written) {runId : Uuid} {listed : List (String × Json)}
    (served : Served space source ⟨.getTaskCheckpointStates row.taskId runId, .ok listed⟩ target) :
    listed.filter (fun entry => entry.1 == row.name) = [(row.name, row.state)] := by
  have ran : alone space (getTaskCheckpointStates row.taskId runId) source = (.ok listed, target) :=
    served.ran
  obtain ⟨exists_, isListed, _⟩ := alone_getTaskCheckpointStates_ok history.sound ran
  have selected := select_of_mem history.checkpoints_nodup (history.stored_of_written written exists_)
  subst isListed
  rw [List.filter_map, List.filter_filter]
  have sameRows : (source.store.checkpoints.filter fun other =>
      ((fun entry : String × Json => entry.1 == row.name) ∘
        fun other : CheckpointRow => (other.name, other.state)) other &&
          (other.taskId == row.taskId)) = [row] := by
    rw [← selected]
    unfold select CheckpointRow.key
    apply List.filter_congr
    intro other _
    rw [Bool.eq_iff_iff]
    simp [and_comm]
  rw [sameRows]
  rfl

/-- In every state a history reaches, checkpoints are write-once. -/
theorem History.checkpointsWriteOnce {initial reached : World} {past : List Call}
    (history : History space initial past reached) : CheckpointsWriteOnce space past reached where
  stored := history.checkpoints_eq
  once := history.written_once
  kept := by
    intro row written later final trace
    have stillWritten : ∀ more, row ∈ (past ++ more).filterMap Call.written := fun more => by
      rw [List.filterMap_append]
      exact List.mem_append_left _ written
    refine ⟨?_, ?_, ?_⟩
    · intro newState runId result member
      obtain ⟨between, rest, isLater⟩ := List.append_of_mem member
      obtain ⟨source, target, early, served, _⟩ := Trace.at_label (isLater ▸ trace)
      exact (history.append early).replays_checkpoint (stillWritten between) served
    · intro runId listed member
      obtain ⟨between, rest, isLater⟩ := List.append_of_mem member
      obtain ⟨source, target, early, served, _⟩ := Trace.at_label (isLater ▸ trace)
      exact (history.append early).lists_checkpoint (stillWritten between) served
    · intro exists_
      have last := history.append trace
      have selected := select_of_mem last.checkpoints_nodup
        (last.stored_of_written (stillWritten later) exists_)
      exact selected
  fenced := by
    intro task name newState runId outcome after served changed
    cases outcome with
    | error error => exact absurd (Storage.atomically_error_store served) changed
    | ok result =>
        obtain ⟨_, life, _, shows_, attempting, inTime, _⟩ := served.records history.sound
        obtain ⟨isRun, running⟩ := attempting.running
        have isTask := attempting.task
        subst isTask isRun
        exact ⟨life.task, life.last, shows_.findTask, shows_.findRun life.last_mem_runs,
          shows_.valid.owned _ life.last_mem_runs, shows_.valid.pointed,
          Transition.Running.task_state shows_.valid attempting.running, running,
          attempting.leased, inTime⟩

/-- A checkpoint that is written twice and then listed. -/
theorem History.checkpointsWriteOnce_replayed :
    let served := World.serve asciiSpace [plainSubmission [], plainClaim "worker",
      .setTaskCheckpointState 0 (some "step") (some .null) 1,
      .setTaskCheckpointState 0 (some "step") (some (.bool true)) 1,
      .getTaskCheckpointStates 0 1] (.blank second)
    (served.1.drop 2).map Call.written = [some ⟨0, "step", .null⟩, none, none] ∧
      CheckpointsWriteOnce asciiSpace served.1 served.2 :=
  ⟨rfl, History.checkpointsWriteOnce (World.history_serve _ second)⟩

end Steda
