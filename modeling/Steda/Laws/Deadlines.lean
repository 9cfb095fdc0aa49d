import Steda.Laws.Finality

/-!
# Deadlines are never crossed

A task starts before its `maxDelay` has passed.  Once it has started, every
step it takes is decided at a time before its `maxDuration` has passed, and no
run of it is scheduled past that time; what is left afterwards is cancellation.
No assumption on the order of the clock readings is needed.
-/

namespace Steda

open Postgres Transaction Relational

variable {space : Char → Bool}

/-- A bound of the cancellation policy of a task, in seconds. -/
def TaskRow.bound (task : TaskRow) (key : String) : Option Numeric :=
  (task.cancellation.bind fun policy => policy.field? key).bind Json.number?

/-- Less than a number of seconds has passed between two times.  No number of
seconds reaches to `infinity`. -/
def Within (bound : Numeric) (since : Timestamp) : Timestamptz → Prop
  | .point observedAt => ((observedAt - since : Int) : Rat) < bound.value * (second : Int)
  | .infinity => False

/-! ## The evaluator -/

/-- A bound the evaluator accepts is the bound of the policy. -/
theorem cancellationBound_number {policy : Json} {key : String} {number : Numeric}
    {bound : Option Int} (found : (policy.field? key).bind Json.number? = some number)
    (read : cancellationBound policy key = .ok bound) :
    ∃ seconds : Int, bound = some seconds ∧ number.value = seconds := by
  cases field : policy.field? key with
  | none =>
      rw [field] at found
      cases found
  | some value =>
      rw [field] at found
      cases value with
      | number other =>
          cases found
          simp only [cancellationBound, Json.text?, field, Json.render, textToBigint_toText] at read
          split at read
          · next cast =>
              split at cast
              · cases cast
              · next integral =>
                  split at cast
                  · cases cast
                  · cases cast
                    cases read
                    refine ⟨number.mantissa, rfl, ?_⟩
                    simp [Numeric.value, not_not.mp integral]
          · cases read
          · cases read
      | _ => cases found

theorem elapsed_false {seconds : Int} {since : Timestamp} {observedAt : Timestamptz}
    {bound : Numeric} (value : bound.value = seconds)
    (notElapsed : elapsed (some seconds) since (some observedAt) = false) :
    Within bound since observedAt := by
  cases observedAt with
  | infinity => cases notElapsed
  | point observedAt =>
      have early : observedAt - since < seconds * second := by
        simpa [elapsed] using notElapsed
      unfold Within
      rw [value]
      exact_mod_cast early

/-- A time the evaluator does not call due is within the bound it has read. -/
theorem within_of_notDue {task : TaskRow} {key : String} {since : Timestamp}
    {observedAt : Timestamptz} {bound : Numeric} (isBound : task.bound key = some bound)
    (notDue : ∀ policy, task.cancellation = some policy →
      (do let read ← cancellationBound policy key
          return elapsed read since (some observedAt)) = Except.ok false) :
    Within bound since observedAt := by
  unfold TaskRow.bound at isBound
  cases policy : task.cancellation with
  | none =>
      rw [policy] at isBound
      cases isBound
  | some policy' =>
      rw [policy] at isBound
      obtain ⟨read, isRead, notElapsed⟩ := except_bind_ok.mp (notDue policy' policy)
      obtain ⟨seconds, isSome, value⟩ := cancellationBound_number isBound isRead
      subst isSome
      exact elapsed_false value (Except.ok.inj notElapsed)

/-- Before the start a time that is not due is within `maxDelay`. -/
theorem TaskRow.within_maxDelay {task : TaskRow} {observedAt : Timestamptz} {bound : Numeric}
    (notDue : task.due (some observedAt) = .ok false) (unstarted : task.firstStartedAt = none)
    (isBound : task.bound "maxDelay" = some bound) : Within bound task.enqueueAt observedAt := by
  refine within_of_notDue isBound fun policy isPolicy => ?_
  rw [TaskRow.due, isPolicy, unstarted] at notDue
  exact notDue

/-- After the start a time that is not due is within `maxDuration`. -/
theorem TaskRow.within_maxDuration {task : TaskRow} {startedAt : Timestamp}
    {observedAt : Timestamptz} {bound : Numeric} (notDue : task.due (some observedAt) = .ok false)
    (started : task.firstStartedAt = some startedAt)
    (isBound : task.bound "maxDuration" = some bound) : Within bound startedAt observedAt := by
  refine within_of_notDue isBound fun policy isPolicy => ?_
  rw [TaskRow.due, isPolicy, started] at notDue
  exact notDue

/-! ## Punctual lives -/

/-- A life that has kept its deadlines so far. -/
structure Life.Punctual (life : Life) : Prop where
  delay : ∀ startedAt bound, life.task.firstStartedAt = some startedAt →
    life.task.bound "maxDelay" = some bound → Within bound life.task.enqueueAt startedAt
  scheduled : ∀ startedAt bound, life.task.firstStartedAt = some startedAt →
    life.task.bound "maxDuration" = some bound →
      life.last.state = .pending ∨ life.last.state = .sleeping →
        Within bound startedAt life.last.availableAt

theorem Transition.after_bound (transition : Transition) (life : Life) (key : String) :
    (transition.after life).task.bound key = life.task.bound key := by
  cases transition <;> rfl

theorem Transition.after_enqueueAt (transition : Transition) (life : Life) :
    (transition.after life).task.enqueueAt = life.task.enqueueAt := by
  cases transition <;> rfl

/-- The times a transition has found not due. -/
def Transition.deadlines : Transition → List Timestamptz
  | .claim _ _ nowAt _ | .reopen _ nowAt => [nowAt]
  | .complete _ observedAt _ | .renew _ observedAt _ | .exhaust _ observedAt _
  | .abandon _ observedAt _ _ => [observedAt]
  | .sleep _ observedAt wakeAt => [observedAt, wakeAt]
  | .retry _ observedAt _ _ _ availableAt => [observedAt, availableAt]
  | .cancel _ => []

theorem Transition.Timely.not_due {transition : Transition} {life : Life}
    (timely : transition.Timely life) :
    ∀ observedAt ∈ transition.deadlines, life.task.due (some observedAt) = .ok false := by
  intro observedAt member
  cases transition with
  | claim run worker nowAt expiresAt => rw [List.mem_singleton.mp member]; exact timely.1
  | complete run at_ result => rw [List.mem_singleton.mp member]; exact timely.1
  | sleep run at_ wakeAt =>
      rcases List.mem_cons.mp member with isFirst | isSecond
      · rw [isFirst]
        exact timely.1
      · rw [List.mem_singleton.mp isSecond]
        exact timely.2.1
  | renew run at_ expiry => rw [List.mem_singleton.mp member]; exact timely.1
  | cancel nowAt => cases member
  | exhaust run at_ reason => rw [List.mem_singleton.mp member]; exact timely
  | retry run at_ reason newRun state availableAt =>
      rcases List.mem_cons.mp member with isFirst | isSecond
      · rw [isFirst]
        exact timely.1
      · rw [List.mem_singleton.mp isSecond]
        exact timely.2.1
  | abandon run at_ reason nowAt => rw [List.mem_singleton.mp member]; exact timely
  | reopen newRun nowAt => rw [List.mem_singleton.mp member]; exact timely

/-- A transition schedules the last run only at a time it has found not due. -/
theorem Transition.scheduled_after {transition : Transition} {life : Life}
    (enabled : transition.Enabled space life)
    (waiting : (transition.after life).last.state = .pending ∨
      (transition.after life).last.state = .sleeping) :
    (transition.after life).last.availableAt ∈ transition.deadlines ∧
      (transition.after life).task.firstStartedAt = life.task.firstStartedAt := by
  cases transition with
  | sleep run observedAt wakeAt =>
      exact ⟨List.mem_cons_of_mem _ List.mem_cons_self, rfl⟩
  | retry run observedAt reason newRun state availableAt =>
      exact ⟨List.mem_cons_of_mem _ List.mem_cons_self, rfl⟩
  | reopen newRun nowAt => exact ⟨List.mem_cons_self, rfl⟩
  | renew run observedAt expiry =>
      have running : life.last.state = .running := enabled.2
      change life.last.state = .pending ∨ life.last.state = .sleeping at waiting
      rw [running] at waiting
      rcases waiting with impossible | impossible <;> cases impossible
  | _ => rcases waiting with impossible | impossible <;> cases impossible

/-- Every timely transition keeps the deadlines. -/
theorem Transition.punctual_after {transition : Transition} {life : Life}
    (punctual : life.Punctual) (enabled : transition.Enabled space life)
    (timely : transition.Timely life) : (transition.after life).Punctual where
  delay := by
    intro startedAt bound started isBound
    rw [Transition.after_bound] at isBound
    rw [Transition.after_enqueueAt]
    by_cases unstarted : life.task.firstStartedAt = none
    · rw [Transition.after_firstStartedAt] at started
      cases transition with
      | claim run worker nowAt expiresAt =>
          rw [unstarted] at started
          cases started
          exact life.task.within_maxDelay (timely.not_due _ List.mem_cons_self) unstarted isBound
      | _ => simp [unstarted] at started
    · obtain ⟨before, isBefore⟩ := Option.ne_none_iff_exists'.mp unstarted
      have same : before = startedAt := by
        rw [Transition.after_firstStartedAt] at started
        cases transition <;> simpa [isBefore] using started
      exact punctual.delay startedAt bound (same ▸ isBefore) isBound
  scheduled := by
    intro startedAt bound started isBound waiting
    rw [Transition.after_bound] at isBound
    obtain ⟨promised, sameStart⟩ := Transition.scheduled_after enabled waiting
    rw [sameStart] at started
    exact life.task.within_maxDuration (timely.not_due _ promised) started isBound

theorem Evolves.punctual {task : Uuid} {events : List Event} {first last : Option Life}
    (evolves : Evolves space True task events first last)
    (punctual : ∀ life, first = some life → life.Punctual) :
    ∀ life, last = some life → life.Punctual := by
  induction events generalizing first with
  | nil =>
      rw [show last = first from evolves]
      exact punctual
  | cons event rest inductionHypothesis =>
      rw [Evolves] at evolves
      by_cases own : event.task = task
      · rw [if_pos own] at evolves
        obtain ⟨between, acts, restEvolves⟩ := evolves
        refine inductionHypothesis restEvolves ?_
        intro life isBetween
        subst isBetween
        cases event with
        | submitted row run =>
            obtain ⟨_, isLife, _, _, unstarted⟩ := acts
            cases isLife
            constructor <;> intro startedAt bound started <;> rw [unstarted] at started <;>
              cases started
        | moved id transition =>
            obtain ⟨before, isBefore, enabled, timely, isLife⟩ := acts
            cases isLife
            exact Transition.punctual_after (punctual before isBefore) enabled (timely trivial)
        | recorded checkpoint run observedAt =>
            obtain ⟨_, _, _, _, _, same⟩ := acts
            exact punctual life same.symm
        | deleted id => cases acts.2
      · rw [if_neg own] at evolves
        exact inductionHypothesis evolves punctual

/-! ## Steps of a started task -/

/-- The times an event has found not due. -/
def Event.deadlines : Event → List Timestamptz
  | .moved _ transition => transition.deadlines
  | .recorded _ _ observedAt => [observedAt]
  | .submitted _ _ | .deleted _ => []

/-- Unless it is a cancellation, an event of a life has found its own time not
due. -/
theorem Event.stamp_mem_deadlines {event : Event} (dated : event.deadlines ≠ []) :
    ∃ observedAt ∈ event.stamps, (observedAt : Timestamptz) ∈ event.deadlines := by
  cases event with
  | submitted task run => exact absurd rfl dated
  | deleted task => exact absurd rfl dated
  | recorded checkpoint run observedAt => exact ⟨observedAt, List.mem_cons_self, List.mem_cons_self⟩
  | moved task transition =>
      cases transition with
      | cancel nowAt => exact absurd rfl dated
      | _ => exact ⟨_, List.mem_cons_self, List.mem_cons_self⟩

/-- After its deletion nothing happens to a task any more. -/
theorem Evolves.nothing_after {timely : Prop} {task : Uuid} {events : List Event}
    {last : Option Life} (evolves : Evolves space timely task events none last)
    (fresh : task ∉ events.flatMap Event.names) : ∀ event ∈ events, event.task ≠ task :=
  fun event member own => fresh (evolves.task_named ⟨event, member, own⟩)

/-- Every step of a started task is within its `maxDuration`. -/
theorem Evolves.within_maxDuration {task : Uuid} {events : List Event} {first : Life}
    {last : Option Life} (evolves : Evolves space True task events (some first) last)
    (valid : first.Valid space) (fresh : task ∉ events.flatMap Event.names)
    {startedAt : Timestamp} (started : first.task.firstStartedAt = some startedAt)
    {bound : Numeric} (isBound : first.task.bound "maxDuration" = some bound) :
    ∀ event ∈ events, event.task = task →
      ∀ observedAt ∈ event.deadlines, Within bound startedAt observedAt := by
  induction events generalizing first with
  | nil => simp
  | cons event rest inductionHypothesis =>
      rw [List.flatMap_cons, List.mem_append, not_or] at fresh
      obtain ⟨_, freshRest⟩ := fresh
      rw [Evolves] at evolves
      by_cases own : event.task = task
      · rw [if_pos own] at evolves
        obtain ⟨between, acts, restEvolves⟩ := evolves
        intro other member otherOwn observedAt promised
        cases event with
        | submitted row run => cases acts.1
        | moved id transition =>
            obtain ⟨life, isLife, enabled, timely, isBetween⟩ := acts
            cases isLife
            subst isBetween
            rcases List.mem_cons.mp member with isHead | inRest
            · subst isHead
              exact first.task.within_maxDuration ((timely trivial).not_due _ promised) started
                isBound
            · refine inductionHypothesis restEvolves (Transition.valid_after valid enabled)
                freshRest ?_ ?_ other inRest otherOwn observedAt promised
              · exact (Transition.precedes_after valid enabled).started startedAt started
              · rw [Transition.after_bound]
                exact isBound
        | recorded checkpoint run at_ =>
            obtain ⟨life, isLife, _, notDue, _, same⟩ := acts
            cases isLife
            subst same
            rcases List.mem_cons.mp member with isHead | inRest
            · subst isHead
              rw [List.mem_singleton.mp promised]
              exact first.task.within_maxDuration notDue started isBound
            · exact inductionHypothesis restEvolves valid freshRest started isBound other inRest
                otherOwn observedAt promised
        | deleted id =>
            obtain ⟨_, isBetween⟩ := acts
            subst isBetween
            rcases List.mem_cons.mp member with isHead | inRest
            · subst isHead
              cases promised
            · exact absurd otherOwn (restEvolves.nothing_after freshRest other inRest)
      · rw [if_neg own] at evolves
        intro other member otherOwn observedAt promised
        rcases List.mem_cons.mp member with isHead | inRest
        · rw [isHead] at otherOwn
          exact absurd otherOwn own
        · exact inductionHypothesis evolves valid freshRest started isBound other inRest otherOwn
            observedAt promised

/-- A task whose events are all undated is unchanged, cancelled or deleted. -/
theorem Evolves.of_undated {timely : Prop} {task : Uuid} {events : List Event} {first : Life}
    {last : Option Life} (evolves : Evolves space timely task events (some first) last)
    (fresh : task ∉ events.flatMap Event.names)
    (undated : ∀ event ∈ events, event.task = task → event.deadlines = []) :
    last = some first ∨
      (first.task.state.terminal = false ∧ ∃ nowAt, Event.moved task (.cancel nowAt) ∈ events ∧
        last = some ((Transition.cancel nowAt).after first)) ∨
      (last = none ∧ Event.deleted task ∈ events) := by
  induction events generalizing first with
  | nil => exact Or.inl evolves
  | cons event rest inductionHypothesis =>
      rw [List.flatMap_cons, List.mem_append, not_or] at fresh
      obtain ⟨_, freshRest⟩ := fresh
      have undatedRest : ∀ event ∈ rest, event.task = task → event.deadlines = [] :=
        fun other member => undated other (List.mem_cons_of_mem _ member)
      rw [Evolves] at evolves
      by_cases own : event.task = task
      · rw [if_pos own] at evolves
        obtain ⟨between, acts, restEvolves⟩ := evolves
        have undatedHead := undated event List.mem_cons_self own
        cases event with
        | submitted row run => cases acts.1
        | recorded checkpoint run observedAt => cases undatedHead
        | deleted id =>
            have isTask : id = task := own
            obtain ⟨_, isBetween⟩ := acts
            subst isTask isBetween
            refine Or.inr (Or.inr ⟨?_, List.mem_cons_self⟩)
            cases last with
            | none => rfl
            | some life => exact absurd restEvolves.task_named_of_some freshRest
        | moved id transition =>
            have isTask : id = task := own
            obtain ⟨life, isLife, enabled, _, isBetween⟩ := acts
            cases isLife
            subst isTask isBetween
            cases transition with
            | cancel nowAt =>
                rcases inductionHypothesis restEvolves freshRest undatedRest with
                  same | ⟨impossible, _⟩ | ⟨gone, member⟩
                · exact Or.inr (Or.inl ⟨enabled, nowAt, List.mem_cons_self, same⟩)
                · cases impossible
                · exact Or.inr (Or.inr ⟨gone, List.mem_cons_of_mem _ member⟩)
            | _ => cases undatedHead
      · rw [if_neg own] at evolves
        rcases inductionHypothesis evolves freshRest undatedRest with
          same | ⟨active, nowAt, member, cancelled⟩ | ⟨gone, member⟩
        · exact Or.inl same
        · exact Or.inr (Or.inl ⟨active, nowAt, List.mem_cons_of_mem _ member, cancelled⟩)
        · exact Or.inr (Or.inr ⟨gone, List.mem_cons_of_mem _ member⟩)

/-- A call that deletes does nothing else. -/
theorem Call.Caused.only_deletes {call : Call} {events : List Event} {task : Uuid}
    (caused : call.Caused space events) (member : Event.deleted task ∈ events) :
    ∀ event ∈ events, ∃ other, event = .deleted other := by
  have may := caused.mayCause _ member
  obtain ⟨operation, outcome⟩ := call
  cases operation with
  | cleanupTasks =>
      cases outcome with
      | error error =>
          rw [show events = [] from caused]
          simp
      | ok count =>
          obtain ⟨tasks, _, isEvents⟩ := caused
          subst isEvents
          intro event isDeletion
          obtain ⟨other, _, isEvent⟩ := List.mem_map.mp isDeletion
          exact ⟨other, isEvent.symm⟩
  | _ => exact absurd may id

/-- Deletions alone keep a task that is not terminal. -/
theorem Evolves.kept_of_deletions {timely : Prop} {task : Uuid} {events : List Event}
    {first : Life} {last : Option Life}
    (evolves : Evolves space timely task events (some first) last)
    (active : first.task.state.terminal = false)
    (deletions : ∀ event ∈ events, ∃ other, event = .deleted other) : last = some first := by
  induction events with
  | nil => exact evolves
  | cons event rest inductionHypothesis =>
      obtain ⟨other, isEvent⟩ := deletions event List.mem_cons_self
      subst isEvent
      rw [Evolves] at evolves
      by_cases own : (Event.deleted other).task = task
      · rw [if_pos own] at evolves
        obtain ⟨between, ⟨⟨life, isLife, terminal⟩, _⟩, _⟩ := evolves
        cases isLife
        rw [active] at terminal
        cases terminal
      · rw [if_neg own] at evolves
        exact inductionHypothesis evolves fun event member =>
          deletions event (List.mem_cons_of_mem _ member)

/-- A deleted task that is not submitted again is gone. -/
theorem Evolves.gone {timely : Prop} {task : Uuid} {events : List Event} {first last : Option Life}
    (evolves : Evolves space timely task events first last)
    (fresh : task ∉ events.flatMap Event.names) (deletion : Event.deleted task ∈ events) :
    last = none := by
  obtain ⟨early, late, isEvents⟩ := List.append_of_mem deletion
  subst isEvents
  obtain ⟨middle, _, afterwards⟩ := evolves_append.mp evolves
  have own : (Event.deleted task).task = task := rfl
  rw [Evolves, if_pos own] at afterwards
  obtain ⟨between, ⟨_, isBetween⟩, lateEvolves⟩ := afterwards
  subst isBetween
  cases last with
  | none => rfl
  | some life =>
      refine absurd lateEvolves.task_named_of_some fun named => fresh ?_
      rw [List.flatMap_append, List.flatMap_cons]
      exact List.mem_append_right _ (List.mem_append_right _ named)

/-- Checkpoints of a task change only by its own events. -/
theorem replay_filter {task : Uuid} {events : List Event} {rows : List CheckpointRow}
    (undated : ∀ event ∈ events, event.task = task → event.deadlines = [])
    (kept : ∀ event ∈ events, event ≠ .deleted task) :
    (Event.replay events rows).filter (fun row => row.taskId == task) =
      rows.filter fun row => row.taskId == task := by
  induction events generalizing rows with
  | nil => rfl
  | cons event rest inductionHypothesis =>
      refine (inductionHypothesis
        (fun other member => undated other (List.mem_cons_of_mem _ member))
        (fun other member => kept other (List.mem_cons_of_mem _ member))).trans ?_
      cases event with
      | submitted row run => rfl
      | moved id transition => rfl
      | recorded checkpoint run observedAt =>
          have other : checkpoint.taskId ≠ task := by
            intro own
            cases undated _ List.mem_cons_self own
          simp [Event.onCheckpoints, List.filter_append, other]
      | deleted id =>
          have other : id ≠ task := by
            intro same
            exact kept _ List.mem_cons_self (same ▸ rfl)
          simp only [Event.onCheckpoints, List.filter_filter]
          apply List.filter_congr
          intro row _
          by_cases own : row.taskId = task
          · simp [own, Ne.symm other]
          · simp [own]

/-! ## The law -/

/-- A task that was not terminal is cancelled with its last run. -/
def Cancels (before after : Queue) (task : TaskRow) (nowAt : Timestamp) : Prop :=
  task.state.terminal = false ∧ after.findTask task.id = some (task.cancel nowAt) ∧
    ∃ earlier last, before.runsOf task.id = earlier ++ [last] ∧
      after.runsOf task.id = earlier ++ [last.cancel]

/-- What the events of a call, decided by its clock readings, may do to a task
that has started with a `maxDuration`. -/
structure StepKeepsDeadline (before after : Queue) (readings : List Timestamp)
    (events : List Event) (task : TaskRow) (startedAt : Timestamp) (bound : Numeric) : Prop where
  /-- Everything but a cancellation is decided within the bound. -/
  decided : ∀ event ∈ events, event.task = task.id →
    ∀ observedAt ∈ event.deadlines, Within bound startedAt observedAt
  /-- A call that comes too late can only cancel the task or delete it once it
  is terminal. -/
  expired : (∀ observedAt ∈ readings, ¬Within bound startedAt observedAt) →
    (after.rowsOf task.id = before.rowsOf task.id ∨
      (∃ nowAt ∈ readings, Cancels before after task nowAt) ∨
      (task.state.terminal = true ∧ after.findTask task.id = none)) ∧
    ((after.findTask task.id).isSome →
      after.checkpoints.filter (fun row => row.taskId == task.id) =
        before.checkpoints.filter fun row => row.taskId == task.id)

/-- The deadlines of a queue are kept so far and by the next call. -/
structure DeadlinesKept (space : Char → Bool) (reached : World) : Prop where
  /-- A task starts before its `maxDelay` has passed. -/
  delay : ∀ task ∈ reached.store.tasks, ∀ startedAt bound,
    task.firstStartedAt = some startedAt → task.bound "maxDelay" = some bound →
      Within bound task.enqueueAt startedAt
  /-- No sleep and no back-off goes past the `maxDuration`. -/
  scheduled : ∀ task ∈ reached.store.tasks, ∀ run ∈ reached.store.runsOf task.id,
    run.state = .pending ∨ run.state = .sleeping → ∀ startedAt bound,
      task.firstStartedAt = some startedAt → task.bound "maxDuration" = some bound →
        Within bound startedAt run.availableAt
  /-- The next call keeps the `maxDuration` of every started task. -/
  steps : ∀ call after, Served space reached call after →
    ∃ readings drawn events, call.Caused space events ∧
      Advances space reached readings drawn events after ∧
      ∀ task ∈ reached.store.tasks, ∀ startedAt bound,
        task.firstStartedAt = some startedAt → task.bound "maxDuration" = some bound →
          StepKeepsDeadline reached.store after.store readings events task startedAt bound

/-- Every task of a history has kept its deadlines. -/
theorem History.punctual {initial final : World} {calls : List Call}
    (history : History space initial calls final) {life : Life}
    (rows : final.store.rowsOf life.task.id = Life.rows (some life)) : life.Punctual := by
  obtain ⟨_, _, chunks, _, advances⟩ := history.advances
  obtain ⟨last, lastRows, evolves⟩ := advances.evolves_to (history.initial_rows life.task.id)
  have isLife : last = some life := Life.rows_injective (lastRows.symm.trans rows)
  subst isLife
  exact evolves.punctual (fun _ impossible => by cases impossible) life rfl

/-- Every call of a history keeps the deadline of a started task. -/
theorem History.step_keeps_deadline {initial middle after : World} {past : List Call}
    (history : History space initial past middle) {call : Call} {readings : List Timestamp}
    {drawn : List Uuid} {events : List Event} (caused : call.Caused space events)
    (advances : Advances space middle readings drawn events after) {life : Life}
    (valid : life.Valid space)
    (rows : middle.store.rowsOf life.task.id = Life.rows (some life))
    {startedAt : Timestamp} {bound : Numeric} (started : life.task.firstStartedAt = some startedAt)
    (isBound : life.task.bound "maxDuration" = some bound) :
    StepKeepsDeadline middle.store after.store readings events life.task startedAt bound := by
  obtain ⟨last, lastRows, evolves⟩ := advances.evolves_to rows
  have fresh := history.not_named_again advances rows
  have decided := evolves.within_maxDuration valid fresh started isBound
  refine ⟨decided, fun late => ?_⟩
  have undated : ∀ event ∈ events, event.task = life.task.id → event.deadlines = [] := by
    intro event member own
    by_contra dated
    obtain ⟨observedAt, isStamp, isDeadline⟩ := Event.stamp_mem_deadlines dated
    exact late observedAt (advances.stamped event member observedAt isStamp)
      (decided event member own observedAt isDeadline)
  constructor
  · rcases evolves.of_undated fresh undated with
      same | ⟨active, nowAt, member, cancelled⟩ | ⟨gone, member⟩
    · subst same
      exact Or.inl (lastRows.trans rows.symm)
    · subst cancelled
      have isStamp := advances.stamped _ member nowAt List.mem_cons_self
      exact Or.inr (Or.inl ⟨nowAt, isStamp, active, congrArg Rows.task lastRows, life.history,
        life.last, congrArg Rows.runs rows, congrArg Rows.runs lastRows⟩)
    · subst gone
      refine Or.inr (Or.inr ⟨?_, congrArg Rows.task lastRows⟩)
      by_contra notTerminal
      have kept := evolves.kept_of_deletions (Bool.eq_false_iff.mpr notTerminal)
        (caused.only_deletes member)
      cases kept
  · intro exists_
    rw [advances.checkpoints]
    refine replay_filter undated fun event member isDeletion => ?_
    subst isDeletion
    have gone := evolves.gone fresh member
    subst gone
    rw [show after.store.findTask life.task.id = none from congrArg Rows.task lastRows] at exists_
    cases exists_

/-- In every state a history reaches, the deadlines are kept. -/
theorem History.deadlinesKept {initial final : World} {calls : List Call}
    (history : History space initial calls final) : DeadlinesKept space final where
  delay := by
    intro task member startedAt bound started isBound
    obtain ⟨life, isTask, _, rows⟩ := history.sound.life member
    subst isTask
    exact (history.punctual rows).delay startedAt bound started isBound
  scheduled := by
    intro task member run inRuns waiting startedAt bound started isBound
    obtain ⟨life, isTask, valid, rows⟩ := history.sound.life member
    subst isTask
    have runs : final.store.runsOf life.task.id = life.runs := congrArg Rows.runs rows
    have active : run.state.active = true := by
      rcases waiting with same | same <;> rw [same] <;> rfl
    obtain ⟨isLast, _⟩ := valid.active_run (runs ▸ inRuns) active
    subst isLast
    exact (history.punctual rows).scheduled startedAt bound started isBound waiting
  steps := by
    intro call after served
    obtain ⟨readings, drawn, events, caused, advances⟩ := served.advances history.sound
    refine ⟨readings, drawn, events, caused, advances, ?_⟩
    intro task member startedAt bound started isBound
    obtain ⟨life, isTask, valid, rows⟩ := history.sound.life member
    subst isTask
    exact history.step_keeps_deadline caused advances valid rows started isBound

/-- A worker completes its run too late, and the task is cancelled. -/
theorem History.deadlinesKept_cancelled :
    let served := World.serve asciiSpace
      [plainSubmission [("cancellation", .object [("maxDuration", .number ⟨5, 0⟩)])],
        plainClaim "worker", .completeRun 1 (some .null)] (.blank (10 * second))
    (∃ task ∈ served.2.store.tasks, task.state = .cancelled ∧
      ∃ startedAt, task.firstStartedAt = some startedAt ∧
        task.bound "maxDuration" = some ⟨5, 0⟩) ∧ DeadlinesKept asciiSpace served.2 := by
  intro served
  have one : 0 < served.2.store.tasks.length := by decide
  exact ⟨⟨served.2.store.tasks.get ⟨0, one⟩, List.get_mem _ _, rfl, _, rfl, rfl⟩,
    History.deadlinesKept (World.history_serve _ (10 * second))⟩

end Steda
