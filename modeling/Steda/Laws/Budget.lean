import Steda.Laws.Finality

/-!
# Attempt budgets

A task never has more runs than its initial budget and its manual retries allow
together.  A task fails only when its strategy allows no further attempt, and
a manual retry does not change that: the run it creates is the only one it
grants.
-/

namespace Steda

open Postgres Transaction Relational

variable {space : Char → Bool} {life : Life} {task : Uuid}

/-! ## Manual retries -/

/-- The task a call has reopened. -/
def Call.retried? : Call → Option Uuid
  | ⟨.retryTask task, .ok _⟩ => some task
  | _ => none

/-- The task an event reopens. -/
def Event.reopened? : Event → Option Uuid
  | .moved task (.reopen _ _) => some task
  | _ => none

theorem Event.reopened?_eq_some {event : Event} :
    event.reopened? = some task ↔
      ∃ newRun nowAt, event = .moved task (.reopen newRun nowAt) := by
  cases event with
  | moved id transition => cases transition <;> simp [reopened?]
  | _ => simp [reopened?]

/-- A call reopens the task it was asked to retry, and no other. -/
theorem Call.Caused.reopened_eq {call : Call} {events : List Event}
    (caused : call.Caused space events) :
    events.filterMap Event.reopened? = call.retried?.toList := by
  by_cases reopens : ∃ task newRun nowAt, Event.moved task (.reopen newRun nowAt) ∈ events
  · obtain ⟨task, newRun, nowAt, member⟩ := reopens
    obtain ⟨isCall, isEvents⟩ := caused.reopened member
    rw [isCall, isEvents]
    rfl
  · have noneReopened : events.filterMap Event.reopened? = [] := by
      rw [List.filterMap_eq_nil_iff]
      intro event member
      cases isReopened : event.reopened? with
      | none => rfl
      | some task =>
          obtain ⟨newRun, nowAt, isEvent⟩ := Event.reopened?_eq_some.mp isReopened
          exact absurd ⟨task, newRun, nowAt, isEvent ▸ member⟩ reopens
    rw [noneReopened]
    obtain ⟨operation, outcome⟩ := call
    cases operation with
    | retryTask id =>
        cases outcome with
        | error error => rfl
        | ok newRun =>
            obtain ⟨nowAt, isEvents⟩ := caused
            rw [isEvents] at reopens
            exact absurd ⟨id, newRun, nowAt, List.mem_cons_self⟩ reopens
    | _ => rfl

/-- The reopened tasks of a history, in order. -/
theorem reopened_of_caused {calls : List Call} {chunks : List (List Event)}
    (caused : List.Forall₂ (Call.Caused space) calls chunks) :
    chunks.flatten.filterMap Event.reopened? = calls.filterMap Call.retried? := by
  induction caused with
  | nil => rfl
  | @cons call events calls chunks first rest inductionHypothesis =>
      rw [List.flatten_cons, List.filterMap_append, first.reopened_eq, inductionHypothesis,
        List.filterMap_cons]
      cases call.retried? <;> rfl

/-! ## The budget -/

/-- Only a manual retry raises the budget, and by at most one. -/
theorem Transition.maxAttempts_after (transition : Transition) (valid : life.Valid space) :
    (transition.after life).task.initialMaxAttempts = life.task.initialMaxAttempts ∧
      (transition.after life).task.maxAttempts ≤ life.task.maxAttempts +
        (Event.moved task transition).reopened?.toList.count task := by
  cases transition with
  | reopen newRun nowAt =>
      refine ⟨rfl, ?_⟩
      have within := valid.withinBudget
      simp only [after, TaskRow.reopen, Event.reopened?, Option.toList_some, List.count_singleton_self]
      omega
  | _ => exact ⟨rfl, Nat.le_add_right _ _⟩

/-- The budget of a task is at most its initial budget and one for each manual
retry. -/
theorem Evolves.maxAttempts_le {timely : Prop} {events : List Event}
    (evolves : Evolves space timely task events none (some life))
    (submitted : ∀ row run, .submitted row run ∈ events →
      row.maxAttempts = row.initialMaxAttempts) :
    life.task.maxAttempts ≤
      life.task.initialMaxAttempts + (events.filterMap Event.reopened?).count task := by
  induction events using List.reverseRecOn generalizing life with
  | nil => cases evolves
  | append_singleton events event inductionHypothesis =>
      have earlier : ∀ {before : Life}, Evolves space timely task events none (some before) →
          before.task.maxAttempts ≤ before.task.initialMaxAttempts +
            (events.filterMap Event.reopened?).count task := fun early =>
        inductionHypothesis early
          (fun row run member => submitted row run (List.mem_append_left _ member))
      have isLast : event ∈ events ++ [event] := List.mem_append_right _ List.mem_cons_self
      rw [List.filterMap_append, List.count_append]
      rw [evolves_concat] at evolves
      by_cases own : event.task = task
      · rw [if_pos own] at evolves
        obtain ⟨middle, early, acts⟩ := evolves
        cases event with
        | submitted row run =>
            obtain ⟨_, isLife, _⟩ := acts
            cases isLife
            exact (submitted row run isLast).le.trans (Nat.le_add_right _ _)
        | moved id transition =>
            have isTask : id = task := own
            subst isTask
            obtain ⟨before, isBefore, _, _, isLife⟩ := acts
            subst isBefore
            cases isLife
            have lives : Lives space id none := by simp [Lives]
            obtain ⟨sameInitial, raised⟩ :=
              @Transition.maxAttempts_after space before id transition
                (early.lives lives before rfl).1
            have budget := earlier early
            rw [sameInitial]
            have single : [Event.moved id transition].filterMap Event.reopened? =
                (Event.moved id transition).reopened?.toList := by
              rw [List.filterMap_cons]
              cases (Event.moved id transition).reopened? <;> rfl
            rw [single]
            omega
        | recorded checkpoint run observedAt =>
            obtain ⟨_, _, _, _, _, same⟩ := acts
            subst same
            exact (earlier early).trans (by omega)
        | deleted id => cases acts.2
      · rw [if_neg own] at evolves
        exact (earlier evolves).trans (by omega)

/-! ## The last automatic attempt -/

/-- A strategy that allows no further attempt never does. -/
theorem Transition.retriable_after {transition : Transition} (valid : life.Valid space)
    (enabled : transition.Enabled space life) (spent : life.retriable = false) :
    (transition.after life).retriable = false := by
  have isLast := valid.last_attempt
  have within := valid.withinBudget
  cases transition with
  | retry run observedAt reason newRun state availableAt =>
      obtain ⟨_, _, left, _⟩ := enabled
      rw [spent] at left
      cases left
  | reopen newRun nowAt =>
      unfold Life.retriable retriesLeft at spent ⊢
      simp only [Bool.and_eq_false_iff, decide_eq_false_iff_not] at spent ⊢
      rcases spent with noRetries | exhausted
      · exact .inl noRetries
      · refine .inr ?_
        simp only [AttemptContext.ofRows, after, TaskRow.reopen, RunRow.fresh] at exhausted ⊢
        omega
  | _ => exact spent

/-- A task fails only when its strategy allows no further attempt. -/
theorem Transition.retriable_of_failed {transition : Transition} (valid : life.Valid space)
    (enabled : transition.Enabled space life)
    (failed : (transition.after life).task.state = .failed) :
    (transition.after life).retriable = false := by
  cases transition with
  | exhaust run observedAt reason => exact enabled.2.2
  | renew run observedAt expiry =>
      change life.task.state = .failed at failed
      rw [Running.task_state valid enabled] at failed
      cases failed
  | retry run observedAt reason newRun state availableAt =>
      have waiting : state.claimable = true := enabled.2.2.2
      change state = .failed at failed
      rw [failed] at waiting
      cases waiting
  | _ => cases failed

/-- A failed task has no attempt left. -/
theorem Evolves.retriable_of_failed {timely : Prop} {events : List Event}
    (evolves : Evolves space timely task events none (some life))
    (failed : life.task.state = .failed) : life.retriable = false := by
  let spentOnFailure (before : Life) : Prop :=
    before.task.state = .failed → before.retriable = false
  have holds : spentOnFailure life := by
    refine evolves.invariant ?_ ?_
    · intro row run _ valid pending isFailed
      rcases valid.agrees with same | ⟨cancelled, _⟩
      · rw [isFailed, pending] at same
        cases same
      · rw [isFailed] at cancelled
        cases cancelled
    · intro transition before _ valid enabled _ _ isFailed
      exact Transition.retriable_of_failed valid enabled isFailed
  exact holds failed

/-- A stored strategy has a kind. -/
theorem kind_of_ok {strategy : Json} {delay : Rat} {attempt : Nat}
    (accepted : retryDelaySeconds strategy attempt = .ok delay) :
    ∃ kind, strategy.text? "kind" = some kind := by
  unfold retryDelaySeconds at accepted
  rw [except_guard_ok, except_guard_ok] at accepted
  obtain ⟨_, _, accepted⟩ := accepted
  unfold Json.text?
  cases isField : strategy.field? "kind" with
  | none =>
      rw [isField] at accepted
      cases accepted
  | some value =>
      rw [isField] at accepted
      cases value with
      | string kind => exact ⟨kind, rfl⟩
      | _ => cases accepted

/-- A task has no attempt left when its strategy has no retries or its budget
is used up. -/
theorem Life.Valid.spent (valid : life.Valid space) (spent : life.retriable = false) :
    life.task.retryStrategy.text? "kind" = some "none" ∨
      life.task.attempts = life.task.maxAttempts := by
  obtain ⟨⟨_, _, ⟨delay, accepted, _⟩, _⟩, _⟩ := TaskRow.check_ok.mp valid.taskChecked
  obtain ⟨kind, isKind⟩ := kind_of_ok accepted
  have isLast := valid.last_attempt
  have within := valid.withinBudget
  unfold Life.retriable retriesLeft at spent
  simp only [AttemptContext.ofRows, isKind, Bool.and_eq_false_iff, bne_eq_false_iff_eq] at spent
  rcases spent with isNone | exhausted
  · exact .inl (isNone ▸ isKind)
  · have used : ¬life.last.attempt + 1 ≤ life.task.maxAttempts := of_decide_eq_false exhausted
    exact .inr (by omega)

/-- Without a manual retry a task that has no attempt left gets no run. -/
theorem Evolves.runs_kept {timely : Prop} {events : List Event} {first last : Life}
    (evolves : Evolves space timely task events (some first) (some last))
    (valid : first.Valid space) (owner : first.task.id = task)
    (fresh : .deleted task ∈ events → task ∉ events.flatMap Event.names)
    (spent : first.retriable = false) (unretried : task ∉ events.filterMap Event.reopened?) :
    last.runs.map RunRow.id = first.runs.map RunRow.id := by
  let kept (life : Life) : Prop :=
    life.retriable = false ∧ life.runs.map RunRow.id = first.runs.map RunRow.id
  have holds : kept last := by
    refine evolves.keeps valid owner fresh ⟨spent, rfl⟩ ?_
    rintro transition before member validBefore enabled _ ⟨spentBefore, same⟩
    refine ⟨Transition.retriable_after validBefore enabled spentBefore, ?_⟩
    rw [← same]
    cases transition with
    | retry run observedAt reason newRun state availableAt =>
        obtain ⟨_, _, left, _⟩ := enabled
        rw [spentBefore] at left
        cases left
    | reopen newRun nowAt =>
        have reopened : task ∈ events.filterMap Event.reopened? :=
          List.mem_filterMap.mpr ⟨_, member, rfl⟩
        exact absurd reopened unretried
    | _ =>
        simp only [Life.runs, List.map_append, List.map_cons, List.map_nil]
        rfl
  exact holds.2

/-! ## The law -/

/-- What the budget of a task means in a state reached by some calls. -/
structure AttemptBudget (space : Char → Bool) (calls : List Call) (reached : World) : Prop where
  /-- A task has at most as many runs as its initial budget and its manual
  retries allow. -/
  runs : ∀ task ∈ reached.store.tasks, (reached.store.runsOf task.id).length ≤
    task.initialMaxAttempts + (calls.filterMap Call.retried?).count task.id
  /-- A failed task has no retries, or has used up its budget. -/
  failed : ∀ task ∈ reached.store.tasks, task.state = .failed →
    task.retryStrategy.text? "kind" = some "none" ∨ task.attempts = task.maxAttempts
  /-- A manual retry creates one run.  As long as it is the last manual retry,
  the task gets no other run, and when the run fails the task is failed or
  cancelled. -/
  retried : ∀ task newRun next, Served space reached ⟨.retryTask task, .ok newRun⟩ next →
    (next.store.runsOf task).map RunRow.id = (reached.store.runsOf task).map RunRow.id ++ [newRun] ∧
      ∀ later final row, Trace (Served space) next later final →
        task ∉ later.filterMap Call.retried? → final.store.findTask task = some row →
          (final.store.runsOf task).map RunRow.id = (next.store.runsOf task).map RunRow.id ∧
            ∀ run, final.store.findRun newRun = some run → run.state = .failed →
              row.state = .failed ∨ row.state = .cancelled

section Law

variable {initial reached next : World} {calls : List Call}

/-- The number of runs of a task is within its budget. -/
theorem History.runs_le (history : History space initial calls reached) {row : TaskRow}
    (member : row ∈ reached.store.tasks) :
    (reached.store.runsOf row.id).length ≤
      row.initialMaxAttempts + (calls.filterMap Call.retried?).count row.id := by
  obtain ⟨_, _, chunks, caused, advances⟩ := history.advances
  obtain ⟨life, isRow, valid, rows⟩ := advances.sound.life member
  subst isRow
  obtain ⟨last, lastRows, evolves⟩ := advances.evolves_to (history.initial_rows life.task.id)
  have isLife : last = some life := Life.rows_injective (lastRows.symm.trans rows)
  subst isLife
  have budget := evolves.maxAttempts_le fun row run submitted => by
    obtain ⟨call, _, events, causes, inEvents⟩ := call_of_event caused submitted
    obtain ⟨_, _, _, request, _, _, isRow, _⟩ := causes.inserts inEvents
    rw [isRow]
    rfl
  rw [reopened_of_caused caused] at budget
  have runs : (reached.store.runsOf life.task.id).length = life.task.attempts := by
    rw [show reached.store.runsOf life.task.id = life.runs from congrArg Rows.runs rows,
      valid.attempts_eq]
    simp [Life.runs]
  rw [runs]
  exact valid.withinBudget.trans budget

/-- The life of a failed task has no attempt left. -/
theorem History.retriable_of_failed (history : History space initial calls reached)
    (rows : reached.store.rowsOf life.task.id = Life.rows (some life))
    (failed : life.task.state = .failed) : life.retriable = false := by
  obtain ⟨_, _, chunks, _, advances⟩ := history.advances
  obtain ⟨last, lastRows, evolves⟩ := advances.evolves_to (history.initial_rows life.task.id)
  have isLife : last = some life := Life.rows_injective (lastRows.symm.trans rows)
  subst isLife
  exact evolves.retriable_of_failed failed

/-- A manual retry reopens a failed task with the run it returns. -/
theorem Served.reopens {newRun : Uuid}
    (served : Served space reached ⟨.retryTask task, .ok newRun⟩ next)
    (sound : reached.store.Sound space) :
    ∃ (life : Life) (nowAt : Timestamp), life.Valid space ∧ life.task.id = task ∧
      reached.store.rowsOf task = Life.rows (some life) ∧ life.task.state = .failed ∧
      next.store.rowsOf task = Life.rows (some ((Transition.reopen newRun nowAt).after life)) := by
  obtain ⟨_, _, events, ⟨nowAt, isEvents⟩, advances⟩ := served.advances sound
  subst isEvents
  obtain ⟨first, last, firstRows, lastRows, evolves⟩ := advances.evolves task
  obtain ⟨life, isLife, failed, _, isAfter⟩ := (evolves_singleton rfl).mp evolves
  subst isLife isAfter
  obtain ⟨valid, owner⟩ := sound.life_of_rows firstRows
  exact ⟨life, nowAt, valid, owner, firstRows, failed, lastRows⟩

/-- In every state a history reaches, budgets bound the runs and a manual retry
grants exactly one attempt. -/
theorem History.attempt_budget (history : History space initial calls reached) :
    AttemptBudget space calls reached := by
  refine ⟨fun row member => history.runs_le member, ?_, ?_⟩
  · intro row member failed
    obtain ⟨life, isRow, valid, rows⟩ := history.sound.life member
    subst isRow
    exact valid.spent (history.retriable_of_failed rows failed)
  · intro task newRun next served
    obtain ⟨life, nowAt, valid, owner, rows, failed, nextRows⟩ := served.reopens history.sound
    let reopened := (Transition.reopen newRun nowAt).after life
    have enabled : (Transition.reopen newRun nowAt).Enabled space life := failed
    have spent : life.retriable = false :=
      history.retriable_of_failed (owner.symm ▸ rows) failed
    have before : reached.store.runsOf task = life.runs := congrArg Rows.runs rows
    have after : next.store.runsOf task = reopened.runs := congrArg Rows.runs nextRows
    have nextHistory := history.append (.cons served (.nil next))
    refine ⟨?_, ?_⟩
    · rw [before, after]
      exact List.map_append
    · intro later final row trace unretried found
      obtain ⟨_, _, chunks, caused, advances⟩ := Trace.advances trace nextHistory.sound
      obtain ⟨last, isRow, lastValid, lastRows⟩ := advances.sound.life_of_findTask found
      subst isRow
      obtain ⟨other, otherRows, evolves⟩ := advances.evolves_to nextRows
      have isLast : other = some last := Life.rows_injective (otherRows.symm.trans lastRows)
      subst isLast
      have kept := evolves.runs_kept (Transition.valid_after valid enabled) owner
        (fun _ => nextHistory.not_named_again advances nextRows)
        (Transition.retriable_after valid enabled spent)
        (by rwa [reopened_of_caused caused])
      have final_ : final.store.runsOf task = last.runs := congrArg Rows.runs lastRows
      refine ⟨by rw [final_, after, kept], ?_⟩
      intro run isFound runFailed
      have isLastRun : last.last.id = newRun := by
        simp only [Life.runs, Transition.after, List.map_append, List.map_cons,
          List.map_nil] at kept
        have lasts := (List.append_inj' kept rfl).2
        exact (List.cons.inj lasts).1
      have isRun : last.last = run := by
        have inRows : last.last ∈ (final.store.rowsOf task).runs := by
          rw [lastRows]
          exact last.last_mem_runs
        have known := advances.sound.keyed.findRun_of_mem inRows
        rw [isLastRun, isFound] at known
        exact (Option.some.inj known).symm
      rw [← isRun] at runFailed
      rcases lastValid.agrees with same | ⟨cancelled, _⟩
      · exact .inl (same.trans runFailed)
      · exact .inr cancelled

end Law

/-- A task without retries that fails, is retried by hand and fails again. -/
theorem History.attempt_budget_retried :
    let served := World.serve asciiSpace [plainSubmission [], plainClaim "worker",
      .failRun 1 (some .null) (some false), .retryTask 0, plainClaim "worker",
      .failRun 2 (some .null) (some false)] (.blank second)
    served.2.store.tasks.map TaskRow.state = [.failed] ∧
      AttemptBudget asciiSpace served.1 served.2 :=
  ⟨rfl, History.attempt_budget (World.history_serve _ second)⟩

end Steda
