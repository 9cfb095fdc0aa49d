import Steda.Contracts.Claiming

/-!
# Contracts of submission and result lookup

A submission inserts one task with one pending run, or finds the task that
already holds its idempotency key.  The contract holds in a quiet database.
-/

namespace Steda

open Postgres Transaction Relational

variable {space : Char → Bool} {quiet : Prop} {raises : SqlError → Tx → Prop}
variable {tx : Tx} {ledger : Ledger}

/-! ## Errors of the validation -/

theorem plain_doubleField (strategy : Json) (key : String) {notNumber : SqlError}
    (plain : notNumber.plain = true) :
    Plain (doubleField strategy key notNumber) := by
  unfold doubleField doubleOfNumber
  split
  · split
    · exact onlyRaises_ok _
    · exact onlyRaises_error rfl
  · exact onlyRaises_error plain

theorem plain_fixedDelaySeconds (strategy : Json) : Plain (fixedDelaySeconds strategy) := by
  unfold fixedDelaySeconds
  rcases unknownKey? strategy ["kind", "baseSeconds"] with _ | key
  · refine onlyRaises_guard rfl (onlyRaises_bind (plain_doubleField _ _ rfl) fun base _ => ?_)
    exact onlyRaises_guard rfl (onlyRaises_ok _)
  · exact onlyRaises_error rfl

theorem plain_exponentialParameters (strategy : Json) :
    Plain (exponentialParameters strategy) := by
  unfold exponentialParameters
  rcases unknownKey? strategy ["kind", "baseSeconds", "factor", "maxSeconds"] with _ | key
  · refine onlyRaises_guard rfl (onlyRaises_guard rfl (onlyRaises_guard rfl
      (onlyRaises_guard rfl (onlyRaises_guard rfl
        (onlyRaises_bind (plain_doubleField _ _ rfl) fun base _ =>
          onlyRaises_bind (plain_doubleField _ _ rfl) fun factor _ => ?_)))))
    by_cases bounded : strategy.hasKey "maxSeconds" = true
    · simp only [bounded, if_true]
      refine onlyRaises_bind (plain_doubleField _ _ rfl) fun maxSeconds _ => ?_
      exact onlyRaises_guard rfl (onlyRaises_guard rfl (onlyRaises_guard rfl (onlyRaises_ok _)))
    · simp only [bounded]
      refine onlyRaises_bind (onlyRaises_ok _) fun maxSeconds _ => ?_
      exact onlyRaises_guard rfl (onlyRaises_guard rfl (onlyRaises_guard rfl (onlyRaises_ok _)))
  · exact onlyRaises_error rfl

theorem plain_retryDelaySeconds (strategy : Json) (attempt : Nat) :
    Plain (retryDelaySeconds strategy attempt) := by
  unfold retryDelaySeconds
  refine onlyRaises_guard rfl (onlyRaises_guard rfl ?_)
  rcases (strategy.field? "kind").bind Json.string? with _ | kind
  · exact onlyRaises_error rfl
  refine onlyRaises_guard rfl ?_
  by_cases isNone : kind = "none"
  · simp only [isNone, if_true]
    rcases unknownKey? strategy ["kind"] with _ | key
    · exact onlyRaises_ok _
    · exact onlyRaises_error rfl
  · simp only [isNone, if_false]
    split
    · exact plain_fixedDelaySeconds strategy
    · split
      · unfold exponentialDelaySeconds
        refine onlyRaises_bind (plain_exponentialParameters strategy) fun parameters _ => ?_
        split <;> exact onlyRaises_ok _
      · exact onlyRaises_error rfl

theorem plain_validateCancellationPolicy (cancellation : Option Json) :
    Plain (validateCancellationPolicy cancellation) := by
  have bound : ∀ (policy : Json) (key : String), Plain (validateCancellationBound policy key) := by
    intro policy key
    unfold validateCancellationBound
    split
    · exact onlyRaises_ok _
    · split
      · exact onlyRaises_error rfl
      · exact onlyRaises_ok _
    · exact onlyRaises_error rfl
  unfold validateCancellationPolicy
  split
  · exact onlyRaises_ok _
  · exact onlyRaises_ok _
  · refine onlyRaises_guard rfl (onlyRaises_guard rfl ?_)
    split
    · exact onlyRaises_error rfl
    · exact onlyRaises_bind (bound _ _) fun _ _ =>
        onlyRaises_bind (bound _ _) fun _ _ => onlyRaises_ok _

theorem plain_validateSubmission (taskName : Option String) (params options : Option Json) :
    Plain (validateSubmission space taskName params options) := by
  unfold validateSubmission
  refine onlyRaises_guard rfl ?_
  split
  · exact onlyRaises_error rfl
  · split
    · exact onlyRaises_error rfl
    refine onlyRaises_guard rfl (onlyRaises_guard rfl (onlyRaises_bind ?_ fun headers _ =>
      onlyRaises_bind ?_ fun maxAttempts _ =>
        onlyRaises_bind (plain_validateCancellationPolicy _) fun cancellation _ =>
          onlyRaises_bind ?_ fun key _ => ?_))
    · unfold normalizeHeaders
      split <;> first | exact onlyRaises_ok _ | exact onlyRaises_error rfl
    · unfold normalizeMaxAttempts
      split
      · exact onlyRaises_ok _
      · split
        · exact onlyRaises_error rfl
        · exact onlyRaises_ok _
      · exact onlyRaises_error rfl
    · unfold idempotencyKeyOption
      split <;> first | exact onlyRaises_ok _ | exact onlyRaises_error rfl
    · have delayed : ∀ value : Submission, Plain (do
          let _ ← retryDelaySeconds
            (((options.getD Json.emptyObject).field? "retryStrategy").getD defaultRetryStrategy) 1
          return value) := fun value =>
        onlyRaises_bind (plain_retryDelaySeconds _ _) fun _ _ => onlyRaises_ok _
      cases key with
      | none => exact delayed _
      | some key => exact onlyRaises_guard rfl (onlyRaises_guard rfl (delayed _))

/-! ## Accepted requests -/

/-- What an accepted request was normalized from. -/
structure Submission.Normalizes (space : Char → Bool) (taskName : Option String)
    (params options : Option Json) (request : Submission) : Prop where
  name : taskName = some request.name
  named : isBlank space request.name = false ∧ request.name.utf8ByteSize ≤ maxNameBytes
  params : request.params = params.getD .null
  headers : normalizeHeaders (options.getD Json.emptyObject) = .ok request.headers
  maxAttempts : normalizeMaxAttempts (options.getD Json.emptyObject) = .ok request.maxAttempts
  cancellation : validateCancellationPolicy
    ((options.getD Json.emptyObject).field? "cancellation") = .ok request.cancellation
  idempotencyKey : idempotencyKeyOption (options.getD Json.emptyObject) =
    .ok request.idempotencyKey
  keyed : ∀ key ∈ request.idempotencyKey,
    isBlank space key = false ∧ key.utf8ByteSize ≤ maxNameBytes
  retryStrategy : request.retryStrategy =
    ((options.getD Json.emptyObject).field? "retryStrategy").getD defaultRetryStrategy
  delayed : ∃ delay, retryDelaySeconds request.retryStrategy 1 = .ok delay

theorem validateSubmission_ok {taskName : Option String} {params options : Option Json}
    {request : Submission}
    (accepted : validateSubmission space taskName params options = .ok request) :
    request.Normalizes space taskName params options := by
  unfold validateSubmission at accepted
  obtain ⟨_, accepted⟩ := except_guard_ok.mp accepted
  generalize unknownKey? (options.getD Json.emptyObject) spawnOptionKeys = unknown at accepted
  cases unknown with
  | some key => cases accepted
  | none =>
      cases taskName with
      | none => cases accepted
      | some name =>
          obtain ⟨notBlank, accepted⟩ := except_guard_ok.mp accepted
          obtain ⟨short, accepted⟩ := except_guard_ok.mp accepted
          obtain ⟨headers, isHeaders, accepted⟩ := except_bind_ok.mp accepted
          obtain ⟨maxAttempts, isBudget, accepted⟩ := except_bind_ok.mp accepted
          obtain ⟨cancellation, isPolicy, accepted⟩ := except_bind_ok.mp accepted
          obtain ⟨key, isKey, accepted⟩ := except_bind_ok.mp accepted
          have named : isBlank space name = false ∧ name.utf8ByteSize ≤ maxNameBytes :=
            ⟨by simpa using notBlank, not_lt.mp short⟩
          cases key with
          | none =>
              obtain ⟨delay, delayed, returned⟩ := except_bind_ok.mp accepted
              cases returned
              exact ⟨rfl, named, rfl, isHeaders, isBudget, isPolicy, isKey, by simp, rfl,
                delay, delayed⟩
          | some key =>
              obtain ⟨keyNotBlank, accepted⟩ := except_guard_ok.mp accepted
              obtain ⟨keyShort, accepted⟩ := except_guard_ok.mp accepted
              obtain ⟨delay, delayed, returned⟩ := except_bind_ok.mp accepted
              cases returned
              refine ⟨rfl, named, rfl, isHeaders, isBudget, isPolicy, isKey, ?_, rfl,
                delay, delayed⟩
              intro other isOther
              cases isOther
              exact ⟨by simpa using keyNotBlank, not_lt.mp keyShort⟩

theorem normalizeHeaders_object {options : Json} {headers : Option Json}
    (accepted : normalizeHeaders options = .ok headers) :
    (headers.map Json.isObject).getD true = true := by
  unfold normalizeHeaders at accepted
  split at accepted <;> cases accepted <;> rfl

theorem normalizeMaxAttempts_pos {options : Json} {maxAttempts : Nat}
    (accepted : normalizeMaxAttempts options = .ok maxAttempts) : 1 ≤ maxAttempts := by
  unfold normalizeMaxAttempts at accepted
  split at accepted
  · cases accepted
    decide
  · next value _ =>
      split at accepted
      · cases accepted
      · next bounds =>
          cases accepted
          simp only [not_or, Bool.not_eq_true, Bool.not_eq_false'] at bounds
          obtain ⟨whole, atLeastOne, _⟩ := bounds
          have mantissa : value.mantissa = value.trunc * 10 ^ value.scale := by
            simpa [Numeric.isWhole] using whole
          have bound : (10 : Int) ^ value.scale ≤ value.trunc * 10 ^ value.scale := by
            rw [← mantissa]
            simpa [Numeric.ltInt] using atLeastOne
          have positive : (0 : Int) < 10 ^ value.scale := by positivity
          have truncated : 1 ≤ value.trunc := by
            by_contra small
            have nonpositive : value.trunc * 10 ^ value.scale ≤ 0 :=
              mul_nonpos_of_nonpos_of_nonneg (by omega) positive.le
            omega
          omega
  · cases accepted

/-- The row of an accepted request passes its checks. -/
theorem Submission.Normalizes.check {taskName : Option String} {params options : Option Json}
    {request : Submission} (normalizes : request.Normalizes space taskName params options)
    (taskId runId : Uuid) (nowAt : Timestamp) :
    (request.taskRow taskId runId nowAt).check space = .ok () := by
  obtain ⟨delay, delayed⟩ := normalizes.delayed
  rw [TaskRow.check_ok]
  refine ⟨⟨?_, normalizeHeaders_object normalizes.headers, ⟨delay, delayed,
    retryDelaySeconds_nonneg delayed⟩, normalizeMaxAttempts_pos normalizes.maxAttempts, ?_⟩,
    le_rfl, ?_⟩
  · exact ⟨by simp [Submission.taskRow, normalizes.named.1], normalizes.named.2⟩
  · intro key isKey
    obtain ⟨notBlank, short⟩ := normalizes.keyed key isKey
    exact ⟨by simp [notBlank], short⟩
  · intro impossible
    cases impossible

/-- A new task has a valid life. -/
theorem Submission.valid (request : Submission) (taskId runId : Uuid) (nowAt : Timestamp)
    (checked : (request.taskRow taskId runId nowAt).check space = .ok ()) :
    ({ task := request.taskRow taskId runId nowAt
       history := []
       last := RunRow.fresh runId taskId 1 .pending nowAt } : Life).Valid space where
  owned := by simp [Life.runs, RunRow.fresh, Submission.taskRow]
  numbered := rfl
  pointed := rfl
  historyFailed := by simp
  agrees := Or.inl rfl
  withinBudget := by
    have bounds := TaskRow.check_ok.mp checked
    exact bounds.1.2.2.2.1
  taskChecked := checked
  runsChecked := by
    intro run member
    rw [List.mem_singleton.mp member]
    exact RunRow.check_fresh _ _ 0 rfl _
  neverClaimed := by simp [Life.runs, RunRow.fresh, Submission.taskRow]
  unstarted := fun _ => ⟨rfl, Or.inl rfl⟩

/-! ## The insertion of a task -/

theorem Queue.Keyed.insertTask {queue : Queue} (keyed : queue.Keyed) {task : TaskRow}
    (fresh : queue.findTask task.id = none)
    (free : ∀ key ∈ task.idempotencyKey, ∀ row ∈ queue.tasks, row.idempotencyKey ≠ some key) :
    (queue.insertTask task).Keyed where
  tasks := by
    have absent := find_eq_none.mp fresh
    unfold Queue.insertTask
    rw [List.map_append, List.map_singleton]
    refine List.Nodup.append keyed.tasks (List.nodup_singleton _) ?_
    intro id isOld isNew
    obtain ⟨old, member, same⟩ := List.mem_map.mp isOld
    exact absent old member (same.trans (List.mem_singleton.mp isNew))
  runs := keyed.runs
  keys := by
    unfold Queue.insertTask
    rw [List.filterMap_append]
    refine List.Nodup.append keyed.keys ?_ ?_
    · cases isKey : task.idempotencyKey <;> simp [isKey]
    · intro key isOld isNew
      obtain ⟨old, member, oldKey⟩ := List.mem_filterMap.mp isOld
      obtain ⟨new, isTask, newKey⟩ := List.mem_filterMap.mp isNew
      rw [List.mem_singleton.mp isTask] at newKey
      exact free key newKey old member oldKey

/-- The insertion of a checked task is dropped when its key is held and refused
when its identifier is taken. -/
theorem attempt_insertTask_of_check {queue : Queue} {task : TaskRow}
    (checked : task.check space = .ok ()) :
    Queue.attempt space (.insertTask task) queue =
      if (task.idempotencyKey.bind queue.findKey).isSome then .ok false
      else if (queue.findTask task.id).isSome then .error (.uniqueViolation "tasks_pkey")
      else .ok true := by
  have held : (task.idempotencyKey.isSome = true ∧
      (queue.tasks.any fun row => row.idempotencyKey == task.idempotencyKey) = true) ↔
        (task.idempotencyKey.bind queue.findKey).isSome = true := by
    cases task.idempotencyKey with
    | none => simp
    | some key =>
        simp only [Option.isSome_some, true_and, Option.bind_some, Queue.findKey,
          List.find?_isSome, List.any_eq_true]
  have taken : (queue.tasks.any fun row => row.id == task.id) = (queue.findTask task.id).isSome :=
    (isSome_find task.id queue.tasks).symm
  simp only [Queue.attempt, checked, taken]
  by_cases isHeld : (task.idempotencyKey.bind queue.findKey).isSome = true
  · rw [if_pos isHeld]
    simp only [held.mpr isHeld, and_self, if_true]
    rfl
  · rw [if_neg isHeld]
    simp only [mt held.mp isHeld, if_false]
    by_cases present : (queue.findTask task.id).isSome = true
    · simp only [present, if_true]
      rfl
    · simp only [present]
      rfl

/-- A checked task is inserted unless its key is held by another one. -/
theorem attempt_insertTask {queue : Queue} {task : TaskRow} {answer : Bool}
    (attempted : Queue.attempt space (.insertTask task) queue = .ok answer) :
    task.check space = .ok () ∧
      ((answer = true ∧ queue.findTask task.id = none ∧
          ∀ key ∈ task.idempotencyKey, ∀ row ∈ queue.tasks, row.idempotencyKey ≠ some key) ∨
        (answer = false ∧ ∃ key, task.idempotencyKey = some key ∧ (queue.findKey key).isSome)) := by
  obtain ⟨checked, isChecked, attempted⟩ := except_bind_ok.mp attempted
  refine ⟨isChecked, ?_⟩
  by_cases conflict : task.idempotencyKey.isSome = true ∧
      (queue.tasks.any fun row => row.idempotencyKey == task.idempotencyKey) = true
  · rw [if_pos conflict] at attempted
    cases attempted
    obtain ⟨key, isKey⟩ := Option.isSome_iff_exists.mp conflict.1
    refine Or.inr ⟨rfl, key, isKey, ?_⟩
    unfold Queue.findKey
    rw [List.find?_isSome]
    obtain ⟨row, member, same⟩ := List.any_eq_true.mp conflict.2
    exact ⟨row, member, by simpa [isKey] using same⟩
  · rw [if_neg conflict, except_guard_ok] at attempted
    obtain ⟨notTaken, returned⟩ := attempted
    cases returned
    refine Or.inl ⟨rfl, ?_, ?_⟩
    · refine find_eq_none.mpr fun row member same => notTaken ?_
      exact List.any_eq_true.mpr ⟨row, member, by simp [same]⟩
    · intro key isKey row member sameKey
      have held : task.idempotencyKey = some key := isKey
      refine conflict ⟨by rw [held]; rfl, List.any_eq_true.mpr ⟨row, member, ?_⟩⟩
      rw [sameKey, held, beq_self_eq_true]

/-- A task that is inserted while its first run is not. -/
structure Submitting (space : Char → Bool) (quiet : Prop) (ledger : Ledger) (task : TaskRow)
    (tx : Tx) : Prop where
  consistent : Consistent space quiet ledger (fun other => other = task.id) tx
  locked : .task task.id ∈ tx.held
  absent : ∃ before, tx.committed.rowsOf task.id = Life.rows before ∧
    Evolves space quiet task.id ledger.events before none
  rows : tx.queue.rowsOf task.id = { task := some task, runs := [] }

theorem Consistent.insertTask {task : TaskRow}
    (settled : Settled space quiet ledger tx) (fresh : tx.queue.findTask task.id = none)
    (free : ∀ key ∈ task.idempotencyKey, ∀ row ∈ tx.queue.tasks, row.idempotencyKey ≠ some key) :
    Submitting space quiet ledger task
      ((tx.hold [.task task.id]).record (.insertTask task)) := by
  have otherRows : ∀ other, other ≠ task.id →
      (Tx.queue ((tx.hold [.task task.id]).record (.insertTask task))).rowsOf other =
        tx.queue.rowsOf other := by
    intro other different
    rw [Tx.queue_record, Queue.rowsOf_apply, Tx.queue_hold]
    simp only [Change.onRows, if_neg (Ne.symm different)]
  obtain ⟨before, after, committedRows, viewRows, evolves⟩ :=
    settled.evolves task.id (by simp)
  have isAbsent : after = none := by
    cases after with
    | none => rfl
    | some life =>
        have found : tx.queue.findTask task.id = some life.task := congrArg Rows.task viewRows
        rw [fresh] at found
        cases found
  subst isAbsent
  refine ⟨⟨settled.readings, settled.drawn, settled.committed, ?_, ?_, ?_, ?_, ?_⟩, ?_, ?_, ?_⟩
  · rw [Tx.queue_record]
    exact settled.keyed.insertTask fresh free
  · rcases settled.retained with silent | retained
    · exact Or.inl silent
    · right
      intro change member
      rcases List.mem_append.mp member with earlier | added
      · exact retained change earlier
      · rw [List.mem_singleton.mp added]
        simp
  · intro other different
    rw [otherRows other different]
    exact settled.evolves other (by simp)
  · intro other different unlocked
    rw [otherRows other different]
    exact settled.untouched other (by simp) fun locked =>
      unlocked (List.mem_append_right _ locked)
  · rw [Tx.queue_record]
    exact settled.checkpoints
  · exact List.mem_append_left _ List.mem_cons_self
  · exact ⟨before, committedRows, evolves⟩
  · rw [Tx.queue_record, Queue.rowsOf_apply, Tx.queue_hold, viewRows]
    simp [Change.onRows, Life.rows]

/-- Inserting the first run completes a submission. -/
theorem Submitting.insertRun {task : TaskRow} {run : RunRow}
    (submitting : Submitting space quiet ledger task tx) (owner : run.taskId = task.id)
    (fresh : tx.queue.findRun run.id = none)
    (valid : ({ task := task, history := [], last := run } : Life).Valid space)
    (pending : run.state = .pending) (unstarted : task.firstStartedAt = none)
    (stamped : ∀ reading ∈ (Event.submitted task run).stamps, reading ∈ ledger.readings)
    (named : (ledger.events.flatMap Event.names ++ (Event.submitted task run).names).Sublist
      ledger.drawn) :
    Settled space quiet (ledger.cause (.submitted task run) stamped named)
      ((tx.hold [.run run.id]).record (.insertRun run)) := by
  have consistent := submitting.consistent
  have otherRows : ∀ other, other ≠ task.id →
      (Tx.queue ((tx.hold [.run run.id]).record (.insertRun run))).rowsOf other =
        tx.queue.rowsOf other := by
    intro other different
    rw [Tx.queue_record, Queue.rowsOf_apply, Tx.queue_hold]
    simp only [Change.onRows, owner, if_neg (Ne.symm different)]
  refine ⟨consistent.readings, consistent.drawn, consistent.committed, ?_, ?_, ?_, ?_, ?_⟩
  · rw [Tx.queue_record]
    exact consistent.keyed.insertRun fresh
  · rcases consistent.retained with silent | retained
    · exact Or.inl silent
    · right
      intro change member
      rcases List.mem_append.mp member with earlier | added
      · exact retained change earlier
      · rw [List.mem_singleton.mp added]
        simp
  · intro other _
    by_cases same : other = task.id
    · subst same
      obtain ⟨before, committedRows, evolves⟩ := submitting.absent
      refine ⟨before, some { task := task, history := [], last := run }, committedRows, ?_,
        evolves.snoc rfl ⟨rfl, rfl, valid, pending, unstarted⟩⟩
      rw [Tx.queue_record, Queue.rowsOf_apply, Tx.queue_hold, submitting.rows]
      simp [Change.onRows, owner, Life.rows, Life.runs]
    · rw [otherRows other same]
      obtain ⟨before, after, committedRows, viewRows, evolves⟩ := consistent.evolves other same
      exact ⟨before, after, committedRows, viewRows, evolves.snoc_other (Ne.symm same)⟩
  · intro other _ unlocked
    have free : RowKey.task other ∉ tx.held := fun held =>
      unlocked (List.mem_append_right _ held)
    have different : other ≠ task.id := fun same => free (same ▸ submitting.locked)
    rw [otherRows other different]
    obtain ⟨unchanged, noEvents⟩ := consistent.untouched other different free
    refine ⟨unchanged, ?_⟩
    intro event member
    rcases List.mem_append.mp member with earlier | added
    · exact noEvents event earlier
    · rw [List.mem_singleton.mp added]
      exact Ne.symm different
  · rw [Tx.queue_record, replay_cause fun _ => rfl]
    exact consistent.checkpoints

/-- What `spawn_task` has done when it returns. -/
def Spawned (space : Char → Bool) (quiet : Prop) (ledger : Ledger)
    (request : Except SqlError Submission) (result : SpawnResult) (tx : Tx) : Prop :=
  ∃ submission, request = .ok submission ∧
    ((result.created = true ∧ ∃ runId nowAt, Reaches space quiet ledger
        [.submitted (submission.taskRow result.taskId runId nowAt)
          (RunRow.fresh runId result.taskId 1 .pending nowAt)] tx) ∨
      (result.created = false ∧ Reaches space quiet ledger [] tx))

/-- Inserting an acceptable task starts its submission unless another task holds
its key. -/
theorem guarantees_insertTask (silent : quiet) {task : TaskRow}
    (settled : Stably space quiet (Settled space quiet ledger) tx)
    (checked : task.check space = .ok ())
    (collides : ∀ tx, Settled space quiet ledger tx → (tx.queue.findTask task.id).isSome →
      raises (.uniqueViolation "tasks_pkey") tx) :
    Guarantees space quiet (change (.insertTask task))
      (fun answer tx => (answer = true ∧ Submitting space quiet ledger task tx) ∨
        (answer = false ∧ task.idempotencyKey.isSome ∧ Settled space quiet ledger tx))
      raises tx := by
  apply Program.ensures_write
  · intro store moved attempted
    obtain ⟨_, ⟨_, fresh, free⟩ | ⟨impossible, _⟩⟩ := attempt_insertTask attempted
    · exact Stably.of_quiet silent (Or.inl ⟨rfl, (settled store moved).insertTask fresh free⟩)
    · cases impossible
  · intro store moved attempted
    obtain ⟨_, ⟨impossible, _⟩ | ⟨_, key, isKey, _⟩⟩ := attempt_insertTask attempted
    · cases impossible
    · refine Stably.of_quiet silent (Or.inr ⟨rfl, ?_, settled store moved⟩)
      rw [isKey]
      rfl
  · intro store moved error refused
    have attempted := (attempt_insertTask_of_check checked).symm.trans refused
    split at attempted
    · cases attempted
    · split at attempted
      · next taken =>
          cases attempted
          exact collides _ (settled store moved) taken
      · cases attempted

/-- Inserting the first run completes the submission of a task. -/
theorem guarantees_insertFirstRun (silent : quiet) {task : TaskRow} {run : RunRow}
    (submitting : Submitting space quiet ledger task tx) (owner : run.taskId = task.id)
    (valid : ({ task := task, history := [], last := run } : Life).Valid space)
    (pending : run.state = .pending) (unstarted : task.firstStartedAt = none)
    (stamped : ∀ reading ∈ (Event.submitted task run).stamps, reading ∈ ledger.readings)
    (named : (ledger.events.flatMap Event.names ++ (Event.submitted task run).names).Sublist
      ledger.drawn)
    (collides : (tx.queue.findRun run.id).isSome → raises (.uniqueViolation "runs_pkey") tx) :
    Guarantees space quiet (change (.insertRun run))
      (fun _ tx => Settled space quiet (ledger.cause (.submitted task run) stamped named) tx)
      raises tx := by
  have sameTask : tx.queue.findTask run.taskId = some task := by
    rw [owner]
    exact congrArg Rows.task submitting.rows
  have sameRuns : tx.queue.runsOf run.taskId = [] := by
    rw [owner]
    exact congrArg Rows.runs submitting.rows
  have attempted : Queue.attempt space (.insertRun run) tx.queue =
      if (tx.queue.findRun run.id).isSome then .error (.uniqueViolation "runs_pkey")
      else .ok true := by
    refine attempt_insertRun ?_ (valid.runsChecked _ (Life.last_mem_runs _)) ?_ ?_
    · rw [sameTask]
      rfl
    · rw [sameRuns]
      simp
    · rw [sameRuns]
      simp
  have unmoved : ∀ store, (interference space quiet).moves tx.held tx.committed store →
      tx.withCommitted store = tx := by
    intro store moved
    rw [moved.2.2.2 silent, Local.withCommitted_self]
  apply Program.ensures_write
  · intro store moved written
    rw [unmoved store moved] at written ⊢
    have answered := attempted.symm.trans written
    refine Stably.of_quiet silent
      (submitting.insertRun owner ?_ valid pending unstarted stamped named)
    cases found : tx.queue.findRun run.id with
    | none => rfl
    | some other =>
        rw [found] at answered
        cases answered
  · intro store moved dropped
    rw [unmoved store moved] at dropped
    have answered := attempted.symm.trans dropped
    split at answered <;> cases answered
  · intro store moved error refused
    rw [unmoved store moved] at refused ⊢
    have answered := attempted.symm.trans refused
    split at answered
    · next taken =>
        cases answered
        exact collides taken
    · cases answered

/-- The lookup after a conflicting insert changes nothing. -/
theorem guarantees_compareExisting (tolerates : Tolerates raises) (request : Submission)
    (key : String) (settled : Stably space quiet (Settled space quiet ledger) tx) :
    Guarantees space quiet (compareExisting request key)
      (fun result tx => result.created = false ∧ Reaches space quiet ledger [] tx) raises tx := by
  apply Program.Ensures.bind
  refine Program.Ensures.mono ?_ (fun _ _ raised => raised)
    (guarantees_snapshot (fun _ => True) settled fun _ _ => trivial)
  rintro visible afterRead ⟨-, known⟩
  cases visible.findKey key with
  | none => exact fun store _ => tolerates _ _ rfl
  | some existing =>
      by_cases agrees : request.matches existing = true
      · simp only [agrees, if_true]
        exact fun store moved => ⟨rfl, Reaches.nothing
          (Rely.Stable.mono (fun _ facts => facts.1) (known.after moved))⟩
      · simp only [agrees]
        exact fun store _ => tolerates _ _ rfl

theorem guarantees_spawnTask (silent : quiet) (tolerates : Tolerates raises)
    (identTaken : ∀ constraint tx, ¬Tx.Unused tx → raises (.uniqueViolation constraint) tx)
    (taskName : Option String) (params options : Option Json)
    (settled : Settled space quiet ledger tx) :
    Guarantees space quiet (spawnTask space taskName params options)
      (Spawned space quiet ledger (validateSubmission space taskName params options))
      raises tx := by
  have draw : ∀ {ledger : Ledger} {tx : Tx}, Stably space quiet (Settled space quiet ledger) tx →
      Guarantees space quiet uuidv7 (fun name => Stably space quiet
        (Settled space quiet (ledger.draw name))) raises tx := fun settled =>
    guarantees_uuidv7 settled fun name _ known => known.draw name
  apply Program.Ensures.bind
  refine Program.Ensures.mono ?_ (fun _ _ raised => raised) (draw (Stably.of_quiet silent settled))
  intro taskId afterTask settledTask
  apply Program.Ensures.bind
  refine Program.Ensures.mono ?_ (fun _ _ raised => raised) (draw settledTask)
  intro runId afterRun settledRun
  apply Program.Ensures.bind
  have read : Guarantees space quiet currentTime (fun reading => Stably space quiet
      (Settled space quiet (((ledger.draw taskId).draw runId).observe reading))) raises afterRun :=
    guarantees_currentTime settledRun fun reading _ known => known.observe reading
  refine Program.Ensures.mono ?_ (fun _ _ raised => raised) read
  intro nowAt afterClock settledClock
  apply Program.Ensures.bind
  refine Program.Ensures.mono ?_ (fun _ _ raised => raised)
    (guarantees_ofExcept settledClock fun error now failed _ =>
      tolerates error now (plain_validateSubmission _ _ _ error failed))
  rintro request afterCheck ⟨isRequest, settledCheck⟩
  let middle := ((ledger.draw taskId).draw runId).observe nowAt
  have extended : ledger.Extends [] middle :=
    ((ledger.extends_draw taskId).trans ((ledger.draw taskId).extends_draw runId)).trans
      (((ledger.draw taskId).draw runId).extends_observe nowAt)
  have isDrawn : taskId ∈ middle.drawn ∧ runId ∈ middle.drawn := by
    simp [middle, Ledger.observe, Ledger.draw]
  have unnamed : middle.drawn.Nodup → taskId ∉ middle.events.flatMap Event.names ∧
      runId ∉ middle.events.flatMap Event.names := fun distinct =>
    ⟨ledger.draw_unnamed (List.nodup_append.mp distinct).1,
      (ledger.draw taskId).draw_unnamed distinct⟩
  have checked : (request.taskRow taskId runId nowAt).check space = .ok () :=
    (validateSubmission_ok isRequest).check taskId runId nowAt
  apply Program.Ensures.bind
  refine Program.Ensures.mono ?_ (fun _ _ raised => raised)
    (guarantees_insertTask silent settledCheck checked ?_)
  swap
  · intro now known taken
    refine identTaken _ now fun unused => ?_
    have absent : now.queue.findTask taskId = none :=
      known.findTask_unused unused isDrawn.1 (unnamed (known.drawn ▸ unused.1)).1
    rw [show (request.taskRow taskId runId nowAt).id = taskId from rfl, absent] at taken
    cases taken
  rintro answer afterInsert (⟨isTrue, submitting⟩ | ⟨isFalse, hasKey, settledNow⟩)
  · subst isTrue
    have stamped : ∀ reading ∈ (Event.submitted (request.taskRow taskId runId nowAt)
        (RunRow.fresh runId taskId 1 .pending nowAt)).stamps, reading ∈ middle.readings := by
      intro reading member
      rw [List.mem_singleton.mp member]
      exact List.mem_append_right _ List.mem_cons_self
    have named : (middle.events.flatMap Event.names ++
        (Event.submitted (request.taskRow taskId runId nowAt)
          (RunRow.fresh runId taskId 1 .pending nowAt)).names).Sublist middle.drawn := by
      change (ledger.events.flatMap Event.names ++ [taskId, runId]).Sublist
        ((ledger.drawn ++ [taskId]) ++ [runId])
      rw [List.append_assoc]
      exact ledger.named.append (List.Sublist.refl _)
    simp only [if_true]
    apply Program.Ensures.bind
    refine Program.Ensures.mono ?_ (fun _ _ raised => raised)
      (guarantees_insertFirstRun silent submitting rfl (request.valid taskId runId nowAt checked)
        rfl rfl stamped named ?_)
    · intro _ last settledLast store moved
      refine ⟨request, isRequest, Or.inl ⟨rfl, runId, nowAt, Reaches.prepend extended ?_⟩⟩
      exact ⟨_, middle.extends_cause _ stamped named,
        (Stably.of_quiet silent settledLast).after moved⟩
    · intro taken
      refine identTaken _ afterInsert fun unused => ?_
      have absent : (Tx.queue afterInsert).findRun runId = none := by
        have fresh := (unnamed (submitting.consistent.drawn ▸ unused.1)).2
        refine submitting.consistent.findRun_unused unused isDrawn.2 fresh ?_
        intro task isTask run inRows
        rw [isTask, submitting.rows] at inRows
        cases inRows
      rw [show (RunRow.fresh runId taskId 1 .pending nowAt).id = runId from rfl, absent] at taken
      cases taken
  · subst isFalse
    simp only [Bool.false_eq_true, if_false]
    cases isKey : request.idempotencyKey with
    | none =>
        rw [show (request.taskRow taskId runId nowAt).idempotencyKey = none from isKey] at hasKey
        cases hasKey
    | some key =>
        refine Program.Ensures.mono ?_ (fun _ _ raised => raised)
          (guarantees_compareExisting tolerates request key (Stably.of_quiet silent settledNow))
        rintro result later ⟨old, reached⟩
        exact ⟨request, isRequest, Or.inr ⟨old, reached.prepend extended⟩⟩

theorem guarantees_getTaskResult (task : Uuid)
    (settled : Stably space quiet (Settled space quiet ledger) tx) :
    Guarantees space quiet (getTaskResult task)
      (fun _ tx => Reaches space quiet ledger [] tx) raises tx := by
  apply Program.Ensures.bind
  refine Program.Ensures.mono ?_ (fun _ _ raised => raised)
    (guarantees_snapshot (fun _ => True) settled fun _ _ => trivial)
  rintro visible afterRead ⟨-, known⟩ store moved
  exact Reaches.nothing (Rely.Stable.mono (fun _ facts => facts.1) (known.after moved))

end Steda
