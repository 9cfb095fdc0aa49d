import Mathlib.Data.List.Pairwise
import Steda.Laws.Finality
import Steda.Serial

/-!
# Idempotent submission

A task keeps the request it was submitted with, whatever happens to it.  A
later submission under its idempotency key is compared with that request: it
returns the task when both requests have the same canonical form and raises
`ST004` otherwise.  When the task is gone its key is free again.
-/

namespace Steda

open Postgres Transaction Relational

variable {space : Char → Bool}

/-! ## Requests -/

/-- The arguments of a `spawn_task` call. -/
structure SpawnRequest where
  taskName : Option String
  params : Option Json
  options : Option Json

namespace SpawnRequest

/-- The call that submits the request. -/
def operation (request : SpawnRequest) : Operation :=
  .spawnTask request.taskName request.params request.options

/-- An option of the request. -/
def option (request : SpawnRequest) (key : String) : Option Json :=
  (request.options.getD Json.emptyObject).field? key

/-- The request is accepted under an idempotency key. -/
def AcceptedUnder (space : Char → Bool) (key : String) (request : SpawnRequest) : Prop :=
  request.option "idempotencyKey" = some (.string key) ∧
    ∃ submission, validateSubmission space request.taskName request.params request.options =
      .ok submission

/-- Parameters, with NULL read as JSON null. -/
def canonicalParams (request : SpawnRequest) : Json := request.params.getD .null

/-- Headers, with null and the empty object read as absent. -/
def canonicalHeaders (request : SpawnRequest) : Option Json :=
  match request.option "headers" with
  | none | some .null | some (.object []) => none
  | some headers => some headers

/-- The attempt budget, five unless given. -/
def canonicalMaxAttempts (request : SpawnRequest) : Json :=
  (request.option "maxAttempts").getD (.number (.ofInt 5))

/-- The retry strategy, the default one unless given. -/
def canonicalRetryStrategy (request : SpawnRequest) : Json :=
  (request.option "retryStrategy").getD defaultRetryStrategy

/-- The cancellation policy, with null read as absent. -/
def canonicalCancellation (request : SpawnRequest) : Option Json :=
  match request.option "cancellation" with
  | none | some .null => none
  | some policy => some policy

/-- The canonical forms of two requests are equal JSON. -/
structure Same (first second : SpawnRequest) : Prop where
  taskName : first.taskName = second.taskName
  params : first.canonicalParams.eqv second.canonicalParams = true
  headers : Json.eqvNullable first.canonicalHeaders second.canonicalHeaders = true
  maxAttempts : first.canonicalMaxAttempts.eqv second.canonicalMaxAttempts = true
  retryStrategy : first.canonicalRetryStrategy.eqv second.canonicalRetryStrategy = true
  cancellation :
    Json.eqvNullable first.canonicalCancellation second.canonicalCancellation = true

end SpawnRequest

/-! ## Normalization is canonical -/

section Normalization

variable {request first second : SpawnRequest}

theorem SpawnRequest.canonicalHeaders_of_normalize {headers : Option Json}
    (accepted : normalizeHeaders (request.options.getD Json.emptyObject) = .ok headers) :
    headers = request.canonicalHeaders := by
  unfold normalizeHeaders at accepted
  unfold canonicalHeaders option
  split at accepted
  · next field =>
      rw [field]
      exact (Except.ok.inj accepted).symm
  · next field =>
      rw [field]
      exact (Except.ok.inj accepted).symm
  · next field =>
      rw [field]
      exact (Except.ok.inj accepted).symm
  · next fields notEmpty field =>
      rw [field, ← Except.ok.inj accepted]
      cases fields with
      | nil => exact absurd rfl notEmpty
      | cons _ _ => rfl
  · cases accepted

theorem SpawnRequest.canonicalCancellation_of_validate {cancellation : Option Json}
    (accepted : validateCancellationPolicy (request.option "cancellation") = .ok cancellation) :
    cancellation = request.canonicalCancellation := by
  unfold canonicalCancellation
  rcases validateCancellationPolicy_ok accepted with
    ⟨isNone, absent | isNull⟩ | ⟨policy, isSome, given, isObject, _⟩
  · rw [isNone, absent]
  · rw [isNone, isNull]
  · rw [isSome, given]
    cases policy <;> first | rfl | cases isObject

/-- An accepted attempt budget is a number with the value of the normalized
one. -/
theorem SpawnRequest.canonicalMaxAttempts_of_normalize {maxAttempts : Nat}
    (accepted : normalizeMaxAttempts (request.options.getD Json.emptyObject) = .ok maxAttempts) :
    ∃ number : Numeric, request.canonicalMaxAttempts = .number number ∧
      number.value = maxAttempts := by
  have positive := normalizeMaxAttempts_pos accepted
  unfold normalizeMaxAttempts at accepted
  unfold canonicalMaxAttempts option
  split at accepted
  · next field =>
      rw [field]
      have isDefault : maxAttempts = defaultMaxAttempts := (Except.ok.inj accepted).symm
      rw [isDefault]
      exact ⟨_, rfl, by simp [Numeric.value, Numeric.ofInt, defaultMaxAttempts]⟩
  · next value field =>
      rw [field]
      split at accepted
      · cases accepted
      · next bounds =>
          simp only [not_or, Bool.not_eq_true, Bool.not_eq_false'] at bounds
          have isBudget : value.trunc.toNat = maxAttempts := Except.ok.inj accepted
          refine ⟨value, rfl, ?_⟩
          have truncated : value.trunc = (maxAttempts : Int) := by omega
          rw [Numeric.value_of_isWhole bounds.1, truncated]
          exact Int.cast_natCast _
  · cases accepted

/-- The comparison of a submission with a stored request decides whether the
canonical forms of the requests are equal. -/
theorem SpawnRequest.matches_iff {stored other : Submission} {task : TaskRow}
    (acceptedFirst : validateSubmission space first.taskName first.params first.options =
      .ok stored)
    (acceptedSecond : validateSubmission space second.taskName second.params second.options =
      .ok other)
    (kept : task.submission = stored) : other.matches task = true ↔ first.Same second := by
  have isFirst := validateSubmission_ok acceptedFirst
  have isSecond := validateSubmission_ok acceptedSecond
  obtain ⟨budget, isBudget, budgetValue⟩ :=
    first.canonicalMaxAttempts_of_normalize isFirst.maxAttempts
  obtain ⟨otherBudget, isOtherBudget, otherValue⟩ :=
    second.canonicalMaxAttempts_of_normalize isSecond.maxAttempts
  have budgets : stored.maxAttempts = other.maxAttempts ↔
      first.canonicalMaxAttempts.eqv second.canonicalMaxAttempts = true := by
    rw [isBudget, isOtherBudget]
    simp only [Json.eqv, Numeric.eqv_iff, budgetValue, otherValue]
    exact Nat.cast_inj.symm
  have names : stored.name = other.name ↔ first.taskName = second.taskName := by
    rw [isFirst.name, isSecond.name, Option.some_inj]
  have columns : other.matches task = (stored.name == other.name &&
      stored.params.eqv other.params && Json.eqvNullable stored.headers other.headers &&
      stored.retryStrategy.eqv other.retryStrategy && stored.maxAttempts == other.maxAttempts &&
      Json.eqvNullable stored.cancellation other.cancellation) := by
    rw [← kept]
    rfl
  rw [columns]
  simp only [Bool.and_eq_true, beq_iff_eq, names, budgets]
  rw [isFirst.params, isSecond.params, isFirst.retryStrategy, isSecond.retryStrategy,
    first.canonicalHeaders_of_normalize isFirst.headers,
    second.canonicalHeaders_of_normalize isSecond.headers,
    first.canonicalCancellation_of_validate isFirst.cancellation,
    second.canonicalCancellation_of_validate isSecond.cancellation]
  constructor
  · rintro ⟨⟨⟨⟨⟨name, params⟩, headers⟩, strategy⟩, budget⟩, cancellation⟩
    exact ⟨name, params, headers, budget, strategy, cancellation⟩
  · rintro ⟨name, params, headers, budget, strategy, cancellation⟩
    exact ⟨⟨⟨⟨⟨name, params⟩, headers⟩, strategy⟩, budget⟩, cancellation⟩

end Normalization

/-! ## Holders of a key -/

/-- A key has at most one holder. -/
theorem Queue.Keyed.holder_unique {queue : Queue} (keyed : queue.Keyed) {first second : TaskRow}
    (isFirst : first ∈ queue.tasks) (isSecond : second ∈ queue.tasks) {key : String}
    (holds : first.idempotencyKey = some key) (alsoHolds : second.idempotencyKey = some key) :
    first = second := by
  by_contra different
  have apart : queue.tasks.Pairwise fun row other =>
      row.idempotencyKey = some key → other.idempotencyKey ≠ some key :=
    (List.pairwise_filterMap.mp keyed.keys).imp fun distinct isHeld isOther =>
      distinct key isHeld key isOther rfl
  have symmetric : Std.Symm fun row other : TaskRow =>
      row.idempotencyKey = some key → other.idempotencyKey ≠ some key :=
    ⟨fun _ _ distinct isHeld isOther => distinct isOther isHeld⟩
  exact apart.forall isFirst isSecond different holds alsoHolds

theorem Queue.Keyed.findKey_of_mem {queue : Queue} (keyed : queue.Keyed) {task : TaskRow}
    (member : task ∈ queue.tasks) {key : String} (holds : task.idempotencyKey = some key) :
    queue.findKey key = some task := by
  have isHeld : (queue.findKey key).isSome := by
    unfold Queue.findKey
    rw [List.find?_isSome]
    exact ⟨task, member, by rw [holds, beq_self_eq_true]⟩
  obtain ⟨found, isFound⟩ := Option.isSome_iff_exists.mp isHeld
  have foundHolds : found.idempotencyKey = some key := by
    simpa using List.find?_some isFound
  rw [isFound, keyed.holder_unique (List.mem_of_find?_eq_some isFound) member foundHolds holds]

/-! ## Running a submission -/

section Running

variable {taskName : Option String} {params options : Option Json} {request : Submission}

/-- A submission whose key is held reads the holder and changes nothing. -/
theorem alone_spawnTask_of_held {world : World} {key : String} {existing : TaskRow}
    (accepted : validateSubmission space taskName params options = .ok request)
    (isKey : request.idempotencyKey = some key)
    (held : world.store.findKey key = some existing) :
    alone space (spawnTask space taskName params options) world =
      (if request.matches existing = true then .ok { taskId := existing.id, created := false }
        else .error (.idempotencyConflict key), world.draw.draw.tick) := by
  let task := request.taskRow (world.idents 0) (world.idents 1) (world.clock 0)
  have dropped : Queue.attempt space (.insertTask task) world.store = .ok false := by
    rw [attempt_insertTask_of_check ((validateSubmission_ok accepted).check _ _ _), if_pos]
    rw [show task.idempotencyKey = some key from isKey, Option.bind_some, held]
    rfl
  simp only [spawnTask, alone_bind, alone_uuidv7, alone_currentTime, Session.draw_idents,
    Session.draw_clock, alone_ofExcept, accepted, alone_change, Session.tick_store,
    Session.draw_store, Nat.zero_add]
  rw [show Queue.attempt space (.insertTask (request.taskRow (world.idents 0) (world.idents 1)
    (world.clock 0))) world.store = .ok false from dropped]
  simp only [Bool.false_eq_true, if_false, isKey, compareExisting, alone_bind, alone_snapshot,
    Session.tick_store, Session.draw_store, held]
  split <;> rfl

/-- A submission whose key is free inserts its task with one pending run. -/
theorem alone_spawnTask_of_free {world : World}
    (accepted : validateSubmission space taskName params options = .ok request)
    (free : ∀ key ∈ request.idempotencyKey, ∀ row ∈ world.store.tasks,
      row.idempotencyKey ≠ some key)
    (freshTask : world.store.findTask (world.idents 0) = none)
    (freshRun : world.store.findRun (world.idents 1) = none)
    (noRuns : world.store.runsOf (world.idents 0) = []) :
    alone space (spawnTask space taskName params options) world =
      (.ok { taskId := world.idents 0, created := true },
        world.draw.draw.tick.withStore
          ((world.store.insertTask
            (request.taskRow (world.idents 0) (world.idents 1) (world.clock 0))).insertRun
            (RunRow.fresh (world.idents 1) (world.idents 0) 1 .pending (world.clock 0)))) := by
  let task := request.taskRow (world.idents 0) (world.idents 1) (world.clock 0)
  let run := RunRow.fresh (world.idents 1) (world.idents 0) 1 .pending (world.clock 0)
  have checked : task.check space = .ok () := (validateSubmission_ok accepted).check _ _ _
  have inserted : Queue.attempt space (.insertTask task) world.store = .ok true := by
    rw [attempt_insertTask_of_check checked, if_neg, if_neg]
    · rw [show world.store.findTask task.id = none from freshTask]
      simp
    · intro held
      obtain ⟨row, found⟩ := Option.isSome_iff_exists.mp held
      obtain ⟨key, isKey, isHolder⟩ := Option.bind_eq_some_iff.mp found
      exact free key isKey row (List.mem_of_find?_eq_some isHolder)
        (by simpa using List.find?_some isHolder)
  have runInserted : Queue.attempt space (.insertRun run) (world.store.insertTask task) =
      .ok true := by
    rw [attempt_insertRun]
    · rw [show (world.store.insertTask task).findRun run.id = none from freshRun]
      rfl
    · have own : task.id = run.taskId := rfl
      rw [Queue.findTask_insertTask, if_pos own]
      simp
    · exact RunRow.check_fresh _ _ 0 rfl _
    · rw [show (world.store.insertTask task).runsOf run.taskId = [] from noRuns]
      simp
    · rw [show (world.store.insertTask task).runsOf run.taskId = [] from noRuns]
      simp
  simp only [spawnTask, alone_bind, alone_uuidv7, alone_currentTime, Session.draw_idents,
    Session.draw_clock, alone_ofExcept, accepted, alone_change, Session.tick_store,
    Session.draw_store, Nat.zero_add]
  rw [show Queue.attempt space (.insertTask (request.taskRow (world.idents 0) (world.idents 1)
    (world.clock 0))) world.store = .ok true from inserted]
  simp only [if_true, alone_bind, alone_change, Session.withStore_store]
  rw [show Queue.attempt space (.insertRun (RunRow.fresh (world.idents 1) (world.idents 0) 1
    .pending (world.clock 0))) (Queue.apply (.insertTask (request.taskRow (world.idents 0)
    (world.idents 1) (world.clock 0))) world.store) = .ok true from runInserted]
  rfl

end Running

/-! ## Submissions of a history -/

/-- The queue after a submission satisfies its deferred references. -/
theorem Queue.deferred_submitted {queue : Queue} {task : TaskRow} {run : RunRow}
    (before : queue.deferred = .ok ()) (owner : run.taskId = task.id)
    (pointed : run.id = task.lastAttemptRun) :
    ((queue.insertTask task).insertRun run).deferred = .ok () := by
  have references : (queue.tasks.all fun task =>
      queue.runs.any fun run => run.taskId == task.id && run.id == task.lastAttemptRun) = true := by
    by_contra dangling
    unfold deferred at before
    rw [if_neg dangling] at before
    cases before
  refine if_pos (List.all_eq_true.mpr fun row member => ?_)
  change ((queue.runs ++ [run]).any _) = true
  rw [List.any_append, Bool.or_eq_true]
  rcases List.mem_append.mp member with isOld | isNew
  · exact Or.inl (List.all_eq_true.mp references row isOld)
  · rw [List.mem_singleton.mp isNew]
    exact Or.inr (by simp [owner, pointed])

/-! ## The law -/

/-- The call created a task under an idempotency key. -/
def Call.Creates (key : String) (call : Call) : Prop :=
  ∃ (request : SpawnRequest) (task : Uuid),
    call = ⟨request.operation, .ok { taskId := task, created := true }⟩ ∧
      request.option "idempotencyKey" = some (.string key)

/-- Submissions under one idempotency key are idempotent from a state on. -/
structure SubmissionsIdempotent (space : Char → Bool) (reached : World) : Prop where
  /-- A key has at most one holder. -/
  unique : ∀ first ∈ reached.store.tasks, ∀ second ∈ reached.store.tasks, ∀ key,
    first.idempotencyKey = some key → second.idempotencyKey = some key → first = second
  /-- While a created task exists, its key answers with it exactly for the
  requests with the same canonical form, and no submission changes a row. -/
  replayed : ∀ (first : SpawnRequest) key task created,
    first.option "idempotencyKey" = some (.string key) →
    Served space reached ⟨first.operation, .ok { taskId := task, created := true }⟩ created →
    ∀ later middle, Trace (Served space) created later middle →
      (middle.store.findTask task).isSome →
      ∀ second : SpawnRequest, second.AcceptedUnder space key →
        ∀ outcome after, Served space middle ⟨second.operation, outcome⟩ after →
          after.store = middle.store ∧
          (outcome = .ok { taskId := task, created := false } ↔ first.Same second) ∧
          (¬first.Same second → ∃ error, outcome = .error error ∧ error.sqlstate = "ST004")
  /-- Once the task is gone, the next submission under its key creates another
  one. -/
  renewed : ∀ (first : SpawnRequest) key task created,
    first.option "idempotencyKey" = some (.string key) →
    Served space reached ⟨first.operation, .ok { taskId := task, created := true }⟩ created →
    ∀ later middle, Trace (Served space) created later middle →
      middle.store.findTask task = none → (∀ call ∈ later, ¬call.Creates key) →
      ∀ second : SpawnRequest, second.AcceptedUnder space key →
        ∀ outcome after, Served space middle ⟨second.operation, outcome⟩ after →
          ∃ other, outcome = .ok { taskId := other, created := true } ∧ other ≠ task ∧
            after.store.findTask task = none ∧ (after.store.findTask other).isSome

/-- The idempotency key of an accepted request. -/
theorem SpawnRequest.idempotencyKey_of_validate {request : SpawnRequest} {submission : Submission}
    (accepted : validateSubmission space request.taskName request.params request.options =
      .ok submission) (key : String) :
    submission.idempotencyKey = some key ↔ request.option "idempotencyKey" = some (.string key) := by
  have normalized := (validateSubmission_ok accepted).idempotencyKey
  unfold idempotencyKeyOption at normalized
  unfold option
  split at normalized
  · next field =>
      rw [field, ← Except.ok.inj normalized]
      simp
  · next given field =>
      rw [field, ← Except.ok.inj normalized]
      simp
  · cases normalized

/-- A task submitted under a key was created under it. -/
theorem Call.Caused.creates {call : Call} {events : List Event} {row : TaskRow} {run : RunRow}
    {key : String} (caused : call.Caused space events) (member : Event.submitted row run ∈ events)
    (holds : row.idempotencyKey = some key) : call.Creates key := by
  obtain ⟨taskName, params, options, task, accepted, isCall⟩ := caused.submits member
  exact ⟨⟨taskName, params, options⟩, task, isCall,
    (SpawnRequest.idempotencyKey_of_validate
      (show validateSubmission space (SpawnRequest.mk taskName params options).taskName _ _ =
        .ok row.submission from accepted) key).mp holds⟩

/-- The life of a task right after its submission. -/
theorem Served.submits {before after : World} {request : SpawnRequest} {task : Uuid}
    (served : Served space before
      ⟨request.operation, .ok { taskId := task, created := true }⟩ after)
    (sound : before.store.Sound space) :
    ∃ (submission : Submission) (life : Life),
      validateSubmission space request.taskName request.params request.options = .ok submission ∧
        after.store.rowsOf task = Life.rows (some life) ∧ life.task.submission = submission ∧
        life.task.id = task := by
  obtain ⟨_, _, events, caused, advances⟩ := served.advances sound
  obtain ⟨submission, accepted, ⟨_, runId, nowAt, isEvents⟩ | ⟨impossible, _⟩⟩ := caused
  · subst isEvents
    obtain ⟨first, last, _, lastRows, evolves⟩ := advances.evolves task
    obtain ⟨_, isLast, _⟩ := (evolves_singleton rfl).mp evolves
    subst isLast
    exact ⟨submission, _, accepted, lastRows, rfl, rfl⟩
  · cases impossible

/-- A submission under a held key answers by comparing the requests. -/
theorem Queue.Sound.replays {world after : World} (sound : world.store.Sound space) {key : String}
    {first second : SpawnRequest} {stored : Submission} {task : TaskRow}
    (acceptedFirst : validateSubmission space first.taskName first.params first.options =
      .ok stored)
    (member : task ∈ world.store.tasks) (kept : task.submission = stored)
    (holds : task.idempotencyKey = some key) (acceptedSecond : second.AcceptedUnder space key)
    {outcome : Except SqlError SpawnResult}
    (served : Served space world ⟨second.operation, outcome⟩ after) :
    after.store = world.store ∧
      (outcome = .ok { taskId := task.id, created := false } ↔ first.Same second) ∧
      (¬first.Same second → outcome = .error (.idempotencyConflict key)) := by
  obtain ⟨isKey, submission, accepted⟩ := acceptedSecond
  have ran : (second.operation.program space).run (storage space).handle world = _ :=
    alone_spawnTask_of_held accepted
      ((SpawnRequest.idempotencyKey_of_validate accepted key).mpr isKey)
      (sound.keyed.findKey_of_mem member holds)
  have compared := SpawnRequest.matches_iff acceptedFirst accepted kept
  unfold Served Operation.perform Storage.atomically at served
  by_cases agrees : submission.matches task = true
  · rw [ran, if_pos agrees] at served
    simp only at served
    rw [show (storage space).deferred (Session.tick (Session.draw (Session.draw world))).store =
      .ok () from sound.deferred] at served
    obtain ⟨rfl, rfl⟩ := Prod.mk.inj served
    exact ⟨rfl, iff_of_true rfl (compared.mp agrees), fun different =>
      absurd (compared.mp agrees) different⟩
  · rw [ran, if_neg agrees] at served
    obtain ⟨isOutcome, isAfter⟩ := Prod.mk.inj served
    change Except.error _ = outcome at isOutcome
    rw [← isOutcome, ← isAfter]
    exact ⟨rfl, iff_of_false (by simp) (mt compared.mpr agrees), fun _ => rfl⟩

/-- A submission under a free key creates a task. -/
theorem History.renews {initial middle after : World} {calls : List Call}
    (history : History space initial calls middle) {key : String} {request : SpawnRequest}
    (free : ∀ row ∈ middle.store.tasks, row.idempotencyKey ≠ some key)
    (acceptedUnder : request.AcceptedUnder space key) {outcome : Except SqlError SpawnResult}
    (served : Served space middle ⟨request.operation, outcome⟩ after) :
    outcome = .ok { taskId := middle.idents 0, created := true } ∧
      ∃ row run, row.id = middle.idents 0 ∧
        after.store = (middle.store.insertTask row).insertRun run := by
  obtain ⟨isKey, submission, accepted⟩ := acceptedUnder
  obtain ⟨freshTask, noRuns, _⟩ := history.unused 0
  have free : ∀ other ∈ submission.idempotencyKey, ∀ row ∈ middle.store.tasks,
      row.idempotencyKey ≠ some other := by
    intro other isOther row member
    have same := (SpawnRequest.idempotencyKey_of_validate accepted other).mp isOther
    rw [isKey] at same
    cases same
    exact free row member
  have ran : (request.operation.program space).run (storage space).handle middle = _ :=
    alone_spawnTask_of_free accepted free freshTask (history.unused 1).2.2 noRuns
  unfold Served Operation.perform Storage.atomically at served
  rw [ran] at served
  simp only [Session.withStore_store] at served
  rw [show (storage space).deferred _ = .ok () from
    Queue.deferred_submitted history.sound.deferred rfl rfl] at served
  obtain ⟨isOutcome, isAfter⟩ := Prod.mk.inj served
  change Except.ok _ = outcome at isOutcome
  rw [← isOutcome, ← isAfter]
  exact ⟨rfl, _, _, rfl, rfl⟩

/-- Every holder of a key after a submission was there before or was created by
a later call. -/
theorem History.holder_of_trace {initial created middle : World} {past later : List Call}
    (history : History space initial past created)
    (trace : Trace (Served space) created later middle) {row : TaskRow} {key : String}
    (member : row ∈ middle.store.tasks) (holds : row.idempotencyKey = some key) :
    (∃ life : Life, created.store.rowsOf row.id = Life.rows (some life) ∧
      life.task.idempotencyKey = some key) ∨ ∃ call ∈ later, call.Creates key := by
  obtain ⟨life, isRow, valid, rows⟩ := (history.append trace).sound.life member
  subst isRow
  obtain ⟨_, _, chunks, caused, advances⟩ := Trace.advances trace history.sound
  obtain ⟨first, last, firstRows, lastRows, evolves⟩ := advances.evolves life.task.id
  have isLast : last = some life := Life.rows_injective (lastRows.symm.trans rows)
  subst isLast
  cases first with
  | some earlier =>
      have kept := (history.precedes trace firstRows rows).submission
      refine Or.inl ⟨earlier, firstRows, ?_⟩
      rw [← holds]
      exact (congrArg Submission.idempotencyKey kept).symm
  | none =>
      right
      obtain ⟨submitted, run, inEvents, kept⟩ := evolves.submitted
      obtain ⟨call, inCalls, chunk, causedChunk, inChunk⟩ := call_of_event caused inEvents
      refine ⟨call, inCalls, causedChunk.creates inChunk ?_⟩
      rw [← holds]
      exact congrArg Submission.idempotencyKey kept

/-- In every state a history reaches, submissions are idempotent. -/
theorem History.submissionsIdempotent {initial middle : World} {past : List Call}
    (history : History space initial past middle) : SubmissionsIdempotent space middle := by
  refine ⟨?_, ?_, ?_⟩
  · intro first isFirst second isSecond key holds alsoHolds
    exact history.sound.keyed.holder_unique isFirst isSecond holds alsoHolds
  · intro first key task created isKey creates later reached trace exists_ second accepted outcome
      after served
    obtain ⟨submission, firstLife, acceptedFirst, firstRows, kept, owner⟩ :=
      creates.submits history.sound
    have next := history.append (.cons creates (.nil created))
    have sound := (next.append trace).sound
    obtain ⟨row, found⟩ := Option.isSome_iff_exists.mp exists_
    obtain ⟨last, isRow, _, lastRows⟩ := sound.life_of_findTask found
    subst isRow
    have stored : last.task.submission = submission :=
      (next.precedes trace firstRows lastRows).submission.trans kept
    have holds : last.task.idempotencyKey = some key :=
      (congrArg Submission.idempotencyKey stored).trans
        ((SpawnRequest.idempotencyKey_of_validate acceptedFirst key).mpr isKey)
    obtain ⟨unchanged, replayed, refused⟩ :=
      sound.replays acceptedFirst (mem_of_find found) stored holds accepted served
    rw [Queue.findTask_id found] at replayed
    exact ⟨unchanged, replayed, fun different => ⟨_, refused different, rfl⟩⟩
  · intro first key task created isKey creates later reached trace gone others second accepted
      outcome after served
    obtain ⟨submission, firstLife, acceptedFirst, firstRows, kept, owner⟩ :=
      creates.submits history.sound
    have next := history.append (.cons creates (.nil created))
    have firstHolds : firstLife.task.idempotencyKey = some key :=
      (congrArg Submission.idempotencyKey kept).trans
        ((SpawnRequest.idempotencyKey_of_validate acceptedFirst key).mpr isKey)
    have isHolder : firstLife.task ∈ created.store.tasks :=
      mem_of_find (congrArg Rows.task firstRows : created.store.findTask task = _)
    have free : ∀ row ∈ reached.store.tasks, row.idempotencyKey ≠ some key := by
      intro row member holds
      rcases next.holder_of_trace trace member holds with
        ⟨life, lifeRows, lifeHolds⟩ | ⟨call, inLater, creates⟩
      · have alsoHolder : life.task ∈ created.store.tasks :=
          mem_of_find (congrArg Rows.task lifeRows : created.store.findTask row.id = _)
        have same := next.sound.keyed.holder_unique alsoHolder isHolder lifeHolds firstHolds
        have isTask : row.id = task := by
          rw [← owner, ← same]
          exact (Queue.findTask_id (congrArg Rows.task lifeRows)).symm
        exact find_eq_none.mp gone row member isTask
      · exact others call inLater creates
    obtain ⟨isOutcome, other, run, isOther, isAfter⟩ :=
      (next.append trace).renews free accepted served
    subst isOutcome
    have different : other.id ≠ task := by
      intro same
      obtain ⟨_, _, chunks, _, early⟩ := Trace.advances trace next.sound
      obtain ⟨_, _, events, caused, late⟩ := served.advances (next.append trace).sound
      have fresh := next.not_named_again (early.trans late) firstRows
      obtain ⟨request, _, ⟨_, runId, nowAt, isEvents⟩ | ⟨impossible, _⟩⟩ := caused
      · refine fresh ?_
        rw [isEvents, List.flatMap_append, ← same, isOther]
        exact List.mem_append_right _ List.mem_cons_self
      · cases impossible
    have found : ∀ id, after.store.findTask id =
        (reached.store.findTask id).or (if other.id = id then some other else none) := by
      intro id
      rw [isAfter]
      exact Queue.findTask_insertTask reached.store other id
    refine ⟨reached.idents 0, rfl, isOther ▸ different, ?_, ?_⟩
    · rw [found, gone, if_neg different]
      rfl
    · rw [found, isOther, if_pos rfl]
      simp

/-- A submission with an attempt budget under a key. -/
def keyedSubmission (budget : Int) : SpawnRequest where
  taskName := some "report"
  params := none
  options := some (.object [("retryStrategy", .object [("kind", .string "none")]),
    ("maxAttempts", .number (.ofInt budget)), ("idempotencyKey", .string "monthly")])

/-- A request that is submitted twice and then with another budget. -/
theorem History.submissionsIdempotent_resubmitted :
    let served := World.serve asciiSpace [(keyedSubmission 2).operation,
      (keyedSubmission 2).operation, (keyedSubmission 3).operation] (.blank second)
    served.1 = [
      ⟨(keyedSubmission 2).operation, .ok { taskId := 0, created := true }⟩,
      ⟨(keyedSubmission 2).operation, .ok { taskId := 0, created := false }⟩,
      ⟨(keyedSubmission 3).operation, .error (.idempotencyConflict "monthly")⟩] ∧
    SubmissionsIdempotent asciiSpace served.2 :=
  ⟨rfl, History.submissionsIdempotent (World.history_serve _ second)⟩

end Steda
