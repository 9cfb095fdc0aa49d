import Steda.Laws.SpawnOptions

/-!
# Normalized submissions

What the client sends for accepted options passes the validation of
`steda.spawn_task`, and the row it stores means what the caller asked for.
-/

namespace Steda

open Postgres Transaction

variable {space : Char → Bool} {print : Double → Numeric}

/-! ## The fields of a payload -/

namespace SpawnConfig

variable (config : SpawnConfig) (retryStrategy : Option Json)

theorem field_payload (key : String) :
    (Json.object (config.payload retryStrategy)).field? key =
      if key = "headers" then config.headers.bind fun headers => nonemptyObject headers.fields
      else if key = "maxAttempts" then
        config.maxAttempts.map fun maxAttempts => jsonInteger maxAttempts.toNat
      else if key = "retryStrategy" then retryStrategy
      else if key = "cancellation" then
        config.cancellation.bind fun policy => nonemptyObject policy.fields
      else if key = "idempotencyKey" then config.idempotencyKey.map Json.string
      else none := by
  rw [Json.field?, payload, ← List.append_nil (inserted "idempotencyKey" _)]
  simp only [List.append_assoc, lookup_inserted, List.lookup_nil, Option.or_none]
  split_ifs <;> simp_all

theorem keys_payload :
    ∀ key ∈ (Json.object (config.payload retryStrategy)).keys, key ∈ spawnOptionKeys := by
  intro key member
  simp only [Json.keys, payload, List.map_append, List.mem_append, or_assoc] at member
  rcases member with member | member | member | member | member <;>
    rw [mem_keys_inserted member] <;> decide

end SpawnConfig

/-! ## The checks of `spawn_task` -/

/-- A name that is not blank for the client is not blank for the database. -/
theorem isBlank_of_trim (spaces : ∀ char, space char = true → isWhiteSpace char = true)
    {text : String} (named : trimIsEmpty text = false) : isBlank space text = false := by
  rw [Bool.eq_false_iff] at named ⊢
  intro blank
  refine named (List.all_eq_true.mpr fun char member => ?_)
  exact spaces char (List.all_eq_true.mp blank char member)

section Checks

variable {config : SpawnConfig} {retryStrategy : Option Json}

theorem normalizeHeaders_payload :
    normalizeHeaders (.object (config.payload retryStrategy)) =
      .ok (config.headers.bind fun headers => nonemptyObject headers.fields) := by
  unfold normalizeHeaders
  rw [config.field_payload, if_pos rfl]
  rcases config.headers with _ | ⟨_ | ⟨field, rest⟩, _⟩ <;> rfl

theorem normalizeMaxAttempts_payload (accepted : config.Accepted) :
    normalizeMaxAttempts (.object (config.payload retryStrategy)) =
      .ok ((config.maxAttempts.map UInt32.toNat).getD defaultMaxAttempts) := by
  unfold normalizeMaxAttempts
  rw [config.field_payload, if_neg (by decide), if_pos rfl]
  cases given : config.maxAttempts with
  | none => rfl
  | some maxAttempts =>
      obtain ⟨positive, small⟩ := accepted.budget maxAttempts given
      have inRange : ¬((!(Numeric.ofInt maxAttempts.toNat).isWhole) = true ∨
          (Numeric.ofInt maxAttempts.toNat).ltInt 1 = true ∨
          (Numeric.ofInt maxAttempts.toNat).gtInt maxInteger = true) := by
        simp only [Numeric.ofInt, Numeric.isWhole, Numeric.trunc, Numeric.ltInt, Numeric.gtInt]
        have most : maxAttempts.toNat ≤ maxInteger := small
        simp [most]
        omega
      exact (if_neg inRange).trans (by simp [Numeric.ofInt, Numeric.trunc])

theorem validateCancellationPolicy_payload (accepted : config.Accepted) :
    validateCancellationPolicy
        ((Json.object (config.payload retryStrategy)).field? "cancellation") =
      .ok (config.cancellation.bind fun policy => nonemptyObject policy.fields) := by
  rw [config.field_payload, if_neg (by decide), if_neg (by decide), if_neg (by decide), if_pos rfl]
  cases given : config.cancellation with
  | none => rfl
  | some policy => exact (accepted.policy policy given).validated

theorem idempotencyKeyOption_payload :
    idempotencyKeyOption (.object (config.payload retryStrategy)) = .ok config.idempotencyKey := by
  unfold idempotencyKeyOption
  rw [config.field_payload, if_neg (by decide), if_neg (by decide), if_neg (by decide),
    if_neg (by decide), if_pos rfl]
  cases config.idempotencyKey <;> rfl

theorem retryStrategy_payload :
    (Json.object (config.payload retryStrategy)).field? "retryStrategy" = retryStrategy := by
  rw [config.field_payload, if_neg (by decide), if_neg (by decide), if_pos rfl]

end Checks

/-- The request that accepted options stand for. -/
def SpawnConfig.request (config : SpawnConfig) (name : String) (params : Json)
    (retryStrategy : Option Json) : Submission where
  name := name
  params := params
  headers := config.headers.bind fun headers => nonemptyObject headers.fields
  retryStrategy := retryStrategy.getD defaultRetryStrategy
  maxAttempts := (config.maxAttempts.map UInt32.toNat).getD defaultMaxAttempts
  cancellation := config.cancellation.bind fun policy => nonemptyObject policy.fields
  idempotencyKey := config.idempotencyKey

/-- The payload of accepted options passes every check. -/
theorem validateSubmission_payload (spaces : ∀ char, space char = true → isWhiteSpace char = true)
    {config : SpawnConfig} (accepted : config.Accepted) {name : String}
    (named : validateTaskName name = .ok ()) {retryStrategy : Option Json}
    (delayed : ∃ delay, retryDelaySeconds (retryStrategy.getD defaultRetryStrategy) 1 = .ok delay)
    (params : Json) :
    validateSubmission space (some name) (some params)
        (some (.object (config.payload retryStrategy))) =
      .ok (config.request name params retryStrategy) := by
  obtain ⟨notBlank, short⟩ := validateTaskName_ok named
  obtain ⟨delay, isDelay⟩ := delayed
  have known := unknownKey?_eq_none.mpr (config.keys_payload retryStrategy)
  have nameBlank := isBlank_of_trim spaces notBlank
  have nameShort : ¬maxNameBytes < name.utf8ByteSize := not_lt.mpr short
  have keyed : ∀ key, config.idempotencyKey = some key →
      isBlank space key = false ∧ ¬maxNameBytes < key.utf8ByteSize := by
    intro key given
    obtain ⟨keyNotBlank, keyShort⟩ := accepted.keyed key given
    exact ⟨isBlank_of_trim spaces keyNotBlank, not_lt.mpr keyShort⟩
  simp only [validateSubmission, Option.getD_some, Json.isObject, known, nameBlank, nameShort,
    normalizeHeaders_payload, normalizeMaxAttempts_payload accepted,
    validateCancellationPolicy_payload accepted, idempotencyKeyOption_payload,
    retryStrategy_payload, isDelay, SpawnConfig.request]
  cases given : config.idempotencyKey with
  | none => rfl
  | some key =>
      obtain ⟨keyBlank, keyShort⟩ := keyed key given
      simp [bind, Except.bind, pure, Except.pure, keyBlank, keyShort]

/-! ## Storable options -/

/-- No string of the options contains U+0000. -/
def SpawnConfig.Storable (config : SpawnConfig) : Prop :=
  (∀ headers ∈ config.headers, (Json.object headers.fields).storable = true) ∧
    ∀ key ∈ config.idempotencyKey, (Json.string key).storable = true

theorem storableFields_append (first second : List (String × Json)) :
    Json.storableFields (first ++ second) =
      (Json.storableFields first && Json.storableFields second) := by
  induction first with
  | nil => rfl
  | cons field rest inductionHypothesis =>
      obtain ⟨key, value⟩ := field
      simp only [List.cons_append, Json.storableFields, inductionHypothesis, Bool.and_assoc]

theorem storableFields_inserted {key : String} {value : Option Json}
    (plain : (Json.string key).storable = true) (storable : ∀ given ∈ value, given.storable = true) :
    Json.storableFields (inserted key value) = true := by
  cases value with
  | none => rfl
  | some value =>
      have keyPlain : (key.toList.all fun char => char.toNat != 0) = true := plain
      simp [inserted, Json.storableFields, keyPlain, storable value rfl]

theorem storable_nonemptyObject {fields : List (String × Json)}
    (storable : Json.storableFields fields = true) :
    ∀ given ∈ nonemptyObject fields, given.storable = true := by
  intro given isGiven
  cases fields with
  | nil => cases isGiven
  | cons field rest =>
      cases isGiven
      exact storable

theorem retryStrategyJson_storable {strategy : RetryStrategy} {json : Json}
    (isJson : retryStrategyJson print strategy = .ok json) : json.storable = true := by
  have double : ∀ value, (jsonDouble print value).storable = true := by
    intro value
    cases value <;> rfl
  obtain ⟨_, _, returned⟩ := except_bind_ok.mp isJson
  rw [← Except.ok.inj returned]
  cases strategy with
  | none => rfl
  | fixed delay => simp [Json.storable, Json.storableFields, double]
  | exponential initialDelay factor maxDelay =>
      rw [Json.storable, storableFields_append, Bool.and_eq_true]
      refine ⟨by simp [Json.storable, Json.storableFields, double],
        storableFields_inserted (by decide) ?_⟩
      intro given isGiven
      obtain ⟨delay, _, rfl⟩ := Option.map_eq_some_iff.mp isGiven
      exact double _

/-- What the client sends for storable options can be stored. -/
theorem SpawnConfig.Storable.payload {config : SpawnConfig} (storable : config.Storable)
    {retryStrategy : Option Json}
    (isStrategy : config.retryStrategy.mapM (retryStrategyJson print) = .ok retryStrategy) :
    (Json.object (config.payload retryStrategy)).storable = true := by
  have integer : ∀ value, (jsonInteger value).storable = true := fun _ => rfl
  rw [Json.storable, SpawnConfig.payload]
  simp only [storableFields_append, Bool.and_eq_true, and_assoc]
  refine ⟨storableFields_inserted (by decide) ?_, storableFields_inserted (by decide) ?_,
    storableFields_inserted (by decide) ?_, storableFields_inserted (by decide) ?_,
    storableFields_inserted (by decide) ?_⟩
  · intro given isGiven
    obtain ⟨headers, isHeaders, isObject⟩ := Option.bind_eq_some_iff.mp isGiven
    exact storable_nonemptyObject (storable.1 headers isHeaders) given isObject
  · intro given isGiven
    obtain ⟨maxAttempts, _, rfl⟩ := Option.map_eq_some_iff.mp isGiven
    exact integer _
  · intro given isGiven
    rcases option_mapM_ok.mp isStrategy with ⟨_, isNone⟩ | ⟨strategy, json, _, isJson, isSome⟩
    · rw [isNone] at isGiven
      cases isGiven
    · rw [isSome] at isGiven
      cases isGiven
      exact retryStrategyJson_storable isJson
  · intro given isGiven
    obtain ⟨policy, _, isObject⟩ := Option.bind_eq_some_iff.mp isGiven
    refine storable_nonemptyObject ?_ given isObject
    rw [CancellationPolicy.fields, storableFields_append, Bool.and_eq_true]
    constructor <;> refine storableFields_inserted (by decide) fun value isValue => ?_
    · obtain ⟨duration, _, rfl⟩ := Option.map_eq_some_iff.mp isValue
      exact integer _
    · obtain ⟨delay, _, rfl⟩ := Option.map_eq_some_iff.mp isValue
      exact integer _
  · intro given isGiven
    obtain ⟨key, isKey, rfl⟩ := Option.map_eq_some_iff.mp isGiven
    exact storable.2 key isKey

/-! ## Every interleaving of a submission -/

/-- The errors of a submission that has passed its validation: they are about
the rows it meets. -/
def SqlError.concernsRows : SqlError → Bool
  | .insertConflictWithoutKey | .idempotencyConflict _ | .uniqueViolation _
  | .foreignKeyViolation _ => true
  | _ => false

/-- What a submission has written when it returns. -/
def Submission.Written (request : Submission) (tx : Tx) (result : SpawnResult) (after : Tx) :
    Prop :=
  (result.created = true ∧ ∃ runId nowAt, after.log = tx.log ++
    [.insertTask (request.taskRow result.taskId runId nowAt),
      .insertRun (RunRow.fresh runId result.taskId 1 .pending nowAt)]) ∨
    (result.created = false ∧ after.log = tx.log)

/-- Inserting a checked task fails only on rows that exist. -/
theorem attempt_insertTask_concernsRows {queue : Queue} {task : TaskRow} {error : SqlError}
    (checked : task.check space = .ok ())
    (refused : Queue.attempt space (.insertTask task) queue = .error error) :
    error.concernsRows = true := by
  rw [attempt_insertTask_of_check checked] at refused
  split at refused
  · cases refused
  · split at refused
    · cases refused
      rfl
    · cases refused

/-- Inserting a pending run fails only on rows that exist. -/
theorem attempt_insertRun_concernsRows {queue : Queue} {runId taskId : Uuid} {nowAt : Timestamp}
    {error : SqlError}
    (refused : Queue.attempt space (.insertRun (RunRow.fresh runId taskId 1 .pending nowAt)) queue =
      .error error) : error.concernsRows = true := by
  have checked : (RunRow.fresh runId taskId 1 .pending nowAt).check space = .ok () :=
    RunRow.check_fresh _ _ 0 rfl _
  have raised : OnlyRaises (fun error : SqlError => error.concernsRows = true)
      (Queue.attempt space (.insertRun (RunRow.fresh runId taskId 1 .pending nowAt)) queue) := by
    refine onlyRaises_bind (by rw [checked]; exact onlyRaises_ok ()) fun _ _ => ?_
    exact onlyRaises_guard rfl (onlyRaises_guard rfl (onlyRaises_guard rfl
      (onlyRaises_guard rfl (onlyRaises_ok true))))
  exact raised error refused

/-- The insertion of a run is never dropped. -/
theorem attempt_insertRun_true {queue : Queue} {run : RunRow} {answer : Bool}
    (inserted : Queue.attempt space (.insertRun run) queue = .ok answer) : answer = true := by
  obtain ⟨_, _, inserted⟩ := except_bind_ok.mp inserted
  obtain ⟨_, inserted⟩ := except_guard_ok.mp inserted
  obtain ⟨_, inserted⟩ := except_guard_ok.mp inserted
  obtain ⟨_, inserted⟩ := except_guard_ok.mp inserted
  obtain ⟨_, inserted⟩ := except_guard_ok.mp inserted
  exact (Except.ok.inj inserted).symm

/-- The lookup after a conflict writes nothing. -/
theorem compareExisting_ensures (rely : Rely RowKey Queue) (request : Submission) (key : String)
    {tx now : Tx} (same : now.log = tx.log) :
    (compareExisting request key).Ensures (storage space) rely
      (request.Written tx) (fun error _ => error.concernsRows = true) now := by
  apply Program.Ensures.bind
  refine Program.ensures_read fun store _ later _ => ?_
  generalize (Local.view (storage space) (now.withCommitted store)).findKey key = found
  cases found with
  | none => exact fun _ _ => rfl
  | some existing =>
      simp only
      split
      · exact fun _ _ => .inr ⟨rfl, same⟩
      · exact fun _ _ => rfl

/-- Whatever other transactions do in between, an accepted submission writes its
row or nothing, and raises only errors about the rows it meets. -/
theorem spawnTask_ensures (rely : Rely RowKey Queue) {taskName : Option String}
    {params options : Option Json} {request : Submission}
    (accepted : validateSubmission space taskName params options = .ok request) (tx : Tx) :
    (spawnTask space taskName params options).Ensures (storage space) rely
      (request.Written tx) (fun error _ => error.concernsRows = true) tx := by
  have kept : ∀ {state : Tx}, state.log = tx.log →
      rely.Stable (fun state : Tx => state.log = tx.log) state := fun same _ _ => same
  apply Program.Ensures.bind
  refine Program.ensures_ident (kept rfl) fun taskId first sameFirst => ?_
  apply Program.Ensures.bind
  refine Program.ensures_ident (kept sameFirst) fun runId second sameSecond => ?_
  apply Program.Ensures.bind
  refine Program.ensures_clock (kept sameSecond) fun nowAt third sameThird => ?_
  apply Program.Ensures.bind
  refine Program.ensures_ofExcept (fun other isOther => ?_) fun error failed => ?_
  swap
  · rw [accepted] at failed
    cases failed
  rw [accepted] at isOther
  cases isOther
  have checked : (request.taskRow taskId runId nowAt).check space = .ok () :=
    (validateSubmission_ok accepted).check taskId runId nowAt
  intro store _
  apply Program.Ensures.bind
  refine Program.ensures_write (fun later _ _ => ?_) (fun later _ _ => ?_)
    fun later _ error refused => attempt_insertTask_concernsRows checked refused
  · intro afterInsert _
    simp only [if_true]
    apply Program.Ensures.bind
    refine Program.ensures_write (fun last _ _ => ?_) (fun last _ dropped => ?_)
      fun last _ error refused => attempt_insertRun_concernsRows refused
    · intro final _ returned _
      refine .inl ⟨rfl, runId, nowAt, ?_⟩
      change (third.log ++ [_]) ++ [_] = _
      rw [sameThird, List.append_assoc]
      rfl
    · cases attempt_insertRun_true dropped
  · intro afterConflict _
    simp only [Bool.false_eq_true, if_false]
    split
    · exact fun _ _ => rfl
    · exact compareExisting_ensures rely request _ sameThird

/-! ## The law -/

/-- A duration is stored under a key as its seconds, rounded up; an absent one is
not stored. -/
def StoresSeconds (policy : Json) (key : String) (given : Option Duration) : Prop :=
  (given = none → policy.field? key = none) ∧
    ∀ duration ∈ given, ∃ seconds : Nat, policy.field? key = some (jsonInteger seconds) ∧
      duration.exact ≤ seconds ∧ (seconds : Rat) < duration.exact + 1

/-- A request means what the caller asked for. -/
structure Submission.Fulfils (config : SpawnConfig) (name : String) (params : Json)
    (request : Submission) : Prop where
  name : request.name = name
  params : request.params = params
  maxAttempts : request.maxAttempts = (config.maxAttempts.map UInt32.toNat).getD 5
  defaultStrategy : config.retryStrategy = none → request.retryStrategy = defaultRetryStrategy
  keepsKind : ∀ strategy ∈ config.retryStrategy,
    request.retryStrategy.field? "kind" = some (.string strategy.kind)
  noHeaders : (∀ headers ∈ config.headers, headers.fields = []) → request.headers = none
  keepsHeaders : ∀ headers ∈ config.headers, headers.fields ≠ [] →
    request.headers = some (.object headers.fields)
  noCancellation : (∀ policy ∈ config.cancellation, policy.maxDuration = none ∧
    policy.maxDelay = none) → request.cancellation = none
  keepsCancellation : ∀ policy ∈ config.cancellation,
    ¬(policy.maxDuration = none ∧ policy.maxDelay = none) →
      ∃ stored, request.cancellation = some stored ∧
        StoresSeconds stored "maxDuration" policy.maxDuration ∧
        StoresSeconds stored "maxDelay" policy.maxDelay
  due : ∀ enqueueAt firstStartedAt observedAt, ∃ due,
    cancellationDue request.cancellation enqueueAt firstStartedAt observedAt = .ok due ∧
      (due = true → ∃ policy ∈ config.cancellation,
        policy.Due 0 enqueueAt firstStartedAt observedAt) ∧
      ∀ policy ∈ config.cancellation, policy.Due 1 enqueueAt firstStartedAt observedAt →
        due = true
  idempotencyKey : request.idempotencyKey = config.idempotencyKey

theorem storesSeconds_ceiling {policy : Json} {key : String} {given : Option Duration}
    (field : policy.field? key = given.map fun duration => jsonInteger duration.ceiling) :
    StoresSeconds policy key given := by
  refine ⟨fun isNone => by rw [field, isNone]; rfl, fun duration isGiven => ?_⟩
  rw [Option.mem_def.mp isGiven] at field
  exact ⟨duration.ceiling, field, duration.ceiling_bounds⟩

theorem CancellationPolicy.fields_eq_nil {policy : CancellationPolicy} :
    policy.fields = [] ↔ policy.maxDuration = none ∧ policy.maxDelay = none := by
  rw [fields, List.append_eq_nil_iff]
  cases policy.maxDuration <;> cases policy.maxDelay <;> simp [inserted]

/-- Accepted options are fulfilled by the request they stand for. -/
theorem SpawnConfig.Accepted.fulfils {config : SpawnConfig} (accepted : config.Accepted)
    (name : String) (params : Json) {retryStrategy : Option Json}
    (isDefault : config.retryStrategy = none → retryStrategy = none)
    (kept : ∀ strategy ∈ config.retryStrategy, ∃ json, retryStrategy = some json ∧
      json.field? "kind" = some (.string strategy.kind)) :
    (config.request name params retryStrategy).Fulfils config name params where
  name := rfl
  params := rfl
  maxAttempts := rfl
  defaultStrategy := fun isNone => by rw [request, isDefault isNone]; rfl
  keepsKind := by
    intro strategy given
    obtain ⟨json, isSome, kind⟩ := kept strategy given
    rw [request, isSome]
    exact kind
  noHeaders := by
    intro empty
    rw [request, Option.bind_eq_none_iff]
    intro headers given
    rw [empty headers given]
    rfl
  keepsHeaders := by
    intro headers given nonempty
    rw [request, Option.mem_def.mp given]
    exact nonemptyObject_of_ne nonempty
  noCancellation := by
    intro empty
    rw [request, Option.bind_eq_none_iff]
    intro policy given
    rw [CancellationPolicy.fields_eq_nil.mpr (empty policy given)]
    rfl
  keepsCancellation := by
    intro policy given nonempty
    refine ⟨_, ?_, storesSeconds_ceiling policy.field_maxDuration,
      storesSeconds_ceiling policy.field_maxDelay⟩
    rw [request, Option.mem_def.mp given]
    exact nonemptyObject_of_ne (mt CancellationPolicy.fields_eq_nil.mp nonempty)
  due := by
    intro enqueueAt firstStartedAt observedAt
    cases given : config.cancellation with
    | none =>
        refine ⟨false, ?_, by simp, by simp⟩
        rw [request, given]
        cases firstStartedAt <;> rfl
    | some policy =>
        obtain ⟨due, evaluated, early, late⟩ :=
          (accepted.policy policy given).due enqueueAt firstStartedAt observedAt
        refine ⟨due, ?_, fun isDue => ⟨policy, rfl, early isDue⟩, ?_⟩
        · rw [request, given]
          exact evaluated
        · intro other isOther
          cases isOther
          exact late
  idempotencyKey := rfl

/-- The options that the client accepts and their submission. -/
theorem SpawnConfig.normalization_refines (prints : Prints print)
    (spaces : ∀ char, space char = true → isWhiteSpace char = true) (config : SpawnConfig)
    (name : String) (params : Json) :
    (∀ payload, config.Storable → validateTaskName name = .ok () →
      normalizeSpawnOptions print config = .ok payload →
        (Json.object payload).storable = true ∧
          ∃ request : Submission, request.Fulfils config name params ∧
            validateSubmission space (some name) (some params) (some (.object payload)) =
              .ok request ∧
            ∀ (rely : Rely RowKey Queue) (tx : Tx),
              (spawnTask space (some name) (some params) (some (.object payload))).Ensures
                (storage space) rely (request.Written tx)
                (fun error _ => error.concernsRows = true) tx) ∧
    (∀ policy ∈ config.cancellation, ∀ duration,
      duration ∈ policy.maxDuration ∨ duration ∈ policy.maxDelay → maxBigint < duration.exact →
        ∃ text, normalizeSpawnOptions print config = .error (.invalidOptions text)) ∧
    (∀ strategy ∈ config.retryStrategy, ∀ delay ∈ strategy.delays,
      maximumDelaySeconds + 1 / 1000000 ≤ delay.exact →
        ∃ text, normalizeSpawnOptions print config = .error (.invalidOptions text)) := by
  refine ⟨?_, ?_, ?_⟩
  · intro payload storable named normalized
    obtain ⟨accepted, retryStrategy, isStrategy, rfl⟩ := normalizeSpawnOptions_ok normalized
    have stored : ∀ strategy ∈ config.retryStrategy, ∃ json, retryStrategy = some json ∧
        json.field? "kind" = some (.string strategy.kind) ∧
          ∃ delay, retryDelaySeconds json 1 = .ok delay := by
      intro strategy given
      rcases option_mapM_ok.mp isStrategy with ⟨isNone, _⟩ | ⟨other, json, isOther, isJson, isSome⟩
      · rw [Option.mem_def, isNone] at given
        cases given
      · rw [Option.mem_def, isOther] at given
        cases given
        exact ⟨json, isSome, (accepted.strategy _ isOther).stored prints isJson⟩
    have isDefault : config.retryStrategy = none → retryStrategy = none := by
      intro isNone
      rw [isNone] at isStrategy
      exact (Except.ok.inj isStrategy).symm
    have delayed : ∃ delay,
        retryDelaySeconds (retryStrategy.getD defaultRetryStrategy) 1 = .ok delay := by
      cases given : config.retryStrategy with
      | none =>
          rw [isDefault given]
          exact ⟨30, defaultRetryStrategy_accepted⟩
      | some strategy =>
          obtain ⟨json, isSome, _, isDelay⟩ := stored strategy given
          rw [isSome]
          exact isDelay
    have validated := validateSubmission_payload spaces accepted named delayed params
    refine ⟨storable.payload isStrategy, _, accepted.fulfils name params isDefault ?_, validated,
      fun rely tx => spawnTask_ensures rely validated tx⟩
    intro strategy given
    obtain ⟨json, isSome, kind, _⟩ := stored strategy given
    exact ⟨json, isSome, kind⟩
  · intro policy given duration isBound large
    refine normalizeSpawnOptions_rejects fun accepted => ?_
    exact absurd large (not_lt.mpr (accepted.policy policy given duration isBound))
  · intro strategy given delay isDelay large
    refine normalizeSpawnOptions_rejects fun accepted => ?_
    have fits := ((accepted.strategy strategy given).isDelay delay isDelay).exact_lt
    exact absurd fits (not_lt.mpr large)

/-- A duration of a second and a half. -/
def secondAndHalf : Duration := ⟨1, 500000000⟩

/-- The delay, a double, of a second and a half. -/
def delayAndHalf : Double where
  value := 3 / 2
  isDouble := ⟨3, -1, by decide, by decide, by norm_num⟩
  finite := by
    rw [abs_of_pos (by norm_num)]
    exact le_trans (by norm_num [maximumDelaySeconds]) maxDouble_large

/-- Options with an exponential retry strategy and a deadline. -/
def retriedConfig : SpawnConfig where
  maxAttempts := some 3
  retryStrategy := some (.exponential secondAndHalf (.finite delayAndHalf) none)
  headers := some ⟨[("trace", .string "on")], by decide⟩
  cancellation := some ⟨some secondAndHalf, none⟩
  idempotencyKey := some "monthly"

theorem secondAndHalf_asSecsF64 : secondAndHalf.asSecsF64 = .finite delayAndHalf := by
  have half : IsDouble (1 / 2 : Rat) := ⟨1, -1, by decide, by decide, by norm_num⟩
  have one : IsDouble ((1 : Nat) : Rat) := isDouble_natCast (by decide)
  have rounded : roundToDouble (roundToDouble (secondAndHalf.seconds.toNat : Rat) +
      roundToDouble (secondAndHalf.nanoseconds.val / 1000000000)) = delayAndHalf.value := by
    rw [show secondAndHalf.seconds.toNat = 1 by decide, roundToDouble_of_isDouble one,
      show (secondAndHalf.nanoseconds.val : Rat) / 1000000000 = 1 / 2 by
        norm_num [secondAndHalf], roundToDouble_of_isDouble half]
    rw [show ((1 : Nat) : Rat) + 1 / 2 = delayAndHalf.value by norm_num [delayAndHalf]]
    exact roundToDouble_of_isDouble delayAndHalf.isDouble
  unfold Duration.asSecsF64
  rw [Binary64.nearest_of_finite (rounded ▸ delayAndHalf.finite)]
  congr

theorem asciiSpace_isWhiteSpace (char : Char) (isSpace : asciiSpace char = true) :
    isWhiteSpace char = true := by
  unfold asciiSpace at isSpace
  rcases Bool.or_eq_true_iff.mp isSpace with isBlank | isControl
  · rw [beq_iff_eq.mp isBlank]
    decide
  · obtain ⟨above, below⟩ := Bool.and_eq_true_iff.mp isControl
    have least : 9 ≤ char.toNat := of_decide_eq_true above
    have most : char.toNat ≤ 13 := of_decide_eq_true below
    simp [isWhiteSpace, least, most]

/-- Options that are accepted and submitted. -/
theorem SpawnConfig.normalization_refines_retried :
    ∃ payload, normalizeSpawnOptions printExactly retriedConfig = .ok payload ∧
      ∃ request : Submission, request.Fulfils retriedConfig "report" .null ∧
        validateSubmission asciiSpace (some "report") (some .null) (some (.object payload)) =
          .ok request := by
  have normalized : normalizeSpawnOptions printExactly retriedConfig =
      .ok (retriedConfig.payload (some (.object [("kind", .string "exponential"),
        ("baseSeconds", .number ⟨15, 1⟩), ("factor", .number ⟨15, 1⟩)]))) := by
    have delay : ∀ label, validateRetryDelay secondAndHalf label = .ok () := fun _ =>
      validateRetryDelay_ok.mpr ⟨delayAndHalf, secondAndHalf_asSecsF64,
        by norm_num [delayAndHalf], by norm_num [delayAndHalf, maxDatabaseDelaySeconds, i32Max]⟩
    have strategy : validateRetryStrategy
        (.exponential secondAndHalf (.finite delayAndHalf) none) = .ok () := by
      have positive : (Binary64.finite delayAndHalf).le 0 = false := by
        norm_num [Binary64.le, delayAndHalf]
      simp [validateRetryStrategy, delay, Binary64.isFinite, positive, bind, Except.bind, pure,
        Except.pure]
    have printed : printExactly delayAndHalf = ⟨15, 1⟩ := by decide +kernel
    have json : retryStrategyJson printExactly
        (.exponential secondAndHalf (.finite delayAndHalf) none) =
          .ok (.object [("kind", .string "exponential"), ("baseSeconds", .number ⟨15, 1⟩),
            ("factor", .number ⟨15, 1⟩)]) := by
      simp [retryStrategyJson, strategy, secondAndHalf_asSecsF64, jsonDouble, printed, inserted,
        bind, Except.bind, pure, Except.pure]
    have key : validateIdempotencyKey "monthly" = .ok () := rfl
    have checked : validateSpawnOptions retriedConfig = .ok () := by
      simp [validateSpawnOptions, retriedConfig, strategy, key, bind, Except.bind]
    have budget : databasePositiveI32 3 "max_attempts" = .ok 3 := rfl
    have policy : cancellationFields ⟨some secondAndHalf, none⟩ =
        .ok [("maxDuration", jsonInteger 2)] := rfl
    simp only [normalizeSpawnOptions, checked]
    simp [retriedConfig, json, budget, policy]
    rfl
  have storable : retriedConfig.Storable := by
    constructor <;> (intro given isGiven; cases isGiven; decide)
  obtain ⟨_, request, fulfils, validated, _⟩ :=
    (retriedConfig.normalization_refines prints_printExactly asciiSpace_isWhiteSpace "report"
      .null).1 _ storable rfl normalized
  exact ⟨_, normalized, request, fulfils, validated⟩

end Steda
