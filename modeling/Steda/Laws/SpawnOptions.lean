import Steda.Client.SpawnOptions
import Steda.Contracts.Submission
import Steda.Laws.Backoff

/-!
# Spawn options

Options that the client accepts pass every check of `steda.spawn_task`, and the
stored row means what they say.
-/

namespace Steda

open Postgres Transaction

variable {space : Char → Bool} {print : Double → Numeric}

/-! ## Durations -/

namespace Duration

/-- A duration in seconds. -/
def exact (duration : Duration) : Rat :=
  duration.seconds.toNat + (duration.nanoseconds.val : Rat) / 1000000000

/-- A duration rounded up to whole seconds. -/
def ceiling (duration : Duration) : Nat :=
  duration.seconds.toNat + if 0 < duration.nanoseconds.val then 1 else 0

variable {duration : Duration}

theorem fraction_bounds (duration : Duration) :
    0 ≤ (duration.nanoseconds.val : Rat) / 1000000000 ∧
      (duration.nanoseconds.val : Rat) / 1000000000 < 1 := by
  refine ⟨by positivity, (div_lt_one (by norm_num)).mpr ?_⟩
  exact_mod_cast duration.nanoseconds.isLt

/-- Rounding up adds less than a second. -/
theorem ceiling_bounds (duration : Duration) :
    duration.exact ≤ duration.ceiling ∧ (duration.ceiling : Rat) < duration.exact + 1 := by
  obtain ⟨nonneg, less⟩ := duration.fraction_bounds
  unfold exact ceiling
  split
  · next positive =>
      have fraction : (0 : Rat) < (duration.nanoseconds.val : Rat) / 1000000000 := by positivity
      push_cast
      constructor <;> linarith
  · next isZero =>
      have noFraction : duration.nanoseconds.val = 0 := by omega
      rw [noFraction]
      simp

/-- A whole number bounds a duration when it bounds the seconds rounded up. -/
theorem ceiling_le_iff {bound : Int} : duration.ceiling ≤ bound ↔ duration.exact ≤ bound := by
  obtain ⟨above, below⟩ := duration.ceiling_bounds
  constructor
  · intro fits
    exact above.trans (by exact_mod_cast fits)
  · intro fits
    have less : (duration.ceiling : Rat) < bound + 1 := by linarith
    have lessInt : (duration.ceiling : Int) < bound + 1 := by exact_mod_cast less
    omega

/-- The seconds of a duration as a double. -/
theorem asSecsF64_finite (duration : Duration) :
    ∃ double, duration.asSecsF64 = .finite double ∧ 0 ≤ double.value := by
  obtain ⟨fractionNonneg, fractionLess⟩ := duration.fraction_bounds
  have power : ∀ exponent : Nat, IsDouble ((2 : Rat) ^ exponent) := fun exponent =>
    ⟨1, exponent, by norm_num, by omega, by simp⟩
  have seconds : roundToDouble duration.seconds.toNat ≤ 2 ^ 64 := by
    rw [← roundToDouble_of_isDouble (power 64)]
    refine roundToDouble_mono (Nat.cast_nonneg _) ?_
    exact_mod_cast duration.seconds.toNat_lt.le
  have fraction : roundToDouble (duration.nanoseconds.val / 1000000000) ≤ 2 ^ 0 := by
    rw [← roundToDouble_of_isDouble (power 0)]
    exact roundToDouble_mono fractionNonneg (by simpa using fractionLess.le)
  have nonneg : 0 ≤ roundToDouble duration.seconds.toNat +
      roundToDouble (duration.nanoseconds.val / 1000000000) :=
    add_nonneg (roundToDouble_nonneg (Nat.cast_nonneg _)) (roundToDouble_nonneg fractionNonneg)
  have sum : roundToDouble (roundToDouble duration.seconds.toNat +
      roundToDouble (duration.nanoseconds.val / 1000000000)) ≤ 2 ^ 65 := by
    rw [← roundToDouble_of_isDouble (power 65)]
    refine roundToDouble_mono nonneg (le_trans (add_le_add seconds fraction) (by norm_num))
  have small : (2 : Rat) ^ 65 ≤ maxDouble := by
    rw [← one_mul ((2 : Rat) ^ 65)]
    exact mul_le_mul (by norm_num) (pow_le_pow_right₀ one_le_two (by decide)) (by positivity)
      (by norm_num)
  refine ⟨_, Binary64.nearest_of_finite ?_, roundToDouble_nonneg nonneg⟩
  rw [abs_of_nonneg (roundToDouble_nonneg nonneg)]
  exact sum.trans small

end Duration

theorem durationSecondsI64_ok {duration : Duration} {label : String} {seconds : Nat} :
    durationSecondsI64 duration label = .ok seconds ↔
      seconds = duration.ceiling ∧ duration.exact ≤ maxBigint := by
  rw [← Duration.ceiling_le_iff]
  unfold durationSecondsI64
  dsimp only
  rw [← Duration.ceiling]
  by_cases fits : (duration.ceiling : Int) ≤ maxBigint
  · have small : duration.ceiling < 2 ^ 64 := by
      unfold maxBigint at fits
      omega
    rw [if_pos small, if_pos fits, Except.ok.injEq, and_iff_left fits, eq_comm]
  · refine iff_of_false ?_ fun accepted => fits accepted.2
    rw [if_neg fits]
    split <;> simp

/-! ## Retry strategies -/

/-- The duration is a delay of at most `i32::MAX` seconds as a double. -/
def Duration.IsDelay (duration : Duration) : Prop :=
  ∃ double, duration.asSecsF64 = .finite double ∧ 0 ≤ double.value ∧
    double.value ≤ maxDatabaseDelaySeconds

/-- The strategies that the client accepts. -/
inductive RetryStrategy.Accepted : RetryStrategy → Prop
  | fixed {delay : Duration} (isDelay : delay.IsDelay) : Accepted (.fixed delay)
  | exponential {initialDelay : Duration} {factor : Double} {maxDelay : Option Duration}
      (isDelay : initialDelay.IsDelay) (positive : 0 < factor.value)
      (maxIsDelay : ∀ delay ∈ maxDelay, delay.IsDelay) :
      Accepted (.exponential initialDelay (.finite factor) maxDelay)
  | none : Accepted .none

/-- The `kind` of a strategy. -/
def RetryStrategy.kind : RetryStrategy → String
  | .fixed _ => "fixed"
  | .exponential _ _ _ => "exponential"
  | .none => "none"

theorem validateRetryDelay_ok {delay : Duration} {label : String} :
    validateRetryDelay delay label = .ok () ↔ delay.IsDelay := by
  obtain ⟨double, isDouble, nonneg⟩ := delay.asSecsF64_finite
  unfold validateRetryDelay Duration.IsDelay
  simp only [isDouble, Binary64.gt, decide_eq_true_eq]
  split
  · next large =>
      refine iff_of_false (by simp) ?_
      rintro ⟨other, same, _, small⟩
      cases same
      exact absurd large (not_lt.mpr small)
  · next small => exact iff_of_true rfl ⟨double, rfl, nonneg, not_lt.mp small⟩

theorem validateRetryStrategy_ok {strategy : RetryStrategy}
    (accepted : validateRetryStrategy strategy = .ok ()) : strategy.Accepted := by
  cases strategy with
  | none => exact .none
  | fixed delay => exact .fixed (validateRetryDelay_ok.mp accepted)
  | exponential initialDelay factor maxDelay =>
      obtain ⟨_, initial, later⟩ := except_bind_ok.mp accepted
      obtain ⟨valid, maximum⟩ := except_guard_ok.mp later
      cases factor with
      | nan => exact absurd rfl valid
      | infinite negative => exact absurd rfl valid
      | finite factor =>
          have positive : 0 < factor.value := by
            simpa [Binary64.isFinite, Binary64.le] using valid
          refine .exponential (validateRetryDelay_ok.mp initial) positive ?_
          intro delay isMax
          cases isMax
          exact validateRetryDelay_ok.mp maximum

theorem fitsDouble_print (prints : Prints print) (double : Double) :
    FitsDouble (print double).value :=
  ⟨prints.within double, prints.large⟩

/-- A delay is stored as a number within the bounds of a delay. -/
theorem Duration.IsDelay.stored (prints : Prints print) {strategy : Json} {key : String}
    {delay : Duration} (isDelay : delay.IsDelay)
    (field : strategy.field? key = some (jsonDouble print delay.asSecsF64)) :
    ∃ seconds, HasNumber strategy key seconds ∧ DelayBounds seconds := by
  obtain ⟨double, isDouble, nonneg, most⟩ := isDelay
  rw [isDouble] at field
  refine ⟨_, ⟨print double, field, rfl, fitsDouble_print prints double⟩, prints.nonneg nonneg, ?_⟩
  have bound := prints.le_natCast (by decide) most
  exact_mod_cast bound

/-- An accepted strategy is stored in its canonical shape, under its kind. -/
theorem RetryStrategy.Accepted.stored (prints : Prints print) {strategy : RetryStrategy}
    (accepted : strategy.Accepted) {json : Json}
    (isJson : retryStrategyJson print strategy = .ok json) :
    json.field? "kind" = some (.string strategy.kind) ∧
      ∃ delay, retryDelaySeconds json 1 = .ok delay := by
  obtain ⟨_, _, returned⟩ := except_bind_ok.mp isJson
  have isObject := (Except.ok.inj returned).symm
  cases accepted with
  | none =>
      rw [isObject]
      exact ⟨rfl, 0, (retryDelaySeconds_ok le_rfl).mpr (.inl ⟨rfl, by simp [Json.keys], rfl⟩)⟩
  | @fixed delay isDelay =>
      have base : json.field? "baseSeconds" = some (jsonDouble print delay.asSecsF64) := by
        rw [isObject]
        rfl
      obtain ⟨seconds, hasBase, bounds⟩ := isDelay.stored prints base
      refine ⟨by rw [isObject]; rfl, seconds, (retryDelaySeconds_ok le_rfl).mpr
        (.inr (.inl ⟨by rw [isObject]; rfl, by simp [isObject, Json.keys], hasBase, bounds⟩))⟩
  | @exponential initialDelay factor maxDelay isDelay positive maxIsDelay =>
      have kind : json.field? "kind" = some (.string "exponential") := by
        rw [isObject]
        rfl
      have base : json.field? "baseSeconds" =
          some (jsonDouble print initialDelay.asSecsF64) := by
        rw [isObject]
        rfl
      have factorField : json.field? "factor" = some (.number (print factor)) := by
        rw [isObject]
        rfl
      have maximum : json.field? "maxSeconds" =
          maxDelay.map fun delay => jsonDouble print delay.asSecsF64 := by
        rw [isObject]
        cases maxDelay <;> rfl
      have keys : ∀ key ∈ json.keys, key ∈ ["kind", "baseSeconds", "factor", "maxSeconds"] := by
        rw [isObject]
        cases maxDelay <;> simp [Json.keys, inserted]
      obtain ⟨seconds, hasBase, baseBounds⟩ := isDelay.stored prints base
      have hasFactor : HasNumber json "factor" (print factor).value :=
        ⟨print factor, factorField, rfl, fitsDouble_print prints factor⟩
      obtain ⟨maxSeconds, isMaximum, maxBounds⟩ : ∃ maxSeconds,
          ((json.hasKey "maxSeconds" = true ∧ HasNumber json "maxSeconds" maxSeconds) ∨
            (json.hasKey "maxSeconds" = false ∧ maxSeconds = maximumDelaySeconds)) ∧
          DelayBounds maxSeconds := by
        cases maxDelay with
        | none =>
            exact ⟨maximumDelaySeconds, .inr ⟨by rw [Json.hasKey, maximum]; rfl, rfl⟩,
              maximumDelaySeconds_bounds⟩
        | some delay =>
            obtain ⟨maxSeconds, hasMax, bounds⟩ := (maxIsDelay delay rfl).stored prints maximum
            exact ⟨maxSeconds, .inl ⟨hasMax.hasKey, hasMax⟩, bounds⟩
      exact ⟨kind, _, (retryDelaySeconds_ok le_rfl).mpr (.inr (.inr ⟨kind,
        ⟨seconds, (print factor).value, maxSeconds⟩,
        ⟨keys, hasBase, baseBounds, hasFactor, prints.pos positive, isMaximum, maxBounds⟩, rfl⟩))⟩

/-! ## Fields of the options -/

section Fields

variable {key : String} {value : Option Json} {rest : List (String × Json)}

theorem lookup_inserted (other : String) :
    (inserted key value ++ rest).lookup other =
      if other = key then value.or (rest.lookup other) else rest.lookup other := by
  cases value with
  | none => simp [inserted]
  | some value =>
      by_cases same : other = key
      · simp [inserted, same]
      · simp [inserted, List.lookup_cons, beq_eq_false_iff_ne.mpr same, same]

theorem mem_keys_inserted {other : String}
    (member : other ∈ (inserted key value).map Prod.fst) : other = key := by
  cases value with
  | none => cases member
  | some value => simpa [inserted] using member

theorem option_mapM_ok {α β : Type} {convert : α → Except Error β} {given : Option α}
    {result : Option β} :
    given.mapM convert = .ok result ↔
      (given = none ∧ result = none) ∨
        ∃ value converted, given = some value ∧ convert value = .ok converted ∧
          result = some converted := by
  cases given with
  | none => simp [pure, Except.pure, eq_comm]
  | some value =>
      cases converted : convert value with
      | error error => simp [converted, Functor.map, Except.map]
      | ok other => simp [converted, Functor.map, Except.map, eq_comm]

end Fields

/-! ## Cancellation policies -/

namespace CancellationPolicy

variable {policy : CancellationPolicy}

/-- The fields of a policy: its durations rounded up to whole seconds. -/
def fields (policy : CancellationPolicy) : List (String × Json) :=
  inserted "maxDuration" (policy.maxDuration.map fun duration => jsonInteger duration.ceiling) ++
    inserted "maxDelay" (policy.maxDelay.map fun delay => jsonInteger delay.ceiling)

/-- Every duration of the policy can be represented in seconds. -/
def Fits (policy : CancellationPolicy) : Prop :=
  ∀ duration, duration ∈ policy.maxDuration ∨ duration ∈ policy.maxDelay →
    duration.exact ≤ maxBigint

end CancellationPolicy

/-- A duration is converted when its seconds fit. -/
theorem durationSecondsI64_mapM_ok {given : Option Duration} {label : String}
    {seconds : Option Nat} :
    (given.mapM fun duration => durationSecondsI64 duration label) = .ok seconds ↔
      seconds = given.map Duration.ceiling ∧ ∀ duration ∈ given, duration.exact ≤ maxBigint := by
  rw [option_mapM_ok]
  cases given with
  | none => simp
  | some duration =>
      simp [durationSecondsI64_ok, and_comm]

theorem cancellationFields_ok {policy : CancellationPolicy} {fields : List (String × Json)} :
    cancellationFields policy = .ok fields ↔ fields = policy.fields ∧ policy.Fits := by
  unfold cancellationFields
  simp only [except_bind_ok, durationSecondsI64_mapM_ok]
  constructor
  · rintro ⟨_, ⟨rfl, durationFits⟩, _, ⟨rfl, delayFits⟩, returned⟩
    refine ⟨?_, fun duration given => given.elim (durationFits duration) (delayFits duration)⟩
    rw [← Except.ok.inj returned]
    simp [CancellationPolicy.fields, Function.comp_def]
  · rintro ⟨rfl, fits⟩
    refine ⟨_, ⟨rfl, fun duration given => fits duration (.inl given)⟩, _,
      ⟨rfl, fun delay given => fits delay (.inr given)⟩, ?_⟩
    simp [CancellationPolicy.fields, Function.comp_def, pure, Except.pure]

namespace CancellationPolicy

variable {policy : CancellationPolicy}

theorem field_maxDuration (policy : CancellationPolicy) :
    (Json.object policy.fields).field? "maxDuration" =
      policy.maxDuration.map fun duration => jsonInteger duration.ceiling := by
  rw [Json.field?, fields, lookup_inserted, if_pos rfl]
  cases policy.maxDuration with
  | some duration => rfl
  | none =>
      rw [← List.append_nil (inserted _ _), lookup_inserted]
      rfl

theorem field_maxDelay (policy : CancellationPolicy) :
    (Json.object policy.fields).field? "maxDelay" =
      policy.maxDelay.map fun delay => jsonInteger delay.ceiling := by
  rw [Json.field?, fields, lookup_inserted, if_neg (by decide),
    ← List.append_nil (inserted _ _), lookup_inserted, if_pos rfl]
  exact Option.or_none

theorem keys_fields (policy : CancellationPolicy) :
    ∀ key ∈ (Json.object policy.fields).keys, key ∈ ["maxDelay", "maxDuration"] := by
  intro key member
  rw [Json.keys, fields, List.map_append] at member
  rcases List.mem_append.mp member with isDuration | isDelay
  · rw [mem_keys_inserted isDuration]
    decide
  · rw [mem_keys_inserted isDelay]
    decide

end CancellationPolicy

/-- A bound stored as a number of whole seconds. -/
structure StoredBound (policy : Json) (key : String) (duration : Option Duration) : Prop where
  field : policy.field? key = duration.map fun duration => jsonInteger duration.ceiling
  fits : ∀ given ∈ duration, given.exact ≤ maxBigint

namespace StoredBound

variable {policy : Json} {key : String} {duration : Option Duration}

theorem validated (bound : StoredBound policy key duration) :
    validateCancellationBound policy key = .ok () := by
  unfold validateCancellationBound
  rw [bound.field]
  cases duration with
  | none => rfl
  | some given =>
      have fits := Duration.ceiling_le_iff.mpr (bound.fits given rfl)
      have accepted : ¬((!(Numeric.ofInt given.ceiling).isWhole) = true ∨
          (Numeric.ofInt given.ceiling).ltInt 0 = true ∨
          (Numeric.ofInt given.ceiling).gtInt maxBigint = true) := by
        simp [Numeric.ofInt, Numeric.isWhole, Numeric.trunc, Numeric.ltInt, Numeric.gtInt, fits]
      exact if_neg accepted

/-- The later cast of the bound succeeds. -/
theorem read (bound : StoredBound policy key duration) :
    cancellationBound policy key =
      .ok (duration.map fun given => (given.ceiling : Int)) := by
  unfold cancellationBound Json.text?
  rw [bound.field]
  cases duration with
  | none => rfl
  | some given =>
      have fits := Duration.ceiling_le_iff.mpr (bound.fits given rfl)
      have large : ¬((given.ceiling : Int) < -maxBigint - 1 ∨ maxBigint < given.ceiling) := by
        unfold maxBigint at fits ⊢
        omega
      have cast : textToBigint (Numeric.ofInt given.ceiling).toText = .ok given.ceiling := by
        rw [textToBigint_toText, if_neg (by simp [Numeric.ofInt])]
        exact if_neg large
      simp only [Option.map_some, jsonInteger, Json.render, cast]

end StoredBound

theorem nonemptyObject_of_ne {fields : List (String × Json)} (nonempty : fields ≠ []) :
    nonemptyObject fields = some (.object fields) := by
  cases fields with
  | nil => exact absurd rfl nonempty
  | cons field rest => rfl

/-- At some observed time a duration and some slack have passed since the start.
At `infinity` every duration has passed. -/
def Passed (slack : Rat) (duration : Option Duration) (since : Timestamp)
    (observedAt : Option Timestamptz) : Prop :=
  ∃ observed ∈ observedAt, ∃ given ∈ duration, ∀ time : Timestamp, observed = time →
    (given.exact + slack) * second ≤ ((time - since : Int) : Rat)

/-- A rounded duration elapses after the duration and within a second of it. -/
theorem elapsed_ceiling {duration : Option Duration} {since : Timestamp}
    {observedAt : Option Timestamptz} :
    (elapsed (duration.map fun given => (given.ceiling : Int)) since observedAt = true →
      Passed 0 duration since observedAt) ∧
    (Passed 1 duration since observedAt →
      elapsed (duration.map fun given => (given.ceiling : Int)) since observedAt = true) := by
  have positive : (0 : Rat) < second := by
    unfold second
    norm_num
  constructor
  · intro isElapsed
    rcases duration with _ | given
    · cases isElapsed
    · rcases observedAt with _ | observed
      · cases isElapsed
      · refine ⟨observed, rfl, given, rfl, ?_⟩
        rintro time rfl
        have passed : (given.ceiling : Int) * second ≤ time - since := by
          simpa [elapsed] using isElapsed
        rw [add_zero]
        refine (mul_le_mul_of_nonneg_right given.ceiling_bounds.1 positive.le).trans ?_
        exact_mod_cast passed
  · rintro ⟨observed, rfl, given, rfl, passed⟩
    cases observed with
    | infinity => rfl
    | point time =>
        have rounded : (given.ceiling : Rat) * second ≤ ((time - since : Int) : Rat) :=
          (mul_le_mul_of_nonneg_right given.ceiling_bounds.2.le positive.le).trans (passed time rfl)
        have whole : (given.ceiling : Int) * second ≤ time - since := by
          exact_mod_cast rounded
        simpa [elapsed] using whole

namespace CancellationPolicy

variable {policy : CancellationPolicy}

/-- The bound that applies to a task: `max_delay` before its first start and
`max_duration` after it. -/
def Due (slack : Rat) (policy : CancellationPolicy) (enqueueAt : Timestamp)
    (firstStartedAt : Option Timestamp) (observedAt : Option Timestamptz) : Prop :=
  match firstStartedAt with
  | none => Passed slack policy.maxDelay enqueueAt observedAt
  | some startedAt => Passed slack policy.maxDuration startedAt observedAt

/-- Both bounds of a policy that fits are stored. -/
theorem Fits.storedDelay (fits : policy.Fits) :
    StoredBound (.object policy.fields) "maxDelay" policy.maxDelay :=
  ⟨policy.field_maxDelay, fun delay given => fits delay (.inr given)⟩

theorem Fits.storedDuration (fits : policy.Fits) :
    StoredBound (.object policy.fields) "maxDuration" policy.maxDuration :=
  ⟨policy.field_maxDuration, fun duration given => fits duration (.inl given)⟩

/-- A policy that fits is accepted as it is. -/
theorem Fits.validated (fits : policy.Fits) :
    validateCancellationPolicy (nonemptyObject policy.fields) =
      .ok (nonemptyObject policy.fields) := by
  by_cases isEmpty : policy.fields = []
  · rw [isEmpty]
    rfl
  · rw [nonemptyObject_of_ne isEmpty]
    have nonempty : (Json.object policy.fields).isEmptyObject = false := by
      unfold Json.isEmptyObject
      split
      · next isObject => exact absurd (Json.object.inj isObject) isEmpty
      · rfl
    have known := unknownKey?_eq_none.mpr policy.keys_fields
    simp [validateCancellationPolicy, Json.isObject, nonempty, known, fits.storedDelay.validated,
      fits.storedDuration.validated, bind, Except.bind, pure, Except.pure]

/-- The deadlines of a policy that fits are evaluated without error, never
before the duration has passed and at most a second later. -/
theorem Fits.due (fits : policy.Fits) (enqueueAt : Timestamp)
    (firstStartedAt : Option Timestamp) (observedAt : Option Timestamptz) :
    ∃ due, cancellationDue (nonemptyObject policy.fields) enqueueAt firstStartedAt observedAt =
        .ok due ∧
      (due = true → policy.Due 0 enqueueAt firstStartedAt observedAt) ∧
      (policy.Due 1 enqueueAt firstStartedAt observedAt → due = true) := by
  by_cases isEmpty : policy.fields = []
  · have noDelay : policy.maxDelay = none := by
      have field := policy.field_maxDelay
      rw [isEmpty] at field
      simpa [Json.field?] using field.symm
    have noDuration : policy.maxDuration = none := by
      have field := policy.field_maxDuration
      rw [isEmpty] at field
      simpa [Json.field?] using field.symm
    rw [isEmpty]
    refine ⟨false, by cases firstStartedAt <;> rfl, by simp, ?_⟩
    unfold Due
    rw [noDelay, noDuration]
    cases firstStartedAt <;> rintro ⟨_, _, given, impossible, _⟩ <;> cases impossible
  · rw [nonemptyObject_of_ne isEmpty]
    cases firstStartedAt with
    | none =>
        refine ⟨_, ?_, elapsed_ceiling⟩
        simp only [cancellationDue, fits.storedDelay.read]
        rfl
    | some startedAt =>
        refine ⟨_, ?_, elapsed_ceiling⟩
        simp only [cancellationDue, fits.storedDuration.read]
        rfl

end CancellationPolicy

/-! ## Accepted options -/

/-- The options that the client accepts. -/
structure SpawnConfig.Accepted (config : SpawnConfig) : Prop where
  budget : ∀ maxAttempts ∈ config.maxAttempts,
    1 ≤ maxAttempts.toNat ∧ maxAttempts.toNat ≤ i32Max
  strategy : ∀ strategy ∈ config.retryStrategy, strategy.Accepted
  policy : ∀ policy ∈ config.cancellation, policy.Fits
  keyed : ∀ key ∈ config.idempotencyKey,
    trimIsEmpty key = false ∧ key.utf8ByteSize ≤ maxIdempotencyKeyBytes

/-- The fields that are sent, with the JSON of the retry strategy. -/
def SpawnConfig.payload (config : SpawnConfig) (retryStrategy : Option Json) :
    List (String × Json) :=
  inserted "headers" (config.headers.bind fun headers => nonemptyObject headers.fields) ++
    inserted "maxAttempts" (config.maxAttempts.map fun maxAttempts =>
      jsonInteger maxAttempts.toNat) ++
    inserted "retryStrategy" retryStrategy ++
    inserted "cancellation" (config.cancellation.bind fun policy => nonemptyObject policy.fields) ++
    inserted "idempotencyKey" (config.idempotencyKey.map Json.string)

theorem databasePositiveI32_ok {value : UInt32} {label : String} {converted : Nat} :
    databasePositiveI32 value label = .ok converted ↔
      converted = value.toNat ∧ 1 ≤ value.toNat ∧ value.toNat ≤ i32Max := by
  unfold databasePositiveI32 i32TryFrom
  by_cases isZero : value = 0
  · rw [if_pos isZero, isZero]
    exact iff_of_false (by simp) (by simp)
  · have positive : 1 ≤ value.toNat := by
      rw [Nat.one_le_iff_ne_zero]
      exact fun zero => isZero (UInt32.toNat_inj.mp zero)
    rw [if_neg isZero]
    by_cases fits : value.toNat ≤ i32Max
    · simp [fits, positive, eq_comm]
    · simp [fits]

/-- The checks of a text that must not be blank and has a largest size. -/
theorem boundedText_ok {text : String} {limit : Nat} {blank long : Error}
    (accepted : (if trimIsEmpty text then .error blank
      else if limit < text.utf8ByteSize then .error long else .ok () : Except Error Unit) =
        .ok ()) :
    trimIsEmpty text = false ∧ text.utf8ByteSize ≤ limit := by
  split at accepted
  · cases accepted
  · next notBlank =>
      split at accepted
      · cases accepted
      · next short => exact ⟨by simpa using notBlank, not_lt.mp short⟩

theorem validateIdempotencyKey_ok {key : String} (accepted : validateIdempotencyKey key = .ok ()) :
    trimIsEmpty key = false ∧ key.utf8ByteSize ≤ maxIdempotencyKeyBytes :=
  boundedText_ok accepted

theorem validateTaskName_ok {name : String} (accepted : validateTaskName name = .ok ()) :
    trimIsEmpty name = false ∧ name.utf8ByteSize ≤ maxTaskNameBytes :=
  boundedText_ok accepted

theorem validateSpawnOptions_ok {config : SpawnConfig}
    (accepted : validateSpawnOptions config = .ok ()) :
    (∀ strategy ∈ config.retryStrategy, strategy.Accepted) ∧
      ∀ key ∈ config.idempotencyKey,
        trimIsEmpty key = false ∧ key.utf8ByteSize ≤ maxIdempotencyKeyBytes := by
  obtain ⟨maxAttempts, strategy, headers, cancellation, key⟩ := config
  obtain ⟨_, accepted⟩ := except_guard_ok.mp accepted
  have keyed : ∀ key : String, validateIdempotencyKey key = .ok () → ∀ other ∈ some key,
      trimIsEmpty other = false ∧ other.utf8ByteSize ≤ maxIdempotencyKeyBytes := by
    intro key checked other isOther
    cases isOther
    exact validateIdempotencyKey_ok checked
  have kept : ∀ strategy : RetryStrategy, validateRetryStrategy strategy = .ok () →
      ∀ other ∈ some strategy, other.Accepted := by
    intro strategy checked other isOther
    cases isOther
    exact validateRetryStrategy_ok checked
  rcases strategy with _ | strategy
  · rcases key with _ | key
    · exact ⟨by simp, by simp⟩
    · exact ⟨by simp, keyed key accepted⟩
  · obtain ⟨_, checked, later⟩ := except_bind_ok.mp accepted
    rcases key with _ | key
    · exact ⟨kept strategy checked, by simp⟩
    · exact ⟨kept strategy checked, keyed key later⟩

/-- What the client has checked, and what it sends. -/
theorem normalizeSpawnOptions_ok {config : SpawnConfig} {payload : List (String × Json)}
    (normalized : normalizeSpawnOptions print config = .ok payload) :
    config.Accepted ∧ ∃ retryStrategy,
      config.retryStrategy.mapM (retryStrategyJson print) = .ok retryStrategy ∧
        payload = config.payload retryStrategy := by
  obtain ⟨_, validated, normalized⟩ := except_bind_ok.mp normalized
  obtain ⟨maxAttempts, budget, normalized⟩ := except_bind_ok.mp normalized
  obtain ⟨retryStrategy, strategy, normalized⟩ := except_bind_ok.mp normalized
  obtain ⟨cancellation, policy, returned⟩ := except_bind_ok.mp normalized
  obtain ⟨isStrategy, isKey⟩ := validateSpawnOptions_ok validated
  have isBudget : maxAttempts.map jsonInteger =
      config.maxAttempts.map (fun maxAttempts => jsonInteger maxAttempts.toNat) ∧
      ∀ maxAttempts ∈ config.maxAttempts,
        1 ≤ maxAttempts.toNat ∧ maxAttempts.toNat ≤ i32Max := by
    rcases option_mapM_ok.mp budget with ⟨isNone, rfl⟩ | ⟨value, converted, isSome, isOk, rfl⟩
    · rw [isNone]
      exact ⟨rfl, by simp⟩
    · obtain ⟨rfl, bounds⟩ := databasePositiveI32_ok.mp isOk
      rw [isSome]
      exact ⟨rfl, by simpa using bounds⟩
  have isPolicy : cancellation.bind nonemptyObject =
      config.cancellation.bind (fun policy => nonemptyObject policy.fields) ∧
      ∀ policy ∈ config.cancellation, policy.Fits := by
    rcases option_mapM_ok.mp policy with ⟨isNone, rfl⟩ | ⟨value, converted, isSome, isOk, rfl⟩
    · rw [isNone]
      exact ⟨rfl, by simp⟩
    · obtain ⟨rfl, fits⟩ := cancellationFields_ok.mp isOk
      rw [isSome]
      exact ⟨rfl, by simpa using fits⟩
  refine ⟨⟨isBudget.2, isStrategy, isPolicy.2, isKey⟩, retryStrategy, strategy, ?_⟩
  rw [← Except.ok.inj returned, isBudget.1, isPolicy.1]
  rfl

/-! ## Rejected options -/

/-- The error reports an invalid option. -/
def Error.IsInvalidOption (error : Error) : Prop := ∃ text, error = .invalidOptions text

/-- A computation that fails with invalid options only. -/
abbrev OnlyInvalid {α : Type} (outcome : Except Error α) : Prop :=
  OnlyRaises Error.IsInvalidOption outcome

theorem onlyInvalid_error {α : Type} (text : String) :
    OnlyInvalid (.error (.invalidOptions text) : Except Error α) :=
  onlyRaises_error ⟨text, rfl⟩

theorem onlyInvalid_mapM {α β : Type} {convert : α → Except Error β}
    (each : ∀ value, OnlyInvalid (convert value)) (given : Option α) :
    OnlyInvalid (given.mapM convert) := by
  cases given with
  | none => exact onlyRaises_ok none
  | some value =>
      intro error failed
      cases converted : convert value with
      | error other =>
          rw [Option.mapM_some, converted] at failed
          cases failed
          exact each value _ converted
      | ok other =>
          rw [Option.mapM_some, converted] at failed
          cases failed

theorem onlyInvalid_validateRetryStrategy (strategy : RetryStrategy) :
    OnlyInvalid (validateRetryStrategy strategy) := by
  have delays : ∀ delay label, OnlyInvalid (validateRetryDelay delay label) := by
    intro delay label
    unfold validateRetryDelay
    split
    · exact onlyInvalid_error _
    · exact onlyRaises_ok ()
  cases strategy with
  | none => exact onlyRaises_ok ()
  | fixed delay => exact delays delay _
  | exponential initialDelay factor maxDelay =>
      refine onlyRaises_bind (delays initialDelay _) fun _ _ => ?_
      refine onlyRaises_guard ⟨_, rfl⟩ ?_
      cases maxDelay with
      | none => exact onlyRaises_ok ()
      | some delay => exact delays delay _

theorem onlyInvalid_validateSpawnOptions (config : SpawnConfig) :
    OnlyInvalid (validateSpawnOptions config) := by
  obtain ⟨maxAttempts, strategy, headers, cancellation, key⟩ := config
  have keyed : ∀ key, OnlyInvalid (validateIdempotencyKey key) := by
    intro key
    unfold validateIdempotencyKey
    split
    · exact onlyInvalid_error _
    · split
      · exact onlyInvalid_error _
      · exact onlyRaises_ok ()
  refine onlyRaises_guard ⟨_, rfl⟩ ?_
  rcases strategy with _ | strategy
  · rcases key with _ | key
    · exact onlyRaises_ok ()
    · exact keyed key
  · refine onlyRaises_bind (onlyInvalid_validateRetryStrategy strategy) fun _ _ => ?_
    rcases key with _ | key
    · exact onlyRaises_ok ()
    · exact keyed key

theorem onlyInvalid_normalizeSpawnOptions (config : SpawnConfig) :
    OnlyInvalid (normalizeSpawnOptions print config) := by
  have seconds : ∀ duration label, OnlyInvalid (durationSecondsI64 duration label) := by
    intro duration label
    unfold durationSecondsI64
    dsimp only
    rw [← Duration.ceiling]
    generalize duration.ceiling = seconds
    split
    · split
      · exact onlyRaises_ok seconds
      · exact onlyInvalid_error _
    · exact onlyInvalid_error _
  refine onlyRaises_bind (onlyInvalid_validateSpawnOptions config) fun _ _ =>
    onlyRaises_bind (onlyInvalid_mapM ?_ _) fun maxAttempts _ =>
      onlyRaises_bind (onlyInvalid_mapM ?_ _) fun retryStrategy _ =>
        onlyRaises_bind (onlyInvalid_mapM ?_ _) fun cancellation _ => onlyRaises_ok _
  · intro value
    unfold databasePositiveI32
    split
    · exact onlyInvalid_error _
    · split
      · exact onlyRaises_ok _
      · exact onlyInvalid_error _
  · intro strategy
    exact onlyRaises_bind (onlyInvalid_validateRetryStrategy strategy) fun _ _ => onlyRaises_ok _
  · intro policy
    exact onlyRaises_bind (onlyInvalid_mapM (fun duration => seconds duration _) _) fun _ _ =>
      onlyRaises_bind (onlyInvalid_mapM (fun duration => seconds duration _) _) fun _ _ =>
        onlyRaises_ok _

/-- Options that are not accepted are rejected as invalid. -/
theorem normalizeSpawnOptions_rejects {config : SpawnConfig} (refused : ¬config.Accepted) :
    ∃ text, normalizeSpawnOptions print config = .error (.invalidOptions text) := by
  cases normalized : normalizeSpawnOptions print config with
  | ok payload => exact absurd (normalizeSpawnOptions_ok normalized).1 refused
  | error error =>
      obtain ⟨text, rfl⟩ := onlyInvalid_normalizeSpawnOptions config error normalized
      exact ⟨text, rfl⟩

/-- The delays of a strategy. -/
def RetryStrategy.delays : RetryStrategy → List Duration
  | .fixed delay => [delay]
  | .exponential initialDelay _ maxDelay => initialDelay :: maxDelay.toList
  | .none => []

/-- The delays of an accepted strategy exceed the largest one by less than a
microsecond, which the rounding to a double may take away. -/
theorem Duration.IsDelay.exact_lt {delay : Duration} (isDelay : delay.IsDelay) :
    delay.exact < maximumDelaySeconds + 1 / 1000000 := by
  obtain ⟨double, isDouble, _, most⟩ := isDelay
  obtain ⟨fractionNonneg, fractionLess⟩ := delay.fraction_bounds
  have isValue := Binary64.nearest_finite isDouble
  have isStep : IsDouble (1 / 2 ^ 20 : Rat) := ⟨1, -20, by decide, by decide, by norm_num⟩
  have isDoubleBeyond : IsDouble ((maxDatabaseDelaySeconds : Rat) + 1 / 2 ^ 20) :=
    ⟨maxDatabaseDelaySeconds * 2 ^ 20 + 1, -20, by decide, by decide, by
      norm_num [maxDatabaseDelaySeconds, i32Max]⟩
  by_contra large
  have beyond : (maxDatabaseDelaySeconds : Rat) + 1 / 2 ^ 20 ≤
      roundToDouble delay.seconds.toNat + roundToDouble (delay.nanoseconds.val / 1000000000) := by
    unfold exact maximumDelaySeconds at large
    rcases lt_or_ge maxDatabaseDelaySeconds delay.seconds.toNat with more | atMost
    · have above : ((maxDatabaseDelaySeconds + 1 : Nat) : Rat) ≤ delay.seconds.toNat := by
        exact_mod_cast more
      have seconds := roundToDouble_mono (Nat.cast_nonneg _) above
      rw [roundToDouble_of_isDouble (isDouble_natCast (by decide))] at seconds
      have fraction := roundToDouble_nonneg fractionNonneg
      push_cast at seconds
      linarith
    · have atLeast : maxDatabaseDelaySeconds < delay.seconds.toNat + 1 := by
        have less : (maxDatabaseDelaySeconds : Rat) < delay.seconds.toNat + 1 := by
          norm_num [maxDatabaseDelaySeconds, i32Max]
          linarith
        exact_mod_cast less
      have isMax : (delay.seconds.toNat : Rat) = maxDatabaseDelaySeconds := by
        rw [show delay.seconds.toNat = maxDatabaseDelaySeconds by omega]
      have step : (1 / 2 ^ 20 : Rat) ≤ delay.nanoseconds.val / 1000000000 := by
        rw [isMax] at large
        norm_num [maxDatabaseDelaySeconds, i32Max] at large ⊢
        linarith
      have fraction := roundToDouble_mono (by positivity) step
      rw [roundToDouble_of_isDouble isStep] at fraction
      rw [isMax, roundToDouble_of_isDouble (isDouble_natCast (by decide))]
      linarith
  have rounded := roundToDouble_mono (by positivity) beyond
  rw [isValue, roundToDouble_of_isDouble isDoubleBeyond] at rounded
  have gap : (0 : Rat) < 1 / 2 ^ 20 := by positivity
  linarith

theorem RetryStrategy.Accepted.isDelay {strategy : RetryStrategy} (accepted : strategy.Accepted) :
    ∀ delay ∈ strategy.delays, delay.IsDelay := by
  intro delay member
  cases accepted with
  | none => cases member
  | fixed isDelay => exact List.mem_singleton.mp member ▸ isDelay
  | exponential isDelay _ maxIsDelay =>
      rcases List.mem_cons.mp member with isInitial | isMax
      · exact isInitial ▸ isDelay
      · exact maxIsDelay delay (Option.mem_toList.mp isMax)

end Steda
