import Steda.RetryStrategy

/-!
# Retry delays

A retry strategy is accepted exactly when it has one of the three canonical
shapes, and an accepted strategy has a bounded delay for every attempt.  The
exponential delays move in one direction as long as the growing power does not
leave the range of double precision at the small end.
-/

namespace Steda

open Postgres

/-! ## Canonical strategies -/

/-- The value fits double precision: it neither overflows nor underflows. -/
def FitsDouble (value : Rat) : Prop :=
  |value| ≤ maxDouble ∧ (value ≠ 0 → minDouble < |value|)

/-- The strategy has a number under the key, of a value that fits double
precision. -/
def HasNumber (strategy : Json) (key : String) (value : Rat) : Prop :=
  ∃ number, strategy.field? key = some (.number number) ∧ number.value = value ∧
    FitsDouble value

/-- A number of seconds within the bounds of a delay. -/
def DelayBounds (seconds : Rat) : Prop :=
  0 ≤ seconds ∧ seconds ≤ maximumDelaySeconds

/-- The canonical shapes of a retry strategy. -/
inductive CanonicalStrategy (strategy : Json) : Prop
  | none
      (kind : strategy.field? "kind" = some (.string "none"))
      (keys : ∀ key ∈ strategy.keys, key ∈ ["kind"])
  | fixed (base : Rat)
      (kind : strategy.field? "kind" = some (.string "fixed"))
      (keys : ∀ key ∈ strategy.keys, key ∈ ["kind", "baseSeconds"])
      (hasBase : HasNumber strategy "baseSeconds" base)
      (baseBounds : DelayBounds base)
  | exponential (base factor : Rat)
      (kind : strategy.field? "kind" = some (.string "exponential"))
      (keys : ∀ key ∈ strategy.keys, key ∈ ["kind", "baseSeconds", "factor", "maxSeconds"])
      (hasBase : HasNumber strategy "baseSeconds" base)
      (baseBounds : DelayBounds base)
      (hasFactor : HasNumber strategy "factor" factor)
      (factorPositive : 0 < factor)
      (maximum : strategy.hasKey "maxSeconds" = true →
        ∃ maxSeconds, HasNumber strategy "maxSeconds" maxSeconds ∧ DelayBounds maxSeconds)

/-! ## The checks -/

theorem toDouble_eq_some {value result : Rat} :
    toDouble value = some result ↔ result = value ∧ FitsDouble value := by
  unfold toDouble FitsDouble
  split
  · rename_i large
    exact iff_of_false (by simp) fun fits => absurd fits.2.1 (not_le.mpr large)
  · rename_i small
    split
    · rename_i tiny
      exact iff_of_false (by simp) fun fits => absurd (fits.2.2 tiny.1) (not_lt.mpr tiny.2)
    · rename_i representable
      rw [Option.some.injEq, eq_comm, and_iff_left]
      exact ⟨not_lt.mp small, fun nonzero => not_le.mp fun tiny => representable ⟨nonzero, tiny⟩⟩

theorem toDouble_eq_none {value : Rat} : toDouble value = none ↔ ¬FitsDouble value := by
  rw [Option.eq_none_iff_forall_ne_some]
  constructor
  · exact fun failed fits => failed value (toDouble_eq_some.mpr ⟨rfl, fits⟩)
  · exact fun outside result converted => outside (toDouble_eq_some.mp converted).2

theorem number?_eq_some {value : Option Json} {number : Numeric} :
    value.bind Json.number? = some number ↔ value = some (.number number) := by
  rcases value with _ | value
  · simp
  · cases value <;> simp [Json.number?]

theorem string?_eq_some {value : Option Json} {text : String} :
    value.bind Json.string? = some text ↔ value = some (.string text) := by
  rcases value with _ | value
  · simp
  · cases value <;> simp [Json.string?]

theorem doubleOfNumber_ok {number : Numeric} {value : Rat} :
    doubleOfNumber number = .ok value ↔ number.value = value ∧ FitsDouble value := by
  unfold doubleOfNumber
  split
  · rename_i result converted
    obtain ⟨rfl, fits⟩ := toDouble_eq_some.mp converted
    rw [Except.ok.injEq]
    exact ⟨fun same => ⟨same, same ▸ fits⟩, fun same => same.1⟩
  · rename_i outside
    refine iff_of_false (by simp) ?_
    rintro ⟨rfl, fits⟩
    exact toDouble_eq_none.mp outside fits

theorem doubleField_ok {strategy : Json} {key : String} {notNumber : SqlError} {value : Rat} :
    doubleField strategy key notNumber = .ok value ↔ HasNumber strategy key value := by
  unfold doubleField HasNumber
  split
  · rename_i number found
    rw [doubleOfNumber_ok, number?_eq_some.mp found]
    constructor
    · exact fun converted => ⟨number, rfl, converted⟩
    · rintro ⟨other, same, converted⟩
      cases same
      exact converted
  · rename_i missing
    refine iff_of_false (by simp) ?_
    rintro ⟨number, isNumber, _⟩
    rw [number?_eq_some.mpr isNumber] at missing
    cases missing

theorem HasNumber.hasKey {strategy : Json} {key : String} {value : Rat}
    (number : HasNumber strategy key value) : strategy.hasKey key = true := by
  obtain ⟨_, isNumber, _⟩ := number
  rw [Json.hasKey, isNumber]
  rfl

theorem HasNumber.unique {strategy : Json} {key : String} {left right : Rat}
    (first : HasNumber strategy key left) (second : HasNumber strategy key right) :
    left = right := by
  obtain ⟨number, isNumber, rfl, _⟩ := first
  obtain ⟨other, isOther, rfl, _⟩ := second
  cases isNumber.symm.trans isOther
  rfl

theorem HasNumber.number? {strategy : Json} {key : String} {value : Rat}
    (number : HasNumber strategy key value) :
    ((strategy.field? key).bind Json.number?).isNone = false := by
  obtain ⟨_, isNumber, _⟩ := number
  rw [isNumber]
  rfl

theorem unknownKey?_eq_none {value : Json} {supported : List String} :
    unknownKey? value supported = none ↔ ∀ key ∈ value.keys, key ∈ supported := by
  simp [unknownKey?]

theorem delayBounds_iff {seconds : Rat} :
    DelayBounds seconds ↔ ¬(seconds < 0 ∨ maximumDelaySeconds < seconds) := by
  rw [not_or, not_lt, not_lt]
  rfl

/-- A fixed strategy is accepted with its base as the delay. -/
theorem fixedDelaySeconds_ok {strategy : Json} {delay : Rat} :
    fixedDelaySeconds strategy = .ok delay ↔
      (∀ key ∈ strategy.keys, key ∈ ["kind", "baseSeconds"]) ∧
        HasNumber strategy "baseSeconds" delay ∧ DelayBounds delay := by
  rw [← unknownKey?_eq_none, fixedDelaySeconds]
  generalize unknownKey? strategy ["kind", "baseSeconds"] = unknown
  cases unknown with
  | some key => exact iff_of_false (by simp [bind, Except.bind, throw, throwThe,
      MonadExceptOf.throw]) (by simp)
  | none =>
      change (do if !strategy.hasKey "baseSeconds" then throw .fixedRequiresBase
                 let base ← doubleField strategy "baseSeconds" .baseNotNumber
                 if base < 0 ∨ maximumDelaySeconds < base then throw .baseOutOfRange
                 return base : Except SqlError Rat) = .ok delay ↔ _
      rw [except_guard_ok, except_bind_ok]
      constructor
      · rintro ⟨_, base, number, checked⟩
        obtain ⟨bounds, returned⟩ := except_guard_ok.mp checked
        cases returned
        exact ⟨rfl, doubleField_ok.mp number, delayBounds_iff.mpr bounds⟩
      · rintro ⟨_, number, bounds⟩
        refine ⟨by simp [number.hasKey], delay, doubleField_ok.mpr number, ?_⟩
        exact except_guard_ok.mpr ⟨delayBounds_iff.mp bounds, rfl⟩

/-- What the checks of an exponential strategy establish. -/
structure ExponentialStrategy (strategy : Json) (parameters : ExponentialParameters) :
    Prop where
  keys : ∀ key ∈ strategy.keys, key ∈ ["kind", "baseSeconds", "factor", "maxSeconds"]
  hasBase : HasNumber strategy "baseSeconds" parameters.base
  baseBounds : DelayBounds parameters.base
  hasFactor : HasNumber strategy "factor" parameters.factor
  factorPositive : 0 < parameters.factor
  maximum : (strategy.hasKey "maxSeconds" = true ∧
      HasNumber strategy "maxSeconds" parameters.maxSeconds) ∨
    (strategy.hasKey "maxSeconds" = false ∧ parameters.maxSeconds = maximumDelaySeconds)
  maxBounds : DelayBounds parameters.maxSeconds

theorem maximumDelaySeconds_bounds : DelayBounds maximumDelaySeconds := by
  unfold DelayBounds maximumDelaySeconds
  norm_num

/-- The range checks of an exponential strategy. -/
theorem exponentialBounds_ok {base factor maxSeconds : Rat}
    {parameters : ExponentialParameters} :
    (do if base < 0 ∨ maximumDelaySeconds < base then throw .baseOutOfRange
        if factor ≤ 0 then throw .factorOutOfRange
        if maxSeconds < 0 ∨ maximumDelaySeconds < maxSeconds then throw .maxOutOfRange
        return { base := base, factor := factor, maxSeconds := maxSeconds } :
      Except SqlError ExponentialParameters) = .ok parameters ↔
    parameters = ⟨base, factor, maxSeconds⟩ ∧ DelayBounds base ∧ 0 < factor ∧
      DelayBounds maxSeconds := by
  rw [except_guard_ok, except_guard_ok, except_guard_ok, ← delayBounds_iff, ← delayBounds_iff,
    not_le]
  constructor
  · rintro ⟨baseBounds, positive, maxBounds, returned⟩
    cases returned
    exact ⟨rfl, baseBounds, positive, maxBounds⟩
  · rintro ⟨rfl, baseBounds, positive, maxBounds⟩
    exact ⟨baseBounds, positive, maxBounds, rfl⟩

theorem exponentialParameters_ok {strategy : Json} {parameters : ExponentialParameters} :
    exponentialParameters strategy = .ok parameters ↔
      ExponentialStrategy strategy parameters := by
  unfold exponentialParameters
  constructor
  · intro accepted
    cases unknown : unknownKey? strategy ["kind", "baseSeconds", "factor", "maxSeconds"] with
    | some key =>
        rw [unknown] at accepted
        cases accepted
    | none =>
        rw [unknown] at accepted
        obtain ⟨_, accepted⟩ := except_guard_ok.mp accepted
        obtain ⟨_, accepted⟩ := except_guard_ok.mp accepted
        obtain ⟨_, accepted⟩ := except_guard_ok.mp accepted
        obtain ⟨_, accepted⟩ := except_guard_ok.mp accepted
        obtain ⟨_, accepted⟩ := except_guard_ok.mp accepted
        obtain ⟨base, hasBase, accepted⟩ := except_bind_ok.mp accepted
        obtain ⟨factor, hasFactor, accepted⟩ := except_bind_ok.mp accepted
        cases present : strategy.hasKey "maxSeconds" with
        | true =>
            simp only [present, if_true] at accepted
            obtain ⟨maxSeconds, hasMax, accepted⟩ := except_bind_ok.mp accepted
            obtain ⟨rfl, baseBounds, positive, maxBounds⟩ := exponentialBounds_ok.mp accepted
            exact ⟨unknownKey?_eq_none.mp unknown, doubleField_ok.mp hasBase, baseBounds,
              doubleField_ok.mp hasFactor, positive, .inl ⟨present, doubleField_ok.mp hasMax⟩,
              maxBounds⟩
        | false =>
            simp only [present, Bool.false_eq_true, if_false] at accepted
            obtain ⟨rfl, baseBounds, positive, maxBounds⟩ := exponentialBounds_ok.mp accepted
            exact ⟨unknownKey?_eq_none.mp unknown, doubleField_ok.mp hasBase, baseBounds,
              doubleField_ok.mp hasFactor, positive, .inr ⟨present, rfl⟩, maxBounds⟩
  · intro shape
    rw [unknownKey?_eq_none.mpr shape.keys]
    refine except_guard_ok.mpr ⟨by simp [shape.hasBase.hasKey], ?_⟩
    refine except_guard_ok.mpr ⟨by simp [shape.hasFactor.hasKey], ?_⟩
    refine except_guard_ok.mpr ⟨by simp [shape.hasBase.number?], ?_⟩
    refine except_guard_ok.mpr ⟨by simp [shape.hasFactor.number?], ?_⟩
    refine except_guard_ok.mpr ⟨?_, ?_⟩
    · rcases shape.maximum with ⟨present, number⟩ | ⟨absent, _⟩
      · simp [number.number?]
      · simp [absent]
    · refine except_bind_ok.mpr ⟨_, doubleField_ok.mpr shape.hasBase, ?_⟩
      refine except_bind_ok.mpr ⟨_, doubleField_ok.mpr shape.hasFactor, ?_⟩
      have bounds := exponentialBounds_ok.mpr
        ⟨rfl, shape.baseBounds, shape.factorPositive, shape.maxBounds⟩
      rcases shape.maximum with ⟨present, number⟩ | ⟨absent, isDefault⟩
      · simp only [present, if_true]
        exact except_bind_ok.mpr ⟨_, doubleField_ok.mpr number, bounds⟩
      · simp only [absent, Bool.false_eq_true, if_false]
        rw [← isDefault] at bounds ⊢
        exact bounds

/-- The delay of an exponential strategy from its parameters. -/
def exponentialSeconds (parameters : ExponentialParameters) (attempt : Nat) : Rat :=
  if parameters.base = 0 ∨ parameters.maxSeconds = 0 then 0
  else exponentialDelay parameters.base parameters.factor parameters.maxSeconds (attempt - 1)

theorem exponentialDelaySeconds_ok {strategy : Json} {attempt : Nat} {delay : Rat} :
    exponentialDelaySeconds strategy attempt = .ok delay ↔
      ∃ parameters, ExponentialStrategy strategy parameters ∧
        delay = exponentialSeconds parameters attempt := by
  unfold exponentialDelaySeconds
  rw [except_bind_ok]
  refine exists_congr fun parameters => and_congr exponentialParameters_ok ?_
  unfold exponentialSeconds
  split <;> simp [pure, Except.pure, eq_comm]

/-- The delay of a strategy, by its kind. -/
theorem retryDelaySeconds_ok {strategy : Json} {attempt : Nat} {delay : Rat}
    (numbered : 1 ≤ attempt) :
    retryDelaySeconds strategy attempt = .ok delay ↔
      (strategy.field? "kind" = some (.string "none") ∧
        (∀ key ∈ strategy.keys, key ∈ ["kind"]) ∧ delay = 0) ∨
      (strategy.field? "kind" = some (.string "fixed") ∧
        (∀ key ∈ strategy.keys, key ∈ ["kind", "baseSeconds"]) ∧
        HasNumber strategy "baseSeconds" delay ∧ DelayBounds delay) ∨
      (strategy.field? "kind" = some (.string "exponential") ∧
        ∃ parameters, ExponentialStrategy strategy parameters ∧
          delay = exponentialSeconds parameters attempt) := by
  rw [← fixedDelaySeconds_ok, ← exponentialDelaySeconds_ok]
  unfold retryDelaySeconds
  rw [except_guard_ok, except_guard_ok]
  cases found : (strategy.field? "kind").bind Json.string? with
  | none =>
      have other : ∀ kind, strategy.field? "kind" ≠ some (.string kind) := by
        intro kind same
        rw [string?_eq_some.mpr same] at found
        cases found
      refine iff_of_false ?_ ?_
      · rintro ⟨_, _, impossible⟩
        cases impossible
      · rintro (⟨same, _⟩ | ⟨same, _⟩ | ⟨same, _⟩) <;> exact other _ same
  | some kind =>
      have isKind := string?_eq_some.mp found
      have object : ¬(!strategy.isObject) = true := by
        cases strategy <;> simp [Json.field?] at isKind
        simp [Json.isObject]
      simp only [isKind, object, not_lt.mpr numbered, not_false_eq_true, true_and,
        Option.some.injEq, Json.string.injEq, except_guard_ok]
      by_cases isNone : kind = "none"
      · subst isNone
        simp only [if_true]
        rw [← unknownKey?_eq_none]
        generalize unknownKey? strategy ["kind"] = unknown
        cases unknown with
        | some key =>
            simp [bind, Except.bind, throw, throwThe, MonadExceptOf.throw]
        | none => simp [pure, Except.pure, eq_comm]
      · by_cases isFixed : kind = "fixed"
        · subst isFixed
          simp
        · by_cases isExponential : kind = "exponential"
          · subst isExponential
            simp
          · simp [isNone, isFixed, isExponential, throw, throwThe, MonadExceptOf.throw]

/-! ## Every attempt has a delay -/

theorem exponentialDelay_le (base factor maxSeconds : Rat) (exponent : Nat) :
    exponentialDelay base factor maxSeconds exponent ≤ maxSeconds := by
  unfold exponentialDelay
  split
  · exact le_rfl
  · split
    · exact le_rfl
    · exact min_le_right _ _

theorem ExponentialStrategy.seconds_bounds {strategy : Json}
    {parameters : ExponentialParameters} (shape : ExponentialStrategy strategy parameters)
    (attempt : Nat) :
    0 ≤ exponentialSeconds parameters attempt ∧
      exponentialSeconds parameters attempt ≤ parameters.maxSeconds := by
  unfold exponentialSeconds
  split
  · exact ⟨le_rfl, shape.maxBounds.1⟩
  · exact ⟨exponentialDelay_nonneg shape.baseBounds.1 shape.factorPositive shape.maxBounds.1 _,
      exponentialDelay_le _ _ _ _⟩

/-- The checks pass for the canonical shapes, and for no other value. -/
theorem retryDelaySeconds_canonical (strategy : Json) :
    (∃ delay, retryDelaySeconds strategy 1 = .ok delay) ↔ CanonicalStrategy strategy := by
  simp only [retryDelaySeconds_ok le_rfl]
  constructor
  · rintro ⟨delay, ⟨kind, keys, _⟩ | ⟨kind, keys, hasBase, bounds⟩ | ⟨kind, parameters, shape, _⟩⟩
    · exact .none kind keys
    · exact .fixed delay kind keys hasBase bounds
    · refine .exponential parameters.base parameters.factor kind shape.keys shape.hasBase
        shape.baseBounds shape.hasFactor shape.factorPositive fun present => ?_
      rcases shape.maximum with ⟨_, number⟩ | ⟨absent, _⟩
      · exact ⟨parameters.maxSeconds, number, shape.maxBounds⟩
      · rw [absent] at present
        cases present
  · intro canonical
    cases canonical with
    | none kind keys => exact ⟨0, .inl ⟨kind, keys, rfl⟩⟩
    | fixed base kind keys hasBase baseBounds =>
        exact ⟨base, .inr (.inl ⟨kind, keys, hasBase, baseBounds⟩)⟩
    | exponential base factor kind keys hasBase baseBounds hasFactor factorPositive maximum =>
        cases present : strategy.hasKey "maxSeconds" with
        | true =>
            obtain ⟨maxSeconds, hasMax, maxBounds⟩ := maximum present
            exact ⟨_, .inr (.inr ⟨kind, ⟨base, factor, maxSeconds⟩,
              ⟨keys, hasBase, baseBounds, hasFactor, factorPositive, .inl ⟨present, hasMax⟩,
                maxBounds⟩, rfl⟩)⟩
        | false =>
            exact ⟨_, .inr (.inr ⟨kind, ⟨base, factor, maximumDelaySeconds⟩,
              ⟨keys, hasBase, baseBounds, hasFactor, factorPositive, .inr ⟨present, rfl⟩,
                maximumDelaySeconds_bounds⟩, rfl⟩)⟩

/-! ## Numbers of a strategy -/

theorem maxDouble_large : maximumDelaySeconds ≤ maxDouble := by
  have enough : maximumDelaySeconds ≤ 2 ^ 53 - 1 := by
    unfold maximumDelaySeconds
    norm_num
  refine enough.trans (le_mul_of_one_le_right ?_ (one_le_pow₀ one_le_two))
  norm_num

theorem minDouble_pos : 0 < minDouble := by
  unfold minDouble
  positivity

theorem minDouble_lt_one : minDouble < 1 := by
  unfold minDouble
  rw [div_lt_one (by positivity)]
  exact one_lt_pow₀ one_lt_two (by decide)

theorem fitsDouble_of_pos {value : Rat} (positive : 0 < value) :
    FitsDouble value ↔ value ≤ maxDouble ∧ minDouble < value := by
  unfold FitsDouble
  rw [abs_of_pos positive]
  exact and_congr_right fun _ => ⟨fun fits => fits positive.ne', fun fits _ => fits⟩

/-- A number read from its field. -/
theorem hasNumber_of_field {strategy : Json} {key : String} {number : Numeric} {value : Rat}
    (isNumber : strategy.field? key = some (.number number)) (isValue : number.value = value)
    (positive : minDouble < value) (most : value ≤ maximumDelaySeconds) :
    HasNumber strategy key value := by
  refine ⟨number, isNumber, isValue, ?_⟩
  exact (fitsDouble_of_pos (minDouble_pos.trans positive)).mpr
    ⟨most.trans maxDouble_large, positive⟩

theorem defaultRetryStrategy_shape :
    ExponentialStrategy defaultRetryStrategy ⟨30, 2, 3600⟩ := by
  have above : ∀ value : Rat, 1 ≤ value → minDouble < value := fun _ atLeast =>
    minDouble_lt_one.trans_le atLeast
  refine ⟨by decide, hasNumber_of_field rfl (by norm_num [Numeric.value])
      (above _ (by norm_num)) (by norm_num [maximumDelaySeconds]),
    by norm_num [DelayBounds, maximumDelaySeconds],
    hasNumber_of_field rfl (by norm_num [Numeric.value])
      (above _ (by norm_num)) (by norm_num [maximumDelaySeconds]), by norm_num,
    .inl ⟨by decide, hasNumber_of_field rfl (by norm_num [Numeric.value])
      (above _ (by norm_num)) (by norm_num [maximumDelaySeconds])⟩,
    by norm_num [DelayBounds, maximumDelaySeconds]⟩

theorem defaultRetryStrategy_accepted : retryDelaySeconds defaultRetryStrategy 1 = .ok 30 := by
  decide +kernel

/-! ## The law -/

/-- A strategy that passes its check at submission has a delay for every
attempt an integer column can hold, and the check passes for the canonical
shapes only. -/
theorem retryDelaySeconds_everyAttempt (strategy : Json) :
    (∀ first, retryDelaySeconds strategy 1 = .ok first →
      ∀ attempt, 1 ≤ attempt → attempt ≤ maxInteger →
        ∃ delay, retryDelaySeconds strategy attempt = .ok delay ∧ DelayBounds delay ∧
          (strategy.field? "kind" = some (.string "none") → delay = 0) ∧
          (strategy.field? "kind" = some (.string "fixed") →
            HasNumber strategy "baseSeconds" delay) ∧
          (strategy.field? "kind" = some (.string "exponential") →
            ∀ maxSeconds, HasNumber strategy "maxSeconds" maxSeconds → delay ≤ maxSeconds)) ∧
      ((∃ first, retryDelaySeconds strategy 1 = .ok first) ↔ CanonicalStrategy strategy) := by
  refine ⟨?_, retryDelaySeconds_canonical strategy⟩
  intro first accepted attempt numbered _
  simp only [retryDelaySeconds_ok numbered]
  rcases (retryDelaySeconds_ok le_rfl).mp accepted with
    ⟨kind, keys, rfl⟩ | ⟨kind, keys, hasBase, bounds⟩ | ⟨kind, parameters, shape, _⟩
  · refine ⟨0, .inl ⟨kind, keys, rfl⟩, ⟨le_rfl, maximumDelaySeconds_bounds.1⟩, fun _ => rfl, ?_, ?_⟩
    · exact fun fixed => by simp [kind] at fixed
    · exact fun exponential => by simp [kind] at exponential
  · refine ⟨first, .inr (.inl ⟨kind, keys, hasBase, bounds⟩), bounds, ?_, fun _ => hasBase, ?_⟩
    · exact fun none => by simp [kind] at none
    · exact fun exponential => by simp [kind] at exponential
  · obtain ⟨nonneg, most⟩ := shape.seconds_bounds attempt
    refine ⟨exponentialSeconds parameters attempt, .inr (.inr ⟨kind, parameters, shape, rfl⟩),
      ⟨nonneg, most.trans shape.maxBounds.2⟩, ?_, ?_, ?_⟩
    · exact fun none => by simp [kind] at none
    · exact fun fixed => by simp [kind] at fixed
    · intro _ maxSeconds hasMax
      rcases shape.maximum with ⟨_, number⟩ | ⟨absent, _⟩
      · rwa [hasMax.unique number]
      · rw [hasMax.hasKey] at absent
        cases absent

/-- The default strategy waits at most an hour before any attempt. -/
theorem retryDelaySeconds_everyAttempt_default :
    CanonicalStrategy defaultRetryStrategy ∧
      ∀ attempt, 1 ≤ attempt → attempt ≤ maxInteger →
        ∃ delay, retryDelaySeconds defaultRetryStrategy attempt = .ok delay ∧ 0 ≤ delay ∧
          delay ≤ 3600 := by
  obtain ⟨delays, canonical⟩ := retryDelaySeconds_everyAttempt defaultRetryStrategy
  refine ⟨canonical.mp ⟨30, defaultRetryStrategy_accepted⟩, fun attempt first last => ?_⟩
  obtain ⟨delay, returned, bounds, _, _, most⟩ :=
    delays 30 defaultRetryStrategy_accepted attempt first last
  rcases defaultRetryStrategy_shape.maximum with ⟨_, hour⟩ | ⟨_, impossible⟩
  · exact ⟨delay, returned, bounds.1, most rfl 3600 hour⟩
  · norm_num [maximumDelaySeconds] at impossible

/-! ## The direction of exponential delays -/

/-- The delay while neither the power nor the product leaves the range. -/
theorem exponentialDelay_of_fits {base factor maxSeconds : Rat} {exponent : Nat}
    (power : FitsDouble (factor ^ exponent)) (product : FitsDouble (base * factor ^ exponent)) :
    exponentialDelay base factor maxSeconds exponent =
      min (base * factor ^ exponent) maxSeconds := by
  unfold exponentialDelay
  simp only [toDouble_eq_some.mpr ⟨rfl, power⟩, toDouble_eq_some.mpr ⟨rfl, product⟩]

/-- The delay once the power or the product leaves the range. -/
theorem exponentialDelay_of_leaves {base factor maxSeconds : Rat} {exponent : Nat}
    (leaves : ¬(FitsDouble (factor ^ exponent) ∧ FitsDouble (base * factor ^ exponent))) :
    exponentialDelay base factor maxSeconds exponent = maxSeconds := by
  unfold exponentialDelay
  cases power : toDouble (factor ^ exponent) with
  | none => rfl
  | some result =>
      obtain ⟨rfl, fits⟩ := toDouble_eq_some.mp power
      have product : toDouble (base * factor ^ exponent) = none :=
        toDouble_eq_none.mpr fun other => leaves ⟨fits, other⟩
      simp only [product]

section Direction

variable {base factor maxSeconds : Rat} (basePositive : 0 < base) (baseFits : FitsDouble base)
include basePositive baseFits

/-- A factor of at least one never makes a delay shorter. -/
theorem exponentialDelay_le_succ (growing : 1 ≤ factor) (exponent : Nat) :
    exponentialDelay base factor maxSeconds exponent ≤
      exponentialDelay base factor maxSeconds (exponent + 1) := by
  have factorPositive : 0 < factor := one_pos.trans_le growing
  by_cases later : FitsDouble (factor ^ (exponent + 1)) ∧
      FitsDouble (base * factor ^ (exponent + 1))
  · have powerLe : factor ^ exponent ≤ factor ^ (exponent + 1) :=
      pow_le_pow_right₀ growing (Nat.le_succ _)
    have productLe : base * factor ^ exponent ≤ base * factor ^ (exponent + 1) :=
      mul_le_mul_of_nonneg_left powerLe basePositive.le
    have atLeast : base ≤ base * factor ^ exponent :=
      le_mul_of_one_le_right basePositive.le (one_le_pow₀ growing)
    have power : FitsDouble (factor ^ exponent) := by
      rw [fitsDouble_of_pos (by positivity)] at later ⊢
      exact ⟨powerLe.trans later.1.1, minDouble_lt_one.trans_le (one_le_pow₀ growing)⟩
    have product : FitsDouble (base * factor ^ exponent) := by
      have small := ((fitsDouble_of_pos (by positivity)).mp later.2).1
      rw [fitsDouble_of_pos basePositive] at baseFits
      exact (fitsDouble_of_pos (by positivity)).mpr
        ⟨productLe.trans small, baseFits.2.trans_le atLeast⟩
    rw [exponentialDelay_of_fits power product, exponentialDelay_of_fits later.1 later.2]
    exact min_le_min_right _ productLe
  · rw [exponentialDelay_of_leaves later]
    exact exponentialDelay_le _ _ _ _

/-- A shrinking power that leaves the range does so at its small end, and stays
outside. -/
theorem fits_of_fits_succ (factorPositive : 0 < factor) (shrinking : factor ≤ 1)
    {exponent : Nat}
    (later : FitsDouble (factor ^ (exponent + 1)) ∧ FitsDouble (base * factor ^ (exponent + 1))) :
    FitsDouble (factor ^ exponent) ∧ FitsDouble (base * factor ^ exponent) := by
  have powerLe : factor ^ (exponent + 1) ≤ factor ^ exponent :=
    pow_le_pow_of_le_one factorPositive.le shrinking (Nat.le_succ _)
  have powerMost : factor ^ exponent ≤ 1 := pow_le_one₀ factorPositive.le shrinking
  have productLe : base * factor ^ (exponent + 1) ≤ base * factor ^ exponent :=
    mul_le_mul_of_nonneg_left powerLe basePositive.le
  have productMost : base * factor ^ exponent ≤ base :=
    mul_le_of_le_one_right basePositive.le powerMost
  rw [fitsDouble_of_pos basePositive] at baseFits
  rw [fitsDouble_of_pos (by positivity), fitsDouble_of_pos (by positivity)] at later ⊢
  have oneMost : (1 : Rat) ≤ maxDouble := by
    refine le_trans ?_ maxDouble_large
    unfold maximumDelaySeconds
    norm_num
  exact ⟨⟨powerMost.trans oneMost, later.1.2.trans_le powerLe⟩,
    productMost.trans baseFits.1, later.2.2.trans_le productLe⟩

/-- As long as a shrinking power stays in range, the delays shrink below the
base. -/
theorem exponentialDelay_succ_le (factorPositive : 0 < factor) (shrinking : factor ≤ 1)
    {exponent : Nat}
    (later : FitsDouble (factor ^ (exponent + 1)) ∧ FitsDouble (base * factor ^ (exponent + 1))) :
    exponentialDelay base factor maxSeconds (exponent + 1) ≤
        exponentialDelay base factor maxSeconds exponent ∧
      exponentialDelay base factor maxSeconds exponent ≤ base := by
  have earlier := fits_of_fits_succ basePositive baseFits factorPositive shrinking later
  rw [exponentialDelay_of_fits earlier.1 earlier.2, exponentialDelay_of_fits later.1 later.2]
  have powerLe : factor ^ (exponent + 1) ≤ factor ^ exponent :=
    pow_le_pow_of_le_one factorPositive.le shrinking (Nat.le_succ _)
  refine ⟨min_le_min_right _ (mul_le_mul_of_nonneg_left powerLe basePositive.le), ?_⟩
  exact (min_le_left _ _).trans
    (mul_le_of_le_one_right basePositive.le (pow_le_one₀ factorPositive.le shrinking))

end Direction

/-- The power or the product of an attempt leaves the range of double
precision. -/
def ExponentialParameters.Leaves (parameters : ExponentialParameters) (exponent : Nat) : Prop :=
  ¬(FitsDouble (parameters.factor ^ exponent) ∧
    FitsDouble (parameters.base * parameters.factor ^ exponent))

/-- A shrinking strategy does not underflow at any attempt, or its maximum is no
more than the last product before it does. -/
def ExponentialParameters.Settled (parameters : ExponentialParameters) : Prop :=
  parameters.base = 0 ∨ parameters.maxSeconds = 0 ∨ 1 ≤ parameters.factor ∨
    ∀ exponent, exponent + 1 < maxInteger → ¬parameters.Leaves exponent →
      parameters.Leaves (exponent + 1) →
        parameters.maxSeconds ≤ parameters.base * parameters.factor ^ exponent

/-- The delays of consecutive attempts do not shrink when the factor is at least
one, and do not grow, nor exceed the base, when it is at most one. -/
def MovesOneWay (strategy : Json) (parameters : ExponentialParameters) : Prop :=
  ∀ attempt, 1 ≤ attempt → attempt < maxInteger →
    ∃ earlier later, retryDelaySeconds strategy attempt = .ok earlier ∧
      retryDelaySeconds strategy (attempt + 1) = .ok later ∧
      (1 ≤ parameters.factor → earlier ≤ later) ∧
      (parameters.factor ≤ 1 →
        later ≤ earlier ∧ earlier ≤ parameters.base ∧ later ≤ parameters.base)

theorem ExponentialStrategy.retryDelaySeconds {strategy : Json}
    {parameters : ExponentialParameters} (shape : ExponentialStrategy strategy parameters)
    (kind : strategy.field? "kind" = some (.string "exponential")) {attempt : Nat}
    (numbered : 1 ≤ attempt) :
    Steda.retryDelaySeconds strategy attempt = .ok (exponentialSeconds parameters attempt) :=
  (retryDelaySeconds_ok numbered).mpr (.inr (.inr ⟨kind, parameters, shape, rfl⟩))

/-- A power that leaves the range has a last exponent before it does. -/
theorem ExponentialParameters.exists_last {parameters : ExponentialParameters}
    (start : ¬parameters.Leaves 0) :
    ∀ {exponent}, parameters.Leaves exponent →
      ∃ last, last < exponent ∧ ¬parameters.Leaves last ∧ parameters.Leaves (last + 1)
  | 0, leaves => absurd leaves start
  | exponent + 1, leaves => by
      by_cases before : parameters.Leaves exponent
      · obtain ⟨last, earlier, stays, leavesNext⟩ := exists_last start before
        exact ⟨last, earlier.trans (Nat.lt_succ_self _), stays, leavesNext⟩
      · exact ⟨exponent, Nat.lt_succ_self _, before, leaves⟩

section Settled

variable {strategy : Json} {parameters : ExponentialParameters}
  (shape : ExponentialStrategy strategy parameters)
include shape

theorem ExponentialStrategy.baseFits : FitsDouble parameters.base := by
  obtain ⟨_, _, _, fits⟩ := shape.hasBase
  exact fits

omit shape in
theorem ExponentialParameters.stays_zero (baseFits : FitsDouble parameters.base) :
    ¬parameters.Leaves 0 := by
  unfold ExponentialParameters.Leaves
  rw [not_not, pow_zero, mul_one]
  refine ⟨(fitsDouble_of_pos one_pos).mpr ⟨le_trans ?_ maxDouble_large, minDouble_lt_one⟩,
    baseFits⟩
  unfold maximumDelaySeconds
  norm_num

/-- Under a settled strategy a factor of at most one never makes a delay longer
nor longer than the base. -/
theorem ExponentialStrategy.shrinks (settled : parameters.Settled)
    (basePositive : 0 < parameters.base) (maxPositive : 0 < parameters.maxSeconds)
    (shrinking : parameters.factor ≤ 1) {exponent : Nat} (small : exponent + 1 < maxInteger) :
    exponentialDelay parameters.base parameters.factor parameters.maxSeconds (exponent + 1) ≤
        exponentialDelay parameters.base parameters.factor parameters.maxSeconds exponent ∧
      exponentialDelay parameters.base parameters.factor parameters.maxSeconds exponent ≤
        parameters.base := by
  have baseFits := shape.baseFits
  by_cases later : parameters.Leaves (exponent + 1)
  · have last : ∀ earlier, earlier + 1 < maxInteger → ¬parameters.Leaves earlier →
        parameters.Leaves (earlier + 1) →
          parameters.maxSeconds ≤ parameters.base * parameters.factor ^ earlier := by
      rcases settled with zero | zero | growing | settles
      · exact absurd zero basePositive.ne'
      · exact absurd zero maxPositive.ne'
      · refine absurd ?_ later
        have isOne : parameters.factor = 1 := le_antisymm shrinking growing
        have stays := not_not.mp (ExponentialParameters.stays_zero baseFits)
        rwa [isOne, one_pow] at stays ⊢
      · exact settles
    have below : ∀ earlier, parameters.base * parameters.factor ^ earlier ≤ parameters.base :=
      fun earlier => mul_le_of_le_one_right basePositive.le
        (pow_le_one₀ shape.factorPositive.le shrinking)
    rw [exponentialDelay_of_leaves later]
    by_cases now : parameters.Leaves exponent
    · obtain ⟨first, earlier, stays, leaves⟩ :=
        ExponentialParameters.exists_last (ExponentialParameters.stays_zero baseFits) now
      rw [exponentialDelay_of_leaves now]
      exact ⟨le_rfl, (last first (by omega) stays leaves).trans (below first)⟩
    · have most := last exponent small now later
      obtain ⟨power, product⟩ := not_not.mp now
      rw [exponentialDelay_of_fits power product]
      exact ⟨le_min most le_rfl, (min_le_left _ _).trans (below exponent)⟩
  · exact exponentialDelay_succ_le basePositive baseFits shape.factorPositive shrinking
      (not_not.mp later)

end Settled

/-- The delays of an exponential strategy move in one direction exactly when the
strategy is settled: a factor below one that underflows makes the delay jump to
its maximum. -/
theorem exponential_movesOneWay {strategy : Json} {parameters : ExponentialParameters}
    (kind : strategy.field? "kind" = some (.string "exponential"))
    (accepted : exponentialParameters strategy = .ok parameters) :
    MovesOneWay strategy parameters ↔ parameters.Settled := by
  have shape := exponentialParameters_ok.mp accepted
  have delays : ∀ {attempt}, 1 ≤ attempt →
      retryDelaySeconds strategy attempt = .ok (exponentialSeconds parameters attempt) :=
    shape.retryDelaySeconds kind
  constructor
  · intro moves
    by_cases zero : parameters.base = 0 ∨ parameters.maxSeconds = 0
    · exact zero.elim .inl fun isZero => .inr (.inl isZero)
    · refine .inr (.inr (or_iff_not_imp_left.mpr fun shrinking => ?_))
      intro exponent small stays leaves
      obtain ⟨earlier, later, isEarlier, isLater, _, shrinks⟩ :=
        moves (exponent + 1) (Nat.le_add_left _ _) small
      cases isEarlier.symm.trans (delays (Nat.le_add_left _ _))
      cases isLater.symm.trans (delays (Nat.le_add_left _ _))
      have step := (shrinks (not_le.mp shrinking).le).1
      unfold exponentialSeconds at step
      rw [if_neg zero, if_neg zero, Nat.add_sub_cancel, Nat.add_sub_cancel,
        exponentialDelay_of_leaves leaves] at step
      obtain ⟨power, product⟩ := not_not.mp stays
      rw [exponentialDelay_of_fits power product] at step
      exact step.trans (min_le_left _ _)
  · intro settled attempt numbered small
    refine ⟨_, _, delays numbered, delays (Nat.le_add_left _ _), ?_⟩
    by_cases zero : parameters.base = 0 ∨ parameters.maxSeconds = 0
    · unfold exponentialSeconds
      rw [if_pos zero, if_pos zero]
      exact ⟨fun _ => le_rfl, fun _ => ⟨le_rfl, shape.baseBounds.1, shape.baseBounds.1⟩⟩
    · obtain ⟨exponent, rfl⟩ := Nat.exists_eq_add_of_le' numbered
      obtain ⟨baseNonzero, maxNonzero⟩ := not_or.mp zero
      have basePositive := lt_of_le_of_ne shape.baseBounds.1 (Ne.symm baseNonzero)
      have maxPositive := lt_of_le_of_ne shape.maxBounds.1 (Ne.symm maxNonzero)
      unfold exponentialSeconds
      rw [if_neg zero, if_neg zero, Nat.add_sub_cancel, Nat.add_sub_cancel]
      refine ⟨fun growing => exponentialDelay_le_succ basePositive shape.baseFits growing _, ?_⟩
      intro shrinking
      obtain ⟨step, below⟩ :=
        shape.shrinks settled basePositive maxPositive shrinking small
      exact ⟨step, below, step.trans below⟩

/-- The default strategy doubles its delay. -/
theorem exponential_movesOneWay_default :
    MovesOneWay defaultRetryStrategy ⟨30, 2, 3600⟩ :=
  (exponential_movesOneWay rfl (exponentialParameters_ok.mpr defaultRetryStrategy_shape)).mpr
    (.inr (.inr (.inl (by norm_num))))

/-- A strategy that halves a delay of one second. -/
def halvingStrategy : Json :=
  .object [("kind", .string "exponential"), ("factor", .number ⟨5, 1⟩),
    ("baseSeconds", .number ⟨1, 0⟩)]

/-- The halving strategy jumps to the maximum delay when the power underflows. -/
theorem exponential_movesOneWay_halving :
    ∃ earlier later,
      exponentialParameters halvingStrategy = .ok ⟨1, 1 / 2, maximumDelaySeconds⟩ ∧
        retryDelaySeconds halvingStrategy 1075 = .ok earlier ∧
        retryDelaySeconds halvingStrategy 1076 = .ok later ∧
        ¬later ≤ earlier ∧ ¬later ≤ 1 := by
  have half : minDouble < 1 / 2 := by
    unfold minDouble
    exact one_div_lt_one_div_of_lt (by norm_num) (lt_self_pow₀ one_lt_two (by decide))
  have shape : ExponentialStrategy halvingStrategy ⟨1, 1 / 2, maximumDelaySeconds⟩ := by
    refine ⟨by decide, hasNumber_of_field rfl (by norm_num [Numeric.value])
        minDouble_lt_one (by norm_num [maximumDelaySeconds]),
      by norm_num [DelayBounds, maximumDelaySeconds],
      hasNumber_of_field rfl (by norm_num [Numeric.value]) half
        (by norm_num [maximumDelaySeconds]), by norm_num, .inr ⟨by decide, rfl⟩,
      maximumDelaySeconds_bounds⟩
  have kind : halvingStrategy.field? "kind" = some (.string "exponential") := rfl
  have nonzero : ¬((1 : Rat) = 0 ∨ maximumDelaySeconds = 0) := by
    norm_num [maximumDelaySeconds]
  have isMin : minDouble = (1 / 2) ^ 1075 := by
    rw [one_div_pow]
    rfl
  have power : FitsDouble ((1 / 2) ^ 1074) := by
    refine (fitsDouble_of_pos (by positivity)).mpr ⟨?_, ?_⟩
    · refine (pow_le_one₀ (by norm_num) (by norm_num)).trans (le_trans ?_ maxDouble_large)
      norm_num [maximumDelaySeconds]
    · rw [isMin]
      exact pow_lt_pow_right_of_lt_one₀ (by norm_num) (by norm_num) (by norm_num)
  have leaves : ¬FitsDouble ((1 / 2) ^ 1075) := by
    rw [fitsDouble_of_pos (by positivity), ← isMin]
    exact fun fits => lt_irrefl _ fits.2
  have delays : ∀ attempt, 1 ≤ attempt → retryDelaySeconds halvingStrategy attempt =
      .ok (exponentialDelay 1 (1 / 2) maximumDelaySeconds (attempt - 1)) := by
    intro attempt numbered
    rw [shape.retryDelaySeconds kind numbered, exponentialSeconds, if_neg nonzero]
  refine ⟨_, _, exponentialParameters_ok.mpr shape, delays 1075 (by norm_num),
    delays 1076 (by norm_num), ?_⟩
  rw [exponentialDelay_of_fits power (by rwa [one_mul]),
    exponentialDelay_of_leaves fun fits => leaves fits.1, one_mul]
  have small : (1 / 2 : Rat) ^ 1074 ≤ 1 := pow_le_one₀ (by norm_num) (by norm_num)
  have large : ¬maximumDelaySeconds ≤ 1 := by norm_num [maximumDelaySeconds]
  exact ⟨fun jumps => large (jumps.trans ((min_le_left _ _).trans small)), large⟩

end Steda
