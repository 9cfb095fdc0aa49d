import Steda.Basic

/-!
# Retry strategies

`steda.retry_delay_seconds` validates a stored strategy and computes the delay
after a failed attempt.  Double precision is modelled by rationals; a range
error inside the exponential formula saturates at the maximum delay, a range
error in a cast rejects the strategy.
-/

namespace Steda

open Postgres

/-- `steda.default_retry_strategy`: exponential from 30 seconds, doubling, at
most one hour. -/
def defaultRetryStrategy : Json :=
  .object
    [("kind", .string "exponential"),
      ("factor", .number ⟨20, 1⟩),
      ("maxSeconds", .number ⟨36000, 1⟩),
      ("baseSeconds", .number ⟨300, 1⟩)]

/-- Upper bound of every delay, in seconds. -/
def maximumDelaySeconds : Rat := 2147483647

/-- First key of an object outside the supported ones. -/
def unknownKey? (value : Json) (supported : List String) : Option String :=
  value.keys.find? fun key => !supported.contains key

/-- Cast of a JSON number to double precision. -/
def doubleOfNumber (number : Numeric) : Except SqlError Rat :=
  match toDouble number.value with
  | some result => .ok result
  | none => .error .invalidNumber

/-- The number under a key, cast to double precision. -/
def doubleField (strategy : Json) (key : String) (notNumber : SqlError) :
    Except SqlError Rat :=
  match (strategy.field? key).bind Json.number? with
  | some number => doubleOfNumber number
  | none => .error notNumber

/-- The exponential formula, saturating at `maxSeconds`. -/
def exponentialDelay (base factor maxSeconds : Rat) (exponent : Nat) : Rat :=
  match toDouble (factor ^ exponent) with
  | none => maxSeconds
  | some power =>
      match toDouble (base * power) with
      | none => maxSeconds
      | some delay => min delay maxSeconds

/-- The branch of a fixed strategy. -/
def fixedDelaySeconds (strategy : Json) : Except SqlError Rat := do
  if let some key := unknownKey? strategy ["kind", "baseSeconds"] then
    throw (.fixedUnknownKey key)
  if !strategy.hasKey "baseSeconds" then throw .fixedRequiresBase
  let base ← doubleField strategy "baseSeconds" .baseNotNumber
  if base < 0 ∨ maximumDelaySeconds < base then throw .baseOutOfRange
  return base

/-- The checked parameters of an exponential strategy. -/
structure ExponentialParameters where
  base : Rat
  factor : Rat
  maxSeconds : Rat

/-- The checks of an exponential strategy. -/
def exponentialParameters (strategy : Json) : Except SqlError ExponentialParameters := do
  if let some key := unknownKey? strategy ["kind", "baseSeconds", "factor", "maxSeconds"] then
    throw (.exponentialUnknownKey key)
  if !strategy.hasKey "baseSeconds" then throw .exponentialRequiresBase
  if !strategy.hasKey "factor" then throw .exponentialRequiresFactor
  if ((strategy.field? "baseSeconds").bind Json.number?).isNone then throw .baseNotNumber
  if ((strategy.field? "factor").bind Json.number?).isNone then throw .factorNotNumber
  if strategy.hasKey "maxSeconds" &&
      ((strategy.field? "maxSeconds").bind Json.number?).isNone then
    throw .maxNotNumber
  let base ← doubleField strategy "baseSeconds" .baseNotNumber
  let factor ← doubleField strategy "factor" .factorNotNumber
  let maxSeconds ←
    if strategy.hasKey "maxSeconds" then doubleField strategy "maxSeconds" .maxNotNumber
    else pure maximumDelaySeconds
  if base < 0 ∨ maximumDelaySeconds < base then throw .baseOutOfRange
  if factor ≤ 0 then throw .factorOutOfRange
  if maxSeconds < 0 ∨ maximumDelaySeconds < maxSeconds then throw .maxOutOfRange
  return { base := base, factor := factor, maxSeconds := maxSeconds }

/-- The branch of an exponential strategy. -/
def exponentialDelaySeconds (strategy : Json) (attempt : Nat) : Except SqlError Rat := do
  let parameters ← exponentialParameters strategy
  if parameters.base = 0 ∨ parameters.maxSeconds = 0 then return 0
  return exponentialDelay parameters.base parameters.factor parameters.maxSeconds (attempt - 1)

/-- `steda.retry_delay_seconds`. -/
def retryDelaySeconds (strategy : Json) (attempt : Nat) : Except SqlError Rat := do
  if !strategy.isObject then throw .strategyNotObject
  if attempt < 1 then throw .attemptTooSmall
  match (strategy.field? "kind").bind Json.string? with
  | none => throw .kindNotString
  | some kind =>
      if kind.toList.all (· == ' ') then throw .kindMissing
      if kind = "none" then
        if let some key := unknownKey? strategy ["kind"] then throw (.noneUnknownKey key)
        return 0
      if kind = "fixed" then fixedDelaySeconds strategy
      else if kind = "exponential" then exponentialDelaySeconds strategy attempt
      else throw (.unsupportedKind kind)

theorem exponentialDelaySeconds_ok_of_ok {strategy : Json} {delay : Rat} {first : Nat}
    (accepted : exponentialDelaySeconds strategy first = .ok delay) (attempt : Nat) :
    ∃ later, exponentialDelaySeconds strategy attempt = .ok later := by
  unfold exponentialDelaySeconds at accepted ⊢
  obtain ⟨parameters, checked, _⟩ := except_bind_ok.mp accepted
  rw [checked]
  by_cases saturated : parameters.base = 0 ∨ parameters.maxSeconds = 0
  · exact ⟨0, by simp [bind, Except.bind, saturated, pure, Except.pure]⟩
  · exact ⟨_, by simp [bind, Except.bind, saturated, pure, Except.pure]; rfl⟩

/-- A strategy accepted for the first attempt has a delay for every attempt. -/
theorem retryDelaySeconds_ok_of_ok {strategy : Json} {delay : Rat} {attempt : Nat}
    (accepted : retryDelaySeconds strategy 1 = .ok delay) (numbered : 1 ≤ attempt) :
    ∃ later, retryDelaySeconds strategy attempt = .ok later := by
  unfold retryDelaySeconds at accepted ⊢
  rw [except_guard_ok, except_guard_ok] at accepted
  simp only [except_guard_ok]
  obtain ⟨object, _, accepted⟩ := accepted
  cases found : (strategy.field? "kind").bind Json.string? with
  | none => simp [found, throw, throwThe, MonadExceptOf.throw] at accepted
  | some kind =>
      simp only [found] at accepted ⊢
      rw [except_guard_ok] at accepted
      simp only [except_guard_ok]
      obtain ⟨named, accepted⟩ := accepted
      by_cases isNone : kind = "none"
      · rw [if_pos isNone] at accepted
        exact ⟨delay, object, not_lt.mpr numbered, named, by rw [if_pos isNone]; exact accepted⟩
      · rw [if_neg isNone] at accepted
        by_cases isFixed : kind = "fixed"
        · rw [if_pos isFixed] at accepted
          exact ⟨delay, object, not_lt.mpr numbered, named,
            by rw [if_neg isNone, if_pos isFixed]; exact accepted⟩
        · rw [if_neg isFixed] at accepted
          by_cases isExponential : kind = "exponential"
          · rw [if_pos isExponential] at accepted
            obtain ⟨later, returned⟩ := exponentialDelaySeconds_ok_of_ok accepted attempt
            exact ⟨later, object, not_lt.mpr numbered, named,
              by rw [if_neg isNone, if_neg isFixed, if_pos isExponential]; exact returned⟩
          · simp [isExponential, throw, throwThe, MonadExceptOf.throw] at accepted

theorem toDouble_eq {value result : Rat} (rounded : toDouble value = some result) :
    result = value := by
  unfold toDouble at rounded
  split at rounded
  · cases rounded
  · split at rounded
    · cases rounded
    · exact (Option.some.inj rounded).symm

theorem exponentialDelay_nonneg {base factor maxSeconds : Rat} (basePositive : 0 ≤ base)
    (factorPositive : 0 < factor) (maxPositive : 0 ≤ maxSeconds) (exponent : Nat) :
    0 ≤ exponentialDelay base factor maxSeconds exponent := by
  unfold exponentialDelay
  split
  · exact maxPositive
  · next power powered =>
      split
      · exact maxPositive
      · next delay delayed =>
          rw [toDouble_eq delayed, toDouble_eq powered]
          exact le_min (mul_nonneg basePositive (pow_nonneg factorPositive.le _)) maxPositive

theorem fixedDelaySeconds_nonneg {strategy : Json} {delay : Rat}
    (accepted : fixedDelaySeconds strategy = .ok delay) : 0 ≤ delay := by
  unfold fixedDelaySeconds at accepted
  generalize unknownKey? strategy ["kind", "baseSeconds"] = unknown at accepted
  cases unknown with
  | some key => cases accepted
  | none =>
      obtain ⟨_, accepted⟩ := except_guard_ok.mp accepted
      obtain ⟨base, _, accepted⟩ := except_bind_ok.mp accepted
      rw [except_guard_ok, not_or, not_lt] at accepted
      obtain ⟨bounds, returned⟩ := accepted
      cases returned
      exact bounds.1

theorem exponentialParameters_bounds {strategy : Json} {parameters : ExponentialParameters}
    (accepted : exponentialParameters strategy = .ok parameters) :
    0 ≤ parameters.base ∧ 0 < parameters.factor ∧ 0 ≤ parameters.maxSeconds := by
  have bounds : ∀ {base factor maxSeconds : Rat},
      (do if base < 0 ∨ maximumDelaySeconds < base then throw .baseOutOfRange
          if factor ≤ 0 then throw .factorOutOfRange
          if maxSeconds < 0 ∨ maximumDelaySeconds < maxSeconds then throw .maxOutOfRange
          return { base := base, factor := factor, maxSeconds := maxSeconds } :
        Except SqlError ExponentialParameters) = .ok parameters →
      0 ≤ parameters.base ∧ 0 < parameters.factor ∧ 0 ≤ parameters.maxSeconds := by
    intro base factor maxSeconds checked
    rw [except_guard_ok, except_guard_ok, except_guard_ok] at checked
    obtain ⟨baseBound, factorBound, maxBound, returned⟩ := checked
    cases returned
    rw [not_or, not_lt] at baseBound maxBound
    exact ⟨baseBound.1, not_le.mp factorBound, maxBound.1⟩
  unfold exponentialParameters at accepted
  generalize unknownKey? strategy ["kind", "baseSeconds", "factor", "maxSeconds"] = unknown
    at accepted
  cases unknown with
  | some key => cases accepted
  | none =>
      obtain ⟨_, accepted⟩ := except_guard_ok.mp accepted
      obtain ⟨_, accepted⟩ := except_guard_ok.mp accepted
      obtain ⟨_, accepted⟩ := except_guard_ok.mp accepted
      obtain ⟨_, accepted⟩ := except_guard_ok.mp accepted
      obtain ⟨_, accepted⟩ := except_guard_ok.mp accepted
      obtain ⟨base, _, accepted⟩ := except_bind_ok.mp accepted
      obtain ⟨factor, _, accepted⟩ := except_bind_ok.mp accepted
      by_cases bounded : strategy.hasKey "maxSeconds" = true
      · simp only [bounded, if_true] at accepted
        obtain ⟨maxSeconds, _, accepted⟩ := except_bind_ok.mp accepted
        exact bounds accepted
      · simp only [bounded] at accepted
        exact bounds accepted

/-- Delays are never negative. -/
theorem retryDelaySeconds_nonneg {strategy : Json} {attempt : Nat} {delay : Rat}
    (accepted : retryDelaySeconds strategy attempt = .ok delay) : 0 ≤ delay := by
  unfold retryDelaySeconds at accepted
  rw [except_guard_ok, except_guard_ok] at accepted
  obtain ⟨_, _, accepted⟩ := accepted
  split at accepted
  · cases accepted
  · next kind _ =>
    obtain ⟨_, accepted⟩ := except_guard_ok.mp accepted
    by_cases isNone : kind = "none"
    · simp only [isNone, if_true] at accepted
      generalize unknownKey? strategy ["kind"] = unknown at accepted
      cases unknown with
      | some key => cases accepted
      | none =>
          cases accepted
          exact le_rfl
    · simp only [isNone, if_false] at accepted
      split at accepted
      · exact fixedDelaySeconds_nonneg accepted
      · split at accepted
        · obtain ⟨parameters, checked, accepted⟩ := except_bind_ok.mp accepted
          obtain ⟨basePositive, factorPositive, maxPositive⟩ :=
            exponentialParameters_bounds checked
          split at accepted
          · cases accepted
            exact le_rfl
          · cases accepted
            exact exponentialDelay_nonneg basePositive factorPositive maxPositive _
        · cases accepted

/-- `delay * interval '1 second'`, in microseconds. -/
def delayMicroseconds (delay : Rat) : Int := roundHalfEven (delay * second)

end Steda
