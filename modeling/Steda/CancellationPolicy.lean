import Steda.RetryStrategy

/-!
# Cancellation policies

`steda.validate_cancellation_policy` accepts a policy at submission and
`steda.cancellation_due` evaluates it at every later transition.  The validator
reads a bound as a decimal number, the evaluator casts its text to a 64-bit
integer.
-/

namespace Steda

open Postgres

/-- The check of one bound of a policy. -/
def validateCancellationBound (cancellation : Json) (key : String) : Except SqlError Unit :=
  match cancellation.field? key with
  | none => .ok ()
  | some (.number value) =>
      if !value.isWhole ∨ value.ltInt 0 ∨ value.gtInt maxBigint then
        .error (.cancellationOutOfRange key)
      else .ok ()
  | some _ => .error (.cancellationNotNumber key)

/-- `steda.validate_cancellation_policy`. -/
def validateCancellationPolicy (cancellation : Option Json) :
    Except SqlError (Option Json) :=
  match cancellation with
  | none | some .null => .ok none
  | some policy => do
      if !policy.isObject then throw .cancellationNotObject
      if policy.isEmptyObject then throw .cancellationEmpty
      if let some key := unknownKey? policy ["maxDelay", "maxDuration"] then
        throw (.cancellationUnknownKey key)
      validateCancellationBound policy "maxDelay"
      validateCancellationBound policy "maxDuration"
      return some policy

/-- An accepted policy is returned as it was given.  Only an absent or null
policy reads as none. -/
theorem validateCancellationPolicy_ok {cancellation accepted : Option Json}
    (validated : validateCancellationPolicy cancellation = .ok accepted) :
    (accepted = none ∧ (cancellation = none ∨ cancellation = some .null)) ∨
      ∃ policy, accepted = some policy ∧ cancellation = some policy ∧ policy.isObject = true ∧
        unknownKey? policy ["maxDelay", "maxDuration"] = none ∧
        validateCancellationBound policy "maxDelay" = .ok () ∧
        validateCancellationBound policy "maxDuration" = .ok () := by
  unfold validateCancellationPolicy at validated
  split at validated
  · exact Or.inl ⟨(Except.ok.inj validated).symm, Or.inl rfl⟩
  · exact Or.inl ⟨(Except.ok.inj validated).symm, Or.inr rfl⟩
  · next policy _ =>
      obtain ⟨isObject, validated⟩ := except_guard_ok.mp validated
      obtain ⟨_, validated⟩ := except_guard_ok.mp validated
      generalize keys : unknownKey? policy ["maxDelay", "maxDuration"] = unknown at validated
      cases unknown with
      | some key => cases validated
      | none =>
          obtain ⟨_, delay, validated⟩ := except_bind_ok.mp validated
          obtain ⟨_, duration, returned⟩ := except_bind_ok.mp validated
          exact Or.inr ⟨policy, (Except.ok.inj returned).symm, rfl, by simpa using isObject, keys,
            delay, duration⟩

/-- `(cancellation ->> key)::bigint`. -/
def cancellationBound (cancellation : Json) (key : String) : Except SqlError (Option Int) :=
  match cancellation.text? key with
  | none => .ok none
  | some text =>
      match textToBigint text with
      | .ok bound => .ok (some bound)
      | .error .invalidSyntax => .error (.invalidBigint text)
      | .error .outOfRange => .error (.bigintOutOfRange text)

/-- At least `bound` whole seconds have passed since `since`.  All of them have
passed at `infinity`.  A missing bound or a missing observation is not due. -/
def elapsed (bound : Option Int) (since : Timestamp) (observedAt : Option Timestamptz) : Bool :=
  match bound, observedAt with
  | some _, some .infinity => true
  | some bound, some (.point observedAt) => bound * second ≤ observedAt - since
  | _, _ => false

/-- `steda.cancellation_due`.  Before the first start only `maxDelay` applies,
afterwards only `maxDuration`. -/
def cancellationDue (cancellation : Option Json) (enqueueAt : Timestamp)
    (firstStartedAt : Option Timestamp) (observedAt : Option Timestamptz) : Except SqlError Bool :=
  match cancellation, firstStartedAt with
  | none, _ => .ok false
  | some policy, none => do
      let bound ← cancellationBound policy "maxDelay"
      return elapsed bound enqueueAt observedAt
  | some policy, some startedAt => do
      let bound ← cancellationBound policy "maxDuration"
      return elapsed bound startedAt observedAt

end Steda
