import Steda.Client.WorkerLoop

/-!
# Supervising an attempt

`supervise_execution` asks the database about its run at a fixed interval,
which `supervision_interval` chooses from the lease.
-/

namespace Steda

namespace Duration

/-- The nanoseconds of a duration. -/
def toNanoseconds (duration : Duration) : Nat :=
  duration.seconds.toNat * 1000000000 + duration.nanoseconds.val

/-- `Duration::from_secs`. -/
def fromSeconds (seconds : UInt64) : Duration := ⟨seconds, 0⟩

/-- Division of a duration by two. -/
def half (duration : Duration) : Duration where
  seconds := duration.seconds / 2
  nanoseconds :=
    ⟨duration.nanoseconds.val / 2 +
        (duration.seconds.toNat % 2 * 1000000000 + duration.nanoseconds.val % 2) / 2, by omega⟩

/-- `Ord::min` on durations. -/
def min (left right : Duration) : Duration :=
  if right.seconds < left.seconds ∨
      (right.seconds = left.seconds ∧ right.nanoseconds < left.nanoseconds) then right
  else left

theorem toNanoseconds_half (duration : Duration) :
    duration.half.toNanoseconds = duration.toNanoseconds / 2 := by
  simp only [toNanoseconds, half, UInt64.toNat_div]
  change duration.seconds.toNat / 2 * 1000000000 + _ = _
  omega

theorem toNanoseconds_min (left right : Duration) :
    (left.min right).toNanoseconds =
      if left.toNanoseconds ≤ right.toNanoseconds then left.toNanoseconds
      else right.toNanoseconds := by
  have leftBound := left.nanoseconds.isLt
  have rightBound := right.nanoseconds.isLt
  unfold min toNanoseconds
  split
  · rename_i smaller
    rw [UInt64.lt_iff_toNat_lt, ← UInt64.toNat_inj, Fin.lt_def] at smaller
    exact (if_neg (by omega)).symm
  · rename_i larger
    rw [UInt64.lt_iff_toNat_lt, ← UInt64.toNat_inj, Fin.lt_def] at larger
    exact (if_pos (by omega)).symm

end Duration

/-- `MAX_SUPERVISION_INTERVAL`. -/
def maxSupervisionInterval : Duration := .fromSeconds 1

/-- `u64::try_from` on a 32-bit integer, or one. -/
def leaseSecondsOrOne (leaseSeconds : Int) : UInt64 :=
  if 0 ≤ leaseSeconds then UInt64.ofNat leaseSeconds.toNat else 1

/-- `supervision_interval`. -/
def supervisionInterval (leaseSeconds : Int) : Duration :=
  (Duration.fromSeconds (leaseSecondsOrOne leaseSeconds)).half.min maxSupervisionInterval

/-- The interval is positive and at most half the lease. -/
theorem supervisionInterval_bounds {leaseSeconds : Int} (positive : 1 ≤ leaseSeconds)
    (small : leaseSeconds ≤ i32Max) :
    0 < (supervisionInterval leaseSeconds).toNanoseconds ∧
      2 * ((supervisionInterval leaseSeconds).toNanoseconds : Int) ≤
        leaseSeconds * 1000000000 := by
  have isSeconds : (Duration.fromSeconds (leaseSecondsOrOne leaseSeconds)).toNanoseconds =
      leaseSeconds.toNat * 1000000000 := by
    have fits : leaseSeconds.toNat < 2 ^ 64 := by
      unfold i32Max at small
      omega
    rw [leaseSecondsOrOne, if_pos (by omega)]
    change (UInt64.ofNat leaseSeconds.toNat).toNat * 1000000000 + 0 = _
    rw [UInt64.toNat_ofNat_of_lt' fits, Nat.add_zero]
  have isMax : maxSupervisionInterval.toNanoseconds = 1000000000 := rfl
  rw [supervisionInterval, Duration.toNanoseconds_min, Duration.toNanoseconds_half, isSeconds,
    isMax]
  split <;> omega

end Steda
