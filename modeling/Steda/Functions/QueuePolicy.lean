import Steda.Schema

/-!
# The retention policy of a queue

`create_queue` registers the default policy and `set_queue_policy` replaces it.
-/

namespace Steda

open Postgres

/-- What `set_queue_policy` refuses. -/
inductive QueuePolicyError
  | cleanupTtlNegative
  | cleanupLimitTooSmall
  deriving DecidableEq, Repr

/-- The text of an error. -/
def QueuePolicyError.message : QueuePolicyError → String
  | .cleanupTtlNegative => "cleanup_ttl must be non-negative"
  | .cleanupLimitTooSmall => "cleanup_limit must be at least 1"

/-- A queue as `create_queue` leaves it: no rows and the default policy. -/
def createdQueue : Queue := .empty (30 * 86400 * second) 1000

/-- `steda.set_queue_policy` of a registered queue.  A missing argument keeps
the current value. -/
def setQueuePolicy (requestedCleanupTtlSeconds requestedCleanupLimit : Option Int)
    (queue : Queue) : Except QueuePolicyError Queue :=
  let cleanupTtl := (requestedCleanupTtlSeconds.map (· * second)).getD queue.cleanupTtl
  let cleanupLimit := requestedCleanupLimit.getD queue.cleanupLimit
  if cleanupTtl < 0 then .error .cleanupTtlNegative
  else if cleanupLimit < 1 then .error .cleanupLimitTooSmall
  else .ok { queue with cleanupTtl := cleanupTtl, cleanupLimit := cleanupLimit.toNat }

/-- The CHECK constraints of the policy in `steda.queues`. -/
structure Queue.PolicyChecked (queue : Queue) : Prop where
  cleanupTtl : 0 ≤ queue.cleanupTtl
  cleanupLimit : 1 ≤ queue.cleanupLimit

theorem createdQueue_policyChecked : createdQueue.PolicyChecked := by
  constructor <;> decide

/-- A policy that is set passes its checks, and no row changes. -/
theorem setQueuePolicy_ok {requestedCleanupTtlSeconds requestedCleanupLimit : Option Int}
    {queue changed : Queue}
    (set : setQueuePolicy requestedCleanupTtlSeconds requestedCleanupLimit queue = .ok changed) :
    changed.PolicyChecked ∧ changed.tasks = queue.tasks ∧ changed.runs = queue.runs ∧
      changed.checkpoints = queue.checkpoints := by
  unfold setQueuePolicy at set
  simp only at set
  split at set
  · cases set
  · next ttl =>
      split at set
      · cases set
      · next limit =>
          obtain rfl := Except.ok.inj set
          refine ⟨⟨not_lt.mp ttl, ?_⟩, rfl, rfl, rfl⟩
          simp only
          omega

end Steda
