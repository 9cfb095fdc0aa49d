import Steda.Laws.Failing
import Steda.Laws.PolicyUse
import Steda.Serial.Calls
import Steda.Serial.Claims

/-!
# Exact claims

`claim_tasks` sweeps and then returns and claims exactly the first runnable
runs, as long as every deadline evaluates and no attempt number overflows.
-/

namespace Steda

open Postgres Transaction Relational

variable {space : Char → Bool} {life : Life} {world : World} {queue : Queue}

/-! ## Sweeps that do not raise -/

theorem Queue.AllUsable.due (usable : queue.AllUsable) (shows_ : queue.Shows space life)
    (observedAt : Option Timestamptz) : ∃ isDue, life.task.due observedAt = .ok isDue := by
  have undated := TaskRow.undated_due (usable life.task (mem_of_find shows_.findTask)) observedAt
  cases due : life.task.due observedAt with
  | error error => exact absurd due (undated error)
  | ok isDue => exact ⟨isDue, rfl⟩

/-- The attempt numbers of the running runs have a successor. -/
def Queue.Bounded (queue : Queue) : Prop :=
  ∀ run ∈ queue.runs, run.state = .running → run.attempt < maxInteger

/-- An attempt with usable deadlines and a next attempt number can be failed. -/
theorem Life.failure_total (valid : life.Valid space)
    (evaluates : ∀ observedAt, ∃ isDue, life.task.due observedAt = .ok isDue)
    (bounded : life.last.attempt < maxInteger) (observedAt nowAt : Timestamp) (reason : Json)
    (newRun : Uuid) : ∃ transition, life.failure observedAt nowAt reason newRun = .ok transition := by
  obtain ⟨isDue, due⟩ := evaluates (some observedAt)
  refine (Life.failure_ok_iff valid).mpr ?_
  cases isDue with
  | true => exact .inl due
  | false => exact .inr ⟨due, bounded⟩

/-- Moved tasks keep their policies. -/
theorem Queue.Moved.allUsable {before after : Queue} {moves : Moves}
    (moved : before.Moved space moves after) (sound : before.Sound space)
    (soundAfter : after.Sound space) (usable : before.AllUsable) : after.AllUsable := by
  intro task member policy isPolicy
  obtain ⟨life, isTask, _, shows_⟩ :=
    soundAfter.shows_of_findTask (soundAfter.keyed.findTask_of_mem member)
  obtain ⟨old, showsOld, isLife⟩ := moved.back sound shows_
  refine usable old.task (mem_of_find showsOld.findTask) policy ?_
  have kept : (old.moved moves).task.submission = old.task.submission := by
    unfold Life.moved
    split
    · rfl
    · exact Transition.after_submission _ old
  rw [← isTask, isLife] at isPolicy
  exact (congrArg Submission.cancellation kept).symm.trans isPolicy

/-- Both sweeps of a claim return. -/
theorem alone_sweeps (ready : world.Ready space) (forward : world.Forward)
    (usable : world.store.AllUsable) (bounded : world.store.Bounded) {limit : Int}
    (positive : 0 < limit) :
    ∃ first middle second swept,
      alone space (cancelExpiredTasks (some limit)) world =
        (.ok ((world.store.dueTasks (world.clock 0)).take limit.toNat).length, middle) ∧
      world.Sweeps space first middle ∧
      first.Cancels world.tick
        (((world.store.dueTasks (world.clock 0)).take limit.toNat).map TaskRow.id) ∧
      alone space (reapExpiredRuns (some limit)) middle =
        (.ok ((middle.store.expiredRuns (middle.clock 0)).take limit.toNat).length, swept) ∧
      middle.Sweeps space second swept ∧
      second.Reaps space middle.tick
        (((middle.store.expiredRuns (middle.clock 0)).take limit.toNat).map RunRow.id) ∧
      swept.store.AllUsable := by
  rcases alone_cancelExpiredTasks ready positive with
    ⟨life, error, shows_, _, failed, _⟩ | ⟨_, first, middle, cancelled, cancelSweep, cancels⟩
  · obtain ⟨isDue, due⟩ := usable.due shows_ (some (world.clock 0))
    rw [due] at failed
    cases failed
  have usableMiddle := cancelSweep.moved.allUsable ready.sound cancelSweep.ready.sound usable
  rcases alone_reapExpiredRuns cancelSweep.ready (forward.later cancelSweep.later).steady positive with
    ⟨life, error, shows_, member, reaps, _⟩ | ⟨second, swept, reaped, reapSweep, reaps⟩
  · have expired := (Queue.mem_expiredRuns.mp (List.mem_of_mem_take member)).2
    have running := running_of_expiredAt expired
    have showsOld := (cancelSweep.moved.running_of_cancelling ready.sound cancels.cancelling shows_
      running).1
    have small := bounded life.last (mem_of_find (showsOld.findRun life.last_mem_runs)) running
    obtain ⟨_, _, _, _, fails⟩ := reaps
    obtain ⟨transition, isTransition⟩ := Life.failure_total shows_.valid
      (usableMiddle.due shows_) small _ _ _ _
    rw [isTransition] at fails
    cases fails
  · exact ⟨first, middle, second, swept, cancelled, cancelSweep, cancels, reaped, reapSweep, reaps,
      reapSweep.moved.allUsable cancelSweep.ready.sound reapSweep.ready.sound usableMiddle⟩

/-! ## Claims -/

/-- The world after both sweeps of a claim. -/
def World.SweptBy (space : Char → Bool) (limit : Int) (world swept : World) : Prop :=
  ∃ cancelled middle reaped,
    alone space (cancelExpiredTasks (some limit)) world = (.ok cancelled, middle) ∧
      alone space (reapExpiredRuns (some limit)) middle = (.ok reaped, swept)

/-- What `claim_tasks` does: after both sweeps, at the next reading of the
clock, it returns and claims the first runnable runs and nothing else. -/
def ClaimsExactly (space : Char → Bool) (world : World) (workerId : Option String)
    (leaseSeconds quantity : Option Int) (taskNames : Option (List (Option String)))
    (request : ClaimRequest) : Prop :=
  ∃ swept, World.SweptBy space request.quantity world.tick swept ∧
    let nowAt := swept.clock 0
    let taken := (swept.store.runnableRuns nowAt request.taskNames).take request.quantity.toNat
    (Operation.claimTasks workerId leaseSeconds quantity taskNames).perform space world =
        (.ok (swept.store.claimRows taken), swept.tick.withStore (swept.store.claimed
          request.workerId nowAt (nowAt + request.leaseSeconds * second) taken)) ∧
      (swept.store.claimRows taken).map ClaimedTask.runId = taken.map RunRow.id ∧
      ∀ run ∈ taken, run.availableAt ≤ nowAt

/-- Every runnable run has a result row. -/
theorem Queue.claimRows_runId {nowAt : Timestamp} {names : List String} {taken : List RunRow}
    (runnable : ∀ run ∈ taken, queue.runnable nowAt names run = true) :
    (queue.claimRows taken).map ClaimedTask.runId = taken.map RunRow.id := by
  induction taken with
  | nil => rfl
  | cons run rest inductionHypothesis =>
      obtain ⟨first, others⟩ := List.forall_mem_cons.mp runnable
      unfold claimRows
      cases found : queue.findTask run.taskId with
      | none => simp [Queue.runnable, found] at first
      | some task =>
          rw [List.filterMap_cons_some (by rw [found, Option.map_some]), List.map_cons, List.map_cons]
          exact congrArg (_ :: ·) (inductionHypothesis others)

theorem Queue.available_of_runnable {nowAt : Timestamp} {names : List String} {run : RunRow}
    (runnable : queue.runnable nowAt names run = true) : run.availableAt ≤ nowAt := by
  unfold Queue.runnable at runnable
  cases found : queue.findTask run.taskId with
  | none => simp [found] at runnable
  | some task =>
      simp only [found, Bool.and_eq_true, decide_eq_true_eq] at runnable
      exact runnable.2.1.1.2

/-- A claim is exact when every deadline evaluates and no attempt number
overflows. -/
theorem World.claims_exactly (ready : world.Ready space) (forward : world.Forward)
    (usable : world.store.AllUsable) (bounded : world.store.Bounded) {workerId : Option String}
    {leaseSeconds quantity : Option Int} {taskNames : Option (List (Option String))}
    {request : ClaimRequest}
    (validated : validateClaim space workerId leaseSeconds quantity taskNames = .ok request) :
    ClaimsExactly space world workerId leaseSeconds quantity taskNames request := by
  obtain ⟨_, middle, _, swept, cancelled, cancelSweep, _, reaped, reapSweep, _, usableSwept⟩ :=
    alone_sweeps ready.tick (forward.later (World.Later.tick world)) usable bounded
      (validateClaim_ok validated).2.2.1
  let nowAt := swept.clock 0
  let taken := (swept.store.runnableRuns nowAt request.taskNames).take request.quantity.toNat
  have statement : alone space (claimStatement request nowAt) swept.tick =
      (.ok (swept.store.claimRows taken), swept.tick.withStore (swept.store.claimed request.workerId
        nowAt (nowAt + request.leaseSeconds * second) taken)) :=
    alone_claimStatement reapSweep.ready.tick request (validateClaim_ok validated).1 nowAt
      fun life shows_ _ => usableSwept.due shows_ (some nowAt)
  have returned : alone space ((Operation.claimTasks workerId leaseSeconds quantity
      taskNames).program space) world = (.ok (swept.store.claimRows taken),
        swept.tick.withStore (swept.store.claimed request.workerId nowAt
          (nowAt + request.leaseSeconds * second) taken)) := by
    change alone space (claimTasks space workerId leaseSeconds quantity taskNames) world = _
    rw [claimTasks, alone_then (alone_currentTime world), validated]
    refine (alone_then (alone_ofExcept _ _) _).trans ?_
    refine (alone_then cancelled _).trans ?_
    refine (alone_then reaped _).trans ?_
    exact (alone_then (alone_currentTime swept) _).trans statement
  have runnable : ∀ run ∈ taken, swept.store.runnable nowAt request.taskNames run = true :=
    fun run member => (Queue.mem_runnableRuns.mp (List.mem_of_mem_take member)).2
  exact ⟨swept, ⟨_, middle, _, cancelled, reaped⟩, Operation.perform_returned ready.sound returned,
    Queue.claimRows_runId runnable, fun run member => Queue.available_of_runnable (runnable run member)⟩

/-! ## The law -/

/-- In every state of a history whose policies are written without fractions,
`claim_tasks` is exact, unless a running run has the last attempt number. -/
theorem History.claimsExactly {initial reached : World} {past : List Call}
    (history : History space initial past reached)
    (literal : ∀ call ∈ past, call.SubmitsLiteral space) (forward : reached.Forward)
    (bounded : reached.store.Bounded) (workerId : Option String)
    (leaseSeconds quantity : Option Int) (taskNames : Option (List (Option String)))
    (request : ClaimRequest)
    (validated : validateClaim space workerId leaseSeconds quantity taskNames = .ok request) :
    ClaimsExactly space reached workerId leaseSeconds quantity taskNames request :=
  World.claims_exactly history.ready forward (history.allUsable literal) bounded validated

/-- A submitted task is claimed. -/
theorem History.claimsExactly_submitted :
    let served := World.serve asciiSpace [plainSubmission []] (.blank second)
    ClaimsExactly asciiSpace served.2 (some "worker") (some 60) (some 1) (some [some "report"])
      ⟨"worker", 60, 1, ["report"]⟩ := by
  intro served
  have readings : served.2.clock = fun position => ((position + 1 : Nat) : Int) * second := rfl
  refine History.claimsExactly (World.history_serve _ second) ?_ ?_ ?_ _ _ _ _ _ rfl
  · intro call member taskName params options submission policy isSpawn accepted isPolicy
    rw [List.mem_singleton.mp (show call ∈ [_] from member)] at isSpawn
    cases isSpawn
    cases accepted
    cases isPolicy
  · intro earlier later ordered
    rw [readings]
    exact mul_le_mul_of_nonneg_right (by exact_mod_cast Nat.add_le_add_right ordered 1) (by decide)
  · intro run member running
    rw [List.mem_singleton.mp (show run ∈ [_] from member)] at running
    cases running

/-- An accepted policy with a fraction keeps every task of its queue from being
claimed. -/
theorem History.claimsExactly_fraction :
    let served := World.serve asciiSpace
      [plainSubmission [], plainSubmission [("cancellation", minutePolicy ⟨600, 1⟩)]] (.blank second)
    validateClaim asciiSpace (some "worker") (some 60) (some 1) (some [some "report"]) =
        .ok ⟨"worker", 60, 1, ["report"]⟩ ∧
      (served.2.store.runnableRuns (served.2.clock 0) ["report"]).length = 1 ∧
      ¬ClaimsExactly asciiSpace served.2 (some "worker") (some 60) (some 1) (some [some "report"])
        ⟨"worker", 60, 1, ["report"]⟩ := by
  refine ⟨rfl, by decide, ?_⟩
  rintro ⟨swept, _, performed, _⟩
  have raised : ((Operation.claimTasks (some "worker") (some 60) (some 1)
      (some [some "report"])).perform asciiSpace (World.serve asciiSpace
        [plainSubmission [], plainSubmission [("cancellation", minutePolicy ⟨600, 1⟩)]]
          (.blank second)).2).1 = .error (.invalidBigint "60.0") := rfl
  rw [performed] at raised
  cases raised

end Steda
