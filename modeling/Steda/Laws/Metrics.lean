import Mathlib.Algebra.BigOperators.Group.List.Basic
import Steda.Client.Metrics
import Steda.Laws.Attempts

/-!
# What the metrics count

Every attempt that has ended is counted once, under the way it has ended, and
the counters of a handle stop at their largest value instead of wrapping.
-/

namespace Steda

open Postgres Transaction

variable {space : Char → Bool}

/-! ## Saturating counters -/

/-- Capping a sum once is capping it along the way. -/
theorem min_add_min (first later bound : Nat) :
    min (min first bound + later) bound = min (first + later) bound := by
  omega

theorem toNat_u64OrMax (value : Nat) : (u64OrMax value).toNat = min value u64Max := by
  have small : min value u64Max < 2 ^ 64 := by
    unfold u64Max
    omega
  exact UInt64.toNat_ofNat_of_lt' small

theorem toNat_saturatingAdd (left right : UInt64) :
    (saturatingAdd left right).toNat = min (left.toNat + right.toNat) u64Max :=
  toNat_u64OrMax _

/-- A counter has counted an amount, up to its largest value. -/
def QueueMetrics.Counts (metrics : QueueMetrics) (counter : QueueCounter) (amount : Nat) : Prop :=
  (metrics counter).toNat = min amount u64Max

theorem QueueMetrics.counts_new (counter : QueueCounter) : QueueMetrics.new.Counts counter 0 := rfl

namespace QueueMetrics.Counts

variable {metrics : QueueMetrics} {counter other : QueueCounter} {amount : Nat}

theorem increment (counts : metrics.Counts counter amount) (value : UInt64) :
    (metrics.increment counter value).Counts counter (amount + value.toNat) := by
  unfold Counts QueueMetrics.increment
  rw [Function.update_self, toNat_saturatingAdd, counts, min_add_min]

theorem increment_orMax (counts : metrics.Counts counter amount) (value : Nat) :
    (metrics.increment counter (u64OrMax value)).Counts counter (amount + value) := by
  have counted := counts.increment (u64OrMax value)
  unfold Counts at counted ⊢
  rw [counted, toNat_u64OrMax]
  omega

theorem increment_other (counts : metrics.Counts counter amount) (different : counter ≠ other)
    (value : UInt64) : (metrics.increment other value).Counts counter amount := by
  unfold Counts QueueMetrics.increment
  rw [Function.update_of_ne different]
  exact counts

end QueueMetrics.Counts

/-! ## Increments -/

/-- What increments add to a counter. -/
def amount (counter : QueueCounter) (increments : List (QueueCounter × UInt64)) : Nat :=
  (increments.map fun increment => if increment.1 = counter then increment.2.toNat else 0).sum

@[simp] theorem amount_nil (counter : QueueCounter) : amount counter [] = 0 := rfl

@[simp] theorem amount_cons (counter : QueueCounter) (increment : QueueCounter × UInt64)
    (rest : List (QueueCounter × UInt64)) :
    amount counter (increment :: rest) =
      (if increment.1 = counter then increment.2.toNat else 0) + amount counter rest := rfl

@[simp] theorem amount_append (counter : QueueCounter)
    (early late : List (QueueCounter × UInt64)) :
    amount counter (early ++ late) = amount counter early + amount counter late := by
  simp [amount]

namespace TaskExecution

/-- The increments of the guard of an attempt that has ended. -/
def charges (attempt : TaskExecution) : List (QueueCounter × UInt64) :=
  attempt.ended.elim [] fun ended => ended.1.increments ended.2

/-- A guard makes its increments in order. -/
def Orderly (attempt : TaskExecution) : Prop := attempt.due <:+ attempt.charges

variable {attempt : TaskExecution}

/-- An attempt that has not ended has no increments to make. -/
theorem Orderly.nothing_due (orderly : attempt.Orderly) (open_ : attempt.ended = none) :
    attempt.due = [] := by
  unfold Orderly charges at orderly
  rw [open_] at orderly
  exact List.suffix_nil.mp orderly

/-- A step of an attempt charges what becomes due. -/
structure Balances (attempt next : TaskExecution) : Prop where
  task : next.execution.task = attempt.execution.task
  orderly : next.Orderly
  charged : ∀ counter, amount counter next.due + amount counter attempt.charges =
    amount counter attempt.due + amount counter next.charges

/-- The guard of an attempt ends when `execute_task` returns. -/
theorem proceed_cases (attempt : TaskExecution) (next : Execution)
    (outcome : Option ExecutionOutcome) (elapsed : Nat) :
    (attempt.ended = none ∧ (∃ result, next.phase = .returned result) ∧
      attempt.proceed next outcome elapsed = { attempt with execution := next }.conclude
        (outcome.elim .dropped .finished) elapsed) ∨
    ((attempt.ended = none → ∀ result, next.phase ≠ .returned result) ∧
      attempt.proceed next outcome elapsed = { attempt with execution := next }) := by
  unfold proceed
  split
  · next ends =>
      rw [Bool.and_eq_true, Option.isNone_iff_eq_none] at ends
      obtain ⟨result, isResult⟩ := Option.isSome_iff_exists.mp ends.2
      exact Or.inl ⟨ends.1, ⟨result, Execution.result?_eq_some.mp isResult⟩, rfl⟩
  · next goesOn =>
      refine Or.inr ⟨?_, rfl⟩
      intro open_ result returned
      refine goesOn ?_
      rw [open_, Execution.result?_eq_some.mpr returned]
      rfl

/-- An attempt that goes on executes the next stage. -/
theorem proceed_execution (attempt : TaskExecution) (next : Execution)
    (outcome : Option ExecutionOutcome) (elapsed : Nat) :
    (attempt.proceed next outcome elapsed).execution = next := by
  rcases attempt.proceed_cases next outcome elapsed with ⟨_, _, isNext⟩ | ⟨_, isNext⟩
  · rw [isNext]
    rfl
  · rw [isNext]

/-- An attempt stays with its worker. -/
theorem proceed_worker (attempt : TaskExecution) (next : Execution)
    (outcome : Option ExecutionOutcome) (elapsed : Nat) :
    (attempt.proceed next outcome elapsed).worker = attempt.worker := by
  rcases attempt.proceed_cases next outcome elapsed with ⟨_, _, isNext⟩ | ⟨_, isNext⟩
  · rw [isNext]
    rfl
  · rw [isNext]

/-- The guard of an attempt that goes on has ended when `execute_task` has
returned. -/
theorem proceed_ended {next : Execution}
    (returned : attempt.ended.isSome → ∃ result, next.phase = .returned result)
    (outcome : Option ExecutionOutcome) (elapsed : Nat) :
    (attempt.proceed next outcome elapsed).ended.isSome ↔
      ∃ result, (attempt.proceed next outcome elapsed).execution.phase = .returned result := by
  rw [proceed_execution]
  rcases attempt.proceed_cases next outcome elapsed with ⟨_, returns, isNext⟩ | ⟨goesOn, isNext⟩
  · exact iff_of_true (by rw [isNext]; rfl) returns
  · rw [isNext]
    refine ⟨returned, ?_⟩
    rintro ⟨result, isResult⟩
    exact Option.isSome_iff_ne_none.mpr fun open_ => goesOn open_ result isResult

theorem start_task (worker : TaskWorker) (task : ClaimedTask) (elapsed : Nat) :
    (start worker task elapsed).execution.task = task :=
  congrArg Execution.task (proceed_execution _ _ _ _)

/-- An attempt that begins charges what is due. -/
theorem balances_start (worker : TaskWorker) (task : ClaimedTask) (elapsed : Nat) :
    (start worker task elapsed).Orderly ∧
      (start worker task elapsed).charges = (start worker task elapsed).due := by
  unfold start
  rcases proceed_cases
    { worker, execution := .start worker task, ended := none, due := [] }
    (.start worker task) none elapsed with ⟨_, _, isNext⟩ | ⟨_, isNext⟩
  · rw [isNext]
    exact ⟨List.suffix_rfl, rfl⟩
  · rw [isNext]
    exact ⟨List.suffix_rfl, rfl⟩

/-- A guard that ends makes all its increments. -/
theorem balances_conclude (orderly : attempt.Orderly) (open_ : attempt.ended = none)
    (guardEnd : GuardEnd) (elapsed : Nat) :
    attempt.Balances (attempt.conclude guardEnd elapsed) where
  task := rfl
  orderly := List.suffix_rfl
  charged := by
    intro counter
    rw [orderly.nothing_due open_]
    simp [charges, conclude, open_]

/-- An attempt that goes on ends its guard at most once. -/
theorem balances_proceed (orderly : attempt.Orderly) {next : Execution}
    (sameTask : next.task = attempt.execution.task) (outcome : Option ExecutionOutcome)
    (elapsed : Nat) : attempt.Balances (attempt.proceed next outcome elapsed) := by
  have still : attempt.Balances { attempt with execution := next } :=
    ⟨sameTask, orderly, fun counter => rfl⟩
  rcases attempt.proceed_cases next outcome elapsed with ⟨open_, _, isNext⟩ | ⟨_, isNext⟩
  · rw [isNext]
    have ends := balances_conclude still.orderly open_ (outcome.elim .dropped .finished) elapsed
    exact ⟨sameTask, ends.orderly, ends.charged⟩
  · rw [isNext]
    exact still

end TaskExecution

/-- An attempt stays with its task. -/
theorem TaskWorker.Step.task {worker : TaskWorker} {handler : Handler} {before after : WorkerState}
    {event : ExecutionEvent} (steps : worker.Step space handler before event after)
    {execution next : Execution} (isExecution : before.execution = some execution)
    (isNext : after.execution = some next) : next.task = execution.task := by
  cases steps with
  | served => exact congrArg Execution.task (Option.some.inj (isNext.symm.trans isExecution))
  | claimed idle =>
      rw [isExecution] at idle
      cases idle
  | asked isAttempt =>
      cases isAttempt.symm.trans isExecution
      cases isNext
      exact Execution.receive_task _ _ _ _
  | rejected isAttempt =>
      cases isAttempt.symm.trans isExecution
      cases isNext
      exact Execution.receive_task _ _ _ _
  | observed isAttempt executing answered =>
      cases isAttempt.symm.trans isExecution
      cases isNext
      unfold Execution.observe
      split <;> rfl
  | polled isAttempt | supervised isAttempt | handled isAttempt | handlerReturned isAttempt =>
      cases isAttempt.symm.trans isExecution
      cases isNext
      rfl

/-! ## Runs of a handle -/

/-- The runs a worker has claimed in a step. -/
def FleetEvent.claimedTasks : FleetEvent → List ClaimedTask
  | .claimed _ tasks => tasks
  | _ => []

/-- The run a worker has given up in a step. -/
def FleetEvent.forgottenTasks : FleetEvent → List ClaimedTask
  | .forgotten task => [task]
  | _ => []

/-- A worker has failed to claim in a step. -/
def FleetEvent.failsClaim : FleetEvent → Bool
  | .claimFailed _ => true
  | _ => false

/-- What the claims of workers add to a counter. -/
def claimAmount (counter : QueueCounter) (events : List FleetEvent) : Nat :=
  match counter with
  | .claimedRuns => (events.flatMap FleetEvent.claimedTasks).length
  | .claimErrors => events.countP FleetEvent.failsClaim
  | _ => 0

/-- A step that claims nothing, or does not fail to, adds nothing to the counter. -/
theorem claimAmount_snoc {counter : QueueCounter} {events : List FleetEvent} {event : FleetEvent}
    (claimsNothing : counter = .claimedRuns → event.claimedTasks = [])
    (succeeds : counter = .claimErrors → event.failsClaim = false) :
    claimAmount counter (events ++ [event]) = claimAmount counter events := by
  unfold claimAmount
  split
  · rw [List.flatMap_append, List.flatMap_singleton, claimsNothing rfl, List.append_nil]
  · rw [List.countP_append, List.countP_singleton, succeeds rfl]
    rfl
  · rfl

namespace Fleet

/-- The increments the guards of a handle have still to make. -/
def due (fleet : Fleet) : List (QueueCounter × UInt64) :=
  fleet.attempts.flatMap TaskExecution.due

/-- The increments of all guards that have ended. -/
def charges (fleet : Fleet) : List (QueueCounter × UInt64) :=
  fleet.attempts.flatMap TaskExecution.charges

/-- Every counter has counted the increments that are not due any more. -/
structure Balanced (events : List FleetEvent) (fleet : Fleet) : Prop where
  orderly : ∀ attempt ∈ fleet.attempts, attempt.Orderly
  counted : ∀ counter, ∃ made, fleet.metrics.Counts counter made ∧
    made + amount counter fleet.due = amount counter fleet.charges + claimAmount counter events

variable {initial : World} {events : List FleetEvent} {event : FleetEvent}
  {before after final : Fleet}

/-- A property that every step from a reached state keeps holds in every reached
state. -/
theorem Run.induction {holds : List FleetEvent → Fleet → Prop}
    (run : Run space initial events final) (begins : holds [] (.start initial))
    (kept : ∀ past source event target, Run space initial past source →
      Step space source event target → holds past source → holds (past ++ [event]) target) :
    holds events final := by
  let reached (past : List FleetEvent) (fleet : Fleet) : Prop :=
    Run space initial past fleet ∧ holds past fleet
  have both : reached events final := by
    refine run.trace.invariant_labels ?_ ⟨⟨run.empty, run.fresh, .nil _⟩, begins⟩
    intro past source label target steps holding
    exact ⟨⟨run.empty, run.fresh, holding.1.trace.append (.cons steps (.nil _))⟩,
      kept past source label target holding.1 steps holding.2⟩
  exact both.2

/-- A step of one attempt keeps the balance. -/
theorem Balanced.replace (balanced : before.Balanced events) {early late : List TaskExecution}
    {attempt next : TaskExecution} (isAttempt : before.attempts = early ++ attempt :: late)
    (isNext : after.attempts = early ++ next :: late)
    (balances : attempt.Orderly → attempt.Balances next)
    (sameMetrics : after.metrics = before.metrics)
    (apart : event.claimedTasks = [] ∧ event.failsClaim = false) :
    after.Balanced (events ++ [event]) := by
  have orderly := balanced.orderly
  rw [isAttempt] at orderly
  have steps := balances (orderly attempt (by simp))
  constructor
  · intro other member
    rw [isNext] at member
    rcases List.mem_append.mp member with inEarly | inRest
    · exact orderly other (by simp [inEarly])
    · rcases List.mem_cons.mp inRest with isNew | inLate
      · exact isNew ▸ steps.orderly
      · exact orderly other (by simp [inLate])
  · intro counter
    obtain ⟨made, counts, balance⟩ := balanced.counted counter
    refine ⟨made, sameMetrics ▸ counts, ?_⟩
    have charged := steps.charged counter
    rw [claimAmount_snoc (fun _ => apart.1) fun _ => apart.2]
    simp only [due, charges, isAttempt, isNext, List.flatMap_append, List.flatMap_cons,
      amount_append] at balance ⊢
    omega

/-- Every step keeps the balance. -/
theorem Step.balanced (steps : Step space before event after) (balanced : before.Balanced events) :
    after.Balanced (events ++ [event]) := by
  have unchanged : ∀ {fleet : Fleet}, fleet.attempts = before.attempts →
      fleet.metrics = before.metrics → event.claimedTasks = [] ∧ event.failsClaim = false →
        fleet.Balanced (events ++ [event]) := by
    intro fleet sameAttempts sameMetrics apart
    refine ⟨sameAttempts ▸ balanced.orderly, fun counter => ?_⟩
    rw [claimAmount_snoc (fun _ => apart.1) fun _ => apart.2, due, charges, sameAttempts,
      sameMetrics]
    exact balanced.counted counter
  cases steps with
  | served => exact unchanged rfl rfl ⟨rfl, rfl⟩
  | forgotten => exact unchanged rfl rfl ⟨rfl, rfl⟩
  | claimed serves =>
      rename_i tasks _
      refine ⟨balanced.orderly, fun counter => ?_⟩
      obtain ⟨made, counts, balance⟩ := balanced.counted counter
      by_cases isClaims : counter = .claimedRuns
      · subst isClaims
        refine ⟨made + tasks.length, counts.increment_orMax _, ?_⟩
        simp only [due, charges, claimAmount, List.flatMap_append, List.length_append,
          List.flatMap_singleton, FleetEvent.claimedTasks] at balance ⊢
        omega
      · refine ⟨made, counts.increment_other isClaims _, ?_⟩
        rw [claimAmount_snoc (fun isCounter => absurd isCounter isClaims) fun _ => rfl]
        exact balance
  | claimFailed serves =>
      refine ⟨balanced.orderly, fun counter => ?_⟩
      obtain ⟨made, counts, balance⟩ := balanced.counted counter
      by_cases isErrors : counter = .claimErrors
      · subst isErrors
        refine ⟨made + 1, counts.increment 1, ?_⟩
        simp only [due, charges, claimAmount, List.countP_append, List.countP_singleton,
          FleetEvent.failsClaim, if_true] at balance ⊢
        omega
      · refine ⟨made, counts.increment_other isErrors _, ?_⟩
        rw [claimAmount_snoc (fun _ => rfl) fun isCounter => absurd isCounter isErrors]
        exact balance
  | started isWaiting elapsed =>
      rename_i worker task
      have fresh := TaskExecution.balances_start worker task elapsed
      constructor
      · intro attempt member
        rcases List.mem_append.mp member with isOld | isNew
        · exact balanced.orderly attempt isOld
        · exact List.mem_singleton.mp isNew ▸ fresh.1
      · intro counter
        obtain ⟨made, counts, balance⟩ := balanced.counted counter
        refine ⟨made, counts, ?_⟩
        rw [claimAmount_snoc (fun _ => rfl) fun _ => rfl]
        simp only [due, charges, List.flatMap_append, List.flatMap_singleton, amount_append,
          fresh.2] at balance ⊢
        omega
  | moved isAttempt open_ steps elapsed =>
      exact balanced.replace isAttempt rfl
        (fun orderly => TaskExecution.balances_proceed orderly (steps.task rfl rfl) _ _) rfl
        ⟨rfl, rfl⟩
  | lost isAttempt open_ asks sent serves elapsed =>
      exact balanced.replace isAttempt rfl (fun orderly => TaskExecution.balances_proceed orderly
        (Execution.receive_task _ _ _ _) _ _) rfl ⟨rfl, rfl⟩
  | supervisionLost isAttempt =>
      exact balanced.replace isAttempt rfl (fun orderly => ⟨rfl, orderly, fun _ => rfl⟩) rfl
        ⟨rfl, rfl⟩
  | dropped isAttempt open_ elapsed =>
      exact balanced.replace isAttempt rfl
        (fun orderly => TaskExecution.balances_conclude orderly open_ _ _) rfl ⟨rfl, rfl⟩
  | counted isAttempt isDue =>
      rename_i early late attempt paid value rest
      have orderly := balanced.orderly
      rw [isAttempt] at orderly
      constructor
      · intro other member
        rcases List.mem_append.mp member with inEarly | inRest
        · exact orderly other (by simp [inEarly])
        · rcases List.mem_cons.mp inRest with isNew | inLate
          · subst isNew
            exact (isDue ▸ List.suffix_cons _ rest : rest <:+ attempt.due).trans
              (orderly attempt (by simp))
          · exact orderly other (by simp [inLate])
      · intro counter
        obtain ⟨made, counts, balance⟩ := balanced.counted counter
        have sameCharges : ({ attempt with due := rest } : TaskExecution).charges =
          attempt.charges := rfl
        rw [claimAmount_snoc (fun _ => rfl) fun _ => rfl]
        by_cases isPaid : counter = paid
        · subst isPaid
          refine ⟨made + value.toNat, counts.increment value, ?_⟩
          simp only [due, charges, isAttempt, isDue, sameCharges, List.flatMap_append,
            List.flatMap_cons, amount_append, amount_cons, if_true] at balance ⊢
          omega
        · refine ⟨made, counts.increment_other isPaid value, ?_⟩
          simp only [due, charges, isAttempt, isDue, sameCharges, List.flatMap_append,
            List.flatMap_cons, amount_append, amount_cons, if_neg (Ne.symm isPaid)] at balance ⊢
          omega

/-- The counters of every reached handle are balanced. -/
theorem Run.balanced (run : Run space initial events final) : final.Balanced events := by
  refine run.induction ⟨fun _ impossible => absurd impossible List.not_mem_nil, fun counter => ?_⟩
    fun past source event target _ steps balanced => steps.balanced balanced
  exact ⟨0, QueueMetrics.counts_new counter, by cases counter <;> rfl⟩

/-! ## The accounts -/

/-- Claimed runs wait, are executed by one attempt, or are given up. -/
theorem Run.conserved (run : Run space initial events final) :
    (events.flatMap FleetEvent.forgottenTasks ++ (final.waiting.map Prod.snd ++
      final.attempts.map fun attempt => attempt.execution.task)).Perm
        (events.flatMap FleetEvent.claimedTasks) := by
  let stock (fleet : Fleet) : List ClaimedTask :=
    fleet.waiting.map Prod.snd ++ fleet.attempts.map fun attempt => attempt.execution.task
  have balanced : ∀ source label target, label ∈ events → Step space source label target →
      (label.forgottenTasks ++ stock target).Perm (stock source ++ label.claimedTasks) := by
    intro source label target _ steps
    have same : ∀ {early late : List TaskExecution} {attempt next : TaskExecution},
        source.attempts = early ++ attempt :: late →
        next.execution.task = attempt.execution.task →
        target.waiting = source.waiting → target.attempts = early ++ next :: late →
          stock target = stock source := by
      intro early late attempt next isAttempt sameTask sameWaiting isNext
      simp only [stock, isAttempt, isNext, sameWaiting, List.map_append, List.map_cons, sameTask]
    cases steps with
    | served | claimFailed => simp [FleetEvent.forgottenTasks, FleetEvent.claimedTasks, stock]
    | claimed serves =>
        simp only [stock, FleetEvent.forgottenTasks, FleetEvent.claimedTasks, List.nil_append,
          List.map_append, List.map_map, List.append_assoc]
        refine List.Perm.append_left _ ?_
        simpa using List.perm_append_comm
    | forgotten isWaiting =>
        simp only [stock, FleetEvent.forgottenTasks, FleetEvent.claimedTasks, isWaiting,
          List.map_append, List.map_cons, List.append_assoc, List.cons_append, List.nil_append,
          List.append_nil]
        exact List.perm_middle.symm
    | started isWaiting elapsed =>
        simp only [stock, FleetEvent.forgottenTasks, FleetEvent.claimedTasks, isWaiting,
          List.map_append, List.map_cons, List.map_nil, List.append_assoc, List.cons_append,
          List.nil_append, List.append_nil, TaskExecution.start_task]
        refine List.Perm.append_left _ ?_
        rw [← List.append_assoc]
        exact List.perm_append_singleton _ _
    | moved isAttempt open_ steps elapsed =>
        rw [same isAttempt ?_ rfl rfl]
        · exact List.Perm.of_eq (List.append_nil _).symm
        · rw [TaskExecution.proceed_execution]
          exact steps.task rfl rfl
    | lost isAttempt open_ asks sent serves elapsed =>
        rw [same isAttempt ?_ rfl rfl]
        · exact List.Perm.of_eq (List.append_nil _).symm
        · rw [TaskExecution.proceed_execution]
          exact Execution.receive_task _ _ _ _
    | supervisionLost isAttempt | dropped isAttempt | counted isAttempt =>
        rw [same isAttempt ?_ rfl rfl]
        · exact List.Perm.of_eq (List.append_nil _).symm
        · rfl
  have conserved := run.trace.conserved stock FleetEvent.forgottenTasks FleetEvent.claimedTasks
    balanced
  exact conserved

end Fleet

/-- The guard of the attempt has ended this way. -/
def TaskExecution.endedAs (guardEnd : GuardEnd) (attempt : TaskExecution) : Bool :=
  attempt.ended.any fun ended => ended.1 == guardEnd

/-- The time the guard of an attempt has measured. -/
def TaskExecution.elapsed (attempt : TaskExecution) : Nat :=
  attempt.ended.elim 0 Prod.snd

namespace GuardEnd

/-- Each way of ending has a counter of its own. -/
theorem counter_injective : Function.Injective counter := by
  intro first second same
  cases first with
  | dropped =>
      cases second with
      | dropped => rfl
      | finished outcome => cases outcome <;> cases same
  | finished outcome =>
      cases second with
      | dropped => cases outcome <;> cases same
      | finished other => cases outcome <;> cases other <;> first | rfl | cases same

theorem counter_ne_executions (guardEnd : GuardEnd) : guardEnd.counter ≠ .executions := by
  rcases guardEnd with outcome | _
  · cases outcome <;> exact QueueCounter.noConfusion
  · exact QueueCounter.noConfusion

theorem counter_ne_duration (guardEnd : GuardEnd) :
    guardEnd.counter ≠ .executionDurationNanoseconds := by
  rcases guardEnd with outcome | _
  · cases outcome <;> exact QueueCounter.noConfusion
  · exact QueueCounter.noConfusion

variable (guardEnd : GuardEnd) (elapsed : Nat)

@[simp] theorem amount_executions : amount .executions (guardEnd.increments elapsed) = 1 := by
  simp [increments, counter_ne_executions]

@[simp] theorem amount_duration :
    amount .executionDurationNanoseconds (guardEnd.increments elapsed) =
      min elapsed u64Max := by
  simp [increments, counter_ne_duration, toNat_u64OrMax]

@[simp] theorem amount_counter (other : GuardEnd) :
    amount other.counter (guardEnd.increments elapsed) = if guardEnd = other then 1 else 0 := by
  simp [increments, counter_injective.eq_iff, (counter_ne_executions other).symm,
    (counter_ne_duration other).symm]

theorem amount_claims {counter : QueueCounter}
    (isClaim : counter = .claimedRuns ∨ counter = .claimErrors) :
    amount counter (guardEnd.increments elapsed) = 0 := by
  rcases guardEnd with outcome | _
  · rcases isClaim with rfl | rfl <;> cases outcome <;> rfl
  · rcases isClaim with rfl | rfl <;> rfl

end GuardEnd

/-- The increments of attempts that have ended one way. -/
theorem amount_endedAs (guardEnd : GuardEnd) (attempts : List TaskExecution) :
    amount guardEnd.counter (attempts.flatMap TaskExecution.charges) =
      attempts.countP (TaskExecution.endedAs guardEnd) := by
  induction attempts with
  | nil => rfl
  | cons attempt rest inductionHypothesis =>
      have charged : amount guardEnd.counter attempt.charges =
          if attempt.endedAs guardEnd then 1 else 0 := by
        unfold TaskExecution.charges TaskExecution.endedAs
        cases attempt.ended with
        | none => rfl
        | some ended => simp
      rw [List.flatMap_cons, amount_append, inductionHypothesis, List.countP_cons, charged]
      omega

/-- The executions of attempts that have ended. -/
theorem amount_ended (attempts : List TaskExecution) :
    amount .executions (attempts.flatMap TaskExecution.charges) =
      attempts.countP fun attempt => attempt.ended.isSome := by
  induction attempts with
  | nil => rfl
  | cons attempt rest inductionHypothesis =>
      have charged : amount .executions attempt.charges =
          if attempt.ended.isSome then 1 else 0 := by
        unfold TaskExecution.charges
        cases attempt.ended with
        | none => rfl
        | some ended => simp
      rw [List.flatMap_cons, amount_append, inductionHypothesis, List.countP_cons, charged]
      omega

/-- The execution time of attempts that have ended. -/
theorem amount_elapsed (attempts : List TaskExecution) :
    min (amount .executionDurationNanoseconds (attempts.flatMap TaskExecution.charges)) u64Max =
      min (attempts.map TaskExecution.elapsed).sum u64Max := by
  induction attempts with
  | nil => rfl
  | cons attempt rest inductionHypothesis =>
      have charged : amount .executionDurationNanoseconds attempt.charges =
          min attempt.elapsed u64Max := by
        unfold TaskExecution.charges TaskExecution.elapsed
        cases attempt.ended with
        | none => rfl
        | some ended => simp
      rw [List.flatMap_cons, amount_append, charged, List.map_cons, List.sum_cons]
      omega

/-- What is due has been charged. -/
theorem amount_due_le (counter : QueueCounter) {attempts : List TaskExecution}
    (orderly : ∀ attempt ∈ attempts, attempt.Orderly) :
    amount counter (attempts.flatMap TaskExecution.due) ≤
      amount counter (attempts.flatMap TaskExecution.charges) := by
  induction attempts with
  | nil => exact le_rfl
  | cons attempt rest inductionHypothesis =>
      have later := inductionHypothesis fun other member =>
        orderly other (List.mem_cons_of_mem _ member)
      obtain ⟨paid, split⟩ := orderly attempt List.mem_cons_self
      rw [List.flatMap_cons, List.flatMap_cons, amount_append, amount_append, ← split,
        amount_append]
      omega

/-- Guards add nothing to the counters of claims. -/
theorem GuardEnd.claimAmount_counter (guardEnd : GuardEnd) (events : List FleetEvent) :
    claimAmount guardEnd.counter events = 0 := by
  rcases guardEnd with outcome | _
  · cases outcome <;> rfl
  · rfl

/-- Guards add nothing to other counters. -/
theorem amount_claims {counter : QueueCounter}
    (isClaim : counter = .claimedRuns ∨ counter = .claimErrors) (attempts : List TaskExecution) :
    amount counter (attempts.flatMap TaskExecution.charges) = 0 := by
  induction attempts with
  | nil => rfl
  | cons attempt rest inductionHypothesis =>
      have charged : amount counter attempt.charges = 0 := by
        unfold TaskExecution.charges
        cases attempt.ended with
        | none => rfl
        | some ended => exact GuardEnd.amount_claims ended.1 ended.2 isClaim
      rw [List.flatMap_cons, amount_append, inductionHypothesis, charged]

/-! ## One worker -/

/-- Only the statement of a supervision is served after `execute_task` has
returned. -/
theorem TaskWorker.Step.returned {worker : TaskWorker} {handler : Handler}
    {before after : WorkerState} {event : ExecutionEvent}
    (steps : worker.Step space handler before event after) {execution next : Execution}
    (isExecution : before.execution = some execution) (isNext : after.execution = some next)
    {result : Except Error Unit} (returned : execution.phase = .returned result) :
    next.phase = .returned result ∧
      ((∃ call, event = .served call) ∨ ∃ call, event = .supervised call) := by
  cases steps with
  | served serves =>
      have same : execution = next := Option.some.inj (isExecution.symm.trans isNext)
      exact ⟨same ▸ returned, Or.inl ⟨_, rfl⟩⟩
  | claimed idle => simp [idle] at isExecution
  | asked isOpen asks | rejected isOpen asks =>
      cases isExecution.symm.trans isOpen
      simp [Execution.statement?, returned] at asks
  | supervised isOpen asking serves =>
      cases isExecution.symm.trans isOpen
      cases isNext
      exact ⟨returned, Or.inr ⟨_, rfl⟩⟩
  | polled isOpen executing | observed isOpen executing | handled isOpen executing
  | handlerReturned isOpen executing =>
      cases isExecution.symm.trans isOpen
      simp [returned] at executing

namespace Fleet

/-- A handle executes the attempt of a worker. -/
structure Follows (fleet : Fleet) (worker : TaskWorker) (state : WorkerState) : Prop where
  world : fleet.world = state.world
  attempts : fleet.attempts.map (fun attempt => (attempt.worker, attempt.execution)) =
    state.execution.toList.map fun execution => (worker, execution)
  ended : ∀ attempt ∈ fleet.attempts, attempt.ended.isSome ↔
    ∃ result, attempt.execution.phase = .returned result

variable {worker : TaskWorker} {handler : Handler} {before after : WorkerState}
  {event : ExecutionEvent} {fleet : Fleet}

/-- The attempt of a worker is the only one. -/
theorem Follows.attempt (follows : fleet.Follows worker before) {execution : Execution}
    (isExecution : before.execution = some execution) :
    ∃ attempt, fleet.attempts = [attempt] ∧ attempt.worker = worker ∧
      attempt.execution = execution := by
  have attempts := follows.attempts
  rw [isExecution, Option.toList_some, List.map_singleton, List.map_eq_singleton_iff] at attempts
  obtain ⟨attempt, isAttempt, same⟩ := attempts
  exact ⟨attempt, isAttempt, congrArg Prod.fst same, congrArg Prod.snd same⟩

/-- A handle follows the step of an attempt. -/
theorem Follows.move (follows : fleet.Follows worker before)
    (steps : worker.Step space handler before event after) {execution next : Execution}
    (isExecution : before.execution = some execution) (isNext : after.execution = some next)
    (acts : ∀ call, event ≠ .served call) :
    ∃ later, Step space fleet (.moved event) later ∧ later.Follows worker after := by
  obtain ⟨attempt, isAttempt, sameWorker, sameExecution⟩ := follows.attempt isExecution
  have ended := follows.ended attempt (by rw [isAttempt]; exact List.mem_singleton_self _)
  have moves : attempt.worker.Step space handler
      { world := fleet.world, execution := some attempt.execution } event
      { world := after.world, execution := some next } := by
    rw [sameWorker, follows.world, sameExecution, ← isExecution, ← isNext]
    exact steps
  have stays : attempt.ended.isSome →
      (∃ result, next.phase = .returned result) ∧ ∃ call, event = .supervised call := by
    intro isEnded
    obtain ⟨result, returned⟩ := ended.mp isEnded
    have last := moves.returned rfl rfl returned
    refine ⟨⟨result, last.1⟩, last.2.resolve_left ?_⟩
    rintro ⟨call, isServed⟩
    exact acts call isServed
  have isOpen : attempt.ended = none ∨ ∃ call, event = .supervised call := by
    rw [← Option.not_isSome_iff_eq_none]
    exact (Classical.em attempt.ended.isSome).symm.imp_right fun isEnded => (stays isEnded).2
  have isOnly : fleet.attempts = [] ++ attempt :: [] := isAttempt
  refine ⟨_, .moved isOnly isOpen moves 0, rfl, ?_, ?_⟩
  · simp [isNext, TaskExecution.proceed_execution, TaskExecution.proceed_worker, sameWorker]
  · intro moved isMoved
    rw [List.nil_append, List.mem_singleton] at isMoved
    rw [isMoved]
    exact TaskExecution.proceed_ended (fun isEnded => (stays isEnded).1) _ 0

/-- A handle follows the claim of a worker, which leaves the other claimed runs
waiting. -/
theorem Follows.claim (follows : fleet.Follows worker before) (idle : before.execution = none)
    {quantity : Int} {tasks : List ClaimedTask} {task : ClaimedTask} {world : World}
    (serves : Served space before.world ⟨worker.claim quantity, .ok tasks⟩ world)
    (member : task ∈ tasks) :
    ∃ events later, Trace (Step space) fleet events later ∧
      later.Follows worker ⟨world, some (.start worker task)⟩ := by
  have unattempted : fleet.attempts = [] := by
    simpa [idle] using follows.attempts
  rw [← follows.world] at serves
  let claimed : Fleet :=
    { fleet with
      world := world
      metrics := fleet.metrics.recordClaimed tasks.length
      waiting := fleet.waiting ++ tasks.map fun task => (worker, task) }
  have claims : Step space fleet (.claimed ⟨worker.claim quantity, .ok tasks⟩ tasks) claimed :=
    .claimed serves
  have isWaiting : (worker, task) ∈ claimed.waiting :=
    List.mem_append_right _ (List.mem_map_of_mem member)
  obtain ⟨early, late, isWaiting⟩ := List.append_of_mem isWaiting
  refine ⟨_, _, .cons claims (.cons (.started isWaiting 0) (.nil _)), rfl, ?_, ?_⟩
  · simp [claimed, unattempted, TaskExecution.start, TaskExecution.proceed_execution,
      TaskExecution.proceed_worker]
  · intro attempt isAttempt
    have isAttempt : attempt = .start worker task 0 := by
      simpa [claimed, unattempted] using isAttempt
    rw [isAttempt]
    refine TaskExecution.proceed_ended ?_ none 0
    intro isEnded
    cases isEnded

/-- A handle follows every step of a worker. -/
theorem Follows.step (follows : fleet.Follows worker before)
    (steps : worker.Step space handler before event after) :
    ∃ events later, Trace (Step space) fleet events later ∧ later.Follows worker after := by
  have moves : ∀ execution next, before.execution = some execution →
      after.execution = some next → (∀ call, event ≠ .served call) →
      ∃ events later, Trace (Step space) fleet events later ∧ later.Follows worker after := by
    intro execution next isExecution isNext acts
    obtain ⟨later, moved, follows⟩ := follows.move steps isExecution isNext acts
    exact ⟨_, later, .cons moved (.nil _), follows⟩
  cases steps with
  | served serves =>
      rw [← follows.world] at serves
      exact ⟨_, _, .cons (.served serves) (.nil _), rfl, follows.attempts, follows.ended⟩
  | claimed idle serves member => exact follows.claim idle serves member
  | asked isExecution | rejected isExecution | polled isExecution | supervised isExecution
  | observed isExecution | handled isExecution | handlerReturned isExecution =>
      refine moves _ _ isExecution rfl ?_
      intro call
      exact ExecutionEvent.noConfusion

end Fleet

/-- The run of a worker is a run of its handle. -/
theorem TaskWorker.Run.fleet {worker : TaskWorker} {handler : Handler}
    {allows : WorkerState → ExecutionEvent → Prop} {initial : World}
    {events : List ExecutionEvent} {final : WorkerState}
    (run : worker.Run space handler allows initial events final) :
    ∃ events fleet, Fleet.Run space initial events fleet ∧ fleet.Follows worker final := by
  let holds (state : WorkerState) : Prop :=
    ∃ events fleet, Fleet.Run space initial events fleet ∧ fleet.Follows worker state
  have begins : holds { world := initial, execution := none } := by
    refine ⟨[], .start initial, ⟨run.empty, run.fresh, .nil _⟩, rfl, rfl, ?_⟩
    intro attempt isAttempt
    cases isAttempt
  have reached : holds final := by
    refine run.invariant begins ?_
    rintro before event after steps _ ⟨past, fleet, reached, follows⟩
    obtain ⟨more, later, goesOn, follows⟩ := follows.step steps
    have goesOn := reached.trace.append goesOn
    exact ⟨past ++ more, later, ⟨reached.empty, reached.fresh, goesOn⟩, follows⟩
  exact reached

/-- The guards of a handle make the increments that are due. -/
theorem Fleet.settles (fleet : Fleet) :
    ∃ events later, Trace (Fleet.Step space) fleet events later ∧ later.due = [] ∧
      later.attempts.map TaskExecution.ended = fleet.attempts.map TaskExecution.ended := by
  induction isLeft : fleet.due.length generalizing fleet with
  | zero => exact ⟨[], fleet, .nil _, List.eq_nil_of_length_eq_zero isLeft, rfl⟩
  | succ left inductionHypothesis =>
      have someDue : ¬∀ attempt ∈ fleet.attempts, attempt.due = [] := by
        intro nothing
        rw [Fleet.due, List.flatMap_eq_nil_iff.mpr nothing] at isLeft
        cases isLeft
      push Not at someDue
      obtain ⟨attempt, isMember, someDue⟩ := someDue
      obtain ⟨⟨counter, value⟩, rest, isDue⟩ := List.exists_cons_of_ne_nil someDue
      obtain ⟨early, late, isAttempt⟩ := List.append_of_mem isMember
      have counts : Fleet.Step space fleet .counted _ := .counted isAttempt isDue
      obtain ⟨events, later, goesOn, settled, sameEnds⟩ := inductionHypothesis
        { fleet with
          metrics := fleet.metrics.increment counter value
          attempts := early ++ { attempt with due := rest } :: late }
        (by
          simp only [Fleet.due, isAttempt, isDue, List.flatMap_append, List.flatMap_cons,
            List.length_append, List.length_cons] at isLeft ⊢
          omega)
      refine ⟨_, later, .cons counts goesOn, settled, ?_⟩
      rw [sameEnds, isAttempt]
      simp

/-- A worker has claimed and completed a run. -/
theorem Fleet.run_reports :
    ∃ events fleet attempt, Fleet.Run asciiSpace (.blank second) events fleet ∧
      fleet.attempts = [attempt] ∧ attempt.ended.isSome ∧
        attempt.execution.phase = .returned (.ok ()) := by
  obtain ⟨events, before, event, after, run, step, holds⟩ :=
    @TaskWorker.run_play asciiSpace reporter reports (fun _ _ => true) (fun _ _ => True) second
      (fun _ _ _ => trivial)
      [.serve (plainSubmission []), .claim, .execute, .execute, .handle] .execute
      (fun _ _ after => after.execution.any fun execution => execution.result?.any Except.isOk)
      (by decide +kernel)
  obtain ⟨execution, isExecution, returned⟩ := (Option.any_eq_true _ _).mp holds
  obtain ⟨result, isResult, isOk⟩ := (Option.any_eq_true _ _).mp returned
  obtain ⟨past, fleet, reached, follows⟩ := (run.snoc step trivial).fleet
  obtain ⟨attempt, isAttempt, _, sameExecution⟩ := follows.attempt isExecution
  rw [Execution.result?_eq_some, ← sameExecution] at isResult
  have member : attempt ∈ fleet.attempts := by
    rw [isAttempt]
    exact List.mem_singleton_self _
  refine ⟨past, fleet, attempt, reached, isAttempt,
    (follows.ended attempt member).mpr ⟨result, isResult⟩, ?_⟩
  cases result with
  | ok value => exact isResult
  | error error => cases isOk

/-! ## The law -/

/-- The counters of a handle agree with what its workers have done. -/
structure FleetAccounts (events : List FleetEvent) (fleet : Fleet) : Prop where
  claimedRuns : fleet.metrics.Counts .claimedRuns
    (events.flatMap FleetEvent.claimedTasks).length
  claimErrors : fleet.metrics.Counts .claimErrors (events.countP FleetEvent.failsClaim)
  /-- Every claimed run waits, is given up, or has one attempt. -/
  conserved : (events.flatMap FleetEvent.forgottenTasks ++ (fleet.waiting.map Prod.snd ++
    fleet.attempts.map fun attempt => attempt.execution.task)).Perm
      (events.flatMap FleetEvent.claimedTasks)
  /-- Nothing is counted before an attempt has ended. -/
  bounded : ∀ guardEnd, (fleet.metrics (GuardEnd.counter guardEnd)).toNat ≤
    fleet.attempts.countP (TaskExecution.endedAs guardEnd)
  /-- When no guard has increments left to make, every attempt that has ended is
  counted once, under the way it has ended. -/
  ended : fleet.due = [] → ∀ guardEnd, fleet.metrics.Counts guardEnd.counter
    (fleet.attempts.countP (TaskExecution.endedAs guardEnd))
  executions : fleet.due = [] → fleet.metrics.Counts .executions
    (fleet.attempts.countP fun attempt => attempt.ended.isSome)
  duration : fleet.due = [] → fleet.metrics.Counts .executionDurationNanoseconds
    (fleet.attempts.map TaskExecution.elapsed).sum

/-- No way of ending is counted more often than attempts have ended that way. -/
theorem Fleet.Run.counter_le {initial : World} {events : List FleetEvent} {final : Fleet}
    (run : Fleet.Run space initial events final) (guardEnd : GuardEnd) :
    (final.metrics guardEnd.counter).toNat ≤
      final.attempts.countP (TaskExecution.endedAs guardEnd) := by
  obtain ⟨made, counts, balance⟩ := run.balanced.counted guardEnd.counter
  rw [guardEnd.claimAmount_counter, Fleet.charges, amount_endedAs] at balance
  unfold QueueMetrics.Counts at counts
  omega

/-- The counters of every reached handle agree with what its workers have done. -/
theorem Fleet.Run.accounts {initial : World} {events : List FleetEvent} {final : Fleet}
    (run : Fleet.Run space initial events final) : FleetAccounts events final := by
  have balanced := run.balanced
  have settled : ∀ counter, final.due = [] → final.metrics.Counts counter
      (amount counter final.charges + claimAmount counter events) := by
    intro counter nothing
    obtain ⟨made, counts, balance⟩ := balanced.counted counter
    rw [nothing, amount_nil, Nat.add_zero] at balance
    exact balance ▸ counts
  have unpaid : ∀ counter, amount counter final.charges = 0 →
      final.metrics.Counts counter (claimAmount counter events) := by
    intro counter uncharged
    obtain ⟨made, counts, balance⟩ := balanced.counted counter
    have owed := amount_due_le counter balanced.orderly
    have paid : made = claimAmount counter events := by
      unfold Fleet.due Fleet.charges at *
      omega
    exact paid ▸ counts
  refine ⟨unpaid .claimedRuns ?_, unpaid .claimErrors ?_, run.conserved, run.counter_le,
    fun nothing guardEnd => ?_, fun nothing => ?_, fun nothing => ?_⟩
  · exact amount_claims (Or.inl rfl) _
  · exact amount_claims (Or.inr rfl) _
  · have counts := settled guardEnd.counter nothing
    rwa [guardEnd.claimAmount_counter, Fleet.charges, amount_endedAs] at counts
  · have counts := settled .executions nothing
    rwa [Fleet.charges, amount_ended] at counts
  · have counts := settled .executionDurationNanoseconds nothing
    unfold QueueMetrics.Counts at counts ⊢
    rw [counts]
    exact amount_elapsed _

/-- The attempt of a worker is counted. -/
theorem Fleet.Run.accounts_reports :
    ∃ initial events final, Fleet.Run asciiSpace initial events final ∧
      FleetAccounts events final ∧ final.metrics.Counts .executions 1 := by
  obtain ⟨past, fleet, attempt, reached, isAttempt, ended, _⟩ := Fleet.run_reports
  obtain ⟨more, final, goesOn, settled, sameEnds⟩ := @Fleet.settles asciiSpace fleet
  have quiet : Fleet.Run asciiSpace (.blank second) (past ++ more) final :=
    ⟨reached.empty, reached.fresh, reached.trace.append goesOn⟩
  refine ⟨_, _, final, quiet, quiet.accounts, ?_⟩
  have counted := quiet.accounts.executions settled
  have isOne : (final.attempts.map TaskExecution.ended).countP Option.isSome = 1 := by
    simp [sameEnds, isAttempt, ended]
  rw [List.countP_map] at isOne
  exact isOne ▸ counted

end Steda
