import Steda.Client.Errors
import Mathlib.Data.List.Induction
import Steda.Functions.Claiming
import Steda.Transaction.Trace

/-!
# The worker loop

`run_worker_loop` claims runs, spawns one attempt for each, and drains the
attempts in flight before it returns.  The loop, the attempts and the shutdown
signal take steps in any order.
-/

namespace Steda

open Transaction

/-! ## Worker options -/

instance nanosecondsPerSecond_neZero : NeZero 1000000000 := ⟨by decide⟩

/-- `std::time::Duration`. -/
structure Duration where
  seconds : UInt64
  nanoseconds : Fin 1000000000

/-- `i32::MAX`. -/
def i32Max : Nat := 2147483647

/-- `i32::try_from` on an unsigned integer. -/
def i32TryFrom (value : Nat) : Option Nat :=
  if value ≤ i32Max then some value else none

/-- `duration_seconds`. -/
def durationSeconds (duration : Duration) : Except Error Nat :=
  let seconds := duration.seconds.toNat + if 0 < duration.nanoseconds.val then 1 else 0
  if seconds < 2 ^ 64 then
    match i32TryFrom seconds with
    | some seconds => .ok seconds
    | none =>
        .error (.invalidOptions s!"duration must round to at most {i32Max} seconds")
  else .error (.invalidOptions "duration is too large to represent")

/-- `worker_lease_seconds`. -/
def workerLeaseSeconds (leaseDuration : Duration) : Except Error Nat :=
  durationSeconds leaseDuration

/-- `WorkerRuntime`. -/
structure WorkerRuntime where
  leaseDuration : Duration
  concurrency : Nat

/-- `WorkerRuntime::default`. -/
def WorkerRuntime.default : WorkerRuntime where
  leaseDuration := ⟨120, 0⟩
  concurrency := 1

/-- The local configuration of `WorkerBuilder` and its deferred error. -/
structure WorkerBuilder where
  runtime : WorkerRuntime
  error : Option Error

namespace WorkerBuilder

/-- `WorkerBuilder::new`. -/
def new : WorkerBuilder where
  runtime := .default
  error := none

/-- `WorkerBuilder::lease_duration`. -/
def leaseDuration (builder : WorkerBuilder) (leaseDuration : Duration) : WorkerBuilder :=
  if builder.error.isSome then builder
  else
    match durationSeconds leaseDuration with
    | .ok 0 =>
        { builder with
          error := some (.invalidOptions "lease duration must round to at least 1 second") }
    | .ok _ => { builder with runtime := { builder.runtime with leaseDuration } }
    | .error error => { builder with error := some error }

/-- `WorkerBuilder::concurrency`. -/
def concurrency (builder : WorkerBuilder) (concurrency : Nat) : WorkerBuilder :=
  if builder.error.isSome then builder
  else if concurrency = 0 then
    { builder with error := some (.invalidOptions "worker concurrency must be at least 1") }
  else if (i32TryFrom concurrency).isNone then
    { builder with
      error := some (.invalidOptions "worker concurrency exceeds PostgreSQL integer range") }
  else { builder with runtime := { builder.runtime with concurrency } }

end WorkerBuilder

/-- One option given to a builder. -/
inductive WorkerOption
  | leaseDuration (duration : Duration)
  | concurrency (value : Nat)

/-- Give one option to a builder. -/
def WorkerBuilder.apply (builder : WorkerBuilder) : WorkerOption → WorkerBuilder
  | .leaseDuration duration => builder.leaseDuration duration
  | .concurrency value => builder.concurrency value

/-- The builder after a sequence of options. -/
def WorkerBuilder.configure (options : List WorkerOption) : WorkerBuilder :=
  options.foldl WorkerBuilder.apply .new

/-- A configuration the loop can work with. -/
structure WorkerRuntime.Valid (runtime : WorkerRuntime) : Prop where
  positive : 0 < runtime.concurrency
  representable : runtime.concurrency ≤ i32Max
  lease : ∃ seconds, workerLeaseSeconds runtime.leaseDuration = .ok seconds

theorem i32TryFrom_of_le {value : Nat} (small : value ≤ i32Max) :
    i32TryFrom value = some value := if_pos small

theorem le_of_i32TryFrom {value result : Nat} (converted : i32TryFrom value = some result) :
    result = value ∧ value ≤ i32Max := by
  unfold i32TryFrom at converted
  split at converted
  case isTrue small => exact ⟨(Option.some.inj converted).symm, small⟩
  case isFalse => cases converted

theorem WorkerRuntime.default_valid : WorkerRuntime.default.Valid where
  positive := by decide
  representable := by decide
  lease := ⟨120, by rfl⟩

namespace WorkerBuilder

variable {builder : WorkerBuilder}

/-- An option never repairs a configuration error. -/
theorem apply_error {option : WorkerOption} (failed : builder.error.isSome) :
    builder.apply option = builder := by
  cases option with
  | leaseDuration duration => exact if_pos failed
  | concurrency value => exact if_pos failed

theorem leaseDuration_valid {duration : Duration} (valid : builder.runtime.Valid) :
    (builder.leaseDuration duration).runtime.Valid := by
  unfold leaseDuration
  split
  · exact valid
  · split
    · exact valid
    · rename_i seconds _ represented
      exact ⟨valid.positive, valid.representable, seconds, represented⟩
    · exact valid

theorem concurrency_valid {value : Nat} (valid : builder.runtime.Valid) :
    (builder.concurrency value).runtime.Valid := by
  unfold concurrency
  split
  · exact valid
  · split
    · exact valid
    · rename_i nonzero
      cases converted : i32TryFrom value with
      | none => exact valid
      | some result =>
          exact ⟨Nat.pos_of_ne_zero nonzero, (le_of_i32TryFrom converted).2, valid.lease⟩

theorem apply_valid {option : WorkerOption} (valid : builder.runtime.Valid) :
    (builder.apply option).runtime.Valid := by
  cases option with
  | leaseDuration duration => exact leaseDuration_valid valid
  | concurrency value => exact concurrency_valid valid

/-- Every sequence of options leaves a configuration the loop can work with. -/
theorem configure_valid (options : List WorkerOption) : (configure options).runtime.Valid := by
  unfold configure
  induction options using List.reverseRecOn with
  | nil => exact WorkerRuntime.default_valid
  | append_singleton options option inductionHypothesis =>
      rw [List.foldl_append]
      exact apply_valid inductionHypothesis

end WorkerBuilder

/-! ## Attempts -/

/-- What a joined attempt yields: the text of a `JoinError`, or the result of
the attempt's future. -/
abbrev Joined := Except String (Except Error Unit)

/-- `terminal_join_error`. -/
def terminalJoinError : Joined → Option Error
  | .ok (.ok ()) => none
  | .ok (.error error) => some error
  | .error text => some (.other s!"worker task join failed: {text}")

/-- The result of an attempt's future, from the result of `execute_task`. -/
def attemptResult : Except Error Unit → Except Error Unit
  | .ok () => .ok ()
  | .error error =>
      if error.isSettled || isTransientWorkerError error then .ok () else .error error

/-- How far a spawned attempt has come. -/
inductive Progress
  | spawned
  | executing
  | finished (joined : Joined)

/-- An attempt in the `JoinSet`. -/
structure Attempt where
  task : ClaimedTask
  progress : Progress

/-- Where the loop stands. -/
inductive Point
  | collecting
  | saturated
  | polling (available : Nat)
  | claiming (batch : Nat)
  | pausing
  | spawning (tasks : List ClaimedTask)
  | draining
  | returned (result : Except Error Unit)

/-- The state of `run_worker_loop`, with the shutdown signal. -/
structure WorkerLoop where
  point : Point
  executing : List Attempt
  terminalError : Option Error
  shutdown : Bool

/-- A step of the loop, of an attempt, or of the shutdown signal. -/
inductive LoopEvent
  | resolve
  | execute (task : ClaimedTask)
  | finish (task : ClaimedTask) (outcome : Joined)
  | join (task : ClaimedTask) (joined : Joined)
  | observeShutdown
  | claim (batch : Nat)
  | claimed (batch : Nat) (result : Except Error (List ClaimedTask))
  | rejectBatch
  | spawn (task : ClaimedTask)
  | pass

namespace WorkerLoop

/-- The loop when it starts. -/
def start (runtime : WorkerRuntime) : WorkerLoop where
  point :=
    match workerLeaseSeconds runtime.leaseDuration with
    | .ok _ => .collecting
    | .error error => .returned (.error error)
  executing := []
  terminalError := none
  shutdown := false

/-- The loop after it joined an attempt while it claims. -/
def joining (loop : WorkerLoop) (rest : List Attempt) (joined : Joined) : WorkerLoop :=
  match terminalJoinError joined with
  | some error =>
      { loop with executing := rest, terminalError := some error, point := .draining }
  | none => { loop with executing := rest, point := .collecting }

/-- The loop after its claim failed. -/
def claimFailed (loop : WorkerLoop) (error : Error) : WorkerLoop :=
  if isTransientWorkerError error then { loop with point := .pausing }
  else { loop with terminalError := some error, point := .draining }

/-- The result of the loop. -/
def result (loop : WorkerLoop) : Except Error Unit :=
  match loop.terminalError with
  | some error => .error error
  | none => .ok ()

/-- The points at which the loop looks at the shutdown signal. -/
def watches : Point → Bool
  | .saturated => true
  | .polling _ => true
  | .pausing => true
  | _ => false

end WorkerLoop

/-- A step of the worker loop under a configuration. -/
inductive WorkerLoop.Step (runtime : WorkerRuntime) :
    WorkerLoop → LoopEvent → WorkerLoop → Prop
  /-- The shutdown future becomes ready. -/
  | resolve (loop : WorkerLoop) : Step runtime loop .resolve { loop with shutdown := true }
  /-- A spawned attempt calls `execute_task`. -/
  | execute {loop : WorkerLoop} {earlier later : List Attempt} {task : ClaimedTask}
      (spawned : loop.executing = earlier ++ ⟨task, .spawned⟩ :: later) :
      Step runtime loop (.execute task)
        { loop with executing := earlier ++ ⟨task, .executing⟩ :: later }
  /-- `execute_task` returns or panics. -/
  | finish {loop : WorkerLoop} {earlier later : List Attempt} {task : ClaimedTask}
      (outcome : Joined) (running : loop.executing = earlier ++ ⟨task, .executing⟩ :: later) :
      Step runtime loop (.finish task outcome)
        { loop with
          executing := earlier ++ ⟨task, .finished (outcome.map attemptResult)⟩ :: later }
  /-- `try_join_next` yields an attempt at the top of the loop. -/
  | collect {loop : WorkerLoop} {earlier later : List Attempt} {task : ClaimedTask}
      {joined : Joined} (atTop : loop.point = .collecting)
      (finished : loop.executing = earlier ++ ⟨task, .finished joined⟩ :: later) :
      Step runtime loop (.join task joined) (loop.joining (earlier ++ later) joined)
  /-- `try_join_next` yields nothing. -/
  | collected {loop : WorkerLoop} (atTop : loop.point = .collecting)
      (none : ∀ attempt ∈ loop.executing, ∀ joined, attempt.progress ≠ .finished joined) :
      Step runtime loop .pass
        { loop with
          point :=
            if runtime.concurrency - loop.executing.length = 0 then .saturated
            else .polling (runtime.concurrency - loop.executing.length) }
  /-- `join_next` yields an attempt while there is no capacity. -/
  | release {loop : WorkerLoop} {earlier later : List Attempt} {task : ClaimedTask}
      {joined : Joined} (full : loop.point = .saturated)
      (finished : loop.executing = earlier ++ ⟨task, .finished joined⟩ :: later) :
      Step runtime loop (.join task joined) (loop.joining (earlier ++ later) joined)
  /-- `join_next` yields nothing because the set is empty. -/
  | releaseNone {loop : WorkerLoop} (full : loop.point = .saturated)
      (empty : loop.executing = []) :
      Step runtime loop .pass { loop with point := .collecting }
  /-- The loop sees the shutdown signal and stops claiming. -/
  | observeShutdown {loop : WorkerLoop} (watching : WorkerLoop.watches loop.point = true)
      (ready : loop.shutdown = true) :
      Step runtime loop .observeShutdown { loop with point := .draining }
  /-- A claim is issued. -/
  | claim {loop : WorkerLoop} {available batch : Nat}
      (polling : loop.point = .polling available) (pending : loop.shutdown = false)
      (converted : i32TryFrom available = some batch) :
      Step runtime loop (.claim batch) { loop with point := .claiming batch }
  /-- The batch size does not fit: the function returns and drops its attempts. -/
  | rejectBatch {loop : WorkerLoop} {available : Nat}
      (polling : loop.point = .polling available) (pending : loop.shutdown = false)
      (unconverted : i32TryFrom available = none) :
      Step runtime loop .rejectBatch
        { loop with
          executing := []
          point := .returned (.error
            (.invalidOptions "worker concurrency exceeds PostgreSQL integer range")) }
  /-- The claim succeeds. -/
  | claimed {loop : WorkerLoop} {batch : Nat} (tasks : List ClaimedTask)
      (claiming : loop.point = .claiming batch) :
      Step runtime loop (.claimed batch (.ok tasks))
        { loop with point := if tasks.isEmpty then .pausing else .spawning tasks }
  /-- The claim fails. -/
  | claimFailed {loop : WorkerLoop} {batch : Nat} (error : Error)
      (claiming : loop.point = .claiming batch) :
      Step runtime loop (.claimed batch (.error error)) (loop.claimFailed error)
  /-- The poll interval has passed. -/
  | resume {loop : WorkerLoop} (pausing : loop.point = .pausing) :
      Step runtime loop .pass { loop with point := .collecting }
  /-- An attempt is spawned for a claimed run. -/
  | spawn {loop : WorkerLoop} {task : ClaimedTask} {rest : List ClaimedTask}
      (spawning : loop.point = .spawning (task :: rest)) :
      Step runtime loop (.spawn task)
        { loop with
          executing := loop.executing ++ [⟨task, .spawned⟩]
          point := .spawning rest }
  /-- Every claimed run has its attempt. -/
  | spawned {loop : WorkerLoop} (spawning : loop.point = .spawning []) :
      Step runtime loop .pass { loop with point := .collecting }
  /-- `join_next` yields an attempt while the loop drains. -/
  | drain {loop : WorkerLoop} {earlier later : List Attempt} {task : ClaimedTask}
      {joined : Joined} (draining : loop.point = .draining)
      (finished : loop.executing = earlier ++ ⟨task, .finished joined⟩ :: later) :
      Step runtime loop (.join task joined)
        { loop with
          executing := earlier ++ later
          terminalError := loop.terminalError.or (terminalJoinError joined) }
  /-- Nothing is in flight: the function returns. -/
  | drained {loop : WorkerLoop} (draining : loop.point = .draining)
      (empty : loop.executing = []) :
      Step runtime loop .pass { loop with point := .returned loop.result }

end Steda
