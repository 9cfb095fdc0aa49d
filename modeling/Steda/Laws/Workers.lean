import Steda.Client.WorkerLoop

/-!
# What the worker loop keeps

Along every run of the loop the attempts in flight fit the configured
concurrency, every claimed run gets exactly one attempt, and nothing is claimed
once the loop has a reason to stop.  The function returns when nothing is in
flight, with an error exactly when a claim or an attempt failed for good.
-/

namespace Steda

open Transaction

/-! ## What a history of the loop shows -/

/-- The runs a step receives from a claim. -/
def LoopEvent.claimedTasks : LoopEvent → List ClaimedTask
  | .claimed _ (.ok tasks) => tasks
  | _ => []

/-- The runs a step passes to `execute_task`. -/
def LoopEvent.executedTasks : LoopEvent → List ClaimedTask
  | .execute task => [task]
  | _ => []

/-- The runs whose attempts a step joins. -/
def LoopEvent.joinedTasks : LoopEvent → List ClaimedTask
  | .join task _ => [task]
  | _ => []

/-- A claim answers with at most the requested number of runs. -/
def LoopEvent.Bounded : LoopEvent → Prop
  | .claimed batch (.ok tasks) => tasks.length ≤ batch
  | _ => True

/-- A claim or an attempt ends with an error the worker does not run through. -/
def LoopEvent.Fatal : LoopEvent → Prop
  | .finish _ (.ok (.error error)) =>
      error.isSettled = false ∧ isTransientWorkerError error = false
  | .finish _ (.error _) => True
  | .claimed _ (.error error) => isTransientWorkerError error = false
  | _ => False

/-- The loop sees the shutdown signal or a terminal error. -/
def LoopEvent.Stops : LoopEvent → Prop
  | .observeShutdown => True
  | .join _ joined => (terminalJoinError joined).isSome
  | .claimed _ (.error error) => isTransientWorkerError error = false
  | _ => False

/-- A configuration a builder accepts. -/
def WorkerRuntime.Accepted (runtime : WorkerRuntime) : Prop :=
  ∃ options, WorkerBuilder.configure options = ⟨runtime, none⟩

theorem WorkerRuntime.Accepted.valid {runtime : WorkerRuntime} (accepted : runtime.Accepted) :
    runtime.Valid := by
  obtain ⟨options, configured⟩ := accepted
  have valid := WorkerBuilder.configure_valid options
  rwa [configured] at valid

/-! ## Stocks of the loop -/

/-- Claimed runs without an attempt. -/
def Point.pending : Point → List ClaimedTask
  | .spawning tasks => tasks
  | _ => []

/-- Capacity the loop is about to fill. -/
def Point.demand : Point → Nat
  | .polling available => available
  | .claiming batch => batch
  | .spawning tasks => tasks.length
  | _ => 0

/-- The loop no longer claims. -/
def Point.Stopping : Point → Prop
  | .draining => True
  | .returned _ => True
  | _ => False

/-- The run of an attempt that has not started. -/
def Attempt.waiting (attempt : Attempt) : Option ClaimedTask :=
  match attempt.progress with
  | .spawned => some attempt.task
  | _ => none

/-- An attempt that ended with a terminal error. -/
def Attempt.Failed (attempt : Attempt) : Prop :=
  match attempt.progress with
  | .finished joined => (terminalJoinError joined).isSome
  | _ => False

namespace WorkerLoop

/-- Claimed runs whose attempts are kept in a stock, and those without one. -/
def stock (keep : Attempt → Option ClaimedTask) (loop : WorkerLoop) : List ClaimedTask :=
  loop.executing.filterMap keep ++ loop.point.pending

/-- Claimed runs not passed to `execute_task` yet. -/
def unstarted (loop : WorkerLoop) : List ClaimedTask :=
  loop.stock Attempt.waiting

/-- Claimed runs whose attempts are not joined yet. -/
def unjoined (loop : WorkerLoop) : List ClaimedTask :=
  loop.stock fun attempt => some attempt.task

/-- The attempts in flight and the claim under way fit the concurrency. -/
def Fits (runtime : WorkerRuntime) (loop : WorkerLoop) : Prop :=
  loop.executing.length + loop.point.demand ≤ runtime.concurrency

/-- The loop knows of a terminal error, or will when it joins its attempts. -/
def Failing (loop : WorkerLoop) : Prop :=
  loop.terminalError.isSome ∨ ∃ attempt ∈ loop.executing, attempt.Failed

/-- A loop that returned has joined its attempts and reports its error. -/
def Concluded (loop : WorkerLoop) : Prop :=
  ∀ outcome, loop.point = .returned outcome → loop.executing = [] ∧ outcome = loop.result

/-! ## Steps -/

variable {runtime : WorkerRuntime} {loop next : WorkerLoop} {event : LoopEvent}

theorem joining_executing {rest : List Attempt} {joined : Joined} :
    (loop.joining rest joined).executing = rest := by
  unfold joining
  split <;> rfl

theorem joining_pending {rest : List Attempt} {joined : Joined} :
    (loop.joining rest joined).point.pending = [] := by
  unfold joining
  split <;> rfl

theorem joining_demand {rest : List Attempt} {joined : Joined} :
    (loop.joining rest joined).point.demand = 0 := by
  unfold joining
  split <;> rfl

theorem claimFailed_executing {error : Error} :
    (loop.claimFailed error).executing = loop.executing := by
  unfold claimFailed
  split <;> rfl

theorem claimFailed_pending {error : Error} :
    (loop.claimFailed error).point.pending = [] := by
  unfold claimFailed
  split <;> rfl

theorem claimFailed_demand {error : Error} :
    (loop.claimFailed error).point.demand = 0 := by
  unfold claimFailed
  split <;> rfl

theorem watches_pending {point : Point} (watching : watches point = true) :
    point.pending = [] := by
  cases point with
  | spawning tasks => cases watching
  | _ => rfl

/-- A successful claim leaves its runs pending. -/
theorem claimed_pending (tasks : List ClaimedTask) :
    Point.pending (if tasks.isEmpty then .pausing else .spawning tasks) = tasks := by
  cases tasks with
  | nil => rfl
  | cons task rest => rfl

/-- No step makes the loop exceed its concurrency. -/
theorem Step.fits (step : Step runtime loop event next) (bounded : event.Bounded)
    (fits : loop.Fits runtime) : next.Fits runtime := by
  unfold Fits at fits ⊢
  cases step with
  | resolve => exact fits
  | execute spawned =>
      rw [spawned] at fits
      simpa using fits
  | finish outcome running =>
      rw [running] at fits
      simpa using fits
  | collect atTop finished =>
      rw [finished] at fits
      rw [joining_executing, joining_demand]
      simp only [List.length_append, List.length_cons] at fits ⊢
      omega
  | collected atTop none =>
      by_cases full : runtime.concurrency - loop.executing.length = 0
      · simp only [full, if_true, Point.demand]
        omega
      · simp only [full, if_false, Point.demand]
        omega
  | release full finished =>
      rw [finished] at fits
      rw [joining_executing, joining_demand]
      simp only [List.length_append, List.length_cons] at fits ⊢
      omega
  | releaseNone full empty =>
      simp only [Point.demand]
      omega
  | observeShutdown watching ready =>
      simp only [Point.demand]
      omega
  | claim polling pending converted =>
      rw [polling] at fits
      simpa only [Point.demand, (le_of_i32TryFrom converted).1] using fits
  | rejectBatch polling pending unconverted => exact Nat.zero_le _
  | claimed tasks claiming =>
      rw [claiming] at fits
      have most : tasks.length ≤ _ := bounded
      cases tasks with
      | nil =>
          simp only [List.isEmpty_nil, if_true, Point.demand]
          omega
      | cons task rest =>
          simp only [List.isEmpty_cons, Bool.false_eq_true, if_false, Point.demand] at fits ⊢
          omega
  | claimFailed error claiming =>
      rw [claimFailed_executing, claimFailed_demand]
      omega
  | resume pausing =>
      simp only [Point.demand]
      omega
  | spawn spawning =>
      rw [spawning] at fits
      simp only [Point.demand, List.length_append, List.length_cons, List.length_nil] at fits ⊢
      omega
  | spawned spawning =>
      simp only [Point.demand]
      omega
  | drain draining finished =>
      rw [finished] at fits
      simp only [List.length_append, List.length_cons] at fits ⊢
      omega
  | drained draining empty =>
      simp only [Point.demand]
      omega

/-- Within its configuration the loop never rejects a batch size. -/
theorem Step.accepts (step : Step runtime loop event next) (valid : runtime.Valid)
    (fits : loop.Fits runtime) : event ≠ .rejectBatch := by
  rintro rfl
  cases step with
  | @rejectBatch available polling pending unconverted =>
      have small : available ≤ runtime.concurrency := by
        unfold Fits at fits
        rw [polling] at fits
        exact (Nat.le_add_left _ _).trans fits
      rw [i32TryFrom_of_le (small.trans valid.representable)] at unconverted
      cases unconverted

/-- The steps take from a stock the runs whose attempts leave it. -/
structure Drains (keep : Attempt → Option ClaimedTask)
    (taken : LoopEvent → List ClaimedTask) : Prop where
  spawned : ∀ task, keep ⟨task, .spawned⟩ = some task
  execute : ∀ task, taken (.execute task) ++ (keep ⟨task, .executing⟩).toList =
    (keep ⟨task, .spawned⟩).toList
  finish : ∀ task outcome joined, taken (.finish task outcome) ++
    (keep ⟨task, .finished joined⟩).toList = (keep ⟨task, .executing⟩).toList
  join : ∀ task joined, taken (.join task joined) = (keep ⟨task, .finished joined⟩).toList
  resolve : taken .resolve = []
  observeShutdown : taken .observeShutdown = []
  claim : ∀ batch, taken (.claim batch) = []
  claimed : ∀ batch outcome, taken (.claimed batch outcome) = []
  spawn : ∀ task, taken (.spawn task) = []
  pass : taken .pass = []

theorem drains_waiting : Drains Attempt.waiting LoopEvent.executedTasks where
  spawned _ := rfl
  execute _ := rfl
  finish _ _ _ := rfl
  join _ _ := rfl
  resolve := rfl
  observeShutdown := rfl
  claim _ := rfl
  claimed _ _ := rfl
  spawn _ := rfl
  pass := rfl

theorem drains_task : Drains (fun attempt => some attempt.task) LoopEvent.joinedTasks where
  spawned _ := rfl
  execute _ := rfl
  finish _ _ _ := rfl
  join _ _ := rfl
  resolve := rfl
  observeShutdown := rfl
  claim _ := rfl
  claimed _ _ := rfl
  spawn _ := rfl
  pass := rfl

theorem filterMap_middle {α β : Type} (keep : α → Option β) (earlier later : List α)
    (value : α) :
    (earlier ++ value :: later).filterMap keep =
      earlier.filterMap keep ++ ((keep value).toList ++ later.filterMap keep) := by
  rw [List.filterMap_append, List.filterMap_cons]
  cases keep value with
  | none => rfl
  | some kept => rfl

/-- An attempt that moves on takes its run out of the stock. -/
theorem stock_moved {earlier later rest taken source target : List ClaimedTask}
    (same : taken ++ target = source) :
    (taken ++ (earlier ++ (target ++ later) ++ rest)).Perm
      (earlier ++ (source ++ later) ++ rest) := by
  have moved := List.perm_append_comm_assoc taken earlier (target ++ (later ++ rest))
  simpa only [← same, List.append_assoc] using moved

/-- An attempt that is joined takes its run out of the stock. -/
theorem stock_left {earlier later rest taken : List ClaimedTask} :
    (taken ++ (earlier ++ later ++ rest)).Perm (earlier ++ (taken ++ later) ++ rest) := by
  simpa only [List.append_assoc] using
    List.perm_append_comm_assoc taken earlier (later ++ rest)

/-- A step that moves no attempt and claims nothing keeps a stock. -/
theorem stock_kept {keep : Attempt → Option ClaimedTask} {taken : List ClaimedTask}
    (none : taken = []) (same : next.executing = loop.executing)
    (pending : next.point.pending = loop.point.pending) :
    (taken ++ next.stock keep).Perm (loop.stock keep ++ []) := by
  rw [none, List.nil_append, List.append_nil, stock, stock, same, pending]

/-- A step that joins an attempt takes its run out of a stock. -/
theorem stock_joined {keep : Attempt → Option ClaimedTask} {earlier later : List Attempt}
    {attempt : Attempt} {taken : List ClaimedTask} (same : taken = (keep attempt).toList)
    (finished : loop.executing = earlier ++ attempt :: later)
    (left : next.executing = earlier ++ later)
    (pending : next.point.pending = loop.point.pending) :
    (taken ++ next.stock keep).Perm (loop.stock keep ++ []) := by
  rw [same, List.append_nil, stock, stock, left, finished, pending, filterMap_middle,
    List.filterMap_append]
  exact stock_left

/-- Every step takes out of a stock, or adds to it, what its event shows. -/
theorem Step.balanced {keep : Attempt → Option ClaimedTask}
    {taken : LoopEvent → List ClaimedTask} (drains : Drains keep taken)
    (step : Step runtime loop event next) (accepts : event ≠ .rejectBatch) :
    (taken event ++ next.stock keep).Perm (loop.stock keep ++ event.claimedTasks) := by
  cases step with
  | resolve => exact stock_kept drains.resolve rfl rfl
  | execute spawned =>
      rw [stock, stock, spawned, filterMap_middle, filterMap_middle]
      exact (stock_moved (drains.execute _)).trans (List.Perm.of_eq (List.append_nil _).symm)
  | finish outcome running =>
      rw [stock, stock, running, filterMap_middle, filterMap_middle]
      exact (stock_moved (drains.finish _ _ _)).trans (List.Perm.of_eq (List.append_nil _).symm)
  | collect atTop finished =>
      refine stock_joined (drains.join _ _) finished joining_executing ?_
      rw [joining_pending, atTop]
      rfl
  | collected atTop none =>
      refine stock_kept drains.pass rfl ?_
      rw [atTop]
      split <;> rfl
  | release full finished =>
      refine stock_joined (drains.join _ _) finished joining_executing ?_
      rw [joining_pending, full]
      rfl
  | releaseNone full empty =>
      refine stock_kept drains.pass rfl ?_
      rw [full]
      rfl
  | observeShutdown watching ready =>
      exact stock_kept drains.observeShutdown rfl (watches_pending watching).symm
  | claim polling pending converted =>
      refine stock_kept (drains.claim _) rfl ?_
      rw [polling]
      rfl
  | rejectBatch polling pending unconverted => exact absurd rfl accepts
  | claimed tasks claiming =>
      rw [drains.claimed, List.nil_append, stock, stock, claimed_pending, claiming]
      exact List.Perm.of_eq (congrArg (· ++ tasks) (List.append_nil _).symm)
  | claimFailed error claiming =>
      refine stock_kept (drains.claimed _ _) claimFailed_executing ?_
      rw [claimFailed_pending, claiming]
      rfl
  | resume pausing =>
      refine stock_kept drains.pass rfl ?_
      rw [pausing]
      rfl
  | @spawn task rest spawning =>
      rw [drains.spawn, List.nil_append, stock, stock, spawning, filterMap_middle,
        drains.spawned]
      simp only [LoopEvent.claimedTasks, List.filterMap_nil, List.append_nil, Point.pending,
        Option.toList_some, List.append_assoc, List.singleton_append]
      exact .rfl
  | spawned spawning =>
      refine stock_kept drains.pass rfl ?_
      rw [spawning]
      rfl
  | drain draining finished =>
      exact stock_joined (drains.join _ _) finished rfl rfl
  | drained draining empty =>
      refine stock_kept drains.pass rfl ?_
      rw [draining]
      rfl

/-- An attempt fails exactly when its end is fatal. -/
theorem finish_failed {task : ClaimedTask} {outcome : Joined} :
    Attempt.Failed ⟨task, .finished (outcome.map attemptResult)⟩ ↔
      (LoopEvent.finish task outcome).Fatal := by
  cases outcome with
  | error text => exact iff_of_true rfl trivial
  | ok result =>
      cases result with
      | ok value => exact iff_of_false (by simp [Attempt.Failed, Except.map, attemptResult,
          terminalJoinError]) (by simp [LoopEvent.Fatal])
      | error error =>
          cases settled : error.isSettled <;> cases transient : isTransientWorkerError error <;>
            simp [Attempt.Failed, Except.map, attemptResult, terminalJoinError,
              LoopEvent.Fatal, settled, transient]

theorem exists_middle_iff {α : Type} {holds : α → Prop} {earlier later : List α} {value : α} :
    (∃ member ∈ earlier ++ value :: later, holds member) ↔
      holds value ∨ ∃ member ∈ earlier ++ later, holds member := by
  simp only [List.mem_append, List.mem_cons]
  constructor
  · rintro ⟨member, early | rfl | late, held⟩
    · exact .inr ⟨member, .inl early, held⟩
    · exact .inl held
    · exact .inr ⟨member, .inr late, held⟩
  · rintro (held | ⟨member, early | late, held⟩)
    · exact ⟨value, .inr (.inl rfl), held⟩
    · exact ⟨member, .inl early, held⟩
    · exact ⟨member, .inr (.inr late), held⟩

/-- Joining an attempt keeps what the loop knows of errors. -/
theorem joining_failing {earlier later : List Attempt} {task : ClaimedTask} {joined : Joined}
    (finished : loop.executing = earlier ++ ⟨task, .finished joined⟩ :: later) :
    (loop.joining (earlier ++ later) joined).Failing ↔ loop.Failing := by
  unfold Failing joining
  rw [finished, exists_middle_iff]
  cases error : terminalJoinError joined <;> simp [Attempt.Failed, error]

/-- The loop comes to know of a terminal error exactly when a claim or an
attempt ends with one. -/
theorem Step.failing (step : Step runtime loop event next) (accepts : event ≠ .rejectBatch) :
    next.Failing ↔ loop.Failing ∨ event.Fatal := by
  cases step with
  | resolve => exact (or_iff_left id).symm
  | execute spawned =>
      unfold Failing
      rw [spawned, exists_middle_iff, exists_middle_iff]
      simp only [Attempt.Failed, LoopEvent.Fatal, or_false]
  | @finish earlier later task outcome running =>
      unfold Failing
      rw [running, exists_middle_iff, exists_middle_iff, finish_failed]
      simp only [Attempt.Failed, false_or, or_assoc]
      exact or_congr_right or_comm
  | collect atTop finished =>
      rw [joining_failing finished]
      exact (or_iff_left id).symm
  | collected atTop none => exact (or_iff_left id).symm
  | release full finished =>
      rw [joining_failing finished]
      exact (or_iff_left id).symm
  | releaseNone full empty => exact (or_iff_left id).symm
  | observeShutdown watching ready => exact (or_iff_left id).symm
  | claim polling pending converted => exact (or_iff_left id).symm
  | rejectBatch polling pending unconverted => exact absurd rfl accepts
  | claimed tasks claiming => exact (or_iff_left id).symm
  | claimFailed error claiming =>
      unfold Failing WorkerLoop.claimFailed
      cases transient : isTransientWorkerError error <;> simp [LoopEvent.Fatal, transient]
  | resume pausing => exact (or_iff_left id).symm
  | spawn spawning =>
      unfold Failing
      rw [exists_middle_iff, List.append_nil]
      simp only [Attempt.Failed, false_or, LoopEvent.Fatal, or_false]
  | spawned spawning => exact (or_iff_left id).symm
  | @drain earlier later task joined draining finished =>
      unfold Failing
      rw [finished, exists_middle_iff]
      cases error : terminalJoinError joined <;>
        cases known : loop.terminalError <;>
          simp [Attempt.Failed, LoopEvent.Fatal, error]
  | drained draining empty => exact (or_iff_left id).symm

/-- The loop stops claiming exactly when it sees a reason to. -/
theorem Step.stopping (step : Step runtime loop event next) (accepts : event ≠ .rejectBatch) :
    next.point.Stopping ↔ loop.point.Stopping ∨ event.Stops := by
  cases step with
  | resolve => exact (or_iff_left id).symm
  | execute spawned => exact (or_iff_left id).symm
  | finish outcome running => exact (or_iff_left id).symm
  | @collect earlier later task joined atTop finished =>
      unfold joining
      rw [atTop]
      cases error : terminalJoinError joined <;> simp [Point.Stopping, LoopEvent.Stops, error]
  | collected atTop none =>
      rw [atTop]
      by_cases full : runtime.concurrency - loop.executing.length = 0 <;>
        simp [full, Point.Stopping, LoopEvent.Stops]
  | @release earlier later task joined full finished =>
      unfold joining
      rw [full]
      cases error : terminalJoinError joined <;> simp [Point.Stopping, LoopEvent.Stops, error]
  | releaseNone full empty =>
      rw [full]
      exact (or_iff_left id).symm
  | observeShutdown watching ready => exact iff_of_true trivial (.inr trivial)
  | claim polling pending converted =>
      rw [polling]
      exact (or_iff_left id).symm
  | rejectBatch polling pending unconverted => exact absurd rfl accepts
  | claimed tasks claiming =>
      rw [claiming]
      cases tasks <;> exact (or_iff_left id).symm
  | claimFailed error claiming =>
      unfold WorkerLoop.claimFailed
      rw [claiming]
      cases transient : isTransientWorkerError error <;>
        simp [Point.Stopping, LoopEvent.Stops, transient]
  | resume pausing =>
      rw [pausing]
      exact (or_iff_left id).symm
  | spawn spawning =>
      rw [spawning]
      exact (or_iff_left id).symm
  | spawned spawning =>
      rw [spawning]
      exact (or_iff_left id).symm
  | drain draining finished =>
      rw [draining]
      exact iff_of_true trivial (.inl trivial)
  | drained draining empty =>
      rw [draining]
      exact iff_of_true trivial (.inl trivial)

/-- A loop that returned stays as it is. -/
theorem Step.concluded (step : Step runtime loop event next) (accepts : event ≠ .rejectBatch)
    (concluded : loop.Concluded) : next.Concluded := by
  intro outcome returned
  cases step with
  | resolve => exact concluded outcome returned
  | execute spawned =>
      rw [(concluded outcome returned).1] at spawned
      exact absurd spawned.symm (List.append_ne_nil_of_right_ne_nil _ (List.cons_ne_nil _ _))
  | finish result running =>
      rw [(concluded outcome returned).1] at running
      exact absurd running.symm (List.append_ne_nil_of_right_ne_nil _ (List.cons_ne_nil _ _))
  | collect atTop finished =>
      unfold joining at returned
      split at returned <;> cases returned
  | collected atTop none =>
      simp only at returned
      split at returned <;> cases returned
  | release full finished =>
      unfold joining at returned
      split at returned <;> cases returned
  | rejectBatch polling pending unconverted => exact absurd rfl accepts
  | claimed tasks claiming =>
      simp only at returned
      split at returned <;> cases returned
  | claimFailed error claiming =>
      unfold WorkerLoop.claimFailed at returned
      split at returned <;> cases returned
  | drain draining finished =>
      rw [draining] at returned
      cases returned
  | drained draining empty =>
      cases returned
      exact ⟨empty, rfl⟩
  | _ => cases returned

/-! ## Runs -/

section Runs

variable {events : List LoopEvent}

theorem start_point (valid : runtime.Valid) : (start runtime).point = .collecting := by
  obtain ⟨seconds, leased⟩ := valid.lease
  simp only [start, leased]

theorem start_fits (valid : runtime.Valid) : (start runtime).Fits runtime := by
  unfold Fits
  rw [start_point valid]
  exact Nat.zero_le _

/-- The attempts in flight fit the concurrency all along a run. -/
theorem fits_run (valid : runtime.Valid) (bounded : ∀ event ∈ events, event.Bounded)
    (whole : Trace (Step runtime) (start runtime) events loop) : loop.Fits runtime := by
  have kept : ∀ past source event target, Step runtime source event target →
      ((∀ earlier ∈ past, earlier.Bounded) → source.Fits runtime) →
      (∀ earlier ∈ past ++ [event], earlier.Bounded) → target.Fits runtime := by
    intro past source event target step fits all
    refine step.fits (all event (List.mem_append_right _ List.mem_cons_self)) (fits ?_)
    exact fun earlier member => all earlier (List.mem_append_left _ member)
  exact whole.invariant_labels kept (fun _ => start_fits valid) bounded

/-- The loop never rejects a batch size. -/
theorem accepts_run (valid : runtime.Valid) (bounded : ∀ event ∈ events, event.Bounded)
    (whole : Trace (Step runtime) (start runtime) events loop) : .rejectBatch ∉ events := by
  intro member
  obtain ⟨earlier, later, rfl⟩ := List.append_of_mem member
  obtain ⟨source, target, early, step, late⟩ := whole.at_label
  have fits := fits_run valid
    (fun event inside => bounded event (List.mem_append_left _ inside)) early
  exact step.accepts valid fits rfl

section Accepting

variable (whole : Trace (Step runtime) (start runtime) events loop)
  (accepts : .rejectBatch ∉ events)
include whole accepts

/-- What has left a stock and what is still in it are the claimed runs. -/
theorem balanced_run (valid : runtime.Valid) {keep : Attempt → Option ClaimedTask}
    {taken : LoopEvent → List ClaimedTask} (drains : Drains keep taken) :
    (events.flatMap taken ++ loop.stock keep).Perm (events.flatMap LoopEvent.claimedTasks) := by
  have balanced := whole.conserved (stock keep) taken LoopEvent.claimedTasks
    fun source event target member step =>
      step.balanced drains fun same => accepts (same ▸ member)
  have empty : (start runtime).stock keep = [] := by
    rw [stock, start_point valid]
    rfl
  rwa [empty, List.nil_append] at balanced

/-- The loop stops claiming exactly when it saw a reason to. -/
theorem stopping_run (valid : runtime.Valid) :
    loop.point.Stopping ↔ ∃ event ∈ events, event.Stops := by
  rw [whole.recorded (fun loop => loop.point.Stopping) LoopEvent.Stops
    fun source event target member step => step.stopping fun same => accepts (same ▸ member),
    start_point valid]
  exact or_iff_right id

/-- The loop knows of an error exactly when a claim or an attempt ended with
one. -/
theorem failing_run : loop.Failing ↔ ∃ event ∈ events, event.Fatal := by
  rw [whole.recorded Failing LoopEvent.Fatal
    fun source event target member step => step.failing fun same => accepts (same ▸ member)]
  refine or_iff_right ?_
  rintro (known | ⟨attempt, member, failed⟩)
  · cases known
  · cases member

theorem concluded_run (valid : runtime.Valid) : loop.Concluded := by
  have kept : ∀ past source event target, Step runtime source event target →
      (.rejectBatch ∉ past → source.Concluded) →
      .rejectBatch ∉ past ++ [event] → target.Concluded := by
    intro past source event target step concluded fresh
    refine step.concluded (fun same => fresh ?_) (concluded fun member => fresh ?_)
    · exact List.mem_append_right _ (List.mem_singleton.mpr same.symm)
    · exact List.mem_append_left _ member
  refine whole.invariant_labels kept ?_ accepts
  intro _ outcome returned
  rw [start_point valid] at returned
  cases returned

end Accepting

/-- No claim is issued once the loop has seen a reason to stop. -/
theorem unstopped_before_claim (valid : runtime.Valid) {earlier later : List LoopEvent}
    {batch : Nat}
    (whole : Trace (Step runtime) (start runtime) (earlier ++ .claim batch :: later) loop)
    (accepts : .rejectBatch ∉ earlier ++ .claim batch :: later) :
    ∀ event ∈ earlier, ¬event.Stops := by
  intro event member stops
  obtain ⟨source, target, early, step, late⟩ := whole.at_label
  have stopping := (stopping_run early (fun inside => accepts (List.mem_append_left _ inside))
    valid).mpr ⟨event, member, stops⟩
  cases step with
  | claim polling pending converted =>
      rw [polling] at stopping
      exact stopping

/-- A loop that returned reports an error exactly when it knows of one. -/
theorem result_error (empty : loop.executing = []) :
    (∃ error, loop.result = .error error) ↔ loop.Failing := by
  unfold result Failing
  rw [empty]
  cases loop.terminalError <;> simp

/-- Under every configuration a builder accepts, and as long as no claim
answers with more runs than it asked for, the attempts in flight never exceed
the concurrency, every claimed run is passed to `execute_task` exactly once, no
claim follows the observation of the shutdown signal or of a terminal error,
the batch size always fits, and the function returns only when every attempt is
joined, with an error exactly when some claim or attempt ended with a terminal
one. -/
theorem keepsAccounts (accepted : runtime.Accepted)
    (bounded : ∀ event ∈ events, event.Bounded)
    (whole : Trace (Step runtime) (start runtime) events loop) :
    loop.executing.length ≤ runtime.concurrency ∧
      (events.flatMap LoopEvent.executedTasks ++ loop.unstarted).Perm
        (events.flatMap LoopEvent.claimedTasks) ∧
      (∀ earlier batch later, events = earlier ++ .claim batch :: later →
        ∀ event ∈ earlier, ¬event.Stops) ∧
      .rejectBatch ∉ events ∧
      ∀ outcome, loop.point = .returned outcome →
        loop.executing = [] ∧
        (events.flatMap LoopEvent.joinedTasks).Perm (events.flatMap LoopEvent.claimedTasks) ∧
        (events.flatMap LoopEvent.executedTasks).Perm
          (events.flatMap LoopEvent.claimedTasks) ∧
        ((∃ error, outcome = .error error) ↔ ∃ event ∈ events, event.Fatal) := by
  have valid := accepted.valid
  have accepts := accepts_run valid bounded whole
  have executed := balanced_run whole accepts valid drains_waiting
  have joined := balanced_run whole accepts valid drains_task
  refine ⟨?_, executed, ?_, accepts, ?_⟩
  · exact (Nat.le_add_right _ _).trans (fits_run valid bounded whole)
  · rintro earlier batch later rfl
    exact unstopped_before_claim valid whole accepts
  · intro outcome returned
    obtain ⟨empty, rfl⟩ := concluded_run whole accepts valid outcome returned
    have drained : ∀ keep, loop.stock keep = [] := by
      intro keep
      rw [stock, empty, returned]
      rfl
    rw [drained, List.append_nil] at executed joined
    refine ⟨empty, joined, executed, ?_⟩
    rw [result_error empty, failing_run whole accepts]

/-- A run that claims one task, executes it, and shuts down. -/
theorem keepsAccounts_shutdown :
    ∃ (runtime : WorkerRuntime) (events : List LoopEvent) (loop : WorkerLoop),
      runtime.Accepted ∧ loop.point = .returned (.ok ()) ∧
        (events.flatMap LoopEvent.claimedTasks).length = 1 ∧
        (events.flatMap LoopEvent.joinedTasks).Perm
          (events.flatMap LoopEvent.claimedTasks) := by
  let task : ClaimedTask := ⟨1, 1, 1, "double", .null, none⟩
  let runtime : WorkerRuntime := ⟨⟨120, 0⟩, 2⟩
  have accepted : runtime.Accepted := ⟨[.concurrency 2], rfl⟩
  let events : List LoopEvent :=
    [.pass, .claim 2, .claimed 2 (.ok [task]), .spawn task, .pass, .execute task,
      .finish task (.ok (.ok ())), .join task (.ok (.ok ())), .pass, .resolve,
      .observeShutdown, .pass]
  let loop : WorkerLoop := ⟨.returned (.ok ()), [], none, true⟩
  have whole : Trace (Step runtime) (start runtime) events loop := by
    refine .cons (.collected rfl (by rintro _ ⟨⟩)) ?_
    refine .cons (.claim rfl rfl rfl) ?_
    refine .cons (.claimed [task] rfl) ?_
    refine .cons (.spawn rfl) ?_
    refine .cons (.spawned rfl) ?_
    refine .cons (Step.execute (List.nil_append _).symm) ?_
    refine .cons (Step.finish (.ok (.ok ())) (List.nil_append _).symm) ?_
    refine .cons (Step.collect rfl (List.nil_append _).symm) ?_
    refine .cons (.collected rfl (by rintro _ ⟨⟩)) ?_
    refine .cons (.resolve _) ?_
    refine .cons (.observeShutdown rfl rfl) ?_
    exact .cons (.drained rfl rfl) (.nil _)
  have bounded : ∀ event ∈ events, event.Bounded := by
    simp [events, LoopEvent.Bounded]
  obtain ⟨_, _, _, _, ending⟩ := keepsAccounts accepted bounded whole
  exact ⟨runtime, events, loop, accepted, rfl, rfl, (ending _ rfl).2.1⟩

end Runs

end WorkerLoop
end Steda
