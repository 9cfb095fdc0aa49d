import Steda.Client.Executor
import Steda.Laws.Failing

/-!
# Keeping a lease

A worker that supervises its run at least once in every half of the lease keeps
it: a call that finds at most half of the lease left renews it in full, so more
than half is left after every call.
-/

namespace Steda

open Postgres Transaction Relational

variable {space : Char → Bool} {life : Life} {world : World} {seconds : Int}
  {observedAt : Timestamp}

/-! ## One call -/

/-- A life after a supervision that found its last run leased. -/
def Life.supervised (life : Life) (seconds : Int) (observedAt : Timestamp) : Life :=
  match life.last.claimExpiresAt with
  | none => life
  | some expiry =>
      if 2 * (expiry - observedAt) ≤ seconds * second then
        { life with last := life.last.renew (observedAt + seconds * second) }
      else life

theorem Life.supervised_task (life : Life) (seconds : Int) (observedAt : Timestamp) :
    (life.supervised seconds observedAt).task = life.task := by
  unfold supervised
  split
  · rfl
  · split <;> rfl

theorem Life.supervised_last_id (life : Life) (seconds : Int) (observedAt : Timestamp) :
    (life.supervised seconds observedAt).last.id = life.last.id := by
  unfold supervised
  split
  · rfl
  · split <;> rfl

theorem Life.supervised_last_state (life : Life) (seconds : Int) (observedAt : Timestamp) :
    (life.supervised seconds observedAt).last.state = life.last.state := by
  unfold supervised
  split
  · rfl
  · split <;> rfl

theorem Life.supervised_expiry (life : Life) {expiry : Timestamp}
    (isExpiry : life.last.claimExpiresAt = some expiry) (seconds : Int) (observedAt : Timestamp) :
    (life.supervised seconds observedAt).last.claimExpiresAt =
      some (if 2 * (expiry - observedAt) ≤ seconds * second
        then max expiry (observedAt + seconds * second) else expiry) := by
  unfold supervised
  simp only [isExpiry]
  split
  · simp only [RunRow.renew, isExpiry, Option.map_some, Option.getD_some]
  · exact isExpiry

/-- More than half of a lease is left. -/
def Life.HalfLeft (life : Life) (seconds : Int) (observedAt : Timestamp) : Prop :=
  ∃ expiry, life.last.claimExpiresAt = some expiry ∧
    seconds * second < 2 * (expiry - observedAt)

/-- A supervised lease has more than half left. -/
theorem Life.supervised_halfLeft (positive : 0 < seconds)
    (leased : Transition.Leased observedAt life) :
    (life.supervised seconds observedAt).HalfLeft seconds observedAt := by
  obtain ⟨expiry, isExpiry, early⟩ := leased
  have someTime : 0 < seconds * second := Int.mul_pos positive (by decide)
  unfold supervised
  simp only [isExpiry]
  split
  · refine ⟨max expiry (observedAt + seconds * second), ?_, ?_⟩
    · simp only [RunRow.renew, isExpiry, Option.map_some, Option.getD_some]
    · have atLeast := le_max_right expiry (observedAt + seconds * second)
      omega
  · rename_i plenty
    exact ⟨expiry, isExpiry, not_le.mp plenty⟩

/-- A new version of the last run that keeps the task row. -/
theorem Queue.Shows.putRenewed {queue : Queue} (shows_ : queue.Shows space life)
    (running : life.last.state = .running) (expiry : Timestamp) :
    (queue.putRun (life.last.renew expiry)).Shows space
      { life with last := life.last.renew expiry } where
  keyed := shows_.keyed.putRun _
  valid := by
    have enabled : (Transition.renew life.last.id 0 expiry).Enabled space life := ⟨rfl, running⟩
    exact Transition.valid_after shows_.valid enabled
  rows := by
    have owner : (life.last.renew expiry).taskId = life.task.id :=
      shows_.valid.owned life.last life.last_mem_runs
    have sameKey : (life.last.renew expiry).key = life.last.key := rfl
    rw [Queue.rowsOf_putRun]
    simp only [shows_.rows, Change.onRows, owner, if_true, Life.rows,
      shows_.replace_last sameKey]
    rfl

/-- Supervision of a leased run before its deadline reports it as running. -/
theorem alone_superviseRun_leased (shows_ : world.store.Shows space life)
    (running : life.last.state = .running) (positive : 0 < seconds)
    (notDue : life.task.due (some (world.clock 0)) = .ok false)
    (leased : Transition.Leased (world.clock 0) life) :
    ∃ store, alone space (superviseRun life.last.id (some seconds)) world =
        (.ok .running, Session.withStore world.tick store) ∧
      store.Shows space (life.supervised seconds (world.clock 0)) := by
  have renews : RenewsPositively (some seconds) := by
    rintro _ ⟨⟩
    exact positive
  have ticked : world.tick.store.Shows space life := shows_
  have begins := alone_superviseRun_of_running shows_ running renews
  rw [notDue] at begins
  obtain ⟨expiry, isExpiry, early⟩ := leased
  have isContext : (AttemptContext.ofRows life.last life.task (world.clock 0)).claimExpiresAt =
    some expiry := isExpiry
  simp only [superviseInTime, isContext, AttemptContext.observedAt_ofRows, not_le.mpr early,
    if_false] at begins
  unfold Life.supervised
  simp only [isExpiry]
  by_cases half : 2 * (expiry - world.clock 0) ≤ seconds * second
  · have checked := RunRow.check_renew (shows_.valid.runsChecked _ life.last_mem_runs) running
      (world.clock 0 + seconds * second)
    simp only [half, if_true] at begins ⊢
    rw [alone_then (alone_updateRun_last ticked rfl checked)] at begins
    exact ⟨_, begins, shows_.putRenewed running _⟩
  · simp only [half, if_false] at begins ⊢
    exact ⟨world.store, begins, shows_⟩

/-! ## Any number of calls -/

/-- Calls of `supervise_run` on the last run of a life, one world after the
other: between two calls nothing touches the task, no deadline is due at a
call, and the calls are at most half a lease apart. -/
structure Polled (space : Char → Bool) (life : Life) (seconds : Int)
    (worlds : Nat → World) : Prop where
  sound : ∀ call, (worlds call).store.Sound space
  begins : (worlds 0).store.rowsOf life.task.id = Life.rows (some life)
  undisturbed : ∀ call, (worlds (call + 1)).store.rowsOf life.task.id =
    ((Operation.superviseRun life.last.id (some seconds)).perform space
      (worlds call)).2.store.rowsOf life.task.id
  notDue : ∀ call, life.task.due (some ((worlds call).clock 0)) = .ok false
  increasing : ∀ call, (worlds call).clock 0 < (worlds (call + 1)).clock 0
  frequent : ∀ call,
    2 * ((worlds (call + 1)).clock 0 - (worlds call).clock 0) ≤ seconds * second

/-- What holds of the life a call finds. -/
structure Life.Kept (life : Life) (found : Life) (observedAt : Timestamp) : Prop where
  task : found.task = life.task
  run : found.last.id = life.last.id
  running : found.last.state = .running
  leased : Transition.Leased observedAt found

section Calls

variable {worlds : Nat → World}

/-- A call on a kept life returns, and leaves more than half of the lease. -/
theorem Life.Kept.call {found : Life} (positive : 0 < seconds)
    (shows_ : world.store.Shows space found) (sound : world.store.Sound space)
    (kept : life.Kept found (world.clock 0))
    (notDue : life.task.due (some (world.clock 0)) = .ok false) :
    ∃ after, (Operation.superviseRun life.last.id (some seconds)).perform space world =
        (.ok .running, after) ∧
      after.store.Shows space (found.supervised seconds (world.clock 0)) := by
  rw [← kept.task] at notDue
  obtain ⟨store, returned, showsAfter⟩ :=
    alone_superviseRun_leased shows_ kept.running positive notDue kept.leased
  rw [kept.run] at returned
  exact ⟨_, Operation.perform_returned sound returned, showsAfter⟩

/-- A lease with more than half left is valid at the next call. -/
theorem Life.HalfLeft.leased {later : Timestamp} (plenty : life.HalfLeft seconds observedAt)
    (soon : 2 * (later - observedAt) ≤ seconds * second) : Transition.Leased later life := by
  obtain ⟨expiry, isExpiry, left⟩ := plenty
  refine ⟨expiry, isExpiry, ?_⟩
  linarith

/-- Every call of a supervision finds a kept life. -/
theorem Polled.finds (polled : Polled space life seconds worlds)
    (positive : 0 < seconds) (running : life.last.state = .running)
    (leased : Transition.Leased ((worlds 0).clock 0) life) (call : Nat) :
    ∃ found, (worlds call).store.Shows space found ∧
      life.Kept found ((worlds call).clock 0) := by
  induction call with
  | zero =>
      exact ⟨life, (polled.sound 0).shows_of_rows polled.begins, rfl, rfl, running, leased⟩
  | succ call inductionHypothesis =>
      obtain ⟨found, shows_, kept⟩ := inductionHypothesis
      obtain ⟨after, performed, showsAfter⟩ :=
        kept.call positive shows_ (polled.sound call) (polled.notDue call)
      let now := (worlds call).clock 0
      have sameTask : (found.supervised seconds now).task = life.task :=
        (found.supervised_task _ _).trans kept.task
      have rows : (worlds (call + 1)).store.rowsOf (found.supervised seconds now).task.id =
          Life.rows (some (found.supervised seconds now)) := by
        rw [sameTask, polled.undisturbed call, performed, ← sameTask]
        exact showsAfter.rows
      refine ⟨_, (polled.sound (call + 1)).shows_of_rows rows, sameTask,
        (found.supervised_last_id _ _).trans kept.run,
        (found.supervised_last_state _ _).trans kept.running, ?_⟩
      exact (Life.supervised_halfLeft positive kept.leased).leased (polled.frequent call)

end Calls

/-- A run claimed with a lease of `seconds` that is supervised first within the
lease and then at least once in every half of it is reported as running by every
call, and every call leaves more than half of the lease; and the worker's own
interval is positive and at most half of the lease. -/
theorem lease_kept {earlier : Life} {worlds : Nat → World} {run : Uuid} {worker : String}
    {claimedAt : Timestamp} (atLeast : 1 ≤ seconds) (atMost : seconds ≤ i32Max)
    (claimed : life = (Transition.claim run worker claimedAt
      (claimedAt + seconds * second)).after earlier)
    (polled : Polled space life seconds worlds)
    (first : (worlds 0).clock 0 - claimedAt < seconds * second) :
    (∀ call, ∃ after row expiry,
      (Operation.superviseRun life.last.id (some seconds)).perform space (worlds call) =
          (.ok .running, after) ∧
        after.store.findRun life.last.id = some row ∧ row.state = .running ∧
        row.claimExpiresAt = some expiry ∧
        seconds * second < 2 * (expiry - (worlds call).clock 0)) ∧
      0 < (supervisionInterval seconds).toNanoseconds ∧
      2 * ((supervisionInterval seconds).toNanoseconds : Int) ≤ seconds * 1000000000 := by
  refine ⟨?_, supervisionInterval_bounds atLeast atMost⟩
  intro call
  have running : life.last.state = .running := by
    rw [claimed]
    rfl
  have leased : Transition.Leased ((worlds 0).clock 0) life := by
    refine ⟨claimedAt + seconds * second, ?_, ?_⟩
    · rw [claimed]
      rfl
    · linarith
  obtain ⟨found, shows_, kept⟩ := polled.finds atLeast running leased call
  obtain ⟨after, performed, showsAfter⟩ :=
    kept.call atLeast shows_ (polled.sound call) (polled.notDue call)
  obtain ⟨expiry, isExpiry, left⟩ := Life.supervised_halfLeft atLeast kept.leased
  refine ⟨after, _, expiry, performed, ?_, ?_, isExpiry, left⟩
  · rw [← kept.run, ← found.supervised_last_id seconds ((worlds call).clock 0)]
    exact showsAfter.findRun (Life.last_mem_runs _)
  · rw [found.supervised_last_state, kept.running]

/-- Supervision of the first attempt of a task, four times a second. -/
def polledWorld : Nat → World
  | 0 => { crowdedWorld 0 0 with clock := fun _ => 250000 }
  | call + 1 =>
      { crowdedWorld 0 0 with
        store := ((Operation.superviseRun 1 (some 1)).perform asciiSpace (polledWorld call)).2.store
        clock := fun _ => 250000 * (call + 2) }

theorem polledWorld_clock (call : Nat) : (polledWorld call).clock 0 = 250000 * (call + 1) := by
  cases call with
  | zero => rfl
  | succ call =>
      change (250000 : Int) * ((call : Int) + 2) = 250000 * (((call + 1 : Nat) : Int) + 1)
      push_cast
      ring

theorem polledWorld_sound (call : Nat) : (polledWorld call).store.Sound asciiSpace := by
  induction call with
  | zero => exact crowdedQueue_sound 0
  | succ call inductionHypothesis =>
      let performed := (Operation.superviseRun 1 (some 1)).perform asciiSpace (polledWorld call)
      have served : Served asciiSpace (polledWorld call) ⟨.superviseRun 1 (some 1), performed.1⟩
        performed.2 := rfl
      obtain ⟨_, _, _, _, advances⟩ := served.advances inductionHypothesis
      exact advances.sound

/-- A lease of one second, supervised four times a second for two seconds. -/
theorem lease_kept_second :
    (∃ after, (Operation.superviseRun 1 (some 1)).perform asciiSpace (polledWorld 0) =
      (.ok .running, after)) ∧
    ∃ after, (Operation.superviseRun 1 (some 1)).perform asciiSpace (polledWorld 7) =
      (.ok .running, after) := by
  have polled : Polled asciiSpace (crowdedLife 0) 1 polledWorld := by
    refine ⟨polledWorld_sound, crowdedQueue_rows 0, fun _ => rfl, fun _ => rfl, ?_, ?_⟩
    · intro call
      rw [polledWorld_clock, polledWorld_clock]
      push_cast
      linarith
    · intro call
      rw [polledWorld_clock, polledWorld_clock]
      push_cast
      unfold second
      linarith
  have claimed : crowdedLife 0 = (Transition.claim 1 "worker" 0 (0 + 1 * second)).after
      (crowdedLife 0) := rfl
  obtain ⟨calls, _⟩ := lease_kept le_rfl (by decide) claimed polled (by decide)
  obtain ⟨first, _, _, isFirst, _⟩ := calls 0
  obtain ⟨last, _, _, isLast, _⟩ := calls 7
  exact ⟨⟨first, isFirst⟩, last, isLast⟩

end Steda
