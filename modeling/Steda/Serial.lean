import Steda.Functions.Retention

/-!
# Stored functions running alone

What each statement does when no other transaction interferes: locks read the
current row, updates write it, and the clock and the identifier stream advance.
-/

namespace Steda

open Postgres Transaction

variable {space : Char → Bool} {α β : Type}

/-- Execute a stored function alone, without committing it. -/
def alone (space : Char → Bool) (program : Sql α) (world : World) :
    Except SqlError α × World :=
  program.run (storage space).handle world

theorem alone_bind (program : Sql α) (next : α → Sql β) (world : World) :
    alone space (program >>= next) world =
      match alone space program world with
      | (.ok value, after) => alone space (next value) after
      | (.error error, after) => (.error error, after) := by
  simp only [alone, Program.run_bind]
  rcases Program.run (storage space).handle program world with ⟨_ | _, _⟩ <;> rfl

theorem alone_bind_ok {program : Sql α} {next : α → Sql β} {world after : World} {value : β} :
    alone space (program >>= next) world = (.ok value, after) ↔
      ∃ middle between, alone space program world = (.ok middle, between) ∧
        alone space (next middle) between = (.ok value, after) :=
  Program.run_bind_eq_ok

/-- A first part that returns hands its value on. -/
theorem alone_then {program : Sql α} {world after : World} {value : α}
    (first : alone space program world = (.ok value, after)) (next : α → Sql β) :
    alone space (program >>= next) world = alone space (next value) after := by
  rw [alone_bind, first]

/-- A first part that raises is the whole run. -/
theorem alone_stop {program : Sql α} {world after : World} {error : SqlError}
    (first : alone space program world = (.error error, after)) (next : α → Sql β) :
    alone space (program >>= next) world = (.error error, after) := by
  rw [alone_bind, first]

/-- A first part that raises is the whole run, whatever it leaves behind. -/
theorem alone_stop_fst {program : Sql α} {world : World} {error : SqlError}
    (first : (alone space program world).1 = .error error) (next : α → Sql β) :
    (alone space (program >>= next) world).1 = .error error := by
  rw [alone_bind]
  rcases ran : alone space program world with ⟨_ | value, after⟩
  · rw [ran] at first
    exact congrArg Except.error (Except.error.inj first)
  · rw [ran] at first
    cases first

@[simp] theorem alone_pure (value : α) (world : World) :
    alone space (pure value) world = (.ok value, world) := rfl

@[simp] theorem alone_raise (error : SqlError) (world : World) :
    alone space (.raise error : Sql α) world = (.error error, world) := rfl

@[simp] theorem alone_ofExcept (outcome : Except SqlError α) (world : World) :
    alone space (Program.ofExcept outcome) world = (outcome, world) :=
  Program.run_ofExcept outcome world

/-! ## Statements -/

@[simp] theorem alone_currentTime (world : World) :
    alone space currentTime world = (.ok (world.clock 0), world.tick) := by
  simp only [alone, currentTime, Program.run_issue]
  rfl

@[simp] theorem alone_uuidv7 (world : World) :
    alone space uuidv7 world = (.ok (world.idents 0), world.draw) := by
  simp only [alone, uuidv7, Program.run_issue]
  rfl

@[simp] theorem alone_snapshot (world : World) :
    alone space snapshot world = (.ok world.store, world) := by
  simp only [alone, snapshot, Program.run_issue]
  rfl

@[simp] theorem alone_lockTask (id : Uuid) (policy : LockPolicy) (world : World) :
    alone space (lockTask id policy) world = (.ok (world.store.findTask id), world) := by
  simp only [alone, lockTask, Program.run_bind, Program.run_issue]
  simp only [Storage.handle, storage, Queue.present, Program.run_pure]
  by_cases found : (world.store.findTask id).isSome = true
  · simp [found]
  · simp_all

@[simp] theorem alone_lockRun (id : Uuid) (policy : LockPolicy) (world : World) :
    alone space (lockRun id policy) world = (.ok (world.store.findRun id), world) := by
  simp only [alone, lockRun, Program.run_bind, Program.run_issue]
  simp only [Storage.handle, storage, Queue.present, Program.run_pure]
  by_cases found : (world.store.findRun id).isSome = true
  · simp [found]
  · simp_all

theorem alone_change (row : Change) (world : World) :
    alone space (change row) world =
      match Queue.attempt space row world.store with
      | .ok true => (.ok true, world.withStore (Queue.apply row world.store))
      | .ok false => (.ok false, world)
      | .error error => (.error error, world) := by
  simp only [alone, change, Program.run_issue]
  simp only [Storage.handle, storage]
  rcases Queue.attempt space row world.store with error | (_ | _) <;> rfl

theorem alone_updateTask {id : Uuid} {task : TaskRow} {world : World}
    (found : world.store.findTask id = some task) (set : TaskRow → TaskRow) :
    alone space (updateTask id set) world =
      match (set task).check space with
      | .ok () => (.ok (), world.withStore (world.store.putTask (set task)))
      | .error error => (.error error, world) := by
  simp only [updateTask, alone_bind, alone_lockTask, found, alone_change, Queue.attempt]
  cases (set task).check space <;> rfl

/-- Checks of a new version of a run. -/
def putRunCheck (space : Char → Bool) (queue : Queue) (run : RunRow) : Except SqlError Unit :=
  match Queue.attempt space (.putRun run) queue with
  | .ok _ => .ok ()
  | .error error => .error error

theorem alone_updateRun {id : Uuid} {run : RunRow} {world : World}
    (found : world.store.findRun id = some run) (set : RunRow → RunRow) :
    alone space (updateRun id set) world =
      match putRunCheck space world.store (set run) with
      | .ok () => (.ok (), world.withStore (world.store.putRun (set run)))
      | .error error => (.error error, world) := by
  simp only [updateRun, alone_bind, alone_lockRun, found, alone_change, putRunCheck,
    Queue.attempt]
  cases (set run).check space with
  | error error => rfl
  | ok _ =>
      by_cases blocked : (set run).state.active = true ∧
          world.store.hasOtherActiveRun (set run) = true
      · simp [blocked, bind, Except.bind, throw, throwThe, MonadExceptOf.throw]
      · simp [blocked, bind, Except.bind, pure, Except.pure, Queue.apply, alone]

/-! ## The gate -/

theorem alone_lockAttemptContext (runId : Uuid) (world : World) :
    alone space (lockAttemptContext runId) world =
      match world.store.findRun runId with
      | none => (.error (.runNotFound runId), world)
      | some run =>
          match world.store.findTask run.taskId with
          | none => (.error (.taskForRunNotFound run.taskId runId), world)
          | some task => (.ok (.ofRows run task (world.clock 0)), world.tick) := by
  simp only [lockAttemptContext, alone_bind, alone_lockRun]
  cases world.store.findRun runId with
  | none => rfl
  | some run =>
      simp only [alone_bind, alone_lockTask]
      cases world.store.findTask run.taskId with
      | none => rfl
      | some task => simp only [alone_bind, alone_currentTime, alone_pure]

/-- What the gate establishes when it lets an attempt pass. -/
theorem runningAttemptChecks_ok {runId : Uuid} {expectExpired : Option Bool}
    {context : AttemptContext} :
    runningAttemptChecks runId expectExpired context = .ok () ↔
      context.runState = .running ∧ context.taskState = .running ∧
        context.authoritativeRunId = runId ∧
        ∃ expiry, context.claimExpiresAt = some expiry ∧
          if expectExpired = some true then expiry ≤ context.observedAt
          else context.observedAt < expiry := by
  unfold runningAttemptChecks
  cases runState : context.runState <;> cases taskState : context.taskState <;>
    simp [bind, Except.bind, pure, Except.pure, throw, throwThe, MonadExceptOf.throw]
  by_cases authoritative : context.authoritativeRunId = runId
  · simp only [authoritative, true_and]
    cases context.claimExpiresAt with
    | none => simp
    | some expiry =>
        by_cases expired : expectExpired = some true
        · by_cases early : context.observedAt < expiry
          · simp [expired, early]
          · simp [expired, early, not_lt.mp early]
        · by_cases late : expiry ≤ context.observedAt
          · simp [expired, late, not_lt.mpr late]
          · simp [expired, late, not_le.mp late]
  · simp [authoritative]

theorem alone_lockRunningAttempt (runId : Uuid) (expectExpired : Option Bool)
    (world : World) :
    alone space (lockRunningAttempt runId expectExpired) world =
      match alone space (lockAttemptContext runId) world with
      | (.ok context, after) =>
          match runningAttemptChecks runId expectExpired context with
          | .ok () => (.ok context, after)
          | .error error => (.error error, after)
      | (.error error, after) => (.error error, after) := by
  simp only [lockRunningAttempt, alone_bind]
  rcases alone space (lockAttemptContext runId) world with ⟨error | context, after⟩
  · rfl
  · simp only [alone_ofExcept]
    cases runningAttemptChecks runId expectExpired context <;> rfl

end Steda
