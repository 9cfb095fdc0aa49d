import Steda.Biography
import Steda.Serial.Supervision

/-!
# Calls alone

A call on a sound queue commits what its stored function does alone, or leaves
the queue as it was when the function raises.
-/

namespace Steda

open Postgres Transaction

variable {space : Char → Bool}

/-- The deferred constraints hold whenever a stored function returns. -/
theorem Operation.perform_eq (operation : Operation) {world : World}
    (sound : world.store.Sound space) :
    operation.perform space world =
      match alone space (operation.program space) world with
      | (.ok result, after) => (.ok result, after)
      | (.error error, after) => (.error error, after.withStore world.store) := by
  have start : Settled space True .blank (Local.start world.store) := (settled_start sound).now
  have meets := (operation.guarantees_program (reports_anything True) tolerates_anything
    (Or.inr refuses_anything) start).meets (Local.consumed_start world)
  rw [Local.session_start] at meets
  unfold perform Storage.atomically alone
  rcases ran : (operation.program space).run (storage space).handle world with
    ⟨error | result, after⟩
  · rfl
  · rw [ran] at meets
    obtain ⟨final, consumed, isFinal, events, caused, later, _, settled⟩ := meets
    have deferred : (storage space).deferred after.store = .ok () := by
      rw [isFinal]
      exact settled.now.sound.deferred
    simp only [deferred]

/-- A world serves an operation. -/
theorem Served.perform (operation : Operation) (world : World) :
    Served space world ⟨operation, (operation.perform space world).1⟩
      (operation.perform space world).2 := rfl

/-- The answer of a call. -/
def Operation.answer (space : Char → Bool) (operation : Operation) (world : World) :
    Except SqlError operation.Result := (operation.perform space world).1

theorem Operation.answer_eq (operation : Operation) {world : World}
    (sound : world.store.Sound space) :
    operation.answer space world = (alone space (operation.program space) world).1 := by
  rw [answer, operation.perform_eq sound]
  rcases alone space (operation.program space) world with ⟨_ | _, _⟩ <;> rfl

/-- A call that raises changes no row. -/
theorem Operation.store_of_raised {operation : Operation} {world : World} {error : SqlError}
    (raised : operation.answer space world = .error error) :
    (operation.perform space world).2.store = world.store :=
  Storage.atomically_error_store (Prod.ext raised rfl)

/-- A call that raised has changed no row. -/
theorem Served.unchanged {operation : Operation} {error : SqlError} {before after : World}
    (served : Served space before ⟨operation, .error error⟩ after) : after.store = before.store :=
  Storage.atomically_error_store served

/-- A call whose stored function raises has raised. -/
theorem Served.of_raises {operation : Operation} {outcome : Except SqlError operation.Result}
    {error : SqlError} {before after : World}
    (served : Served space before ⟨operation, outcome⟩ after) (sound : before.store.Sound space)
    (raises : (alone space (operation.program space) before).1 = .error error) :
    outcome = .error error ∧ after.store = before.store := by
  have isOutcome : outcome = .error error :=
    (congrArg Prod.fst served).symm.trans ((operation.answer_eq sound).trans raises)
  subst isOutcome
  exact ⟨rfl, served.unchanged⟩

/-- A call whose stored function returns. -/
theorem Operation.perform_returned {operation : Operation} {world after : World}
    {result : operation.Result} (sound : world.store.Sound space)
    (returned : alone space (operation.program space) world = (.ok result, after)) :
    operation.perform space world = (.ok result, after) := by
  rw [operation.perform_eq sound, returned]

/-- A call whose stored function raises. -/
theorem Operation.perform_raised {operation : Operation} {world : World} {error : SqlError}
    (ready : world.Ready space)
    (raised : (alone space (operation.program space) world).1 = .error error) :
    ∃ after, operation.perform space world = (.error error, after) ∧
      after.store = world.store ∧ world.Later after ∧ after.Ready space := by
  have later := @World.Later.alone space _ (operation.program space) world
  rcases ran : alone space (operation.program space) world with ⟨failed | result, reached⟩
  · rw [ran] at raised later
    obtain ⟨drawn, isIdents⟩ := later.idents
    refine ⟨reached.withStore world.store, ?_, rfl, later.trans (World.Later.withStore _ _),
      ready.sound, ?_, ?_⟩
    · rw [operation.perform_eq ready.sound, ran, Except.error.inj raised]
    · intro first second same
      have positions := ready.distinct ((isIdents first).symm.trans (same.trans (isIdents second)))
      omega
    · intro position
      rw [Session.withStore_idents, isIdents]
      exact ready.unused _
  · rw [ran] at raised
    cases raised

/-- A world whose clock always reads the same time. -/
def World.stopped (world : World) (time : Timestamp) : World := { world with clock := fun _ => time }

theorem World.frozen_stopped (world : World) (time : Timestamp) :
    World.Frozen (world.stopped time) time := fun _ => rfl

theorem World.Ready.stopped {world : World} (ready : world.Ready space) (time : Timestamp) :
    World.Ready space (world.stopped time) :=
  ⟨ready.sound, ready.distinct, ready.unused⟩

/-- In every state a history reaches the identifiers to come are unused. -/
theorem History.ready {initial final : World} {calls : List Call}
    (history : History space initial calls final) : final.Ready space where
  sound := history.sound
  distinct := by
    obtain ⟨_, _, _, _, advances⟩ := history.advances
    intro first second same
    rw [advances.idents, advances.idents] at same
    have positions := history.fresh same
    omega
  unused := fun position => (history.unused position).2.2

end Steda
