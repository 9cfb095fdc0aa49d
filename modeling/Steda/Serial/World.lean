import Steda.Serial.RunControl

/-!
# Consecutive worlds

A stored function reads the clock and draws identifiers in order, so the
readings and identifiers still to come are a later part of the same streams.
`Ready` says that the identifiers still to come are unused.
-/

namespace Steda

open Postgres Transaction Relational

variable {space : Char → Bool} {α : Type} {life : Life}

/-! ## Streams -/

/-- The readings and identifiers still to come after some more consumption. -/
structure World.Later (before after : World) : Prop where
  clock : ∃ readings, ∀ position, after.clock position = before.clock (readings + position)
  idents : ∃ drawn, ∀ position, after.idents position = before.idents (drawn + position)

namespace World.Later

theorem refl (world : World) : world.Later world where
  clock := ⟨0, fun position => by rw [Nat.zero_add]⟩
  idents := ⟨0, fun position => by rw [Nat.zero_add]⟩

theorem trans {first second third : World} (early : first.Later second)
    (late : second.Later third) : first.Later third where
  clock := by
    obtain ⟨readings, isSecond⟩ := early.clock
    obtain ⟨more, isThird⟩ := late.clock
    exact ⟨readings + more, fun position => by rw [isThird, isSecond, Nat.add_assoc]⟩
  idents := by
    obtain ⟨drawn, isSecond⟩ := early.idents
    obtain ⟨more, isThird⟩ := late.idents
    exact ⟨drawn + more, fun position => by rw [isThird, isSecond, Nat.add_assoc]⟩

theorem tick (world : World) : world.Later world.tick where
  clock := ⟨1, fun position => by rw [Session.tick_clock, Nat.add_comm]⟩
  idents := (refl world).idents

theorem draw (world : World) : world.Later world.draw where
  clock := (refl world).clock
  idents := ⟨1, fun position => by rw [Session.draw_idents, Nat.add_comm]⟩

theorem withStore (world : World) (store : Queue) : world.Later (world.withStore store) :=
  ⟨(refl world).clock, (refl world).idents⟩

/-- One command consumes at most one reading or identifier. -/
theorem handle (command : Command RowKey Change) (world : World) :
    world.Later ((storage space).handle command world).2 := by
  cases command with
  | read => exact refl world
  | lock key policy => exact refl world
  | clock => exact tick world
  | ident => exact draw world
  | write change =>
      simp only [Storage.handle]
      split
      · exact withStore world _
      · exact refl world
      · exact refl world

/-- A stored function consumes readings and identifiers in order. -/
theorem alone (program : Sql α) (world : World) : world.Later (alone space program world).2 :=
  Program.run_related refl trans handle program world

end World.Later

/-- Every reading of the clock is the same. -/
def World.Frozen (world : World) (time : Timestamp) : Prop := ∀ position, world.clock position = time

theorem World.Frozen.later {before after : World} {time : Timestamp} (frozen : before.Frozen time)
    (later : before.Later after) : after.Frozen time := by
  obtain ⟨readings, isAfter⟩ := later.clock
  exact fun position => (isAfter position).trans (frozen _)

/-! ## Unused identifiers -/

/-- A sound queue in which the identifiers still to come are unused. -/
structure World.Ready (space : Char → Bool) (world : World) : Prop where
  sound : world.store.Sound space
  distinct : Function.Injective world.idents
  unused : ∀ position, world.store.findRun (world.idents position) = none

namespace World.Ready

variable {world after : World}

theorem tick (ready : world.Ready space) : World.Ready space world.tick :=
  ⟨ready.sound, ready.distinct, ready.unused⟩

theorem draw (ready : world.Ready space) : World.Ready space world.draw where
  sound := ready.sound
  distinct := fun _ _ same => Nat.succ_injective (ready.distinct same)
  unused := fun position => ready.unused (position + 1)

/-- The next identifier names a fresh run. -/
theorem fresh (ready : world.Ready space) {transition : Transition}
    (next : ∀ newRun, transition.newRun? = some newRun → newRun = world.idents 0) :
    transition.Fresh world.store := by
  intro newRun isNew
  rw [next newRun isNew]
  exact ready.unused 0

end World.Ready

/-- Which runs exist after a transition is written. -/
theorem Transition.findRun_write (transition : Transition) (life : Life) (queue : Queue) (id : Uuid) :
    (transition.write life queue).findRun id = none ↔
      queue.findRun id = none ∧ transition.newRun? ≠ some id := by
  have put : ∀ run : RunRow, (queue.putRun run).findRun id = none ↔ queue.findRun id = none := by
    intro run
    have keeps : ∀ other, Change.putRun run ≠ .deleteTask other := fun _ => by simp
    rw [show (queue.putRun run).findRun id = _ from Queue.findRun_apply keeps queue id]
    simp [Change.onRun]
  have insert : ∀ (base : Queue) (run : RunRow), (base.insertRun run).findRun id = none ↔
      base.findRun id = none ∧ run.id ≠ id := by
    intro base run
    have keeps : ∀ other, Change.insertRun run ≠ .deleteTask other := fun _ => by simp
    rw [show (base.insertRun run).findRun id = _ from Queue.findRun_apply keeps base id]
    simp [Change.onRun]
  cases transition with
  | retry run observedAt reason newRun state availableAt =>
      change ((queue.putRun _).insertRun _).findRun id = none ↔ _
      rw [insert, put]
      simp [newRun?, after, RunRow.fresh]
  | reopen newRun nowAt =>
      change (queue.insertRun _).findRun id = none ↔ _
      rw [insert]
      simp [newRun?, after, RunRow.fresh]
  | _ =>
      change (queue.putRun _).findRun id = none ↔ _
      rw [put]
      simp [newRun?]

/-- A written transition keeps the queue sound. -/
theorem Queue.Shows.sound_write {queue : Queue} (shows_ : queue.Shows space life)
    (sound : queue.Sound space) {transition : Transition} (enabled : transition.Enabled space life)
    (fresh : transition.Fresh queue) : (transition.write life queue).Sound space where
  keyed := (shows_.write enabled fresh).keyed
  lives := by
    intro task
    have written := shows_.write enabled fresh
    by_cases own : life.task.id = task
    · subst own
      have rows := written.rows
      rw [Transition.after_id] at rows
      refine ⟨_, rows, ?_⟩
      intro present isPresent
      cases isPresent
      exact ⟨written.valid, Transition.after_id transition life⟩
    · rw [Transition.rowsOf_write (shows_.valid.owned _ life.last_mem_runs) own]
      exact sound.lives task

namespace World.Ready

variable {world : World}

/-- A world is still ready after a transition that creates no run. -/
theorem write (ready : world.Ready space) (shows_ : world.store.Shows space life)
    {transition : Transition} (enabled : transition.Enabled space life)
    (creates : transition.newRun? = none) :
    World.Ready space (world.withStore (transition.write life world.store)) where
  sound := shows_.sound_write ready.sound enabled fun newRun isNew => by
    rw [creates] at isNew
    cases isNew
  distinct := ready.distinct
  unused := by
    intro position
    rw [Session.withStore_store, Session.withStore_idents, Transition.findRun_write, creates]
    exact ⟨ready.unused position, by simp⟩

/-- A world is still ready after a transition that uses the next identifier. -/
theorem write_next (ready : world.Ready space) (shows_ : world.store.Shows space life)
    {transition : Transition} (enabled : transition.Enabled space life)
    (creates : transition.newRun? = some (world.idents 0)) :
    World.Ready space (world.draw.withStore (transition.write life world.store)) where
  sound := shows_.sound_write ready.sound enabled (ready.fresh fun newRun isNew => by
    rw [creates] at isNew
    exact (Option.some.inj isNew).symm)
  distinct := ready.draw.distinct
  unused := by
    intro position
    rw [Session.withStore_store, Transition.findRun_write, creates]
    refine ⟨ready.draw.unused position, ?_⟩
    intro same
    have positions := ready.distinct (Option.some.inj same)
    omega

end World.Ready

end Steda
