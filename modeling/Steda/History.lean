import Steda.Operation

/-!
# Histories of a queue

A history is a sequence of calls from an empty queue.  Every call advances the
queue by the events it has caused, so a whole history is one sequence of events
from the empty queue, and every state it passes through is sound.
-/

namespace Steda

open Postgres Transaction Relational

variable {space : Char → Bool}

/-! ## Advancing by events -/

/-- The queue went through a sequence of events, decided by the consumed clock
readings and named by the consumed identifiers. -/
structure Advances (space : Char → Bool) (before : World) (readings : List Timestamp)
    (drawn : List Uuid) (events : List Event) (after : World) : Prop where
  consumed : readings = (List.range readings.length).map before.clock
  clock : ∀ position, after.clock position = before.clock (readings.length + position)
  named : drawn = (List.range drawn.length).map before.idents
  idents : ∀ position, after.idents position = before.idents (drawn.length + position)
  stamped : ∀ event ∈ events, ∀ reading ∈ event.stamps, reading ∈ readings
  fresh : (events.flatMap Event.names).Sublist drawn
  sound : after.store.Sound space
  evolves : ∀ task, ∃ first last, before.store.rowsOf task = Life.rows first ∧
    after.store.rowsOf task = Life.rows last ∧ Evolves space True task events first last
  checkpoints : after.store.checkpoints = Event.replay events before.store.checkpoints

namespace Advances

variable {before middle after : World} {readings moreReadings : List Timestamp}
variable {drawn moreDrawn : List Uuid} {events more : List Event}

theorem refl (sound : before.store.Sound space) : Advances space before [] [] [] before where
  consumed := rfl
  clock := by simp
  named := rfl
  idents := by simp
  stamped := by simp
  fresh := List.Sublist.refl _
  sound := sound
  evolves := by
    intro task
    obtain ⟨life, rows, _⟩ := sound.lives task
    exact ⟨life, life, rows, rows, rfl⟩
  checkpoints := rfl

theorem map_range_append {α : Type} {first second : List α} {stream later : Nat → α}
    (isFirst : first = (List.range first.length).map stream)
    (shifted : ∀ position, later position = stream (first.length + position))
    (isSecond : second = (List.range second.length).map later) :
    first ++ second = (List.range (first ++ second).length).map stream := by
  rw [List.length_append, List.range_add, List.map_append, ← isFirst, List.map_map]
  congr 1
  rw [isSecond]
  simp only [List.length_map, List.length_range]
  apply List.map_congr_left
  intro position _
  exact shifted position

theorem trans (early : Advances space before readings drawn events middle)
    (late : Advances space middle moreReadings moreDrawn more after) :
    Advances space before (readings ++ moreReadings) (drawn ++ moreDrawn) (events ++ more)
      after where
  consumed := map_range_append early.consumed early.clock late.consumed
  clock := by
    intro position
    rw [late.clock, early.clock, List.length_append, Nat.add_assoc]
  named := map_range_append early.named early.idents late.named
  idents := by
    intro position
    rw [late.idents, early.idents, List.length_append, Nat.add_assoc]
  stamped := by
    intro event member reading isStamp
    rcases List.mem_append.mp member with isEarly | isLate
    · exact List.mem_append_left _ (early.stamped event isEarly reading isStamp)
    · exact List.mem_append_right _ (late.stamped event isLate reading isStamp)
  fresh := by
    rw [List.flatMap_append]
    exact early.fresh.append late.fresh
  sound := late.sound
  evolves := by
    intro task
    obtain ⟨first, second, firstRows, secondRows, earlyEvolves⟩ := early.evolves task
    obtain ⟨other, last, otherRows, lastRows, lateEvolves⟩ := late.evolves task
    have same : other = second := Life.rows_injective (otherRows.symm.trans secondRows)
    subst same
    exact ⟨first, last, firstRows, lastRows, earlyEvolves.append lateEvolves⟩
  checkpoints := by
    rw [late.checkpoints, early.checkpoints]
    simp [Event.replay]

/-- Fresh identifiers are drawn only once. -/
theorem names_nodup (advances : Advances space before readings drawn events after)
    (fresh : Function.Injective before.idents) : (events.flatMap Event.names).Nodup := by
  refine List.Nodup.sublist advances.fresh ?_
  rw [advances.named]
  exact List.nodup_range.map fresh

/-- The life of a task after the events. -/
theorem evolves_to (advances : Advances space before readings drawn events after) {task : Uuid}
    {first : Option Life} (rows : before.store.rowsOf task = Life.rows first) :
    ∃ last, after.store.rowsOf task = Life.rows last ∧
      Evolves space True task events first last := by
  obtain ⟨other, last, otherRows, lastRows, evolves⟩ := advances.evolves task
  have same : other = first := Life.rows_injective (otherRows.symm.trans rows)
  subst same
  exact ⟨last, lastRows, evolves⟩

end Advances

/-! ## Calls -/

/-- A call with its outcome. -/
structure Call where
  operation : Operation
  outcome : Except SqlError operation.Result

/-- The events a call with its outcome has caused.  A call that raised has
caused none. -/
def Call.Caused (space : Char → Bool) (call : Call) (events : List Event) : Prop :=
  match call.outcome with
  | .ok result => call.operation.Caused space result events
  | .error _ => events = []

/-- A call takes the queue from one state to the next. -/
def Served (space : Char → Bool) (before : World) (call : Call) (after : World) : Prop :=
  call.operation.perform space before = (call.outcome, after)

/-- Nothing is known about the errors of a call. -/
theorem reports_anything (quiet : Prop) : Reports quiet fun _ _ => True := by
  constructor <;> intros <;> trivial

theorem tolerates_anything : Tolerates fun _ _ => True := fun _ _ _ => trivial

theorem refuses_anything : Refuses fun _ _ => True := fun _ _ => trivial

/-- A call that raised has consumed readings and identifiers and nothing else. -/
theorem advances_of_rolledBack {before : World} {final : Tx}
    (sound : before.store.Sound space) (consumed : Local.Consumed before final) :
    Advances space before final.readings final.drawn []
      ((final.session (storage space) before).withStore before.store) where
  consumed := consumed.readings
  clock := fun _ => rfl
  named := consumed.drawn
  idents := fun _ => rfl
  stamped := by simp
  fresh := List.nil_sublist _
  sound := sound
  evolves := (Advances.refl sound).evolves
  checkpoints := rfl

/-- A transaction that has reached some events advances the queue by them. -/
theorem Reaches.advances {before : World} {final : Tx} {events : List Event}
    (reached : Reaches space True .blank events final) (consumed : Local.Consumed before final) :
    Advances space before final.readings final.drawn events
      (final.session (storage space) before) := by
  obtain ⟨later, extended, settled⟩ := reached
  have isEvents : later.events = events := extended.events.trans (List.nil_append _)
  have now := settled.now
  have committed := consumed.committed
  refine ⟨consumed.readings, fun _ => rfl, consumed.drawn, fun _ => rfl, ?_, ?_, ?_, ?_, ?_⟩
  · rw [← isEvents, now.readings]
    exact later.stamped
  · rw [← isEvents, now.drawn]
    exact later.named
  · exact now.sound
  · intro task
    obtain ⟨first, last, firstRows, lastRows, evolves⟩ := now.evolves task (by simp)
    rw [committed] at firstRows
    rw [isEvents] at evolves
    exact ⟨first, last, firstRows, lastRows, evolves⟩
  · have checkpoints := now.checkpoints
    rw [isEvents, committed] at checkpoints
    exact checkpoints

/-- Every call advances a sound queue by the events it has caused. -/
theorem Served.advances {before after : World} {call : Call}
    (served : Served space before call after) (sound : before.store.Sound space) :
    ∃ readings drawn events, call.Caused space events ∧
      Advances space before readings drawn events after := by
  obtain ⟨operation, outcome⟩ := call
  have start : Settled space True .blank (Local.start before.store) := (settled_start sound).now
  have meets := (operation.guarantees_program (reports_anything True) tolerates_anything
    (Or.inr refuses_anything)
    start).meets (Local.consumed_start before)
  rw [Local.session_start] at meets
  change operation.perform space before = (outcome, after) at served
  unfold Operation.perform Storage.atomically at served
  rcases ran : (operation.program space).run (storage space).handle before with
    ⟨error | result, reached⟩
  · rw [ran] at meets served
    obtain ⟨final, consumed, isFinal, _⟩ := meets
    obtain ⟨rfl, rfl⟩ := Prod.mk.inj served
    exact ⟨_, _, [], rfl, isFinal ▸ advances_of_rolledBack sound consumed⟩
  · rw [ran] at meets served
    obtain ⟨final, consumed, isFinal, events, caused, reaches⟩ := meets
    have advances := reaches.advances consumed
    rw [← isFinal] at advances
    simp only at served
    split at served
    · obtain ⟨rfl, rfl⟩ := Prod.mk.inj served
      exact ⟨_, _, events, caused, advances⟩
    · obtain ⟨rfl, rfl⟩ := Prod.mk.inj served
      exact ⟨_, _, [], rfl, isFinal ▸ advances_of_rolledBack sound consumed⟩

/-! ## Histories -/

/-- A sequence of calls from an empty queue with fresh identifiers. -/
structure History (space : Char → Bool) (initial : World) (calls : List Call) (final : World) :
    Prop where
  empty : ∃ cleanupTtl cleanupLimit, initial.store = Queue.empty cleanupTtl cleanupLimit
  fresh : Function.Injective initial.idents
  trace : Trace (Served space) initial calls final

/-- A sequence of calls advances a sound queue by the events of its calls. -/
theorem Trace.advances {before after : World} {calls : List Call}
    (trace : Trace (Served space) before calls after) (sound : before.store.Sound space) :
    ∃ readings drawn chunks, List.Forall₂ (Call.Caused space) calls chunks ∧
      Advances space before readings drawn chunks.flatten after := by
  induction trace with
  | nil state => exact ⟨[], [], [], .nil, Advances.refl sound⟩
  | cons head rest inductionHypothesis =>
      obtain ⟨readings, drawn, events, caused, early⟩ := head.advances sound
      obtain ⟨moreReadings, moreDrawn, chunks, moreCaused, late⟩ := inductionHypothesis early.sound
      exact ⟨_, _, events :: chunks, .cons caused moreCaused, early.trans late⟩

/-- Every state that calls reach from a sound queue is sound. -/
theorem Trace.sound {before after : World} {calls : List Call}
    (trace : Trace (Served space) before calls after) (sound : before.store.Sound space) :
    after.store.Sound space := by
  obtain ⟨_, _, _, _, advances⟩ := Trace.advances trace sound
  exact advances.sound

/-- Serve operations one after the other. -/
def World.serve (space : Char → Bool) : List Operation → World → List Call × World
  | [], world => ([], world)
  | operation :: rest, world =>
      let (outcome, after) := operation.perform space world
      let (calls, final) := World.serve space rest after
      (⟨operation, outcome⟩ :: calls, final)

theorem World.trace_serve (operations : List Operation) (world : World) :
    Trace (Served space) world (World.serve space operations world).1
      (World.serve space operations world).2 := by
  induction operations generalizing world with
  | nil => exact .nil world
  | cons operation rest inductionHypothesis =>
      exact .cons (rfl : operation.perform space world = _) (inductionHypothesis _)

/-- An empty queue whose clock advances by the same amount with every reading
and whose identifiers count up. -/
def World.blank (tick : Int) : World where
  store := Queue.empty 0 1
  clock := fun position => position * tick
  idents := fun position => position

/-- The blanks of an ASCII locale. -/
def asciiSpace (char : Char) : Bool := char == ' ' || ('\t' ≤ char && char ≤ '\r')

/-- Serving operations from a blank queue is a history. -/
theorem World.history_serve (operations : List Operation) (tick : Int) :
    History space (World.blank tick) (World.serve space operations (World.blank tick)).1
      (World.serve space operations (World.blank tick)).2 where
  empty := ⟨0, 1, rfl⟩
  fresh := fun _ _ same => same
  trace := World.trace_serve operations _

namespace History

variable {initial final : World} {calls : List Call}

theorem initial_sound (history : History space initial calls final) :
    initial.store.Sound space := by
  obtain ⟨cleanupTtl, cleanupLimit, isEmpty⟩ := history.empty
  rw [isEmpty]
  exact Queue.sound_empty space cleanupTtl cleanupLimit

/-- A history is one sequence of events from the empty queue. -/
theorem advances (history : History space initial calls final) :
    ∃ readings drawn chunks, List.Forall₂ (Call.Caused space) calls chunks ∧
      Advances space initial readings drawn chunks.flatten final :=
  Trace.advances history.trace history.initial_sound

/-- Every state a history reaches is sound. -/
theorem sound (history : History space initial calls final) : final.store.Sound space :=
  Trace.sound history.trace history.initial_sound

theorem initial_rows (history : History space initial calls final) (task : Uuid) :
    initial.store.rowsOf task = Life.rows none := by
  obtain ⟨cleanupTtl, cleanupLimit, isEmpty⟩ := history.empty
  rw [isEmpty]
  rfl

end History

end Steda
