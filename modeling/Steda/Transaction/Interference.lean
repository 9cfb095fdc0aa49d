import Steda.Transaction.ReadCommitted

/-!
# Transactions under interference

A transaction keeps its changes in a log until it commits and sees the
committed store with its own log applied.  Between two of its commands other
transactions may commit; `Rely` describes what they may do while the
transaction holds a set of locks.  `Ensures` is the weakest precondition of a
program under such interference: every answer the database may give leads to
the stated outcome.
-/

namespace Transaction

variable {σ κ ω ε τ ι α β : Type}

/-- What a transaction knows of itself: the store others have committed, its
own changes, its locks, and the readings and identifiers it consumed. -/
structure Local (σ κ ω τ ι : Type) where
  committed : σ
  log : List ω
  held : List κ
  readings : List τ
  drawn : List ι

namespace Local

/-- A transaction that has not done anything. -/
def start (committed : σ) : Local σ κ ω τ ι :=
  { committed, log := [], held := [], readings := [], drawn := [] }

/-- Another transaction replaced the committed store. -/
def withCommitted (state : Local σ κ ω τ ι) (committed : σ) : Local σ κ ω τ ι :=
  { state with committed := committed }

/-- Hold more locks. -/
def hold (state : Local σ κ ω τ ι) (keys : List κ) : Local σ κ ω τ ι :=
  { state with held := keys ++ state.held }

/-- Add a change to the log. -/
def record (state : Local σ κ ω τ ι) (change : ω) : Local σ κ ω τ ι :=
  { state with log := state.log ++ [change] }

/-- Consume a clock reading. -/
def observe (state : Local σ κ ω τ ι) (reading : τ) : Local σ κ ω τ ι :=
  { state with readings := state.readings ++ [reading] }

/-- Consume an identifier. -/
def draw (state : Local σ κ ω τ ι) (ident : ι) : Local σ κ ω τ ι :=
  { state with drawn := state.drawn ++ [ident] }

/-- The store as the transaction sees it. -/
def view (storage : Storage σ κ ω ε) (state : Local σ κ ω τ ι) : σ :=
  state.log.foldl (fun store change => storage.apply change store) state.committed

variable {storage : Storage σ κ ω ε}

@[simp] theorem view_start (committed : σ) :
    (start committed : Local σ κ ω τ ι).view storage = committed := rfl

@[simp] theorem view_hold (state : Local σ κ ω τ ι) (keys : List κ) :
    (state.hold keys).view storage = state.view storage := rfl

@[simp] theorem view_observe (state : Local σ κ ω τ ι) (reading : τ) :
    (state.observe reading).view storage = state.view storage := rfl

@[simp] theorem view_draw (state : Local σ κ ω τ ι) (ident : ι) :
    (state.draw ident).view storage = state.view storage := rfl

@[simp] theorem view_record (state : Local σ κ ω τ ι) (change : ω) :
    (state.record change).view storage = storage.apply change (state.view storage) := by
  simp [view, record]

@[simp] theorem withCommitted_self (state : Local σ κ ω τ ι) :
    state.withCommitted state.committed = state := rfl

@[simp] theorem withCommitted_withCommitted (state : Local σ κ ω τ ι) (first second : σ) :
    (state.withCommitted first).withCommitted second = state.withCommitted second := rfl

end Local

/-- What other transactions may do to the committed store while a set of locks
is held: nothing, several things in a row, and less when more is locked. -/
structure Rely (κ σ : Type) where
  moves : List κ → σ → σ → Prop
  refl : ∀ held store, moves held store store
  trans : ∀ {held first second third},
    moves held first second → moves held second third → moves held first third
  anti : ∀ {held more first second},
    held ⊆ more → moves more first second → moves held first second

namespace Rely

/-- No other transaction commits. -/
def alone : Rely κ σ where
  moves := fun _ before after => after = before
  refl := fun _ _ => rfl
  trans := fun first second => second.trans first
  anti := fun _ equal => equal

/-- A condition that no permitted interference can destroy. -/
def Stable (rely : Rely κ σ) (condition : Local σ κ ω τ ι → Prop)
    (state : Local σ κ ω τ ι) : Prop :=
  ∀ store, rely.moves state.held state.committed store →
    condition (state.withCommitted store)

variable {rely : Rely κ σ} {condition weaker : Local σ κ ω τ ι → Prop}
variable {state : Local σ κ ω τ ι}

theorem Stable.now (stable : rely.Stable condition state) : condition state :=
  stable state.committed (rely.refl _ _)

theorem Stable.after {store : σ} (stable : rely.Stable condition state)
    (moved : rely.moves state.held state.committed store) :
    rely.Stable condition (state.withCommitted store) := by
  intro later movedLater
  exact stable later (rely.trans moved movedLater)

theorem Stable.stable (stable : rely.Stable condition state) :
    rely.Stable (rely.Stable condition) state :=
  fun _ moved => stable.after moved

theorem Stable.mono (implies : ∀ state, condition state → weaker state)
    (stable : rely.Stable condition state) : rely.Stable weaker state :=
  fun store moved => implies _ (stable store moved)

theorem Stable.and (first : rely.Stable condition state) (second : rely.Stable weaker state) :
    rely.Stable (fun state => condition state ∧ weaker state) state :=
  fun store moved => ⟨first store moved, second store moved⟩

/-- Holding more locks keeps a stable condition that ignores the locks. -/
theorem Stable.hold (keys : List κ)
    (carries : ∀ state, condition state → weaker (state.hold keys))
    (stable : rely.Stable condition state) : rely.Stable weaker (state.hold keys) := by
  intro store moved
  exact carries _ (stable store
    (rely.anti (fun key member => List.mem_append_right keys member) moved))

theorem Stable.observe (reading : τ)
    (carries : ∀ state, condition state → weaker (state.observe reading))
    (stable : rely.Stable condition state) : rely.Stable weaker (state.observe reading) :=
  fun store moved => carries _ (stable store moved)

theorem Stable.draw (ident : ι)
    (carries : ∀ state, condition state → weaker (state.draw ident))
    (stable : rely.Stable condition state) : rely.Stable weaker (state.draw ident) :=
  fun store moved => carries _ (stable store moved)

/-- A change keeps a stable condition up to its effect. -/
theorem Stable.write (keys : List κ) (change : ω)
    (carries : ∀ store, rely.moves (keys ++ state.held) state.committed store →
      condition (state.withCommitted store) →
        weaker (((state.withCommitted store).hold keys).record change))
    (stable : rely.Stable condition state) :
    rely.Stable weaker ((state.hold keys).record change) := by
  intro store moved
  exact carries store moved (stable store
    (rely.anti (fun key member => List.mem_append_right keys member) moved))

end Rely

namespace Program

/-- What must hold for every answer to a command, once the interference before
it is over. -/
def Answers (storage : Storage σ κ ω ε) (raises : ε → Local σ κ ω τ ι → Prop) :
    (command : Command κ ω) → (command.Response σ τ ι → Local σ κ ω τ ι → Prop) →
      Local σ κ ω τ ι → Prop
  | .read, returns, state => returns (state.view storage) state
  | .lock key policy, returns, state =>
      (storage.present key (state.view storage) = true →
        returns (some (state.view storage)) (state.hold [key])) ∧
      (storage.present key (state.view storage) = false ∨ policy = .skipLocked →
        returns none state)
  | .write change, returns, state =>
      (storage.attempt change (state.view storage) = .ok true →
        returns true ((state.hold (storage.touches change)).record change)) ∧
      (storage.attempt change (state.view storage) = .ok false → returns false state) ∧
      (∀ error, storage.attempt change (state.view storage) = .error error →
        raises error state)
  | .clock, returns, state => ∀ reading, returns reading (state.observe reading)
  | .ident, returns, state => ∀ ident, returns ident (state.draw ident)

/-- A program under interference returns only values and raises only errors
that meet the two postconditions. -/
def Ensures (storage : Storage σ κ ω ε) (rely : Rely κ σ)
    (returns : α → Local σ κ ω τ ι → Prop) (raises : ε → Local σ κ ω τ ι → Prop) :
    Program (Command.Response σ τ ι (κ := κ) (ω := ω)) ε α → Local σ κ ω τ ι → Prop
  | .done value => rely.Stable (returns value)
  | .raise error => rely.Stable (raises error)
  | .perform command next =>
      rely.Stable fun state => Answers storage raises command
        (fun answer state => (next answer).Ensures storage rely returns raises state) state

variable {storage : Storage σ κ ω ε} {rely : Rely κ σ}
variable {raises : ε → Local σ κ ω τ ι → Prop} {state : Local σ κ ω τ ι}

theorem Answers.mono {command : Command κ ω}
    {returns weaker : command.Response σ τ ι → Local σ κ ω τ ι → Prop}
    {weakerRaises : ε → Local σ κ ω τ ι → Prop}
    (implies : ∀ answer state, returns answer state → weaker answer state)
    (impliesRaises : ∀ error state, raises error state → weakerRaises error state)
    (answers : Answers storage raises command returns state) :
    Answers storage weakerRaises command weaker state := by
  cases command with
  | read => exact implies _ _ answers
  | lock key policy =>
      exact ⟨fun found => implies _ _ (answers.1 found),
        fun missing => implies _ _ (answers.2 missing)⟩
  | write change =>
      exact ⟨fun written => implies _ _ (answers.1 written),
        fun dropped => implies _ _ (answers.2.1 dropped),
        fun error refused => impliesRaises _ _ (answers.2.2 error refused)⟩
  | clock => exact fun reading => implies _ _ (answers reading)
  | ident => exact fun ident => implies _ _ (answers ident)

variable {program : Program (Command.Response σ τ ι (κ := κ) (ω := ω)) ε α}
variable {returns weaker : α → Local σ κ ω τ ι → Prop}

/-- The rule of consequence. -/
theorem Ensures.mono {weakerRaises : ε → Local σ κ ω τ ι → Prop}
    (implies : ∀ value state, returns value state → weaker value state)
    (impliesRaises : ∀ error state, raises error state → weakerRaises error state)
    (ensures : program.Ensures storage rely returns raises state) :
    program.Ensures storage rely weaker weakerRaises state := by
  induction program generalizing state with
  | done value => exact Rely.Stable.mono (implies value) ensures
  | raise error => exact Rely.Stable.mono (impliesRaises error) ensures
  | perform command next inductionHypothesis =>
      intro store moved
      exact Answers.mono (fun answer _ later => inductionHypothesis answer later)
        impliesRaises (ensures store moved)

/-- Interference before a program is part of its precondition. -/
theorem Ensures.after {store : σ} (ensures : program.Ensures storage rely returns raises state)
    (moved : rely.moves state.held state.committed store) :
    program.Ensures storage rely returns raises (state.withCommitted store) := by
  cases program with
  | done value => exact Rely.Stable.after ensures moved
  | raise error => exact Rely.Stable.after ensures moved
  | perform command next => exact Rely.Stable.after ensures moved

/-- The rule of composition. -/
theorem Ensures.bind {next : α → Program (Command.Response σ τ ι (κ := κ) (ω := ω)) ε β}
    {returns : β → Local σ κ ω τ ι → Prop}
    (ensures : program.Ensures storage rely
      (fun value state => (next value).Ensures storage rely returns raises state) raises state) :
    (program >>= next).Ensures storage rely returns raises state := by
  induction program generalizing state with
  | done value => exact Rely.Stable.now ensures
  | raise error => exact ensures
  | perform command rest inductionHypothesis =>
      intro store moved
      exact Answers.mono (fun answer _ later => inductionHypothesis answer later)
        (fun _ _ raised => raised) (ensures store moved)

theorem ensures_ofExcept {outcome : Except ε α}
    (returned : ∀ value, outcome = .ok value → rely.Stable (returns value) state)
    (raised : ∀ error, outcome = .error error → rely.Stable (raises error) state) :
    (ofExcept outcome : Program (Command.Response σ τ ι (κ := κ) (ω := ω)) ε α).Ensures
      storage rely returns raises state := by
  cases outcome with
  | ok value => exact returned value rfl
  | error error => exact raised error rfl

section Commands

variable {raises : ε → Local σ κ ω τ ι → Prop} {condition : Local σ κ ω τ ι → Prop}

theorem ensures_read {returns : σ → Local σ κ ω τ ι → Prop}
    (answered : ∀ store, rely.moves state.held state.committed store →
      rely.Stable (returns ((state.withCommitted store).view storage))
        (state.withCommitted store)) :
    (issue (.read : Command κ ω) :
      Program (Command.Response σ τ ι (κ := κ) (ω := ω)) ε σ).Ensures
      storage rely returns raises state := answered

theorem ensures_lock {key : κ} {policy : LockPolicy}
    {returns : Option σ → Local σ κ ω τ ι → Prop}
    (locked : ∀ store, rely.moves state.held state.committed store →
      storage.present key ((state.withCommitted store).view storage) = true →
        rely.Stable (returns (some ((state.withCommitted store).view storage)))
          ((state.withCommitted store).hold [key]))
    (missed : ∀ store, rely.moves state.held state.committed store →
      storage.present key ((state.withCommitted store).view storage) = false ∨
          policy = .skipLocked →
        rely.Stable (returns none) (state.withCommitted store)) :
    (issue (.lock key policy : Command κ ω) :
      Program (Command.Response σ τ ι (κ := κ) (ω := ω)) ε (Option σ)).Ensures
      storage rely returns raises state :=
  fun store moved => ⟨locked store moved, missed store moved⟩

theorem ensures_write {change : ω} {returns : Bool → Local σ κ ω τ ι → Prop}
    (written : ∀ store, rely.moves state.held state.committed store →
      storage.attempt change ((state.withCommitted store).view storage) = .ok true →
        rely.Stable (returns true)
          (((state.withCommitted store).hold (storage.touches change)).record change))
    (dropped : ∀ store, rely.moves state.held state.committed store →
      storage.attempt change ((state.withCommitted store).view storage) = .ok false →
        rely.Stable (returns false) (state.withCommitted store))
    (refused : ∀ store, rely.moves state.held state.committed store →
      ∀ error, storage.attempt change ((state.withCommitted store).view storage) =
          .error error → raises error (state.withCommitted store)) :
    (issue (.write change : Command κ ω) :
      Program (Command.Response σ τ ι (κ := κ) (ω := ω)) ε Bool).Ensures
      storage rely returns raises state :=
  fun store moved => ⟨written store moved, dropped store moved, refused store moved⟩

theorem ensures_clock {returns : τ → Local σ κ ω τ ι → Prop}
    (stable : rely.Stable condition state)
    (carries : ∀ reading state, condition state → returns reading (state.observe reading)) :
    (issue (.clock : Command κ ω) :
      Program (Command.Response σ τ ι (κ := κ) (ω := ω)) ε τ).Ensures
      storage rely returns raises state :=
  fun _ moved reading => (stable.after moved).observe reading fun _ holds => carries reading _ holds

theorem ensures_ident {returns : ι → Local σ κ ω τ ι → Prop}
    (stable : rely.Stable condition state)
    (carries : ∀ ident state, condition state → returns ident (state.draw ident)) :
    (issue (.ident : Command κ ω) :
      Program (Command.Response σ τ ι (κ := κ) (ω := ω)) ε ι).Ensures
      storage rely returns raises state :=
  fun _ moved ident => (stable.after moved).draw ident fun _ holds => carries ident _ holds

end Commands

end Program

namespace Local

/-- The session a transaction that runs alone has reached. -/
def session (storage : Storage σ κ ω ε) (state : Local σ κ ω τ ι)
    (initial : Session σ τ ι) : Session σ τ ι where
  store := state.view storage
  clock := fun position => initial.clock (state.readings.length + position)
  idents := fun position => initial.idents (state.drawn.length + position)

/-- The readings and identifiers consumed so far are those of the session. -/
structure Consumed (initial : Session σ τ ι) (state : Local σ κ ω τ ι) : Prop where
  committed : state.committed = initial.store
  readings : state.readings = (List.range state.readings.length).map initial.clock
  drawn : state.drawn = (List.range state.drawn.length).map initial.idents

variable {storage : Storage σ κ ω ε} {initial : Session σ τ ι} {state : Local σ κ ω τ ι}

theorem consumed_start (initial : Session σ τ ι) :
    Consumed initial (start initial.store : Local σ κ ω τ ι) :=
  ⟨rfl, rfl, rfl⟩

theorem session_start (initial : Session σ τ ι) :
    (start initial.store : Local σ κ ω τ ι).session storage initial = initial := by
  simp [session, start, view]

theorem session_hold (state : Local σ κ ω τ ι) (keys : List κ) :
    (state.hold keys).session storage initial = state.session storage initial := rfl

theorem Consumed.hold (consumed : Consumed initial state) (keys : List κ) :
    Consumed initial (state.hold keys) :=
  ⟨consumed.committed, consumed.readings, consumed.drawn⟩

theorem Consumed.record (consumed : Consumed initial state) (change : ω) :
    Consumed initial (state.record change) :=
  ⟨consumed.committed, consumed.readings, consumed.drawn⟩

theorem Consumed.observe (storage : Storage σ κ ω ε) (consumed : Consumed initial state) :
    Consumed initial (state.observe ((state.session storage initial).clock 0)) := by
  refine ⟨consumed.committed, ?_, consumed.drawn⟩
  simp only [Local.observe, List.length_append, List.length_singleton, List.range_succ,
    List.map_append, List.map_singleton]
  rw [← consumed.readings]
  rfl

theorem Consumed.draw (storage : Storage σ κ ω ε) (consumed : Consumed initial state) :
    Consumed initial (state.draw ((state.session storage initial).idents 0)) := by
  refine ⟨consumed.committed, consumed.readings, ?_⟩
  simp only [Local.draw, List.length_append, List.length_singleton, List.range_succ,
    List.map_append, List.map_singleton]
  rw [← consumed.drawn]
  rfl

end Local

namespace Program

variable {storage : Storage σ κ ω ε} {rely : Rely κ σ}
variable {program : Program (Command.Response σ τ ι (κ := κ) (ω := ω)) ε α}
variable {returns : α → Local σ κ ω τ ι → Prop} {raises : ε → Local σ κ ω τ ι → Prop}

/-- The outcome of a transaction that ran alone meets its postconditions. -/
def Meets (storage : Storage σ κ ω ε) (initial : Session σ τ ι)
    (returns : α → Local σ κ ω τ ι → Prop) (raises : ε → Local σ κ ω τ ι → Prop) :
    Except ε α × Session σ τ ι → Prop
  | (.ok value, after) => ∃ final, Local.Consumed initial final ∧
      after = final.session storage initial ∧ returns value final
  | (.error error, after) => ∃ final, Local.Consumed initial final ∧
      after = final.session storage initial ∧ raises error final

/-- Running alone is one of the behaviours under interference. -/
theorem Ensures.meets {initial : Session σ τ ι} {state : Local σ κ ω τ ι}
    (ensures : program.Ensures storage rely returns raises state)
    (consumed : Local.Consumed initial state) :
    Meets storage initial returns raises
      (program.run storage.handle (state.session storage initial)) := by
  induction program generalizing state with
  | done value => exact ⟨state, consumed, rfl, Rely.Stable.now ensures⟩
  | raise error => exact ⟨state, consumed, rfl, Rely.Stable.now ensures⟩
  | perform command next inductionHypothesis =>
      have answers := Rely.Stable.now ensures
      cases command with
      | read => exact inductionHypothesis _ answers consumed
      | lock key policy =>
          by_cases found : storage.present key (state.view storage) = true
          · have ran := inductionHypothesis _ (answers.1 found) (consumed.hold [key])
            rw [Local.session_hold] at ran
            simpa [run, Storage.handle, Local.session, found] using ran
          · have absent : storage.present key (state.view storage) = false := by simpa using found
            have ran := inductionHypothesis _ (answers.2 (Or.inl absent)) consumed
            simpa [run, Storage.handle, Local.session, absent] using ran
      | write change =>
          rcases attempted : storage.attempt change (state.view storage) with error | (_ | _)
          · have raised := answers.2.2 error attempted
            simp only [run, Storage.handle, Local.session, attempted]
            exact ⟨state, consumed, rfl, raised⟩
          · have ran := inductionHypothesis _ (answers.2.1 attempted) consumed
            simpa [run, Storage.handle, Local.session, attempted] using ran
          · have ran := inductionHypothesis _ (answers.1 attempted)
              ((consumed.hold (storage.touches change)).record change)
            simp only [run, Storage.handle, Local.session, attempted]
            simpa [Local.session, Local.hold, Local.record, Session.withStore, Local.view]
              using ran
      | clock =>
          have ran := inductionHypothesis _ (answers _) (consumed.observe storage)
          simpa [run, Storage.handle, Local.session, Local.observe, Session.tick, Nat.add_assoc,
            Nat.add_comm 1, Local.view] using ran
      | ident =>
          have ran := inductionHypothesis _ (answers _) (consumed.draw storage)
          simpa [run, Storage.handle, Local.session, Local.draw, Session.draw, Nat.add_assoc,
            Nat.add_comm 1, Local.view] using ran

end Program
end Transaction
