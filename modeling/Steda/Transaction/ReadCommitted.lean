import Steda.Transaction.Program

/-!
# Transactions over a store of lockable rows

The commands a transaction issues to its database: start a statement and read
a snapshot, lock one row and read its newest version, change the store, read
the clock, draw a fresh identifier.  `Storage` describes the store.  This
module executes a transaction alone, with the clock readings and identifiers
taken from two streams; a transaction that raises is undone completely but
keeps the readings it consumed.
-/

namespace Transaction

/-- What a statement does with a row that another transaction has locked. -/
inductive LockPolicy
  | wait
  | skipLocked
  deriving DecidableEq

/-- Commands over row keys `κ` and changes `ω`. -/
inductive Command (κ ω : Type)
  | read
  | lock (key : κ) (policy : LockPolicy)
  | write (change : ω)
  | clock
  | ident

/-- Answers to commands.  A lock answers with the store in which the newest
version of the locked row is found, or with nothing when the row is absent or
skipped.  A write answers whether the change took place. -/
@[reducible] def Command.Response (σ τ ι : Type) {κ ω : Type} : Command κ ω → Type
  | .read => σ
  | .lock _ _ => Option σ
  | .write _ => Bool
  | .clock => τ
  | .ident => ι

/-- A store with lockable rows.  `attempt` says whether a change is carried
out, dropped, or refused by a constraint. -/
structure Storage (σ κ ω ε : Type) where
  /-- The row exists in the store. -/
  present : κ → σ → Bool
  /-- Constraint checks of a change at the end of its statement. -/
  attempt : ω → σ → Except ε Bool
  /-- The store after the change. -/
  apply : ω → σ → σ
  /-- The rows a change locks until the end of its transaction. -/
  touches : ω → List κ
  /-- Constraint checks deferred to the commit. -/
  deferred : σ → Except ε Unit

/-- A store together with the clock readings and the identifiers still to
come. -/
structure Session (σ τ ι : Type) where
  store : σ
  clock : Nat → τ
  idents : Nat → ι

namespace Session

variable {σ τ ι : Type}

/-- Consume one clock reading. -/
def tick (session : Session σ τ ι) : Session σ τ ι :=
  { session with clock := fun position => session.clock (position + 1) }

/-- Consume one identifier. -/
def draw (session : Session σ τ ι) : Session σ τ ι :=
  { session with idents := fun position => session.idents (position + 1) }

/-- Replace the store. -/
def withStore (session : Session σ τ ι) (store : σ) : Session σ τ ι :=
  { session with store := store }

@[simp] theorem tick_store (session : Session σ τ ι) : session.tick.store = session.store := rfl

@[simp] theorem tick_clock (session : Session σ τ ι) (position : Nat) :
    session.tick.clock position = session.clock (position + 1) := rfl

@[simp] theorem tick_idents (session : Session σ τ ι) :
    session.tick.idents = session.idents := rfl

@[simp] theorem draw_store (session : Session σ τ ι) : session.draw.store = session.store := rfl

@[simp] theorem draw_clock (session : Session σ τ ι) : session.draw.clock = session.clock := rfl

@[simp] theorem draw_idents (session : Session σ τ ι) (position : Nat) :
    session.draw.idents position = session.idents (position + 1) := rfl

@[simp] theorem withStore_store (session : Session σ τ ι) (store : σ) :
    (session.withStore store).store = store := rfl

@[simp] theorem withStore_clock (session : Session σ τ ι) (store : σ) :
    (session.withStore store).clock = session.clock := rfl

@[simp] theorem withStore_idents (session : Session σ τ ι) (store : σ) :
    (session.withStore store).idents = session.idents := rfl

@[simp] theorem withStore_withStore (session : Session σ τ ι) (first second : σ) :
    (session.withStore first).withStore second = session.withStore second := rfl

@[simp] theorem withStore_self (session : Session σ τ ι) :
    session.withStore session.store = session := rfl

end Session

namespace Storage

variable {σ τ ι κ ω ε α : Type}

/-- Answer one command of a transaction that runs alone. -/
def handle (storage : Storage σ κ ω ε) :
    (command : Command κ ω) → Session σ τ ι →
      Except ε (command.Response σ τ ι) × Session σ τ ι
  | .read, session => (.ok session.store, session)
  | .lock key _, session =>
      (.ok (if storage.present key session.store then some session.store else none), session)
  | .write change, session =>
      match storage.attempt change session.store with
      | .ok true => (.ok true, session.withStore (storage.apply change session.store))
      | .ok false => (.ok false, session)
      | .error error => (.error error, session)
  | .clock, session => (.ok (session.clock 0), session.tick)
  | .ident, session => (.ok (session.idents 0), session.draw)

/-- Execute a transaction that runs alone: commit it when it returns and its
deferred constraints hold, undo it otherwise. -/
def atomically (storage : Storage σ κ ω ε)
    (program : Program (Command.Response σ τ ι (κ := κ) (ω := ω)) ε α)
    (session : Session σ τ ι) : Except ε α × Session σ τ ι :=
  match program.run storage.handle session with
  | (.ok value, after) =>
      match storage.deferred after.store with
      | .ok () => (.ok value, after)
      | .error error => (.error error, after.withStore session.store)
  | (.error error, after) => (.error error, after.withStore session.store)

/-- A transaction that raised left the store as it was. -/
theorem atomically_error_store
    {storage : Storage σ κ ω ε}
    {program : Program (Command.Response σ τ ι (κ := κ) (ω := ω)) ε α}
    {session after : Session σ τ ι} {error : ε}
    (raised : storage.atomically program session = (.error error, after)) :
    after.store = session.store := by
  unfold atomically at raised
  split at raised
  · split at raised
    · cases raised
    · cases raised
      rfl
  · cases raised
    rfl

/-- A transaction that returned ran to its end. -/
theorem run_of_atomically_ok
    {storage : Storage σ κ ω ε}
    {program : Program (Command.Response σ τ ι (κ := κ) (ω := ω)) ε α}
    {session after : Session σ τ ι} {value : α}
    (returned : storage.atomically program session = (.ok value, after)) :
    program.run storage.handle session = (.ok value, after) := by
  unfold atomically at returned
  split at returned
  · next ran =>
      split at returned
      · rw [ran]
        exact returned
      · cases returned
  · cases returned

/-- A reflexive and transitive relation kept by every accepted change relates the
stores before and after a program that runs alone. -/
theorem run_store_related {storage : Storage σ κ ω ε} {relation : σ → σ → Prop}
    (reflexive : ∀ store, relation store store)
    (transitive : ∀ {a b c}, relation a b → relation b c → relation a c)
    (kept : ∀ change store, storage.attempt change store = .ok true →
      relation store (storage.apply change store))
    (program : Program (Command.Response σ τ ι (κ := κ) (ω := ω)) ε α) (session : Session σ τ ι) :
    relation session.store (program.run storage.handle session).2.store := by
  let related (before after : Session σ τ ι) : Prop := relation before.store after.store
  have handled : ∀ (command : Command κ ω) (session : Session σ τ ι),
      related session (storage.handle command session).2 := by
    intro command session
    cases command with
    | read | lock key policy | clock | ident => exact reflexive _
    | write change =>
        cases accepted : storage.attempt change session.store with
        | error error =>
            simp only [handle, accepted]
            exact reflexive _
        | ok written =>
            cases written with
            | false =>
                simp only [handle, accepted]
                exact reflexive _
            | true =>
                simp only [handle, accepted]
                exact kept change _ accepted
  exact @Program.run_related _ _ _ _ _ storage.handle related (fun _ => reflexive _)
    (fun first second => transitive first second) handled program session

end Storage
end Transaction
