import Steda.Operation
import Steda.QueueStorage

/-!
# Cleanup of all queues while queues are dropped

`cleanup_all_queues` reads the list of queues once, through a cursor, and runs
`cleanup_tasks` on each of them in one transaction.  Other sessions run
`drop_queue`, each in a transaction of its own.  A move executes the next
statement of one session; every statement reads the rows committed by then, and
an advisory lock is held until its transaction ends.
-/

namespace Steda

open Postgres Transaction

/-- What a server decides: the characters of `[[:space:]]`, the hash behind an
advisory lock, and the order of text. -/
structure Server where
  space : Char → Bool
  hashtext : String → Int
  collates : String → String → Bool

/-- A row of `steda.queues` with the tables of its queue. -/
structure Registered where
  name : String
  queue : Queue

/-- What the maintenance functions fail with. -/
inductive MaintenanceError
  | name (error : QueueError)
  | queueMissing (queue : String)
  | statement (error : SqlError)
  deriving DecidableEq

/-- The text of an error. -/
def MaintenanceError.message : MaintenanceError → String
  | .name error => error.message
  | .queueMissing queue => "Queue \"" ++ queue ++ "\" does not exist"
  | .statement error => error.message ""

/-! ## Sessions -/

/-- A transaction of `drop_queue`.  `locking` waits for the advisory lock,
`reading` is about to look up the registration. -/
inductive DropSession
  | locking (name : String)
  | reading (name : String)
  | returned (name : String) (deletes : Bool)
  | ended
  deriving DecidableEq

/-- The queue name whose advisory lock a transaction holds. -/
def DropSession.locked? : DropSession → Option String
  | .reading name | .returned name _ => some name
  | .locking _ | .ended => none

/-- One call of `cleanup_tasks` with the rows it found and those it left. -/
structure Batch where
  name : String
  before : World
  deleted : Nat
  after : World

/-- The statement that `cleanup_all_queues` executes next.  `fetching` is about
to fetch from the cursor, `locking` waits in `cleanup_tasks` for the advisory
lock, `reading` is about to look up the registration. -/
inductive CleanupPhase
  | idle
  | opening (requested : Option String)
  | fetching (rest : List String)
  | locking (name : String) (rest : List String)
  | reading (name : String) (rest : List String)
  | returned
  | committed
  | raised (error : MaintenanceError)
  deriving DecidableEq

/-- The committed registrations, the transactions of `drop_queue`, and the one
call of `cleanup_all_queues` with the batches it has done. -/
structure Maintenance where
  registry : List Registered
  drops : List DropSession
  phase : CleanupPhase
  batches : List Batch

/-- What can happen next. -/
inductive MaintenanceMove
  | drop (queueName : Option String)
  | goOn (session : Nat)
  | commitDrop (session : Nat)
  | abortDrop (session : Nat)
  | cleanup (requested : Option String)
  | advance (clock : Nat → Timestamp)
  | commitCleanup

namespace Maintenance

/-- Nothing has been called yet. -/
def start (registry : List Registered) : Maintenance where
  registry := registry
  drops := []
  phase := .idle
  batches := []

/-- The names of the registered queues. -/
def names (state : Maintenance) : List String := state.registry.map Registered.name

/-- The registration of a name. -/
def find? (state : Maintenance) (name : String) : Option Registered :=
  state.registry.find? fun row => row.name == name

/-- The queue names whose advisory locks the cleanup holds. -/
def cleanupLocks (state : Maintenance) : List String :=
  match state.phase with
  | .fetching _ | .locking _ _ | .returned => state.batches.map Batch.name
  | .reading name _ => name :: state.batches.map Batch.name
  | .idle | .opening _ | .committed | .raised _ => []

/-- The rows `cleanup_all_queues` returns. -/
def rows (state : Maintenance) : List (String × Nat) :=
  state.batches.map fun batch => (batch.name, batch.deleted)

/-- Replace one transaction of `drop_queue`. -/
def putDrop (state : Maintenance) (session : Nat) (drop : DropSession) : Maintenance :=
  { state with drops := state.drops.set session drop }

/-- No other transaction of `drop_queue` holds the advisory lock. -/
def dropsFree (server : Server) (state : Maintenance) (name : String) : Bool :=
  state.drops.all fun drop =>
    drop.locked?.all fun other => server.hashtext other != server.hashtext name

/-- The cleanup does not hold the advisory lock. -/
def cleanupFree (server : Server) (state : Maintenance) (name : String) : Bool :=
  state.cleanupLocks.all fun other => server.hashtext other != server.hashtext name

/-- A registration after the batch of its queue. -/
def cleaned (batches : List Batch) (row : Registered) : Registered :=
  match batches.find? fun batch => batch.name == row.name with
  | none => row
  | some batch => { row with queue := batch.after.store }

/-! ## Statements -/

/-- The next statement of `drop_queue`. -/
def goOn (server : Server) (session : Nat) (state : Maintenance) : Option Maintenance :=
  match state.drops[session]? with
  | some (.locking name) =>
      if state.dropsFree server name && state.cleanupFree server name then
        some (state.putDrop session (.reading name))
      else none
  | some (.reading name) =>
      some (state.putDrop session (.returned name (state.find? name).isSome))
  | _ => none

/-- A transaction of `drop_queue` that has returned commits. -/
def commitDrop (session : Nat) (state : Maintenance) : Option Maintenance :=
  match state.drops[session]? with
  | some (.returned name deletes) =>
      some { state.putDrop session .ended with
             registry :=
               if deletes then state.registry.filter fun row => row.name != name
               else state.registry }
  | _ => none

/-- The beginning of `steda.cleanup_all_queues`. -/
def cleanup (server : Server) (requested : Option String) (state : Maintenance) :
    Option Maintenance :=
  match state.phase, requested with
  | .idle, none => some { state with phase := .opening none }
  | .idle, some requested =>
      match validateQueueName server.space (some requested) with
      | .error error => some { state with phase := .raised (.name error) }
      | .ok requested =>
          if (state.find? requested).isNone then
            some { state with phase := .raised (.queueMissing requested) }
          else some { state with phase := .opening (some requested) }
  | _, _ => none

/-- The names the cursor of `cleanup_all_queues` finds. -/
def listed (server : Server) (requested : Option String) (state : Maintenance) : List String :=
  (state.names.filter fun name => requested.all (name == ·)).insertionSort
    fun left right => server.collates left right = true

/-- The next statement of `steda.cleanup_all_queues`.  `cleanup_tasks` of a
queue that is not registered raises. -/
def advance (server : Server) (clock : Nat → Timestamp) (state : Maintenance) :
    Option Maintenance :=
  match state.phase with
  | .opening requested => some { state with phase := .fetching (state.listed server requested) }
  | .fetching [] => some { state with phase := .returned }
  | .fetching (name :: rest) =>
      match validateQueueName server.space (some name) with
      | .error error => some { state with phase := .raised (.name error) }
      | .ok name => some { state with phase := .locking name rest }
  | .locking name rest =>
      if state.dropsFree server name then some { state with phase := .reading name rest } else none
  | .reading name rest =>
      match state.find? name with
      | none => some { state with phase := .raised (.queueMissing name) }
      | some row =>
          let before : World := { store := row.queue, clock := clock, idents := id }
          match Operation.cleanupTasks.perform server.space before with
          | (.error error, _) => some { state with phase := .raised (.statement error) }
          | (.ok deleted, after) =>
              some { state with
                     phase := .fetching rest
                     batches := state.batches ++
                       [{ name := name, before := before, deleted := deleted, after := after }] }
  | _ => none

/-- The transaction of `cleanup_all_queues` commits its batches. -/
def commitCleanup (state : Maintenance) : Option Maintenance :=
  match state.phase with
  | .returned =>
      some { state with phase := .committed, registry := state.registry.map (cleaned state.batches) }
  | _ => none

/-- The state after a move that is possible. -/
def step (server : Server) : MaintenanceMove → Maintenance → Option Maintenance
  | .drop queueName, state =>
      match validateQueueName server.space queueName with
      | .error _ => some state
      | .ok name => some { state with drops := state.drops ++ [.locking name] }
  | .goOn session, state => state.goOn server session
  | .commitDrop session, state => state.commitDrop session
  | .abortDrop session, state => some (state.putDrop session .ended)
  | .cleanup requested, state => state.cleanup server requested
  | .advance clock, state => state.advance server clock
  | .commitCleanup, state => state.commitCleanup

/-- The state after several moves, if all of them are possible. -/
def moves (server : Server) : List MaintenanceMove → Maintenance → Option Maintenance
  | [], state => some state
  | move :: rest, state => (state.step server move).bind (moves server rest)

/-- A possible move is a step of the labelled transition system. -/
def Steps (server : Server) (state : Maintenance) (move : MaintenanceMove) (after : Maintenance) :
    Prop :=
  state.step server move = some after

theorem trace_moves {server : Server} {labels : List MaintenanceMove} {state after : Maintenance}
    (moved : moves server labels state = some after) : Trace (Steps server) state labels after := by
  induction labels generalizing state with
  | nil =>
      cases moved
      exact .nil _
  | cons move rest inductionHypothesis =>
      obtain ⟨middle, stepped, later⟩ := Option.bind_eq_some_iff.mp moved
      exact .cons stepped (inductionHypothesis later)

end Maintenance
end Steda
