import Steda.Transaction.Guard
import Steda.Upkeep

/-!
# The order of locks

A transaction that locks a task and a run of it takes the run first.  This
follows from a guard on its commands: it waits for a run only when it holds
nothing yet, it tries a run without waiting only when it does not hold the task,
and otherwise it locks and writes runs that it holds already.
-/

namespace Steda

open Postgres Transaction Relational

variable {space : Char → Bool} {tx after last : Tx}

namespace Tx

/-- The transaction took the locks of the committed runs of a task that it holds
before the lock of the task.  The latest lock comes first in `held`. -/
def RunsFirst (tx : Tx) : Prop :=
  ∀ (newer older : List RowKey) (task : Uuid), tx.held = newer ++ .task task :: older →
    ∀ run ∈ tx.committed.runsOf task, .run run.id ∈ tx.held → .run run.id ∈ older

/-- The guard of the lock order. -/
def Orderly (tx : Tx) : Command RowKey Change → Prop
  | .lock (.run run) .wait => .run run ∈ tx.held ∨ tx.held = []
  | .lock (.run run) .skipLocked =>
      .run run ∈ tx.held ∨
        ∀ task, .task task ∈ tx.held → ∀ row ∈ tx.committed.runsOf task, row.id ≠ run
  | .write (.putRun run) => .run run.id ∈ tx.held
  | .write (.deleteTask _) => False
  | _ => True

/-- The transaction deletes nothing. -/
def Retains (tx : Tx) : Prop := ∀ change ∈ tx.log, ∀ id, change ≠ .deleteTask id

end Tx

/-- The program respects the lock order. -/
abbrev KeepsOrder (space : Char → Bool) {α : Type} (program : Sql α) (tx : Tx) : Prop :=
  program.Respects (storage space) (upkeep space) Tx.Orderly tx

/-! ## The guard is enough -/

theorem Tx.RunsFirst.moved {store : Queue} (runsFirst : tx.RunsFirst)
    (moved : (upkeep space).moves tx.held tx.committed store) :
    Tx.RunsFirst (tx.withCommitted store) := by
  intro newer older task isHeld run inRuns
  have locked : RowKey.task task ∈ tx.held := by
    rw [show tx.held = newer ++ .task task :: older from isHeld]
    exact List.mem_append_right _ List.mem_cons_self
  exact runsFirst newer older task isHeld run (runsOf_of_moved moved locked ▸ inRuns)

/-- Locking one more task keeps the order. -/
theorem Tx.RunsFirst.holdTask (runsFirst : tx.RunsFirst) (task : Uuid) :
    Tx.RunsFirst (tx.hold [.task task]) := by
  intro newer older other isHeld run inRuns isLocked
  have held : RowKey.run run.id ∈ tx.held := by
    rcases List.mem_cons.mp isLocked with impossible | held
    · cases impossible
    · exact held
  rcases List.cons_eq_append_iff.mp isHeld with ⟨_, isOlder⟩ | ⟨rest, _, isRest⟩
  · obtain ⟨_, sameOlder⟩ := List.cons.inj isOlder
    rw [sameOlder]
    exact held
  · exact runsFirst rest older other isRest run inRuns held

/-- Locking a run that is held, or whose task is not, keeps the order. -/
theorem Tx.RunsFirst.holdRun (runsFirst : tx.RunsFirst) {run : Uuid}
    (apart : .run run ∈ tx.held ∨
      ∀ task, .task task ∈ tx.held → ∀ row ∈ tx.committed.runsOf task, row.id ≠ run) :
    Tx.RunsFirst (tx.hold [.run run]) := by
  intro newer older task isHeld row inRuns isLocked
  rcases List.cons_eq_append_iff.mp isHeld with ⟨_, impossible⟩ | ⟨rest, _, isRest⟩
  · cases impossible
  · refine runsFirst rest older task isRest row inRuns ?_
    rcases List.mem_cons.mp isLocked with isRun | held
    · rcases apart with held | others
      · exact isRun ▸ held
      · refine absurd (RowKey.run.inj isRun) (others task ?_ row inRuns)
        rw [show tx.held = rest ++ .task task :: older from isRest]
        exact List.mem_append_right _ List.mem_cons_self
    · exact held

/-- A run that is inserted is not committed yet. -/
theorem findRun_of_inserted {run : RunRow} {queue : Queue}
    (inserted : Queue.attempt space (.insertRun run) queue = .ok true) :
    queue.findRun run.id = none := by
  obtain ⟨_, _, inserted⟩ := except_bind_ok.mp inserted
  obtain ⟨untaken, _⟩ := except_guard_ok.mp inserted
  refine Option.not_isSome_iff_eq_none.mp fun taken => untaken ?_
  rwa [Queue.findRun, isSome_find] at taken

theorem Tx.Retains.answered {command : Command RowKey Change} {answer : Answer command}
    (retains : tx.Retains) (orderly : tx.Orderly command)
    (answered : Answered (storage space) command tx answer after) : after.Retains := by
  cases answered with
  | @written change _ attempted =>
      intro other member id isDeletion
      rcases List.mem_append.mp member with earlier | isNew
      · exact retains other earlier id isDeletion
      · rw [List.mem_singleton.mp isNew] at isDeletion
        subst isDeletion
        exact orderly
  | _ => exact retains

/-- An orderly command keeps the order. -/
theorem Tx.RunsFirst.answered {command : Command RowKey Change} {answer : Answer command}
    (runsFirst : tx.RunsFirst) (retains : tx.Retains) (keyed : tx.committed.Keyed)
    (orderly : tx.Orderly command)
    (answered : Answered (storage space) command tx answer after) : after.RunsFirst := by
  cases answered with
  | @locked key policy _ present =>
      cases key with
      | task task => exact runsFirst.holdTask task
      | run run =>
          cases policy with
          | skipLocked => exact runsFirst.holdRun orderly
          | wait =>
              refine runsFirst.holdRun (orderly.imp_right fun isEmpty task locked => ?_)
              rw [isEmpty] at locked
              cases locked
  | @written change _ attempted =>
      cases change with
      | insertTask row => exact runsFirst.holdTask row.id
      | putTask row => exact runsFirst.holdTask row.id
      | insertCheckpoint row => exact runsFirst
      | putRun run => exact runsFirst.holdRun (Or.inl orderly)
      | deleteTask id => exact orderly.elim
      | insertRun run =>
          refine runsFirst.holdRun (Or.inr fun task _ row inRuns sameId => ?_)
          have found := keyed.findRun_of_mem_runs (mem_select.mp inRuns).1
          obtain ⟨later, seen, _⟩ := findRun_retained retains found
          have absent := findRun_of_inserted attempted
          rw [← sameId] at absent
          exact Option.some_ne_none _ (seen.symm.trans absent)
  | _ => exact runsFirst

/-- What holds all along a transaction that respects the lock order. -/
structure Ordered (space : Char → Bool) (tx : Tx) : Prop where
  runsFirst : tx.RunsFirst
  retains : tx.Retains
  sound : tx.committed.Sound space

/-- A transaction that has done nothing yet is in order. -/
theorem ordered_idle (empty : tx.held = []) (unwritten : tx.log = [])
    (sound : tx.committed.Sound space) : Ordered space tx := by
  refine ⟨fun newer older task isHeld => ?_, by simp [Tx.Retains, unwritten], sound⟩
  rw [empty] at isHeld
  cases newer <;> cases isHeld

theorem Ordered.moved {store : Queue} (ordered : Ordered space tx)
    (moved : (upkeep space).moves tx.held tx.committed store) :
    Ordered space (tx.withCommitted store) :=
  ⟨ordered.runsFirst.moved moved, ordered.retains, moved.1.1 ordered.sound⟩

theorem Ordered.answered {command : Command RowKey Change} {answer : Answer command}
    (ordered : Ordered space tx) (orderly : tx.Orderly command)
    (answered : Answered (storage space) command tx answer after) : Ordered space after :=
  ⟨ordered.runsFirst.answered ordered.retains ordered.sound.keyed orderly answered,
    ordered.retains.answered orderly answered, answered.committed ▸ ordered.sound⟩

/-- The transaction has taken runs first, and its next command is allowed. -/
structure InOrder (space : Char → Bool) {α : Type} (rest : Sql α) (tx : Tx) : Prop where
  ordered : Ordered space tx
  next : ∀ command next, rest = .perform command next → tx.Orderly command

/-- A transaction that respects the lock order takes runs first. -/
theorem KeepsOrder.inOrder {α : Type} {program rest : Sql α} {past : List Exchange}
    (keeps : KeepsOrder space program tx) (ordered : Ordered space tx)
    (conduct : Amid (storage space) (upkeep space) program tx past rest last) :
    InOrder space rest last := by
  refine ⟨conduct.upholds keeps (fun _ _ ordered moved => ordered.moved moved)
    (fun orderly ordered answered => ordered.answered orderly answered) ordered, ?_⟩
  intro command next isRest
  subst isRest
  exact keeps _ _ _ _ conduct

theorem InOrder.bind {α β : Type} {program : Sql β} {next : β → Sql α}
    (inOrder : InOrder space program tx)
    (later : ∀ value command rest, next value = .perform command rest → tx.Orderly command) :
    InOrder space (program >>= next) tx := by
  refine ⟨inOrder.ordered, fun command rest isRest => ?_⟩
  cases program with
  | done value => exact later value command rest isRest
  | raise error => cases isRest
  | perform first more =>
      cases isRest
      exact inOrder.next _ _ rfl

/-- A command that has had no answer is in order if it is allowed. -/
theorem inOrder_unanswered {α : Type} {command : Command RowKey Change}
    {next : Answer command → Sql α} {rest : Sql α}
    (conduct : Amid (storage space) (upkeep space) (.perform command next) tx [] rest last)
    (ordered : Ordered space tx) (orderly : ∀ tx : Tx, tx.Orderly command) :
    InOrder space rest last := by
  obtain ⟨isRest, store, moves, isLast⟩ := conduct.nil_cases
  refine ⟨isLast ▸ ordered.moved moves, fun other more same => ?_⟩
  cases isRest.symm.trans same
  exact orderly last

end Steda
