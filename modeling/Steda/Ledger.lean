import Steda.Evolution
import Steda.Transaction.Interference

/-!
# The ledger of a transaction

While a stored function runs, other transactions may commit.  They keep the
queue sound, and they leave alone the runs and, with all their runs, the tasks
this transaction has locked.  The ledger of a transaction lists the events it
has caused so far.  `Consistent` says that its view of every task follows from
the committed rows by these events; `Owns` allows one locked task to be in the
middle of a transition.
-/

namespace Steda

open Postgres Transaction Relational

variable {space : Char → Bool} {quiet : Prop}

/-- The local state of a transaction over a queue. -/
abbrev Tx : Type := Local Queue RowKey Change Timestamp Uuid

/-- The queue a transaction sees. -/
def Tx.queue (tx : Tx) : Queue :=
  tx.log.foldl (fun queue change => Queue.apply change queue) tx.committed

/-- The interference of other transactions.  In a quiet database nothing else
commits. -/
def interference (space : Char → Bool) (quiet : Prop) : Rely RowKey Queue where
  moves := fun held before after =>
    (before.Sound space → after.Sound space) ∧
      (∀ task, .task task ∈ held → after.rowsOf task = before.rowsOf task) ∧
      (∀ run, .run run ∈ held → after.findRun run = before.findRun run) ∧
      (quiet → after = before)
  refl := fun _ _ => ⟨id, fun _ _ => rfl, fun _ _ => rfl, fun _ => rfl⟩
  trans := by
    rintro held first second third ⟨sound, tasks, runs, same⟩ ⟨sound', tasks', runs', same'⟩
    refine ⟨sound' ∘ sound, ?_, ?_, ?_⟩
    · intro task locked
      rw [tasks' task locked, tasks task locked]
    · intro run locked
      rw [runs' run locked, runs run locked]
    · intro silent
      rw [same' silent, same silent]
  anti := by
    rintro held more first second subset ⟨sound, tasks, runs, same⟩
    exact ⟨sound, fun task locked => tasks task (subset locked),
      fun run locked => runs run (subset locked), same⟩

/-- A condition on a transaction that interference cannot destroy. -/
abbrev Stably (space : Char → Bool) (quiet : Prop) (condition : Tx → Prop) (tx : Tx) : Prop :=
  (interference space quiet).Stable condition tx

/-- A stored function under interference meets its postconditions. -/
abbrev Guarantees {α : Type} (space : Char → Bool) (quiet : Prop) (program : Sql α)
    (returns : α → Tx → Prop) (raises : SqlError → Tx → Prop) (tx : Tx) : Prop :=
  program.Ensures (storage space) (interference space quiet) returns raises tx

/-- What a transaction has done so far: the events it caused, in order, and the
clock readings and identifiers they rest on.  No identifier is used twice. -/
structure Ledger where
  events : List Event
  readings : List Timestamp
  drawn : List Uuid
  stamped : ∀ event ∈ events, ∀ reading ∈ event.stamps, reading ∈ readings
  named : (events.flatMap Event.names).Sublist drawn

namespace Ledger

/-- The ledger of a transaction that has done nothing. -/
def blank : Ledger where
  events := []
  readings := []
  drawn := []
  stamped := by simp
  named := by simp

/-- Read the clock. -/
def observe (ledger : Ledger) (reading : Timestamp) : Ledger where
  events := ledger.events
  readings := ledger.readings ++ [reading]
  drawn := ledger.drawn
  stamped := fun event member stamp isStamp =>
    List.mem_append_left _ (ledger.stamped event member stamp isStamp)
  named := ledger.named

/-- Draw an identifier. -/
def draw (ledger : Ledger) (name : Uuid) : Ledger where
  events := ledger.events
  readings := ledger.readings
  drawn := ledger.drawn ++ [name]
  stamped := ledger.stamped
  named := ledger.named.trans (List.sublist_append_left _ _)

/-- Cause an event. -/
def cause (ledger : Ledger) (event : Event)
    (stamped : ∀ reading ∈ event.stamps, reading ∈ ledger.readings)
    (named : (ledger.events.flatMap Event.names ++ event.names).Sublist ledger.drawn) :
    Ledger where
  events := ledger.events ++ [event]
  readings := ledger.readings
  drawn := ledger.drawn
  stamped := by
    intro other member
    rcases List.mem_append.mp member with earlier | added
    · exact ledger.stamped other earlier
    · rw [List.mem_singleton.mp added]
      exact stamped
  named := by
    rw [List.flatMap_append, List.flatMap_singleton]
    exact named

end Ledger

namespace Ledger

/-- A later ledger of the same transaction, with the events in between. -/
structure Extends (ledger : Ledger) (events : List Event) (later : Ledger) : Prop where
  events : later.events = ledger.events ++ events
  readings : ledger.readings <+: later.readings
  drawn : ledger.drawn <+: later.drawn

theorem Extends.refl (ledger : Ledger) : ledger.Extends [] ledger :=
  ⟨by simp, List.prefix_rfl, List.prefix_rfl⟩

theorem Extends.trans {ledger middle later : Ledger} {events more : List Event}
    (first : ledger.Extends events middle) (second : middle.Extends more later) :
    ledger.Extends (events ++ more) later := by
  refine ⟨?_, first.readings.trans second.readings, first.drawn.trans second.drawn⟩
  rw [second.events, first.events, List.append_assoc]

theorem extends_observe (ledger : Ledger) (reading : Timestamp) :
    ledger.Extends [] (ledger.observe reading) :=
  ⟨by simp [observe], List.prefix_append _ _, List.prefix_rfl⟩

theorem extends_draw (ledger : Ledger) (name : Uuid) : ledger.Extends [] (ledger.draw name) :=
  ⟨by simp [draw], List.prefix_rfl, List.prefix_append _ _⟩

theorem extends_cause (ledger : Ledger) (event : Event)
    (stamped : ∀ reading ∈ event.stamps, reading ∈ ledger.readings)
    (named : (ledger.events.flatMap Event.names ++ event.names).Sublist ledger.drawn) :
    ledger.Extends [event] (ledger.cause event stamped named) :=
  ⟨rfl, List.prefix_rfl, List.prefix_rfl⟩

/-- An event that introduces no identifier can be added at any time. -/
theorem named_nothing (ledger : Ledger) :
    (ledger.events.flatMap Event.names ++ []).Sublist ledger.drawn := by
  rw [List.append_nil]
  exact ledger.named

/-- An event may introduce the identifier that was just drawn. -/
theorem named_draw (ledger : Ledger) (name : Uuid) :
    ((ledger.draw name).events.flatMap Event.names ++ [name]).Sublist
      (ledger.draw name).drawn :=
  ledger.named.append (List.Sublist.refl _)

end Ledger

/-- The view of a transaction follows from the committed rows by the events of
its ledger, except for exempt tasks.  Tasks it has not locked look as they are
committed. -/
structure Consistent (space : Char → Bool) (quiet : Prop) (ledger : Ledger)
    (exempt : Uuid → Prop) (tx : Tx) : Prop where
  readings : tx.readings = ledger.readings
  drawn : tx.drawn = ledger.drawn
  committed : tx.committed.Sound space
  keyed : tx.queue.Keyed
  retained : quiet ∨ ∀ change ∈ tx.log, ∀ id, change ≠ .deleteTask id
  evolves : ∀ task, ¬exempt task → ∃ before after,
    tx.committed.rowsOf task = Life.rows before ∧ tx.queue.rowsOf task = Life.rows after ∧
      Evolves space quiet task ledger.events before after
  untouched : ∀ task, ¬exempt task → .task task ∉ tx.held →
    tx.queue.rowsOf task = tx.committed.rowsOf task ∧
      ∀ event ∈ ledger.events, event.task ≠ task
  checkpoints : tx.queue.checkpoints = Event.replay ledger.events tx.committed.checkpoints

/-- No task is in the middle of a transition. -/
abbrev Settled (space : Char → Bool) (quiet : Prop) (ledger : Ledger) : Tx → Prop :=
  Consistent space quiet ledger fun _ => False

/-- The transaction has locked a task whose life was `life` before the
transition under way, and whose rows it now sees as `rows`. -/
structure Owns (space : Char → Bool) (quiet : Prop) (ledger : Ledger) (task : Uuid)
    (life : Life) (rows : Rows) (tx : Tx) : Prop where
  consistent : Consistent space quiet ledger (fun other => other = task) tx
  locked : .task task ∈ tx.held
  committed : ∃ before, tx.committed.rowsOf task = Life.rows before ∧
    Evolves space quiet task ledger.events before (some life)
  rows : tx.queue.rowsOf task = rows

/-- The transaction has settled after causing some more events. -/
def Reaches (space : Char → Bool) (quiet : Prop) (ledger : Ledger) (events : List Event)
    (tx : Tx) : Prop :=
  ∃ later, ledger.Extends events later ∧ Stably space quiet (Settled space quiet later) tx

/-! ## The view under interference -/

namespace Tx

@[simp] theorem queue_start (queue : Queue) : Tx.queue (Local.start queue) = queue := rfl

theorem queue_of_unwritten {tx : Tx} (unwritten : tx.log = []) : tx.queue = tx.committed := by
  rw [queue, unwritten]
  rfl

@[simp] theorem queue_hold (tx : Tx) (keys : List RowKey) :
    Tx.queue (tx.hold keys) = tx.queue := rfl

@[simp] theorem queue_observe (tx : Tx) (reading : Timestamp) :
    Tx.queue (tx.observe reading) = tx.queue := rfl

@[simp] theorem queue_draw (tx : Tx) (name : Uuid) : Tx.queue (tx.draw name) = tx.queue := rfl

@[simp] theorem queue_record (tx : Tx) (change : Change) :
    Tx.queue (tx.record change) = Queue.apply change tx.queue := by
  simp [Tx.queue, Local.record]

theorem rowsOf_queue_congr (log : List Change) {first second : Queue} {task : Uuid}
    (same : first.rowsOf task = second.rowsOf task) :
    (log.foldl (fun queue change => Queue.apply change queue) first).rowsOf task =
      (log.foldl (fun queue change => Queue.apply change queue) second).rowsOf task := by
  induction log generalizing first second with
  | nil => exact same
  | cons change rest inductionHypothesis =>
      apply inductionHypothesis
      rw [Queue.rowsOf_apply, Queue.rowsOf_apply, same]

/-- A run after changes that delete nothing depends on the run before. -/
theorem findRun_foldl {log : List Change} (retained : ∀ change ∈ log, ∀ id, change ≠ .deleteTask id)
    (queue : Queue) (run : Uuid) :
    (log.foldl (fun queue change => Queue.apply change queue) queue).findRun run =
      log.foldl (fun found change => change.onRun run found) (queue.findRun run) := by
  induction log generalizing queue with
  | nil => rfl
  | cons change rest inductionHypothesis =>
      rw [List.foldl_cons, List.foldl_cons,
        inductionHypothesis fun other member => retained other (List.mem_cons_of_mem _ member),
        Queue.findRun_apply (retained change List.mem_cons_self)]

theorem findRun_queue_congr {log : List Change} {first second : Queue} {run : Uuid}
    (retained : ∀ change ∈ log, ∀ id, change ≠ .deleteTask id)
    (same : first.findRun run = second.findRun run) :
    (log.foldl (fun queue change => Queue.apply change queue) first).findRun run =
      (log.foldl (fun queue change => Queue.apply change queue) second).findRun run := by
  rw [findRun_foldl retained, findRun_foldl retained, same]

/-- A locked task looks the same after interference. -/
theorem rowsOf_withCommitted {tx : Tx} {store : Queue} {task : Uuid}
    (locked : .task task ∈ tx.held)
    (moved : (interference space quiet).moves tx.held tx.committed store) :
    (Tx.queue (tx.withCommitted store)).rowsOf task = tx.queue.rowsOf task :=
  rowsOf_queue_congr tx.log (moved.2.1 task locked)

/-- A locked run looks the same after interference. -/
theorem findRun_withCommitted {tx : Tx} {store : Queue} {run : Uuid}
    (retained : quiet ∨ ∀ change ∈ tx.log, ∀ id, change ≠ .deleteTask id)
    (locked : .run run ∈ tx.held)
    (moved : (interference space quiet).moves tx.held tx.committed store) :
    (Tx.queue (tx.withCommitted store)).findRun run = tx.queue.findRun run := by
  rcases retained with silent | retained
  · rw [moved.2.2.2 silent]
    rfl
  · exact findRun_queue_congr retained (moved.2.2.1 run locked)

end Tx

/-! ## Consistency is kept -/

section Consistency

variable {ledger : Ledger} {exempt : Uuid → Prop} {tx : Tx}

/-- In a quiet database nothing interferes. -/
theorem Stably.of_quiet {condition : Tx → Prop} (silent : quiet) (now : condition tx) :
    Stably space quiet condition tx := by
  intro store moved
  rw [moved.2.2.2 silent]
  exact now

theorem settled_start {queue : Queue} (sound : queue.Sound space) :
    Stably space quiet (Settled space quiet .blank) (Local.start queue) := by
  intro store moved
  have storeSound := moved.1 sound
  refine ⟨rfl, rfl, storeSound, storeSound.keyed,
    Or.inr (by simp [Local.start, Local.withCommitted]), ?_, ?_, rfl⟩
  · intro task _
    obtain ⟨life, rows, _⟩ := storeSound.lives task
    exact ⟨life, life, rows, rows, rfl⟩
  · intro task _ _
    exact ⟨rfl, by simp [Ledger.blank]⟩

theorem Consistent.hold (consistent : Consistent space quiet ledger exempt tx)
    (keys : List RowKey) : Consistent space quiet ledger exempt (tx.hold keys) where
  readings := consistent.readings
  drawn := consistent.drawn
  committed := consistent.committed
  keyed := consistent.keyed
  retained := consistent.retained
  evolves := consistent.evolves
  untouched := fun task notExempt unlocked =>
    consistent.untouched task notExempt fun locked =>
      unlocked (List.mem_append_right keys locked)
  checkpoints := consistent.checkpoints

theorem Consistent.observe (consistent : Consistent space quiet ledger exempt tx)
    (reading : Timestamp) :
    Consistent space quiet (ledger.observe reading) exempt (tx.observe reading) where
  readings := by
    simp only [Local.observe, Ledger.observe, consistent.readings]
  drawn := consistent.drawn
  committed := consistent.committed
  keyed := consistent.keyed
  retained := consistent.retained
  evolves := consistent.evolves
  untouched := consistent.untouched
  checkpoints := consistent.checkpoints

theorem Consistent.draw (consistent : Consistent space quiet ledger exempt tx) (name : Uuid) :
    Consistent space quiet (ledger.draw name) exempt (tx.draw name) where
  readings := consistent.readings
  drawn := by
    simp only [Local.draw, Ledger.draw, consistent.drawn]
  committed := consistent.committed
  keyed := consistent.keyed
  retained := consistent.retained
  evolves := consistent.evolves
  untouched := consistent.untouched
  checkpoints := consistent.checkpoints

variable {task : Uuid} {life : Life} {rows : Rows}

theorem Owns.hold (owns : Owns space quiet ledger task life rows tx) (keys : List RowKey) :
    Owns space quiet ledger task life rows (tx.hold keys) :=
  ⟨owns.consistent.hold keys, List.mem_append_right keys owns.locked, owns.committed, owns.rows⟩

theorem Owns.observe (owns : Owns space quiet ledger task life rows tx) (reading : Timestamp) :
    Owns space quiet (ledger.observe reading) task life rows (tx.observe reading) :=
  ⟨owns.consistent.observe reading, owns.locked, owns.committed, owns.rows⟩

theorem Owns.draw (owns : Owns space quiet ledger task life rows tx) (name : Uuid) :
    Owns space quiet (ledger.draw name) task life rows (tx.draw name) :=
  ⟨owns.consistent.draw name, owns.locked, owns.committed, owns.rows⟩

/-- The life of an owned task is valid. -/
theorem Owns.lives (owns : Owns space quiet ledger task life rows tx) :
    life.Valid space ∧ life.task.id = task := by
  obtain ⟨before, committedRows, evolves⟩ := owns.committed
  obtain ⟨other, otherRows, lives⟩ := owns.consistent.committed.lives task
  have same : other = before := Life.rows_injective (otherRows.symm.trans committedRows)
  subst same
  exact evolves.lives lives life rfl

/-- Every task a settled transaction sees has a valid life. -/
theorem Consistent.lives (settled : Settled space quiet ledger tx) (task : Uuid) :
    ∃ life, tx.queue.rowsOf task = Life.rows life ∧ Lives space task life := by
  obtain ⟨before, after, committedRows, viewRows, evolves⟩ := settled.evolves task (by simp)
  obtain ⟨other, otherRows, lives⟩ := settled.committed.lives task
  have same : other = before := Life.rows_injective (otherRows.symm.trans committedRows)
  subst same
  exact ⟨after, viewRows, evolves.lives lives⟩

/-- The identifiers a transaction has drawn are distinct and name no committed
row. -/
def Tx.Unused (tx : Tx) : Prop :=
  tx.drawn.Nodup ∧
    ∀ name ∈ tx.drawn, tx.committed.findTask name = none ∧ tx.committed.findRun name = none

/-- An unused identifier that no event has introduced names no row of the view. -/
theorem Consistent.unnamed (consistent : Consistent space quiet ledger exempt tx)
    (unused : tx.Unused) {name : Uuid} (isDrawn : name ∈ ledger.drawn)
    (unnamed : name ∉ ledger.events.flatMap Event.names) {task : Uuid} {life : Life}
    {before : Option Life} (committedRows : tx.committed.rowsOf task = Life.rows before)
    (evolves : Evolves space quiet task ledger.events before (some life)) :
    task ≠ name ∧ ∀ run ∈ life.runs, run.id ≠ name := by
  obtain ⟨noTask, noRun⟩ := unused.2 name (consistent.drawn ▸ isDrawn)
  cases before with
  | none =>
      constructor
      · rintro rfl
        exact unnamed evolves.task_named_of_some
      · rintro run member rfl
        exact unnamed (evolves.runs_named run member)
  | some early =>
      constructor
      · rintro rfl
        have found : tx.committed.findTask task = some early.task :=
          congrArg Rows.task committedRows
        rw [noTask] at found
        cases found
      · rintro run member rfl
        rcases evolves.runs_introduced run member with ⟨other, isEarly, old, inOld, same⟩ | named
        · cases isEarly
          have inRows : old ∈ (tx.committed.rowsOf task).runs := by
            rw [committedRows]
            exact inOld
          have found := consistent.committed.keyed.findRun_of_mem inRows
          rw [same, noRun] at found
          cases found
        · exact unnamed named

/-- The identifier just drawn is not among those introduced before. -/
theorem Ledger.draw_unnamed (ledger : Ledger) {name : Uuid}
    (distinct : (ledger.draw name).drawn.Nodup) :
    name ∉ (ledger.draw name).events.flatMap Event.names := by
  intro named
  exact (List.nodup_append.mp distinct).2.2 name (ledger.named.subset named) name (by simp) rfl

/-- An unused identifier that no event has introduced names no run of the view. -/
theorem Consistent.findRun_unused (consistent : Consistent space quiet ledger exempt tx)
    (unused : tx.Unused) {name : Uuid} (isDrawn : name ∈ ledger.drawn)
    (unnamed : name ∉ ledger.events.flatMap Event.names)
    (others : ∀ task, exempt task → ∀ run ∈ (tx.queue.rowsOf task).runs, run.id ≠ name) :
    tx.queue.findRun name = none := by
  refine find_eq_none.mpr fun run member same => ?_
  have inRows : run ∈ (tx.queue.rowsOf run.taskId).runs := mem_select.mpr ⟨member, rfl⟩
  by_cases isExempt : exempt run.taskId
  · exact others run.taskId isExempt run inRows same
  · obtain ⟨before, after, committedRows, viewRows, evolves⟩ :=
      consistent.evolves run.taskId isExempt
    rw [viewRows] at inRows
    cases after with
    | none => cases inRows
    | some life =>
        exact (consistent.unnamed unused isDrawn unnamed committedRows evolves).2 run inRows same

/-- An unused identifier that no event has introduced names no task of the view. -/
theorem Consistent.findTask_unused (settled : Settled space quiet ledger tx)
    (unused : tx.Unused) {name : Uuid} (isDrawn : name ∈ ledger.drawn)
    (unnamed : name ∉ ledger.events.flatMap Event.names) : tx.queue.findTask name = none := by
  obtain ⟨before, after, committedRows, viewRows, evolves⟩ := settled.evolves name (by simp)
  cases after with
  | none => exact congrArg Rows.task viewRows
  | some life =>
      exact absurd rfl (settled.unnamed unused isDrawn unnamed committedRows evolves).1

/-- The view of a settled transaction is sound. -/
theorem Consistent.sound (settled : Settled space quiet ledger tx) : tx.queue.Sound space :=
  ⟨settled.keyed, settled.lives⟩

/-- Locking a task fixes its life. -/
theorem Stably.own (settled : Stably space quiet (Settled space quiet ledger) tx)
    (locked : .task task ∈ tx.held)
    (seen : tx.queue.rowsOf task = Life.rows (some life)) :
    Stably space quiet (Owns space quiet ledger task life (Life.rows (some life))) tx := by
  intro store moved
  have consistent := settled store moved
  have rows : (Tx.queue (tx.withCommitted store)).rowsOf task = Life.rows (some life) :=
    (Tx.rowsOf_withCommitted locked moved).trans seen
  obtain ⟨before, after, committedRows, viewRows, evolves⟩ :=
    consistent.evolves task (by simp)
  have same : after = some life := Life.rows_injective (viewRows.symm.trans rows)
  subst same
  refine ⟨⟨consistent.readings, consistent.drawn, consistent.committed, consistent.keyed,
    consistent.retained, ?_, ?_, consistent.checkpoints⟩, locked,
    ⟨before, committedRows, evolves⟩, rows⟩
  · exact fun other _ => consistent.evolves other (by simp)
  · exact fun other _ => consistent.untouched other (by simp)

/-- An owned task that is back at its life settles the transaction. -/
theorem Owns.settle (owns : Owns space quiet ledger task life (Life.rows (some life)) tx) :
    Settled space quiet ledger tx := by
  have consistent := owns.consistent
  refine ⟨consistent.readings, consistent.drawn, consistent.committed, consistent.keyed,
    consistent.retained, ?_, ?_, consistent.checkpoints⟩
  · intro other _
    by_cases own : other = task
    · subst own
      obtain ⟨before, committedRows, evolves⟩ := owns.committed
      exact ⟨before, some life, committedRows, owns.rows, evolves⟩
    · exact consistent.evolves other own
  · intro other _ unlocked
    by_cases own : other = task
    · subst own
      exact absurd owns.locked unlocked
    · exact consistent.untouched other own unlocked

theorem replay_cause {event : Event} (keeps : ∀ rows, event.onCheckpoints rows = rows)
    {stamped : ∀ reading ∈ event.stamps, reading ∈ ledger.readings}
    {named : (ledger.events.flatMap Event.names ++ event.names).Sublist ledger.drawn}
    {rows : List CheckpointRow} :
    Event.replay (ledger.cause event stamped named).events rows =
      Event.replay ledger.events rows := by
  simp only [Ledger.cause, Event.replay, List.foldl_append, List.foldl_cons, List.foldl_nil, keeps]

/-- An owned task that went through an event settles the transaction with that
event in its ledger. -/
theorem Owns.cause {event : Event} {next : Option Life}
    (owns : Owns space quiet ledger task life (Life.rows next) tx)
    (own : event.task = task) (acts : event.Acts space quiet (some life) next)
    (keeps : ∀ rows, event.onCheckpoints rows = rows)
    (stamped : ∀ reading ∈ event.stamps, reading ∈ ledger.readings)
    (named : (ledger.events.flatMap Event.names ++ event.names).Sublist ledger.drawn) :
    Settled space quiet (ledger.cause event stamped named) tx := by
  have consistent := owns.consistent
  refine ⟨consistent.readings, consistent.drawn, consistent.committed, consistent.keyed,
    consistent.retained, ?_, ?_, consistent.checkpoints.trans (replay_cause keeps).symm⟩
  · intro other _
    by_cases same : other = task
    · subst same
      obtain ⟨before, committedRows, evolves⟩ := owns.committed
      exact ⟨before, next, committedRows, owns.rows, evolves.snoc own acts⟩
    · obtain ⟨before, after, committedRows, viewRows, evolves⟩ :=
        consistent.evolves other same
      exact ⟨before, after, committedRows, viewRows,
        evolves.snoc_other fun equal => same (equal.symm.trans own)⟩
  · intro other _ unlocked
    by_cases same : other = task
    · subst same
      exact absurd owns.locked unlocked
    · obtain ⟨unchanged, noEvents⟩ := consistent.untouched other same unlocked
      refine ⟨unchanged, ?_⟩
      intro added member
      rcases List.mem_append.mp member with earlier | isNew
      · exact noEvents added earlier
      · rw [List.mem_singleton.mp isNew]
        exact fun equal => same (equal.symm.trans own)

theorem Reaches.nothing (settled : Stably space quiet (Settled space quiet ledger) tx) :
    Reaches space quiet ledger [] tx :=
  ⟨ledger, .refl ledger, settled⟩

theorem Reaches.after {events : List Event} {store : Queue}
    (reaches : Reaches space quiet ledger events tx)
    (moved : (interference space quiet).moves tx.held tx.committed store) :
    Reaches space quiet ledger events (tx.withCommitted store) := by
  obtain ⟨later, extends_, settled⟩ := reaches
  exact ⟨later, extends_, settled.after moved⟩

/-- What is reached from a later ledger is reached from an earlier one. -/
theorem Reaches.prepend {middle : Ledger} {events more : List Event}
    (extended : ledger.Extends events middle) (reaches : Reaches space quiet middle more tx) :
    Reaches space quiet ledger (events ++ more) tx := by
  obtain ⟨later, extends_, settled⟩ := reaches
  exact ⟨later, extended.trans extends_, settled⟩

/-- A transition of an owned task is reached once its rows are written. -/
theorem Reaches.moved {transition : Transition}
    (owns : Stably space quiet (Owns space quiet ledger task life
      (Life.rows (some (transition.after life)))) tx)
    (enabled : transition.Enabled space life) (timely : quiet → transition.Timely life)
    (stamped : transition.stamp ∈ ledger.readings)
    (named : (ledger.events.flatMap Event.names ++ transition.newRun?.toList).Sublist
      ledger.drawn) :
    Reaches space quiet ledger [.moved task transition] tx := by
  have stamps : ∀ reading ∈ (Event.moved task transition).stamps, reading ∈ ledger.readings := by
    intro reading member
    rw [List.mem_singleton.mp member]
    exact stamped
  refine ⟨ledger.cause (.moved task transition) stamps named,
    ledger.extends_cause _ stamps named, ?_⟩
  have acts : (Event.moved task transition).Acts space quiet (some life)
      (some (transition.after life)) := ⟨life, rfl, enabled, timely, rfl⟩
  exact Rely.Stable.mono (fun _ known => known.cause rfl acts (fun _ => rfl) stamps named) owns

end Consistency

end Steda
