import Steda.Biography
import Steda.Transaction.Interleaving

/-!
# Contention for a queue

Any number of calls run at the same time, each as one transaction, and their
statements are interleaved.  The calls considered here neither submit nor
delete tasks, so every task of the queue lives on, and whatever another
transaction commits follows what was there before.  Every committed queue is
sound, and each transaction is conducted amid such commits.
-/

namespace Steda

open Postgres Transaction Relational

variable {space : Char → Bool}

/-! ## Calls under way -/

/-- A call that has returned. -/
abbrev Returned : Type := (operation : Operation) × operation.Result

/-- A call under way. -/
abbrev Session.Call : Type := Party Queue RowKey Change SqlError Timestamp Uuid Returned

/-- An interaction of a stored function with its database. -/
abbrev Exchange : Type := Interaction Queue RowKey Change Timestamp Uuid

/-- A queue with the calls under way. -/
abbrev Contest : Type := System Queue RowKey Change SqlError Timestamp Uuid Returned

/-- What can happen next in a contest. -/
abbrev Contest.Move : Type := Transaction.Move Queue RowKey Change SqlError Timestamp Uuid Returned

/-- The transaction of a call. -/
def Operation.script (space : Char → Bool) (operation : Operation) : Sql Returned := do
  let result ← operation.program space
  return ⟨operation, result⟩

/-- The calls that neither submit nor delete tasks. -/
def Operation.Contends : Operation → Prop
  | .spawnTask _ _ _ | .cleanupTasks => False
  | _ => True

/-- The transactions of a contest. -/
def Contending (space : Char → Bool) (script : Sql Returned) : Prop :=
  ∃ operation : Operation, operation.Contends ∧ script = operation.script space

/-- What other calls may commit meanwhile: every task lives on and every run
stays with its task. -/
def contention (space : Char → Bool) : Rely RowKey Queue where
  moves := fun held before after =>
    (interference space False).moves held before after ∧
      (before.Sound space → ∀ task life, before.rowsOf task = Life.rows (some life) →
        ∃ later, after.rowsOf task = Life.rows (some later) ∧ life.Precedes later) ∧
      (∀ run row, before.findRun run = some row →
        ∃ later, after.findRun run = some later ∧ later.taskId = row.taskId)
  refl := fun held store =>
    ⟨(interference space False).refl held store, fun _ _ life rows => ⟨life, rows, .refl life⟩,
      fun _ row found => ⟨row, found, rfl⟩⟩
  trans := by
    rintro held first second third ⟨early, earlyLives, earlyRuns⟩ ⟨late, lateLives, lateRuns⟩
    refine ⟨(interference space False).trans early late, ?_, ?_⟩
    · intro sound task life rows
      obtain ⟨middle, middleRows, precedes⟩ := earlyLives sound task life rows
      obtain ⟨later, laterRows, follows⟩ := lateLives (early.1 sound) task middle middleRows
      exact ⟨later, laterRows, precedes.trans follows⟩
    · intro run row found
      obtain ⟨middle, middleFound, sameTask⟩ := earlyRuns run row found
      obtain ⟨later, laterFound, sameLater⟩ := lateRuns run middle middleFound
      exact ⟨later, laterFound, sameLater.trans sameTask⟩
  anti := fun subset moved => ⟨(interference space False).anti subset moved.1, moved.2⟩

/-- The transaction of a call is conducted as its stored function is. -/
theorem Operation.conduct_program {rely : Rely RowKey Queue} {operation : Operation}
    {rest : Sql Returned} {past : List Exchange}
    {tx last : Tx}
    (conduct : Amid (storage space) rely (operation.script space) tx past rest last) :
    ∃ rest last, Amid (storage space) rely (operation.program space) tx past rest last := by
  rcases conduct.bind_cases with ⟨first, underWay, _⟩ |
    ⟨result, between, early, late, isPast, returned, finished⟩
  · exact ⟨first, last, underWay⟩
  · rw [isPast, finished.done_cases.1, List.append_nil]
    exact ⟨.done result, between, returned⟩

/-! ## What a call commits -/

/-- A failure that cancels a task has cancelled the one of its run. -/
def Operation.Addresses : Operation → List Event → Queue → Prop
  | .failRun runId _ _, events, queue =>
      ∀ task nowAt, .moved task (.cancel nowAt) ∈ events → LastAttempt task runId queue
  | _, _, _ => True

/-- A call that contends reaches events that its function may cause. -/
theorem Operation.guarantees_contending {quiet : Prop} {ledger : Ledger} {tx : Tx}
    (operation : Operation) (contends : operation.Contends)
    (stable : Stably space quiet (Settled space quiet ledger) tx) :
    Guarantees space quiet (operation.program space)
      (fun result tx => ∃ events, (∀ event ∈ events, operation.MayCause event) ∧
        (operation.Ordinary → operation.Caused space result events) ∧
        Reaches space quiet ledger events tx ∧
        Stably space quiet (fun tx => operation.Addresses events tx.queue) tx)
      (fun _ _ => True) tx := by
  cases operation with
  | spawnTask taskName params options => cases contends
  | cleanupTasks => cases contends
  | claimTasks workerId leaseSeconds quantity taskNames =>
      refine Program.Ensures.mono ?_ (fun _ _ raised => raised)
        (guarantees_claimTasks (reports_anything quiet) tolerates_anything workerId leaseSeconds
          quantity taskNames stable)
      rintro claimed later ⟨arguments, stamp, sweeps, middle, _, _, _, extended, areSweeps,
        selected, _, reached, _⟩
      refine ⟨_, ?_, (fun impossible => nomatch impossible), reached.prepend extended,
        fun _ _ => trivial⟩
      intro event member
      rcases List.mem_append.mp member with inSweeps | inClaims
      · exact (areSweeps event inSweeps).mayCause _ _ _ _
      · obtain ⟨row, _, isEvent⟩ := List.mem_map.mp inClaims
        rw [← isEvent]
        trivial
  | failRun runId reason expectExpiredLease =>
      refine Program.Ensures.mono ?_ (fun _ _ raised => raised)
        (guarantees_failRun (reports_anything quiet) runId expectExpiredLease persistent_true stable
          (fun _ _ => trivial) (fun _ _ _ _ _ _ _ _ _ _ => trivial) (Or.inr refuses_anything))
      rintro _ later ⟨task, transition, fails, reached, addressed⟩
      have caused : (failRun runId reason expectExpiredLease).Caused space ()
          [.moved task transition] := ⟨task, transition, fails, rfl⟩
      refine ⟨_, caused.mayCause, fun _ => caused, reached, ?_⟩
      intro store moved other nowAt member
      cases List.mem_singleton.mp member
      exact addressed nowAt rfl store moved
  | _ =>
      refine Program.Ensures.mono ?_ (fun _ _ raised => raised)
        (guarantees_ordinary (reports_anything quiet) tolerates_anything _ trivial
          (Or.inr refuses_anything) stable)
      rintro result later ⟨events, caused, reached⟩
      exact ⟨events, caused.mayCause, fun _ => caused, reached, fun _ _ => trivial⟩

/-- A call that contends deletes no task. -/
theorem Operation.Contends.retains {operation : Operation} (contends : operation.Contends)
    (task : Uuid) : ¬operation.MayCause (.deleted task) := by
  cases operation with
  | cleanupTasks => cases contends
  | _ => exact id

/-- What is known of a call that contends and has returned. -/
structure Concluded (space : Char → Bool) (returned : Returned) (events : List Event)
    (tx : Tx) : Prop where
  mayCause : ∀ event ∈ events, returned.1.MayCause event
  caused : returned.1.Ordinary → returned.1.Caused space returned.2 events
  reached : Reaches space False .blank events tx
  addresses : returned.1.Addresses events tx.queue

/-- A call that contends and has returned was conducted to its events. -/
theorem Operation.Contends.concluded {operation : Operation} (contends : operation.Contends)
    {start : Queue} (sound : start.Sound space) {past : List Exchange} {value : Returned} {tx : Tx}
    (conduct : Amid (storage space) (interference space False) (operation.script space)
      (Local.start start) past (.done value) tx) :
    value.1 = operation ∧ ∃ events, Concluded space value events tx := by
  have ensures : Guarantees space False (operation.script space)
      (fun value tx => value.1 = operation ∧ ∃ events, Concluded space value events tx)
      (fun _ _ => True) (Local.start start) := by
    refine Program.Ensures.bind (Program.Ensures.mono ?_ (fun _ _ raised => raised)
      (operation.guarantees_contending contends (settled_start sound)))
    rintro result later ⟨events, mayCause, caused, reached, addresses⟩ store moved
    exact ⟨rfl, events, mayCause, caused, reached.after moved, addresses store moved⟩
  exact ensures.returned conduct

/-- Contention is interference. -/
theorem Amid.interference {α : Type} {program rest : Sql α} {past : List Exchange} {tx last : Tx}
    (conduct : Amid (storage space) (contention space) program tx past rest last) :
    Amid (storage space) (interference space False) program tx past rest last :=
  conduct.weaken fun _ _ _ (moved : (contention space).moves _ _ _) => moved.1

/-- The events that lead from the committed rows of every task to those a
transaction sees. -/
theorem Concluded.evolves {returned : Returned} {events : List Event} {tx : Tx}
    (concluded : Concluded space returned events tx) (task : Uuid) :
    ∃ before after, tx.committed.rowsOf task = Life.rows before ∧
      tx.queue.rowsOf task = Life.rows after ∧ Evolves space False task events before after := by
  obtain ⟨later, extended, settled⟩ := concluded.reached
  obtain ⟨before, after, committedRows, viewRows, evolves⟩ :=
    (Rely.Stable.now settled).evolves task (by simp)
  rw [extended.events] at evolves
  exact ⟨before, after, committedRows, viewRows, evolves⟩

/-- A change leaves a run alone that it does not lock. -/
theorem Change.onRun_of_untouched {change : Change} {run : Uuid} {found : Option RunRow}
    (untouched : .run run ∉ change.touches) (isRun : ∀ row ∈ found, row.id = run) :
    change.onRun run found = found := by
  cases change with
  | insertRun row =>
      have different : row.id ≠ run := fun same => untouched (same ▸ List.mem_cons_self)
      simp [onRun, different]
  | putRun row =>
      have different : row.id ≠ run := fun same => untouched (same ▸ List.mem_cons_self)
      cases found with
      | none => rfl
      | some old => simp [onRun, RunRow.key, isRun old rfl, Ne.symm different]
  | _ => rfl

/-- No change gives a run to another task. -/
theorem Change.onRun_keeps_task (change : Change) (run : Uuid) (row : RunRow) :
    ∃ later, change.onRun run (some row) = some later ∧ later.taskId = row.taskId := by
  cases change with
  | insertRun inserted => exact ⟨row, rfl, rfl⟩
  | putRun written =>
      by_cases same : row.key = written.key
      · exact ⟨written, congrArg some (if_pos same), (congrArg Prod.fst same).symm⟩
      · exact ⟨row, congrArg some (if_neg same), rfl⟩
  | _ => exact ⟨row, rfl, rfl⟩

/-- A run that a transaction has not locked looks as it is committed. -/
theorem findRun_unlocked {tx : Tx} {run : Uuid} (covered : tx.Covered (storage space))
    (retained : ∀ change ∈ tx.log, ∀ id, change ≠ .deleteTask id) (unlocked : .run run ∉ tx.held) :
    tx.queue.findRun run = tx.committed.findRun run := by
  have general : ∀ changes ⊆ tx.log, changes.foldl (fun found change => change.onRun run found)
      (tx.committed.findRun run) = tx.committed.findRun run := by
    intro changes included
    induction changes with
    | nil => rfl
    | cons change rest inductionHypothesis =>
        obtain ⟨inLog, others⟩ := List.cons_subset.mp included
        have untouched : .run run ∉ change.touches := fun touched =>
          unlocked (covered change inLog _ touched)
        rw [List.foldl_cons, Change.onRun_of_untouched untouched fun row found =>
          Queue.findRun_id found]
        exact inductionHypothesis others
  rw [← general tx.log (List.Subset.refl _)]
  exact Tx.findRun_foldl retained _ _

/-- A transaction that deletes nothing keeps every run and its task. -/
theorem findRun_retained {tx : Tx} {run : Uuid} {row : RunRow}
    (retained : ∀ change ∈ tx.log, ∀ id, change ≠ .deleteTask id)
    (found : tx.committed.findRun run = some row) :
    ∃ later, tx.queue.findRun run = some later ∧ later.taskId = row.taskId := by
  have general : ∀ (changes : List Change) (row : RunRow), ∃ later,
      changes.foldl (fun found change => change.onRun run found) (some row) = some later ∧
        later.taskId = row.taskId := by
    intro changes
    induction changes with
    | nil => exact fun row => ⟨row, rfl, rfl⟩
    | cons change rest inductionHypothesis =>
        intro row
        obtain ⟨middle, isMiddle, sameTask⟩ := change.onRun_keeps_task run row
        obtain ⟨later, isLater, sameLater⟩ := inductionHypothesis middle
        exact ⟨later, by rw [List.foldl_cons, isMiddle, isLater], sameLater.trans sameTask⟩
  obtain ⟨later, isLater, sameTask⟩ := general tx.log row
  refine ⟨later, ?_, sameTask⟩
  rw [← isLater, ← found]
  exact Tx.findRun_foldl retained _ _

/-! ## Coherence -/

/-- What a call that contends commits: a sound queue, in which every task lives on
and whatever others have locked is as it was. -/
theorem Operation.Contends.commits {operation : Operation} (contends : operation.Contends)
    {value : Returned} {events : List Event} {tx : Tx} (isOperation : value.1 = operation)
    (concluded : Concluded space value events tx) (covered : tx.Covered (storage space))
    (committed : tx.committed.Sound space) :
    tx.queue.Sound space ∧ ∀ held : List RowKey, (∀ key ∈ held, key ∉ tx.held) →
      (contention space).moves held tx.committed tx.queue := by
  obtain ⟨later, extended, settled⟩ := concluded.reached
  have now := Rely.Stable.now settled
  have retained := now.retained.resolve_left id
  refine ⟨now.sound, fun held apart =>
    ⟨⟨fun _ => now.sound, ?_, ?_, fun quiet => quiet.elim⟩, ?_, ?_⟩⟩
  · intro task locked
    exact (now.untouched task (by simp) (apart _ locked)).1
  · intro run locked
    exact findRun_unlocked covered retained (apart _ locked)
  · intro _ task life rows
    obtain ⟨before, after, committedRows, viewRows, evolves⟩ := concluded.evolves task
    have isLife : before = some life := Life.rows_injective (committedRows.symm.trans rows)
    subst isLife
    have undeleted : .deleted task ∉ events := by
      intro member
      exact contends.retains task (isOperation ▸ concluded.mayCause _ member)
    obtain ⟨last, isLast⟩ := evolves.remains undeleted
    subst isLast
    obtain ⟨valid, owner⟩ := committed.life_of_rows rows
    exact ⟨last, viewRows, evolves.precedes valid owner fun deleted => absurd deleted undeleted⟩
  · exact fun run row found => findRun_retained retained found

/-- Calls that contend keep to the rules of contention. -/
theorem discipline_contending :
    Discipline (storage space) (contention space) (Contending space) (Queue.Sound space) where
  commits := by
    rintro script start past value tx ⟨operation, contends, isScript⟩ sound conduct covered
      committed
    subst isScript
    obtain ⟨isOperation, events, concluded⟩ := contends.concluded sound (Amid.interference conduct)
    exact contends.commits isOperation concluded covered committed

/-- A run of contending calls from a sound queue. -/
def Contested (space : Char → Bool) (store : Queue) (labels : List Contest.Move)
    (contest : Contest) : Prop :=
  store.Sound space ∧ (∀ script, .start script ∈ labels → Contending space script) ∧
    Trace (System.Steps (storage space)) (System.idle store) labels contest

/-- In every state a contest reaches, the committed queue is sound, each call
has been conducted amid permitted commits, and no row is locked twice. -/
theorem Contested.coherent {store : Queue} {labels : List Contest.Move} {contest : Contest}
    (contested : Contested space store labels contest) :
    contest.Coherent (storage space) (contention space) (Contending space) (Queue.Sound space) :=
  (System.coherent_idle contested.1).run discipline_contending contested.2.1 contested.2.2

end Steda
