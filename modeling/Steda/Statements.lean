import Steda.Ledger

/-!
# Statements under interference

The effect of every statement on a transaction that is settled or owns a task.
-/

namespace Steda

open Postgres Transaction Relational

variable {space : Char → Bool} {quiet : Prop} {raises : SqlError → Tx → Prop}
variable {condition : Tx → Prop} {tx : Tx} {ledger : Ledger}

/-- A condition that only depends on the view and on having some locks. -/
structure Persistent (condition : Tx → Prop) : Prop where
  hold : ∀ tx keys, condition tx → condition (tx.hold keys)
  observe : ∀ tx reading, condition tx → condition (tx.observe reading)

/-- The transaction has locked a task and sees its rows. -/
def Sees (task : Uuid) (rows : Rows) (tx : Tx) : Prop :=
  .task task ∈ tx.held ∧ tx.queue.rowsOf task = rows

theorem persistent_sees (task : Uuid) (rows : Rows) : Persistent (Sees task rows) where
  hold := fun _ keys sees => ⟨List.mem_append_right keys sees.1, sees.2⟩
  observe := fun _ _ sees => sees

theorem persistent_true : Persistent fun _ => True where
  hold := fun _ _ _ => trivial
  observe := fun _ _ _ => trivial

/-! ## Readings, identifiers and snapshots -/

theorem guarantees_ofExcept {α : Type} {outcome : Except SqlError α}
    (stable : Stably space quiet condition tx)
    (raised : ∀ error tx, outcome = .error error → condition tx → raises error tx) :
    Guarantees space quiet (Program.ofExcept outcome)
      (fun value tx => outcome = .ok value ∧ Stably space quiet condition tx) raises tx := by
  apply Program.ensures_ofExcept
  · intro value returned
    exact Rely.Stable.mono (fun _ holds => ⟨returned, holds⟩) stable.stable
  · intro error failed
    exact Rely.Stable.mono (fun tx holds => raised error tx failed holds) stable

theorem guarantees_currentTime {returns : Timestamp → Tx → Prop}
    (stable : Stably space quiet condition tx)
    (carries : ∀ reading tx, condition tx → returns reading (tx.observe reading)) :
    Guarantees space quiet currentTime
      (fun reading => Stably space quiet (returns reading)) raises tx :=
  Program.ensures_clock stable.stable fun reading _ known =>
    known.observe reading fun tx holds => carries reading tx holds

theorem guarantees_uuidv7 {returns : Uuid → Tx → Prop}
    (stable : Stably space quiet condition tx)
    (carries : ∀ name tx, condition tx → returns name (tx.draw name)) :
    Guarantees space quiet uuidv7
      (fun name => Stably space quiet (returns name)) raises tx :=
  Program.ensures_ident stable.stable fun name _ known =>
    known.draw name fun tx holds => carries name tx holds

theorem guarantees_snapshot (fact : Queue → Prop)
    (stable : Stably space quiet condition tx)
    (seen : ∀ tx, condition tx → fact tx.queue) :
    Guarantees space quiet snapshot
      (fun visible tx => fact visible ∧
        Stably space quiet (fun tx => condition tx ∧ (quiet → tx.queue = visible)) tx)
      raises tx := by
  apply Program.ensures_read
  intro store moved
  have factNow := seen _ (stable store moved)
  have known : Stably space quiet
      (fun later => condition later ∧ (quiet → later.queue = Tx.queue (tx.withCommitted store)))
      (tx.withCommitted store) := by
    intro later movedLater
    refine ⟨stable later ((interference space quiet).trans moved movedLater), ?_⟩
    intro silent
    rw [movedLater.2.2.2 silent]
    rfl
  intro later movedLater
  exact ⟨factNow, known.after movedLater⟩

/-! ## Locks -/

/-- What is known after an attempt to lock a run. -/
def RunLocked (quiet : Prop) (condition : Tx → Prop) (id : Uuid) (policy : LockPolicy) :
    Option RunRow → Tx → Prop
  | some run, tx => condition tx ∧ .run id ∈ tx.held ∧ tx.queue.findRun id = some run
  | none, tx => condition tx ∧ (quiet → policy = .wait → tx.queue.findRun id = none)

/-- A locked run is fixed until the end of the transaction. -/
theorem guarantees_lockRun (id : Uuid) (policy : LockPolicy)
    (stable : Stably space quiet condition tx)
    (holds : ∀ tx keys, condition tx → condition (tx.hold keys))
    (retained : ∀ tx, condition tx →
      quiet ∨ ∀ change ∈ tx.log, ∀ id, change ≠ .deleteTask id) :
    Guarantees space quiet (lockRun id policy)
      (fun found => Stably space quiet (RunLocked quiet condition id policy found))
      raises tx := by
  apply Program.Ensures.bind
  apply Program.ensures_lock
  · intro store moved present
    have after := stable.after moved
    let now : Tx := (tx.withCommitted store).hold [.run id]
    have known : Stably space quiet condition now :=
      after.hold [.run id] fun tx known => holds tx _ known
    have locked : Stably space quiet
        (RunLocked quiet condition id policy ((Tx.queue now).findRun id)) now := by
      obtain ⟨run, found⟩ := Option.isSome_iff_exists.mp
        (show ((Tx.queue now).findRun id).isSome = true from present)
      rw [found]
      intro later movedLater
      have held : RowKey.run id ∈ now.held := List.mem_cons_self
      exact ⟨known later movedLater, held,
        (Tx.findRun_withCommitted (retained _ known.now) held movedLater).trans found⟩
    exact locked.stable.stable
  · intro store moved missing
    have after := stable.after moved
    have missed : Stably space quiet (RunLocked quiet condition id policy none)
        (tx.withCommitted store) := by
      intro later movedLater
      refine ⟨after later movedLater, ?_⟩
      intro silent waits
      rcases missing with absent | skips
      · have none : (Tx.queue (tx.withCommitted store)).findRun id = none :=
          Option.not_isSome_iff_eq_none.mp (Bool.eq_false_iff.mp absent)
        rw [movedLater.2.2.2 silent]
        exact none
      · rw [waits] at skips
        cases skips
    exact missed.stable.stable

/-- The transaction has locked a run and sees it. -/
def SeesRun (run : RunRow) (tx : Tx) : Prop :=
  .run run.id ∈ tx.held ∧ tx.queue.findRun run.id = some run

/-- Locking candidate runs keeps those whose newest version still satisfies the
condition of the statement. -/
theorem guarantees_lockRuns {α : Type} (policy : LockPolicy) (runId : α → Uuid)
    (keeps : α → RunRow → Except SqlError Bool) (candidates : List α) (limit : Nat)
    (stable : Stably space quiet condition tx)
    (holds : ∀ tx keys, condition tx → condition (tx.hold keys))
    (retained : ∀ tx, condition tx →
      quiet ∨ ∀ change ∈ tx.log, ∀ id, change ≠ .deleteTask id)
    (refused : ∀ candidate ∈ candidates, ∀ run error tx, condition tx →
      tx.queue.findRun (runId candidate) = some run → keeps candidate run = .error error →
        raises error tx) :
    Guarantees space quiet (lockRuns policy runId keeps candidates limit)
      (fun selected tx => (selected.map Prod.fst).Sublist candidates ∧
        (∀ pair ∈ selected, keeps pair.1 pair.2 = .ok true ∧ pair.2.id = runId pair.1) ∧
        Stably space quiet (fun tx => condition tx ∧ ∀ pair ∈ selected, SeesRun pair.2 tx) tx)
      raises tx := by
  induction candidates generalizing limit tx condition with
  | nil =>
      intro store moved
      exact ⟨by simp, by simp, Rely.Stable.mono (fun _ known => ⟨known, by simp⟩)
        (stable.after moved)⟩
  | cons candidate rest inductionHypothesis =>
      have restRefused : ∀ candidate ∈ rest, ∀ run error tx, condition tx →
          tx.queue.findRun (runId candidate) = some run → keeps candidate run = .error error →
            raises error tx :=
        fun other member => refused other (List.mem_cons_of_mem _ member)
      cases limit with
      | zero =>
          intro store moved
          exact ⟨by simp, by simp, Rely.Stable.mono (fun _ known => ⟨known, by simp⟩)
            (stable.after moved)⟩
      | succ limit =>
          have skip : ∀ {now : Tx}, Stably space quiet condition now →
              Guarantees space quiet (lockRuns policy runId keeps rest (limit + 1))
                (fun selected tx => (selected.map Prod.fst).Sublist (candidate :: rest) ∧
                  (∀ pair ∈ selected, keeps pair.1 pair.2 = .ok true ∧
                    pair.2.id = runId pair.1) ∧
                  Stably space quiet
                    (fun tx => condition tx ∧ ∀ pair ∈ selected, SeesRun pair.2 tx) tx)
                raises now := by
            intro now known
            refine Program.Ensures.mono ?_ (fun _ _ raised => raised)
              (inductionHypothesis (limit + 1) known holds retained restRefused)
            rintro selected later ⟨sublist, kept, seen⟩
            exact ⟨sublist.cons candidate, kept, seen⟩
          apply Program.Ensures.bind
          refine Program.Ensures.mono ?_ (fun _ _ raised => raised)
            (guarantees_lockRun (runId candidate) policy stable holds retained)
          intro found now locked
          cases found with
          | none => exact skip (Rely.Stable.mono (fun _ known => known.1) locked)
          | some run =>
              apply Program.Ensures.bind
              refine Program.Ensures.mono ?_ (fun _ _ raised => raised)
                (guarantees_ofExcept locked fun error tx failed known =>
                  refused candidate List.mem_cons_self run error tx known.1 known.2.2 failed)
              rintro kept later ⟨passed, known⟩
              by_cases isKept : kept = true
              · subst isKept
                have sameId : run.id = runId candidate :=
                  Queue.findRun_id known.now.2.2
                have seen : Stably space quiet (fun tx => condition tx ∧ SeesRun run tx) later := by
                  refine Rely.Stable.mono ?_ known
                  intro tx facts
                  exact ⟨facts.1, sameId ▸ facts.2.1, sameId ▸ facts.2.2⟩
                apply Program.Ensures.bind
                refine Program.Ensures.mono ?_ (fun _ _ raised => raised)
                  (inductionHypothesis limit seen
                    (fun tx keys facts => ⟨holds tx keys facts.1,
                      List.mem_append_right keys facts.2.1, facts.2.2⟩)
                    (fun tx facts => retained tx facts.1)
                    (fun other member run error tx facts =>
                      restRefused other member run error tx facts.1))
                rintro selected last ⟨sublist, keptRest, seenRest⟩
                intro store moved
                refine ⟨?_, ?_, ?_⟩
                · exact sublist.cons_cons candidate
                · intro pair member
                  rcases List.mem_cons.mp member with isHead | inRest
                  · rw [isHead]
                    exact ⟨passed, sameId⟩
                  · exact keptRest pair inRest
                · refine Rely.Stable.mono ?_ (seenRest.after moved)
                  rintro tx ⟨⟨holdsNow, seesRun⟩, others⟩
                  refine ⟨holdsNow, ?_⟩
                  intro pair member
                  rcases List.mem_cons.mp member with isHead | inRest
                  · rw [isHead]
                    exact seesRun
                  · exact others pair inRest
              · have notKept : kept = false := by simpa using isKept
                subst notKept
                exact skip (Rely.Stable.mono (fun _ facts => facts.1) known)

/-- What is known after a settled transaction has tried to lock a task. -/
def TaskLocked (space : Char → Bool) (quiet : Prop) (ledger : Ledger) (id : Uuid) :
    Option TaskRow → Tx → Prop
  | some task, tx => ∃ life : Life, life.task = task ∧
      Stably space quiet (Owns space quiet ledger id life (Life.rows (some life))) tx
  | none, tx => Stably space quiet (Settled space quiet ledger) tx

theorem TaskLocked.after {id : Uuid} {found : Option TaskRow}
    {store : Queue} (locked : TaskLocked space quiet ledger id found tx)
    (moved : (interference space quiet).moves tx.held tx.committed store) :
    TaskLocked space quiet ledger id found (tx.withCommitted store) := by
  cases found with
  | none =>
      intro later movedLater
      exact locked later ((interference space quiet).trans moved movedLater)
  | some task =>
      obtain ⟨life, equal, owns⟩ := locked
      exact ⟨life, equal, owns.after moved⟩

/-- A settled transaction owns the task it has locked.  Whatever else is known
of the locks and the view remains known, and a task that was waited for and not
found was missing while it held. -/
theorem guarantees_lockTask (id : Uuid) (policy : LockPolicy)
    (settled : Stably space quiet (Settled space quiet ledger) tx)
    (stable : Stably space quiet condition tx)
    (holds : ∀ tx keys, condition tx → condition (tx.hold keys)) :
    Guarantees space quiet (lockTask id policy)
      (fun found tx => TaskLocked space quiet ledger id found tx ∧
        Stably space quiet condition tx ∧
        (found = none → policy = .wait → ∃ earlier : Tx, Settled space quiet ledger earlier ∧
          condition earlier ∧ earlier.queue.findTask id = none)) raises tx := by
  apply Program.Ensures.bind
  apply Program.ensures_lock
  · intro store moved present
    let now : Tx := (tx.withCommitted store).hold [.task id]
    have settledNow : Stably space quiet (Settled space quiet ledger) now :=
      (settled.after moved).hold [.task id] fun tx known => known.hold _
    have known : Stably space quiet condition now :=
      (stable.after moved).hold [.task id] fun tx known => holds tx _ known
    obtain ⟨task, found⟩ := Option.isSome_iff_exists.mp
      (show ((Tx.queue now).findTask id).isSome = true from present)
    have locked : TaskLocked space quiet ledger id ((Tx.queue now).findTask id) now := by
      obtain ⟨life, rows, _⟩ := settledNow.now.lives id
      have sameTask : (Life.rows life).task = some task := by
        rw [← rows]
        exact found
      rw [found]
      cases life with
      | none => cases sameTask
      | some life =>
          have equal : life.task = task := Option.some.inj sameTask
          exact ⟨life, equal, settledNow.own List.mem_cons_self rows⟩
    intro later movedLater again movedAgain
    have movedBoth := (interference space quiet).trans movedLater movedAgain
    refine ⟨locked.after movedBoth, known.after movedBoth, ?_⟩
    intro missing
    change (Tx.queue now).findTask id = none at missing
    rw [found] at missing
    cases missing
  · intro store moved missing
    have missed : TaskLocked space quiet ledger id none (tx.withCommitted store) :=
      settled.after moved
    intro later movedLater again movedAgain
    have movedBoth := (interference space quiet).trans movedLater movedAgain
    refine ⟨missed.after movedBoth, (stable.after moved).after movedBoth, ?_⟩
    intro _ waits
    rcases missing with absent | skips
    · exact ⟨tx.withCommitted store, settled store moved, stable store moved,
        Option.not_isSome_iff_eq_none.mp (Bool.eq_false_iff.mp absent)⟩
    · rw [waits] at skips
      cases skips

/-- A run that is known to exist is found. -/
theorem guarantees_lockRun_seen {id : Uuid} {run : RunRow}
    (stable : Stably space quiet condition tx)
    (holds : ∀ tx keys, condition tx → condition (tx.hold keys))
    (seen : ∀ tx, condition tx → tx.queue.findRun id = some run) :
    Guarantees space quiet (lockRun id .wait)
      (fun found tx => found = some run ∧ Stably space quiet condition tx) raises tx := by
  apply Program.Ensures.bind
  apply Program.ensures_lock
  · intro store moved _
    have found : (Tx.queue (tx.withCommitted store)).findRun id = some run :=
      seen _ (stable store moved)
    have known := (stable.after moved).hold [.run id] fun tx known => holds tx _ known
    exact Rely.Stable.stable (Rely.Stable.mono (fun _ facts => ⟨found, facts⟩) known.stable)
  · intro store moved missing
    have found : (Tx.queue (tx.withCommitted store)).findRun id = some run :=
      seen _ (stable store moved)
    rcases missing with absent | impossible
    · change ((Tx.queue (tx.withCommitted store)).findRun id).isSome = false at absent
      rw [found] at absent
      cases absent
    · cases impossible

/-- A task that is known to exist is found, and its rows are fixed from then
on. -/
theorem guarantees_lockTask_seen {id : Uuid}
    (stable : Stably space quiet condition tx)
    (holds : ∀ tx keys, condition tx → condition (tx.hold keys))
    (present : ∀ tx, condition tx → (tx.queue.findTask id).isSome = true) :
    Guarantees space quiet (lockTask id .wait)
      (fun found tx => ∃ row rows, found = some row ∧ rows.task = some row ∧
        Stably space quiet (fun tx => condition tx ∧ Sees id rows tx) tx) raises tx := by
  apply Program.Ensures.bind
  apply Program.ensures_lock
  · intro store moved _
    let now : Tx := (tx.withCommitted store).hold [.task id]
    obtain ⟨row, found⟩ := Option.isSome_iff_exists.mp (present _ (stable store moved))
    have held : RowKey.task id ∈ now.held := List.mem_cons_self
    have known : Stably space quiet (fun tx => condition tx ∧ Sees id (now.queue.rowsOf id) tx)
        now := by
      intro later movedLater
      exact ⟨(stable.after moved).hold [.task id] (fun tx facts => holds tx _ facts) later
        movedLater, held, Tx.rowsOf_withCommitted held movedLater⟩
    intro later movedLater again movedAgain
    exact ⟨row, now.queue.rowsOf id, found, found,
      known.after ((interference space quiet).trans movedLater movedAgain)⟩
  · intro store moved missing
    have isPresent := present _ (stable store moved)
    rcases missing with absent | impossible
    · cases isPresent.symm.trans absent
    · cases impossible

/-! ## Changes -/

/-- Writing a new version of a run. -/
theorem guarantees_putRun_of {run : RunRow} {after : Tx → Prop}
    (stable : Stably space quiet condition tx)
    (alone : ∀ tx, condition tx → run.state.active = true →
      ∀ other ∈ tx.queue.runsOf run.taskId, other.id ≠ run.id → other.state.active = false)
    (refused : ∀ error tx, run.check space = .error error → raises error tx)
    (carries : ∀ tx, condition tx → after ((tx.hold [.run run.id]).record (.putRun run))) :
    Guarantees space quiet (change (.putRun run))
      (fun _ tx => run.check space = .ok () ∧ Stably space quiet after tx) raises tx := by
  have attempted : ∀ store, (interference space quiet).moves tx.held tx.committed store →
      Queue.attempt space (.putRun run) (Tx.queue (tx.withCommitted store)) =
        (run.check space).map fun _ => true := by
    intro store moved
    have lone : ¬(run.state.active = true ∧
        (Tx.queue (tx.withCommitted store)).hasOtherActiveRun run = true) := by
      rintro ⟨active, blocked⟩
      obtain ⟨other, member, sameTask⟩ := List.any_eq_true.mp blocked
      simp only [Bool.and_eq_true, beq_iff_eq, bne_iff_ne] at sameTask
      obtain ⟨⟨sameOwner, different⟩, otherActive⟩ := sameTask
      have inactive := alone _ (stable store moved) active other
        (mem_select.mpr ⟨member, sameOwner⟩) different
      rw [inactive] at otherActive
      cases otherActive
    simp only [Queue.attempt, if_neg lone]
    cases run.check space <;> rfl
  apply Program.ensures_write
  · intro store moved written
    have checked : run.check space = .ok () := by
      have attempt := (attempted store moved).symm.trans written
      cases check : run.check space with
      | error error =>
          rw [check] at attempt
          cases attempt
      | ok _ => rfl
    have known : Stably space quiet after
        (((tx.withCommitted store).hold [.run run.id]).record (.putRun run)) :=
      Rely.Stable.write _ _ (fun _ _ facts => carries _ facts) (stable.after moved)
    exact Rely.Stable.mono (fun _ facts => ⟨checked, facts⟩) known.stable
  · intro store moved dropped
    have attempt := (attempted store moved).symm.trans dropped
    cases check : run.check space <;> simp [check, Except.map] at attempt
  · intro store moved error failed
    have attempt := (attempted store moved).symm.trans failed
    cases check : run.check space with
    | error other =>
        simp only [check, Except.map, Except.error.injEq] at attempt
        exact refused error _ (attempt ▸ check)
    | ok _ => simp [check, Except.map] at attempt

/-- Writing a new version of a task. -/
theorem guarantees_putTask_of {row : TaskRow} {after : Tx → Prop}
    (stable : Stably space quiet condition tx) (checked : row.check space = .ok ())
    (carries : ∀ tx, condition tx → after ((tx.hold [.task row.id]).record (.putTask row))) :
    Guarantees space quiet (change (.putTask row))
      (fun _ => Stably space quiet after) raises tx := by
  have attempted : ∀ queue, Queue.attempt space (.putTask row) queue = .ok true := by
    intro queue
    simp only [Queue.attempt, checked]
    rfl
  apply Program.ensures_write
  · intro store moved _
    have known : Stably space quiet after
        (((tx.withCommitted store).hold [.task row.id]).record (.putTask row)) :=
      Rely.Stable.write _ _ (fun _ _ facts => carries _ facts) (stable.after moved)
    exact known.stable
  · intro store _ dropped
    cases (attempted (Tx.queue (tx.withCommitted store))).symm.trans dropped
  · intro store _ error refused
    cases (attempted (Tx.queue (tx.withCommitted store))).symm.trans refused

/-! ## Changes of an owned task -/

/-- Inserting a run that fits the runs of its task fails only on its id. -/
theorem attempt_insertRun {queue : Queue} {run : RunRow}
    (exists_ : (queue.findTask run.taskId).isSome)
    (checked : run.check space = .ok ())
    (numbered : ∀ other ∈ queue.runsOf run.taskId, other.attempt ≠ run.attempt)
    (alone : ∀ other ∈ queue.runsOf run.taskId, other.state.active = false) :
    Queue.attempt space (.insertRun run) queue =
      if (queue.findRun run.id).isSome then .error (.uniqueViolation "runs_pkey")
      else .ok true := by
  have taken : (queue.runs.any fun row => row.id == run.id) = (queue.findRun run.id).isSome :=
    (isSome_find run.id queue.runs).symm
  have sameAttempt : (queue.runs.any fun row =>
      row.taskId == run.taskId && row.attempt == run.attempt) = false := by
    rw [List.any_eq_false]
    intro other member both
    simp only [Bool.and_eq_true, beq_iff_eq] at both
    exact numbered other (mem_select.mpr ⟨member, both.1⟩) both.2
  have otherActive : queue.hasOtherActiveRun run = false := by
    unfold Queue.hasOtherActiveRun
    rw [List.any_eq_false]
    intro other member both
    simp only [Bool.and_eq_true, beq_iff_eq] at both
    rw [alone other (mem_select.mpr ⟨member, both.1.1⟩)] at both
    cases both.2
  have referenced : (queue.tasks.any fun task => task.id == run.taskId) = true := by
    obtain ⟨task, found⟩ := Option.isSome_iff_exists.mp exists_
    exact List.any_eq_true.mpr ⟨task, mem_of_find found, by simp [Queue.findTask_id found]⟩
  simp only [Queue.attempt, checked, taken, sameAttempt, otherActive, referenced]
  cases (queue.findRun run.id).isSome <;>
    simp [bind, Except.bind, pure, Except.pure, throw, throwThe, MonadExceptOf.throw]

section Owned

variable {task : Uuid} {life : Life} {rows : Rows}

/-- A change of the rows of an owned task. -/
theorem Owns.write (owns : Owns space quiet ledger task life rows tx) (change : Change)
    (keys : List RowKey) (retains : ∀ id, change ≠ .deleteTask id)
    (keepsCheckpoints : (Queue.apply change tx.queue).checkpoints = tx.queue.checkpoints)
    (only : ∀ other, other ≠ task → ∀ rows, change.onRows other rows = rows)
    (keyed : (Queue.apply change tx.queue).Keyed) :
    Owns space quiet ledger task life (change.onRows task rows)
      ((tx.hold keys).record change) where
  consistent := by
    have consistent := owns.consistent
    refine ⟨consistent.readings, consistent.drawn, consistent.committed, ?_, ?_, ?_, ?_, ?_⟩
    · rw [Tx.queue_record]
      exact keyed
    · rcases consistent.retained with silent | retained
      · exact Or.inl silent
      · right
        intro other member
        rcases List.mem_append.mp member with earlier | added
        · exact retained other earlier
        · rw [List.mem_singleton.mp added]
          exact retains
    · intro other different
      rw [Tx.queue_record, Queue.rowsOf_apply, only other different]
      exact consistent.evolves other different
    · intro other different unlocked
      rw [Tx.queue_record, Queue.rowsOf_apply, only other different]
      exact consistent.untouched other different fun locked =>
        unlocked (List.mem_append_right keys locked)
    · rw [Tx.queue_record]
      exact keepsCheckpoints.trans consistent.checkpoints
  locked := List.mem_append_right keys owns.locked
  committed := owns.committed
  rows := by
    rw [Tx.queue_record, Queue.rowsOf_apply, Tx.queue_hold, owns.rows]

theorem Owns.findRun (owns : Owns space quiet ledger task life rows tx) {run : RunRow}
    (member : run ∈ rows.runs) : tx.queue.findRun run.id = some run := by
  apply owns.consistent.keyed.findRun_of_mem
  rw [owns.rows]
  exact member

theorem Owns.findTask (owns : Owns space quiet ledger task life rows tx) :
    tx.queue.findTask task = rows.task :=
  congrArg Rows.task owns.rows

theorem Owns.owner (owns : Owns space quiet ledger task life rows tx) {run : RunRow}
    (member : run ∈ rows.runs) : run.taskId = task := by
  rw [← owns.rows] at member
  exact (mem_select.mp member).2

theorem Owns.distinct (owns : Owns space quiet ledger task life rows tx) :
    (rows.runs.map RunRow.id).Nodup := by
  rw [← owns.rows]
  exact (owns.consistent.keyed.runs).sublist (List.filter_sublist.map RunRow.id)

/-- The identifier just drawn names no run the owner of a task sees. -/
theorem Owns.findRun_unused {name : Uuid}
    (owns : Owns space quiet (ledger.draw name) task life rows tx) (unused : tx.Unused)
    (kept : ∀ run ∈ rows.runs, ∃ old ∈ life.runs, old.id = run.id) :
    tx.queue.findRun name = none := by
  have isDrawn : name ∈ (ledger.draw name).drawn := by simp [Ledger.draw]
  have unnamed := ledger.draw_unnamed (owns.consistent.drawn ▸ unused.1)
  refine owns.consistent.findRun_unused unused isDrawn unnamed ?_
  rintro _ rfl run inRows same
  rw [owns.rows] at inRows
  obtain ⟨old, inLife, sameId⟩ := kept run inRows
  obtain ⟨before, committedRows, evolves⟩ := owns.committed
  exact (owns.consistent.unnamed unused isDrawn unnamed committedRows evolves).2 old inLife
    (sameId.trans same)

/-- Replacing the last run of an owned task. -/
theorem Owns.replace_last (owns : Owns space quiet ledger task life rows tx)
    {history : List RunRow} {last run : RunRow} (runs : rows.runs = history ++ [last])
    (sameKey : run.key = last.key) :
    replace RunRow.key run rows.runs = history ++ [run] := by
  have distinct := owns.distinct
  rw [runs, List.map_append, List.nodup_append] at distinct
  rw [runs]
  apply replace_append_last sameKey.symm
  intro other member same
  have sameId : other.id = last.id := (congrArg Prod.snd same).trans (congrArg Prod.snd sameKey)
  exact distinct.2.2 other.id (List.mem_map_of_mem member) last.id (by simp) sameId

theorem guarantees_lockTask_owned
    (owns : Stably space quiet (Owns space quiet ledger task life rows) tx)
    {row : TaskRow} (current : rows.task = some row) :
    Guarantees space quiet (lockTask task .wait)
      (fun found tx => found = some row ∧
        Stably space quiet (Owns space quiet ledger task life rows) tx) raises tx := by
  refine Program.Ensures.mono ?_ (fun _ _ raised => raised)
    (guarantees_lockTask_seen owns (fun _ keys known => known.hold keys) ?_)
  · rintro found later ⟨row', rows', isFound, isRow, known⟩
    have sameRows : rows' = rows := known.now.2.2.symm.trans known.now.1.rows
    rw [isFound, ← isRow, sameRows]
    exact ⟨current, Rely.Stable.mono (fun _ facts => facts.1) known⟩
  · intro now known
    rw [known.findTask, current]
    rfl

theorem guarantees_lockRun_owned
    (owns : Stably space quiet (Owns space quiet ledger task life rows) tx)
    {run : RunRow} (member : run ∈ rows.runs) :
    Guarantees space quiet (lockRun run.id .wait)
      (fun found tx => found = some run ∧
        Stably space quiet (Owns space quiet ledger task life rows) tx) raises tx :=
  guarantees_lockRun_seen owns (fun _ keys known => known.hold keys) fun _ known =>
    known.findRun member

/-- Writing a new version of a run of an owned task. -/
theorem guarantees_putRun
    (owns : Stably space quiet (Owns space quiet ledger task life rows) tx)
    {run : RunRow} (owner : run.taskId = task)
    (refused : ∀ error tx, run.check space = .error error → raises error tx)
    (alone : run.state.active = true →
      ∀ other ∈ rows.runs, other.id ≠ run.id → other.state.active = false) :
    Guarantees space quiet (change (.putRun run))
      (fun _ tx => run.check space = .ok () ∧ Stably space quiet
        (Owns space quiet ledger task life
          { rows with runs := replace RunRow.key run rows.runs }) tx) raises tx := by
  refine guarantees_putRun_of owns ?_ refused ?_
  · intro now known active other member different
    have sameRuns : now.queue.runsOf run.taskId = rows.runs := by
      rw [owner]
      exact congrArg Rows.runs known.rows
    rw [sameRuns] at member
    exact alone active other member different
  · intro now known
    have change := known.write (.putRun run) [.run run.id] (by simp) rfl (by
      intro other different rows
      simp only [Change.onRows]
      rw [if_neg fun same => different (same.symm.trans owner)])
      (known.consistent.keyed.putRun run)
    simpa [Change.onRows, owner] using change

/-- Updating a run of an owned task. -/
theorem guarantees_updateRun
    (owns : Stably space quiet (Owns space quiet ledger task life rows) tx)
    {run : RunRow} (member : run ∈ rows.runs) {set : RunRow → RunRow}
    (sameKey : (set run).key = run.key)
    (refused : ∀ error tx, (set run).check space = .error error → raises error tx)
    (alone : (set run).state.active = true →
      ∀ other ∈ rows.runs, other.id ≠ run.id → other.state.active = false) :
    Guarantees space quiet (updateRun run.id set)
      (fun _ tx => (set run).check space = .ok () ∧ Stably space quiet
        (Owns space quiet ledger task life
          { rows with runs := replace RunRow.key (set run) rows.runs }) tx) raises tx := by
  apply Program.Ensures.bind
  refine Program.Ensures.mono ?_ (fun _ _ raised => raised) (guarantees_lockRun_owned owns member)
  rintro found now ⟨isRun, owned⟩
  subst isRun
  have owner : (set run).taskId = task :=
    (congrArg Prod.fst sameKey).trans (owned.now.owner member)
  have sameId : (set run).id = run.id := congrArg Prod.snd sameKey
  apply Program.Ensures.bind
  refine Program.Ensures.mono ?_ (fun _ _ raised => raised)
    (guarantees_putRun owned owner refused (by rw [sameId]; exact alone))
  rintro _ later ⟨checked, written⟩
  exact Rely.Stable.mono (fun _ holds => ⟨checked, holds⟩) written.stable

/-- Updating an owned task. -/
theorem guarantees_updateTask
    (owns : Stably space quiet (Owns space quiet ledger task life rows) tx)
    {row : TaskRow} (current : rows.task = some row) {set : TaskRow → TaskRow}
    (sameId : (set row).id = row.id)
    (sameIdempotencyKey : (set row).idempotencyKey = row.idempotencyKey)
    (checked : (set row).check space = .ok ()) :
    Guarantees space quiet (updateTask task set)
      (fun _ => Stably space quiet
        (Owns space quiet ledger task life { rows with task := some (set row) })) raises tx := by
  apply Program.Ensures.bind
  refine Program.Ensures.mono ?_ (fun _ _ raised => raised)
    (guarantees_lockTask_owned owns current)
  rintro found now ⟨isRow, owned⟩
  subst isRow
  have rowId : row.id = task := Queue.findTask_id (owned.now.findTask.trans current)
  apply Program.Ensures.bind
  refine Program.Ensures.mono (fun _ _ known => known.stable) (fun _ _ raised => raised)
    (guarantees_putTask_of owned checked ?_)
  intro later known
  have found : later.queue.findTask (set row).id = some row := by
    rw [sameId, rowId]
    exact known.findTask.trans current
  have change := known.write (.putTask (set row)) [.task (set row).id] (by simp) rfl (by
    intro other different rows
    simp only [Change.onRows]
    rw [if_neg fun same => different (same.symm.trans (sameId.trans rowId))])
    (known.consistent.keyed.putTask found sameIdempotencyKey.symm)
  simpa [Change.onRows, sameId, rowId, current] using change

/-- Inserting a run of an owned task.  A taken identifier is refused. -/
theorem guarantees_insertRun
    (owns : Stably space quiet (Owns space quiet ledger task life rows) tx)
    {run : RunRow} (owner : run.taskId = task) (exists_ : rows.task.isSome)
    (checked : run.check space = .ok ())
    (numbered : ∀ other ∈ rows.runs, other.attempt ≠ run.attempt)
    (alone : ∀ other ∈ rows.runs, other.state.active = false)
    (collides : ∀ tx, Owns space quiet ledger task life rows tx →
      (tx.queue.findRun run.id).isSome → raises (.uniqueViolation "runs_pkey") tx) :
    Guarantees space quiet (change (.insertRun run))
      (fun _ => Stably space quiet
        (Owns space quiet ledger task life { rows with runs := rows.runs ++ [run] }))
      raises tx := by
  have attempted : ∀ store, (interference space quiet).moves tx.held tx.committed store →
      Queue.attempt space (.insertRun run) (Tx.queue (tx.withCommitted store)) =
        if ((Tx.queue (tx.withCommitted store)).findRun run.id).isSome then
          .error (.uniqueViolation "runs_pkey") else .ok true := by
    intro store moved
    have sameRows := (owns store moved).rows
    have sameTask : (Tx.queue (tx.withCommitted store)).findTask run.taskId = rows.task := by
      rw [owner]
      exact congrArg Rows.task sameRows
    have sameRuns : (Tx.queue (tx.withCommitted store)).runsOf run.taskId = rows.runs := by
      rw [owner]
      exact congrArg Rows.runs sameRows
    apply attempt_insertRun
    · rw [sameTask]
      exact exists_
    · exact checked
    · rw [sameRuns]
      exact numbered
    · rw [sameRuns]
      exact alone
  apply Program.ensures_write
  · intro store moved written
    have fresh : (Tx.queue (tx.withCommitted store)).findRun run.id = none := by
      have attempt := (attempted store moved).symm.trans written
      cases found : (Tx.queue (tx.withCommitted store)).findRun run.id with
      | none => rfl
      | some other =>
          rw [found] at attempt
          cases attempt
    have known : Stably space quiet (Owns space quiet ledger task life
        { rows with runs := rows.runs ++ [run] })
        (((tx.withCommitted store).hold [.run run.id]).record (.insertRun run)) := by
      refine Rely.Stable.write _ _ ?_ (owns.after moved)
      intro later movedLater owned
      have freshLater : (Tx.queue ((tx.withCommitted store).withCommitted later)).findRun
          run.id = none := by
        let locking : Tx := (tx.withCommitted store).hold [.run run.id]
        have same : (Tx.queue (locking.withCommitted later)).findRun run.id =
            (Tx.queue locking).findRun run.id :=
          Tx.findRun_withCommitted owned.consistent.retained List.mem_cons_self movedLater
        exact same.trans fresh
      have change := owned.write (.insertRun run) [.run run.id] (by simp) rfl (by
        intro other different rows
        simp only [Change.onRows]
        rw [if_neg fun same => different (same.symm.trans owner)])
        (owned.consistent.keyed.insertRun freshLater)
      simpa [Change.onRows, owner] using change
    exact known.stable
  · intro store moved dropped
    have attempt := (attempted store moved).symm.trans dropped
    by_cases taken : ((Tx.queue (tx.withCommitted store)).findRun run.id).isSome = true
    · rw [if_pos taken] at attempt
      cases attempt
    · rw [if_neg taken] at attempt
      cases attempt
  · intro store moved error failed
    have attempt := (attempted store moved).symm.trans failed
    by_cases taken : ((Tx.queue (tx.withCommitted store)).findRun run.id).isSome = true
    · rw [if_pos taken] at attempt
      cases attempt
      exact collides _ (owns store moved) taken
    · rw [if_neg taken] at attempt
      cases attempt

end Owned

end Steda
