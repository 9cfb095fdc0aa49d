import Steda.Contracts.Claiming

/-!
# Contract of the claim statement

The claim statement writes all selected runs before it locks the first of
their tasks, so several tasks are in the middle of a claim at once.  A locked
run that can be claimed stays the last run of its task whatever other
transactions do, which is why overwriting the task afterwards is safe.
-/

namespace Steda

open Postgres Transaction Relational

variable {space : Char → Bool} {quiet : Prop} {raises : SqlError → Tx → Prop}
variable {tx : Tx} {ledger : Ledger}

/-- The arguments of the updates of one claim statement. -/
structure ClaimStamp where
  workerId : String
  nowAt : Timestamp
  expiresAt : Timestamp

namespace ClaimStamp

/-- The run after the claim. -/
def run (stamp : ClaimStamp) (run : RunRow) : RunRow :=
  run.claim stamp.workerId stamp.nowAt stamp.expiresAt

/-- The transition of a claimed run. -/
def transition (stamp : ClaimStamp) (run : RunRow) : Transition :=
  .claim run.id stamp.workerId stamp.nowAt stamp.expiresAt

/-- The event of a claimed run. -/
def event (stamp : ClaimStamp) (run : RunRow) : Event :=
  .moved run.taskId (stamp.transition run)

end ClaimStamp

/-- A selected run that is still to be written. -/
def Selected (quiet : Prop) (nowAt : Timestamp) (run : RunRow) (tx : Tx) : Prop :=
  SeesRun run tx ∧ (quiet → ∃ task, tx.queue.findTask run.taskId = some task ∧
    task.due nowAt = .ok false)

/-- A run that is written as claimed while its task is not. -/
structure HalfClaimed (space : Char → Bool) (quiet : Prop) (ledger : Ledger)
    (stamp : ClaimStamp) (run : RunRow) (life : Life) (tx : Tx) : Prop where
  locked : .run run.id ∈ tx.held
  isLast : life.last = run
  committed : ∃ before, tx.committed.rowsOf run.taskId = Life.rows before ∧
    Evolves space quiet run.taskId ledger.events before (some life)
  rows : tx.queue.rowsOf run.taskId =
    { task := some life.task, runs := life.history ++ [stamp.run run] }
  untouched : .task run.taskId ∉ tx.held →
    tx.committed.rowsOf run.taskId = Life.rows (some life) ∧
      ∀ event ∈ ledger.events, event.task ≠ run.taskId
  notDue : quiet → life.task.due stamp.nowAt = .ok false

/-- The state of a claim statement: `done` runs are written, `rest` are not. -/
structure Claiming (space : Char → Bool) (quiet : Prop) (ledger : Ledger)
    (stamp : ClaimStamp) (done rest : List RunRow) (tx : Tx) : Prop where
  consistent : Consistent space quiet ledger (fun task => ∃ run ∈ done, run.taskId = task) tx
  half : ∀ run ∈ done, ∃ life, HalfClaimed space quiet ledger stamp run life tx
  selected : ∀ run ∈ rest, Selected quiet stamp.nowAt run tx

/-- What the claim statement has checked of its selected runs. -/
structure Claimable (space : Char → Bool) (stamp : ClaimStamp) (runs : List RunRow) : Prop where
  named : isBlank space stamp.workerId = false
  waiting : ∀ run ∈ runs, run.state.claimable = true ∧ run.availableAt ≤ stamp.nowAt
  distinct : (runs.map RunRow.taskId).Nodup

theorem HalfClaimed.hold {stamp : ClaimStamp} {run : RunRow} {life : Life}
    (half : HalfClaimed space quiet ledger stamp run life tx) (keys : List RowKey) :
    HalfClaimed space quiet ledger stamp run life (tx.hold keys) where
  locked := List.mem_append_right keys half.locked
  isLast := half.isLast
  committed := half.committed
  rows := half.rows
  untouched := fun unlocked => half.untouched fun locked =>
    unlocked (List.mem_append_right keys locked)
  notDue := half.notDue

theorem Claiming.hold {stamp : ClaimStamp} {done rest : List RunRow}
    (claiming : Claiming space quiet ledger stamp done rest tx) (keys : List RowKey) :
    Claiming space quiet ledger stamp done rest (tx.hold keys) where
  consistent := claiming.consistent.hold keys
  half := fun run member =>
    let ⟨life, half⟩ := claiming.half run member
    ⟨life, half.hold keys⟩
  selected := fun run member =>
    have ⟨sees, notDue⟩ := claiming.selected run member
    ⟨⟨List.mem_append_right keys sees.1, sees.2⟩, notDue⟩

/-- The life of a selected run in the view of the transaction. -/
theorem Claiming.life_of_selected {stamp : ClaimStamp} {done rest : List RunRow}
    (claiming : Claiming space quiet ledger stamp done rest tx) {run : RunRow}
    (member : run ∈ rest) (waiting : run.state.claimable = true)
    (fresh : ∀ other ∈ done, other.taskId ≠ run.taskId) :
    ∃ before life, tx.committed.rowsOf run.taskId = Life.rows before ∧
      tx.queue.rowsOf run.taskId = Life.rows (some life) ∧
      Evolves space quiet run.taskId ledger.events before (some life) ∧
      life.Valid space ∧ life.last = run := by
  obtain ⟨before, after, committedRows, viewRows, evolves⟩ :=
    claiming.consistent.evolves run.taskId fun exempt => by
      obtain ⟨other, inDone, same⟩ := exempt
      exact fresh other inDone same
  obtain ⟨other, otherRows, lives⟩ := claiming.consistent.committed.lives run.taskId
  have same : other = before := Life.rows_injective (otherRows.symm.trans committedRows)
  subst same
  have inRows := Queue.mem_rowsOf_of_findRun (claiming.selected run member).1.2
  rw [viewRows] at inRows
  cases after with
  | none => cases inRows
  | some life =>
      have valid := (evolves.lives lives life rfl).1
      have active := State.active_of_claimable waiting
      exact ⟨other, life, committedRows, viewRows, evolves, valid,
        (valid.active_run inRows active).1.symm⟩

section Writing

variable {stamp : ClaimStamp} {done rest : List RunRow} {run : RunRow}

theorem Claimable.waiting_of (claimable : Claimable space stamp (done ++ run :: rest)) :
    run.state.claimable = true ∧ run.availableAt ≤ stamp.nowAt :=
  claimable.waiting run (by simp)

theorem Claimable.ne_done (claimable : Claimable space stamp (done ++ run :: rest)) :
    ∀ other ∈ done, other.taskId ≠ run.taskId := by
  have distinct := claimable.distinct
  rw [List.map_append, List.nodup_append] at distinct
  intro other member
  exact distinct.2.2 other.taskId (List.mem_map_of_mem member) run.taskId (by simp)

theorem Claimable.ne_rest (claimable : Claimable space stamp (done ++ run :: rest)) :
    ∀ other ∈ rest, other.taskId ≠ run.taskId := by
  have distinct := claimable.distinct
  rw [List.map_append, List.nodup_append, List.map_cons, List.nodup_cons] at distinct
  intro other member same
  exact distinct.2.1.1 (same ▸ List.mem_map_of_mem member)

theorem onRows_putRun_other {written : RunRow} {task : Uuid} (different : written.taskId ≠ task)
    (rows : Rows) : (Change.putRun written).onRows task rows = rows := by
  simp only [Change.onRows]
  rw [if_neg different]

theorem onRows_putTask_other {written : TaskRow} {task : Uuid} (different : written.id ≠ task)
    (rows : Rows) : (Change.putTask written).onRows task rows = rows := by
  simp only [Change.onRows]
  rw [if_neg different]

/-- A half claimed run is not affected by a change of another task. -/
theorem HalfClaimed.write_other {life : Life} {change : Change}
    (half : HalfClaimed space quiet ledger stamp run life tx)
    (other : ∀ rows, change.onRows run.taskId rows = rows) (keys : List RowKey) :
    HalfClaimed space quiet ledger stamp run life ((tx.hold keys).record change) where
  locked := List.mem_append_right keys half.locked
  isLast := half.isLast
  committed := half.committed
  rows := by
    rw [Tx.queue_record, Queue.rowsOf_apply, other]
    exact half.rows
  untouched := fun unlocked => half.untouched fun locked =>
    unlocked (List.mem_append_right keys locked)
  notDue := half.notDue

/-- Writing the next selected run. -/
theorem Claiming.write_run (claiming : Claiming space quiet ledger stamp done (run :: rest) tx)
    (claimable : Claimable space stamp (done ++ run :: rest)) :
    Claiming space quiet ledger stamp (done ++ [run]) rest
      ((tx.hold [.run (stamp.run run).id]).record (.putRun (stamp.run run))) := by
  have consistent := claiming.consistent
  have exempted : ∀ {task : Uuid}, (¬∃ other ∈ done ++ [run], other.taskId = task) →
      (¬∃ other ∈ done, other.taskId = task) ∧ (stamp.run run).taskId ≠ task := by
    intro task notExempt
    refine ⟨?_, fun same => notExempt ⟨run, by simp, same⟩⟩
    rintro ⟨other, member, same⟩
    exact notExempt ⟨other, List.mem_append_left _ member, same⟩
  have checkpoints : (Tx.queue ((tx.hold [.run (stamp.run run).id]).record
      (.putRun (stamp.run run)))).checkpoints =
        Event.replay ledger.events tx.committed.checkpoints := by
    rw [Tx.queue_record]
    exact consistent.checkpoints
  refine ⟨⟨consistent.readings, consistent.drawn, consistent.committed, ?_, ?_, ?_, ?_,
    checkpoints⟩, ?_, ?_⟩
  · rw [Tx.queue_record]
    exact consistent.keyed.putRun _
  · rcases consistent.retained with silent | retained
    · exact Or.inl silent
    · right
      intro other member
      rcases List.mem_append.mp member with earlier | added
      · exact retained other earlier
      · rw [List.mem_singleton.mp added]
        simp
  · intro task notExempt
    obtain ⟨notDone, different⟩ := exempted notExempt
    rw [Tx.queue_record, Queue.rowsOf_apply, onRows_putRun_other different]
    exact consistent.evolves task notDone
  · intro task notExempt unlocked
    obtain ⟨notDone, different⟩ := exempted notExempt
    rw [Tx.queue_record, Queue.rowsOf_apply, onRows_putRun_other different]
    exact consistent.untouched task notDone fun locked =>
      unlocked (List.mem_append_right _ locked)
  · intro other member
    rcases List.mem_append.mp member with earlier | isRun
    · obtain ⟨life, half⟩ := claiming.half other earlier
      have different : (stamp.run run).taskId ≠ other.taskId :=
        fun same => claimable.ne_done other earlier same.symm
      exact ⟨life, half.write_other (onRows_putRun_other different) _⟩
    · rw [List.mem_singleton.mp isRun]
      obtain ⟨before, life, committedRows, viewRows, evolves, valid, isLast⟩ :=
        claiming.life_of_selected List.mem_cons_self claimable.waiting_of.1 claimable.ne_done
      have selected := claiming.selected run List.mem_cons_self
      refine ⟨life, List.mem_append_right _ selected.1.1, isLast,
        ⟨before, committedRows, evolves⟩, ?_, ?_, ?_⟩
      · have distinct : ((Life.rows (some life)).runs.map RunRow.id).Nodup := by
          rw [← viewRows]
          exact consistent.keyed.runs.sublist (List.filter_sublist.map RunRow.id)
        have replaced : replace RunRow.key (stamp.run run) life.runs =
            life.history ++ [stamp.run run] := by
          simp only [Life.rows, Life.runs, List.map_append, List.nodup_append] at distinct
          apply replace_append_last
          · rw [isLast]
            rfl
          · intro earlier inHistory same
            have sameId : earlier.id = life.last.id := by
              rw [isLast]
              exact congrArg Prod.snd same
            exact distinct.2.2 earlier.id (List.mem_map_of_mem inHistory) life.last.id (by simp)
              sameId
        rw [Tx.queue_record, Queue.rowsOf_apply, Tx.queue_hold, viewRows]
        simp only [Change.onRows]
        rw [if_pos (show (stamp.run run).taskId = run.taskId from rfl), ← replaced]
        rfl
      · intro unlocked
        have notDone : ¬∃ other ∈ done, other.taskId = run.taskId := by
          rintro ⟨other, inDone, same⟩
          exact claimable.ne_done other inDone same
        obtain ⟨unchanged, noEvents⟩ := consistent.untouched run.taskId notDone
          fun locked => unlocked (List.mem_append_right _ locked)
        exact ⟨unchanged.symm.trans viewRows, noEvents⟩
      · intro silent
        obtain ⟨task, found, notDue⟩ := selected.2 silent
        have sameTask : some life.task = some task := by
          rw [← found]
          exact (congrArg Rows.task viewRows).symm
        rw [Option.some.inj sameTask]
        exact notDue
  · intro other member
    obtain ⟨⟨locked, found⟩, notDue⟩ := claiming.selected other (List.mem_cons_of_mem _ member)
    refine ⟨⟨List.mem_append_right _ locked, ?_⟩, ?_⟩
    · have different : other.key ≠ (stamp.run run).key := fun same =>
        claimable.ne_rest other member (congrArg Prod.fst same)
      rw [Tx.queue_record, Queue.findRun_apply (by simp), Tx.queue_hold, found]
      simp only [Change.onRun, Option.map_some]
      rw [if_neg different]
    · intro silent
      obtain ⟨task, foundTask, due⟩ := notDue silent
      refine ⟨task, ?_, due⟩
      rw [Tx.queue_record]
      exact foundTask

/-- The `updated_runs` part writes all selected runs. -/
theorem guarantees_claimRuns (runs : List RunRow)
    (claiming : Stably space quiet (Claiming space quiet ledger stamp done runs) tx)
    (claimable : Claimable space stamp (done ++ runs)) :
    Guarantees space quiet (claimRuns stamp.workerId stamp.nowAt stamp.expiresAt runs)
      (fun _ => Stably space quiet (Claiming space quiet ledger stamp (done ++ runs) []))
      raises tx := by
  induction runs generalizing done tx with
  | nil =>
      rw [List.append_nil]
      exact claiming.stable
  | cons run rest inductionHypothesis =>
      have life := claiming.now.life_of_selected List.mem_cons_self claimable.waiting_of.1
        claimable.ne_done
      obtain ⟨_, life, _, _, _, valid, isLast⟩ := life
      have checked : (stamp.run run).check space = .ok () := by
        rw [← isLast]
        exact RunRow.check_claim (valid.runsChecked _ life.last_mem_runs) claimable.named _ _
      apply Program.Ensures.bind
      apply Program.Ensures.bind
      refine Program.Ensures.mono ?_ (fun _ _ raised => raised)
        (guarantees_lockRun_seen claiming (fun _ keys known => known.hold keys)
          fun _ known => (known.selected run List.mem_cons_self).1.2)
      rintro found afterLock ⟨isRun, claiming⟩
      subst isRun
      apply Program.Ensures.bind
      refine Program.Ensures.mono ?_ (fun _ _ raised => raised)
        (guarantees_putRun_of claiming ?_ ?_ fun _ known => known.write_run claimable)
      · rintro _ afterPut ⟨-, written⟩ store moved
        rw [List.append_cons] at claimable ⊢
        exact inductionHypothesis (written.after moved) claimable
      · intro now known _ other member different
        obtain ⟨_, life, _, viewRows, _, valid, isLast⟩ := known.life_of_selected
          List.mem_cons_self claimable.waiting_of.1 claimable.ne_done
        have inLife : other ∈ life.runs := by
          have sameRuns : now.queue.runsOf run.taskId = life.runs := congrArg Rows.runs viewRows
          rw [← sameRuns]
          exact member
        apply valid.others_inactive other inLife
        rw [isLast]
        exact different
      · intro error now refused
        cases checked.symm.trans refused

/-- The life of a half claimed run is valid. -/
theorem HalfClaimed.lives {life : Life}
    (half : HalfClaimed space quiet ledger stamp run life tx)
    (sound : tx.committed.Sound space) : life.Valid space ∧ life.task.id = run.taskId := by
  obtain ⟨before, committedRows, evolves⟩ := half.committed
  obtain ⟨other, otherRows, lives⟩ := sound.lives run.taskId
  have same : other = before := Life.rows_injective (otherRows.symm.trans committedRows)
  subst same
  exact evolves.lives lives life rfl

theorem HalfClaimed.task_eq {life : Life} {row : TaskRow} {rows : Rows}
    (half : HalfClaimed space quiet ledger stamp run life tx) (sees : Sees run.taskId rows tx)
    (isRow : rows.task = some row) : life.task = row := by
  have sameRows := sees.2.symm.trans half.rows
  rw [sameRows] at isRow
  exact Option.some.inj isRow

/-- Writing the task of the next half claimed run. -/
theorem Claiming.write_task
    (claiming : Claiming space quiet ledger stamp (run :: rest) [] tx)
    (claimable : Claimable space stamp (run :: rest))
    {row : TaskRow} {rows : Rows} (sees : Sees run.taskId rows tx) (isRow : rows.task = some row)
    (stamped : ∀ reading ∈ (stamp.event run).stamps, reading ∈ ledger.readings)
    (named : (ledger.events.flatMap Event.names ++ (stamp.event run).names).Sublist ledger.drawn) :
    Claiming space quiet (ledger.cause (stamp.event run) stamped named) stamp rest []
      ((tx.hold [.task (row.claim run stamp.nowAt).id]).record
        (.putTask (row.claim run stamp.nowAt))) := by
  have consistent := claiming.consistent
  have others : ∀ other ∈ rest, other.taskId ≠ run.taskId :=
    Claimable.ne_rest (show Claimable space stamp ([] ++ run :: rest) from claimable)
  obtain ⟨life, half⟩ := claiming.half run List.mem_cons_self
  have isTask := half.task_eq sees isRow
  subst isTask
  obtain ⟨before, committedRows, evolves⟩ := half.committed
  obtain ⟨valid, owner⟩ := half.lives consistent.committed
  have sameId : (life.task.claim run stamp.nowAt).id = run.taskId := owner
  have otherRows : ∀ task, run.taskId ≠ task → ∀ rows,
      (Change.putTask (life.task.claim run stamp.nowAt)).onRows task rows = rows := by
    intro task different
    exact onRows_putTask_other (sameId ▸ different)
  have checkpoints : (Tx.queue ((tx.hold [.task (life.task.claim run stamp.nowAt).id]).record
      (.putTask (life.task.claim run stamp.nowAt)))).checkpoints =
        Event.replay (ledger.cause (stamp.event run) stamped named).events
          tx.committed.checkpoints := by
    rw [Tx.queue_record, replay_cause fun _ => rfl]
    exact consistent.checkpoints
  refine ⟨⟨consistent.readings, consistent.drawn, consistent.committed, ?_, ?_, ?_, ?_,
    checkpoints⟩, ?_, ?_⟩
  · have found : tx.queue.findTask (life.task.claim run stamp.nowAt).id = some life.task := by
      rw [sameId]
      exact congrArg Rows.task half.rows
    rw [Tx.queue_record]
    exact consistent.keyed.putTask found rfl
  · rcases consistent.retained with silent | retained
    · exact Or.inl silent
    · right
      intro change member
      rcases List.mem_append.mp member with earlier | added
      · exact retained change earlier
      · rw [List.mem_singleton.mp added]
        simp
  · intro task notExempt
    by_cases isOwn : run.taskId = task
    · subst isOwn
      refine ⟨before, some ((stamp.transition run).after life), committedRows, ?_,
        evolves.snoc rfl ⟨life, rfl, ⟨?_, ?_, claimable.named⟩, ?_, rfl⟩⟩
      · rw [Tx.queue_record, Queue.rowsOf_apply, Tx.queue_hold, half.rows]
        simp only [Change.onRows]
        rw [if_pos sameId]
        rw [← half.isLast]
        rfl
      · rw [half.isLast]
      · rw [half.isLast]
        exact (claimable.waiting run List.mem_cons_self).1
      · intro silent
        refine ⟨half.notDue silent, ?_⟩
        rw [half.isLast]
        exact (claimable.waiting run List.mem_cons_self).2
    · obtain ⟨earlier, after, committedRows, viewRows, evolves⟩ :=
        consistent.evolves task fun exempt => by
          obtain ⟨halfRun, member, same⟩ := exempt
          rcases List.mem_cons.mp member with isRun | inRest
          · exact isOwn (isRun ▸ same)
          · exact notExempt ⟨halfRun, inRest, same⟩
      refine ⟨earlier, after, committedRows, ?_, evolves.snoc_other isOwn⟩
      rw [Tx.queue_record, Queue.rowsOf_apply, otherRows task isOwn]
      exact viewRows
  · intro task notExempt unlocked
    have notOwn : run.taskId ≠ task := by
      intro same
      subst same
      exact unlocked (List.mem_append_right _ sees.1)
    obtain ⟨unchanged, noEvents⟩ := consistent.untouched task (fun exempt => by
      obtain ⟨halfRun, member, same⟩ := exempt
      rcases List.mem_cons.mp member with isRun | inRest
      · exact notOwn (isRun ▸ same)
      · exact notExempt ⟨halfRun, inRest, same⟩) fun locked =>
        unlocked (List.mem_append_right _ locked)
    refine ⟨?_, ?_⟩
    · rw [Tx.queue_record, Queue.rowsOf_apply, otherRows task notOwn]
      exact unchanged
    · intro event member
      rcases List.mem_append.mp member with earlier | added
      · exact noEvents event earlier
      · rw [List.mem_singleton.mp added]
        exact notOwn
  · intro halfRun member
    obtain ⟨otherLife, otherHalf⟩ := claiming.half halfRun (List.mem_cons_of_mem _ member)
    have different : run.taskId ≠ halfRun.taskId := (others halfRun member).symm
    have unaffected := otherHalf.write_other (otherRows _ different)
      [.task (life.task.claim run stamp.nowAt).id]
    obtain ⟨earlier, earlierRows, earlierEvolves⟩ := unaffected.committed
    refine ⟨otherLife, unaffected.locked, unaffected.isLast,
      ⟨earlier, earlierRows, earlierEvolves.snoc_other different⟩, unaffected.rows, ?_,
      unaffected.notDue⟩
    intro unlocked
    obtain ⟨unchanged, noEvents⟩ := unaffected.untouched unlocked
    refine ⟨unchanged, ?_⟩
    intro event member
    rcases List.mem_append.mp member with early | added
    · exact noEvents event early
    · rw [List.mem_singleton.mp added]
      exact different
  · intro waiting impossible
    cases impossible

theorem Claiming.settle (claiming : Claiming space quiet ledger stamp [] [] tx) :
    Settled space quiet ledger tx := by
  have consistent := claiming.consistent
  refine ⟨consistent.readings, consistent.drawn, consistent.committed, consistent.keyed,
    consistent.retained, ?_, ?_, consistent.checkpoints⟩
  · exact fun task _ => consistent.evolves task (by simp)
  · exact fun task _ => consistent.untouched task (by simp)

/-- The `updated_tasks` part completes the claim of all written runs. -/
theorem guarantees_claimTaskRows (runs : List RunRow)
    (claiming : Stably space quiet (Claiming space quiet ledger stamp runs []) tx)
    (claimable : Claimable space stamp runs) (observed : stamp.nowAt ∈ ledger.readings) :
    Guarantees space quiet (claimTaskRows stamp.nowAt runs)
      (fun _ tx => Reaches space quiet ledger (runs.map stamp.event) tx) raises tx := by
  induction runs generalizing ledger tx with
  | nil =>
      have settled : Stably space quiet (Settled space quiet ledger) tx :=
        Rely.Stable.mono (fun _ known => known.settle) claiming
      exact fun store moved => Reaches.nothing (settled.after moved)
  | cons run rest inductionHypothesis =>
      have stamped : ∀ reading ∈ (stamp.event run).stamps, reading ∈ ledger.readings := by
        intro reading member
        rw [List.mem_singleton.mp member]
        exact observed
      have named := ledger.named_nothing
      have restClaimable : Claimable space stamp rest := by
        refine ⟨claimable.named, fun other member =>
          claimable.waiting other (List.mem_cons_of_mem _ member), ?_⟩
        have distinct := claimable.distinct
        rw [List.map_cons, List.nodup_cons] at distinct
        exact distinct.2
      apply Program.Ensures.bind
      apply Program.Ensures.bind
      refine Program.Ensures.mono ?_ (fun _ _ raised => raised)
        (guarantees_lockTask_seen claiming (fun _ keys known => known.hold keys) ?_)
      · rintro found afterLock ⟨row, rows, isRow, rowsTask, known⟩
        subst isRow
        have checked : (row.claim run stamp.nowAt).check space = .ok () := by
          obtain ⟨claimingNow, sees⟩ := known.now
          obtain ⟨life, half⟩ := claimingNow.half run List.mem_cons_self
          have valid := (half.lives claimingNow.consistent.committed).1
          rw [← half.task_eq sees rowsTask]
          refine TaskRow.check_of_same valid.taskChecked rfl rfl le_rfl ?_
          intro impossible
          cases impossible
        apply Program.Ensures.bind
        refine Program.Ensures.mono ?_ (fun _ _ raised => raised)
          (guarantees_putTask_of known checked fun _ facts =>
            facts.1.write_task claimable facts.2 rowsTask stamped named)
        intro _ afterPut written store moved
        refine Program.Ensures.mono ?_ (fun _ _ raised => raised)
          (inductionHypothesis (written.after moved) restClaimable observed)
        intro _ later reached
        exact reached.prepend (ledger.extends_cause _ stamped named)
      · intro now known
        obtain ⟨life, half⟩ := known.half run List.mem_cons_self
        have found : now.queue.findTask run.taskId = some life.task :=
          congrArg Rows.task half.rows
        rw [found]
        rfl

end Writing

/-! ## The whole statement -/

theorem claimCandidate_ok {nowAt : Timestamp} {names : List String} {task : TaskRow}
    {run : RunRow} (fits : claimCandidate nowAt names task run = .ok true) :
    run.state.claimable = true ∧ task.lastAttemptRun = run.id ∧ run.availableAt ≤ nowAt ∧
      names.contains task.name = true ∧ task.due nowAt = .ok false := by
  unfold claimCandidate at fits
  split at fits
  · rename_i conditions
    simp only [Bool.and_eq_true, beq_iff_eq, decide_eq_true_eq] at conditions
    obtain ⟨⟨⟨⟨claimable, _⟩, authoritative⟩, available⟩, named⟩ := conditions
    refine ⟨claimable, authoritative, available, named, ?_⟩
    cases due : task.due nowAt with
    | error error =>
        rw [due] at fits
        cases fits
    | ok isDue =>
        rw [due] at fits
        cases isDue with
        | true => cases fits
        | false => rfl
  · cases fits

theorem claimCandidate_error {nowAt : Timestamp} {names : List String} {task : TaskRow}
    {run : RunRow} {error : SqlError} (failed : claimCandidate nowAt names task run = .error error) :
    task.due nowAt = .error error := by
  unfold claimCandidate at failed
  split at failed
  · cases due : task.due nowAt with
    | error other =>
        rw [due] at failed
        cases failed
        rfl
    | ok isDue =>
        rw [due] at failed
        cases failed
  · cases failed

theorem mem_taskJoin {visible : Queue} {pair : TaskRow × RunRow}
    (member : pair ∈ taskJoin visible) :
    pair.2 ∈ visible.runs ∧ visible.findTask pair.2.taskId = some pair.1 := by
  obtain ⟨run, inRuns, joined⟩ := List.mem_filterMap.mp member
  obtain ⟨task, found, isPair⟩ := Option.map_eq_some_iff.mp joined
  rw [← isPair]
  exact ⟨inRuns, found⟩

theorem taskJoin_runs (visible : Queue) :
    ((taskJoin visible).map Prod.snd).Sublist visible.runs := by
  unfold taskJoin
  induction visible.runs with
  | nil => simp
  | cons run rest inductionHypothesis =>
      cases found : visible.findTask run.taskId with
      | none =>
          rw [List.filterMap_cons_none (by simp [found])]
          exact inductionHypothesis.cons run
      | some task =>
          rw [List.filterMap_cons_some (by simp [found]; rfl)]
          exact inductionHypothesis.cons_cons run

/-- Two claimable runs of one task are the same run. -/
theorem Consistent.claimable_unique (settled : Settled space quiet ledger tx)
    {first second : RunRow} (seesFirst : SeesRun first tx) (seesSecond : SeesRun second tx)
    (firstWaits : first.state.claimable = true) (secondWaits : second.state.claimable = true)
    (sameTask : first.taskId = second.taskId) : first = second := by
  obtain ⟨life, rows, lives⟩ := settled.lives first.taskId
  have firstIn := Queue.mem_rowsOf_of_findRun seesFirst.2
  have secondIn := Queue.mem_rowsOf_of_findRun seesSecond.2
  rw [← sameTask, rows] at secondIn
  rw [rows] at firstIn
  cases life with
  | none => cases firstIn
  | some life =>
      have valid := (lives life rfl).1
      rw [(valid.active_run firstIn (State.active_of_claimable firstWaits)).1,
        (valid.active_run secondIn (State.active_of_claimable secondWaits)).1]

/-- A selected row of the claim statement: the task and run of its snapshot and
the newest version of the run. -/
abbrev SelectedRow : Type := (TaskRow × RunRow) × RunRow

/-- What the claim statement has done when it returns. -/
def Claimed (space : Char → Bool) (quiet : Prop) (ledger : Ledger) (stamp : ClaimStamp)
    (names : List String) (claimed : List ClaimedTask) (tx : Tx) : Prop :=
  ∃ selected : List SelectedRow,
    claimed.Perm (selected.map fun row => claimedTask row.1.1 row.2) ∧
      Reaches space quiet ledger (selected.map fun row => stamp.event row.2) tx ∧
      (∀ row ∈ selected, claimCandidate stamp.nowAt names row.1.1 row.2 = .ok true) ∧
      (quiet → ∀ row ∈ selected, row.1.1.id = row.2.taskId)

theorem Claimed.after {stamp : ClaimStamp} {names : List String} {claimed : List ClaimedTask}
    {store : Queue} (done : Claimed space quiet ledger stamp names claimed tx)
    (moved : (interference space quiet).moves tx.held tx.committed store) :
    Claimed space quiet ledger stamp names claimed (tx.withCommitted store) := by
  obtain ⟨selected, isPerm, reached, fits, owners⟩ := done
  exact ⟨selected, isPerm, reached.after moved, fits, owners⟩

/-- The ids of the selected runs are distinct. -/
theorem selected_ids_nodup {visible : Queue} {candidates ordered : List (TaskRow × RunRow)}
    {selected : List SelectedRow} (keyed : (visible.runs.map RunRow.id).Nodup)
    (filtered : candidates.Sublist (taskJoin visible)) (isPerm : ordered.Perm candidates)
    (chosen : (selected.map Prod.fst).Sublist ordered)
    (sameIds : ∀ row ∈ selected, row.2.id = row.1.2.id) :
    (selected.map fun row => row.2.id).Nodup := by
  have joinIds : ((taskJoin visible).map fun pair => pair.2.id).Nodup := by
    have sublist := (taskJoin_runs visible).map RunRow.id
    rw [List.map_map] at sublist
    exact keyed.sublist sublist
  have orderedIds : (ordered.map fun pair => pair.2.id).Nodup :=
    (isPerm.map _).nodup_iff.mpr (joinIds.sublist (filtered.map _))
  have chosenIds := orderedIds.sublist (chosen.map fun pair => pair.2.id)
  rw [List.map_map] at chosenIds
  have same : (selected.map fun row => row.2.id) =
      selected.map ((fun pair : TaskRow × RunRow => pair.2.id) ∘ Prod.fst) := by
    apply List.map_congr_left
    intro row member
    exact sameIds row member
  rw [same]
  exact chosenIds

/-- The claim statement claims the runs it selects. -/
theorem guarantees_claimStatement (reports : Reports quiet raises) (request : ClaimRequest)
    (nowAt : Timestamp) (named : isBlank space request.workerId = false)
    (settled : Stably space quiet (Settled space quiet ledger) tx)
    (observed : nowAt ∈ ledger.readings) :
    Guarantees space quiet (claimStatement request nowAt)
      (Claimed space quiet ledger
        { workerId := request.workerId, nowAt := nowAt,
          expiresAt := nowAt + request.leaseSeconds * second } request.taskNames)
      raises tx := by
  let stamp : ClaimStamp :=
    { workerId := request.workerId, nowAt := nowAt,
      expiresAt := nowAt + request.leaseSeconds * second }
  apply Program.Ensures.bind
  refine Program.Ensures.mono ?_ (fun _ _ raised => raised)
    (guarantees_snapshot Queue.Keyed settled fun _ known => known.keyed)
  rintro visible afterRead ⟨keyed, known⟩
  apply Program.Ensures.bind
  refine Program.Ensures.mono ?_ (fun _ _ raised => raised)
    (guarantees_ofExcept known fun error tx failed facts => ?_)
  swap
  · obtain ⟨pair, member, refused⟩ := filterExcept_error failed
    refine reports.deadline error pair.1 _ tx ?_ (claimCandidate_error refused)
    intro silent
    rw [facts.2 silent]
    exact mem_of_find (mem_taskJoin member).2
  rintro candidates afterFilter ⟨filtered, known⟩
  obtain ⟨sublist, _⟩ := filterExcept_ok filtered
  apply Program.Ensures.bind
  refine Program.Ensures.mono ?_ (fun _ _ raised => raised)
    (guarantees_lockRuns .skipLocked _ _ _ _ known
      (fun _ keys facts => ⟨facts.1.hold keys, facts.2⟩)
      (fun _ facts => facts.1.retained) ?_)
  swap
  · intro pair member run error now facts _ refused
    refine reports.deadline error pair.1 _ now ?_ (claimCandidate_error refused)
    intro silent
    rw [facts.2 silent]
    exact mem_of_find (mem_taskJoin (sublist.subset ((List.mem_insertionSort _).mp member))).2
  rintro selected afterLocks ⟨chosen, fits, known⟩
  have distinctIds := selected_ids_nodup keyed.runs sublist (List.perm_insertionSort _ _) chosen
    fun row member => (fits row member).2
  have joined : ∀ row ∈ selected, row.1 ∈ taskJoin visible := by
    intro row member
    have inOrdered := chosen.subset (List.mem_map_of_mem member)
    exact sublist.subset ((List.mem_insertionSort _).mp inOrdered)
  have inVisible : quiet → ∀ row ∈ selected,
      row.2 = row.1.2 ∧ visible.findTask row.2.taskId = some row.1.1 := by
    intro silent row member
    obtain ⟨⟨_, sameView⟩, sees⟩ := known.now
    have inJoin := mem_taskJoin (joined row member)
    have found : visible.findRun row.1.2.id = some row.1.2 := find_of_mem keyed.runs inJoin.1
    have seen := (sees row member).2
    rw [sameView silent, (fits row member).2, found] at seen
    have same : row.1.2 = row.2 := Option.some.inj seen
    exact ⟨same.symm, same ▸ inJoin.2⟩
  have claimable : Claimable space stamp (selected.map fun row => row.2) := by
    refine ⟨named, ?_, ?_⟩
    · intro run member
      obtain ⟨row, inSelected, isRun⟩ := List.mem_map.mp member
      have facts := claimCandidate_ok (fits row inSelected).1
      rw [← isRun]
      exact ⟨facts.1, facts.2.2.1⟩
    · rw [List.map_map, List.Nodup, List.pairwise_map]
      rw [List.Nodup, List.pairwise_map] at distinctIds
      refine distinctIds.imp_of_mem ?_
      intro first second firstIn secondIn different sameTask
      obtain ⟨⟨settledNow, _⟩, sees⟩ := known.now
      have same := settledNow.claimable_unique (sees first firstIn) (sees second secondIn)
        (claimCandidate_ok (fits first firstIn).1).1
        (claimCandidate_ok (fits second secondIn).1).1 sameTask
      exact different (congrArg RunRow.id same)
  have claiming : Stably space quiet
      (Claiming space quiet ledger stamp [] (selected.map fun row => row.2)) afterLocks := by
    refine Rely.Stable.mono ?_ known
    rintro now ⟨⟨settledNow, sameView⟩, sees⟩
    refine ⟨⟨settledNow.readings, settledNow.drawn, settledNow.committed, settledNow.keyed,
      settledNow.retained, fun task _ => settledNow.evolves task (by simp),
      fun task _ => settledNow.untouched task (by simp), settledNow.checkpoints⟩, by simp, ?_⟩
    intro run member
    obtain ⟨row, inSelected, isRun⟩ := List.mem_map.mp member
    subst isRun
    refine ⟨sees row inSelected, ?_⟩
    intro silent
    refine ⟨row.1.1, ?_, (claimCandidate_ok (fits row inSelected).1).2.2.2.2⟩
    rw [sameView silent]
    exact (inVisible silent row inSelected).2
  apply Program.Ensures.bind
  refine Program.Ensures.mono ?_ (fun _ _ raised => raised)
    (guarantees_claimRuns _ claiming claimable)
  intro _ afterRuns claiming
  apply Program.Ensures.bind
  refine Program.Ensures.mono ?_ (fun _ _ raised => raised)
    (guarantees_claimTaskRows _ claiming claimable observed)
  intro _ afterTasks reached store moved
  refine ⟨selected, ?_, ?_, fun row member => (fits row member).1, ?_⟩
  · exact (List.perm_insertionSort _ _).map _
  · have sameEvents : (selected.map fun row => row.2).map stamp.event =
        selected.map fun row => stamp.event row.2 := by
      rw [List.map_map]
      rfl
    rw [← sameEvents]
    exact reached.after moved
  · intro silent row member
    exact Queue.findTask_id (inVisible silent row member).2

/-! ## `claim_tasks` -/

/-- What is known of the arguments of a claim that passed their checks. -/
theorem validateClaim_ok {workerId : Option String} {leaseSeconds quantity : Option Int}
    {taskNames : Option (List (Option String))} {request : ClaimRequest}
    (validated : validateClaim space workerId leaseSeconds quantity taskNames = .ok request) :
    isBlank space request.workerId = false ∧ quantity = some request.quantity ∧
      0 < request.quantity ∧ taskNames.map (List.filterMap id) = some request.taskNames := by
  unfold validateClaim at validated
  rcases workerId with _ | worker
  · cases validated
  simp only [except_guard_ok] at validated
  obtain ⟨named, validated⟩ := validated
  rcases leaseSeconds with _ | seconds
  · cases validated
  simp only [except_guard_ok] at validated
  obtain ⟨_, validated⟩ := validated
  rcases quantity with _ | quantity
  · cases validated
  simp only [except_guard_ok] at validated
  obtain ⟨positive, validated⟩ := validated
  rcases taskNames with _ | names
  · cases validated
  simp only [except_guard_ok] at validated
  obtain ⟨_, _, validated⟩ := validated
  cases validated
  exact ⟨by simpa using named, rfl, not_le.mp positive, rfl⟩

/-- The argument checks of a claim fail with plain errors only. -/
theorem validateClaim_raises (workerId : Option String) (leaseSeconds quantity : Option Int)
    (taskNames : Option (List (Option String))) :
    Plain (validateClaim space workerId leaseSeconds quantity taskNames) := by
  unfold validateClaim
  rcases workerId with _ | worker
  · exact onlyRaises_error rfl
  refine onlyRaises_guard rfl ?_
  rcases leaseSeconds with _ | seconds
  · exact onlyRaises_error rfl
  refine onlyRaises_guard rfl ?_
  rcases quantity with _ | quantity
  · exact onlyRaises_error rfl
  refine onlyRaises_guard rfl ?_
  rcases taskNames with _ | names
  · exact onlyRaises_error rfl
  exact onlyRaises_guard rfl (onlyRaises_guard rfl (onlyRaises_ok _))

/-- What `claim_tasks` has done when it returns: sweeps, then one claim
statement. -/
def ClaimedTasks (space : Char → Bool) (quiet : Prop) (ledger : Ledger)
    (request : Except SqlError ClaimRequest) (claimed : List ClaimedTask) (tx : Tx) : Prop :=
  ∃ (arguments : ClaimRequest) (stamp : ClaimStamp) (sweeps : List Event) (middle : Ledger),
    request = .ok arguments ∧ stamp.workerId = arguments.workerId ∧
      stamp.expiresAt = stamp.nowAt + arguments.leaseSeconds * second ∧
      ledger.Extends sweeps middle ∧ (∀ event ∈ sweeps, event.Sweeps) ∧
      Claimed space quiet middle stamp arguments.taskNames claimed tx

theorem guarantees_claimTasks (reports : Reports quiet raises) (tolerates : Tolerates raises)
    (workerId : Option String) (leaseSeconds quantity : Option Int)
    (taskNames : Option (List (Option String)))
    (settled : Stably space quiet (Settled space quiet ledger) tx) :
    Guarantees space quiet (claimTasks space workerId leaseSeconds quantity taskNames)
      (ClaimedTasks space quiet ledger
        (validateClaim space workerId leaseSeconds quantity taskNames)) raises tx := by
  apply Program.Ensures.bind
  have read : ∀ {ledger : Ledger} {tx : Tx}, Stably space quiet (Settled space quiet ledger) tx →
      Guarantees space quiet currentTime (fun reading => Stably space quiet
        (Settled space quiet (ledger.observe reading))) raises tx := fun settled =>
    guarantees_currentTime settled fun reading _ known => known.observe reading
  refine Program.Ensures.mono ?_ (fun _ _ raised => raised) (read settled)
  intro startedAt afterClock settledFirst
  have firstExtended := ledger.extends_observe startedAt
  apply Program.Ensures.bind
  refine Program.Ensures.mono ?_ (fun _ _ raised => raised)
    (guarantees_ofExcept settledFirst fun error now failed _ => ?_)
  swap
  · exact tolerates error _ (validateClaim_raises _ _ _ _ error failed)
  rintro request afterCheck ⟨validated, settledFirst⟩
  apply Program.Ensures.bind
  refine Program.Ensures.mono ?_ (fun _ _ raised => raised)
    (guarantees_cancelExpiredTasks reports tolerates _ settledFirst)
  rintro _ afterCancels ⟨cancels, cancelSweeps, second, secondExtended, settledSecond⟩
  apply Program.Ensures.bind
  refine Program.Ensures.mono ?_ (fun _ _ raised => raised)
    (guarantees_reapExpiredRuns reports tolerates _ settledSecond)
  rintro _ afterReaps ⟨reaps, reapSweeps, third, thirdExtended, settledThird⟩
  apply Program.Ensures.bind
  refine Program.Ensures.mono ?_ (fun _ _ raised => raised) (read settledThird)
  intro nowAt afterSecondClock settledLast
  have extended := (firstExtended.trans secondExtended).trans
    (thirdExtended.trans (third.extends_observe nowAt))
  refine Program.Ensures.mono ?_ (fun _ _ raised => raised)
    (guarantees_claimStatement reports request nowAt (validateClaim_ok validated).1 settledLast
      (by simp [Ledger.observe]))
  intro claimed later done
  refine ⟨request, _, _, _, validated, rfl, rfl, extended, ?_, done⟩
  intro event member
  simp only [List.nil_append, List.append_nil, List.mem_append] at member
  rcases member with isCancel | isReap
  · exact cancelSweeps event isCancel
  · exact reapSweeps event isReap

end Steda
