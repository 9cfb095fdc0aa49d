import Steda.Laws.GatedCalls

/-!
# The lock order of sweeps and claims

A batch locks runs without waiting for them and handles them afterwards one by
one, so it holds tasks when it comes to lock the runs of its next statement.
Every active run of a task it holds is locked by then.
-/

namespace Steda

open Postgres Transaction Relational

variable {space : Char → Bool} {tx after last : Tx} {task run : Uuid}

/-! ## Locking without waiting -/

section Selection

variable {α : Type} {runId : α → Uuid} {keeps : α → RunRow → Except SqlError Bool}
variable {candidates : List α} {limit : Nat}

/-- Lockable candidates are locked in order. -/
theorem staysClosed_lockRuns
    (lockable : ∀ candidate ∈ candidates, tx.Lockable (runId candidate)) :
    StaysClosed space (lockRuns .skipLocked runId keeps candidates limit) tx := by
  refine Program.respects_while
    (fun tx => ∀ candidate ∈ candidates, Tx.Lockable tx (runId candidate))
    (issues_lockRuns (fun candidate member => ⟨candidate, member, rfl⟩) limit :
      (lockRuns .skipLocked runId keeps candidates limit).Issues fun command =>
        ∃ candidate ∈ candidates, command = .lock (.run (runId candidate)) .skipLocked) ?_ ?_ ?_
    lockable
  · exact fun tx store now moved candidate member => (now candidate member).moved moved
  · rintro _ answer tx after ⟨chosen, _, rfl⟩ now answered candidate member
    exact (now candidate member).answered answered
  · rintro tx _ now ⟨candidate, member, rfl⟩
    exact now candidate member

/-- The run of the pair passed the test when it was locked, and it is locked
since. -/
structure LockedSince (space : Char → Bool) (runId : α → Uuid)
    (keeps : α → RunRow → Except SqlError Bool) (tx last : Tx) (pair : α × RunRow) : Prop where
  sameId : pair.2.id = runId pair.1
  kept : keeps pair.1 pair.2 = .ok true
  locked : .run pair.2.id ∈ last.held
  met : ∃ met : Tx, met.log = tx.log ∧
    (upkeep space).moves tx.held tx.committed met.committed ∧
    met.queue.findRun pair.2.id = some pair.2 ∧
    last.committed.findRun pair.2.id = met.committed.findRun pair.2.id ∧
    (upkeep space).moves [] met.committed last.committed

theorem LockedSince.earlier {pair : α × RunRow}
    (locked : LockedSince space runId keeps after last pair) (sameLog : after.log = tx.log)
    (held : tx.held ⊆ after.held)
    (moved : (upkeep space).moves tx.held tx.committed after.committed) :
    LockedSince space runId keeps tx last pair := by
  obtain ⟨sameId, kept, isHeld, met, isLog, moves, found, frozen, later⟩ := locked
  exact ⟨sameId, kept, isHeld, met, isLog.trans sameLog,
    (upkeep space).trans moved ((upkeep space).anti held moves), found, frozen, later⟩

theorem LockedSince.amid {β : Type} {program rest : Sql β} {past : List Exchange}
    {pair : α × RunRow} (locked : LockedSince space runId keeps tx after pair)
    (conduct : Amid (storage space) (upkeep space) program after past rest last) :
    LockedSince space runId keeps tx last pair := by
  obtain ⟨sameId, kept, isHeld, met, isLog, moves, found, frozen, later⟩ := locked
  exact ⟨sameId, kept, conduct.held.subset isHeld, met, isLog, moves, found,
    (conduct.moves.1.2.2.1 _ isHeld).trans frozen,
    (upkeep space).trans later ((upkeep space).anti (List.nil_subset _) conduct.moves)⟩

/-- Inversion of a locking statement at its first candidate. -/
theorem lockRuns_cons {policy : LockPolicy} {candidate : α} {past : List Exchange}
    {selected : List (α × RunRow)}
    (conduct : Amid (storage space) (upkeep space)
      (lockRuns policy runId keeps (candidate :: candidates) (limit + 1)) tx past (.done selected)
      last) :
    ∃ store answer after late remaining others between more,
      (upkeep space).moves tx.held tx.committed store ∧
      Answered (storage space) (.lock (.run (runId candidate)) policy) (tx.withCommitted store)
        answer after ∧
      limit ≤ remaining ∧
      Amid (storage space) (upkeep space) (lockRuns policy runId keeps candidates remaining) after
        late (.done others) between ∧
      Amid (storage space) (upkeep space) (.done selected : Sql (List (α × RunRow))) between more
        (.done selected) last ∧
      (selected = others ∨ ∃ row, (answer.bind fun queue => queue.findRun (runId candidate)) =
        some row ∧ keeps candidate row = .ok true ∧ selected = (candidate, row) :: others) := by
  rw [lockRuns] at conduct
  obtain ⟨store, answer, after, late, moves, answered, rest⟩ := Amid.lockRun_bind conduct
  cases seen : answer.bind fun queue => queue.findRun (runId candidate) with
  | none =>
      rw [seen] at rest
      exact ⟨store, answer, after, late, limit + 1, selected, last, [], moves, answered,
        Nat.le_succ _, rest, .here _ _, Or.inl rfl⟩
  | some row =>
      simp only [seen] at rest
      cases kept : keeps candidate row with
      | error error =>
          rw [kept] at rest
          cases (Amid.raise_cases rest).2
      | ok value =>
          rw [kept] at rest
          cases value with
          | false =>
              exact ⟨store, answer, after, late, limit + 1, selected, last, [], moves, answered,
                Nat.le_succ _, rest, .here _ _, Or.inl rfl⟩
          | true =>
              have composed : Amid (storage space) (upkeep space)
                  (lockRuns policy runId keeps candidates limit >>= fun others =>
                    .done ((candidate, row) :: others)) after late (.done selected) last := rest
              obtain ⟨others, between, early, more, _, first, second⟩ := composed.bind_done
              have isSelected := second.done_cases.2
              cases isSelected
              exact ⟨store, answer, after, early, limit, others, between, more, moves, answered,
                le_refl _, first, second, Or.inr ⟨row, seen, kept, rfl⟩⟩

/-- The runs that a statement returns are selected from its candidates. -/
theorem lockRuns_selected {policy : LockPolicy} {past : List Exchange}
    {selected : List (α × RunRow)}
    (conduct : Amid (storage space) (upkeep space) (lockRuns policy runId keeps candidates limit) tx
      past (.done selected) last) :
    ∀ pair ∈ selected, pair.1 ∈ candidates ∧ LockedSince space runId keeps tx last pair := by
  induction candidates generalizing limit tx past selected last with
  | nil =>
      cases conduct.done_cases.2
      simp
  | cons candidate rest inductionHypothesis =>
      cases limit with
      | zero =>
          cases conduct.done_cases.2
          simp
      | succ limit =>
          obtain ⟨store, answer, after, late, remaining, others, between, more, moves, answered, _,
            first, second, isSelected⟩ := lockRuns_cons conduct
          have movesAfter : (upkeep space).moves tx.held tx.committed after.committed := by
            rw [answered.committed]
            exact moves
          have sameLog : after.log = tx.log := answered.log id
          have fromRest : ∀ pair ∈ others, pair.1 ∈ candidate :: rest ∧
              LockedSince space runId keeps tx last pair := by
            intro pair member
            obtain ⟨inRest, isLocked⟩ := inductionHypothesis first pair member
            exact ⟨List.mem_cons_of_mem _ inRest,
              (isLocked.earlier sameLog answered.held.subset movesAfter).amid second⟩
          rcases isSelected with isOthers | ⟨row, seen, kept, isSelected⟩
          · exact isOthers ▸ fromRest
          · rw [isSelected]
            refine List.forall_mem_cons.mpr ⟨⟨List.mem_cons_self, ?_⟩, fromRest⟩
            refine LockedSince.amid (LockedSince.amid ?_ first) second
            cases answered with
            | missed missing => cases seen
            | locked present =>
                have isRow := Queue.findRun_id seen
                rw [← isRow] at seen
                refine ⟨isRow, kept, ?_, tx.withCommitted store, rfl, moves, seen, rfl,
                  (upkeep space).refl _ _⟩
                rw [isRow]
                exact List.mem_cons_self

/-- A transaction has locked the run, or has not seen it. -/
def Reached (space : Char → Bool) (run : Uuid) (tx last : Tx) : Prop :=
  .run run ∈ last.held ∨ ∃ met : Tx, met.log = tx.log ∧
    (upkeep space).moves tx.held tx.committed met.committed ∧
    met.queue.findRun run = none ∧ (upkeep space).moves [] met.committed last.committed

theorem Reached.earlier (reached : Reached space run after last) (sameLog : after.log = tx.log)
    (held : tx.held ⊆ after.held)
    (moved : (upkeep space).moves tx.held tx.committed after.committed) :
    Reached space run tx last := by
  refine reached.imp_right ?_
  rintro ⟨met, isLog, moves, absent, later⟩
  exact ⟨met, isLog.trans sameLog, (upkeep space).trans moved ((upkeep space).anti held moves),
    absent, later⟩

theorem Reached.amid {β : Type} {program rest : Sql β} {past : List Exchange}
    (reached : Reached space run tx after)
    (conduct : Amid (storage space) (upkeep space) program after past rest last) :
    Reached space run tx last := by
  refine reached.imp (fun held => conduct.held.subset held) ?_
  rintro ⟨met, isLog, moves, absent, later⟩
  exact ⟨met, isLog, moves, absent,
    (upkeep space).trans later ((upkeep space).anti (List.nil_subset _) conduct.moves)⟩

/-- A statement that waits reaches all its candidates. -/
theorem lockRuns_reached {past : List Exchange} {selected : List (α × RunRow)}
    (conduct : Amid (storage space) (upkeep space) (lockRuns .wait runId keeps candidates limit) tx
      past (.done selected) last) (enough : candidates.length ≤ limit) :
    ∀ candidate ∈ candidates, Reached space (runId candidate) tx last := by
  induction candidates generalizing limit tx past selected last with
  | nil => simp
  | cons candidate rest inductionHypothesis =>
      cases limit with
      | zero => cases enough
      | succ limit =>
          obtain ⟨store, answer, after, late, remaining, others, between, more, moves, answered,
            grows, first, second, _⟩ := lockRuns_cons conduct
          have movesAfter : (upkeep space).moves tx.held tx.committed after.committed := by
            rw [answered.committed]
            exact moves
          have sameLog : after.log = tx.log := answered.log id
          refine List.forall_mem_cons.mpr ⟨?_, fun other member => ?_⟩
          · refine Reached.amid (Reached.amid ?_ first) second
            cases answered with
            | locked present => exact Or.inl List.mem_cons_self
            | missed missing =>
                refine Or.inr ⟨tx.withCommitted store, rfl, moves, ?_, (upkeep space).refl _ _⟩
                have absent := missing.resolve_right (by decide)
                refine Option.not_isSome_iff_eq_none.mp fun seen => ?_
                exact absurd (seen.symm.trans absent) (by decide)
          · have fits : rest.length ≤ remaining := (Nat.le_of_succ_le_succ enough).trans grows
            exact ((inductionHypothesis first fits other member).earlier sameLog
              answered.held.subset movesAfter).amid second

end Selection

/-! ## The reaper -/

/-- A transaction that has only cancelled tasks sees every other run as it is
committed. -/
theorem findRun_of_cancels {log : List Change} (cancels : ∀ change ∈ log, change.Cancels)
    {queue : Queue} {row : RunRow}
    (found : (log.foldl (fun queue change => Queue.apply change queue) queue).findRun run =
      some row) : row.state = .cancelled ∨ queue.findRun run = some row := by
  induction log generalizing queue with
  | nil => exact Or.inr found
  | cons change rest inductionHypothesis =>
      obtain ⟨isCancel, others⟩ := List.forall_mem_cons.mp cancels
      rcases inductionHypothesis others found with cancelled | earlier
      · exact Or.inl cancelled
      · cases change with
        | putTask task => exact Or.inr earlier
        | putRun written =>
            have isCancelled : written.state = .cancelled := isCancel
            rw [Queue.findRun_apply fun _ impossible => by cases impossible] at earlier
            obtain ⟨old, seen, isRow⟩ := Option.map_eq_some_iff.mp earlier
            split at isRow
            · exact Or.inl (isRow ▸ isCancelled)
            · exact Or.inr (isRow ▸ seen)
        | _ => cases isCancel

/-- A locked active run is reserved if the transaction has only cancelled tasks
before. -/
theorem LockedSince.reserves {α : Type} {runId : α → Uuid}
    {keeps : α → RunRow → Except SqlError Bool} {pair : α × RunRow}
    (locked : LockedSince space runId keeps tx last pair)
    (cancels : ∀ change ∈ tx.log, change.Cancels) (active : pair.2.state.active = true) :
    last.Reserves pair.2.taskId pair.2.id := by
  obtain ⟨met, sameLog, _, seen, frozen, _⟩ := locked.met
  rw [← sameLog] at cancels
  refine ⟨locked.locked, pair.2, ?_, rfl, active⟩
  rcases findRun_of_cancels cancels seen with cancelled | found
  · rw [cancelled] at active
    cases active
  · exact frozen.trans found

theorem active_of_expiredAt {nowAt : Timestamp} {row : RunRow}
    (expired : expiredAt nowAt row = true) : row.state.active = true := by
  rw [beq_iff_eq.mp (Bool.and_eq_true_iff.mp expired).1]
  rfl

theorem staysClosed_reapEach {runs : List Uuid} (steady : Steady space tx)
    (reserves : ∀ run ∈ runs, ∃ task, tx.Reserves task run) :
    StaysClosed space (reapEach runs) tx := by
  induction runs generalizing tx with
  | nil => exact Program.respects_done _
  | cons run rest inductionHypothesis =>
      obtain ⟨⟨task, first⟩, others⟩ := List.forall_mem_cons.mp reserves
      have reaps := first.reapExpiredRun steady
      refine reaps.bind fun _ past between conduct => ?_
      refine (inductionHypothesis (steady.amid reaps.keepsOrder conduct)
        fun run member => ?_).bind fun _ _ _ _ => Program.respects_done _
      obtain ⟨task, reserved⟩ := others run member
      exact ⟨task, reserved.amid conduct⟩

/-- The statement of the reaper. -/
abbrev reapVisible (nowAt : Timestamp) (limit : Nat) (visible : Queue) : Sql Nat := do
  let candidates := (visible.runs.filter (expiredAt nowAt)).insertionSort expiryOrder
  let expired ← lockRuns .skipLocked RunRow.id (fun _ run => .ok (expiredAt nowAt run))
    candidates limit
  reapEach (expired.map fun pair => pair.2.id)

theorem staysClosed_reapVisible {nowAt : Timestamp} {limit : Nat} (composed : Composed space tx)
    (cancels : ∀ change ∈ tx.log, change.Cancels) :
    StaysClosed space (reapVisible nowAt limit tx.queue) tx := by
  have locks : StaysClosed space (lockRuns .skipLocked RunRow.id
      (fun _ run => .ok (expiredAt nowAt run))
      ((tx.queue.runs.filter (expiredAt nowAt)).insertionSort expiryOrder) limit) tx := by
    refine staysClosed_lockRuns fun candidate member => ?_
    obtain ⟨seen, expired⟩ := List.mem_filter.mp ((List.mem_insertionSort _).mp member)
    exact composed.closed.lockable composed.steady seen (active_of_expiredAt expired)
  refine locks.bind fun expired past between conduct => ?_
  refine staysClosed_reapEach (composed.amid locks conduct).steady fun run member => ?_
  obtain ⟨pair, inExpired, isRun⟩ := List.mem_map.mp member
  have locked := (lockRuns_selected conduct pair inExpired).2
  have active := active_of_expiredAt (Except.ok.inj locked.kept)
  exact ⟨_, isRun ▸ locked.reserves cancels active⟩

theorem staysClosed_reapExpiredRuns (composed : Composed space tx)
    (cancels : ∀ change ∈ tx.log, change.Cancels) (limit : Option Int) :
    StaysClosed space (reapExpiredRuns limit) tx := by
  refine staysClosed_currentTime_bind fun nowAt store moves => ?_
  cases limit with
  | none => exact Program.respects_raise _
  | some limit =>
      dsimp only
      split
      · exact Program.respects_raise _
      · refine staysClosed_snapshot_bind fun later movesLater => ?_
        have composedNow := ((composed.moved moves).observe nowAt).moved movesLater
        exact staysClosed_reapVisible composedNow cancels

/-! ## The deadline sweep -/

/-- A task that is gone may be locked. -/
theorem guarded_of_absent (steady : Steady space tx) (absent : tx.committed.findTask task = none) :
    Guarded space task tx := by
  intro store moved row inRuns active
  have stillAbsent : store.findTask task = none := moved.2.1 task absent
  obtain ⟨life, rows, _⟩ := (moved.1.1 steady.sound).lives task
  cases life with
  | some life =>
      have found : store.findTask task = some life.task := congrArg Rows.task rows
      rw [stillAbsent] at found
      cases found
  | none =>
      have noRuns : store.runsOf task = [] := congrArg Rows.runs rows
      have inStore : row ∈ store.runsOf task := inRuns
      rw [noRuns] at inStore
      cases inStore

theorem staysClosed_cancelEach {tasks : List Uuid} (steady : Steady space tx)
    (guarded : ∀ task ∈ tasks, Guarded space task tx) :
    StaysClosed space (cancelEach tasks) tx := by
  induction tasks generalizing tx with
  | nil => exact Program.respects_done _
  | cons task rest inductionHypothesis =>
      obtain ⟨first, others⟩ := List.forall_mem_cons.mp guarded
      have cancels := staysClosed_cancelTask ⟨steady, first⟩
      refine cancels.bind fun _ past between conduct => ?_
      exact (inductionHypothesis (steady.amid cancels.keepsOrder conduct)
        fun task member => (others task member).amid conduct).bind fun _ _ _ _ =>
          Program.respects_done _

/-- A selected candidate of the sweep may be cancelled: its active run is
reserved, or the task is gone. -/
theorem LockedSince.guarded {nowAt : Timestamp} {pair : (TaskRow × RunRow) × RunRow}
    (locked : LockedSince space (fun pair => pair.2.id)
      (fun pair run => deadlineCandidate nowAt pair.1 run) tx last pair)
    (sound : tx.committed.Sound space) (unwritten : tx.log = []) (steady : Steady space last)
    (joined : pair.1 ∈ lastRunJoin tx.committed) : Guarded space pair.1.1.id last := by
  obtain ⟨met, sameLog, moved, seen, frozen, later⟩ := locked.met
  obtain ⟨life, isTask, valid, rows⟩ := sound.life (mem_lastRunJoin joined)
  have pointed := mem_lastRunJoin_run joined
  have found : tx.committed.findRun pair.1.2.id = some pair.1.2 := by
    rw [Queue.findRun_id pointed]
    exact pointed
  have owner : pair.1.2.taskId = pair.1.1.id := by
    have isLast := sound.keyed.findRun_of_mem (by rw [rows]; exact life.last_mem_runs)
    rw [← valid.pointed, isTask, pointed] at isLast
    rw [Option.some.inj isLast, valid.owned _ life.last_mem_runs, isTask]
  rw [Tx.queue_of_unwritten (sameLog.trans unwritten), locked.sameId] at seen
  rcases moved.2.2 _ _ found with ⟨row, stays, sameTask⟩ | gone
  · have isRow : pair.2 = row := Option.some.inj (seen.symm.trans stays)
    have reserves := locked.reserves (by simp [unwritten]) (deadlineCandidate_ok locked.kept).1
    rw [isRow, sameTask, owner] at reserves
    exact reserves.guarded steady
  · rw [owner] at gone
    exact guarded_of_absent steady (later.2.1 _ gone)

theorem staysClosed_sweepVisible {nowAt : Timestamp} {limit : Int} (composed : Composed space tx)
    (unwritten : tx.log = []) :
    StaysClosed space (sweepVisible nowAt limit tx.committed) tx := by
  refine staysClosed_ofExcept_bind fun candidates filtered => ?_
  have joined : ∀ pair ∈ candidates.insertionSort fun left right => left.1.id ≤ right.1.id,
      pair ∈ lastRunJoin tx.committed ∧ deadlineCandidate nowAt pair.1 pair.2 = .ok true := by
    intro pair member
    have inCandidates := (List.mem_insertionSort _).mp member
    exact ⟨(filterExcept_ok filtered).1.subset inCandidates,
      (filterExcept_ok filtered).2 pair inCandidates⟩
  have locks : StaysClosed space (reserveRuns nowAt
      (candidates.insertionSort fun left right => left.1.id ≤ right.1.id) limit.toNat) tx := by
    refine staysClosed_lockRuns fun pair member => ?_
    obtain ⟨isJoined, candidate⟩ := joined pair member
    refine composed.closed.lockable composed.steady ?_ (deadlineCandidate_ok candidate).1
    rw [Tx.queue_of_unwritten unwritten]
    exact mem_of_find (mem_lastRunJoin_run isJoined)
  refine locks.bind fun due past between conduct => ?_
  have steady := (composed.amid locks conduct).steady
  refine staysClosed_cancelEach steady fun task member => ?_
  obtain ⟨pair, inDue, isTask⟩ := List.mem_map.mp member
  obtain ⟨inCandidates, locked⟩ := lockRuns_selected conduct pair inDue
  exact isTask ▸ locked.guarded composed.steady.sound unwritten steady (joined _ inCandidates).1

theorem staysClosed_cancelExpiredTasks (composed : Composed space tx) (unwritten : tx.log = [])
    (limit : Option Int) : StaysClosed space (cancelExpiredTasks limit) tx := by
  refine staysClosed_currentTime_bind fun nowAt store moves => ?_
  cases limit with
  | none => exact Program.respects_raise _
  | some limit =>
      dsimp only
      split
      · exact Program.respects_raise _
      · refine staysClosed_snapshot_bind fun later movesLater => ?_
        have composedNow := ((composed.moved moves).observe nowAt).moved movesLater
        rw [@Tx.queue_of_unwritten (((tx.withCommitted store).observe nowAt).withCommitted later)
          unwritten]
        exact staysClosed_sweepVisible composedNow unwritten

/-- The changes of a deadline sweep. -/
theorem issues_cancelExpiredTasks (limit : Option Int) :
    (cancelExpiredTasks limit).Issues fun command =>
      ∀ change, command = .write change → change.Cancels := by
  refine Program.issues_bind (Program.issues_issue fun _ impossible => by cases impossible)
    fun nowAt => ?_
  cases limit with
  | none => exact Program.issues_raise _
  | some limit =>
      dsimp only
      split
      · exact Program.issues_raise _
      · refine Program.issues_bind (Program.issues_issue fun _ impossible => by cases impossible)
          fun visible => ?_
        refine Program.issues_bind (Program.issues_ofExcept _) fun candidates => ?_
        refine Program.issues_bind (issues_lockRuns
          (fun _ _ _ impossible => by cases impossible) _) fun due => ?_
        refine (issues_cancelEach (List.Subset.refl _)).mono
          fun command isCancel change isWrite => ?_
        rw [isWrite] at isCancel
        exact isCancel

/-! ## Claims -/

/-- The program keeps the lock order once some runs are locked. -/
theorem keepsOrder_while {α : Type} {program : Sql α} {held : List RowKey}
    (issues : program.Issues fun command => ∀ tx : Tx, held ⊆ tx.held → tx.Orderly command)
    (subset : held ⊆ tx.held) : KeepsOrder space program tx :=
  Program.respects_while (fun tx => held ⊆ tx.held) issues (fun _ _ now _ => now)
    (fun _ now answered => List.Subset.trans now answered.held.subset)
    (fun tx _ now orderly => orderly tx now) subset

theorem issues_claimRuns {held : List RowKey} {workerId : String} {nowAt expiresAt : Timestamp}
    {runs : List RunRow} (locked : ∀ run ∈ runs, .run run.id ∈ held) :
    (claimRuns workerId nowAt expiresAt runs).Issues fun command =>
      ∀ tx : Tx, held ⊆ tx.held → tx.Orderly command := by
  induction runs with
  | nil => exact Program.issues_pure _
  | cons run rest inductionHypothesis =>
      obtain ⟨isLocked, others⟩ := List.forall_mem_cons.mp locked
      refine Program.issues_bind (issues_updateRun (fun _ => rfl)
        (fun tx subset => Or.inl (subset isLocked)) fun row isRow tx subset => ?_)
        fun _ => inductionHypothesis others
      rw [Tx.Orderly, isRow]
      exact subset isLocked

theorem issues_claimTaskRows {held : List RowKey} {nowAt : Timestamp} {runs : List RunRow} :
    (claimTaskRows nowAt runs).Issues fun command =>
      ∀ tx : Tx, held ⊆ tx.held → tx.Orderly command := by
  induction runs with
  | nil => exact Program.issues_pure _
  | cons run rest inductionHypothesis =>
      exact Program.issues_bind (issues_updateTask (fun _ => rfl) (fun _ _ => trivial)
        fun _ _ _ _ => trivial) fun _ => inductionHypothesis

/-- The claim statement after its snapshot. -/
abbrev claimVisible (request : ClaimRequest) (nowAt : Timestamp) (visible : Queue) :
    Sql (List ClaimedTask) := do
  let expiresAt := nowAt + request.leaseSeconds * second
  let candidates ← Program.ofExcept <|
    filterExcept (fun pair => claimCandidate nowAt request.taskNames pair.1 pair.2)
      (taskJoin visible)
  let ordered := candidates.insertionSort fun left right => availabilityOrder left.2 right.2
  let selected ← lockRuns .skipLocked (fun pair => pair.2.id)
    (fun pair run => claimCandidate nowAt request.taskNames pair.1 run) ordered
    request.quantity.toNat
  let claimed := selected.map fun row => row.2
  claimRuns request.workerId nowAt expiresAt claimed
  claimTaskRows nowAt claimed
  let result := selected.insertionSort fun left right => availabilityOrder left.1.2 right.1.2
  return result.map fun row => claimedTask row.1.1 row.2

theorem claimStatement_eq (request : ClaimRequest) (nowAt : Timestamp) :
    claimStatement request nowAt = snapshot >>= claimVisible request nowAt := rfl

theorem active_of_claimable {state : State} (claimable : state.claimable = true) :
    state.active = true := by
  cases state <;> first | rfl | cases claimable

theorem keepsOrder_claimVisible (composed : Composed space tx) (request : ClaimRequest)
    (nowAt : Timestamp) : KeepsOrder space (claimVisible request nowAt tx.queue) tx := by
  cases filtered : filterExcept (fun pair => claimCandidate nowAt request.taskNames pair.1 pair.2)
      (taskJoin tx.queue) with
  | error error =>
      simp only [claimVisible, filtered]
      exact Program.respects_raise _
  | ok candidates =>
      simp only [claimVisible, filtered]
      have lockable : ∀ pair ∈ candidates.insertionSort
          fun left right => availabilityOrder left.2 right.2, tx.Lockable pair.2.id := by
        intro pair member
        have inCandidates := (List.mem_insertionSort _).mp member
        obtain ⟨run, seen, joined⟩ :=
          List.mem_filterMap.mp ((filterExcept_ok filtered).1.subset inCandidates)
        obtain ⟨task, _, isPair⟩ := Option.map_eq_some_iff.mp joined
        have isRun : pair.2 = run := congrArg Prod.snd isPair.symm
        refine composed.closed.lockable composed.steady (isRun ▸ seen) (active_of_claimable ?_)
        exact (claimCandidate_ok ((filterExcept_ok filtered).2 pair inCandidates)).1
      refine (staysClosed_lockRuns lockable).keepsOrder.bind fun selected past between conduct => ?_
      have locked : ∀ run ∈ selected.map fun row => row.2, .run run.id ∈ between.held := by
        intro run member
        obtain ⟨pair, inSelected, isRun⟩ := List.mem_map.mp member
        exact isRun ▸ (lockRuns_selected conduct pair inSelected).2.locked
      refine keepsOrder_while ?_ (List.Subset.refl between.held)
      refine Program.issues_bind (issues_claimRuns locked) fun _ => ?_
      exact Program.issues_bind issues_claimTaskRows fun _ => Program.issues_pure _

theorem keepsOrder_claimTasks (composed : Composed space tx) (unwritten : tx.log = [])
    (workerId : Option String) (leaseSeconds quantity : Option Int)
    (taskNames : Option (List (Option String))) :
    KeepsOrder space (claimTasks space workerId leaseSeconds quantity taskNames) tx := by
  have reads : ∀ {tx : Tx}, StaysClosed space currentTime tx :=
    Program.respects_issue fun _ _ => trivial
  refine reads.keepsOrder.bind fun _ past started conduct => ?_
  have composedStart := composed.amid reads conduct
  have unwrittenStart : started.log = [] := (conduct.log ⟨id, fun _ => trivial⟩).trans unwritten
  have checks : StaysClosed space (Program.ofExcept
      (validateClaim space workerId leaseSeconds quantity taskNames)) started :=
    Program.respects_ofExcept _
  refine checks.keepsOrder.bind fun request past checked conduct => ?_
  have composedChecked := composedStart.amid checks conduct
  have unwrittenChecked : checked.log = [] :=
    (conduct.log (Program.issues_ofExcept _)).trans unwrittenStart
  have sweeps := staysClosed_cancelExpiredTasks composedChecked unwrittenChecked
    (some request.quantity)
  refine sweeps.keepsOrder.bind fun _ past swept conduct => ?_
  have composedSwept := composedChecked.amid sweeps conduct
  have cancels : ∀ change ∈ swept.log, change.Cancels :=
    conduct.logged (issues_cancelExpiredTasks _) (by simp [unwrittenChecked])
  have reaps := staysClosed_reapExpiredRuns composedSwept cancels (some request.quantity)
  refine reaps.keepsOrder.bind fun _ past reaped conduct => ?_
  have composedReaped := composedSwept.amid reaps conduct
  refine reads.keepsOrder.bind fun nowAt past timed conduct => ?_
  have composedTimed := composedReaped.amid reads conduct
  rw [claimStatement_eq]
  refine Program.respects_perform (fun _ _ => trivial) fun store answer after moves answered => ?_
  cases answered
  exact keepsOrder_claimVisible (composedTimed.moved moves) request nowAt

end Steda
