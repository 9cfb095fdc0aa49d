import Steda.Laws.Expiry
import Steda.Laws.Failing
import Steda.Laws.PolicyUse

/-!
# Exact sweeps

A maintenance sweep handles exactly the first pending tasks, as far as its
limit reaches, and repeating it handles all of them.  One task that it cannot
handle makes the whole sweep raise.
-/

namespace Steda

open Postgres Transaction Relational

variable {space : Char → Bool} {life : Life} {world after : World} {time : Timestamp}

/-! ## Sweeps -/

/-- A sweep: its call with a limit and a count, the tasks it looks for in order,
and what it does to one of them. -/
structure Sweep where
  call : Int → Nat → Call
  pending : Queue → List Uuid
  handles : Queue → Life → Transition → Prop

/-- The sweep of due deadlines at a time. -/
def deadlineSweep (time : Timestamp) : Sweep where
  call limit count := ⟨.cancelExpiredTasks (some limit), .ok count⟩
  pending queue := (queue.dueTasks time).map TaskRow.id
  handles _ _ transition := transition = .cancel time

/-- The sweep of expired leases at a time.  The name of a new run is not in use. -/
def leaseSweep (time : Timestamp) : Sweep where
  call limit count := ⟨.reapExpiredRuns (some limit), .ok count⟩
  pending queue := (queue.expiredRuns time).map RunRow.taskId
  handles queue life transition := ∃ newRun, queue.findRun newRun = none ∧
    life.reaped time newRun = .ok transition

namespace Sweep

/-- The sweep handles exactly the first pending tasks, returns their number and
leaves the other pending ones. -/
def Exact (space : Char → Bool) (sweep : Sweep) (limit : Int) (world : World) : Prop :=
  ∃ after, Served space world
      (sweep.call limit (min limit.toNat (sweep.pending world.store).length)) after ∧
    (∀ life, world.store.Shows space life →
      life.task.id ∈ (sweep.pending world.store).take limit.toNat →
        ∃ transition, sweep.handles world.store life transition ∧
          after.store.rowsOf life.task.id = Life.rows (some (transition.after life))) ∧
    (∀ task, task ∉ (sweep.pending world.store).take limit.toNat →
      after.store.rowsOf task = world.store.rowsOf task) ∧
    after.store.checkpoints = world.store.checkpoints ∧
    (sweep.pending after.store).Perm ((sweep.pending world.store).drop limit.toNat)

/-- The sweep returns its limit for some rounds and then less, and after that
nothing is pending. -/
def Clears (space : Char → Bool) (sweep : Sweep) (limit : Int) (world : World) : Prop :=
  ∃ rounds count after, Trace (Served space) world
      (List.replicate rounds (sweep.call limit limit.toNat) ++ [sweep.call limit count]) after ∧
    count < limit.toNat ∧ sweep.pending after.store = []

/-- The pending tasks are those with a pending life, each once. -/
structure Lists (space : Char → Bool) (sweep : Sweep) (isPending : Life → Prop) : Prop where
  mem : ∀ {queue : Queue} {task : Uuid}, queue.Sound space →
    (task ∈ sweep.pending queue ↔
      ∃ life, queue.Shows space life ∧ life.task.id = task ∧ isPending life)
  nodup : ∀ {queue : Queue}, queue.Sound space → (sweep.pending queue).Nodup

variable {sweep : Sweep} {isPending : Life → Prop} {before later : Queue} {moves : Moves}
  {limit : Nat}

/-- When the first pending tasks are moved out of their pending lives, the
others stay pending. -/
theorem Lists.perm_drop (lists : sweep.Lists space isPending)
    (moved : before.Moved space moves later) (sound : before.Sound space)
    (soundLater : later.Sound space)
    (chosen : ∀ life, before.Shows space life → life.task.id ∈ (sweep.pending before).take limit →
      ∃ transition, moves life.task.id = some transition ∧ ¬isPending (transition.after life))
    (others : ∀ life, before.Shows space life → life.task.id ∉ (sweep.pending before).take limit →
      moves life.task.id = none) :
    (sweep.pending later).Perm ((sweep.pending before).drop limit) := by
  have distinct := lists.nodup sound
  have apart := List.disjoint_take_drop distinct (le_refl limit)
  refine (List.perm_ext_iff_of_nodup (lists.nodup soundLater)
    (distinct.sublist (List.drop_sublist _ _))).mpr fun task => ?_
  constructor
  · intro member
    obtain ⟨now, shows_, isTask, pendingNow⟩ := (lists.mem soundLater).mp member
    subst isTask
    obtain ⟨old, showsOld, isNow⟩ := moved.back sound shows_
    have sameId : old.task.id = now.task.id := by rw [isNow, Life.moved_id]
    by_cases first : old.task.id ∈ (sweep.pending before).take limit
    · obtain ⟨transition, isChosen, settled⟩ := chosen old showsOld first
      rw [isNow, Life.moved_of_some isChosen] at pendingNow
      exact absurd pendingNow settled
    · rw [Life.moved_of_none (others old showsOld first)] at isNow
      subst isNow
      have wasPending := (lists.mem sound).mpr ⟨now, showsOld, rfl, pendingNow⟩
      rw [← List.take_append_drop limit (sweep.pending before)] at wasPending
      exact (List.mem_append.mp wasPending).resolve_left first
  · intro member
    obtain ⟨old, showsOld, isTask, pendingOld⟩ := (lists.mem sound).mp (List.mem_of_mem_drop member)
    subst isTask
    have notFirst : old.task.id ∉ (sweep.pending before).take limit := fun first =>
      apart first member
    exact (lists.mem soundLater).mpr
      ⟨old, moved.shows_of_none soundLater showsOld (others old showsOld notFirst), rfl, pendingOld⟩

/-- A call that moves exactly the first pending tasks handles them exactly. -/
theorem Lists.exact (lists : sweep.Lists space isPending) (sound : world.store.Sound space)
    {limit : Int} (served : Served space world
      (sweep.call limit (min limit.toNat (sweep.pending world.store).length)) after)
    (soundAfter : after.store.Sound space) (moved : world.store.Moved space moves after.store)
    (chosen : ∀ life, world.store.Shows space life →
      life.task.id ∈ (sweep.pending world.store).take limit.toNat →
        ∃ transition, moves life.task.id = some transition ∧
          sweep.handles world.store life transition ∧ ¬isPending (transition.after life))
    (others : ∀ life, world.store.Shows space life →
      life.task.id ∉ (sweep.pending world.store).take limit.toNat → moves life.task.id = none) :
    sweep.Exact space limit world := by
  refine ⟨after, served, ?_, ?_, moved.checkpoints, ?_⟩
  · intro life shows_ first
    obtain ⟨transition, isChosen, handled, _⟩ := chosen life shows_ first
    refine ⟨transition, handled, ?_⟩
    rw [moved.rows life shows_, Life.moved_of_some isChosen]
  · intro task notFirst
    cases found : world.store.findTask task with
    | none => exact moved.absent task found
    | some row =>
        obtain ⟨life, _, isTask, shows_⟩ := sound.shows_of_findTask found
        subst isTask
        rw [moved.rows life shows_, Life.moved_of_none (others life shows_ notFirst), shows_.rows]
  · refine lists.perm_drop moved sound soundAfter ?_ others
    intro life shows_ first
    obtain ⟨transition, isChosen, _, settled⟩ := chosen life shows_ first
    exact ⟨transition, isChosen, settled⟩

end Sweep

/-! ## The deadline sweep -/

theorem deadlineSweep_lists (time : Timestamp) :
    (deadlineSweep time).Lists space fun life => life.Due time where
  mem := by
    intro queue task sound
    constructor
    · intro member
      obtain ⟨row, inDue, isTask⟩ := List.mem_map.mp member
      obtain ⟨inTasks, isOpen, isDue⟩ := mem_dueTasks.mp inDue
      obtain ⟨life, isRow, _, shows_⟩ :=
        sound.shows_of_findTask (sound.keyed.findTask_of_mem inTasks)
      subst isRow
      exact ⟨life, shows_, isTask, isOpen, isDue⟩
    · rintro ⟨life, shows_, isTask, isOpen, isDue⟩
      subst isTask
      exact List.mem_map_of_mem (mem_dueTasks.mpr ⟨mem_of_find shows_.findTask, isOpen, isDue⟩)
  nodup := by
    intro queue sound
    refine ((List.perm_insertionSort _ _).map _).nodup_iff.mpr ?_
    exact sound.keyed.tasks.sublist (List.filter_sublist.map _)

/-- The deadline sweep is exact when every open deadline evaluates, and raises
otherwise. -/
theorem deadlineSweep_cases (ready : world.Ready space) (frozen : world.Frozen time) {limit : Int}
    (positive : 0 < limit) :
    (world.store.Evaluates space time ∧ (deadlineSweep time).Exact space limit world) ∨
      (¬world.store.Evaluates space time ∧ ∀ count after,
        ¬Served space world ((deadlineSweep time).call limit count) after) := by
  have isTime := frozen 0
  rcases alone_cancelExpiredTasks ready positive with
    ⟨life, error, shows_, isOpen, failed, raised⟩ | ⟨evaluates, moves, after, swept, sweeps, cancels⟩
  · refine .inr ⟨fun evaluates => ?_, fun count after served => ?_⟩
    · obtain ⟨isDue, evaluated⟩ := evaluates life shows_ isOpen
      rw [isTime, evaluated] at failed
      cases failed
    · have answered := (Operation.answer_eq (.cancelExpiredTasks (some limit)) ready.sound).trans
        raised
      have returned : (Operation.cancelExpiredTasks (some limit)).answer space world = .ok count :=
        congrArg Prod.fst served
      rw [answered] at returned
      cases returned
  · rw [isTime] at evaluates swept cancels
    refine .inl ⟨evaluates, ?_⟩
    have sameTake : ((world.store.dueTasks time).take limit.toNat).map TaskRow.id =
        ((deadlineSweep time).pending world.store).take limit.toNat := List.map_take
    rw [sameTake] at cancels
    have count : ((world.store.dueTasks time).take limit.toNat).length =
        min limit.toNat ((deadlineSweep time).pending world.store).length := by
      rw [List.length_take]
      exact congrArg _ (List.length_map _).symm
    rw [count] at swept
    refine (deadlineSweep_lists time).exact ready.sound
      (Operation.perform_returned ready.sound swept) sweeps.ready.sound sweeps.moved ?_ ?_
    · intro life shows_ first
      obtain ⟨position, chosen⟩ := cancels.chosen _ first
      rw [Session.tick_clock, frozen] at chosen
      refine ⟨_, chosen, rfl, ?_⟩
      rintro ⟨isOpen, _⟩
      cases isOpen
    · intro life _ notFirst
      exact cancels.others _ notFirst

/-! ## The lease sweep -/

theorem leaseSweep_lists (time : Timestamp) :
    (leaseSweep time).Lists space fun life => expiredAt time life.last = true where
  mem := by
    intro queue task sound
    constructor
    · intro member
      obtain ⟨run, inExpired, isTask⟩ := List.mem_map.mp member
      obtain ⟨inRuns, expired⟩ := Queue.mem_expiredRuns.mp inExpired
      obtain ⟨life, shows_, isRun⟩ := sound.shows_of_running inRuns (running_of_expiredAt expired)
      subst isRun
      exact ⟨life, shows_, (shows_.valid.owned _ life.last_mem_runs).symm.trans isTask, expired⟩
    · rintro ⟨life, shows_, isTask, expired⟩
      have inRuns := mem_of_find (shows_.findRun life.last_mem_runs)
      rw [← isTask, ← shows_.valid.owned _ life.last_mem_runs]
      exact List.mem_map_of_mem (Queue.mem_expiredRuns.mpr ⟨inRuns, expired⟩)
  nodup := by
    intro queue sound
    refine List.Nodup.map_on ?_ (sound.keyed.expiredRuns_nodup time)
    intro first inFirst second inSecond same
    obtain ⟨firstRuns, firstExpired⟩ := Queue.mem_expiredRuns.mp inFirst
    obtain ⟨secondRuns, secondExpired⟩ := Queue.mem_expiredRuns.mp inSecond
    obtain ⟨life, shows_, isFirst⟩ :=
      sound.shows_of_running firstRuns (running_of_expiredAt firstExpired)
    obtain ⟨other, showsOther, isSecond⟩ :=
      sound.shows_of_running secondRuns (running_of_expiredAt secondExpired)
    rw [← isFirst, ← isSecond, shows_.valid.owned _ life.last_mem_runs,
      showsOther.valid.owned _ other.last_mem_runs] at same
    rw [← isFirst, ← isSecond, shows_.unique showsOther same]

/-- A reaped run is not running any more. -/
theorem Life.reaped_settles {newRun : Uuid} {transition : Transition}
    (reaps : life.reaped time newRun = .ok transition) :
    expiredAt time (transition.after life).last = false := by
  unfold reaped failure at reaps
  split at reaps
  · cases reaps
  · cases reaps
    rfl
  · rcases failureInTime_cases reaps with ⟨rfl, _⟩ | rfl | ⟨availableAt, rfl, _⟩
    · rfl
    · rfl
    · unfold expiredAt Transition.after RunRow.fresh
      dsimp only
      split <;> rfl

/-- Among expired runs, a run is known by its task. -/
theorem Queue.Shows.taskId_mem (shows_ : world.store.Shows space life)
    (sound : world.store.Sound space) {runs : List RunRow}
    (expired : ∀ run ∈ runs, run ∈ world.store.expiredRuns time) :
    life.task.id ∈ runs.map RunRow.taskId ↔ life.last ∈ runs := by
  constructor
  · intro member
    obtain ⟨run, inRuns, isTask⟩ := List.mem_map.mp member
    obtain ⟨inStore, isExpired⟩ := Queue.mem_expiredRuns.mp (expired run inRuns)
    obtain ⟨other, showsOther, isRun⟩ := sound.shows_of_running inStore (running_of_expiredAt isExpired)
    subst isRun
    rw [showsOther.valid.owned _ other.last_mem_runs] at isTask
    rw [shows_.unique showsOther isTask.symm]
    exact inRuns
  · intro member
    rw [← shows_.valid.owned _ life.last_mem_runs]
    exact List.mem_map_of_mem member

/-- The lease sweep is exact when the first expired attempts can be failed, and
raises otherwise. -/
theorem leaseSweep_cases (ready : world.Ready space) (frozen : world.Frozen time) {limit : Int}
    (positive : 0 < limit) :
    ((∀ life, world.store.Shows space life →
        life.task.id ∈ ((leaseSweep time).pending world.store).take limit.toNat →
          life.Failable time) ∧ (leaseSweep time).Exact space limit world) ∨
      ((∃ life, world.store.Shows space life ∧
        life.task.id ∈ ((leaseSweep time).pending world.store).take limit.toNat ∧
          ¬life.Failable time) ∧
        ∀ count after, ¬Served space world ((leaseSweep time).call limit count) after) := by
  have isTime := frozen 0
  have stands : World.Frozen (Session.tick world) time := frozen.later (World.Later.tick world)
  have inTake : ∀ life, world.store.Shows space life →
      (life.task.id ∈ ((leaseSweep time).pending world.store).take limit.toNat ↔
        life.last ∈ (world.store.expiredRuns time).take limit.toNat) := by
    intro life shows_
    have sameTake : ((world.store.expiredRuns time).take limit.toNat).map RunRow.taskId =
        ((leaseSweep time).pending world.store).take limit.toNat := List.map_take
    rw [← sameTake]
    exact shows_.taskId_mem ready.sound fun run member => List.mem_of_mem_take member
  rcases alone_reapExpiredRuns ready frozen.steady positive with
    ⟨life, error, shows_, member, fails, raised⟩ | ⟨moves, after, swept, sweeps, reaps⟩
  · refine .inr ⟨⟨life, shows_, ?_, ?_⟩, fun count after served => ?_⟩
    · rw [isTime] at member
      exact (inTake life shows_).mpr member
    · intro failable
      obtain ⟨position, isFailure⟩ := fails.reaped stands
      obtain ⟨transition, isReaped⟩ := (Life.failure_ok_iff shows_.valid).mpr failable
      exact absurd (isFailure.symm.trans isReaped) (by simp)
    · have answered := (Operation.answer_eq (.reapExpiredRuns (some limit)) ready.sound).trans raised
      have returned : (Operation.reapExpiredRuns (some limit)).answer space world = .ok count :=
        congrArg Prod.fst served
      rw [answered] at returned
      cases returned
  · rw [isTime] at swept reaps
    have chosen : ∀ life, world.store.Shows space life →
        life.task.id ∈ ((leaseSweep time).pending world.store).take limit.toNat →
          ∃ transition position, moves life.task.id = some transition ∧
            life.reaped time (world.idents position) = .ok transition := by
      intro life shows_ first
      obtain ⟨transition, isChosen, reapsLife⟩ := reaps.chosen life shows_
        (List.mem_map_of_mem ((inTake life shows_).mp first))
      obtain ⟨position, isReaped⟩ := reapsLife.reaped stands
      exact ⟨transition, position, isChosen, isReaped⟩
    have count : ((world.store.expiredRuns time).take limit.toNat).length =
        min limit.toNat ((leaseSweep time).pending world.store).length := by
      rw [List.length_take]
      exact congrArg _ (List.length_map _).symm
    rw [count] at swept
    refine .inl ⟨?_, (leaseSweep_lists time).exact ready.sound
      (Operation.perform_returned ready.sound swept) sweeps.ready.sound sweeps.moved ?_ ?_⟩
    · intro life shows_ first
      obtain ⟨transition, position, _, isReaped⟩ := chosen life shows_ first
      exact (Life.failure_ok_iff shows_.valid).mp ⟨transition, isReaped⟩
    · intro life shows_ first
      obtain ⟨transition, position, isChosen, isReaped⟩ := chosen life shows_ first
      refine ⟨transition, isChosen, ⟨_, ready.unused position, isReaped⟩, ?_⟩
      rw [Life.reaped_settles isReaped]
      decide
    · intro life shows_ notFirst
      refine reaps.others life shows_ fun member => notFirst ((inTake life shows_).mpr ?_)
      obtain ⟨run, inRuns, sameId⟩ := List.mem_map.mp member
      obtain ⟨inStore, _⟩ := Queue.mem_expiredRuns.mp (List.mem_of_mem_take inRuns)
      rw [shows_.eq_run life.last_mem_runs inStore sameId]
      exact inRuns

/-! ## Repeating a sweep -/

/-- A call keeps the identifiers still to come unused. -/
theorem Served.ready {before after : World} {call : Call}
    (served : Served space before call after) (ready : before.Ready space) :
    after.Ready space ∧ before.Later after := by
  obtain ⟨readings, drawn, events, _, advances⟩ := served.advances ready.sound
  refine ⟨⟨advances.sound, ?_, ?_⟩, ⟨_, advances.clock⟩, ⟨_, advances.idents⟩⟩
  · intro first second same
    rw [advances.idents, advances.idents] at same
    have positions := ready.distinct same
    omega
  · intro position
    rw [advances.idents]
    refine find_eq_none.mpr fun run member sameId => ?_
    obtain ⟨life, _, rows, inRuns⟩ := advances.sound.life_of_run member
    obtain ⟨first, last, firstRows, lastRows, evolves⟩ := advances.evolves run.taskId
    have isLast : last = some life := Life.rows_injective (lastRows.symm.trans rows)
    subst isLast
    rcases evolves.runs_introduced run inRuns with ⟨old, isOld, row, inOld, isRow⟩ | named
    · have inRows : row ∈ (before.store.rowsOf run.taskId).runs := by
        rw [firstRows, isOld]
        exact inOld
      have found := ready.sound.keyed.findRun_of_mem inRows
      rw [isRow, sameId, ready.unused] at found
      cases found
    · have isDrawn := advances.fresh.subset named
      rw [advances.named, sameId] at isDrawn
      obtain ⟨earlier, inRange, same⟩ := List.mem_map.mp isDrawn
      have equal := ready.distinct same
      have bound := List.mem_range.mp inRange
      omega

namespace Sweep

variable {sweep : Sweep} {isPending : Life → Prop} {limit : Int}

/-- A sweep that is exact while a property holds of all relevant lives, and
leaves no relevant life where it was, clears everything that is pending. -/
theorem clears_of_exact {relevant fine : Life → Prop} (lists : sweep.Lists space isPending)
    (positive : 0 < limit)
    (settles : ∀ queue life transition, sweep.handles queue life transition →
      ¬relevant (transition.after life))
    (exact_ : ∀ world, World.Ready space world → world.Frozen time →
      (∀ life, world.store.Shows space life → relevant life → fine life) →
        sweep.Exact space limit world)
    (ready : world.Ready space) (frozen : world.Frozen time)
    (allFine : ∀ life, world.store.Shows space life → relevant life → fine life) :
    sweep.Clears space limit world := by
  obtain ⟨size, isSize⟩ : ∃ size, (sweep.pending world.store).length = size := ⟨_, rfl⟩
  induction size using Nat.strong_induction_on generalizing world with
  | _ size inductionHypothesis =>
      obtain ⟨after, served, handled, others, _, left⟩ := exact_ world ready frozen allFine
      have someLimit : 0 < limit.toNat := by omega
      obtain ⟨readyAfter, later⟩ := served.ready ready
      have remaining := left.length_eq
      rw [List.length_drop, isSize] at remaining
      rcases lt_or_ge size limit.toNat with few | many
      · rw [isSize, Nat.min_eq_right few.le] at served
        refine ⟨0, size, after, .cons served (.nil after), few, ?_⟩
        exact List.eq_nil_of_length_eq_zero (by omega)
      · rw [isSize, Nat.min_eq_left many] at served
        have fineAfter : ∀ life, after.store.Shows space life → relevant life → fine life := by
          intro life shows_ isRelevant
          by_cases first : life.task.id ∈ (sweep.pending world.store).take limit.toNat
          · obtain ⟨old, showsOld, sameTask, _⟩ :=
              (lists.mem ready.sound).mp (List.mem_of_mem_take first)
            rw [← sameTask] at first
            obtain ⟨transition, isHandled, rows⟩ := handled old showsOld first
            rw [sameTask, shows_.rows] at rows
            rw [Option.some.inj (Life.rows_injective rows)] at isRelevant
            exact absurd isRelevant (settles _ _ _ isHandled)
          · have showsOld : world.store.Shows space life :=
              ready.sound.shows_of_rows ((others _ first).symm.trans shows_.rows)
            exact allFine life showsOld isRelevant
        obtain ⟨rounds, count, final, trace, fewer, cleared⟩ :=
          inductionHypothesis (size - limit.toNat) (by omega) readyAfter (frozen.later later)
            fineAfter remaining
        exact ⟨rounds + 1, count, final, .cons served trace, fewer, cleared⟩

/-- A sweep that clears everything has returned at least once. -/
theorem Clears.served (clears : sweep.Clears space limit world) :
    ∃ count after, Served space world (sweep.call limit count) after := by
  obtain ⟨rounds, count, after, trace, _⟩ := clears
  cases rounds with
  | zero =>
      cases trace with
      | cons head rest => exact ⟨_, _, head⟩
  | succ rounds =>
      cases trace with
      | cons head rest => exact ⟨_, _, head⟩

end Sweep

/-- The deadline sweep clears a queue exactly when every open deadline
evaluates. -/
theorem deadlineSweep_clears_iff (ready : world.Ready space) (frozen : world.Frozen time)
    {limit : Int} (positive : 0 < limit) :
    (deadlineSweep time).Clears space limit world ↔ world.store.Evaluates space time := by
  constructor
  · intro clears
    obtain ⟨count, after, served⟩ := clears.served
    rcases deadlineSweep_cases ready frozen positive with ⟨evaluates, _⟩ | ⟨_, raises⟩
    · exact evaluates
    · exact absurd served (raises count after)
  · intro evaluates
    let relevant (life : Life) : Prop := life.task.state.terminal = false
    let fine (life : Life) : Prop := ∃ isDue, life.task.due (some time) = .ok isDue
    have allFine : ∀ life, world.store.Shows space life → relevant life → fine life := evaluates
    refine Sweep.clears_of_exact (deadlineSweep_lists time) positive ?_ ?_ ready frozen allFine
    · intro queue life transition isCancel isOpen
      cases isCancel
      cases isOpen
    · intro other readyOther frozenOther evaluatesOther
      rcases deadlineSweep_cases readyOther frozenOther positive with ⟨_, exact_⟩ | ⟨fails, _⟩
      · exact exact_
      · exact absurd evaluatesOther fails

/-- An expired attempt that cannot be failed stays under lease sweeps. -/
theorem leaseSweep_stuck (ready : world.Ready space) (frozen : world.Frozen time) {limit : Int}
    (positive : 0 < limit) (shows_ : world.store.Shows space life)
    (stuck : ¬life.Failable time) {calls : List Call}
    (areSweeps : ∀ call ∈ calls, ∃ count, call = (leaseSweep time).call limit count)
    (trace : Trace (Served space) world calls after) : after.store.Shows space life := by
  induction trace with
  | nil => exact shows_
  | cons head rest inductionHypothesis =>
      obtain ⟨⟨count, isSweep⟩, sweepsRest⟩ := List.forall_mem_cons.mp areSweeps
      subst isSweep
      obtain ⟨readyNext, later⟩ := head.ready ready
      refine inductionHypothesis readyNext (frozen.later later) ?_ sweepsRest
      rcases leaseSweep_cases ready frozen positive with
        ⟨failable, next, served, _, others, _⟩ | ⟨_, raises⟩
      · have sameNext : next = _ := congrArg Prod.snd (served.symm.trans head)
        subst sameNext
        have rows := others life.task.id fun first => stuck (failable life shows_ first)
        exact readyNext.sound.shows_of_rows (rows.trans shows_.rows)
      · exact absurd head (raises count _)

/-- The lease sweep clears a queue exactly when every expired attempt can be
failed. -/
theorem leaseSweep_clears_iff (ready : world.Ready space) (frozen : world.Frozen time)
    {limit : Int} (positive : 0 < limit) :
    (leaseSweep time).Clears space limit world ↔
      ∀ life, world.store.Shows space life → expiredAt time life.last = true →
        life.Failable time := by
  constructor
  · rintro ⟨rounds, count, after, trace, _, cleared⟩ life shows_ expired
    by_contra stuck
    have showsAfter := leaseSweep_stuck ready frozen positive shows_ stuck (by
      intro call member
      rcases List.mem_append.mp member with isEarly | isLast
      · exact ⟨_, List.eq_of_mem_replicate isEarly⟩
      · exact ⟨_, List.mem_singleton.mp isLast⟩) trace
    have pending := ((leaseSweep_lists time).mem (Trace.sound trace ready.sound)).mpr
      ⟨life, showsAfter, rfl, expired⟩
    rw [cleared] at pending
    cases pending
  · intro failable
    let relevant (life : Life) : Prop := expiredAt time life.last = true
    let fine (life : Life) : Prop := life.Failable time
    have allFine : ∀ life, world.store.Shows space life → relevant life → fine life := failable
    refine Sweep.clears_of_exact (leaseSweep_lists time) positive ?_ ?_ ready frozen allFine
    · rintro queue life transition ⟨newRun, _, reaps⟩ stillExpired
      change expiredAt time (transition.after life).last = true at stillExpired
      rw [Life.reaped_settles reaps] at stillExpired
      cases stillExpired
    · intro other readyOther frozenOther failableOther
      rcases leaseSweep_cases readyOther frozenOther positive with
        ⟨_, exact_⟩ | ⟨⟨life, shows_, first, stuck⟩, _⟩
      · exact exact_
      · obtain ⟨pendingLife, showsPending, sameTask, expired⟩ :=
          ((leaseSweep_lists time).mem readyOther.sound).mp (List.mem_of_mem_take first)
        rw [showsPending.unique shows_ sameTask] at expired
        exact absurd (failableOther life shows_ expired) stuck

/-! ## The law -/

/-- In every state a history reaches and at every time, the deadline sweep is
exact, and clears the queue when repeated, if and only if every open deadline
evaluates; the lease sweep is exact if and only if the expired attempts it
reaches can be failed, and clears the queue if and only if all of them can. -/
theorem History.sweeps_exact {initial reached : World} {past : List Call}
    (history : History space initial past reached) (time : Timestamp) {limit : Int}
    (positive : 1 ≤ limit) :
    ((deadlineSweep time).Exact space limit (reached.stopped time) ↔
        reached.store.Evaluates space time) ∧
      ((deadlineSweep time).Clears space limit (reached.stopped time) ↔
        reached.store.Evaluates space time) ∧
      ((leaseSweep time).Exact space limit (reached.stopped time) ↔
        ∀ life, reached.store.Shows space life →
          life.task.id ∈ ((leaseSweep time).pending reached.store).take limit.toNat →
            life.Failable time) ∧
      ((leaseSweep time).Clears space limit (reached.stopped time) ↔
        ∀ life, reached.store.Shows space life → expiredAt time life.last = true →
          life.Failable time) := by
  have ready := history.ready.stopped time
  have frozen := World.frozen_stopped reached time
  refine ⟨⟨?_, ?_⟩, deadlineSweep_clears_iff ready frozen positive, ⟨?_, ?_⟩,
    leaseSweep_clears_iff ready frozen positive⟩
  · rintro ⟨after, served, _⟩
    rcases deadlineSweep_cases ready frozen positive with ⟨evaluates, _⟩ | ⟨_, raises⟩
    · exact evaluates
    · exact absurd served (raises _ after)
  · intro evaluates
    rcases deadlineSweep_cases ready frozen positive with ⟨_, exact_⟩ | ⟨fails, _⟩
    · exact exact_
    · exact absurd evaluates fails
  · rintro ⟨after, served, _⟩
    rcases leaseSweep_cases ready frozen positive with ⟨failable, _⟩ | ⟨_, raises⟩
    · exact failable
    · exact absurd served (raises _ after)
  · intro failable
    rcases leaseSweep_cases ready frozen positive with
      ⟨_, exact_⟩ | ⟨⟨life, shows_, first, stuck⟩, _⟩
    · exact exact_
    · exact absurd (failable life shows_ first) stuck

/-- A claimed task after the end of its lease, and a waiting one after its
deadline. -/
theorem History.sweeps_exact_claimed :
    let served := World.serve asciiSpace [plainSubmission [], plainClaim "worker",
      plainSubmission [("cancellation", .object [("maxDelay", .number ⟨60, 0⟩)])]] (.blank second)
    let world := served.2.stopped (100 * second)
    (deadlineSweep (100 * second)).pending served.2.store = [2] ∧
      (leaseSweep (100 * second)).pending served.2.store = [0] ∧
      (deadlineSweep (100 * second)).Exact asciiSpace 1 world ∧
      (deadlineSweep (100 * second)).Clears asciiSpace 1 world ∧
      (leaseSweep (100 * second)).Exact asciiSpace 1 world ∧
      (leaseSweep (100 * second)).Clears asciiSpace 1 world := by
  intro served world
  have history : History asciiSpace (.blank second) served.1 served.2 :=
    World.history_serve _ second
  have exactly := History.sweeps_exact history (100 * second) (le_refl (1 : Int))
  have due : ∀ life, served.2.store.Shows asciiSpace life →
      life.task.due (some (.point (100 * second))) = .ok false ∨
        life.task.due (some (.point (100 * second))) = .ok true := by
    intro life shows_
    rcases List.mem_pair.mp (show life.task ∈ [_, _] from mem_of_find shows_.findTask) with
      isTask | isTask
    · exact Or.inl (by rw [isTask]; rfl)
    · exact Or.inr (by rw [isTask]; rfl)
  have evaluates : served.2.store.Evaluates asciiSpace (100 * second) := fun life shows_ _ =>
    (due life shows_).elim (fun notDue => ⟨_, notDue⟩) fun isDue => ⟨_, isDue⟩
  have failable : ∀ life, served.2.store.Shows asciiSpace life → life.Failable (100 * second) := by
    intro life shows_
    rcases due life shows_ with notDue | isDue
    · refine Or.inr ⟨notDue, ?_⟩
      rcases List.mem_pair.mp (show life.last ∈ [_, _] from
        mem_of_find (shows_.findRun life.last_mem_runs)) with isLast | isLast
      · rw [isLast]
        decide
      · rw [isLast]
        decide
    · exact Or.inl isDue
  exact ⟨rfl, rfl, exactly.1.mpr evaluates, exactly.2.1.mpr evaluates,
    exactly.2.2.1.mpr fun life shows_ _ => failable life shows_,
    exactly.2.2.2.mpr fun life shows_ _ => failable life shows_⟩

/-- A task whose duration is bounded by sixty seconds and a zero fraction can be
claimed, and then stops both sweeps. -/
theorem History.sweeps_exact_fraction :
    let served := World.serve asciiSpace
      [plainSubmission [("cancellation", .object [("maxDuration", .number ⟨600, 1⟩)])],
        plainClaim "worker"] (.blank second)
    History asciiSpace (.blank second) served.1 served.2 ∧
      served.2.store.runs.map RunRow.state = [.running] ∧
      ¬(deadlineSweep (100 * second)).Exact asciiSpace 1 (served.2.stopped (100 * second)) ∧
      ¬(leaseSweep (100 * second)).Exact asciiSpace 1 (served.2.stopped (100 * second)) := by
  intro served
  refine ⟨World.history_serve _ second, rfl, ?_, ?_⟩
  · rintro ⟨after, isServed, _⟩
    have raised : ((Operation.cancelExpiredTasks (some 1)).perform asciiSpace
      (served.2.stopped (100 * second))).1 = .error (.invalidBigint "60.0") := rfl
    cases raised.symm.trans (congrArg Prod.fst isServed)
  · rintro ⟨after, isServed, _⟩
    have raised : ((Operation.reapExpiredRuns (some 1)).perform asciiSpace
      (served.2.stopped (100 * second))).1 = .error (.invalidBigint "60.0") := rfl
    cases raised.symm.trans (congrArg Prod.fst isServed)

end Steda
