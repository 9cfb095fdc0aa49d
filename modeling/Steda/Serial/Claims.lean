import Steda.Contracts.ClaimStatement
import Steda.Serial.Sweeps

/-!
# The claim statement alone

The statement claims the first runnable runs by availability, writes these runs
and their tasks, and returns their rows in the same order.
-/

namespace Steda

open Postgres Transaction Relational

variable {space : Char → Bool} {life : Life} {world : World}

/-! ## Runnable runs -/

/-- A pending or sleeping run that is available at a time, is the last run of a
pending or sleeping task under one of the names, and whose deadline is not due. -/
def Queue.runnable (queue : Queue) (nowAt : Timestamp) (names : List String) (run : RunRow) : Bool :=
  run.state.claimable && match queue.findTask run.taskId with
    | none => false
    | some task => task.state.claimable && task.lastAttemptRun == run.id &&
        decide (run.availableAt ≤ nowAt) && names.contains task.name &&
        passes ((task.due (some nowAt)).map not)

/-- The runnable runs, by availability. -/
def Queue.runnableRuns (queue : Queue) (nowAt : Timestamp) (names : List String) : List RunRow :=
  (queue.runs.filter (queue.runnable nowAt names)).insertionSort availabilityOrder

/-- The result rows of claimed runs. -/
def Queue.claimRows (queue : Queue) (taken : List RunRow) : List ClaimedTask :=
  taken.filterMap fun run => (queue.findTask run.taskId).map fun task => claimedTask task run

/-- The queue after some of its runs are claimed. -/
def Queue.claimed (workerId : String) (nowAt expiresAt : Timestamp) (taken : List RunRow)
    (queue : Queue) : Queue :=
  { queue with
    runs := queue.runs.map fun run =>
      if run.id ∈ taken.map RunRow.id then run.claim workerId nowAt expiresAt else run
    tasks := queue.tasks.map fun task =>
      match taken.find? fun run => run.taskId == task.id with
      | some run => task.claim run nowAt
      | none => task }

instance : Std.Total availabilityOrder where
  total := by
    intro left right
    unfold availabilityOrder
    rcases lt_trichotomy left.availableAt right.availableAt with early | same | late
    · exact Or.inl (Or.inl early)
    · rcases le_total left.id right.id with ordered | reversed
      · exact Or.inl (Or.inr ⟨same, ordered⟩)
      · exact Or.inr (Or.inr ⟨same.symm, reversed⟩)
    · exact Or.inr (Or.inl late)

instance : IsTrans RunRow availabilityOrder where
  trans := by
    rintro first second third (early | ⟨same, ordered⟩) (later | ⟨sameToo, orderedToo⟩)
    · exact Or.inl (early.trans later)
    · exact Or.inl (sameToo ▸ early)
    · exact Or.inl (same ▸ later)
    · exact Or.inr ⟨same.trans sameToo, ordered.trans orderedToo⟩

/-! ## The updates -/

/-- The runs of a list are waiting last runs. -/
def Queue.Waits (space : Char → Bool) (queue : Queue) (taken : List RunRow) : Prop :=
  ∀ run ∈ taken, run.state.claimable = true ∧
    ∃ life : Life, queue.Shows space life ∧ life.last = run

theorem alone_claimRuns {workerId : String} (named : isBlank space workerId = false)
    (nowAt expiresAt : Timestamp) {taken : List RunRow} (waits : world.store.Waits space taken)
    (distinct : (taken.map RunRow.id).Nodup) :
    alone space (claimRuns workerId nowAt expiresAt taken) world =
      (.ok (), world.withStore { world.store with
        runs := world.store.runs.map fun run =>
          if run.id ∈ taken.map RunRow.id then run.claim workerId nowAt expiresAt else run }) := by
  induction taken generalizing world with
  | nil =>
      simp only [List.map_nil, List.not_mem_nil, if_false, List.map_id_fun', id]
      rfl
  | cons run rest inductionHypothesis =>
      obtain ⟨⟨waiting, life, shows_, isLast⟩, restWaits⟩ := List.forall_mem_cons.mp waits
      obtain ⟨absent, restDistinct⟩ := List.nodup_cons.mp distinct
      subst isLast
      have checked := RunRow.check_claim (shows_.valid.runsChecked _ life.last_mem_runs) named nowAt
        expiresAt
      let claimed := life.last.claim workerId nowAt expiresAt
      let next : World := world.withStore (world.store.putRun claimed)
      have nextWaits : next.store.Waits space rest := by
        intro other inRest
        obtain ⟨otherWaiting, otherLife, showsOther, isOther⟩ := restWaits other inRest
        refine ⟨otherWaiting, otherLife,
          ⟨showsOther.keyed.putRun claimed, showsOther.valid, ?_⟩, isOther⟩
        have different : claimed.taskId ≠ otherLife.task.id := by
          intro same
          have sameLife := shows_.unique showsOther
            ((shows_.valid.owned _ life.last_mem_runs).symm.trans same)
          refine absent (List.mem_map.mpr ⟨other, inRest, ?_⟩)
          rw [← isOther, sameLife]
        rw [show next.store.rowsOf otherLife.task.id = _ from Queue.rowsOf_putRun world.store _ _]
        simp only [Change.onRows, if_neg different]
        exact showsOther.rows
      rw [claimRuns, alone_then (alone_updateRun_last shows_ rfl checked),
        inductionHypothesis nextWaits restDistinct]
      refine congrArg (fun runs => (Except.ok (), world.withStore { world.store with runs := runs })) ?_
      change (replace RunRow.key claimed world.store.runs).map _ = _
      unfold replace
      rw [List.map_map]
      refine List.map_congr_left fun old member => ?_
      by_cases same : old.id = life.last.id
      · obtain rfl : life.last = old := shows_.eq_run life.last_mem_runs member same
        have notAgain : claimed.id ∉ rest.map RunRow.id := absent
        have sameKey : life.last.key = claimed.key := rfl
        simp only [Function.comp_apply, if_pos sameKey, List.map_cons, List.mem_cons_self, if_true]
        rw [if_neg notAgain]
      · have otherKey : old.key ≠ claimed.key := fun equal => same (congrArg Prod.snd equal)
        simp only [Function.comp_apply, if_neg otherKey, List.map_cons, List.mem_cons, same,
          false_or]

theorem alone_claimTaskRows {nowAt : Timestamp} {taken : List RunRow}
    (keyed : (world.store.tasks.map TaskRow.id).Nodup)
    (owned : ∀ run ∈ taken, ∃ task, world.store.findTask run.taskId = some task ∧
      (task.claim run nowAt).check space = .ok ())
    (distinct : (taken.map RunRow.taskId).Nodup) :
    alone space (claimTaskRows nowAt taken) world =
      (.ok (), world.withStore { world.store with
        tasks := world.store.tasks.map fun task =>
          match taken.find? fun run => run.taskId == task.id with
          | some run => task.claim run nowAt
          | none => task }) := by
  induction taken generalizing world with
  | nil =>
      simp only [List.find?_nil, List.map_id_fun', id]
      rfl
  | cons run rest inductionHypothesis =>
      obtain ⟨⟨task, found, checked⟩, restOwned⟩ := List.forall_mem_cons.mp owned
      obtain ⟨absent, restDistinct⟩ := List.nodup_cons.mp distinct
      have isId := Queue.findTask_id found
      let next : World := world.withStore (world.store.putTask (task.claim run nowAt))
      have nextKeyed : (next.store.tasks.map TaskRow.id).Nodup := by
        rw [show next.store.tasks.map TaskRow.id = world.store.tasks.map TaskRow.id from
          map_replace_of_agree fun old _ same => same]
        exact keyed
      have nextOwned : ∀ other ∈ rest, ∃ task, next.store.findTask other.taskId = some task ∧
          (task.claim other nowAt).check space = .ok () := by
        intro other inRest
        obtain ⟨otherTask, otherFound, otherChecked⟩ := restOwned other inRest
        refine ⟨otherTask, ?_, otherChecked⟩
        have different : (task.claim run nowAt).id ≠ other.taskId := by
          intro same
          exact absent (List.mem_map.mpr ⟨other, inRest, same.symm.trans isId⟩)
        rw [show next.store.findTask other.taskId = _ from
          Queue.findTask_putTask world.store _ _, if_neg different]
        exact otherFound
      rw [claimTaskRows, alone_then (alone_updateTask_checked found checked),
        inductionHypothesis nextKeyed nextOwned restDistinct]
      refine congrArg
        (fun tasks => (Except.ok (), world.withStore { world.store with tasks := tasks })) ?_
      change (replace TaskRow.id (task.claim run nowAt) world.store.tasks).map _ = _
      unfold replace
      rw [List.map_map]
      refine List.map_congr_left fun old member => ?_
      by_cases same : old.id = run.taskId
      · have isOld : old = task := by
          have foundOld : world.store.findTask old.id = some old := find_of_mem keyed member
          rw [same, found] at foundOld
          exact (Option.some.inj foundOld).symm
        subst isOld
        have sameId : old.id = (old.claim run nowAt).id := rfl
        have notAgain : (rest.find? fun other => other.taskId == old.id) = none := by
          refine List.find?_eq_none.mpr fun other inRest matched => absent ?_
          exact List.mem_map.mpr ⟨other, inRest, (beq_iff_eq.mp matched).trans isId⟩
        rw [Function.comp_apply, if_pos sameId, List.find?_cons_of_pos (by simp [isId])]
        rw [show (rest.find? fun other => other.taskId == (old.claim run nowAt).id) = none from
          notAgain]
      · have otherId : old.id ≠ (task.claim run nowAt).id := fun equal => same (equal.trans isId)
        rw [Function.comp_apply, if_neg otherId,
          List.find?_cons_of_neg (by simpa using Ne.symm same)]

/-! ## The statement -/

theorem Queue.Sound.taskJoin_snd {queue : Queue} (sound : queue.Sound space) :
    (taskJoin queue).map Prod.snd = queue.runs := by
  have joined : ∀ runs : List RunRow, (∀ run ∈ runs, run ∈ queue.runs) →
      (runs.filterMap fun run => (queue.findTask run.taskId).map fun task =>
        (task, run)).map Prod.snd = runs := by
    intro runs inRuns
    induction runs with
    | nil => rfl
    | cons run rest inductionHypothesis =>
        obtain ⟨first, inRest⟩ := List.forall_mem_cons.mp inRuns
        obtain ⟨life, member, shows_⟩ := sound.shows_of_findRun
          (find_of_mem sound.keyed.runs first : queue.findRun run.id = some run)
        rw [List.filterMap_cons_some (by rw [shows_.owner member, Option.map_some]), List.map_cons,
          inductionHypothesis inRest]
  exact joined queue.runs fun _ member => member

theorem filter_map_snd {α β : Type} {keeps : α × β → Bool} {wanted : β → Bool}
    {pairs : List (α × β)} (agree : ∀ pair ∈ pairs, keeps pair = wanted pair.2) :
    (pairs.filter keeps).map Prod.snd = (pairs.map Prod.snd).filter wanted := by
  rw [List.filter_map]
  exact congrArg (List.map Prod.snd) (List.filter_congr agree)

/-- The candidate condition on a run and its task. -/
theorem passes_claimCandidate {queue : Queue} {nowAt : Timestamp} {names : List String}
    {task : TaskRow} {run : RunRow} (found : queue.findTask run.taskId = some task) :
    passes (claimCandidate nowAt names task run) = queue.runnable nowAt names run := by
  unfold claimCandidate Queue.runnable
  rw [found]
  by_cases conditions : (run.state.claimable && task.state.claimable &&
      task.lastAttemptRun == run.id && decide (run.availableAt ≤ nowAt) &&
      names.contains task.name) = true
  · rw [if_pos conditions]
    simp_all
  · rw [if_neg conditions]
    simp_all [passes]

/-- The runnable runs are last runs of open tasks. -/
theorem Queue.Sound.shows_of_runnable {queue : Queue} (sound : queue.Sound space)
    {nowAt : Timestamp} {names : List String} {run : RunRow} (member : run ∈ queue.runs)
    (runnable : queue.runnable nowAt names run = true) :
    run.state.claimable = true ∧ ∃ life : Life, queue.Shows space life ∧ life.last = run := by
  obtain ⟨waiting, _⟩ := Bool.and_eq_true_iff.mp runnable
  obtain ⟨life, inRuns, shows_⟩ := sound.shows_of_findRun
    (find_of_mem sound.keyed.runs member : queue.findRun run.id = some run)
  exact ⟨waiting, life, shows_,
    (shows_.valid.active_run inRuns (State.active_of_claimable waiting)).1.symm⟩

theorem Queue.mem_runnableRuns {queue : Queue} {nowAt : Timestamp} {names : List String}
    {run : RunRow} : run ∈ queue.runnableRuns nowAt names ↔
      run ∈ queue.runs ∧ queue.runnable nowAt names run = true := by
  rw [runnableRuns, List.mem_insertionSort, List.mem_filter]

theorem Queue.Keyed.runnableRuns_nodup {queue : Queue} (keyed : queue.Keyed) (nowAt : Timestamp)
    (names : List String) : ((queue.runnableRuns nowAt names).map RunRow.id).Nodup := by
  refine ((List.perm_insertionSort _ _).map _).nodup_iff.mpr ?_
  exact keyed.runs.sublist (List.filter_sublist.map _)

/-- Runs that are last runs of different tasks. -/
theorem Queue.Waits.distinct_tasks {queue : Queue} {taken : List RunRow}
    (waits : queue.Waits space taken) (distinct : (taken.map RunRow.id).Nodup) :
    (taken.map RunRow.taskId).Nodup := by
  rw [List.Nodup, List.pairwise_map] at distinct ⊢
  refine distinct.imp_of_mem ?_
  intro first second inFirst inSecond different sameTask
  obtain ⟨_, life, shows_, isFirst⟩ := waits first inFirst
  obtain ⟨_, other, showsOther, isSecond⟩ := waits second inSecond
  subst isFirst isSecond
  rw [shows_.valid.owned _ life.last_mem_runs, showsOther.valid.owned _ other.last_mem_runs]
    at sameTask
  exact different (by rw [shows_.unique showsOther sameTask])

/-- The updates of the claim statement. -/
theorem alone_claimUpdates {workerId : String} (named : isBlank space workerId = false)
    (nowAt expiresAt : Timestamp) {taken : List RunRow} (keyed : world.store.Keyed)
    (waits : world.store.Waits space taken) (distinct : (taken.map RunRow.id).Nodup)
    {α : Type} (value : α) :
    alone space (do
      claimRuns workerId nowAt expiresAt taken
      claimTaskRows nowAt taken
      return value) world =
      (.ok value, world.withStore (world.store.claimed workerId nowAt expiresAt taken)) := by
  have owned : ∀ run ∈ taken, ∃ task, world.store.findTask run.taskId = some task ∧
      (task.claim run nowAt).check space = .ok () := by
    intro run member
    obtain ⟨waiting, life, shows_, isLast⟩ := waits run member
    subst isLast
    have enabled : (Transition.claim life.last.id workerId nowAt expiresAt).Enabled space life :=
      ⟨rfl, waiting, named⟩
    exact ⟨life.task, shows_.owner life.last_mem_runs,
      (Transition.valid_after shows_.valid enabled).taskChecked⟩
  let middle : World := world.withStore { world.store with
    runs := world.store.runs.map fun run =>
      if run.id ∈ taken.map RunRow.id then run.claim workerId nowAt expiresAt else run }
  have middleKeyed : (middle.store.tasks.map TaskRow.id).Nodup := keyed.tasks
  have middleOwned : ∀ run ∈ taken, ∃ task, middle.store.findTask run.taskId = some task ∧
      (task.claim run nowAt).check space = .ok () := owned
  rw [alone_then (alone_claimRuns named nowAt expiresAt waits distinct)]
  exact alone_then (alone_claimTaskRows middleKeyed middleOwned (waits.distinct_tasks distinct)) _

theorem claimCandidate_total {nowAt : Timestamp} {names : List String} {task : TaskRow}
    {run : RunRow} (evaluates : task.state.claimable = true →
      ∃ isDue, task.due (some nowAt) = .ok isDue) :
    ∃ kept, claimCandidate nowAt names task run = .ok kept := by
  unfold claimCandidate
  split
  · next conditions =>
      simp only [Bool.and_eq_true] at conditions
      obtain ⟨isDue, due⟩ := evaluates conditions.1.1.1.2
      exact ⟨!isDue, by rw [due]; rfl⟩
  · exact ⟨false, rfl⟩

/-- The claim statement claims the first runnable runs and nothing else. -/
theorem alone_claimStatement (ready : world.Ready space) (request : ClaimRequest)
    (named : isBlank space request.workerId = false) (nowAt : Timestamp)
    (evaluates : ∀ life, world.store.Shows space life → life.task.state.terminal = false →
      ∃ isDue, life.task.due (some nowAt) = .ok isDue) :
    let taken := (world.store.runnableRuns nowAt request.taskNames).take request.quantity.toNat
    alone space (claimStatement request nowAt) world =
      (.ok (world.store.claimRows taken), world.withStore (world.store.claimed request.workerId
        nowAt (nowAt + request.leaseSeconds * second) taken)) := by
  intro taken
  have sound := ready.sound
  let keeps : TaskRow × RunRow → Except SqlError Bool := fun pair =>
    claimCandidate nowAt request.taskNames pair.1 pair.2
  have tested : ∀ pair ∈ taskJoin world.store, ∃ kept, keeps pair = .ok kept := by
    intro pair member
    refine claimCandidate_total fun waiting => ?_
    obtain ⟨life, isTask, _, shows_⟩ := sound.shows_of_findTask (mem_taskJoin member).2
    rw [← isTask] at waiting ⊢
    refine evaluates life shows_ ?_
    have active := State.active_of_claimable waiting
    rw [State.active_eq_not_terminal] at active
    simpa using active
  let candidates := (taskJoin world.store).filter fun pair => passes (keeps pair)
  let ordered := candidates.insertionSort fun left right => availabilityOrder left.2 right.2
  have inJoin : ∀ pair ∈ ordered, pair ∈ taskJoin world.store ∧ keeps pair = .ok true := by
    intro pair member
    obtain ⟨joined, passes_⟩ := List.mem_filter.mp ((List.mem_insertionSort _).mp member)
    exact ⟨joined, passes_iff.mp passes_⟩
  have isOrdered : ordered.map Prod.snd = world.store.runnableRuns nowAt request.taskNames := by
    refine (List.map_insertionSort _ availabilityOrder Prod.snd candidates
      fun _ _ _ _ => Iff.rfl).trans ?_
    rw [Queue.runnableRuns, ← sound.taskJoin_snd]
    refine congrArg (List.insertionSort _) (filter_map_snd fun pair member => ?_)
    exact passes_claimCandidate (mem_taskJoin member).2
  have found : ∀ pair ∈ ordered, ∃ run, world.store.findRun pair.2.id = some run ∧
      claimCandidate nowAt request.taskNames pair.1 run = .ok true := by
    intro pair member
    obtain ⟨joined, kept⟩ := inJoin pair member
    exact ⟨pair.2, find_of_mem sound.keyed.runs (mem_taskJoin joined).1, kept⟩
  obtain ⟨selected, isSelected, areFirst, areFound⟩ :=
    selectRuns_all found request.quantity.toNat
  have inOrdered : ∀ row ∈ selected, row.1 ∈ ordered ∧ row.2 = row.1.2 := by
    intro row member
    have first : row.1 ∈ ordered :=
      List.mem_of_mem_take (areFirst ▸ List.mem_map_of_mem member)
    refine ⟨first, ?_⟩
    have known : world.store.findRun row.1.2.id = some row.1.2 :=
      find_of_mem sound.keyed.runs (mem_taskJoin (inJoin _ first).1).1
    exact Option.some.inj ((areFound row member).symm.trans known)
  have isTaken : (selected.map fun row => row.2) = taken := by
    rw [show taken = (ordered.map Prod.snd).take request.quantity.toNat from by rw [isOrdered],
      ← List.map_take, ← areFirst, List.map_map]
    exact List.map_congr_left fun row member => (inOrdered row member).2
  have total : Std.Total fun left right : TaskRow × RunRow => availabilityOrder left.2 right.2 :=
    ⟨fun left right => Std.Total.total left.2 right.2⟩
  have trans : IsTrans (TaskRow × RunRow) fun left right => availabilityOrder left.2 right.2 :=
    ⟨fun first second third => IsTrans.trans first.2 second.2 third.2⟩
  have sorted : (selected.insertionSort fun left right => availabilityOrder left.1.2 right.1.2) =
      selected := by
    refine List.Pairwise.insertionSort_eq ?_
    have first : (selected.map Prod.fst).Pairwise fun left right =>
        availabilityOrder left.2 right.2 := by
      rw [areFirst]
      exact (List.pairwise_insertionSort _ _).sublist (List.take_sublist _ _)
    rwa [List.pairwise_map] at first
  have rows : (selected.map fun row => claimedTask row.1.1 row.2) = world.store.claimRows taken := by
    rw [← isTaken, Queue.claimRows, List.filterMap_map]
    refine (List.filterMap_eq_map_iff_forall_eq_some.mpr fun row member => ?_).symm
    obtain ⟨first, same⟩ := inOrdered row member
    rw [Function.comp_apply, same, (mem_taskJoin (inJoin _ first).1).2]
    rfl
  have inRunnable : ∀ run ∈ taken, run ∈ world.store.runs ∧
      world.store.runnable nowAt request.taskNames run = true := fun run member =>
    Queue.mem_runnableRuns.mp (List.mem_of_mem_take member)
  have waits : world.store.Waits space taken := fun run member =>
    sound.shows_of_runnable (inRunnable run member).1 (inRunnable run member).2
  have distinct : (taken.map RunRow.id).Nodup :=
    (sound.keyed.runnableRuns_nodup nowAt request.taskNames).sublist
      ((List.take_sublist _ _).map _)
  have locked : alone space (lockRuns .skipLocked (fun pair : TaskRow × RunRow => pair.2.id)
      (fun pair run => claimCandidate nowAt request.taskNames pair.1 run) ordered
        request.quantity.toNat) world = (.ok selected, world) :=
    (alone_lockRuns _ _ _ _ _ _).trans (congrArg (·, world) isSelected)
  rw [claimStatement, alone_then (alone_snapshot world)]
  refine (alone_then ((alone_ofExcept _ _).trans
    (congrArg (·, world) (filterExcept_total tested))) _).trans ((alone_then locked _).trans ?_)
  simp only [sorted, rows, isTaken]
  exact alone_claimUpdates named nowAt _ sound.keyed waits distinct _

end Steda
