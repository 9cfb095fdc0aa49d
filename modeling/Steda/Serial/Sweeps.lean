import Mathlib.Data.Int.ConditionallyCompleteOrder
import Steda.Contracts.Claiming
import Steda.Serial.Moves

/-!
# Sweeps alone

The deadline sweep cancels the first due tasks by identifier and the lease
sweep fails the first expired runs by expiry, each as far as its limit reaches.
-/

namespace Steda

open Postgres Transaction Relational

variable {space : Char → Bool} {life : Life} {world : World}

/-! ## Selecting rows -/

/-- A fallible condition holds. -/
def passes {ε : Type} : Except ε Bool → Bool
  | .ok true => true
  | _ => false

theorem passes_iff {ε : Type} {outcome : Except ε Bool} :
    passes outcome = true ↔ outcome = .ok true := by
  rcases outcome with error | (_ | _) <;> simp [passes]

/-- A condition that never fails filters. -/
theorem filterExcept_total {ε α : Type} {keeps : α → Except ε Bool} {values : List α}
    (total : ∀ value ∈ values, ∃ kept, keeps value = .ok kept) :
    filterExcept keeps values = .ok (values.filter fun value => passes (keeps value)) := by
  induction values with
  | nil => rfl
  | cons value rest inductionHypothesis =>
      obtain ⟨⟨kept, isKept⟩, totalRest⟩ := List.forall_mem_cons.mp total
      have others := inductionHypothesis totalRest
      unfold filterExcept
      cases kept with
      | true =>
          rw [List.filter_cons_of_pos (by simp [isKept, passes])]
          simp only [isKept, others]
          rfl
      | false =>
          rw [List.filter_cons_of_neg (by simp [isKept, passes])]
          simp only [isKept, others]
          rfl

/-- A filter that returns has tested every value. -/
theorem filterExcept_tested {ε α : Type} {keeps : α → Except ε Bool} {values kept : List α}
    (filtered : filterExcept keeps values = .ok kept) :
    ∀ value ∈ values, ∃ isKept, keeps value = .ok isKept := by
  induction values generalizing kept with
  | nil => simp
  | cons value rest inductionHypothesis =>
      unfold filterExcept at filtered
      obtain ⟨isKept, tested, filtered⟩ := except_bind_ok.mp filtered
      obtain ⟨others, restFiltered, _⟩ := except_bind_ok.mp filtered
      exact List.forall_mem_cons.mpr ⟨⟨isKept, tested⟩, inductionHypothesis restFiltered⟩

/-- Candidates whose runs are found and satisfy the condition are selected in
order. -/
theorem selectRuns_all {α : Type} {queue : Queue} {runId : α → Uuid}
    {keeps : α → RunRow → Except SqlError Bool} {candidates : List α}
    (found : ∀ candidate ∈ candidates, ∃ run, queue.findRun (runId candidate) = some run ∧
      keeps candidate run = .ok true) (limit : Nat) :
    ∃ selected, selectRuns queue runId keeps candidates limit = .ok selected ∧
      selected.map Prod.fst = candidates.take limit ∧
      ∀ pair ∈ selected, queue.findRun (runId pair.1) = some pair.2 := by
  induction candidates generalizing limit with
  | nil => exact ⟨[], by cases limit <;> rfl, by simp, by simp⟩
  | cons candidate rest inductionHypothesis =>
      obtain ⟨⟨run, isRun, isKept⟩, foundRest⟩ := List.forall_mem_cons.mp found
      cases limit with
      | zero => exact ⟨[], rfl, rfl, by simp⟩
      | succ limit =>
          obtain ⟨others, isOthers, areFirst, areFound⟩ := inductionHypothesis foundRest limit
          refine ⟨(candidate, run) :: others, ?_, ?_, ?_⟩
          · simp only [selectRuns, isRun, isKept, isOthers]
            rfl
          · rw [List.map_cons, List.take_succ_cons, areFirst]
          · exact List.forall_mem_cons.mpr ⟨isRun, areFound⟩

/-! ## Sweeping -/

/-- A sweep takes a world to a later one by a choice of transitions. -/
structure World.Sweeps (space : Char → Bool) (moves : Moves) (before after : World) : Prop where
  ready : after.Ready space
  later : before.Later after
  moved : before.store.Moved space moves after.store

namespace World.Sweeps

variable {first second third : World} {moves more : Moves}

theorem refl (ready : world.Ready space) : world.Sweeps space Moves.none world :=
  ⟨ready, World.Later.refl world, Queue.Moved.refl world.store⟩

theorem trans (early : first.Sweeps space moves second) (late : second.Sweeps space more third)
    (apart : ∀ task, moves task ≠ none → more task = none) :
    first.Sweeps space (moves.orElse more) third :=
  ⟨late.ready, early.later.trans late.later, early.moved.trans early.ready.sound late.moved apart⟩

end World.Sweeps

/-! ## Cancelling -/

/-- The tasks of a list are cancelled, each at some reading of the clock. -/
structure Moves.Cancels (world : World) (ids : List Uuid) (moves : Moves) : Prop where
  chosen : ∀ task ∈ ids, ∃ position, moves task = some (.cancel (world.clock position))
  others : ∀ task, task ∉ ids → moves task = Option.none

theorem alone_cancelEach {ids : List Uuid} (ready : world.Ready space) (distinct : ids.Nodup)
    (areOpen : ∀ id ∈ ids, ∃ life, world.store.Shows space life ∧ life.task.id = id ∧
      life.task.state.terminal = false) :
    ∃ moves after, alone space (cancelEach ids) world = (.ok ids.length, after) ∧
      world.Sweeps space moves after ∧ moves.Cancels world ids := by
  induction ids generalizing world with
  | nil =>
      exact ⟨Moves.none, world, rfl, World.Sweeps.refl ready, by simp, fun _ _ => rfl⟩
  | cons id rest inductionHypothesis =>
      obtain ⟨⟨life, shows_, isId, open_⟩, restOpen⟩ := List.forall_mem_cons.mp areOpen
      obtain ⟨absent, restDistinct⟩ := List.nodup_cons.mp distinct
      subst isId
      let transition := Transition.cancel (world.clock 0)
      have enabled : transition.Enabled space life := open_
      let next : World := world.tick.withStore (transition.write life world.store)
      have cancelled : alone space (cancelTask life.task.id) world = (.ok true, next) := by
        rw [alone_cancelTask_of_life shows_, open_]
        rfl
      have step : world.Sweeps space (Moves.single life.task.id transition) next :=
        ⟨ready.tick.write shows_ enabled rfl,
          (World.Later.tick world).trans (World.Later.withStore _ _),
          Queue.Moved.write shows_ enabled fun newRun isNew => by cases isNew⟩
      obtain ⟨moves, after, swept, sweeps, cancels⟩ := inductionHypothesis step.ready restDistinct (by
        intro other inRest
        obtain ⟨otherLife, showsOther, isOther, otherOpen⟩ := restOpen other inRest
        refine ⟨otherLife, step.moved.shows_of_none step.ready.sound showsOther ?_, isOther, otherOpen⟩
        refine Moves.single_of_ne fun same => absent ?_
        rw [← same, isOther]
        exact inRest)
      obtain ⟨readings, shifted⟩ := step.later.clock
      have stays : ∀ task, Moves.single life.task.id transition task ≠ Option.none →
          moves task = none := by
        intro task chosen
        rw [Moves.eq_of_single chosen]
        exact cancels.others _ absent
      refine ⟨_, after, ?_, step.trans sweeps stays, ?_, ?_⟩
      · rw [cancelEach, alone_then cancelled, alone_then swept]
        simp [Nat.add_comm]
      · intro task member
        by_cases same : task = life.task.id
        · subst same
          exact ⟨0, Moves.orElse_of_some (Moves.single_self _ _)⟩
        · obtain ⟨position, isCancel⟩ :=
            cancels.chosen task (List.mem_of_ne_of_mem same member)
          rw [Moves.orElse_of_none (Moves.single_of_ne same), isCancel, shifted]
          exact ⟨_, rfl⟩
      · intro task outside
        rw [List.mem_cons, not_or] at outside
        rw [Moves.orElse_of_none (Moves.single_of_ne outside.1)]
        exact cancels.others task outside.2

/-! ## Reaping -/

/-- The outcome of reaping a run at readings of a world. -/
def Life.ReapsTo (world : World) (life : Life) (outcome : Except SqlError Transition) : Prop :=
  ∃ observed cancelled reasoned drawn, life.failure (world.clock observed)
    (world.clock cancelled) (life.expiryReason (world.clock reasoned)) (world.idents drawn) = outcome

theorem Life.ReapsTo.earlier {before after : World} {outcome : Except SqlError Transition}
    (later : before.Later after) (reaps : life.ReapsTo after outcome) :
    life.ReapsTo before outcome := by
  obtain ⟨readings, isClock⟩ := later.clock
  obtain ⟨names, isIdents⟩ := later.idents
  obtain ⟨observed, cancelled, reasoned, drawn, fails⟩ := reaps
  rw [isClock, isClock, isClock, isIdents] at fails
  exact ⟨_, _, _, _, fails⟩

/-- The runs of a list are reaped. -/
structure Moves.Reaps (space : Char → Bool) (world : World) (ids : List Uuid) (moves : Moves) :
    Prop where
  chosen : ∀ life, world.store.Shows space life → life.last.id ∈ ids →
    ∃ transition, moves life.task.id = some transition ∧ life.ReapsTo world (.ok transition)
  others : ∀ life, world.store.Shows space life → life.last.id ∉ ids →
    moves life.task.id = Option.none
  absent : ∀ task, world.store.findTask task = Option.none → moves task = Option.none

/-- The lease of a run has expired at every reading to come. -/
def World.Expires (world : World) (run : RunRow) : Prop :=
  ∀ position, expiredAt (world.clock position) run = true

theorem World.Expires.later {before after : World} {run : RunRow} (expires : before.Expires run)
    (later : before.Later after) : after.Expires run := by
  obtain ⟨readings, isClock⟩ := later.clock
  intro position
  rw [isClock]
  exact expires _

/-- One reaped run. -/
theorem World.Ready.reap (ready : world.Ready space) (shows_ : world.store.Shows space life)
    (expires : world.Expires life.last) :
    (∃ error, (alone space (reapExpiredRun life.last.id) world).1 = .error error ∧
      life.ReapsTo world (.error error)) ∨
    ∃ transition after, alone space (reapExpiredRun life.last.id) world = (.ok true, after) ∧
      life.ReapsTo world (.ok transition) ∧
      world.Sweeps space (Moves.single life.task.id transition) after := by
  have running := running_of_expiredAt (expires 0)
  have reaped := alone_reapExpiredRun shows_ (expires 0) (expires 1) (ready.unused 0)
  cases fails : life.failure (world.clock 1) (world.clock 2) (life.expiryReason (world.clock 0))
      (world.idents 0) with
  | error error =>
      rw [fails] at reaped
      exact Or.inl ⟨error, reaped, 1, 2, 0, 0, fails⟩
  | ok transition =>
      rw [fails] at reaped
      refine Or.inr ⟨transition, _, reaped, ⟨1, 2, 0, 0, fails⟩, ?_, ?_, ?_⟩
      · exact ready.tick.tick.write_failure shows_ running fails
      · exact ((World.Later.tick world).trans (World.Later.tick _)).trans
          (Transition.later_spent transition _ _)
      · exact Queue.Moved.write shows_ (Life.failure_enabled running shows_.valid fails)
          (ready.fresh_failure fails)

theorem alone_reapEach {ids : List Uuid} (ready : world.Ready space) (distinct : ids.Nodup)
    (expired : ∀ id ∈ ids, ∃ life, world.store.Shows space life ∧ life.last.id = id ∧
      world.Expires life.last) :
    (∃ life error, world.store.Shows space life ∧ life.last.id ∈ ids ∧
      life.ReapsTo world (.error error) ∧ (alone space (reapEach ids) world).1 = .error error) ∨
    ∃ moves after, alone space (reapEach ids) world = (.ok ids.length, after) ∧
      world.Sweeps space moves after ∧ moves.Reaps space world ids := by
  induction ids generalizing world with
  | nil =>
      exact Or.inr ⟨Moves.none, world, rfl, World.Sweeps.refl ready, by simp, fun _ _ _ => rfl,
        fun _ _ => rfl⟩
  | cons id rest inductionHypothesis =>
      obtain ⟨⟨life, shows_, isId, expires⟩, restExpired⟩ := List.forall_mem_cons.mp expired
      obtain ⟨absent, restDistinct⟩ := List.nodup_cons.mp distinct
      subst isId
      rcases ready.reap shows_ expires with ⟨error, raised, reaps⟩ |
        ⟨transition, next, reaped, reaps, step⟩
      · exact Or.inl ⟨life, error, shows_, List.mem_cons_self, reaps, alone_stop_fst raised _⟩
      have isOther : ∀ {other : Life}, world.store.Shows space other → other.last.id ∈ rest →
          other.task.id ≠ life.task.id := by
        intro other showsOther inRest same
        rw [showsOther.unique shows_ same] at inRest
        exact absent inRest
      have stays : ∀ {other : Life}, world.store.Shows space other →
          other.task.id ≠ life.task.id → next.store.Shows space other := fun showsOther different =>
        step.moved.shows_of_none step.ready.sound showsOther (Moves.single_of_ne different)
      have begins : ∀ outcome after, alone space (reapEach rest) next = (outcome, after) →
          alone space (reapEach (life.last.id :: rest)) world =
            (match outcome with
              | .ok count => .ok (1 + count)
              | .error error => .error error, after) := by
        intro outcome after ran
        rw [reapEach, alone_then reaped, alone_bind, ran]
        cases outcome <;> rfl
      rcases inductionHypothesis step.ready restDistinct (by
        intro other inRest
        obtain ⟨otherLife, showsOther, isId, otherExpires⟩ := restExpired other inRest
        subst isId
        exact ⟨otherLife, stays showsOther (isOther showsOther inRest), rfl,
          otherExpires.later step.later⟩) with
        ⟨failing, error, showsFailing, inRest, failingReaps, raised⟩ |
        ⟨moves, after, swept, sweeps, reapsRest⟩
      · obtain ⟨otherLife, showsOther, isId, _⟩ := restExpired _ inRest
        have different := isOther showsOther (isId ▸ inRest)
        have same : failing = otherLife := showsFailing.unique_of_run
          (stays showsOther different) failing.last_mem_runs rfl otherLife.last_mem_runs isId
        subst same
        refine Or.inl ⟨failing, error, showsOther, List.mem_cons_of_mem _ inRest,
          failingReaps.earlier step.later, ?_⟩
        rw [begins _ _ (Prod.ext raised rfl)]
      · have notAgain : moves life.task.id = Option.none := by
          have movedShows := step.moved.shows step.ready.sound shows_
          rw [← Life.moved_id (Moves.single life.task.id transition) life]
          refine reapsRest.others _ movedShows fun inRest => ?_
          obtain ⟨otherLife, showsOther, isId, _⟩ := restExpired _ inRest
          have different := isOther showsOther (isId ▸ inRest)
          have same := movedShows.unique_of_run (stays showsOther different)
            (Life.last_mem_runs _) rfl otherLife.last_mem_runs isId
          rw [← same, Life.moved_id] at different
          exact different rfl
        refine Or.inr ⟨_, after, (begins _ _ swept).trans ?_, step.trans sweeps ?_, ?_, ?_, ?_⟩
        · simp [Nat.add_comm]
        · intro task chosen
          rw [Moves.eq_of_single chosen]
          exact notAgain
        · intro other showsOther member
          by_cases same : other.task.id = life.task.id
          · have isLife := showsOther.unique shows_ same
            subst isLife
            exact ⟨transition, Moves.orElse_of_some (Moves.single_self _ _), reaps⟩
          · have inRest : other.last.id ∈ rest := by
              refine List.mem_of_ne_of_mem (fun sameRun => same ?_) member
              rw [showsOther.unique_of_run shows_ other.last_mem_runs sameRun life.last_mem_runs rfl]
            obtain ⟨chosen, isChosen, otherReaps⟩ :=
              reapsRest.chosen other (stays showsOther same) inRest
            rw [Moves.orElse_of_none (Moves.single_of_ne same)]
            exact ⟨chosen, isChosen, otherReaps.earlier step.later⟩
        · intro other showsOther outside
          rw [List.mem_cons, not_or] at outside
          have different : other.task.id ≠ life.task.id := fun same =>
            outside.1 (by rw [showsOther.unique shows_ same])
          rw [Moves.orElse_of_none (Moves.single_of_ne different)]
          exact reapsRest.others other (stays showsOther different) outside.2
        · intro task missing
          have different : task ≠ life.task.id := by
            rintro rfl
            rw [shows_.findTask] at missing
            cases missing
          rw [Moves.orElse_of_none (Moves.single_of_ne different)]
          exact reapsRest.absent task ((congrArg Rows.task (step.moved.absent task missing)).trans
            missing)

/-! ## The deadline sweep -/

/-- The open tasks past their deadline, by identifier. -/
def Queue.dueTasks (queue : Queue) (nowAt : Timestamp) : List TaskRow :=
  (queue.tasks.filter fun task => !task.state.terminal && passes (task.due (some nowAt))).insertionSort
    fun left right => left.id ≤ right.id

theorem Queue.Keyed.findTask_of_mem {queue : Queue} (keyed : queue.Keyed) {task : TaskRow}
    (member : task ∈ queue.tasks) : queue.findTask task.id = some task :=
  find_of_mem keyed.tasks member

/-- In a sound queue the join pairs every task with the last run of its life. -/
theorem Queue.Sound.mem_lastRunJoin {queue : Queue} (sound : queue.Sound space)
    {pair : TaskRow × RunRow} (member : pair ∈ lastRunJoin queue) :
    ∃ life : Life, queue.Shows space life ∧ pair = (life.task, life.last) := by
  obtain ⟨task, inTasks, joined⟩ := List.mem_filterMap.mp member
  obtain ⟨run, found, isPair⟩ := Option.map_eq_some_iff.mp joined
  obtain ⟨life, isTask, _, shows_⟩ :=
    sound.shows_of_findTask (sound.keyed.findTask_of_mem inTasks)
  subst isTask
  rw [shows_.valid.pointed, shows_.findRun life.last_mem_runs] at found
  exact ⟨life, shows_, by rw [← isPair, ← Option.some.inj found]⟩

theorem Queue.Sound.lastRunJoin_fst {queue : Queue} (sound : queue.Sound space) :
    (lastRunJoin queue).map Prod.fst = queue.tasks := by
  have joined : ∀ tasks : List TaskRow, (∀ task ∈ tasks, task ∈ queue.tasks) →
      (tasks.filterMap fun task => (queue.findRun task.lastAttemptRun).map fun run =>
        (task, run)).map Prod.fst = tasks := by
    intro tasks inTasks
    induction tasks with
    | nil => rfl
    | cons task rest inductionHypothesis =>
        obtain ⟨first, inRest⟩ := List.forall_mem_cons.mp inTasks
        obtain ⟨life, isTask, _, shows_⟩ :=
          sound.shows_of_findTask (sound.keyed.findTask_of_mem first)
        subst isTask
        have found : queue.findRun life.task.lastAttemptRun = some life.last := by
          rw [shows_.valid.pointed]
          exact shows_.findRun life.last_mem_runs
        rw [List.filterMap_cons_some (by rw [found, Option.map_some]), List.map_cons,
          inductionHypothesis inRest]
  exact joined queue.tasks fun _ member => member

theorem Life.Valid.deadlineCandidate (valid : life.Valid space) (nowAt : Timestamp) :
    deadlineCandidate nowAt life.task life.last =
      if life.task.state.terminal then .ok false else life.task.due (some nowAt) := by
  unfold Steda.deadlineCandidate
  rw [State.active_eq_not_terminal, State.active_eq_not_terminal, ← valid.terminal_iff]
  cases life.task.state.terminal <;> rfl

theorem filter_map_fst {α β : Type} {keeps : α × β → Bool} {wanted : α → Bool}
    {pairs : List (α × β)} (agree : ∀ pair ∈ pairs, keeps pair = wanted pair.1) :
    (pairs.filter keeps).map Prod.fst = (pairs.map Prod.fst).filter wanted := by
  rw [List.filter_map]
  refine congrArg (List.map Prod.fst) (List.filter_congr agree)

/-- The deadline sweep raises on a deadline that does not evaluate and cancels
the first due tasks otherwise. -/
theorem alone_cancelExpiredTasks (ready : world.Ready space) {limit : Int} (positive : 0 < limit) :
    (∃ life error, world.store.Shows space life ∧ life.task.state.terminal = false ∧
      life.task.due (some (world.clock 0)) = .error error ∧
      (alone space (cancelExpiredTasks (some limit)) world).1 = .error error) ∨
    (∀ life, world.store.Shows space life → life.task.state.terminal = false →
      ∃ isDue, life.task.due (some (world.clock 0)) = .ok isDue) ∧
    ∃ moves after, alone space (cancelExpiredTasks (some limit)) world =
        (.ok ((world.store.dueTasks (world.clock 0)).take limit.toNat).length, after) ∧
      world.Sweeps space moves after ∧
      moves.Cancels world.tick
        (((world.store.dueTasks (world.clock 0)).take limit.toNat).map TaskRow.id) := by
  let nowAt := world.clock 0
  let keeps : TaskRow × RunRow → Except SqlError Bool := fun pair =>
    deadlineCandidate nowAt pair.1 pair.2
  have sound := ready.sound
  have candidate : ∀ {life : Life}, world.store.Shows space life → keeps (life.task, life.last) =
      if life.task.state.terminal then .ok false else life.task.due (some nowAt) :=
    fun shows_ => shows_.valid.deadlineCandidate nowAt
  have begins : alone space (cancelExpiredTasks (some limit)) world =
      alone space (do
        let candidates ← Program.ofExcept (filterExcept keeps (lastRunJoin world.store))
        let ordered := candidates.insertionSort fun left right => left.1.id ≤ right.1.id
        let due ← lockRuns .skipLocked (fun pair => pair.2.id)
          (fun pair run => deadlineCandidate nowAt pair.1 run) ordered limit.toNat
        cancelEach (due.map fun selected => selected.1.1.id)) world.tick := by
    rw [cancelExpiredTasks, alone_then (alone_currentTime world)]
    simp only [if_neg (not_le.mpr positive), alone_then (alone_snapshot world.tick)]
    rfl
  cases filtered : filterExcept keeps (lastRunJoin world.store) with
  | error error =>
      obtain ⟨pair, member, refused⟩ := filterExcept_error filtered
      obtain ⟨life, shows_, isPair⟩ := sound.mem_lastRunJoin member
      rw [isPair, candidate shows_] at refused
      split at refused
      · cases refused
      · next isOpen =>
          refine Or.inl ⟨life, error, shows_, by simpa using isOpen, refused, ?_⟩
          rw [begins, filtered]
          rfl
  | ok kept =>
      have tested := filterExcept_tested filtered
      have isKept := Except.ok.inj (filtered.symm.trans (filterExcept_total tested))
      refine Or.inr ⟨?_, ?_⟩
      · intro life shows_ isOpen
        have inTasks : life.task ∈ (lastRunJoin world.store).map Prod.fst := by
          rw [sound.lastRunJoin_fst]
          exact mem_of_find shows_.findTask
        obtain ⟨pair, member, isTask⟩ := List.mem_map.mp inTasks
        obtain ⟨other, showsOther, isPair⟩ := sound.mem_lastRunJoin member
        have same : life = other := shows_.unique showsOther (by rw [← isTask, isPair])
        subst same
        obtain ⟨isDue, evaluates⟩ := tested pair member
        rw [isPair, candidate shows_, isOpen] at evaluates
        exact ⟨isDue, evaluates⟩
      · let ordered := kept.insertionSort fun left right => left.1.id ≤ right.1.id
        have isOrdered : ordered.map Prod.fst = world.store.dueTasks nowAt := by
          refine (List.map_insertionSort _ (fun left right : TaskRow => left.id ≤ right.id)
            Prod.fst kept fun _ _ _ _ => Iff.rfl).trans ?_
          rw [Queue.dueTasks, ← sound.lastRunJoin_fst, isKept]
          refine congrArg (List.insertionSort _) (filter_map_fst fun pair member => ?_)
          obtain ⟨life, shows_, isPair⟩ := sound.mem_lastRunJoin member
          rw [isPair, candidate shows_]
          cases life.task.state.terminal <;> rfl
        have inOrdered : ∀ pair ∈ ordered, ∃ life : Life, world.store.Shows space life ∧
            pair = (life.task, life.last) ∧ life.task.state.terminal = false ∧
            keeps pair = .ok true := by
          intro pair member
          have inKept := (List.mem_insertionSort _).mp member
          rw [isKept] at inKept
          obtain ⟨inJoin, passes_⟩ := List.mem_filter.mp inKept
          obtain ⟨life, shows_, isPair⟩ := sound.mem_lastRunJoin inJoin
          have kept := passes_iff.mp passes_
          refine ⟨life, shows_, isPair, ?_, kept⟩
          rw [isPair, candidate shows_] at kept
          by_contra terminal
          rw [if_pos (by simpa using terminal)] at kept
          cases kept
        have found : ∀ pair ∈ ordered, ∃ run, world.store.findRun pair.2.id = some run ∧
            deadlineCandidate nowAt pair.1 run = .ok true := by
          intro pair member
          obtain ⟨life, shows_, isPair, _, passes_⟩ := inOrdered pair member
          refine ⟨life.last, ?_, ?_⟩
          · rw [isPair]
            exact shows_.findRun life.last_mem_runs
          · rw [isPair] at passes_ ⊢
            exact passes_
        obtain ⟨selected, isSelected, areFirst, _⟩ := selectRuns_all found limit.toNat
        have ids : (selected.map fun chosen => chosen.1.1.id) =
            ((world.store.dueTasks nowAt).take limit.toNat).map TaskRow.id := by
          rw [← isOrdered, ← List.map_take, ← areFirst, List.map_map, List.map_map]
          rfl
        have distinct : (((world.store.dueTasks nowAt).take limit.toNat).map TaskRow.id).Nodup := by
          refine List.Nodup.sublist ((List.take_sublist _ _).map _) ?_
          refine ((List.perm_insertionSort _ _).map _).nodup_iff.mpr ?_
          exact sound.keyed.tasks.sublist (List.filter_sublist.map _)
        have areOpen : ∀ id ∈ ((world.store.dueTasks nowAt).take limit.toNat).map TaskRow.id,
            ∃ life, world.tick.store.Shows space life ∧ life.task.id = id ∧
              life.task.state.terminal = false := by
          intro id member
          rw [← ids] at member
          obtain ⟨chosen, isChosen, isId⟩ := List.mem_map.mp member
          have inTaken : chosen.1 ∈ ordered.take limit.toNat := by
            rw [← areFirst]
            exact List.mem_map_of_mem isChosen
          obtain ⟨life, shows_, isPair, isOpen, _⟩ := inOrdered _ (List.mem_of_mem_take inTaken)
          exact ⟨life, shows_, by rw [← isId, isPair], isOpen⟩
        obtain ⟨moves, after, swept, sweeps, cancels⟩ := alone_cancelEach ready.tick distinct areOpen
        refine ⟨moves, after, ?_, ⟨sweeps.ready, (World.Later.tick world).trans sweeps.later,
          sweeps.moved⟩, cancels⟩
        rw [begins, filtered]
        have locked : alone space (lockRuns .skipLocked (fun pair : TaskRow × RunRow => pair.2.id)
            (fun pair run => deadlineCandidate nowAt pair.1 run) ordered limit.toNat) world.tick =
              (.ok selected, world.tick) :=
          (alone_lockRuns _ _ _ _ _ _).trans (congrArg (·, Session.tick world) isSelected)
        refine (alone_then (alone_ofExcept _ _) _).trans ((alone_then locked _).trans ?_)
        rw [ids, swept, List.length_map]

/-! ## The lease sweep -/

/-- The running runs with an expired lease, by expiry. -/
def Queue.expiredRuns (queue : Queue) (nowAt : Timestamp) : List RunRow :=
  (queue.runs.filter (expiredAt nowAt)).insertionSort expiryOrder

theorem Queue.mem_expiredRuns {queue : Queue} {nowAt : Timestamp} {run : RunRow} :
    run ∈ queue.expiredRuns nowAt ↔ run ∈ queue.runs ∧ expiredAt nowAt run = true := by
  rw [expiredRuns, List.mem_insertionSort, List.mem_filter]

/-- A running run is the last one of a life. -/
theorem Queue.Sound.shows_of_running {queue : Queue} (sound : queue.Sound space) {run : RunRow}
    (member : run ∈ queue.runs) (running : run.state = .running) :
    ∃ life : Life, queue.Shows space life ∧ life.last = run := by
  obtain ⟨life, inRuns, shows_⟩ :=
    sound.shows_of_findRun (find_of_mem sound.keyed.runs member : queue.findRun run.id = some run)
  exact ⟨life, shows_, (shows_.valid.running_last inRuns running).1.symm⟩

/-- A lease that has expired at a reading has expired at the later ones. -/
def World.Steady (world : World) : Prop :=
  ∀ run, expiredAt (world.clock 0) run = true → world.Expires run

/-- The lease sweep fails the first expired runs, unless one of them cannot be
failed. -/
theorem alone_reapExpiredRuns (ready : world.Ready space) (steady : world.Steady) {limit : Int}
    (positive : 0 < limit) :
    (∃ life error, world.store.Shows space life ∧
      life.last ∈ (world.store.expiredRuns (world.clock 0)).take limit.toNat ∧
      life.ReapsTo world.tick (.error error) ∧
      (alone space (reapExpiredRuns (some limit)) world).1 = .error error) ∨
    ∃ moves after, alone space (reapExpiredRuns (some limit)) world =
        (.ok ((world.store.expiredRuns (world.clock 0)).take limit.toNat).length, after) ∧
      world.Sweeps space moves after ∧
      moves.Reaps space world.tick
        (((world.store.expiredRuns (world.clock 0)).take limit.toNat).map RunRow.id) := by
  let nowAt := world.clock 0
  let taken := (world.store.expiredRuns nowAt).take limit.toNat
  have sound := ready.sound
  have found : ∀ run ∈ world.store.expiredRuns nowAt, ∃ newest,
      world.store.findRun run.id = some newest ∧
        (.ok (expiredAt nowAt newest) : Except SqlError Bool) = .ok true := by
    intro run member
    obtain ⟨inRuns, expired⟩ := Queue.mem_expiredRuns.mp member
    exact ⟨run, find_of_mem sound.keyed.runs inRuns, by rw [expired]⟩
  obtain ⟨selected, isSelected, areFirst, areFound⟩ :=
    selectRuns_all found limit.toNat
  have ids : (selected.map fun pair => pair.2.id) = taken.map RunRow.id := by
    rw [show taken = selected.map Prod.fst from areFirst.symm, List.map_map]
    exact List.map_congr_left fun pair member => Queue.findRun_id (areFound pair member)
  have distinct : (taken.map RunRow.id).Nodup := by
    refine List.Nodup.sublist ((List.take_sublist _ _).map _) ?_
    refine ((List.perm_insertionSort _ _).map _).nodup_iff.mpr ?_
    exact sound.keyed.runs.sublist (List.filter_sublist.map _)
  have isLast : ∀ run ∈ taken, ∃ life : Life, world.store.Shows space life ∧ life.last = run ∧
      world.Expires run := by
    intro run member
    obtain ⟨inRuns, expired⟩ := Queue.mem_expiredRuns.mp (List.mem_of_mem_take member)
    obtain ⟨life, shows_, isRun⟩ := sound.shows_of_running inRuns (running_of_expiredAt expired)
    exact ⟨life, shows_, isRun, steady run expired⟩
  have expired : ∀ id ∈ taken.map RunRow.id, ∃ life, world.tick.store.Shows space life ∧
      life.last.id = id ∧ World.Expires world.tick life.last := by
    intro id member
    obtain ⟨run, inTaken, isId⟩ := List.mem_map.mp member
    obtain ⟨life, shows_, isRun, expires⟩ := isLast run inTaken
    subst isRun
    exact ⟨life, shows_, isId, expires.later (World.Later.tick world)⟩
  have begins : alone space (reapExpiredRuns (some limit)) world =
      alone space (reapEach (taken.map RunRow.id)) world.tick := by
    rw [reapExpiredRuns, alone_then (alone_currentTime world)]
    simp only [if_neg (not_le.mpr positive), alone_then (alone_snapshot world.tick)]
    have locked : alone space (lockRuns .skipLocked RunRow.id
        (fun _ run => .ok (expiredAt nowAt run)) (world.store.expiredRuns nowAt) limit.toNat)
          world.tick = (.ok selected, world.tick) :=
      (alone_lockRuns _ _ _ _ _ _).trans (congrArg (·, Session.tick world) isSelected)
    exact (alone_then locked _).trans (by rw [ids])
  rcases alone_reapEach ready.tick distinct expired with
    ⟨life, error, shows_, member, reaps, raised⟩ | ⟨moves, after, swept, sweeps, reaps⟩
  · refine Or.inl ⟨life, error, shows_, ?_, reaps, by rw [begins, raised]⟩
    obtain ⟨run, inTaken, isId⟩ := List.mem_map.mp member
    obtain ⟨other, showsOther, isRun, _⟩ := isLast run inTaken
    subst isRun
    have ticked : world.tick.store.Shows space other := showsOther
    rw [shows_.unique_of_run ticked life.last_mem_runs rfl other.last_mem_runs isId]
    exact inTaken
  · refine Or.inr ⟨moves, after, ?_, ⟨sweeps.ready, (World.Later.tick world).trans sweeps.later,
      sweeps.moved⟩, reaps⟩
    rw [begins, swept, List.length_map]

/-! ## What a sweep leaves for the next one -/

/-- The deadline of every open task evaluates at a time. -/
def Queue.Evaluates (space : Char → Bool) (queue : Queue) (time : Timestamp) : Prop :=
  ∀ life, queue.Shows space life → life.task.state.terminal = false →
    ∃ isDue, life.task.due (some time) = .ok isDue

/-- A choice of cancellations. -/
def Moves.Cancelling (space : Char → Bool) (queue : Queue) (moves : Moves) : Prop :=
  ∀ life, queue.Shows space life →
    moves life.task.id = Option.none ∨ ∃ nowAt, moves life.task.id = some (.cancel nowAt)

theorem Moves.Cancels.cancelling {queue : Queue} {ids : List Uuid} {moves : Moves}
    (cancels : moves.Cancels world ids) : moves.Cancelling space queue := by
  intro life _
  by_cases member : life.task.id ∈ ids
  · obtain ⟨position, chosen⟩ := cancels.chosen _ member
    exact Or.inr ⟨_, chosen⟩
  · exact Or.inl (cancels.others _ member)

/-- Cancellations leave the running runs of the other tasks. -/
theorem Queue.Moved.running_of_cancelling {before after : Queue} {moves : Moves}
    (moved : before.Moved space moves after) (sound : before.Sound space)
    (cancelling : moves.Cancelling space before) (shows_ : after.Shows space life)
    (running : life.last.state = .running) :
    before.Shows space life ∧ moves life.task.id = none := by
  obtain ⟨old, showsOld, isLife⟩ := moved.back sound shows_
  rcases cancelling old showsOld with stays | ⟨nowAt, cancels⟩
  · rw [Life.moved_of_none stays] at isLife
    exact ⟨isLife ▸ showsOld, isLife ▸ stays⟩
  · rw [isLife, Life.moved_of_some cancels] at running
    cases running

/-- The clock does not go back. -/
def World.Forward (world : World) : Prop := Monotone world.clock

theorem World.Forward.later {before after : World} (forward : before.Forward)
    (later : before.Later after) : after.Forward := by
  obtain ⟨readings, isClock⟩ := later.clock
  intro first second ordered
  rw [isClock, isClock]
  exact forward (Nat.add_le_add_left ordered readings)

theorem World.Forward.steady (forward : world.Forward) : world.Steady := by
  intro run expired position
  unfold expiredAt at expired ⊢
  cases isExpiry : run.claimExpiresAt with
  | none =>
      rw [isExpiry] at expired
      simp at expired
  | some expiry =>
      rw [isExpiry] at expired
      simp only [Bool.and_eq_true, decide_eq_true_eq] at expired ⊢
      exact ⟨expired.1, expired.2.trans (forward (Nat.zero_le position))⟩

end Steda
