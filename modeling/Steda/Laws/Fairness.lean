import Steda.Laws.Progress

/-!
# Waiting runs keep their turn

`claim_tasks` serves the runnable runs by availability.  Whatever becomes
available again does so at a later time, so no call puts a run ahead of one
that is already due.  Every claim that a due run's task name was offered to and
that did not return the run has taken its full quantity out of the runs ahead.
-/

namespace Steda

open Postgres Transaction Relational

variable {space : Char → Bool} {life : Life} {time : Timestamptz}

/-! ## Runs that wait since a time -/

/-- The last run of a life has been waiting since a time. -/
def Life.WaitsSince (life : Life) (time : Timestamptz) : Prop :=
  life.last.state.claimable = true ∧ life.last.availableAt ≤ time

/-- A transition decided after a time leaves no run that waits since then. -/
theorem Transition.not_waitsSince {transition : Transition}
    (enabled : transition.Enabled space life) (timely : transition.Timely life)
    (late : time < transition.stamp) : ¬(transition.after life).WaitsSince time := by
  rintro ⟨waiting, early⟩
  cases transition with
  | claim run worker nowAt expiresAt => cases waiting
  | complete run observedAt result => cases waiting
  | sleep run observedAt wakeAt => exact absurd (timely.2.2.2.trans_le early) (lt_asymm late)
  | renew run observedAt expiry =>
      have running : life.last.state.claimable = true := waiting
      rw [enabled.2] at running
      cases running
  | cancel nowAt => cases waiting
  | exhaust run observedAt reason => cases waiting
  | retry run observedAt reason newRun state availableAt =>
      have notBefore := Timestamptz.point_le_point.mpr timely.2.2.1
      exact absurd (notBefore.trans early) (not_le.mpr late)
  | abandon run observedAt reason nowAt => cases waiting
  | reopen newRun nowAt => exact absurd early (not_le.mpr late)

/-- An event decided after a time leaves no run that waits since then. -/
theorem Event.Acts.not_waitsSince {event : Event} {before : Option Life}
    (acts : event.Acts space True before (some life))
    (late : ∀ reading ∈ event.stamps, time < reading)
    (submitted : ∀ row run, event = .submitted row run → time < run.availableAt) :
    ¬life.WaitsSince time := by
  cases event with
  | submitted row run =>
      obtain ⟨_, isAfter, _⟩ := acts
      obtain rfl := Option.some.inj isAfter
      exact fun waits => absurd waits.2 (not_le.mpr (submitted row run rfl))
  | moved task transition =>
      obtain ⟨earlier, _, enabled, timely, isAfter⟩ := acts
      obtain rfl := Option.some.inj isAfter
      exact transition.not_waitsSince enabled (timely trivial)
        (late transition.stamp (List.mem_singleton_self _))
  | recorded checkpoint run observedAt =>
      obtain ⟨earlier, isBefore, running, _, _, isAfter⟩ := acts
      obtain rfl := Option.some.inj (isAfter.trans isBefore)
      intro waits
      have claimable := waits.1
      rw [running.2] at claimable
      cases claimable
  | deleted task => cases acts.2

/-- A run that waits since a time was waiting before all later events. -/
theorem Evolves.waited {task : Uuid} {events : List Event} {first : Option Life}
    (evolves : Evolves space True task events first (some life))
    (late : ∀ event ∈ events, ∀ reading ∈ event.stamps, time < reading)
    (submitted : ∀ row run, .submitted row run ∈ events → time < run.availableAt)
    (waits : life.WaitsSince time) : first = some life := by
  induction events using List.reverseRecOn with
  | nil => exact evolves.symm
  | append_singleton events event inductionHypothesis =>
      have isLast : event ∈ events ++ [event] := List.mem_append_right _ (List.mem_singleton_self _)
      rw [evolves_concat] at evolves
      by_cases own : event.task = task
      · rw [if_pos own] at evolves
        obtain ⟨_, _, acts⟩ := evolves
        refine absurd waits (acts.not_waitsSince (late event isLast) ?_)
        rintro row run rfl
        exact submitted row run isLast
      · rw [if_neg own] at evolves
        exact inductionHypothesis evolves
          (fun other member => late other (List.mem_append_left _ member))
          (fun row run member => submitted row run (List.mem_append_left _ member))

/-! ## Calls after a time -/

theorem Served.later {before after : World} {call : Call} (served : Served space before call after)
    (sound : before.store.Sound space) : before.Later after := by
  obtain ⟨readings, drawn, _, _, advances⟩ := served.advances sound
  exact ⟨⟨_, advances.clock⟩, ⟨_, advances.idents⟩⟩

/-- Whatever waits since a time in a later world waited in the earlier one. -/
structure World.Since (space : Char → Bool) (time : Timestamptz) (before after : World) : Prop where
  sound : after.store.Sound space
  late : ∀ position, time < after.clock position
  later : before.Later after
  waited : ∀ life, after.store.Shows space life → life.WaitsSince time →
    before.store.Shows space life

namespace World.Since

variable {before middle after : World}

theorem refl (sound : before.store.Sound space) (late : ∀ position, time < before.clock position) :
    World.Since space time before before :=
  ⟨sound, late, World.Later.refl before, fun _ shows_ _ => shows_⟩

theorem tick (sound : before.store.Sound space) (late : ∀ position, time < before.clock position) :
    World.Since space time before (Session.tick before) :=
  ⟨sound, fun position => late (position + 1), World.Later.tick before, fun _ shows_ _ => shows_⟩

theorem trans (early : World.Since space time before middle)
    (late : World.Since space time middle after) : World.Since space time before after :=
  ⟨late.sound, late.late, early.later.trans late.later,
    fun life shows_ waits => early.waited life (late.waited life shows_ waits) waits⟩

end World.Since

/-- A call after a time lets nothing new wait since then. -/
theorem Served.since {before after : World} {call : Call} (served : Served space before call after)
    (sound : before.store.Sound space) (late : ∀ position, time < before.clock position) :
    World.Since space time before after := by
  obtain ⟨readings, drawn, events, caused, advances⟩ := served.advances sound
  have isLate : ∀ event ∈ events, ∀ reading ∈ event.stamps, time < reading := by
    intro event member reading stamp
    have read := advances.stamped event member reading stamp
    rw [advances.consumed] at read
    obtain ⟨position, _, rfl⟩ := List.mem_map.mp read
    exact late position
  refine ⟨advances.sound, fun position => advances.clock position ▸ late _,
    ⟨⟨_, advances.clock⟩, ⟨_, advances.idents⟩⟩, ?_⟩
  intro life shows_ waits
  obtain ⟨first, last, firstRows, lastRows, evolves⟩ := advances.evolves life.task.id
  obtain rfl := Life.rows_injective (lastRows.symm.trans shows_.rows)
  have submitted : ∀ row run, .submitted row run ∈ events → time < run.availableAt := by
    intro row run member
    have available : run.availableAt = row.enqueueAt := Call.Caused.submitted_at caused member
    rw [available]
    exact isLate _ member _ (List.mem_singleton_self _)
  have same := evolves.waited isLate submitted waits
  exact sound.shows_of_rows (same ▸ firstRows)

/-- Calls after a time let nothing new wait since then. -/
theorem Trace.since {before after : World} {calls : List Call}
    (trace : Trace (Served space) before calls after) (sound : before.store.Sound space)
    (late : ∀ position, time < before.clock position) : World.Since space time before after := by
  induction trace with
  | nil => exact .refl sound late
  | cons served _ inductionHypothesis =>
      have since := served.since sound late
      exact since.trans (inductionHypothesis since.sound since.late)

/-! ## Runs ahead -/

/-- The waiting runs that a claim serves before another run. -/
def Queue.ahead (queue : Queue) (run : RunRow) : List RunRow :=
  queue.runs.filter fun other =>
    other.state.claimable && other.id != run.id && decide (availabilityOrder other run)

theorem Queue.mem_ahead {queue : Queue} {run other : RunRow} : other ∈ queue.ahead run ↔
    other ∈ queue.runs ∧ other.state.claimable = true ∧ other.id ≠ run.id ∧
      availabilityOrder other run := by
  simp [Queue.ahead, and_assoc]

theorem availableAt_le_of_order {left right : RunRow} (ordered : availabilityOrder left right) :
    left.availableAt ≤ right.availableAt := by
  rcases ordered with earlier | ⟨same, _⟩
  · exact earlier.le
  · exact same.le

/-- A waiting run is the last one of its life. -/
theorem Queue.Sound.shows_waiting {queue : Queue} (sound : queue.Sound space) {run : RunRow}
    (member : run ∈ queue.runs) (waiting : run.state.claimable = true) :
    ∃ life : Life, queue.Shows space life ∧ life.last = run := by
  obtain ⟨life, valid, rows, inRuns⟩ := sound.life_of_run member
  have isLast := (valid.active_run inRuns (State.active_of_claimable waiting)).1
  exact ⟨life, sound.shows_of_rows rows, isLast.symm⟩

/-- Nothing gets ahead of a run that is due. -/
theorem World.Since.ahead_subset {before after : World} {run : RunRow}
    (since : World.Since space run.availableAt before after) :
    after.store.ahead run ⊆ before.store.ahead run := by
  intro other member
  obtain ⟨present, waiting, different, ordered⟩ := Queue.mem_ahead.mp member
  obtain ⟨life, shows_, rfl⟩ := since.sound.shows_waiting present waiting
  have earlier := since.waited life shows_ ⟨waiting, availableAt_le_of_order ordered⟩
  exact Queue.mem_ahead.mpr ⟨mem_of_find (earlier.findRun life.last_mem_runs), waiting, different,
    ordered⟩

/-- A run that waits since a time still is the last one of its life. -/
theorem World.Since.shows_waiting {before after : World}
    (since : World.Since space time before after) (shows_ : before.store.Shows space life)
    (waits : life.WaitsSince time)
    (member : life.last ∈ after.store.runs) : after.store.Shows space life := by
  obtain ⟨other, showsOther, isLast⟩ := since.sound.shows_waiting member waits.1
  have earlier := since.waited other showsOther ⟨isLast ▸ waits.1, isLast ▸ waits.2⟩
  have same := shows_.unique_of_run earlier life.last_mem_runs rfl other.last_mem_runs
    (congrArg RunRow.id isLast)
  exact same ▸ showsOther

/-! ## One claim -/

/-- A deadline that has not come had not come before. -/
theorem TaskRow.due_earlier {task : TaskRow} {early late : Timestamp} (ordered : early ≤ late)
    (notDue : task.due (some late) = .ok false) : task.due (some early) = .ok false := by
  have earlier : ∀ (bound : Option Int) (since : Timestamp),
      elapsed bound since (some late) = false → elapsed bound since (some early) = false := by
    intro bound since
    cases bound with
    | none => exact fun _ => rfl
    | some bound =>
        simp only [elapsed, decide_eq_false_iff_not]
        intro notElapsed isElapsed
        exact notElapsed (isElapsed.trans (Int.sub_le_sub_right ordered since))
  unfold TaskRow.due cancellationDue at notDue ⊢
  cases policy : task.cancellation with
  | none => rfl
  | some policy =>
      rw [policy] at notDue
      cases started : task.firstStartedAt with
      | none =>
          rw [started] at notDue
          obtain ⟨bound, isBound, notElapsed⟩ := except_bind_ok.mp notDue
          exact except_bind_ok.mpr ⟨bound, isBound,
            congrArg Except.ok (earlier bound _ (Except.ok.inj notElapsed))⟩
      | some startedAt =>
          rw [started] at notDue
          obtain ⟨bound, isBound, notElapsed⟩ := except_bind_ok.mp notDue
          exact except_bind_ok.mpr ⟨bound, isBound,
            congrArg Except.ok (earlier bound _ (Except.ok.inj notElapsed))⟩

/-- A run that still waits after a claim was not taken. -/
theorem Queue.mem_claimed_waiting {queue : Queue} {workerId : String} {nowAt expiresAt : Timestamp}
    {taken : List RunRow} {run : RunRow}
    (member : run ∈ (queue.claimed workerId nowAt expiresAt taken).runs)
    (waiting : run.state.claimable = true) : run ∈ queue.runs ∧ run.id ∉ taken.map RunRow.id := by
  obtain ⟨old, isOld, rfl⟩ := List.mem_map.mp member
  by_cases isTaken : old.id ∈ taken.map RunRow.id
  · rw [if_pos isTaken] at waiting
    cases waiting
  · rw [if_neg isTaken]
    exact ⟨isOld, isTaken⟩

/-- The first rows of a sorted list without a row of the list are as many as
asked for, and they all come before the row. -/
theorem take_without {α : Type} {order : α → α → Prop} {rows : List α}
    (sorted : rows.Pairwise order) {row : α} (member : row ∈ rows) {limit : Nat}
    (left : row ∉ rows.take limit) :
    (rows.take limit).length = limit ∧ ∀ other ∈ rows.take limit, order other row := by
  have inRest : row ∈ rows.drop limit := by
    rw [← List.take_append_drop limit rows] at member
    exact (List.mem_append.mp member).resolve_left left
  refine ⟨List.length_take_of_le ?_, ?_⟩
  · by_contra short
    rw [List.drop_of_length_le (not_le.mp short).le] at inRest
    cases inRest
  · rw [← List.take_append_drop limit rows] at sorted
    exact fun other isTaken => (List.pairwise_append.mp sorted).2.2 other isTaken row inRest

/-- The runnable runs a claim takes when it leaves a due one waiting are as many
as it asks for, and they were ahead. -/
theorem Queue.taken_ahead {queue : Queue} {nowAt : Timestamp} {names : List String} {run : RunRow}
    {limit : Nat} (keyed : queue.Keyed) (isRunnable : run ∈ queue.runnableRuns nowAt names)
    (untaken : run.id ∉ ((queue.runnableRuns nowAt names).take limit).map RunRow.id) :
    ((queue.runnableRuns nowAt names).take limit).length = limit ∧
      ((queue.runnableRuns nowAt names).take limit).Nodup ∧
      (queue.runnableRuns nowAt names).take limit ⊆ queue.ahead run := by
  obtain ⟨full, ordered⟩ := take_without (List.pairwise_insertionSort availabilityOrder _)
    isRunnable fun member => untaken (List.mem_map_of_mem member)
  refine ⟨full, (List.Nodup.of_map _ (keyed.runnableRuns_nodup nowAt names)).sublist
    (List.take_sublist _ _), ?_⟩
  intro other isTaken
  obtain ⟨present, runnable⟩ := mem_runnableRuns.mp (List.mem_of_mem_take isTaken)
  exact mem_ahead.mpr ⟨present, (Bool.and_eq_true_iff.mp runnable).1,
    fun same => untaken (same ▸ List.mem_map_of_mem isTaken), ordered other isTaken⟩

/-- A claim that leaves a due run of its task names waiting takes its full
quantity out of the runs ahead. -/
theorem Served.ahead_claimed {before after : World} {workerId : Option String}
    {leaseSeconds quantity : Option Int} {taskNames : Option (List (Option String))}
    {rows : List ClaimedTask} {request : ClaimRequest}
    (served : Served space before
      ⟨.claimTasks workerId leaseSeconds quantity taskNames, .ok rows⟩ after)
    (validated : validateClaim space workerId leaseSeconds quantity taskNames = .ok request)
    (ready : before.Ready space) (forward : before.Forward) (usable : before.store.AllUsable)
    (bounded : before.store.Bounded) (shows_ : after.store.Shows space life)
    (waiting : life.last.state.claimable = true)
    (late : ∀ position, life.last.availableAt < before.clock position)
    (notDue : life.task.due (some (after.clock 0)) = .ok false)
    (capable : request.taskNames.contains life.task.name = true) :
    rows.length = request.quantity.toNat ∧
      rows.map ClaimedTask.runId ⊆ (before.store.ahead life.last).map RunRow.id ∧
      request.quantity.toNat + (after.store.ahead life.last).length ≤
        (before.store.ahead life.last).length := by
  obtain ⟨swept, ⟨cancelled, middle, reaped, isCancelled, isReaped⟩, performed, isTaken, _⟩ :=
    World.claims_exactly ready forward usable bounded validated
  have isAfter : after = _ := (Prod.mk.inj (served.symm.trans performed)).2
  have isRows := Except.ok.inj (Prod.mk.inj (served.symm.trans performed)).1
  rw [← isRows] at isTaken
  have sinceTick := World.Since.tick ready.sound late
  have cancels : Served space (Session.tick before)
      ⟨.cancelExpiredTasks (some request.quantity), .ok cancelled⟩ middle :=
    Operation.perform_returned sinceTick.sound isCancelled
  have sinceMiddle := sinceTick.trans (cancels.since sinceTick.sound sinceTick.late)
  have reaps : Served space middle ⟨.reapExpiredRuns (some request.quantity), .ok reaped⟩ swept :=
    Operation.perform_returned sinceMiddle.sound isReaped
  have sinceSwept := sinceMiddle.trans (reaps.since sinceMiddle.sound sinceMiddle.late)
  have sinceAfter := served.since ready.sound late
  have inAfter := mem_of_find (shows_.findRun life.last_mem_runs)
  rw [isAfter] at inAfter
  obtain ⟨inSwept, untaken⟩ := Queue.mem_claimed_waiting inAfter waiting
  have showsSwept := sinceSwept.shows_waiting (sinceAfter.waited life shows_ ⟨waiting, le_rfl⟩)
    ⟨waiting, le_rfl⟩ inSwept
  have notDueAt : life.task.due (some (swept.clock 0)) = .ok false := by
    refine life.task.due_earlier ?_ notDue
    rw [isAfter]
    exact (forward.later sinceSwept.later) (Nat.zero_le 1)
  have isRunnable := Queue.mem_runnableRuns.mpr
    ⟨inSwept, showsSwept.runnable waiting (sinceSwept.late 0).le notDueAt capable⟩
  obtain ⟨full, distinct, taken⟩ := Queue.taken_ahead sinceSwept.sound.keyed isRunnable untaken
  have apart : ((swept.store.runnableRuns (swept.clock 0) request.taskNames).take
      request.quantity.toNat).Disjoint (after.store.ahead life.last) := by
    intro other member isAhead
    obtain ⟨present, waits, _⟩ := Queue.mem_ahead.mp isAhead
    rw [isAfter] at present
    exact (Queue.mem_claimed_waiting present waits).2 (List.mem_map_of_mem member)
  have takenBefore := List.Subset.trans taken sinceSwept.ahead_subset
  have both := distinct.append ((List.Nodup.of_map _ sinceAfter.sound.keyed.runs).filter _) apart
  have subset := List.append_subset.mpr ⟨takenBefore, sinceAfter.ahead_subset⟩
  have counted := (List.subperm_of_subset both subset).length_le
  have sameLength := congrArg List.length isTaken
  rw [List.length_map, List.length_map, full] at sameLength
  refine ⟨sameLength, ?_, ?_⟩
  · rw [isTaken]
    exact List.map_subset _ takenBefore
  · rwa [List.length_append, full] at counted

/-! ## Any number of calls -/

/-- How many runs a claim that returned has asked for, if it is made for a task
name. -/
def Call.offered (name : String) : Call → Nat
  | ⟨.claimTasks _ _ (some quantity) (some names), .ok _⟩ =>
      if some name ∈ names then quantity.toNat else 0
  | _ => 0

/-- A claim that returned was validated as it was made. -/
theorem Served.validated_claim {before after : World} {workerId : Option String}
    {leaseSeconds quantity : Option Int} {taskNames : Option (List (Option String))}
    {rows : List ClaimedTask}
    (served : Served space before
      ⟨.claimTasks workerId leaseSeconds quantity taskNames, .ok rows⟩ after)
    (sound : before.store.Sound space) :
    ∃ request, validateClaim space workerId leaseSeconds quantity taskNames = .ok request := by
  obtain ⟨_, _, _, caused, _⟩ := served.advances sound
  obtain ⟨request, _, _, _, validated, _⟩ := caused
  exact ⟨request, validated⟩

/-- A claim that was offered the task name of a due run and left it waiting has
taken its full quantity, all of it ahead of the run. -/
theorem Served.ahead_taken {before after : World} {workerId : Option String}
    {leaseSeconds : Option Int} {quantity : Int} {names : List (Option String)}
    {rows : List ClaimedTask}
    (served : Served space before
      ⟨.claimTasks workerId leaseSeconds (some quantity) (some names), .ok rows⟩ after)
    (ready : before.Ready space) (forward : before.Forward) (usable : before.store.AllUsable)
    (bounded : before.store.Bounded) (shows_ : after.store.Shows space life)
    (waiting : life.last.state.claimable = true)
    (late : ∀ position, life.last.availableAt < before.clock position)
    (notDue : life.task.due (some (after.clock 0)) = .ok false)
    (offered : some life.task.name ∈ names) :
    (rows.length : Int) = quantity ∧
      rows.map ClaimedTask.runId ⊆ (before.store.ahead life.last).map RunRow.id ∧
      quantity.toNat + (after.store.ahead life.last).length ≤
        (before.store.ahead life.last).length := by
  obtain ⟨request, validated⟩ := served.validated_claim ready.sound
  obtain ⟨_, isQuantity, positive, areNames⟩ := validateClaim_ok validated
  have capable : request.taskNames.contains life.task.name = true := by
    rw [← Option.some.inj areNames, List.contains_iff_mem, List.mem_filterMap]
    exact ⟨_, offered, rfl⟩
  obtain rfl := Option.some.inj isQuantity
  obtain ⟨full, taken, counted⟩ := served.ahead_claimed validated ready forward usable bounded
    shows_ waiting late notDue capable
  refine ⟨?_, taken, counted⟩
  rw [full]
  exact Int.toNat_of_nonneg positive.le

/-- A call that leaves a due run waiting shortens the runs ahead by what it asks
for. -/
theorem Served.ahead_offered {before after : World} {call : Call}
    (served : Served space before call after) (ready : before.Ready space)
    (forward : before.Forward) (usable : before.store.AllUsable) (bounded : before.store.Bounded)
    (shows_ : after.store.Shows space life) (waiting : life.last.state.claimable = true)
    (due : life.last.availableAt < before.clock 0)
    (notDue : life.task.due (some (after.clock 0)) = .ok false) :
    call.offered life.task.name + (after.store.ahead life.last).length ≤
      (before.store.ahead life.last).length := by
  have late : ∀ position, life.last.availableAt < before.clock position :=
    fun position => due.trans_le (forward (Nat.zero_le position))
  have since := served.since ready.sound late
  have shrinks : (after.store.ahead life.last).length ≤ (before.store.ahead life.last).length :=
    (List.subperm_of_subset ((List.Nodup.of_map _ since.sound.keyed.runs).filter _)
      since.ahead_subset).length_le
  unfold Call.offered
  split
  · next workerId leaseSeconds quantity names rows =>
      split
      · next offered =>
          exact (served.ahead_taken ready forward usable bounded shows_ waiting late notDue
            offered).2.2
      · rwa [Nat.zero_add]
  · rwa [Nat.zero_add]

/-- A call of a history whose running attempts can all be followed by another. -/
def ServedBounded (space : Char → Bool) (before : World) (call : Call) (after : World) : Prop :=
  Served space before call after ∧ before.store.Bounded

/-- A due run that waits at the end waits after the next call, with its deadline
to come. -/
theorem ServedBounded.waits {initial before between final : World} {past rest : List Call}
    {call : Call} (head : ServedBounded space before call between)
    (trace : Trace (ServedBounded space) between rest final)
    (history : History space initial past before) (forward : before.Forward)
    (shows_ : final.store.Shows space life) (waiting : life.last.state.claimable = true)
    (due : life.last.availableAt < before.clock 0)
    (notDue : life.task.due (some (final.clock 0)) = .ok false) :
    between.Forward ∧ life.last.availableAt < between.clock 0 ∧
      between.store.Shows space life ∧ life.task.due (some (between.clock 0)) = .ok false := by
  have since := head.1.since history.sound fun position =>
    due.trans_le (forward (Nat.zero_le position))
  have forwardLater := forward.later since.later
  have remaining := Trace.since (trace.mono fun _ _ _ step => step.1) since.sound since.late
  refine ⟨forwardLater, since.late 0, remaining.waited life shows_ ⟨waiting, le_rfl⟩, ?_⟩
  refine life.task.due_earlier ?_ notDue
  obtain ⟨readings, isClock⟩ := remaining.later.clock
  rw [isClock]
  exact forwardLater (Nat.zero_le _)

/-- Along a history the calls that leave a due run waiting shorten the runs ahead
by all they ask for. -/
theorem Trace.ahead_offered {initial middle final : World} {past later : List Call}
    (trace : Trace (ServedBounded space) middle later final)
    (history : History space initial past middle)
    (literal : ∀ call ∈ past ++ later, call.SubmitsLiteral space) (forward : middle.Forward)
    (shows_ : final.store.Shows space life) (waiting : life.last.state.claimable = true)
    (due : life.last.availableAt < middle.clock 0)
    (notDue : life.task.due (some (final.clock 0)) = .ok false) :
    (later.map (Call.offered life.task.name)).sum + (final.store.ahead life.last).length ≤
      (middle.store.ahead life.last).length := by
  induction trace generalizing past with
  | nil => simp
  | cons head rest inductionHypothesis =>
      next before between final call calls =>
      obtain ⟨forwardLater, dueLater, showsLater, notYet⟩ :=
        head.waits rest history forward shows_ waiting due notDue
      have afterRest := inductionHypothesis (history.append (.cons head.1 (.nil _)))
        (by simpa using literal) forwardLater shows_ dueLater notDue
      have step := head.1.ahead_offered history.ready forward
        (history.allUsable fun call member => literal call (List.mem_append_left _ member)) head.2
        showsLater waiting due notYet
      rw [List.map_cons, List.sum_cons]
      omega

/-- Along a history every claim that is offered the task name of a due run and
leaves it waiting takes its full quantity from the runs that were ahead. -/
theorem Trace.ahead_taken {initial middle final : World} {past later : List Call}
    (trace : Trace (ServedBounded space) middle later final)
    (history : History space initial past middle)
    (literal : ∀ call ∈ past ++ later, call.SubmitsLiteral space) (forward : middle.Forward)
    (shows_ : final.store.Shows space life) (waiting : life.last.state.claimable = true)
    (due : life.last.availableAt < middle.clock 0)
    (notDue : life.task.due (some (final.clock 0)) = .ok false) {workerId : Option String}
    {leaseSeconds : Option Int} {quantity : Int} {names : List (Option String)}
    {rows : List ClaimedTask}
    (claimed : ⟨.claimTasks workerId leaseSeconds (some quantity) (some names), .ok rows⟩ ∈ later)
    (offered : some life.task.name ∈ names) :
    (rows.length : Int) = quantity ∧
      rows.map ClaimedTask.runId ⊆ (middle.store.ahead life.last).map RunRow.id := by
  induction trace generalizing past with
  | nil => cases claimed
  | cons head rest inductionHypothesis =>
      next before between final call calls =>
      obtain ⟨forwardLater, dueLater, showsLater, notYet⟩ :=
        head.waits rest history forward shows_ waiting due notDue
      have late : ∀ position, life.last.availableAt < before.clock position :=
        fun position => due.trans_le (forward (Nat.zero_le position))
      rcases List.mem_cons.mp claimed with isFirst | inRest
      · subst isFirst
        obtain ⟨full, taken, _⟩ := head.1.ahead_taken history.ready forward
          (history.allUsable fun call member => literal call (List.mem_append_left _ member)) head.2
          showsLater waiting late notYet offered
        exact ⟨full, taken⟩
      · obtain ⟨full, taken⟩ := inductionHypothesis (history.append (.cons head.1 (.nil _)))
          (by simpa using literal) forwardLater shows_ dueLater notDue inRest
        have since := head.1.since history.sound late
        exact ⟨full, List.Subset.trans taken (List.map_subset _ since.ahead_subset)⟩

/-! ## The law -/

/-- A run that is due and still waits at the end of a history has been waiting
all the time and nobody got ahead of it.  Every claim made for its task name
since then has taken its full quantity from the runs ahead, and together the
claims have asked for no more runs than were ahead of it. -/
theorem History.keepsTurns {initial middle final : World} {past later : List Call}
    (history : History space initial past middle)
    (trace : Trace (ServedBounded space) middle later final)
    (literal : ∀ call ∈ past ++ later, call.SubmitsLiteral space) (forward : middle.Forward)
    {run : RunRow} {task : TaskRow} (waits : run ∈ final.store.runs)
    (waiting : run.state.claimable = true) (due : run.availableAt < middle.clock 0)
    (owner : final.store.findTask run.taskId = some task)
    (notDue : task.due (some (final.clock 0)) = .ok false) :
    run ∈ middle.store.runs ∧ final.store.ahead run ⊆ middle.store.ahead run ∧
      (∀ workerId leaseSeconds quantity names rows,
        (⟨.claimTasks workerId leaseSeconds (some quantity) (some names), .ok rows⟩ : Call) ∈ later →
          some task.name ∈ names → (rows.length : Int) = quantity ∧
            rows.map ClaimedTask.runId ⊆ (middle.store.ahead run).map RunRow.id) ∧
      (later.map (Call.offered task.name)).sum + (final.store.ahead run).length ≤
        (middle.store.ahead run).length := by
  have since := Trace.since (trace.mono fun _ _ _ step => step.1) history.sound
    fun position => due.trans_le (forward (Nat.zero_le position))
  obtain ⟨life, shows_, rfl⟩ := since.sound.shows_waiting waits waiting
  have isTask := Option.some.inj (owner.symm.trans (shows_.owner life.last_mem_runs))
  subst isTask
  refine ⟨mem_of_find ((since.waited life shows_ ⟨waiting, le_rfl⟩).findRun life.last_mem_runs),
    since.ahead_subset, ?_, Trace.ahead_offered trace history literal forward shows_ waiting due
      notDue⟩
  intro workerId leaseSeconds quantity names rows claimed offered
  exact Trace.ahead_taken trace history literal forward shows_ waiting due notDue claimed offered

/-- Of two submitted tasks the first is claimed, and the second was right behind
it. -/
theorem History.keepsTurns_second :
    let middle := (World.serve asciiSpace [plainSubmission [], plainSubmission []]
      (.blank second)).2
    let final := ((plainClaim "worker").perform asciiSpace middle).2
    ∃ run ∈ final.store.runs, run ∈ middle.store.runs ∧
      final.store.ahead run ⊆ middle.store.ahead run ∧
      1 + (final.store.ahead run).length ≤ (middle.store.ahead run).length := by
  intro middle final
  have readings : middle.clock = fun position => ((position + 2 : Nat) : Int) * second := rfl
  have claimed : ServedBounded asciiSpace middle
      ⟨plainClaim "worker", ((plainClaim "worker").perform asciiSpace middle).1⟩ final := by
    refine ⟨rfl, ?_⟩
    intro run member running
    rcases List.mem_pair.mp (show run ∈ [_, _] from member) with rfl | rfl
    · cases running
    · cases running
  have waits : ∃ run ∈ final.store.runs, run.state.claimable = true ∧
      run.availableAt < middle.clock 0 ∧ (final.store.findTask run.taskId).any (fun task =>
        task.name == "report" && task.cancellation.isNone) = true :=
    ⟨final.store.runs.get ⟨1, by decide⟩, List.get_mem _ _, by decide, by decide, by decide⟩
  obtain ⟨run, isRun, waiting, due, owned⟩ := waits
  obtain ⟨task, owner, plain⟩ := (Option.any_eq_true _ _).mp owned
  simp only [Bool.and_eq_true, beq_iff_eq, Option.isNone_iff_eq_none] at plain
  have notDue : task.due (some (final.clock 0)) = .ok false := by
    rw [TaskRow.due, plain.2]
    rfl
  have offered : Call.offered task.name
      ⟨plainClaim "worker", ((plainClaim "worker").perform asciiSpace middle).1⟩ = 1 := by
    rw [plain.1]
    decide
  have turns := History.keepsTurns (World.history_serve _ second) (.cons claimed (.nil _)) ?_ ?_
    isRun waiting due owner notDue
  · rw [List.map_singleton, List.sum_singleton, offered] at turns
    exact ⟨run, isRun, turns.1, turns.2.1, turns.2.2.2⟩
  · intro call member taskName params options submission policy isSpawn accepted isPolicy
    rcases List.mem_append.mp member with inPast | inLater
    · rcases List.mem_pair.mp (show call ∈ [_, _] from inPast) with rfl | rfl <;>
        (cases isSpawn; cases accepted; cases isPolicy)
    · rw [List.mem_singleton.mp inLater] at isSpawn
      cases isSpawn
  · intro earlier later ordered
    rw [readings]
    exact mul_le_mul_of_nonneg_right (by exact_mod_cast Nat.add_le_add_right ordered 2) (by decide)

end Steda
