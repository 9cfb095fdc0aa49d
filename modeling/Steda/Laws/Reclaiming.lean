import Steda.Laws.Finality
import Steda.Serial.Moves

/-!
# Claims of a run

A run is claimed when it is pending or sleeping, which leaves it running.  Only
a suspension makes it claimable again.
-/

namespace Steda

open Postgres Transaction Relational

variable {space : Char → Bool} {life : Life} {runId : Uuid}

/-! ## Claims among the events -/

/-- A run that exists is introduced by no later event. -/
theorem History.run_not_named_again {initial middle final : World} {past : List Call}
    (history : History space initial past middle) {readings : List Timestamp} {drawn : List Uuid}
    {events : List Event} (advances : Advances space middle readings drawn events final)
    {task : Uuid} {life : Life} (rows : middle.store.rowsOf task = Life.rows (some life))
    {run : RunRow} (member : run ∈ life.runs) : run.id ∉ events.flatMap Event.names := by
  obtain ⟨_, _, chunks, _, early⟩ := history.advances
  have fresh := (early.trans advances).names_nodup history.fresh
  rw [List.flatMap_append, List.nodup_append] at fresh
  obtain ⟨last, lastRows, evolves⟩ := early.evolves_to (history.initial_rows task)
  have isLife : last = some life := Life.rows_injective (lastRows.symm.trans rows)
  subst isLife
  exact fun again => fresh.2.2 run.id (evolves.runs_named run member) run.id again rfl

/-- Around a transition of a task. -/
theorem Evolves.at_moved {timely : Prop} {task : Uuid} {events more : List Event}
    {transition : Transition} {first last : Option Life}
    (evolves : Evolves space timely task (events ++ .moved task transition :: more) first last) :
    ∃ before, Evolves space timely task events first (some before) ∧
      transition.Enabled space before ∧ (timely → transition.Timely before) ∧
      Evolves space timely task more (some (transition.after before)) last := by
  obtain ⟨between, early, late⟩ := evolves_append.mp evolves
  have own : (Event.moved task transition).task = task := rfl
  rw [Evolves, if_pos own] at late
  obtain ⟨_, ⟨before, isBefore, enabled, timely, isAfter⟩, rest⟩ := late
  subst isBefore isAfter
  exact ⟨before, early, enabled, timely, rest⟩

/-- A claim of a run that exists is a claim of its task. -/
theorem History.owner_of_claim {initial middle final : World} {past : List Call}
    (history : History space initial past middle) {readings : List Timestamp} {drawn : List Uuid}
    {events : List Event} (advances : Advances space middle readings drawn events final)
    (shows_ : middle.store.Shows space life) (isLast : life.last.id = runId) {task : Uuid}
    {worker : String} {nowAt expiresAt : Timestamp}
    (member : .moved task (.claim runId worker nowAt expiresAt) ∈ events) :
    task = life.task.id := by
  obtain ⟨early, late, isEvents⟩ := List.append_of_mem member
  subst isEvents
  obtain ⟨first, last, firstRows, _, evolves⟩ := advances.evolves task
  obtain ⟨before, earlyEvolves, enabled, _, _⟩ := evolves.at_moved
  have sameRun : before.last.id = life.last.id := enabled.1.trans isLast.symm
  rcases earlyEvolves.runs_introduced before.last before.last_mem_runs with
    ⟨old, isOld, run, inOld, sameId⟩ | named
  · rw [Option.mem_def.mp isOld] at firstRows
    obtain ⟨valid, owner⟩ := history.sound.life_of_rows firstRows
    have shown := history.sound.shows_of_rows firstRows
    have found := shown.findRun inOld
    rw [sameId, sameRun, shows_.findRun life.last_mem_runs] at found
    have same : life.last = run := Option.some.inj found
    rw [← owner, ← valid.owned run inOld, ← same, shows_.valid.owned _ life.last_mem_runs]
  · refine absurd ?_ (history.run_not_named_again advances shows_.rows life.last_mem_runs)
    rw [List.flatMap_append, ← sameRun]
    exact List.mem_append_left _ named

/-- The claims of a call come last and share one reading of the clock. -/
theorem Call.Caused.claims_last {call : Call} {events : List Event}
    (caused : call.Caused space events) {task : Uuid} {worker : String}
    {nowAt expiresAt : Timestamp}
    (member : .moved task (.claim runId worker nowAt expiresAt) ∈ events) :
    ∃ sweeps claims, events = sweeps ++ claims ∧
      .moved task (.claim runId worker nowAt expiresAt) ∈ claims ∧
      (∀ event ∈ sweeps, event.Sweeps) ∧
      ∀ event ∈ claims, ∃ task run worker expiresAt,
        event = .moved task (.claim run worker nowAt expiresAt) := by
  obtain ⟨operation, outcome⟩ := call
  cases outcome with
  | error error =>
      rw [show events = [] from caused] at member
      cases member
  | ok result =>
      change operation.Caused space result events at caused
      by_cases isClaim : ∃ workerId leaseSeconds quantity taskNames,
          operation = .claimTasks workerId leaseSeconds quantity taskNames
      · obtain ⟨workerId, leaseSeconds, quantity, taskNames, isOperation⟩ := isClaim
        subst isOperation
        obtain ⟨arguments, stamp, sweeps, selected, _, _, _, areSweeps, _, _, isEvents⟩ := caused
        subst isEvents
        have inClaims := (List.mem_append.mp member).resolve_left fun inSweeps =>
          (areSweeps _ inSweeps).not_claims ⟨worker, nowAt, expiresAt, rfl⟩
        refine ⟨sweeps, _, rfl, inClaims, areSweeps, ?_⟩
        obtain ⟨row, _, isRow⟩ := List.mem_map.mp inClaims
        cases isRow
        intro event isEvent
        obtain ⟨other, _, rfl⟩ := List.mem_map.mp isEvent
        exact ⟨_, _, _, _, rfl⟩
      · refine absurd ⟨worker, nowAt, expiresAt, rfl⟩ (caused.not_claims ?_ _ member)
        exact fun _ _ _ _ equal => isClaim ⟨_, _, _, _, equal⟩

/-- A claimed run stays as the claim left it while only claims happen. -/
theorem Transition.claimed_after {transition : Transition} {nowAt : Timestamp}
    (claimed : life.last.id = runId ∧ life.last.state = .running ∧ life.last.availableAt = nowAt)
    (enabled : transition.Enabled space life)
    (claims : ∃ run worker now expiresAt, transition = .claim run worker now expiresAt) :
    (transition.after life).last.id = runId ∧ (transition.after life).last.state = .running ∧
      (transition.after life).last.availableAt = nowAt := by
  obtain ⟨run, worker, now, expiresAt, isClaim⟩ := claims
  subst isClaim
  obtain ⟨_, waiting, _⟩ := enabled
  rw [claimed.2.1] at waiting
  cases waiting

/-- A claim leaves the run it claims running and available at its reading of
the clock. -/
theorem Evolves.claimed_last {task : Uuid} {sweeps claims : List Event} {first last : Option Life}
    (evolves : Evolves space True task (sweeps ++ claims) first last)
    (lives : Lives space task first) {worker : String} {nowAt expiresAt : Timestamp}
    (member : .moved task (.claim runId worker nowAt expiresAt) ∈ claims)
    (areClaims : ∀ event ∈ claims, ∃ task run worker expiresAt,
      event = .moved task (.claim run worker nowAt expiresAt)) :
    ∃ claimed, last = some claimed ∧ claimed.last.id = runId ∧ claimed.last.state = .running ∧
      claimed.last.availableAt = nowAt := by
  obtain ⟨before, after, isClaims⟩ := List.append_of_mem member
  subst isClaims
  rw [← List.append_assoc] at evolves
  obtain ⟨waiting, earlyEvolves, enabled, _, lateEvolves⟩ := evolves.at_moved
  have kept : .deleted task ∉ after := by
    intro isDeleted
    obtain ⟨_, _, _, _, impossible⟩ :=
      areClaims _ (List.mem_append_right _ (List.mem_cons_of_mem _ isDeleted))
    cases impossible
  obtain ⟨claimed, isLast⟩ := lateEvolves.remains kept
  subst isLast
  obtain ⟨validBefore, ownerBefore⟩ := earlyEvolves.lives lives waiting rfl
  let isClaimed (life : Life) : Prop :=
    life.last.id = runId ∧ life.last.state = .running ∧ life.last.availableAt = nowAt
  have still : isClaimed claimed := by
    refine lateEvolves.keeps (Transition.valid_after validBefore enabled) ownerBefore
      (fun isDeleted => absurd isDeleted kept) ⟨enabled.1, rfl, rfl⟩ ?_
    intro transition between inAfter _ enabledBetween _ now
    obtain ⟨_, run, otherWorker, otherExpiry, isEvent⟩ :=
      areClaims _ (List.mem_append_right _ (List.mem_cons_of_mem _ inAfter))
    cases isEvent
    exact Transition.claimed_after now enabledBetween ⟨_, _, _, _, rfl⟩
  exact ⟨claimed, rfl, still⟩

/-- A call leaves a run it has claimed running. -/
theorem Advances.claimed {before after : World} {readings : List Timestamp} {drawn : List Uuid}
    {events : List Event} {call : Call} (advances : Advances space before readings drawn events after)
    (sound : before.store.Sound space) (caused : call.Caused space events) {task : Uuid}
    {worker : String} {nowAt expiresAt : Timestamp}
    (member : .moved task (.claim runId worker nowAt expiresAt) ∈ events) :
    ∃ run, after.store.findRun runId = some run ∧ run.state = .running ∧ run.availableAt = nowAt := by
  obtain ⟨sweeps, claims, isEvents, inClaims, _, areClaims⟩ := caused.claims_last member
  subst isEvents
  obtain ⟨known, knownRows, lives⟩ := sound.lives task
  obtain ⟨last, lastRows, evolves⟩ := advances.evolves_to knownRows
  obtain ⟨claimed, isLast, sameRun, running, available⟩ :=
    evolves.claimed_last lives inClaims areClaims
  subst isLast
  have found := (advances.sound.shows_of_rows lastRows).findRun claimed.last_mem_runs
  rw [sameRun] at found
  exact ⟨claimed.last, found, running, available⟩

/-! ## Becoming claimable -/

/-- A run that can be claimed could be claimed before, was put to sleep, or is
new. -/
theorem Evolves.claimable_origin {timely : Prop} {task : Uuid} {events : List Event}
    {first : Option Life} (evolves : Evolves space timely task events first (some life))
    (waiting : life.last.state.claimable = true) :
    (∃ early, first = some early ∧ early.last.id = life.last.id ∧
        early.last.state.claimable = true) ∨
      (∃ observedAt wakeAt, .moved task (.sleep life.last.id observedAt wakeAt) ∈ events) ∨
      life.last.id ∈ events.flatMap Event.names := by
  induction events using List.reverseRecOn generalizing life with
  | nil =>
      have equal : some life = first := evolves
      exact Or.inl ⟨life, equal.symm, rfl, waiting⟩
  | append_singleton events event inductionHypothesis =>
      rw [evolves_concat] at evolves
      have earlier : ∀ {middle : Life}, Evolves space timely task events first (some middle) →
          middle.last.state.claimable = true → middle.last.id = life.last.id →
            (∃ early, first = some early ∧ early.last.id = life.last.id ∧
              early.last.state.claimable = true) ∨
            (∃ observedAt wakeAt,
              .moved task (.sleep life.last.id observedAt wakeAt) ∈ events ++ [event]) ∨
            life.last.id ∈ (events ++ [event]).flatMap Event.names := by
        intro middle early waits same
        rw [← same, List.flatMap_append]
        rcases inductionHypothesis early waits with before | ⟨observedAt, wakeAt, slept⟩ | named
        · exact Or.inl before
        · exact Or.inr (Or.inl ⟨observedAt, wakeAt, List.mem_append_left _ slept⟩)
        · exact Or.inr (Or.inr (List.mem_append_left _ named))
      by_cases own : event.task = task
      · rw [if_pos own] at evolves
        obtain ⟨middle, early, acts⟩ := evolves
        cases event with
        | submitted row run =>
            obtain ⟨_, isLife, _⟩ := acts
            cases isLife
            exact Or.inr (Or.inr (by simp [Event.names]))
        | moved id transition =>
            have isTask : id = task := own
            obtain ⟨before, isBefore, enabled, _, isLife⟩ := acts
            subst isTask isBefore
            cases isLife
            cases transition with
            | sleep run observedAt wakeAt =>
                refine Or.inr (Or.inl ⟨observedAt, wakeAt, List.mem_append_right _ ?_⟩)
                have isRun : before.last.id = run := enabled.1
                subst isRun
                exact List.mem_singleton.mpr rfl
            | renew run observedAt expiry =>
                have same : before.last.state.claimable = true := waiting
                rw [enabled.2] at same
                cases same
            | retry | reopen =>
                exact Or.inr (Or.inr (by simp [Event.names, Transition.newRun?, Transition.after,
                  RunRow.fresh]))
            | claim | complete | cancel | exhaust | abandon => cases waiting
        | recorded checkpoint run observedAt =>
            obtain ⟨_, _, _, _, _, same⟩ := acts
            subst same
            exact earlier early waiting rfl
        | deleted id => cases acts.2
      · rw [if_neg own] at evolves
        exact earlier evolves waiting rfl

/-- Only a suspension puts a run to sleep without failing it. -/
theorem Call.Caused.sleeps {call : Call} {events : List Event} (caused : call.Caused space events)
    {task : Uuid} {observedAt : Timestamp} {wakeAt : Timestamptz}
    (member : .moved task (.sleep runId observedAt wakeAt) ∈ events) :
    ∃ requested, call = ⟨.scheduleRun runId requested, .ok .suspended⟩ := by
  have may := caused.mayCause _ member
  obtain ⟨operation, outcome⟩ := call
  cases operation with
  | scheduleRun addressed requested =>
      have isRun : runId = addressed := may
      subst isRun
      cases outcome with
      | error error =>
          rw [show events = [] from caused] at member
          cases member
      | ok result =>
          obtain ⟨_, isEvents⟩ | ⟨isOutcome, _⟩ | ⟨_, _, _, isEvents⟩ := caused
          · rw [isEvents] at member
            cases member
          · subst isOutcome
            exact ⟨requested, rfl⟩
          · rw [isEvents] at member
            cases List.mem_singleton.mp member
  | superviseRun => exact absurd may.choose_spec id
  | reapExpiredRun => exact absurd may.choose_spec id
  | _ => exact absurd may id

end Steda
