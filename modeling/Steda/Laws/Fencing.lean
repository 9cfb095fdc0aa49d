import Steda.Laws.Checkpoints
import Steda.Laws.Expired
import Steda.Laws.Reclaiming

/-!
# Fencing of claims

The gate asks whether a run is running under a valid lease, and not for the
worker that holds it.  A run keeps its identifier through a suspension, so a
worker that has suspended its run passes the gate again once another worker has
claimed the run.  Claims are fenced in every run in which no call under a claim
given up by a suspension meets the run running again.
-/

namespace Steda

open Postgres Transaction Relational

variable {space : Char → Bool} {life : Life} {runId : Uuid} {before after : World}

/-! ## Workers -/

/-- The run a call of a worker acts on: `complete_run`, `fail_run` without
expecting an expired lease, `schedule_run`, `set_task_checkpoint_state` and
`supervise_run` with a renewal. -/
def Operation.actsOn? : Operation → Option Uuid
  | .completeRun runId _ | .scheduleRun runId _ | .setTaskCheckpointState _ _ _ runId => some runId
  | .failRun runId _ expectExpiredLease =>
      if expectExpiredLease = some true then none else some runId
  | .superviseRun runId renewForSeconds => if renewForSeconds.isSome then some runId else none
  | _ => none

/-- A call with the position of the claim under which a worker issues it. -/
structure WorkerStep where
  call : Call
  claim : Option Nat

/-- The call at a position has claimed a run. -/
def ClaimsAt (past : List WorkerStep) (position : Nat) (runId : Uuid) : Prop :=
  ∃ step, past[position]? = some step ∧ ∃ row ∈ step.call.claimed, row.runId = runId

/-- A worker acts on a run only as a consequence of a claim that returned it. -/
def WorkerStep.Issued (past : List WorkerStep) (step : WorkerStep) : Prop :=
  ∀ runId, step.call.operation.actsOn? = some runId →
    ∃ claim, step.claim = some claim ∧ ClaimsAt past claim runId

/-- Calls of workers and other clients from an empty queue, each of them allowed
after the calls before it. -/
inductive WorkerRun (space : Char → Bool) (allows : List WorkerStep → World → WorkerStep → Prop)
    (initial : World) : List WorkerStep → World → Prop
  | start (empty : ∃ cleanupTtl cleanupLimit, initial.store = Queue.empty cleanupTtl cleanupLimit)
      (fresh : Function.Injective initial.idents) : WorkerRun space allows initial [] initial
  | step {past : List WorkerStep} {before after : World} {step : WorkerStep}
      (run : WorkerRun space allows initial past before) (issued : step.Issued past)
      (allowed : allows past before step) (served : Served space before step.call after) :
      WorkerRun space allows initial (past ++ [step]) after

/-- Only a call under the current claim changes the database. -/
def WorkerStep.Fenced (past : List WorkerStep) (before after : World) (step : WorkerStep) : Prop :=
  ∀ runId claim, step.call.operation.actsOn? = some runId → step.claim = some claim →
    after.store ≠ before.store → ∀ later, claim < later → ¬ClaimsAt past later runId

/-- The worker that holds a claim has suspended the run. -/
def GivenUp (past : List WorkerStep) (claim : Nat) (runId : Uuid) : Prop :=
  ∃ step ∈ past, step.claim = some claim ∧
    ∃ wakeAt, step.call = ⟨.scheduleRun runId wakeAt, .ok .suspended⟩

/-- A call lets a run pass: supervision one that is running, and the other calls
of a worker one that is running under a lease that has not expired. -/
def Operation.Admits (operation : Operation) (world : World) (run : RunRow) : Prop :=
  match operation with
  | .superviseRun _ _ => run.state = .running
  | _ => run.state = .running ∧ expiredAt (world.clock 0) run = false

/-- A call under a claim that was given up does not find the run running
again. -/
def WorkerStep.Withdraws (past : List WorkerStep) (world : World) (step : WorkerStep) : Prop :=
  ∀ runId claim run, step.call.operation.actsOn? = some runId → step.claim = some claim →
    GivenUp past claim runId → world.store.findRun runId = some run →
      ¬step.call.operation.Admits world run

/-! ## Admission -/

theorem Operation.worksOn_of_actsOn {operation : Operation}
    (actsOn : operation.actsOn? = some runId) :
    (∃ seconds, operation = .superviseRun runId (some seconds)) ∨ operation.WorksOn runId := by
  cases operation with
  | completeRun | scheduleRun | setTaskCheckpointState => exact Or.inr (Option.some.inj actsOn)
  | failRun addressed reason expectExpiredLease =>
      simp only [actsOn?] at actsOn
      split at actsOn
      · cases actsOn
      · next expects => exact Or.inr ⟨Option.some.inj actsOn, expects⟩
  | superviseRun addressed renewForSeconds =>
      cases renewForSeconds with
      | none => cases actsOn
      | some seconds =>
          cases Option.some.inj actsOn
          exact Or.inl ⟨seconds, rfl⟩
  | _ => cases actsOn

/-- A call behind the gate that returns has found its run running under a valid
lease. -/
theorem Served.passed {operation : Operation} {result : operation.Result}
    (served : Served space before ⟨operation, .ok result⟩ after)
    (sound : before.store.Sound space) (worksOn : operation.WorksOn runId) :
    ∃ run, before.store.findRun runId = some run ∧ run.state = .running ∧
      expiredAt (before.clock 0) run = false := by
  by_contra none_
  have others : ∀ found, before.store.findRun runId = some found →
      ¬(found.state = .running ∧ expiredAt (before.clock 0) found = false) :=
    fun found isFound passes => none_ ⟨found, isFound, passes⟩
  obtain ⟨error, refused⟩ := sound.refuses_others others
  obtain ⟨raised, isRaised⟩ := worksOn.raises refused
  rw [served.ran] at isRaised
  cases isRaised

/-- Supervision finds a running run of a task whose deadline is due, or a lease
that is over or, with a renewal, at least half over. -/
def SupervisionActs (world : World) (runId : Uuid) (renewForSeconds : Option Int) : Prop :=
  ∃ run task, world.store.findRun runId = some run ∧
    world.store.findTask run.taskId = some task ∧ run.state = .running ∧
      (task.due (some (world.clock 0)) = .ok true ∨
        (task.due (some (world.clock 0)) = .ok false ∧ ∃ expiry, run.claimExpiresAt = some expiry ∧
          (expiry ≤ world.clock 0 ∨ ∃ seconds, renewForSeconds = some seconds ∧
            2 * (expiry - world.clock 0) ≤ seconds * second)))

/-- Supervision that has nothing to do answers without a change. -/
theorem alone_superviseRun_idle {world : World} {run : RunRow} (sound : world.store.Sound space)
    (found : world.store.findRun runId = some run) {renewForSeconds : Option Int}
    (positive : RenewsPositively renewForSeconds)
    (idle : ¬SupervisionActs world runId renewForSeconds) :
    ∃ answer, alone space (superviseRun runId renewForSeconds) world = (answer, world.tick) := by
  obtain ⟨life, member, shows_⟩ := sound.shows_of_findRun found
  have isRun := Queue.findRun_id found
  subst isRun
  by_cases running : run.state = .running
  · obtain ⟨isLast, _⟩ := shows_.valid.running_last member running
    subst isLast
    rw [alone_superviseRun_of_running shows_ running positive]
    have isTask : world.store.findTask life.last.taskId = some life.task := by
      rw [shows_.valid.owned _ life.last_mem_runs]
      exact shows_.findTask
    cases due : life.task.due (some (world.clock 0)) with
    | error error => exact ⟨_, rfl⟩
    | ok isDue =>
        cases isDue with
        | true => exact absurd ⟨_, _, found, isTask, running, .inl due⟩ idle
        | false =>
            obtain ⟨expiry, isExpiry⟩ :=
              RunRow.expiry_of_running (shows_.valid.lease life.last_mem_runs) running
            have isContext : (AttemptContext.ofRows life.last life.task
              (world.clock 0)).claimExpiresAt = some expiry := isExpiry
            have early : ¬expiry ≤ world.clock 0 := fun late =>
              idle ⟨_, _, found, isTask, running, .inr ⟨due, expiry, isExpiry, .inl late⟩⟩
            simp only [superviseInTime, isContext, AttemptContext.observedAt_ofRows, early, if_false]
            cases renewForSeconds with
            | none => exact ⟨_, rfl⟩
            | some seconds =>
                have half : ¬2 * (expiry - world.clock 0) ≤ seconds * second := fun half =>
                  idle ⟨_, _, found, isTask, running,
                    .inr ⟨due, expiry, isExpiry, .inr ⟨seconds, rfl, half⟩⟩⟩
                simp only [half, if_false]
                exact ⟨_, rfl⟩
  · rw [alone_superviseRun shows_ member positive]
    split
    · exact ⟨_, rfl⟩
    · cases state : run.state with
      | running => exact absurd state running
      | _ => exact ⟨_, rfl⟩

/-- Supervision changes the database only when it has something to do. -/
theorem Served.supervised_acts {renewForSeconds : Option Int}
    {outcome : Except SqlError RunSupervision}
    (served : Served space before ⟨.superviseRun runId renewForSeconds, outcome⟩ after)
    (sound : before.store.Sound space) (changed : after.store ≠ before.store) :
    SupervisionActs before runId renewForSeconds := by
  by_contra idle
  let supervise : Operation := .superviseRun runId renewForSeconds
  have isPerformed : supervise.perform space before = (outcome, after) := served
  have raises : ∀ error, (alone space (superviseRun runId renewForSeconds) before).1 ≠
      .error error := fun error raised => changed (served.of_raises sound raised).2
  have positive : RenewsPositively renewForSeconds := by
    by_contra invalid
    obtain ⟨error, raised⟩ := @alone_superviseRun_invalid space before runId _ invalid
    exact raises error raised
  cases found : before.store.findRun runId with
  | none => exact absurd (alone_superviseRun_absent found positive) (raises _)
  | some run =>
      obtain ⟨answer, answered⟩ := alone_superviseRun_idle sound found positive idle
      have isAnswer : alone space (supervise.program space) before = (answer, before.tick) :=
        answered
      rw [Operation.perform_eq _ sound, isAnswer] at isPerformed
      cases answer with
      | error error =>
          cases isPerformed
          exact changed rfl
      | ok result =>
          cases isPerformed
          exact changed rfl

/-- A call of a worker that changes the database was let through. -/
theorem Served.admitted {call : Call} (served : Served space before call after)
    (sound : before.store.Sound space) (actsOn : call.operation.actsOn? = some runId)
    (changed : after.store ≠ before.store) :
    ∃ run, before.store.findRun runId = some run ∧ call.operation.Admits before run := by
  obtain ⟨operation, outcome⟩ := call
  rcases Operation.worksOn_of_actsOn actsOn with ⟨seconds, isSupervision⟩ | worksOn
  · change operation = _ at isSupervision
    subst isSupervision
    obtain ⟨run, _, found, _, running, _⟩ := served.supervised_acts sound changed
    exact ⟨run, found, running⟩
  · cases outcome with
    | error error => exact absurd served.unchanged changed
    | ok result =>
        obtain ⟨run, found, running, valid⟩ := served.passed sound worksOn
        refine ⟨run, found, ?_⟩
        unfold Operation.Admits
        split
        · exact running
        · exact ⟨running, valid⟩

/-! ## Claims of one run -/

theorem claimsAt_snoc {past : List WorkerStep} {step : WorkerStep} {position : Nat} :
    ClaimsAt (past ++ [step]) position runId ↔
      ClaimsAt past position runId ∨
        (position = past.length ∧ ∃ row ∈ step.call.claimed, row.runId = runId) := by
  unfold ClaimsAt
  rcases lt_trichotomy position past.length with before | same | after
  · rw [List.getElem?_append_left before]
    exact (or_iff_left fun last => before.ne last.1).symm
  · subst same
    simp
  · have none_ : (past ++ [step])[position]? = none := by
      rw [List.getElem?_eq_none_iff, List.length_append, List.length_singleton]
      omega
    have nonePast : past[position]? = none := List.getElem?_eq_none after.le
    simp [none_, nonePast, after.ne']

theorem ClaimsAt.lt {past : List WorkerStep} {position : Nat} (claims : ClaimsAt past position runId) :
    position < past.length := by
  obtain ⟨step, found, _⟩ := claims
  exact (List.getElem?_eq_some_iff.mp found).1

theorem GivenUp.snoc {past : List WorkerStep} {claim : Nat} (givenUp : GivenUp past claim runId)
    (step : WorkerStep) : GivenUp (past ++ [step]) claim runId := by
  obtain ⟨other, member, isClaim, suspends⟩ := givenUp
  exact ⟨other, List.mem_append_left _ member, isClaim, suspends⟩

/-- A run that can be claimed after some events of a call could be claimed
before it, was suspended by the call, or has a fresh identifier. -/
theorem Advances.claimable_origin {readings : List Timestamp} {drawn : List Uuid}
    {early rest : List Event} {call : Call}
    (advances : Advances space before readings drawn (early ++ rest) after)
    (caused : call.Caused space (early ++ rest)) (sound : before.store.Sound space) {task : Uuid}
    {first : Option Life} (rows : before.store.rowsOf task = Life.rows first)
    (evolves : Evolves space True task early first (some life))
    (waiting : life.last.state.claimable = true) :
    (∃ run, before.store.findRun life.last.id = some run ∧ run.state.claimable = true) ∨
      (∃ requested, call = ⟨.scheduleRun life.last.id requested, .ok .suspended⟩) ∨
      ∃ position, before.idents position = life.last.id := by
  rcases evolves.claimable_origin waiting with
    ⟨old, isOld, same, waits⟩ | ⟨observedAt, wakeAt, slept⟩ | named
  · subst isOld
    refine Or.inl ⟨old.last, ?_, waits⟩
    rw [← same]
    exact (sound.shows_of_rows rows).findRun old.last_mem_runs
  · exact Or.inr (Or.inl (caused.sleeps (List.mem_append_left _ slept)))
  · have isDrawn := advances.fresh.subset
      (List.flatMap_append ▸ List.mem_append_left _ named : life.last.id ∈ _)
    rw [advances.named] at isDrawn
    obtain ⟨position, _, isIdent⟩ := List.mem_map.mp isDrawn
    exact Or.inr (Or.inr ⟨position, isIdent⟩)

/-- Every claim of a run that can be claimed, or that was claimed again, has been
given up. -/
structure ClaimsKept (past : List WorkerStep) (world : World) : Prop where
  named : ∀ position runId, ClaimsAt past position runId → ∀ ident, world.idents ident ≠ runId
  superseded : ∀ runId first second, ClaimsAt past first runId → ClaimsAt past second runId →
    first < second → GivenUp past first runId
  waiting : ∀ runId position run, ClaimsAt past position runId →
    world.store.findRun runId = some run → run.state.claimable = true →
      GivenUp past position runId

section Step

variable {past : List WorkerStep} {step : WorkerStep} {initial : World}
  {allows : List WorkerStep → World → WorkerStep → Prop}

/-- The calls of workers and other clients are a history. -/
theorem WorkerRun.history (run : WorkerRun space allows initial past before) :
    History space initial (past.map WorkerStep.call) before := by
  induction run with
  | start empty fresh => exact ⟨empty, fresh, .nil _⟩
  | step run issued allowed served inductionHypothesis =>
      rw [List.map_append]
      exact inductionHypothesis.append (.cons served (.nil _))

/-- A claim has been given up if its run can be claimed at a point of a call
that does not suspend it, or if the call does. -/
theorem ClaimsKept.givenUp (kept : ClaimsKept past before) (issued : step.Issued past)
    (withdraws : step.Withdraws past before) (served : Served space before step.call after)
    (sound : before.store.Sound space) {position : Nat} (claims : ClaimsAt past position runId)
    (origin : (∃ run, before.store.findRun runId = some run ∧ run.state.claimable = true) ∨
      (∃ requested, step.call = ⟨.scheduleRun runId requested, .ok .suspended⟩) ∨
      ∃ ident, before.idents ident = runId) : GivenUp (past ++ [step]) position runId := by
  rcases origin with ⟨run, found, waits⟩ | ⟨requested, isCall⟩ | ⟨ident, isIdent⟩
  · exact (kept.waiting runId position run claims found waits).snoc step
  · have actsOn : step.call.operation.actsOn? = some runId := by rw [isCall]; rfl
    obtain ⟨claim, isClaim, claimsRun⟩ := issued runId actsOn
    rcases lt_trichotomy position claim with earlier | same | later
    · exact (kept.superseded runId position claim claims claimsRun earlier).snoc step
    · subst same
      exact ⟨step, List.mem_append_right _ List.mem_cons_self, isClaim, requested, isCall⟩
    · have givenUp := kept.superseded runId claim position claimsRun claims later
      rw [isCall] at served
      obtain ⟨run, found, passes⟩ := served.passed sound rfl
      refine absurd ?_ (withdraws runId claim run actsOn isClaim givenUp found)
      rw [isCall]
      exact passes
  · exact absurd isIdent (kept.named position runId claims ident)

/-- Every step keeps the claims. -/
theorem ClaimsKept.snoc (kept : ClaimsKept past before)
    (run : WorkerRun space allows initial past before) (issued : step.Issued past)
    (withdraws : step.Withdraws past before) (served : Served space before step.call after) :
    ClaimsKept (past ++ [step]) after := by
  have history := run.history
  have later : History space initial _ after := history.append (.cons served (.nil _))
  obtain ⟨readings, drawn, events, caused, advances⟩ := served.advances history.sound
  have claimed : ∀ row ∈ step.call.claimed, ∃ run, after.store.findRun row.runId = some run ∧
      run.state = .running := by
    intro row member
    obtain ⟨_, inEvents, worker, nowAt, expiresAt, isEvent⟩ :=
      (caused.claimed_iff row.taskId row.runId).mpr ⟨row, member, rfl, rfl⟩
    subst isEvent
    obtain ⟨run, found, running, _⟩ := advances.claimed history.sound caused inEvents
    exact ⟨run, found, running⟩
  refine ⟨?_, ?_, ?_⟩
  · intro position runId claims ident isIdent
    rcases claimsAt_snoc.mp claims with old | ⟨_, row, member, isRun⟩
    · exact kept.named position runId old _ ((advances.idents ident).symm.trans isIdent)
    · obtain ⟨run, found, _⟩ := claimed row member
      have unused := later.ready.unused ident
      rw [isIdent, ← isRun, found] at unused
      cases unused
  · intro runId first second claims claimsAgain before_
    rcases claimsAt_snoc.mp claimsAgain with oldAgain | ⟨isLast, row, member, isRun⟩
    · rcases claimsAt_snoc.mp claims with old | ⟨isLast, _⟩
      · exact (kept.superseded runId first second old oldAgain before_).snoc step
      · have := oldAgain.lt
        omega
    · rcases claimsAt_snoc.mp claims with old | ⟨isFirst, _⟩
      · refine kept.givenUp issued withdraws served history.sound old ?_
        obtain ⟨_, inEvents, worker, nowAt, expiresAt, isEvent⟩ :=
          (caused.claimed_iff row.taskId runId).mpr ⟨row, member, rfl, isRun⟩
        subst isEvent
        obtain ⟨early, rest, isEvents⟩ := List.append_of_mem inEvents
        subst isEvents
        obtain ⟨known, _, firstRows, _, evolves⟩ := advances.evolves row.taskId
        obtain ⟨middle, earlyEvolves, enabled, _, _⟩ := evolves.at_moved
        have isMiddle : middle.last.id = runId := enabled.1
        rw [← isMiddle]
        exact advances.claimable_origin caused history.sound firstRows earlyEvolves enabled.2.1
      · omega
  · intro runId position run claims found waits
    rcases claimsAt_snoc.mp claims with old | ⟨_, row, member, isRun⟩
    · refine kept.givenUp issued withdraws served history.sound old ?_
      obtain ⟨life, inRuns, shows_⟩ := advances.sound.shows_of_findRun found
      have isLast := (shows_.valid.active_run inRuns (State.active_of_claimable waits)).1
      have isRun : life.last.id = runId := isLast ▸ Queue.findRun_id found
      obtain ⟨known, last, firstRows, lastRows, evolves⟩ := advances.evolves life.task.id
      have isLife : last = some life := Life.rows_injective (lastRows.symm.trans shows_.rows)
      subst isLife
      rw [← List.append_nil events] at advances caused
      rw [← isRun]
      exact advances.claimable_origin caused history.sound firstRows evolves (isLast ▸ waits)
    · obtain ⟨other, isOther, running⟩ := claimed row member
      rw [isRun, found] at isOther
      rw [Option.some.inj isOther, running] at waits
      cases waits

end Step

/-- The claims are kept by workers that withdraw. -/
theorem WorkerRun.claimsKept {initial : World} {past : List WorkerStep}
    (run : WorkerRun space (fun past world step => step.Withdraws past world) initial past before) :
    ClaimsKept past before := by
  induction run with
  | start empty fresh =>
      have noClaims : ∀ position runId, ¬ClaimsAt [] position runId := by
        rintro position runId ⟨step, found, _⟩
        cases found
      exact ⟨fun position runId claims => absurd claims (noClaims position runId),
        fun runId first _ claims => absurd claims (noClaims first runId),
        fun runId position _ claims => absurd claims (noClaims position runId)⟩
  | step run issued withdraws served inductionHypothesis =>
      exact inductionHypothesis.snoc run issued withdraws served

/-! ## The law -/

/-- Claims are fenced in every run in which no call under a claim that was given
up finds its run running again. -/
theorem WorkerRun.fenced {initial : World} {past : List WorkerStep} {step : WorkerStep}
    (run : WorkerRun space (fun past world step => step.Withdraws past world) initial past before)
    (issued : step.Issued past) (withdraws : step.Withdraws past before)
    (served : Served space before step.call after) : step.Fenced past before after := by
  intro runId claim actsOn isClaim changed later isLater claimsLater
  obtain ⟨issuedUnder, isIssued, claims⟩ := issued runId actsOn
  cases isClaim.symm.trans isIssued
  have givenUp := run.claimsKept.superseded runId claim later claims claimsLater isLater
  obtain ⟨row, found, admits⟩ := served.admitted run.history.sound actsOn changed
  exact withdraws runId claim row actsOn isClaim givenUp found admits

/-! ## Stale workers -/

/-- A call of a client, with the claim it is issued under. -/
def Operation.issue (operation : Operation) (space : Char → Bool) (world : World)
    (claim : Option Nat) : WorkerStep where
  call := ⟨operation, (operation.perform space world).1⟩
  claim := claim

theorem Operation.served_issue (operation : Operation) (world : World) (claim : Option Nat) :
    Served space world (operation.issue space world claim).call
      (operation.perform space world).2 := rfl

/-- Calls go on with one more call. -/
theorem WorkerRun.perform {allows : List WorkerStep → World → WorkerStep → Prop} {initial : World}
    {past : List WorkerStep} (run : WorkerRun space allows initial past before)
    (operation : Operation) (claim : Option Nat)
    (issued : (operation.issue space before claim).Issued past)
    (allowed : allows past before (operation.issue space before claim)) :
    WorkerRun space allows initial (past ++ [operation.issue space before claim])
      (operation.perform space before).2 :=
  .step run issued allowed (operation.served_issue before claim)

/-- A claim that no call has used yet has not been given up. -/
theorem WorkerStep.withdraws_unused {past : List WorkerStep} {world : World} {step : WorkerStep}
    (unused : step.claim ∉ past.map WorkerStep.claim) : step.Withdraws past world := by
  rintro runId claim run _ isClaim ⟨other, member, isOther, _⟩
  refine absurd (List.mem_map.mpr ⟨other, member, ?_⟩) unused
  rw [isOther, isClaim]

/-- A worker suspends its run and tries to complete it while it sleeps; another
worker claims it and completes it. -/
theorem WorkerRun.fenced_completed :
    ∃ past before after, ∃ step : WorkerStep,
      WorkerRun asciiSpace (fun past world step => step.Withdraws past world) (.blank second) past
        before ∧
      ClaimsAt past 1 1 ∧ GivenUp past 1 1 ∧ ClaimsAt past 4 1 ∧
      step.call.operation = .completeRun 1 (some .null) ∧ step.claim = some 4 ∧
      after.store ≠ before.store ∧ step.Fenced past before after := by
  have started : WorkerRun asciiSpace (fun past world step => step.Withdraws past world)
      (.blank second) [] (.blank second) := .start ⟨0, 1, rfl⟩ fun _ _ same => same
  have submitted := started.perform (plainSubmission []) none (by rintro runId ⟨⟩)
    (by rintro runId claim run ⟨⟩)
  have claimed := submitted.perform (plainClaim "first") none (by rintro runId ⟨⟩)
    (by rintro runId claim run ⟨⟩)
  have suspended := claimed.perform (.scheduleRun 1 (some (.point (7 * second)))) (some 1) (by
    rintro runId isRun
    cases isRun
    exact ⟨1, rfl, _, rfl, _, List.mem_cons_self, rfl⟩)
    (WorkerStep.withdraws_unused (show some 1 ∉ [none, none] by decide))
  have refused := suspended.perform (.completeRun 1 (some .null)) (some 1) (by
    rintro runId isRun
    cases isRun
    exact ⟨1, rfl, _, rfl, _, List.mem_cons_self, rfl⟩) (by
    rintro runId claim run isRun _ _ found ⟨running, _⟩
    cases isRun
    rw [← Option.some.inj ((show _ = some _ from rfl).symm.trans found)] at running
    cases running)
  have reclaimed := refused.perform (plainClaim "second") none (by rintro runId ⟨⟩)
    (by rintro runId claim run ⟨⟩)
  refine ⟨_, _, _, (Operation.completeRun 1 (some .null)).issue asciiSpace _ (some 4), reclaimed,
    ⟨_, rfl, _, List.mem_cons_self, rfl⟩, ?_,
    ⟨_, rfl, _, List.mem_cons_self, rfl⟩, rfl, rfl, ?_,
    reclaimed.fenced ?_ ?_ (Operation.served_issue _ _ _)⟩
  · exact ⟨_, List.mem_cons_of_mem _ (List.mem_cons_of_mem _ List.mem_cons_self), rfl, _, rfl⟩
  · intro same
    have states := congrArg (fun store => store.tasks.map TaskRow.state) same
    exact absurd states (by decide +kernel)
  · rintro runId isRun
    cases isRun
    exact ⟨4, rfl, _, rfl, _, List.mem_cons_self, rfl⟩
  · exact WorkerStep.withdraws_unused
      (show some 4 ∉ [none, none, some 1, some 1, none] by decide)

/-- A worker that has suspended its run completes it under its old claim after
another worker has claimed it. -/
theorem WorkerRun.not_fenced :
    ¬∀ initial past before after (step : WorkerStep),
      WorkerRun asciiSpace (fun _ _ _ => True) initial past before → step.Issued past →
        Served asciiSpace before step.call after → step.Fenced past before after := by
  intro fenced
  have started : WorkerRun asciiSpace (fun _ _ _ => True) (.blank second) [] (.blank second) :=
    .start ⟨0, 1, rfl⟩ fun _ _ same => same
  have submitted := started.perform (plainSubmission []) none (by rintro runId ⟨⟩) trivial
  have claimed := submitted.perform (plainClaim "first") none (by rintro runId ⟨⟩) trivial
  have suspended := claimed.perform (.scheduleRun 1 (some (.point (6 * second)))) (some 1) (by
    rintro runId isRun
    cases isRun
    exact ⟨1, rfl, _, rfl, _, List.mem_cons_self, rfl⟩) trivial
  have reclaimed := suspended.perform (plainClaim "second") none (by rintro runId ⟨⟩) trivial
  have stale := fenced _ _ _ _ ((Operation.completeRun 1 (some .null)).issue asciiSpace _ (some 1))
    reclaimed (by
      rintro runId isRun
      cases isRun
      exact ⟨1, rfl, _, rfl, _, List.mem_cons_self, rfl⟩)
    (Operation.served_issue (.completeRun 1 (some .null)) _ (some 1)) 1 1 rfl rfl (by
      intro same
      have states := congrArg (fun store => store.tasks.map TaskRow.state) same
      exact absurd states (by decide +kernel))
  exact stale 3 (by decide) ⟨_, rfl, _, List.mem_cons_self, rfl⟩

end Steda
