import Steda.Laws.CommitOrder

/-!
# Claim races

Claims whose statements interleave with one another and with other calls never
give one run to two workers: a run that a committed claim returned is returned
by a later one only when a suspension has been committed in between.
-/

namespace Steda

open Postgres Transaction Relational

variable {space : Char → Bool}

/-! ## Runs that wait -/

/-- The identifiers of the runs of a task, oldest first. -/
def Life.runIds (life : Life) : List Uuid :=
  life.runs.map RunRow.id

/-- The run is the last one of the task and can be claimed. -/
def Life.Offers (life : Life) (run : Uuid) : Prop :=
  life.last.id = run ∧ life.last.state.claimable = true

/-- A transition keeps the runs of a task and may add one. -/
theorem Transition.runIds_after (transition : Transition) (life : Life) :
    (transition.after life).runIds =
      life.runIds ++ transition.newRun?.toList := by
  cases transition <;> simp [after, newRun?, Life.runIds, Life.runs, RunRow.claim, RunRow.complete,
    RunRow.sleep, RunRow.renew, RunRow.cancel, RunRow.fail, RunRow.fresh]

section Offers

variable {timely : Prop} {task run : Uuid} {events : List Event} {first last : Life}

theorem Evolves.runIds (evolves : Evolves space timely task events (some first) (some last))
    (valid : first.Valid space) (owner : first.task.id = task)
    (retains : .deleted task ∉ events) : first.runIds <+: last.runIds := by
  let extends_ (life : Life) : Prop := first.runIds <+: life.runIds
  have still : extends_ last := by
    refine evolves.keeps valid owner (fun deleted => absurd deleted retains) List.prefix_rfl ?_
    intro transition before _ _ _ _ kept
    change first.runIds <+: (transition.after before).runIds
    rw [transition.runIds_after]
    exact List.IsPrefix.trans kept (List.prefix_append _ _)
  exact still

/-- Only a suspension makes an old run claimable. -/
theorem Transition.not_offers {transition : Transition} {life : Life}
    (enabled : transition.Enabled space life)
    (unslept : ∀ observedAt wakeAt, transition ≠ .sleep run observedAt wakeAt)
    (isNew : transition.newRun? ≠ some run) : ¬(transition.after life).Offers run := by
  rintro ⟨isRun, waiting⟩
  cases transition with
  | sleep sleeping observedAt wakeAt =>
      have same : life.last.id = run := isRun
      exact unslept observedAt wakeAt (by rw [← enabled.1, same])
  | renew renewed observedAt expiry =>
      have same : life.last.state.claimable = true := waiting
      rw [enabled.2] at same
      cases same
  | retry | reopen => exact isNew (congrArg some isRun)
  | claim | complete | cancel | exhaust | abandon => cases waiting

/-- A run that is not offered is not offered later unless it is suspended. -/
theorem Evolves.not_offers (evolves : Evolves space timely task events (some first) (some last))
    (valid : first.Valid space) (owner : first.task.id = task) (retains : .deleted task ∉ events)
    (unslept : ∀ observedAt wakeAt, .moved task (.sleep run observedAt wakeAt) ∉ events)
    (isRun : run ∈ first.runIds) (taken : ¬first.Offers run) (unique : last.runIds.Nodup) :
    ¬last.Offers run := by
  let withheld (life : Life) : Prop :=
    (run ∈ life.runIds ∧ ¬life.Offers run) ∨ ¬life.runIds.Nodup
  have still : withheld last := by
    refine evolves.keeps valid owner (fun deleted => absurd deleted retains)
      (Or.inl ⟨isRun, taken⟩) ?_
    intro transition before member _ enabled _ kept
    change (run ∈ (transition.after before).runIds ∧ _) ∨ ¬(transition.after before).runIds.Nodup
    rw [transition.runIds_after]
    rcases kept with ⟨known, _⟩ | repeated
    · by_cases isNew : transition.newRun? = some run
      · refine Or.inr fun distinct => ?_
        rw [isNew] at distinct
        exact (List.nodup_append.mp distinct).2.2 run known run List.mem_cons_self rfl
      · refine Or.inl ⟨List.mem_append_left _ known, Transition.not_offers enabled ?_ isNew⟩
        intro observedAt wakeAt isSleep
        exact unslept observedAt wakeAt (isSleep ▸ member)
    · exact Or.inr fun distinct => repeated (List.nodup_append.mp distinct).1
  exact (still.resolve_right (not_not_intro unique)).2

/-- While there are only claims, a running task stays as it is. -/
theorem Evolves.undisturbed (evolves : Evolves space timely task events (some first) (some last))
    (valid : first.Valid space) (owner : first.task.id = task)
    (running : first.last.state = .running)
    (claims : ∀ event ∈ events, ∃ task run worker nowAt expiresAt,
      event = .moved task (.claim run worker nowAt expiresAt)) : last = first := by
  have retains : .deleted task ∉ events := by
    intro member
    obtain ⟨_, _, _, _, _, impossible⟩ := claims _ member
    cases impossible
  let unchanged (life : Life) : Prop := life = first
  have still : unchanged last := by
    refine evolves.keeps valid owner (fun deleted => absurd deleted retains) rfl ?_
    intro transition before member _ enabled _ same
    obtain ⟨_, _, _, _, _, isClaim⟩ := claims _ member
    cases isClaim
    rw [show before = first from same] at enabled
    obtain ⟨_, waiting, _⟩ := enabled
    rw [running] at waiting
    cases waiting
  exact still

end Offers

/-! ## Runs in the queue -/

/-- The task has the run and does not offer it. -/
def Queue.Withholds (queue : Queue) (task run : Uuid) : Prop :=
  ∃ life, queue.rowsOf task = Life.rows (some life) ∧ run ∈ life.runIds ∧ ¬life.Offers run

theorem Queue.Sound.runIds_nodup {queue : Queue} (sound : queue.Sound space) {task : Uuid}
    {life : Life} (rows : queue.rowsOf task = Life.rows (some life)) : life.runIds.Nodup := by
  have runs : queue.runsOf task = life.runs := congrArg Rows.runs rows
  rw [Life.runIds, ← runs]
  exact (List.filter_sublist.map RunRow.id).nodup sound.keyed.runs

/-- A run belongs to one task. -/
theorem Queue.Sound.one_owner {queue : Queue} (sound : queue.Sound space) {task other run : Uuid}
    {life otherLife : Life} (rows : queue.rowsOf task = Life.rows (some life))
    (otherRows : queue.rowsOf other = Life.rows (some otherLife)) (isRun : run ∈ life.runIds)
    (isOther : run ∈ otherLife.runIds) : task = other := by
  obtain ⟨row, member, isRow⟩ := List.mem_map.mp isRun
  obtain ⟨otherRow, otherMember, isOtherRow⟩ := List.mem_map.mp isOther
  obtain ⟨valid, owner⟩ := sound.life_of_rows rows
  obtain ⟨otherValid, otherOwner⟩ := sound.life_of_rows otherRows
  have found : queue.findRun row.id = some row :=
    sound.keyed.findRun_of_mem (by rw [rows]; exact member)
  have otherFound : queue.findRun otherRow.id = some otherRow :=
    sound.keyed.findRun_of_mem (by rw [otherRows]; exact otherMember)
  rw [isRow, ← isOtherRow, otherFound] at found
  rw [← owner, ← valid.owned row member, ← Option.some.inj found,
    otherValid.owned otherRow otherMember, otherOwner]

section Claims

variable {timely : Prop} {task run : Uuid} {worker : String} {nowAt expiresAt : Timestamp}

/-- A claim among the last events of a call decides how it leaves the task. -/
theorem Evolves.claimed {early claims : List Event} {first last : Option Life}
    (evolves : Evolves space timely task
      (early ++ .moved task (.claim run worker nowAt expiresAt) :: claims) first last)
    (lives : Lives space task first)
    (areClaims : ∀ event ∈ claims, ∃ task run worker nowAt expiresAt,
      event = .moved task (.claim run worker nowAt expiresAt)) :
    ∃ life : Life, life.Valid space ∧ life.last.id = run ∧
      last = some ((Transition.claim run worker nowAt expiresAt).after life) ∧
      ∀ transition, .moved task transition ∉ claims := by
  obtain ⟨life, earlyEvolves, enabled, _, lateEvolves⟩ := evolves.at_moved
  obtain ⟨valid, owner⟩ := earlyEvolves.lives lives life rfl
  have validAfter := Transition.valid_after valid enabled
  have retains : ∀ events ⊆ claims, .deleted task ∉ events := by
    intro events included member
    obtain ⟨_, _, _, _, _, impossible⟩ := areClaims _ (included member)
    cases impossible
  have still : ∀ {events : List Event} {later : Life}, events ⊆ claims →
      Evolves space timely task events
        (some ((Transition.claim run worker nowAt expiresAt).after life)) (some later) →
      later = (Transition.claim run worker nowAt expiresAt).after life :=
    fun included steps => steps.undisturbed validAfter owner rfl
      fun event member => areClaims event (included member)
  refine ⟨life, valid, enabled.1, ?_, ?_⟩
  · obtain ⟨later, isLater⟩ := lateEvolves.remains (retains claims (List.Subset.refl _))
    subst isLater
    exact congrArg some (still (List.Subset.refl _) lateEvolves)
  · intro transition member
    obtain ⟨before, after, isClaims⟩ := List.append_of_mem member
    rw [isClaims] at lateEvolves
    obtain ⟨between, undisturbed, again, _, _⟩ := lateEvolves.at_moved
    have isSame := still (isClaims ▸ List.subset_append_left _ _) undisturbed
    obtain ⟨_, _, _, _, _, isClaim⟩ := areClaims _ member
    cases isClaim
    rw [isSame] at again
    obtain ⟨_, waiting, _⟩ := again
    cases waiting

variable {commitment : Commitment} {before after : Queue}

/-- A commit without a suspension of the run goes on withholding it. -/
theorem Commitment.Takes.withholds (takes : commitment.Takes space before after)
    (sound : before.Sound space) (soundAfter : after.Sound space)
    (withheld : before.Withholds task run)
    (unslept : ∀ observedAt wakeAt, .moved task (.sleep run observedAt wakeAt) ∉ commitment.events) :
    after.Withholds task run := by
  obtain ⟨life, rows, isRun, taken⟩ := withheld
  obtain ⟨valid, owner⟩ := sound.life_of_rows rows
  obtain ⟨first, last, firstRows, lastRows, evolves⟩ := takes.evolves task
  have isFirst : first = some life := Life.rows_injective (firstRows.symm.trans rows)
  subst isFirst
  obtain ⟨later, isLast⟩ := evolves.remains (takes.retains task)
  subst isLast
  exact ⟨later, lastRows, (evolves.runIds valid owner (takes.retains task)).subset isRun,
    evolves.not_offers valid owner (takes.retains task) unslept isRun taken
      (soundAfter.runIds_nodup lastRows)⟩

/-- A withheld run is not claimed without a suspension. -/
theorem Commitment.Takes.not_claims (takes : commitment.Takes space before after)
    (sound : before.Sound space) (soundAfter : after.Sound space) {owner : Uuid}
    (withheld : before.Withholds owner run)
    (unslept : ∀ observedAt wakeAt, .moved owner (.sleep run observedAt wakeAt) ∉ commitment.events) :
    .moved task (.claim run worker nowAt expiresAt) ∉ commitment.events := by
  intro member
  obtain ⟨early, late, isEvents⟩ := List.append_of_mem member
  have retains : ∀ events ⊆ commitment.events, .deleted task ∉ events :=
    fun events included isDeleted => takes.retains task (included isDeleted)
  have isLate : late ⊆ commitment.events := by
    rw [isEvents]
    exact fun event isEvent => List.mem_append_right _ (List.mem_cons_of_mem _ isEvent)
  have isEarly : early ⊆ commitment.events := isEvents ▸ List.subset_append_left _ _
  obtain ⟨first, last, firstRows, lastRows, evolves⟩ := takes.evolves task
  rw [isEvents] at evolves
  obtain ⟨life, earlyEvolves, enabled, _, lateEvolves⟩ := evolves.at_moved
  have lives : Lives space task first := fun present isPresent =>
    sound.life_of_rows (isPresent ▸ firstRows)
  obtain ⟨valid, isOwner⟩ := earlyEvolves.lives lives life rfl
  obtain ⟨ends, isLast⟩ := lateEvolves.remains (retains late isLate)
  subst isLast
  have extended := lateEvolves.runIds (Transition.valid_after valid enabled) isOwner
    (retains late isLate)
  rw [Transition.runIds_after] at extended
  have inEnds : run ∈ ends.runIds := by
    refine extended.subset (List.mem_append_left _ ?_)
    exact List.mem_map.mpr ⟨life.last, life.last_mem_runs, enabled.1⟩
  obtain ⟨later, laterRows, inLater, _⟩ := takes.withholds sound soundAfter withheld unslept
  have sameTask := soundAfter.one_owner lastRows laterRows inEnds inLater
  subst sameTask
  obtain ⟨known, knownRows, isKnown, taken⟩ := withheld
  have isFirst : first = some known := Life.rows_injective (firstRows.symm.trans knownRows)
  subst isFirst
  obtain ⟨knownValid, knownOwner⟩ := sound.life_of_rows knownRows
  refine earlyEvolves.not_offers knownValid knownOwner (retains early isEarly)
    (fun observedAt wakeAt slept => unslept observedAt wakeAt (isEarly slept)) isKnown taken ?_
    ⟨enabled.1, enabled.2.1⟩
  exact (List.nodup_append.mp (extended.sublist.nodup (soundAfter.runIds_nodup lastRows))).1

end Claims

/-! ## Exclusive claims -/

/-- The lease a claim asks for. -/
theorem validateClaim_lease {workerId : Option String} {leaseSeconds quantity : Option Int}
    {taskNames : Option (List (Option String))} {request : ClaimRequest}
    (validated : validateClaim space workerId leaseSeconds quantity taskNames = .ok request) :
    workerId = some request.workerId ∧ leaseSeconds = some request.leaseSeconds := by
  unfold validateClaim at validated
  rcases workerId with _ | worker
  · cases validated
  simp only [except_guard_ok] at validated
  obtain ⟨_, validated⟩ := validated
  rcases leaseSeconds with _ | seconds
  · cases validated
  simp only [except_guard_ok] at validated
  obtain ⟨_, validated⟩ := validated
  rcases quantity with _ | quantity
  · cases validated
  simp only [except_guard_ok] at validated
  obtain ⟨_, validated⟩ := validated
  rcases taskNames with _ | names
  · cases validated
  simp only [except_guard_ok] at validated
  obtain ⟨_, _, validated⟩ := validated
  cases validated
  exact ⟨rfl, rfl⟩

/-- A claim for a worker commits. -/
def Contest.Claims (space : Char → Bool) (contest : Contest) (id : Nat)
    (workerId : Option String) (leaseSeconds : Option Int) (claimed : List ClaimedTask)
    (after : Contest) : Prop :=
  ∃ quantity taskNames, contest.Commits space id
    ⟨.claimTasks workerId leaseSeconds quantity taskNames, claimed⟩ after

/-- What holds of the claims of a contest in one of its states. -/
structure ClaimsExclusive (space : Char → Bool) (contest : Contest) : Prop where
  /-- A run that is returned is leased to the worker from a reading of the clock
  on, one for all runs of a claim, and its task is running. -/
  leased : ∀ id workerId leaseSeconds claimed after,
    contest.Claims space id workerId leaseSeconds claimed after →
      ∃ seconds, ∃ nowAt : Timestamp, leaseSeconds = some seconds ∧
        ∀ row ∈ claimed, contest.Reads id nowAt ∧
          ∃ run, after.store.findRun row.runId = some run ∧
            run.state = .running ∧ run.claimedBy = workerId ∧ run.availableAt = nowAt ∧
            run.claimExpiresAt = some (nowAt + seconds * second) ∧
            ∃ task, after.store.findTask run.taskId = some task ∧ task.state = .running ∧
              task.lastAttemptRun = row.runId
  /-- A run is returned once by a call. -/
  distinct : ∀ id workerId leaseSeconds claimed after,
    contest.Claims space id workerId leaseSeconds claimed after →
      (claimed.map ClaimedTask.runId).Nodup
  /-- A run that was returned before has been suspended in between. -/
  exclusive : ∀ id workerId leaseSeconds claimed after,
    contest.Claims space id workerId leaseSeconds claimed after → ∀ moves (later : Contest),
      (∀ script, .start script ∈ moves → Contending space script) →
        Trace (System.Steps (storage space)) after moves later →
          ∀ other otherWorker otherLease again last,
            later.Claims space other otherWorker otherLease again last →
              ∀ row ∈ claimed, ∀ twice ∈ again, twice.runId = row.runId →
                ∃ past party future, ∃ source target : Contest, ∃ wakeAt,
                  Moment (System.Steps (storage space)) after moves later past (.commit party)
                    future source target ∧
                  source.Commits space party ⟨.scheduleRun row.runId wakeAt, .suspended⟩ target

/-- The events of a claim. -/
theorem Returned.Explained.claims {workerId : Option String} {leaseSeconds quantity : Option Int}
    {taskNames : Option (List (Option String))} {claimed : List ClaimedTask} {events : List Event}
    (explained : Returned.Explained space
      ⟨.claimTasks workerId leaseSeconds quantity taskNames, claimed⟩ events) :
    ∃ (stamp : ClaimStamp) (seconds : Int) (sweeps : List Event) (selected : List SelectedRow),
      workerId = some stamp.workerId ∧ leaseSeconds = some seconds ∧
        stamp.expiresAt = stamp.nowAt + seconds * second ∧
        (claimed.map ClaimedTask.runId).Perm (selected.map fun row => row.2.id) ∧
        events = sweeps ++ selected.map fun row => stamp.event row.2 := by
  cases explained with
  | ordinary isOrdinary _ => cases isOrdinary
  | claimed validated worker expires areSweeps isPerm fits =>
      obtain ⟨isWorker, isLease⟩ := validateClaim_lease validated
      refine ⟨_, _, _, _, worker ▸ isWorker, isLease, expires, ?_, rfl⟩
      have ids := isPerm.map ClaimedTask.runId
      rwa [List.map_map] at ids

/-- Only a suspension puts a run to sleep without failing it. -/
theorem Returned.Explained.sleeps {returned : Returned} {events : List Event}
    (explained : returned.Explained space events) {task run : Uuid}
    {observedAt : Timestamp} {wakeAt : Timestamptz}
    (member : .moved task (.sleep run observedAt wakeAt) ∈ events) :
    ∃ requested, returned = ⟨.scheduleRun run requested, .suspended⟩ := by
  cases explained with
  | claimed _ _ _ areSweeps _ _ =>
      rcases List.mem_append.mp member with inSweeps | inClaims
      · exact (areSweeps _ inSweeps).elim
      · obtain ⟨row, _, isEvent⟩ := List.mem_map.mp inClaims
        cases isEvent
  | ordinary _ caused =>
      obtain ⟨operation, result⟩ := returned
      have call : Call.Caused space ⟨operation, .ok result⟩ events := caused
      obtain ⟨requested, isCall⟩ := call.sleeps member
      cases isCall
      exact ⟨requested, rfl⟩

section Exclusive

variable {store : Queue} {labels : List Contest.Move} {contest after : Contest} {id : Nat}
variable {workerId : Option String} {leaseSeconds : Option Int} {claimed : List ClaimedTask}

/-- What a committed claim has done. -/
structure ClaimTakes (space : Char → Bool) (before after : Queue) (workerId : Option String)
    (leaseSeconds : Option Int) (claimed : List ClaimedTask) (commitment : Commitment)
    (stamp : ClaimStamp) (seconds : Int) (sweeps : List Event) (selected : List SelectedRow) :
    Prop where
  takes : commitment.Takes space before after
  worker : workerId = some stamp.workerId
  lease : leaseSeconds = some seconds
  expires : stamp.expiresAt = stamp.nowAt + seconds * second
  isPerm : (claimed.map ClaimedTask.runId).Perm (selected.map fun row => row.2.id)
  events : commitment.events = sweeps ++ selected.map fun row => stamp.event row.2
  unslept : ∀ task run observedAt wakeAt,
    .moved task (.sleep run observedAt wakeAt) ∉ commitment.events

/-- The claims of selected runs. -/
theorem ClaimStamp.areClaims {stamp : ClaimStamp} {selected : List SelectedRow} :
    ∀ event ∈ selected.map (fun row => stamp.event row.2), ∃ task run worker nowAt expiresAt,
      event = .moved task (.claim run worker nowAt expiresAt) := by
  intro event member
  obtain ⟨row, _, isEvent⟩ := List.mem_map.mp member
  exact ⟨_, _, _, _, _, isEvent.symm⟩

/-- How a committed claim leaves the task of a selected run. -/
theorem Evolves.claims_selected {timely : Prop} {stamp : ClaimStamp} {early : List Event}
    {row : SelectedRow} {rest : List SelectedRow} {first last : Option Life}
    (evolves : Evolves space timely row.2.taskId
      (early ++ stamp.event row.2 :: rest.map fun row => stamp.event row.2) first last)
    (lives : Lives space row.2.taskId first) :
    ∃ life : Life, life.Valid space ∧ life.last.id = row.2.id ∧
      last = some ((stamp.transition row.2).after life) ∧
      ∀ other ∈ rest, other.2.taskId ≠ row.2.taskId := by
  obtain ⟨life, valid, isRun, isLast, noMore⟩ := evolves.claimed lives ClaimStamp.areClaims
  refine ⟨life, valid, isRun, isLast, fun other member same => noMore (stamp.transition other.2) ?_⟩
  rw [← same]
  exact List.mem_map_of_mem member

/-- The selected runs are distinct. -/
theorem selected_distinct {timely : Prop} {stamp : ClaimStamp} {early : List Event}
    {selected : List SelectedRow} {after : Queue} (sound : after.Sound space)
    (evolves : ∀ task, ∃ first last, Lives space task first ∧ after.rowsOf task = Life.rows last ∧
      Evolves space timely task (early ++ selected.map fun row => stamp.event row.2) first last) :
    (selected.map fun row => row.2.id).Nodup := by
  induction selected generalizing early with
  | nil => exact List.nodup_nil
  | cons row rest inductionHypothesis =>
      have tail := @inductionHypothesis (early ++ [stamp.event row.2]) (by simpa using evolves)
      refine List.nodup_cons.mpr ⟨fun repeated => ?_, tail⟩
      obtain ⟨other, member, sameRun⟩ := List.mem_map.mp repeated
      obtain ⟨first, last, lives, lastRows, steps⟩ := evolves row.2.taskId
      obtain ⟨life, _, isRun, isLast, elsewhere⟩ := steps.claims_selected lives
      obtain ⟨front, back, isRest⟩ := List.append_of_mem member
      obtain ⟨otherFirst, otherLast, otherLives, otherRows, otherSteps⟩ := evolves other.2.taskId
      rw [isRest, List.map_cons, List.map_append, List.map_cons, ← List.cons_append,
        ← List.append_assoc] at otherSteps
      obtain ⟨otherLife, _, isOther, isOtherLast, _⟩ := otherSteps.claims_selected otherLives
      rw [isLast] at lastRows
      rw [isOtherLast] at otherRows
      have inLast : row.2.id ∈ ((stamp.transition row.2).after life).runIds :=
        List.mem_map.mpr ⟨_, Life.last_mem_runs _, isRun⟩
      have inOther : row.2.id ∈ ((stamp.transition other.2).after otherLife).runIds :=
        List.mem_map.mpr ⟨_, Life.last_mem_runs _, isOther.trans sameRun⟩
      exact elsewhere other member (sound.one_owner otherRows lastRows inOther inLast)

namespace ClaimTakes

variable {before last : Queue} {commitment : Commitment} {stamp : ClaimStamp} {seconds : Int}
variable {sweeps : List Event} {selected : List SelectedRow}

theorem distinct (claims : ClaimTakes space before last workerId leaseSeconds claimed commitment
      stamp seconds sweeps selected)
    (sound : before.Sound space) (soundLast : last.Sound space) :
    (claimed.map ClaimedTask.runId).Nodup := by
  have evolves : ∀ task, ∃ first late, Lives space task first ∧
      last.rowsOf task = Life.rows late ∧ Evolves space False task
        (sweeps ++ selected.map fun row => stamp.event row.2) first late := by
    intro task
    obtain ⟨first, late, firstRows, lateRows, evolves⟩ := claims.takes.evolves task
    rw [claims.events] at evolves
    exact ⟨first, late, fun present isPresent => sound.life_of_rows (isPresent ▸ firstRows),
      lateRows, evolves⟩
  exact claims.isPerm.nodup_iff.mpr (selected_distinct soundLast evolves)

/-- A returned run was selected. -/
theorem selects (claims : ClaimTakes space before last workerId leaseSeconds claimed commitment
      stamp seconds sweeps selected) {row : ClaimedTask} (member : row ∈ claimed) :
    ∃ chosen ∈ selected, chosen.2.id = row.runId := by
  have inIds : row.runId ∈ selected.map fun row => row.2.id :=
    claims.isPerm.mem_iff.mp (List.mem_map_of_mem member)
  exact List.mem_map.mp inIds

/-- A claim leaves the task of a returned run as the claim of this run does. -/
theorem leaves (claims : ClaimTakes space before last workerId leaseSeconds claimed commitment
      stamp seconds sweeps selected) (sound : before.Sound space) {row : ClaimedTask}
    (member : row ∈ claimed) :
    ∃ (task : Uuid) (life : Life), life.last.id = row.runId ∧ last.rowsOf task =
      Life.rows (some ((Transition.claim row.runId stamp.workerId stamp.nowAt
        stamp.expiresAt).after life)) := by
  obtain ⟨chosen, inSelected, isRun⟩ := claims.selects member
  obtain ⟨front, back, isSelected⟩ := List.append_of_mem inSelected
  obtain ⟨early, late, earlyRows, lateRows, evolves⟩ := claims.takes.evolves chosen.2.taskId
  rw [claims.events, isSelected, List.map_append, List.map_cons, ← List.append_assoc] at evolves
  obtain ⟨life, _, isLast, isLate, _⟩ := evolves.claims_selected fun present isPresent =>
    sound.life_of_rows (isPresent ▸ earlyRows)
  refine ⟨chosen.2.taskId, life, isLast.trans isRun, ?_⟩
  rw [lateRows, isLate, ← isRun]
  rfl

/-- A claim leaves the runs it returns withheld. -/
theorem withholds (claims : ClaimTakes space before last workerId leaseSeconds claimed commitment
      stamp seconds sweeps selected) (sound : before.Sound space) {row : ClaimedTask}
    (member : row ∈ claimed) : ∃ task, last.Withholds task row.runId := by
  obtain ⟨task, life, isRun, rows⟩ := claims.leaves sound member
  refine ⟨task, _, rows, List.mem_map.mpr ⟨_, Life.last_mem_runs _, isRun⟩, ?_⟩
  rintro ⟨_, waiting⟩
  cases waiting

/-- A claim returns no run that was withheld. -/
theorem not_withheld (claims : ClaimTakes space before last workerId leaseSeconds claimed commitment
      stamp seconds sweeps selected) (sound : before.Sound space) (soundLast : last.Sound space)
    {row : ClaimedTask} (member : row ∈ claimed) (task : Uuid) :
    ¬before.Withholds task row.runId := by
  intro withheld
  obtain ⟨chosen, inSelected, isRun⟩ := claims.selects member
  rw [← isRun] at withheld
  refine claims.takes.not_claims sound soundLast withheld
    (fun observedAt wakeAt => claims.unslept _ _ observedAt wakeAt) (?_ : stamp.event chosen.2 ∈ _)
  rw [claims.events]
  exact List.mem_append_right _ (List.mem_map_of_mem inSelected)

end ClaimTakes

theorem Contested.claimTakes (contested : Contested space store labels contest)
    (claims : contest.Claims space id workerId leaseSeconds claimed after) :
    ∃ commitment stamp seconds sweeps selected, ClaimTakes space contest.store after.store workerId
        leaseSeconds claimed commitment stamp seconds sweeps selected ∧
      ∀ row ∈ claimed, contest.Reads id stamp.nowAt := by
  obtain ⟨quantity, taskNames, commits⟩ := claims
  obtain ⟨events, takes, reads⟩ := contested.takes commits
  obtain ⟨stamp, seconds, sweeps, selected, worker, lease, expires, isPerm, isEvents⟩ :=
    takes.explained.claims
  have claims : ClaimTakes space contest.store after.store workerId leaseSeconds claimed
      ⟨⟨.claimTasks workerId leaseSeconds quantity taskNames, claimed⟩, events⟩ stamp seconds sweeps
      selected := by
    refine ⟨takes, worker, lease, expires, isPerm, isEvents, ?_⟩
    intro task run observedAt wakeAt slept
    obtain ⟨_, impossible⟩ := takes.explained.sleeps slept
    cases impossible
  refine ⟨_, stamp, seconds, sweeps, selected, claims, fun row member => ?_⟩
  obtain ⟨chosen, inSelected, _⟩ := claims.selects member
  have caused : stamp.event chosen.2 ∈ sweeps ++ selected.map fun row => stamp.event row.2 :=
    List.mem_append_right _ (List.mem_map_of_mem inSelected)
  exact reads _ (isEvents.symm ▸ caused) _ List.mem_cons_self

/-- A run that is withheld stays so, or some commit suspends it. -/
theorem Contested.withheld_or_suspended {moves : List Contest.Move} {later : Contest}
    {task run : Uuid} (contested : Contested space store labels contest)
    (withheld : contest.store.Withholds task run)
    (starts : ∀ script, .start script ∈ moves → Contending space script)
    (trace : Trace (System.Steps (storage space)) contest moves later) :
    later.store.Withholds task run ∨
      ∃ past party future, ∃ source target : Contest, ∃ wakeAt,
        Moment (System.Steps (storage space)) contest moves later past (.commit party) future
          source target ∧
        source.Commits space party ⟨.scheduleRun run wakeAt, .suspended⟩ target := by
  rcases trace.all_or_one fun source target : Contest =>
      source.store.Withholds task run → target.store.Withholds task run with
    always | ⟨past, move, future, source, target, isMoves, early, steps, released, late⟩
  · let holds (contest : Contest) : Prop := contest.store.Withholds task run
    have still : holds later :=
      always.invariant (fun source label target steps still => steps.2 still) withheld
    exact Or.inl still
  · obtain ⟨held, isReleased⟩ := Classical.not_imp.mp released
    have startsEarly : ∀ script, .start script ∈ past → Contending space script :=
      fun script member => starts script (isMoves ▸ List.mem_append_left _ member)
    have there := contested.append startsEarly early
    rcases Contest.step_cases steps with ⟨party, returned, isMove, commits⟩ | ⟨_, same⟩
    · subst isMove
      obtain ⟨events, takes, _⟩ := there.takes commits
      have slept : ∃ observedAt wakeAt, .moved task (.sleep run observedAt wakeAt) ∈ events := by
        by_contra unslept
        refine isReleased (takes.withholds there.coherent.store (there.step commits).coherent.store
          held fun observedAt wakeAt member => unslept ⟨observedAt, wakeAt, member⟩)
      obtain ⟨observedAt, wakeAt, member⟩ := slept
      obtain ⟨requested, isReturned⟩ := takes.explained.sleeps member
      have isSuspension : returned = ⟨.scheduleRun run requested, .suspended⟩ := isReturned
      subst isSuspension
      exact Or.inr ⟨past, party, future, source, target, requested, ⟨isMoves, early, steps, late⟩,
        commits⟩
    · rw [same] at isReleased
      exact absurd held isReleased

end Exclusive

/-- In every state of every run of contending calls, claims are exclusive. -/
theorem Contested.claimsExclusive {store : Queue} {labels : List Contest.Move} {contest : Contest}
    (contested : Contested space store labels contest) : ClaimsExclusive space contest := by
  have sound := contested.coherent.store
  refine ⟨?_, ?_, ?_⟩
  · intro id workerId leaseSeconds claimed after claims
    obtain ⟨commitment, stamp, seconds, sweeps, selected, takes, reads⟩ :=
      contested.claimTakes claims
    refine ⟨seconds, stamp.nowAt, takes.lease, fun row member => ⟨reads row member, ?_⟩⟩
    have soundAfter := (contested.step claims.choose_spec.choose_spec).coherent.store
    obtain ⟨task, life, isRun, rows⟩ := takes.leaves sound member
    have found := soundAfter.findRun_last rows
    obtain ⟨valid, owner⟩ := soundAfter.life_of_rows rows
    have foundTask : after.store.findTask task = some _ := congrArg Rows.task rows
    rw [← owner, ← valid.owned _ (Life.last_mem_runs _)] at foundTask
    exact ⟨_, isRun ▸ found, rfl, takes.worker.symm, rfl, congrArg some takes.expires, _, foundTask,
      rfl, isRun⟩
  · intro id workerId leaseSeconds claimed after claims
    obtain ⟨commitment, stamp, seconds, sweeps, selected, takes, _⟩ := contested.claimTakes claims
    exact takes.distinct sound (contested.step claims.choose_spec.choose_spec).coherent.store
  · intro id workerId leaseSeconds claimed after claims moves later starts trace other otherWorker
      otherLease again last claimsAgain row member twice memberAgain sameRun
    obtain ⟨commitment, stamp, seconds, sweeps, selected, takes, _⟩ := contested.claimTakes claims
    have there := contested.step claims.choose_spec.choose_spec
    obtain ⟨task, withheld⟩ := takes.withholds sound member
    refine (there.withheld_or_suspended withheld starts trace).resolve_left fun still => ?_
    have contestedLater := there.append starts trace
    obtain ⟨_, _, _, _, _, takesAgain, _⟩ := contestedLater.claimTakes claimsAgain
    refine takesAgain.not_withheld contestedLater.coherent.store
      (contestedLater.step claimsAgain.choose_spec.choose_spec).coherent.store memberAgain task ?_
    rw [sameRun]
    exact still

/-- The first claim of the race for one run is about to commit. -/
theorem Contested.claimsExclusive_claimRace :
    ∃ contest after claimed, contest.Claims asciiSpace 0 (some "first") (some 60) claimed after ∧
      claimed.map ClaimedTask.runId = [1] ∧
      after.store.runs.map RunRow.claimedBy = [some "first"] ∧
      ClaimsExclusive asciiSpace contest := by
  obtain ⟨_, raced, _⟩ := contested_claimRace
  have begun : ∃ contest, Contested asciiSpace (World.serve asciiSpace [plainSubmission []]
      (.blank second)).2.store claimRace.dropLast contest ∧ ∃ after claimed,
        contest.Claims asciiSpace 0 (some "first") (some 60) claimed after ∧
        claimed.map ClaimedTask.runId = [1] ∧
        after.store.runs.map RunRow.claimedBy = [some "first"] := by
    refine ⟨_, ⟨(World.history_serve _ second).sound, ?_, System.trace_moves rfl⟩, _, _,
      ⟨some 1, some [some "report"], ⟨_, rfl, rfl⟩, rfl⟩, rfl, rfl⟩
    exact fun script member => raced.2.1 script (List.dropLast_subset _ member)
  obtain ⟨contest, contested, after, claimed, claims, isRun, claimedBy⟩ := begun
  exact ⟨contest, after, claimed, claims, isRun, claimedBy, contested.claimsExclusive⟩

end Steda
