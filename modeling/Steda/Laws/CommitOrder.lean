import Steda.Laws.Races
import Steda.Laws.Reclaiming

/-!
# Commit order

The statements of calls that neither submit nor delete may interleave in any
way.  What they commit is what their events do one call after the other, in the
order of the commits: each call adds the events its result tells of to the lives
of the tasks and to the checkpoints, and nothing else changes them.
-/

namespace Steda

open Postgres Transaction Relational

variable {space : Char → Bool}

/-! ## What a commit does -/

/-- The events of a call amid others account for its result. -/
inductive Returned.Explained (space : Char → Bool) : Returned → List Event → Prop
  | ordinary {returned : Returned} {events : List Event} (isOrdinary : returned.1.Ordinary)
      (caused : returned.1.Caused space returned.2 events) : Explained space returned events
  | claimed {workerId : Option String} {leaseSeconds quantity : Option Int}
      {taskNames : Option (List (Option String))} {claimed : List ClaimedTask}
      {arguments : ClaimRequest} {stamp : ClaimStamp} {sweeps : List Event}
      {selected : List SelectedRow}
      (validated : validateClaim space workerId leaseSeconds quantity taskNames = .ok arguments)
      (worker : stamp.workerId = arguments.workerId)
      (expires : stamp.expiresAt = stamp.nowAt + arguments.leaseSeconds * second)
      (areSweeps : ∀ event ∈ sweeps, event.Sweeps)
      (isPerm : claimed.Perm (selected.map fun row => claimedTask row.1.1 row.2))
      (fits : ∀ row ∈ selected,
        claimCandidate stamp.nowAt arguments.taskNames row.1.1 row.2 = .ok true) :
      Explained space ⟨.claimTasks workerId leaseSeconds quantity taskNames, claimed⟩
        (sweeps ++ selected.map fun row => stamp.event row.2)

/-- A call that has committed, with the events it has caused. -/
structure Commitment where
  returned : Returned
  events : List Event

/-- What a commit does to the queue: the rows of every task follow the events of
the call, and so do the checkpoints. -/
structure Commitment.Takes (space : Char → Bool) (commitment : Commitment)
    (before after : Queue) : Prop where
  explained : commitment.returned.Explained space commitment.events
  retains : ∀ task, .deleted task ∉ commitment.events
  evolves : ∀ task, ∃ first last, before.rowsOf task = Life.rows first ∧
    after.rowsOf task = Life.rows last ∧ Evolves space False task commitment.events first last
  checkpoints : after.checkpoints = Event.replay commitment.events before.checkpoints

/-- A call that contends has explained events when it returns. -/
theorem Operation.Contends.explained {operation : Operation} (contends : operation.Contends)
    {start : Queue} (sound : start.Sound space) {past : List Exchange} {value : Returned} {tx : Tx}
    (conduct : Amid (storage space) (interference space False) (operation.script space)
      (Local.start start) past (.done value) tx) :
    ∃ events, value.Explained space events ∧ Reaches space False .blank events tx := by
  have stable : Stably space False (Settled space False .blank) (Local.start start) :=
    settled_start sound
  have ensures : Guarantees space False (operation.script space)
      (fun value tx => ∃ events, value.Explained space events ∧
        Reaches space False .blank events tx) (fun _ _ => True) (Local.start start) := by
    cases operation with
    | spawnTask taskName params options => cases contends
    | cleanupTasks => cases contends
    | claimTasks workerId leaseSeconds quantity taskNames =>
        refine Program.Ensures.bind (Program.Ensures.mono ?_ (fun _ _ raised => raised)
          (guarantees_claimTasks (reports_anything False) tolerates_anything workerId leaseSeconds
            quantity taskNames stable))
        rintro claimed later ⟨arguments, stamp, sweeps, middle, validated, worker, expires,
          extended, areSweeps, selected, isPerm, reached, fits, _⟩ store moved
        exact ⟨_, .claimed validated worker expires areSweeps isPerm fits,
          (reached.prepend extended).after moved⟩
    | _ =>
        refine Program.Ensures.bind (Program.Ensures.mono ?_ (fun _ _ raised => raised)
          (guarantees_ordinary (reports_anything False) tolerates_anything _ trivial
            (Or.inr refuses_anything) stable))
        rintro result later ⟨events, caused, reached⟩ store moved
        exact ⟨events, .ordinary trivial caused, reached.after moved⟩
  exact ensures.returned conduct

/-- A call has caused only what its function may cause. -/
theorem Returned.Explained.mayCause {returned : Returned} {events : List Event}
    (explained : returned.Explained space events) :
    ∀ event ∈ events, returned.1.MayCause event := by
  intro event member
  cases explained with
  | ordinary _ caused => exact caused.mayCause event member
  | claimed _ _ _ areSweeps _ _ =>
      rcases List.mem_append.mp member with inSweeps | inClaims
      · exact (areSweeps event inSweeps).mayCause _ _ _ _
      · obtain ⟨row, _, isEvent⟩ := List.mem_map.mp inClaims
        rw [← isEvent]
        trivial

/-- An explained call deletes nothing. -/
theorem Returned.Explained.retains {returned : Returned} {events : List Event}
    (explained : returned.Explained space events) (task : Uuid) : .deleted task ∉ events := by
  intro member
  have may := explained.mayCause _ member
  obtain ⟨operation, result⟩ := returned
  cases explained with
  | claimed => exact may
  | ordinary isOrdinary _ =>
      cases operation with
      | cleanupTasks => exact isOrdinary
      | _ => exact may

section Commits

variable {store : Queue} {labels : List Contest.Move} {contest after : Contest} {id : Nat}
variable {returned : Returned}

/-- A transaction has read the clock. -/
def Contest.Reads (contest : Contest) (id : Nat) (reading : Timestamp) : Prop :=
  ∃ party, contest.party id = some party ∧ reading ∈ party.state.readings

/-- A commit does to the queue what the events of the call do, and its events
are stamped with its readings of the clock. -/
theorem Contested.takes (contested : Contested space store labels contest)
    (commits : contest.Commits space id returned after) :
    ∃ events, Commitment.Takes space ⟨returned, events⟩ contest.store after.store ∧
      ∀ event ∈ events, ∀ reading ∈ event.stamps, contest.Reads id reading := by
  have coherent := contested.coherent
  obtain ⟨call, present, isDone⟩ := commits.call
  obtain ⟨operation, contends, isScript⟩ := coherent.allowed id call present
  obtain ⟨start, sound, conduct⟩ := coherent.conduct id call present
  rw [isScript, isDone] at conduct
  obtain ⟨events, explained, later, extended, settled⟩ :=
    contends.explained sound (Amid.interference conduct)
  obtain ⟨committedSound, _⟩ := coherent.commits discipline_contending present isDone
  have committed := System.step_commit present isDone committedSound.deferred commits.step
  have now := Rely.Stable.now settled
  have isEvents : later.events = events := extended.events
  rw [committed, ← coherent.current id call present]
  refine ⟨events, ⟨explained, explained.retains, fun task => ?_, ?_⟩, ?_⟩
  · obtain ⟨first, last, firstRows, lastRows, evolves⟩ := now.evolves task (by simp)
    rw [isEvents] at evolves
    exact ⟨first, last, firstRows, lastRows, evolves⟩
  · rw [← isEvents]
    exact now.checkpoints
  · intro event member reading stamps
    refine ⟨call, present, ?_⟩
    rw [now.readings]
    exact later.stamped event (isEvents ▸ member) reading stamps

/-- A move commits a call that has returned, or it leaves the queue as it is. -/
theorem Contest.step_cases {move : Contest.Move}
    (steps : System.Steps (storage space) contest move after) :
    (∃ id returned, move = .commit id ∧ contest.Commits space id returned after) ∨
      ((∀ id returned, move = .commit id → ¬contest.Commits space id returned after) ∧
        after.store = contest.store) := by
  by_cases isCommit : ∃ id returned, move = .commit id ∧ contest.Commits space id returned after
  · exact Or.inl isCommit
  refine Or.inr ⟨fun id returned isMove commits => isCommit ⟨id, returned, isMove, commits⟩, ?_⟩
  cases move with
  | start script =>
      cases steps
      rfl
  | abort id =>
      cases steps
      rfl
  | advance id reading ident =>
      change contest.step (storage space) (.advance id reading ident) = some after at steps
      unfold System.step at steps
      dsimp only at steps
      split at steps
      · cases steps
      · split at steps
        · split at steps
          · cases steps
            rfl
          · cases steps
            rfl
          · cases steps
        · cases steps
  | commit id =>
      have possible : contest.step (storage space) (.commit id) = some after := steps
      cases present : contest.party id with
      | none =>
          simp only [System.step, present] at possible
          cases possible
      | some call =>
          cases isRest : call.rest with
          | done returned =>
              exact absurd ⟨id, returned, rfl, ⟨call, present, isRest⟩, steps⟩ isCommit
          | raise error =>
              simp only [System.step, present, isRest] at possible
              cases possible
              rfl
          | perform command next =>
              simp only [System.step, present, isRest] at possible
              cases possible

end Commits

/-! ## The log -/

/-- The log of a run: one entry for each commit, in the order of the commits. -/
inductive Contest.Log (space : Char → Bool) :
    Contest → List Contest.Move → List Commitment → Contest → Prop
  | nil (contest : Contest) : Log space contest [] [] contest
  | silent {first middle last : Contest} {move : Contest.Move} {moves : List Contest.Move}
      {log : List Commitment} (steps : System.Steps (storage space) first move middle)
      (uncommitted : ∀ id returned, move = .commit id → ¬first.Commits space id returned middle)
      (same : middle.store = first.store) (rest : Log space middle moves log last) :
      Log space first (move :: moves) log last
  | commits {first middle last : Contest} {id : Nat} {moves : List Contest.Move}
      {commitment : Commitment} {log : List Commitment}
      (commits : first.Commits space id commitment.returned middle)
      (takes : commitment.Takes space first.store middle.store)
      (rest : Log space middle moves log last) :
      Log space first (.commit id :: moves) (commitment :: log) last

namespace Contest.Log

variable {first last : Contest} {moves : List Contest.Move} {log : List Commitment}

/-- All events of a log. -/
def events (log : List Commitment) : List Event :=
  log.flatMap Commitment.events

/-- The rows of a task follow the events of the log. -/
theorem evolves (logged : Contest.Log space first moves log last) {task : Uuid}
    {early : Option Life} (rows : first.store.rowsOf task = Life.rows early) :
    ∃ late, last.store.rowsOf task = Life.rows late ∧
      Evolves space False task (events log) early late := by
  induction logged generalizing early with
  | nil => exact ⟨early, rows, rfl⟩
  | silent _ _ same _ inductionHypothesis =>
      exact inductionHypothesis (same ▸ rows)
  | commits _ takes _ inductionHypothesis =>
      obtain ⟨known, middle, knownRows, middleRows, head⟩ := takes.evolves task
      have isKnown : known = early := Life.rows_injective (knownRows.symm.trans rows)
      subst isKnown
      obtain ⟨late, lateRows, rest⟩ := inductionHypothesis middleRows
      exact ⟨late, lateRows, head.append rest⟩

/-- The checkpoints follow the events of the log. -/
theorem checkpoints (logged : Contest.Log space first moves log last) :
    last.store.checkpoints = Event.replay (events log) first.store.checkpoints := by
  induction logged with
  | nil => rfl
  | silent _ _ same _ inductionHypothesis => rw [inductionHypothesis, same]
  | commits _ takes _ inductionHypothesis =>
      rw [inductionHypothesis, takes.checkpoints, events, events, List.flatMap_cons]
      exact (List.foldl_append ..).symm

/-- Nothing in a log is deleted. -/
theorem retains (logged : Contest.Log space first moves log last) (task : Uuid) :
    .deleted task ∉ events log := by
  induction logged with
  | nil => exact List.not_mem_nil
  | silent _ _ _ _ inductionHypothesis => exact inductionHypothesis
  | commits _ takes _ inductionHypothesis =>
      rw [events, List.flatMap_cons, List.mem_append]
      exact not_or.mpr ⟨takes.retains task, inductionHypothesis⟩

end Contest.Log

/-- Events that delete nothing keep every checkpoint. -/
theorem Event.replay_extends {events : List Event} (retains : ∀ task, .deleted task ∉ events)
    (rows : List CheckpointRow) : rows <+: Event.replay events rows := by
  induction events generalizing rows with
  | nil => exact List.prefix_rfl
  | cons event rest inductionHypothesis =>
      have later : rows <+: event.onCheckpoints rows := by
        cases event with
        | deleted task => exact absurd List.mem_cons_self (retains task)
        | recorded checkpoint run observedAt => exact List.prefix_append _ _
        | submitted task run => exact List.prefix_rfl
        | moved task transition => exact List.prefix_rfl
      exact later.trans (inductionHypothesis
        (fun task member => retains task (List.mem_cons_of_mem _ member)) _)

section Runs

variable {store : Queue} {labels moves : List Contest.Move} {contest later : Contest}

/-- A contest goes on. -/
theorem Contested.append (contested : Contested space store labels contest)
    (starts : ∀ script, .start script ∈ moves → Contending space script)
    (trace : Trace (System.Steps (storage space)) contest moves later) :
    Contested space store (labels ++ moves) later := by
  refine ⟨contested.1, ?_, contested.2.2.append trace⟩
  intro script member
  exact (List.mem_append.mp member).elim (contested.2.1 script) (starts script)

/-- Whatever contends from some state on leaves a log. -/
theorem Contested.logged (contested : Contested space store labels contest)
    (starts : ∀ script, .start script ∈ moves → Contending space script)
    (trace : Trace (System.Steps (storage space)) contest moves later) :
    ∃ log, Contest.Log space contest moves log later := by
  induction trace generalizing labels with
  | nil state => exact ⟨[], .nil state⟩
  | cons steps rest inductionHypothesis =>
      have next := contested.append
        (fun script member => starts script (List.mem_singleton.mp member ▸ List.mem_cons_self))
        (.cons steps (.nil _))
      obtain ⟨log, logged⟩ := inductionHypothesis next fun script member =>
        starts script (List.mem_cons_of_mem _ member)
      rcases Contest.step_cases steps with ⟨id, returned, isMove, commits⟩ | ⟨uncommitted, same⟩
      · subst isMove
        obtain ⟨events, takes, _⟩ := contested.takes commits
        exact ⟨⟨returned, events⟩ :: log, .commits commits takes logged⟩
      · exact ⟨log, .silent steps uncommitted same logged⟩

end Runs

/-- The committed queue of a contest is what its log makes of the first queue. -/
theorem Contested.commitOrder {store : Queue} {labels : List Contest.Move} {contest : Contest}
    (contested : Contested space store labels contest) :
    ∃ log, Contest.Log space (System.idle store) labels log contest ∧
      (∀ task, ∃ early late, store.rowsOf task = Life.rows early ∧
        contest.store.rowsOf task = Life.rows late ∧
        Evolves space False task (Contest.Log.events log) early late) ∧
      contest.store.checkpoints = Event.replay (Contest.Log.events log) store.checkpoints ∧
      store.checkpoints <+: contest.store.checkpoints := by
  have begins : Contested space store [] (System.idle store) :=
    ⟨contested.1, fun _ impossible => absurd impossible List.not_mem_nil, Trace.nil _⟩
  obtain ⟨log, logged⟩ := begins.logged contested.2.1 contested.2.2
  refine ⟨log, logged, fun task => ?_, logged.checkpoints, ?_⟩
  · obtain ⟨early, earlyRows, _⟩ := contested.1.lives task
    obtain ⟨late, lateRows, evolves⟩ := logged.evolves earlyRows
    exact ⟨early, late, earlyRows, lateRows, evolves⟩
  · rw [logged.checkpoints]
    exact Event.replay_extends logged.retains _

/-- Two claims of one run: the first has locked it when the second looks for
runs. -/
def claimRace : List Contest.Move :=
  let first := .advance 0 second 2
  let last := .advance 1 second 2
  [.start ((plainClaim "first").script asciiSpace),
    .start ((plainClaim "last").script asciiSpace)] ++ List.replicate 8 first ++
      List.replicate 8 last ++ List.replicate 4 first ++ [.commit 1, .commit 0]

/-- The race can take place, and the first worker wins it. -/
theorem contested_claimRace :
    ∃ contest, Contested asciiSpace (World.serve asciiSpace [plainSubmission []]
        (.blank second)).2.store claimRace contest ∧
      contest.store.runs.map RunRow.claimedBy = [some "first"] := by
  refine ⟨_, ⟨(World.history_serve _ second).sound, ?_, System.trace_moves rfl⟩, rfl⟩
  intro script member
  simp only [claimRace, List.cons_append, List.nil_append, List.mem_cons, List.mem_append,
    List.mem_replicate, reduceCtorEq, and_false, or_false, Move.start.injEq,
    List.not_mem_nil] at member
  rcases member with rfl | rfl
  · exact ⟨plainClaim "first", trivial, rfl⟩
  · exact ⟨plainClaim "last", trivial, rfl⟩

/-- The queue after the race is what the log of the race makes of the first one. -/
theorem Contested.commitOrder_claimRace :
    ∃ contest log, contest.store.runs.map RunRow.claimedBy = [some "first"] ∧
      Contest.Log asciiSpace (System.idle (World.serve asciiSpace [plainSubmission []]
        (.blank second)).2.store) claimRace log contest ∧
      contest.store.checkpoints = Event.replay (Contest.Log.events log) [] := by
  obtain ⟨contest, contested, claimedBy⟩ := contested_claimRace
  obtain ⟨log, logged, _, checkpoints, _⟩ := contested.commitOrder
  exact ⟨contest, log, claimedBy, logged, checkpoints⟩

end Steda
