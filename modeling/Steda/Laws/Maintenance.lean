import Steda.Functions.Maintenance
import Steda.Laws.TaskInvariant
import Steda.Functions.QueuePolicy
import Steda.Serial.Calls
import Steda.Serial.Retention

/-!
# Cleaning every queue

A cleanup of all queues gives every queue that stays registered exactly one
batch, unless a queue it has listed is dropped before it is reached: then it
raises, and the batches it has done are undone.
-/

namespace Steda

open Postgres Transaction

variable {server : Server} {base : List Registered}

namespace Maintenance

variable {initial state after final : Maintenance} {labels : List MaintenanceMove}

/-! ## What a run shows -/

/-- The listed queues whose registration is still to be read. -/
def toVisit (state : Maintenance) : List String :=
  match state.phase with
  | .fetching rest => rest
  | .locking name rest | .reading name rest => name :: rest
  | .idle | .opening _ | .returned | .committed | .raised _ => []

/-- The listed queues whose advisory lock is still to be taken. -/
def pending (state : Maintenance) : List String :=
  match state.phase with
  | .fetching rest | .reading _ rest => rest
  | .locking name rest => name :: rest
  | .idle | .opening _ | .returned | .committed | .raised _ => []

/-- The call has returned or raised. -/
def Concluded (state : Maintenance) : Prop :=
  state.phase = .returned ∨ state.phase = .committed ∨ ∃ error, state.phase = .raised error

/-- The queue is registered in every state of a run. -/
def StaysRegistered (server : Server) (initial : Maintenance) (labels : List MaintenanceMove)
    (name : String) : Prop :=
  ∀ past later middle, labels = past ++ later → Trace (Steps server) initial past middle →
    name ∈ middle.names

/-- No listed queue is deleted before the call has its advisory lock. -/
def Spares (state after : Maintenance) : Prop :=
  ∀ name ∈ state.pending, name ∈ state.names → name ∈ after.names

/-- The steps of a run that spares the listed queues. -/
def SparingSteps (server : Server) (state : Maintenance) (move : MaintenanceMove)
    (after : Maintenance) : Prop :=
  state.Steps server move after ∧ state.Spares after

/-- The call does not raise, and every queue that stays registered has exactly
one batch applied and reported. -/
structure CleansEvery (server : Server) (initial : Maintenance) (labels : List MaintenanceMove)
    (final : Maintenance) : Prop where
  quiet : ∀ error, final.phase ≠ .raised error
  each : final.phase = .returned ∨ final.phase = .committed →
    ∀ name, StaysRegistered server initial labels name →
      ∃ batch, final.batches.filter (fun done => done.name == name) = [batch] ∧
        final.rows.filter (fun row => row.1 == name) = [(name, batch.deleted)] ∧
        ⟨name, batch.before.store⟩ ∈ initial.registry ∧
        Operation.cleanupTasks.perform server.space batch.before = (.ok batch.deleted, batch.after) ∧
        (final.phase = .committed → ⟨name, batch.after.store⟩ ∈ final.registry)

/-- Registrations as `create_queue` and the stored functions leave them. -/
structure WellFormed (server : Server) (registry : List Registered) : Prop where
  distinct : (registry.map Registered.name).Nodup
  valid : ∀ row ∈ registry, validateQueueName server.space (some row.name) = .ok row.name
  sound : ∀ row ∈ registry, row.queue.Sound server.space

/-! ## What a step can do -/

/-- Every lock that some transactions of `drop_queue` hold was held before, or
was free. -/
def DropsFrom (server : Server) (state : Maintenance) (drops : List DropSession) : Prop :=
  ∀ drop ∈ drops, ∀ name ∈ drop.locked?,
    (∃ old ∈ state.drops, old.locked? = some name) ∨ state.cleanupFree server name = true

/-- The effect of a step of a run in which the call is `cleanup_all_queues(NULL)`. -/
inductive Effect (server : Server) (state : Maintenance) : Maintenance → Prop
  | locks {drops : List DropSession} (origin : state.DropsFrom server drops) :
      Effect server state { state with drops := drops }
  | drops {name : String} {drops : List DropSession} (origin : state.DropsFrom server drops)
      (held : ∃ drop ∈ state.drops, drop.locked? = some name) :
      Effect server state
        { state with
          drops := drops
          registry := state.registry.filter fun row => row.name != name }
  | begins (idle : state.phase = .idle) :
      Effect server state { state with phase := .opening none }
  | opens (opening : state.phase = .opening none) :
      Effect server state { state with phase := .fetching (state.listed server none) }
  | fetches {name : String} {rest : List String} (fetching : state.phase = .fetching (name :: rest)) :
      Effect server state { state with phase := .locking name rest }
  | takes {name : String} {rest : List String} (locking : state.phase = .locking name rest)
      (free : state.dropsFree server name = true) :
      Effect server state { state with phase := .reading name rest }
  | misses {name : String} {rest : List String} (reading : state.phase = .reading name rest)
      (missing : name ∉ state.names) :
      Effect server state { state with phase := .raised (.queueMissing name) }
  | cleans {name : String} {rest : List String} {batch : Batch}
      (reading : state.phase = .reading name rest) (isName : batch.name = name)
      (registered : ⟨name, batch.before.store⟩ ∈ state.registry)
      (performed : Operation.cleanupTasks.perform server.space batch.before =
        (.ok batch.deleted, batch.after)) :
      Effect server state
        { state with phase := .fetching rest, batches := state.batches ++ [batch] }
  | returns (fetched : state.phase = .fetching []) :
      Effect server state { state with phase := .returned }
  | commits (returned : state.phase = .returned) :
      Effect server state
        { state with phase := .committed, registry := state.registry.map (cleaned state.batches) }

theorem find?_isNone {name : String} : state.find? name = none ↔ name ∉ state.names := by
  unfold find? names
  rw [List.find?_eq_none]
  simp only [beq_iff_eq, List.mem_map, not_exists, not_and]

theorem of_find? {name : String} {row : Registered} (found : state.find? name = some row) :
    ⟨name, row.queue⟩ ∈ state.registry := by
  have isName : row.name = name := by simpa using List.find?_some found
  subst isName
  exact List.mem_of_find?_eq_some found

/-- A statement of `drop_queue` takes only a free lock. -/
theorem dropsFrom_set {session : Nat} {drop : DropSession}
    (origin : ∀ name ∈ drop.locked?,
      (∃ old ∈ state.drops, old.locked? = some name) ∨ state.cleanupFree server name = true) :
    state.DropsFrom server (state.drops.set session drop) := by
  intro other member name isLocked
  rcases List.mem_or_eq_of_mem_set member with old | isDrop
  · exact Or.inl ⟨other, old, isLocked⟩
  · subst isDrop
    exact origin name isLocked

/-- A cleanup of a sound queue returns. -/
theorem cleanupTasks_returns {world : World} (sound : world.store.Sound server.space) :
    ∃ deleted after, Operation.cleanupTasks.perform server.space world = (.ok deleted, after) :=
  ⟨_, _, Operation.perform_returned sound (alone_cleanupTasks sound.keyed)⟩

theorem effect_goOn {session : Nat} (stepped : state.goOn server session = some after) :
    Effect server state after := by
  unfold goOn at stepped
  split at stepped
  · next name isDrop =>
      split at stepped
      · next free =>
          cases stepped
          refine .locks (dropsFrom_set fun other isName => Or.inr ?_)
          cases isName
          exact (Bool.and_eq_true_iff.mp free).2
      · cases stepped
  · next name isDrop =>
      cases stepped
      refine .locks (dropsFrom_set fun other isName => Or.inl ?_)
      cases isName
      exact ⟨_, List.mem_of_getElem? isDrop, rfl⟩
  · cases stepped

theorem effect_commitDrop {session : Nat} (stepped : state.commitDrop session = some after) :
    Effect server state after := by
  unfold commitDrop at stepped
  split at stepped
  · next name deletes isDrop =>
      cases stepped
      have origin : state.DropsFrom server (state.drops.set session .ended) :=
        dropsFrom_set fun _ impossible => nomatch impossible
      cases deletes with
      | false => exact .locks origin
      | true => exact .drops origin ⟨_, List.mem_of_getElem? isDrop, rfl⟩
  · cases stepped

/-- The statements of `cleanup_all_queues(NULL)`. -/
theorem effect_advance {clock : Nat → Timestamp}
    (stepped : state.advance server clock = some after)
    (opening : ∀ requested, state.phase = .opening requested → requested = none)
    (valid : ∀ name ∈ state.toVisit, validateQueueName server.space (some name) = .ok name)
    (sound : ∀ name rest, state.phase = .reading name rest →
      ∀ row ∈ state.registry, row.queue.Sound server.space) : Effect server state after := by
  unfold advance at stepped
  split at stepped
  · next requested isOpening =>
      cases opening requested isOpening
      cases stepped
      exact .opens isOpening
  · next fetched =>
      cases stepped
      exact .returns fetched
  · next name rest fetching =>
      have isValid := valid name (by simp [toVisit, fetching])
      simp only [isValid] at stepped
      cases stepped
      exact .fetches fetching
  · next name rest locking =>
      split at stepped
      · next free =>
          cases stepped
          exact .takes locking free
      · cases stepped
  · next name rest reading =>
      split at stepped
      · next missing =>
          cases stepped
          exact .misses reading (find?_isNone.mp missing)
      · next row found =>
          obtain ⟨deleted, world, returned⟩ := @cleanupTasks_returns server
            { store := row.queue, clock := clock, idents := id }
            (sound name rest reading row (List.mem_of_find?_eq_some found))
          simp only [returned] at stepped
          cases stepped
          exact .cleans reading rfl (of_find? found) returned
  · cases stepped

/-- The effect of a possible move. -/
theorem Steps.effect {move : MaintenanceMove} (stepped : state.Steps server move after)
    (all : ∀ requested, move = .cleanup requested → requested = none)
    (opening : ∀ requested, state.phase = .opening requested → requested = none)
    (valid : ∀ name ∈ state.toVisit, validateQueueName server.space (some name) = .ok name)
    (sound : ∀ name rest, state.phase = .reading name rest →
      ∀ row ∈ state.registry, row.queue.Sound server.space) : Effect server state after := by
  unfold Steps at stepped
  cases move with
  | drop queueName =>
      simp only [step] at stepped
      split at stepped
      · cases stepped
        exact .locks fun drop member name isLocked => Or.inl ⟨drop, member, isLocked⟩
      · cases stepped
        refine .locks fun drop member name isLocked => ?_
        rcases List.mem_append.mp member with old | isNew
        · exact Or.inl ⟨drop, old, isLocked⟩
        · rw [List.mem_singleton.mp isNew] at isLocked
          cases isLocked
  | goOn session => exact effect_goOn stepped
  | commitDrop session => exact effect_commitDrop stepped
  | abortDrop session =>
      cases stepped
      exact .locks (dropsFrom_set fun _ impossible => nomatch impossible)
  | cleanup requested =>
      cases all requested rfl
      simp only [step, cleanup] at stepped
      split at stepped
      · next idle _ =>
          cases stepped
          exact .begins idle
      · next impossible => cases impossible
      · cases stepped
  | advance clock => exact effect_advance stepped opening valid sound
  | commitCleanup =>
      simp only [step, commitCleanup] at stepped
      split at stepped
      · next returned =>
          cases stepped
          exact .commits returned
      · cases stepped

/-! ## The invariant -/

@[simp] theorem cleaned_name (batches : List Batch) (row : Registered) :
    (cleaned batches row).name = row.name := by
  unfold cleaned
  split <;> rfl

/-- The registrations of a state that were there from the beginning. -/
def shown (state : Maintenance) (kept : List Registered) : List Registered :=
  match state.phase with
  | .committed => kept.map (cleaned state.batches)
  | _ => kept

theorem shown_names (kept : List Registered) :
    (state.shown kept).map Registered.name = kept.map Registered.name := by
  unfold shown
  split
  · rw [List.map_map]
    exact List.map_congr_left fun row _ => cleaned_name _ row
  · rfl

/-- A dropped queue is not shown. -/
theorem shown_without (name : String) (kept : List Registered) :
    (state.shown kept).filter (fun row => row.name != name) =
      state.shown (kept.filter fun row => row.name != name) := by
  unfold shown
  split
  · rw [List.filter_map]
    simp only [Function.comp_def, cleaned_name]
  · rfl

theorem shown_of_uncommitted (uncommitted : state.phase ≠ .committed) (kept : List Registered) :
    state.shown kept = kept := by
  unfold shown
  split
  · next committed => exact absurd committed uncommitted
  · rfl

/-- What holds in every state of a run that started from some registrations. -/
structure Sane (server : Server) (base : List Registered) (state : Maintenance) : Prop where
  registry : ∃ kept, kept.Sublist base ∧ state.registry = state.shown kept
  opening : ∀ requested, state.phase = .opening requested → requested = none
  visits : ∀ name ∈ state.toVisit, name ∈ base.map Registered.name
  batches : ∀ batch ∈ state.batches, ⟨batch.name, batch.before.store⟩ ∈ base ∧
    Operation.cleanupTasks.perform server.space batch.before = (.ok batch.deleted, batch.after)
  unstarted : state.phase = .idle ∨ state.phase = .opening none → state.batches = []
  distinct : (state.batches.map Batch.name ++ state.toVisit).Nodup
  covers : state.phase ≠ .idle → state.phase ≠ .opening none → (∀ error, state.phase ≠ .raised error) →
    ∀ name ∈ state.names, name ∈ state.batches.map Batch.name ++ state.toVisit
  apart : ∀ name ∈ state.cleanupLocks, ∀ drop ∈ state.drops, ∀ other ∈ drop.locked?,
    server.hashtext other ≠ server.hashtext name

theorem sane_start (server : Server) (base : List Registered) :
    (start base).Sane server base where
  registry := ⟨base, .refl base, rfl⟩
  opening := fun _ impossible => nomatch impossible
  visits := fun _ impossible => nomatch impossible
  batches := fun _ impossible => nomatch impossible
  unstarted := fun _ => rfl
  distinct := List.nodup_nil
  covers := fun started => absurd rfl started
  apart := fun _ impossible => nomatch impossible

namespace Sane

/-- Before the commit every registration was there from the beginning. -/
theorem mem_base (sane : state.Sane server base) (uncommitted : state.phase ≠ .committed)
    {row : Registered} (member : row ∈ state.registry) : row ∈ base := by
  obtain ⟨kept, sublist, isRegistry⟩ := sane.registry
  rw [isRegistry, shown_of_uncommitted uncommitted] at member
  exact sublist.subset member

theorem valid (sane : state.Sane server base) (wellFormed : WellFormed server base) :
    ∀ name ∈ state.toVisit, validateQueueName server.space (some name) = .ok name := by
  intro name member
  obtain ⟨row, inBase, isName⟩ := List.mem_map.mp (sane.visits name member)
  exact isName ▸ wellFormed.valid row inBase

theorem names_nodup (sane : state.Sane server base) (wellFormed : WellFormed server base) :
    state.names.Nodup := by
  obtain ⟨kept, sublist, isRegistry⟩ := sane.registry
  rw [names, isRegistry, shown_names]
  exact wellFormed.distinct.sublist (sublist.map _)

theorem effect (sane : state.Sane server base) (wellFormed : WellFormed server base)
    {move : MaintenanceMove} (stepped : state.Steps server move after)
    (all : ∀ requested, move = .cleanup requested → requested = none) :
    Effect server state after := by
  refine stepped.effect all sane.opening (sane.valid wellFormed) ?_
  intro name rest reading row member
  refine wellFormed.sound row (sane.mem_base ?_ member)
  rw [reading]
  exact nofun

end Sane

/-- No step registers a queue. -/
theorem Effect.names_subset (effect : Effect server state after) : after.names ⊆ state.names := by
  cases effect with
  | drops origin held => exact (List.filter_sublist.map _).subset
  | commits returned =>
      intro name member
      simpa only [names, List.map_map, Function.comp_def, cleaned_name] using member
  | _ => exact List.Subset.refl _

/-- Locks that were held before or were free are apart from the cleanup's. -/
theorem DropsFrom.apart {drops : List DropSession} (origin : state.DropsFrom server drops)
    (sane : state.Sane server base) :
    ∀ name ∈ state.cleanupLocks, ∀ drop ∈ drops, ∀ other ∈ drop.locked?,
      server.hashtext other ≠ server.hashtext name := by
  intro name isLocked drop member other isOther
  rcases origin drop member other isOther with ⟨old, inDrops, held⟩ | free
  · exact sane.apart name isLocked old inDrops other held
  · have apart := List.all_eq_true.mp free name isLocked
    exact Ne.symm (bne_iff_ne.mp apart)

theorem mem_listed {name : String} : name ∈ state.listed server none ↔ name ∈ state.names := by
  unfold listed
  rw [List.mem_insertionSort]
  simp

theorem listed_nodup (distinct : state.names.Nodup) : (state.listed server none).Nodup :=
  (List.perm_insertionSort _ _).nodup_iff.mpr (distinct.filter _)

namespace Sane

/-- The registrations stay those of the beginning while nothing is committed. -/
theorem shows (sane : state.Sane server base) {phase : CleanupPhase} {batches : List Batch}
    (uncommitted : state.phase ≠ .committed) (uncommittedAfter : phase ≠ .committed) :
    ∃ kept : List Registered, kept.Sublist base ∧ state.registry =
      shown { state with phase := phase, batches := batches } kept := by
  obtain ⟨kept, sublist, isRegistry⟩ := sane.registry
  rw [shown_of_uncommitted uncommitted] at isRegistry
  refine ⟨kept, sublist, isRegistry.trans (Eq.symm (shown_of_uncommitted ?_ kept))⟩
  exact uncommittedAfter

/-- The cursor finds every registered queue once. -/
theorem opens (sane : state.Sane server base) (wellFormed : WellFormed server base)
    (opening : state.phase = .opening none) :
    Sane server base { state with phase := .fetching (state.listed server none) } := by
  have none_ := sane.unstarted (Or.inr opening)
  have uncommitted : state.phase ≠ .committed := by simp [opening]
  refine ⟨sane.shows uncommitted nofun, nofun, ?_, sane.batches, fun _ => none_, ?_, ?_, ?_⟩
  · intro name member
    obtain ⟨row, inRegistry, isName⟩ := List.mem_map.mp (mem_listed.mp member)
    exact List.mem_map.mpr ⟨row, sane.mem_base uncommitted inRegistry, isName⟩
  · rw [none_]
    exact listed_nodup (sane.names_nodup wellFormed)
  · intro _ _ _ name member
    exact List.mem_append_right _ (mem_listed.mpr member)
  · intro name isLocked
    simp [cleanupLocks, none_] at isLocked

/-- The lock of a queue is apart from those of the deletions. -/
theorem takes (sane : state.Sane server base) {name : String} {rest : List String}
    (locking : state.phase = .locking name rest) (free : state.dropsFree server name = true) :
    Sane server base { state with phase := .reading name rest } := by
  have visits := sane.visits
  have distinct := sane.distinct
  have covers := sane.covers
  have apart := sane.apart
  simp only [toVisit, cleanupLocks, locking] at visits distinct covers apart
  refine ⟨sane.shows (by simp [locking]) nofun, nofun, visits, sane.batches, by simp, distinct,
    ?_, ?_⟩
  · intro _ _ _
    exact covers nofun nofun nofun
  · intro other isLocked drop member taken isTaken
    rcases List.mem_cons.mp isLocked with isName | earlier
    · subst isName
      have isFree := List.all_eq_true.mp free drop member
      rw [Option.all_eq_true] at isFree
      exact bne_iff_ne.mp (isFree taken isTaken)
    · exact apart other earlier drop member taken isTaken

/-- A batch moves a queue from those to visit to those that are done. -/
theorem cleans (sane : state.Sane server base) {rest : List String} {batch : Batch}
    (reading : state.phase = .reading batch.name rest)
    (registered : ⟨batch.name, batch.before.store⟩ ∈ state.registry)
    (performed : Operation.cleanupTasks.perform server.space batch.before =
      (.ok batch.deleted, batch.after)) :
    Sane server base
      { state with phase := .fetching rest, batches := state.batches ++ [batch] } := by
  have visits := sane.visits
  have distinct := sane.distinct
  have covers := sane.covers
  have apart := sane.apart
  simp only [toVisit, cleanupLocks, reading] at visits distinct covers apart
  have uncommitted : state.phase ≠ .committed := by simp [reading]
  have moved : (state.batches ++ [batch]).map Batch.name ++ rest =
      state.batches.map Batch.name ++ batch.name :: rest := by simp
  refine ⟨sane.shows uncommitted nofun, nofun, ?_, ?_, by simp, ?_, ?_, ?_⟩
  · exact fun other member => visits other (List.mem_cons_of_mem _ member)
  · intro done member
    rcases List.mem_append.mp member with earlier | isBatch
    · exact sane.batches done earlier
    · rw [List.mem_singleton.mp isBatch]
      exact ⟨sane.mem_base uncommitted registered, performed⟩
  · exact moved ▸ distinct
  · intro _ _ _ other member
    exact moved ▸ covers nofun nofun nofun other member
  · intro other isLocked
    refine apart other ?_
    simp only [cleanupLocks, List.map_append, List.mem_append, List.map_cons, List.map_nil,
      List.mem_singleton] at isLocked
    rcases isLocked with earlier | isName
    · exact List.mem_cons_of_mem _ earlier
    · exact isName ▸ List.mem_cons_self

/-- The commit of the call keeps the registrations. -/
theorem commits (sane : state.Sane server base) (returned : state.phase = .returned) :
    Sane server base
      { state with phase := .committed, registry := state.registry.map (cleaned state.batches) } := by
  obtain ⟨kept, sublist, isRegistry⟩ := sane.registry
  have visits := sane.visits
  have distinct := sane.distinct
  have covers := sane.covers
  rw [shown_of_uncommitted (by simp [returned])] at isRegistry
  simp only [toVisit, returned] at visits distinct covers
  refine ⟨⟨kept, sublist, ?_⟩, nofun, visits, sane.batches, by simp, distinct, ?_, nofun⟩
  · simp only [isRegistry]
    rfl
  · intro _ _ _ name member
    refine covers nofun nofun nofun name ?_
    simpa only [names, List.map_map, Function.comp_def, cleaned_name] using member

/-- Every step keeps the invariant. -/
theorem step (sane : state.Sane server base) (wellFormed : WellFormed server base)
    (effect : Effect server state after) : after.Sane server base := by
  obtain ⟨kept, sublist, isRegistry⟩ := sane.registry
  have visits := sane.visits
  have distinct := sane.distinct
  have covers := sane.covers
  have apart := sane.apart
  cases effect with
  | locks origin =>
      exact ⟨⟨kept, sublist, isRegistry⟩, sane.opening, visits, sane.batches, sane.unstarted,
        distinct, covers, origin.apart sane⟩
  | @drops name drops origin held =>
      refine ⟨⟨kept.filter fun row => row.name != name, List.filter_sublist.trans sublist, ?_⟩,
        sane.opening, visits, sane.batches, sane.unstarted, distinct, ?_, origin.apart sane⟩
      · simp only [isRegistry]
        exact shown_without name kept
      · intro started opened quiet other member
        exact covers started opened quiet other ((List.filter_sublist.map _).subset member)
  | begins idle =>
      have none_ := sane.unstarted (Or.inl idle)
      refine ⟨sane.shows (by simp [idle]) nofun, ?_, nofun, sane.batches, fun _ => none_, ?_, ?_,
        nofun⟩
      · rintro requested ⟨⟩
        rfl
      · simp [none_, toVisit]
      · intro _ opened
        exact absurd rfl opened
  | opens opening => exact sane.opens wellFormed opening
  | @fetches name rest fetching =>
      simp only [toVisit, cleanupLocks, fetching] at visits distinct covers apart
      refine ⟨sane.shows (by simp [fetching]) nofun, nofun, visits, sane.batches, by simp, distinct,
        ?_, apart⟩
      intro _ _ _
      exact covers nofun nofun nofun
  | takes locking free => exact sane.takes locking free
  | @misses name rest reading missing =>
      refine ⟨sane.shows (by simp [reading]) nofun, nofun, nofun, sane.batches, by simp, ?_, ?_,
        nofun⟩
      · simp only [toVisit, List.append_nil]
        exact (List.nodup_append.mp distinct).1
      · intro _ _ quiet
        exact absurd rfl (quiet _)
  | @cleans name rest batch reading isName registered performed =>
      subst isName
      exact sane.cleans reading registered performed
  | returns fetched =>
      simp only [toVisit, cleanupLocks, fetched] at visits distinct covers apart
      refine ⟨sane.shows (by simp [fetched]) nofun, nofun, visits, sane.batches, by simp, distinct,
        ?_, apart⟩
      intro _ _ _
      exact covers nofun nofun nofun
  | commits returned => exact sane.commits returned

end Sane

/-- Every run of a cleanup of all queues keeps the invariant. -/
theorem Sane.run (sane : state.Sane server base) (wellFormed : WellFormed server base)
    (all : ∀ requested, .cleanup requested ∈ labels → requested = none)
    (trace : Trace (Steps server) state labels final) : final.Sane server base := by
  induction trace with
  | nil state => exact sane
  | @cons state middle final move labels head rest inductionHypothesis =>
      have effect := sane.effect wellFormed head fun requested isMove =>
        all requested (isMove ▸ List.mem_cons_self)
      exact inductionHypothesis (sane.step wellFormed effect) fun requested member =>
        all requested (List.mem_cons_of_mem _ member)

/-! ## Queues that are spared -/

/-- Every queue to visit is registered, and nothing has been raised. -/
structure Undisturbed (state : Maintenance) : Prop where
  present : ∀ name ∈ state.toVisit, name ∈ state.names
  quiet : ∀ error, state.phase ≠ .raised error

theorem pending_or_locked {name : String} (member : name ∈ state.toVisit) :
    name ∈ state.pending ∨ name ∈ state.cleanupLocks := by
  unfold toVisit at member
  unfold pending cleanupLocks
  split at member
  · next fetching => exact Or.inl (fetching ▸ member)
  · next locking => exact Or.inl (locking ▸ member)
  · next reading =>
      rw [reading]
      rcases List.mem_cons.mp member with isName | inRest
      · exact Or.inr (isName ▸ List.mem_cons_self)
      · exact Or.inl inRest
  all_goals cases member

/-- A step that spares the listed queues disturbs nothing. -/
theorem Undisturbed.step (undisturbed : state.Undisturbed) (sane : state.Sane server base)
    (effect : Effect server state after) (spares : state.Spares after) : after.Undisturbed := by
  obtain ⟨present, quiet⟩ := undisturbed
  cases effect with
  | locks origin => exact ⟨present, quiet⟩
  | @drops name drops origin held =>
      obtain ⟨drop, inDrops, isLocked⟩ := held
      refine ⟨fun other member => ?_, quiet⟩
      rcases @pending_or_locked state other member with isPending | locked
      · exact spares other isPending (present other member)
      · have apart := sane.apart other locked drop inDrops name isLocked
        obtain ⟨row, inRegistry, isOther⟩ := List.mem_map.mp (present other member)
        refine List.mem_map.mpr ⟨row, List.mem_filter.mpr ⟨inRegistry, ?_⟩, isOther⟩
        rw [bne_iff_ne, isOther]
        rintro rfl
        exact apart rfl
  | begins idle => exact ⟨nofun, nofun⟩
  | opens opening => exact ⟨fun name member => mem_listed.mp member, nofun⟩
  | fetches fetching =>
      simp only [toVisit, fetching] at present
      exact ⟨present, nofun⟩
  | takes locking free =>
      simp only [toVisit, locking] at present
      exact ⟨present, nofun⟩
  | misses reading missing =>
      refine absurd (present _ ?_) missing
      simp [toVisit, reading]
  | cleans reading isName registered performed =>
      simp only [toVisit, reading] at present
      exact ⟨fun other member => present other (List.mem_cons_of_mem _ member), nofun⟩
  | returns fetched => exact ⟨nofun, nofun⟩
  | commits returned => exact ⟨nofun, nofun⟩

/-- A run that spares the listed queues disturbs nothing. -/
theorem Undisturbed.run (undisturbed : state.Undisturbed) (sane : state.Sane server base)
    (wellFormed : WellFormed server base)
    (all : ∀ requested, .cleanup requested ∈ labels → requested = none)
    (trace : Trace (SparingSteps server) state labels final) : final.Undisturbed := by
  induction trace with
  | nil state => exact undisturbed
  | @cons state middle final move labels head rest inductionHypothesis =>
      have effect := sane.effect wellFormed head.1 fun requested isMove =>
        all requested (isMove ▸ List.mem_cons_self)
      exact inductionHypothesis (undisturbed.step sane effect head.2) (sane.step wellFormed effect)
        fun requested member => all requested (List.mem_cons_of_mem _ member)

/-! ## Queues that are lost -/

/-- A listed queue is gone before it is visited, or the call has raised. -/
def Doomed (state : Maintenance) : Prop :=
  (∃ error, state.phase = .raised error) ∨ ∃ name ∈ state.toVisit, name ∉ state.names

/-- A doomed call stays doomed. -/
theorem Doomed.step (doomed : state.Doomed) (effect : Effect server state after) :
    after.Doomed := by
  have gone : ∀ {name}, name ∉ state.names → name ∉ after.names :=
    fun missing member => missing (effect.names_subset member)
  rcases doomed with ⟨error, raised⟩ | ⟨name, toVisit_, missing⟩
  · cases effect with
    | locks | drops => exact Or.inl ⟨error, raised⟩
    | begins at_ | opens at_ | fetches at_ | takes at_ | misses at_ | cleans at_ | returns at_
      | commits at_ =>
        rw [raised] at at_
        cases at_
  · have visited := toVisit_
    unfold toVisit at visited
    cases effect with
    | locks | drops => exact Or.inr ⟨name, toVisit_, gone missing⟩
    | begins at_ | opens at_ | returns at_ | commits at_ =>
        rw [at_] at visited
        cases visited
    | fetches at_ | takes at_ =>
        rw [at_] at visited
        exact Or.inr ⟨name, visited, missing⟩
    | misses => exact Or.inl ⟨_, rfl⟩
    | cleans at_ isName registered =>
        rw [at_] at visited
        rcases List.mem_cons.mp visited with isVisited | inRest
        · refine absurd ?_ missing
          exact List.mem_map.mpr ⟨_, registered, isVisited.symm⟩
        · exact Or.inr ⟨name, inRest, missing⟩

theorem Doomed.run (doomed : state.Doomed) (sane : state.Sane server base)
    (wellFormed : WellFormed server base)
    (all : ∀ requested, .cleanup requested ∈ labels → requested = none)
    (trace : Trace (Steps server) state labels final) : final.Doomed := by
  induction trace with
  | nil state => exact doomed
  | @cons state middle final move labels head rest inductionHypothesis =>
      have effect := sane.effect wellFormed head fun requested isMove =>
        all requested (isMove ▸ List.mem_cons_self)
      exact inductionHypothesis (doomed.step effect) (sane.step wellFormed effect)
        fun requested member => all requested (List.mem_cons_of_mem _ member)

/-- A doomed call that has concluded has raised. -/
theorem Doomed.raised (doomed : state.Doomed) (concluded : state.Concluded) :
    ∃ error, state.phase = .raised error := by
  rcases doomed with raised | ⟨name, member, _⟩
  · exact raised
  · unfold toVisit at member
    rcases concluded with returned | committed | raised
    · rw [returned] at member
      cases member
    · rw [committed] at member
      cases member
    · exact raised

/-- A step that does not spare a listed queue dooms the call. -/
theorem doomed_of_spoiled (effect : Effect server state after) (spoiled : ¬state.Spares after) :
    after.Doomed := by
  unfold Spares at spoiled
  push Not at spoiled
  obtain ⟨name, isPending, registered, missing⟩ := spoiled
  have pending_ := isPending
  unfold pending at pending_
  cases effect with
  | drops origin held =>
      refine Or.inr ⟨name, ?_, missing⟩
      unfold toVisit
      split at pending_
      · next fetching => simpa only [fetching] using pending_
      · next reading =>
          simp only [reading]
          exact List.mem_cons_of_mem _ pending_
      · next locking => simpa only [locking] using pending_
      all_goals cases pending_
  | commits returned =>
      rw [returned] at pending_
      cases pending_
  | _ => exact absurd registered missing

/-! ## One batch for every queue -/

/-- The only batch of a name. -/
theorem filter_batches {batches : List Batch} (distinct : (batches.map Batch.name).Nodup)
    {batch : Batch} (member : batch ∈ batches) :
    batches.filter (fun done => done.name == batch.name) = [batch] := by
  induction batches with
  | nil => cases member
  | cons first rest inductionHypothesis =>
      obtain ⟨unused, restDistinct⟩ := List.nodup_cons.mp distinct
      rcases List.mem_cons.mp member with isFirst | inRest
      · subst isFirst
        have others : rest.filter (fun done => done.name == batch.name) = [] := by
          refine List.filter_eq_nil_iff.mpr fun done inRest same => unused ?_
          rw [← beq_iff_eq.mp same]
          exact List.mem_map_of_mem inRest
        rw [List.filter_cons, if_pos (beq_self_eq_true _), others]
      · have different : ¬(first.name == batch.name) = true := by
          intro same
          refine unused ?_
          rw [beq_iff_eq.mp same]
          exact List.mem_map_of_mem inRest
        rw [List.filter_cons, if_neg different]
        exact inductionHypothesis restDistinct inRest

/-- A registration after the only batch of its queue. -/
theorem cleaned_of_batch {batches : List Batch} {row : Registered} {batch : Batch}
    (only : batches.filter (fun done => done.name == row.name) = [batch]) :
    cleaned batches row = ⟨row.name, batch.after.store⟩ := by
  unfold cleaned
  rw [← List.head?_filter, only]
  rfl

/-- A call that has returned has done exactly one batch of every queue that is
still registered. -/
theorem Sane.each (sane : state.Sane server base)
    (returned : state.phase = .returned ∨ state.phase = .committed) {name : String}
    (registered : name ∈ state.names) :
    ∃ batch, state.batches.filter (fun done => done.name == name) = [batch] ∧
      state.rows.filter (fun row => row.1 == name) = [(name, batch.deleted)] ∧
      ⟨name, batch.before.store⟩ ∈ base ∧
      Operation.cleanupTasks.perform server.space batch.before = (.ok batch.deleted, batch.after) ∧
      (state.phase = .committed → ⟨name, batch.after.store⟩ ∈ state.registry) := by
  have visitsNone : state.toVisit = [] := by
    unfold toVisit
    rcases returned with isPhase | isPhase <;> rw [isPhase]
  have distinct := sane.distinct
  have covers := sane.covers
  rw [visitsNone, List.append_nil] at distinct covers
  have done := covers (by rcases returned with isPhase | isPhase <;> simp [isPhase])
    (by rcases returned with isPhase | isPhase <;> simp [isPhase])
    (by rcases returned with isPhase | isPhase <;> simp [isPhase]) name registered
  obtain ⟨batch, member, isName⟩ := List.mem_map.mp done
  subst isName
  have only := filter_batches distinct member
  obtain ⟨inBase, performed⟩ := sane.batches batch member
  refine ⟨batch, only, ?_, inBase, performed, fun committed => ?_⟩
  · unfold rows
    rw [List.filter_map]
    exact congrArg (List.map fun done : Batch => (done.name, done.deleted)) only
  · obtain ⟨kept, _, isRegistry⟩ := sane.registry
    rw [names, isRegistry, shown_names] at registered
    obtain ⟨row, inKept, isName⟩ := List.mem_map.mp registered
    rw [← isName] at only ⊢
    rw [isRegistry]
    unfold shown
    rw [committed]
    exact List.mem_map.mpr ⟨row, inKept, cleaned_of_batch only⟩

/-- In every run in which no listed queue is dropped before it is reached, the
call does not raise and cleans every queue that stays registered once.  When
such a queue is dropped, a call that concludes does not. -/
theorem cleansEvery_iff (wellFormed : WellFormed server base)
    (trace : Trace (Steps server) (start base) labels final)
    (all : ∀ requested, .cleanup requested ∈ labels → requested = none) :
    (Trace (SparingSteps server) (start base) labels final →
        CleansEvery server (start base) labels final) ∧
      (final.Concluded → (CleansEvery server (start base) labels final ↔
        Trace (SparingSteps server) (start base) labels final)) := by
  have sane := (sane_start server base).run wellFormed all trace
  have spared : Trace (SparingSteps server) (start base) labels final →
      CleansEvery server (start base) labels final := by
    intro sparing
    have initially : (start base).Undisturbed := ⟨nofun, nofun⟩
    have undisturbed := initially.run (sane_start server base) wellFormed all sparing
    refine ⟨undisturbed.quiet, fun returned name stays => ?_⟩
    exact sane.each returned (stays labels [] final (List.append_nil _).symm trace)
  refine ⟨spared, fun concluded => ⟨fun cleans => ?_, spared⟩⟩
  rcases Trace.all_or_one Spares trace with sparing | ⟨early, move, late, source, target, isLabels,
    before, stepped, spoiled, rest⟩
  · exact sparing
  · subst isLabels
    have saneSource := (sane_start server base).run wellFormed
      (fun requested member => all requested (List.mem_append_left _ member)) before
    have effect := saneSource.effect wellFormed stepped fun requested isMove =>
      all requested (isMove ▸ List.mem_append_right _ List.mem_cons_self)
    have doomed := (doomed_of_spoiled effect spoiled).run (saneSource.step wellFormed effect)
      wellFormed (fun requested member =>
        all requested (List.mem_append_right _ (List.mem_cons_of_mem _ member))) rest
    obtain ⟨error, raised⟩ := doomed.raised concluded
    exact absurd raised (cleans.quiet error)

/-! ## Registrations along a run -/

/-- No run registers a queue. -/
theorem Sane.names_subset (sane : state.Sane server base) (wellFormed : WellFormed server base)
    (all : ∀ requested, .cleanup requested ∈ labels → requested = none)
    (trace : Trace (Steps server) state labels final) : final.names ⊆ state.names := by
  induction trace with
  | nil state => exact List.Subset.refl _
  | @cons state middle final move labels head rest inductionHypothesis =>
      have effect := sane.effect wellFormed head fun requested isMove =>
        all requested (isMove ▸ List.mem_cons_self)
      refine List.Subset.trans ?_ effect.names_subset
      exact inductionHypothesis (sane.step wellFormed effect) fun requested member =>
        all requested (List.mem_cons_of_mem _ member)

/-- A run in which no registration disappears spares the listed queues. -/
theorem Sane.sparing (sane : state.Sane server base) (wellFormed : WellFormed server base)
    (all : ∀ requested, .cleanup requested ∈ labels → requested = none)
    (trace : Trace (Steps server) state labels final) (kept : state.names ⊆ final.names) :
    Trace (SparingSteps server) state labels final := by
  induction trace with
  | nil state => exact .nil state
  | @cons first middle last move labels head rest inductionHypothesis =>
      have effect := sane.effect wellFormed head fun requested isMove =>
        all requested (isMove ▸ List.mem_cons_self)
      have saneMiddle := sane.step wellFormed effect
      have allRest : ∀ requested, .cleanup requested ∈ labels → requested = none :=
        fun requested member => all requested (List.mem_cons_of_mem _ member)
      have later := saneMiddle.names_subset wellFormed allRest rest
      refine .cons ⟨head, fun name _ registered => later (kept registered)⟩ ?_
      exact inductionHypothesis saneMiddle allRest (List.Subset.trans effect.names_subset kept)

/-- A queue that is registered in the end was registered all along. -/
theorem staysRegistered_of_last (wellFormed : WellFormed server base)
    (all : ∀ requested, .cleanup requested ∈ labels → requested = none)
    (trace : Trace (Steps server) (start base) labels final) {name : String}
    (registered : name ∈ final.names) : StaysRegistered server (start base) labels name := by
  intro past later middle isLabels before
  subst isLabels
  obtain ⟨reached, early, late⟩ := Trace.append_iff.mp trace
  obtain rfl : reached = middle :=
    early.unique (fun first second => Option.some.inj (first.symm.trans second)) before
  have sane := (sane_start server base).run wellFormed
    (fun requested member => all requested (List.mem_append_left _ member)) early
  exact sane.names_subset wellFormed
    (fun requested member => all requested (List.mem_append_right _ member)) late registered

/-! ## A drop between two batches -/

/-- A server with an ASCII locale that hashes and compares names by their
lengths. -/
def plainServer : Server where
  space := asciiSpace
  hashtext := fun text => text.utf8ByteSize
  collates := fun left right => left.utf8ByteSize ≤ right.utf8ByteSize

/-- Two queues without tasks. -/
def twoQueues : List Registered := [⟨"mail", createdQueue⟩, ⟨"orders", createdQueue⟩]

theorem twoQueues_wellFormed : WellFormed plainServer twoQueues where
  distinct := by decide
  valid := by
    intro row member
    rcases List.mem_cons.mp member with rfl | later
    · rfl
    · rw [List.mem_singleton.mp later]
      rfl
  sound := by
    intro row member
    rcases List.mem_cons.mp member with rfl | later
    · exact Queue.sound_empty _ _ _
    · rw [List.mem_singleton.mp later]
      exact Queue.sound_empty _ _ _

/-- The next statement of the cleanup. -/
def goesOn : MaintenanceMove := .advance fun _ => 0

/-- Another session drops a queue. -/
def dropsQueue (name : String) : List MaintenanceMove :=
  [.drop (some name), .goOn 0, .goOn 0, .commitDrop 0]

/-- A queue with a completed task. -/
def completedQueue : Queue :=
  (World.serve asciiSpace [plainSubmission [], plainClaim "worker", .completeRun 1 (some .null)]
    (.blank second)).2.store

/-- Two queues with a completed task and an empty one. -/
def threeQueues : List Registered :=
  [⟨"mail", completedQueue⟩, ⟨"orders", completedQueue⟩, ⟨"old", createdQueue⟩]

theorem threeQueues_wellFormed : WellFormed plainServer threeQueues where
  distinct := by decide
  valid := by
    intro row member
    rcases List.mem_cons.mp member with rfl | later
    · rfl
    rcases List.mem_pair.mp later with rfl | rfl
    · rfl
    · rfl
  sound := by
    have completed : completedQueue.Sound asciiSpace := (World.history_serve _ second).sound
    intro row member
    rcases List.mem_cons.mp member with rfl | later
    · exact completed
    rcases List.mem_pair.mp later with rfl | rfl
    · exact completed
    · exact Queue.sound_empty _ _ _

/-- The next statement of the cleanup, a year after the tasks were completed. -/
def goesOnLater : MaintenanceMove := .advance fun _ => 366 * 86400 * second

/-- A queue is dropped before the cursor of a cleanup opens, and the two others
lose their task. -/
theorem cleansEvery_iff_twoQueues :
    ∃ labels final, Trace (Steps plainServer) (start threeQueues) labels final ∧
      final.phase = .committed ∧ final.names = ["mail", "orders"] ∧
        final.rows = [("mail", 1), ("orders", 1)] ∧
          CleansEvery plainServer (start threeQueues) labels final := by
  let early : List MaintenanceMove := .cleanup none :: dropsQueue "old"
  let late : List MaintenanceMove := List.replicate 8 goesOnLater ++ [.commitCleanup]
  obtain ⟨middle, isMiddle, sparingEarly⟩ : ∃ middle, moves plainServer early (start threeQueues) =
      some middle ∧ Trace (SparingSteps plainServer) (start threeQueues) early middle := by
    refine ⟨_, rfl, .cons ⟨rfl, ?_⟩ (.cons ⟨rfl, ?_⟩ (.cons ⟨rfl, ?_⟩ (.cons ⟨rfl, ?_⟩
      (.cons ⟨rfl, ?_⟩ (.nil _)))))⟩ <;>
      · intro name member
        cases member
  obtain ⟨final, moved, phase, kept, names, rows⟩ : ∃ final,
      moves plainServer late middle = some final ∧ final.phase = .committed ∧
        final.names = middle.names ∧ final.names = ["mail", "orders"] ∧
        final.rows = [("mail", 1), ("orders", 1)] := by
    cases isMiddle
    exact ⟨_, rfl, rfl, rfl, rfl, rfl⟩
  have allEarly : ∀ requested, .cleanup requested ∈ early → requested = none := by
    simp [early, dropsQueue]
  have allLate : ∀ requested, .cleanup requested ∈ late → requested = none := by
    simp [late, goesOnLater]
  have saneMiddle := (sane_start plainServer threeQueues).run threeQueues_wellFormed allEarly
    (trace_moves isMiddle)
  have sparing := Trace.append_iff.mpr ⟨middle, sparingEarly,
    saneMiddle.sparing threeQueues_wellFormed allLate (trace_moves moved)
      (kept ▸ List.Subset.refl _)⟩
  have trace := Trace.append_iff.mpr ⟨middle, trace_moves isMiddle, trace_moves moved⟩
  refine ⟨early ++ late, final, trace, phase, names, rows,
    (cleansEvery_iff threeQueues_wellFormed trace fun requested member => ?_).1 sparing⟩
  exact (List.mem_append.mp member).elim (allEarly requested) (allLate requested)

/-- The second queue is dropped after the batch of the first: the call raises,
and the first queue, which stays registered, is not cleaned. -/
theorem not_cleansEvery :
    ∃ labels final, Trace (Steps plainServer) (start twoQueues) labels final ∧
      (∀ requested, .cleanup requested ∈ labels → requested = none) ∧
      StaysRegistered plainServer (start twoQueues) labels "mail" ∧
      final.phase = .raised (.queueMissing "orders") ∧
      ¬CleansEvery plainServer (start twoQueues) labels final := by
  let labels : List MaintenanceMove :=
    [.cleanup none, goesOn, goesOn, goesOn, goesOn] ++ dropsQueue "orders" ++
      [goesOn, goesOn, goesOn]
  obtain ⟨final, moved, phase, kept⟩ : ∃ final,
      moves plainServer labels (start twoQueues) = some final ∧
        final.phase = .raised (.queueMissing "orders") ∧ final.names = ["mail"] :=
    ⟨_, rfl, rfl, rfl⟩
  have trace := trace_moves moved
  have all : ∀ requested, .cleanup requested ∈ labels → requested = none := by
    simp [labels, goesOn, dropsQueue]
  refine ⟨labels, final, trace, all, ?_, phase, fun cleans => cleans.quiet _ phase⟩
  exact staysRegistered_of_last twoQueues_wellFormed all trace (by simp [kept])

end Maintenance
end Steda
