import Steda.Laws.Deadlines
import Steda.Requests

/-!
# The use of accepted cancellation policies

The validator reads a bound as a decimal number, the evaluator casts its text
to a 64-bit integer.  They agree exactly on the numbers written without a
fraction: `1` can be used, `1.0` is accepted and then fails every evaluation.
A queue whose policies are all written without a fraction never fails on a
deadline.
-/

namespace Steda

open Postgres Transaction Relational

variable {space : Char → Bool}

/-! ## One policy -/

/-- The evaluation of a policy returns at all times. -/
def Usable (policy : Json) : Prop :=
  ∀ enqueueAt firstStartedAt observedAt,
    ∃ due, cancellationDue (some policy) enqueueAt firstStartedAt observedAt = .ok due

/-- The bounds of a policy are written without a fraction. -/
def Literal (policy : Json) : Prop :=
  ∀ key ∈ ["maxDelay", "maxDuration"], ∀ number, policy.field? key = some (.number number) →
    number.scale = 0

/-- The bound the evaluator reads for an accepted one. -/
theorem cancellationBound_of_validate {policy : Json} {key : String}
    (accepted : validateCancellationBound policy key = .ok ()) :
    (∃ bound, cancellationBound policy key = .ok bound) ↔
      ∀ number, policy.field? key = some (.number number) → number.scale = 0 := by
  unfold validateCancellationBound at accepted
  split at accepted
  · next field => simp [cancellationBound, Json.text?, field]
  · next number field =>
      have isText : policy.text? key = some number.toText := by
        simp only [Json.text?, field, Json.render]
      simp only [field, Option.some.injEq, Json.number.injEq, forall_eq']
      unfold cancellationBound
      rw [isText]
      simp only [textToBigint_toText]
      by_cases whole : number.scale = 0
      · split at accepted
        · cases accepted
        · next bounds =>
            have fits : ¬(number.mantissa < -maxBigint - 1 ∨ maxBigint < number.mantissa) := by
              simp [Numeric.ltInt, Numeric.gtInt, whole] at bounds
              simp only [maxBigint] at bounds ⊢
              omega
            simp [whole, fits]
      · simp [whole]
  · cases accepted

/-- An accepted policy can be used exactly when it is written without a
fraction. -/
theorem usable_iff_literal {cancellation : Option Json} {policy : Json}
    (accepted : validateCancellationPolicy cancellation = .ok (some policy)) :
    Usable policy ↔ Literal policy := by
  obtain ⟨impossible, _⟩ | ⟨given, isPolicy, _, _, _, delay, duration⟩ :=
    validateCancellationPolicy_ok accepted
  · cases impossible
  cases isPolicy
  have read : Usable policy ↔ (∃ bound, cancellationBound policy "maxDelay" = .ok bound) ∧
      ∃ bound, cancellationBound policy "maxDuration" = .ok bound := by
    constructor
    · intro usable
      obtain ⟨_, early⟩ := usable 0 none none
      obtain ⟨_, late⟩ := usable 0 (some 0) none
      obtain ⟨bound, isBound, _⟩ := except_bind_ok.mp early
      obtain ⟨other, isOther, _⟩ := except_bind_ok.mp late
      exact ⟨⟨bound, isBound⟩, other, isOther⟩
    · rintro ⟨⟨bound, isBound⟩, other, isOther⟩ enqueueAt firstStartedAt observedAt
      cases firstStartedAt with
      | none => exact ⟨_, except_bind_ok.mpr ⟨bound, isBound, rfl⟩⟩
      | some startedAt => exact ⟨_, except_bind_ok.mpr ⟨other, isOther, rfl⟩⟩
  rw [read, cancellationBound_of_validate delay, cancellationBound_of_validate duration]
  simp [Literal]

/-! ## All policies of a queue -/

/-- The policies of all tasks can be used. -/
def Queue.AllUsable (queue : Queue) : Prop :=
  ∀ task ∈ queue.tasks, ∀ policy, task.cancellation = some policy → Usable policy

/-- A failed evaluation of a deadline is reported with a task of the queue. -/
def BlamesTask (error : SqlError) (tx : Tx) : Prop :=
  error.concernsDeadline = true →
    ∃ task ∈ tx.queue.tasks, ∃ observedAt, task.due observedAt = .error error

theorem blamesTask_of_undated {error : SqlError} {tx : Tx}
    (undated : error.concernsDeadline = false) : BlamesTask error tx := by
  intro concerns
  rw [undated] at concerns
  cases concerns

theorem SqlError.undated_of_plain {error : SqlError} (plain : error.plain = true) :
    error.concernsDeadline = false := by
  unfold SqlError.plain at plain
  simp only [Bool.and_eq_true, Bool.not_eq_true'] at plain
  exact plain.1

theorem tolerates_blamesTask : Tolerates BlamesTask := fun _ _ plain =>
  blamesTask_of_undated (SqlError.undated_of_plain plain)

theorem reports_blamesTask : Reports True BlamesTask := by
  constructor
  case deadline =>
    intro error task observedAt tx present failed _
    exact ⟨task, present trivial, observedAt, failed⟩
  all_goals
    intros
    exact blamesTask_of_undated rfl

/-- A usable policy never fails. -/
theorem TaskRow.undated_due {task : TaskRow}
    (usable : ∀ policy, task.cancellation = some policy → Usable policy)
    (observedAt : Option Timestamptz) (error : SqlError) : task.due observedAt ≠ .error error := by
  intro failed
  unfold TaskRow.due at failed
  cases isPolicy : task.cancellation with
  | none =>
      rw [isPolicy] at failed
      cases failed
  | some policy =>
      obtain ⟨due, evaluated⟩ := usable policy isPolicy task.enqueueAt task.firstStartedAt
        observedAt
      rw [isPolicy, evaluated] at failed
      cases failed

theorem Queue.undated_deferred (queue : Queue) :
    OnlyRaises (fun error => error.concernsDeadline = false) queue.deferred := by
  unfold deferred
  split
  · exact onlyRaises_ok _
  · exact onlyRaises_error rfl

/-- In a queue whose policies can be used no function fails on a deadline. -/
theorem Operation.undated_run {operation : Operation} {before reached : World} {error : SqlError}
    (sound : before.store.Sound space) (usable : before.store.AllUsable)
    (ran : (operation.program space).run (storage space).handle before = (.error error, reached)) :
    error.concernsDeadline = false := by
  have start : Settled space True .blank (Local.start before.store) := (settled_start sound).now
  by_cases isSpawn : ∃ taskName params options, operation = .spawnTask taskName params options
  · obtain ⟨taskName, params, options, isOperation⟩ := isSpawn
    subst isOperation
    have tolerates : Tolerates fun error _ => error.concernsDeadline = false :=
      fun _ _ plain => SqlError.undated_of_plain plain
    have meets := (guarantees_spawnTask trivial tolerates (fun _ _ _ => rfl) taskName params
      options start).meets (Local.consumed_start before)
    rw [Local.session_start, show (Steda.spawnTask space taskName params options).run
      (storage space).handle before = _ from ran] at meets
    obtain ⟨_, _, _, plain⟩ := meets
    exact plain
  · have meets := (operation.guarantees_program reports_blamesTask tolerates_blamesTask
      (Or.inr fun _ _ => blamesTask_of_undated rfl) start).meets (Local.consumed_start before)
    rw [Local.session_start, ran] at meets
    obtain ⟨final, _, isFinal, blames⟩ := meets
    by_contra concerns
    obtain ⟨task, member, observedAt, failed⟩ := blames (by simpa using concerns)
    have notSpawn : ∀ taskName params options, operation ≠ .spawnTask taskName params options :=
      fun taskName params options same => isSpawn ⟨taskName, params, options, same⟩
    have kept := @keepsRequests_program space operation notSpawn before
    rw [ran, isFinal] at kept
    obtain ⟨old, inBefore, same⟩ := kept task member
    have samePolicy : old.cancellation = task.cancellation :=
      congrArg Submission.cancellation same
    exact TaskRow.undated_due (fun policy isPolicy =>
      usable old inBefore policy (samePolicy.trans isPolicy)) observedAt error failed

/-- In a queue whose policies can be used no call fails on a deadline. -/
theorem Served.undated {before after : World} {call : Call} {error : SqlError}
    (served : Served space before call after) (sound : before.store.Sound space)
    (usable : before.store.AllUsable) (raised : call.outcome = .error error) :
    error.concernsDeadline = false := by
  obtain ⟨operation, outcome⟩ := call
  change outcome = .error error at raised
  subst raised
  change operation.perform space before = (.error error, after) at served
  unfold Operation.perform Storage.atomically at served
  rcases ran : (operation.program space).run (storage space).handle before with
    ⟨other | result, reached⟩
  · rw [ran] at served
    cases served
    exact Operation.undated_run sound usable ran
  · rw [ran] at served
    simp only at served
    split at served
    · cases served
    · next failed =>
        cases served
        exact reached.store.undated_deferred error failed

/-- The call submits no policy with a fraction. -/
def Call.SubmitsLiteral (space : Char → Bool) (call : Call) : Prop :=
  ∀ taskName params options submission policy,
    call.operation = .spawnTask taskName params options →
      validateSubmission space taskName params options = .ok submission →
        submission.cancellation = some policy → Literal policy

/-- A history that submits no policy with a fraction has usable ones only. -/
theorem History.allUsable {initial final : World} {calls : List Call}
    (history : History space initial calls final)
    (literal : ∀ call ∈ calls, call.SubmitsLiteral space) : final.store.AllUsable := by
  intro task member policy isPolicy
  obtain ⟨life, isTask, _, rows⟩ := history.sound.life member
  subst isTask
  obtain ⟨_, _, chunks, caused, advances⟩ := history.advances
  obtain ⟨last, lastRows, evolves⟩ := advances.evolves_to (history.initial_rows life.task.id)
  have isLife : last = some life := Life.rows_injective (lastRows.symm.trans rows)
  subst isLife
  obtain ⟨row, run, inEvents, kept⟩ := evolves.submitted
  obtain ⟨call, inCalls, events, causedEvents, inChunk⟩ := call_of_event caused inEvents
  obtain ⟨taskName, params, options, id, accepted, isCall⟩ := causedEvents.submits inChunk
  have isRequested : row.submission.cancellation = some policy :=
    (congrArg Submission.cancellation kept).trans isPolicy
  have isAccepted := (validateSubmission_ok accepted).cancellation
  rw [isRequested] at isAccepted
  exact (usable_iff_literal isAccepted).mpr (literal call inCalls taskName params options
    row.submission policy (congrArg Call.operation isCall) accepted isRequested)

/-! ## The law -/

/-- An accepted policy can be used exactly when it is written without a
fraction, and a history that submits only such policies never fails on a
deadline. -/
theorem History.policies_usable :
    (∀ cancellation policy, validateCancellationPolicy cancellation = .ok (some policy) →
      (Usable policy ↔ Literal policy)) ∧
    ∀ initial calls final, History space initial calls final →
      (∀ call ∈ calls, call.SubmitsLiteral space) →
        ∀ call after error, Served space final call after → call.outcome = .error error →
          error.concernsDeadline = false := by
  refine ⟨fun _ _ accepted => usable_iff_literal accepted, ?_⟩
  intro initial calls final history literal call after error served raised
  exact served.undated history.sound (history.allUsable literal) raised

/-- A start within a minute, written with a fraction or without. -/
def minutePolicy (bound : Numeric) : Json := .object [("maxDelay", .number bound)]

/-- A policy of one minute and the queue it is submitted to. -/
theorem History.policies_usable_minute :
    (Usable (minutePolicy ⟨60, 0⟩) ↔ Literal (minutePolicy ⟨60, 0⟩)) ∧
    let served := World.serve asciiSpace
      [plainSubmission [("cancellation", minutePolicy ⟨60, 0⟩)]] (.blank second)
    ∀ call after error, Served asciiSpace served.2 call after → call.outcome = .error error →
      error.concernsDeadline = false := by
  obtain ⟨onePolicy, allPolicies⟩ := @History.policies_usable asciiSpace
  refine ⟨onePolicy (some (minutePolicy ⟨60, 0⟩)) _ rfl, ?_⟩
  intro served
  refine allPolicies _ _ _ (World.history_serve _ second) ?_
  intro call member taskName params options submission policy isSpawn accepted isPolicy
  rw [List.mem_singleton.mp (show call ∈ [_] from member)] at isSpawn
  cases isSpawn
  cases accepted
  cases isPolicy
  intro key isKey number field
  rcases List.mem_cons.mp isKey with isDelay | isDuration
  · rw [isDelay] at field
    cases field
    rfl
  · rw [List.mem_singleton.mp isDuration] at field
    cases field

/-- A policy of sixty seconds and a zero fraction is accepted, cannot be
evaluated, and fails the next claim of its queue. -/
theorem History.policies_usable_fraction :
    validateCancellationPolicy (some (minutePolicy ⟨600, 1⟩)) =
        .ok (some (minutePolicy ⟨600, 1⟩)) ∧
      cancellationDue (some (minutePolicy ⟨600, 1⟩)) 0 none (some (.point 0)) =
        .error (.invalidBigint "60.0") ∧
      (World.serve asciiSpace [plainSubmission [("cancellation", minutePolicy ⟨600, 1⟩)],
          plainClaim "worker"] (.blank second)).1 =
        [⟨plainSubmission [("cancellation", minutePolicy ⟨600, 1⟩)],
            .ok { taskId := 0, created := true }⟩,
          ⟨plainClaim "worker", .error (.invalidBigint "60.0")⟩] :=
  ⟨rfl, rfl, rfl⟩

end Steda
