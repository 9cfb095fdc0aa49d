import Steda.Client.TaskResult
import Steda.Laws.Finality
import Steda.Serial.Calls

/-!
# Defensive errors

The exceptions on attempts that contradict their task and the refusals by
constraints guard against queues that no call leaves behind.  In a queue with
valid lives a refusal has two possible causes: a NULL payload, or an identifier
that is in use although it was just drawn.
-/

namespace Steda

open Postgres Transaction

variable {space : Char → Bool}

/-- A defensive error blames a drawn identifier that is in use. -/
def BlamesIdent (error : SqlError) (tx : Tx) : Prop :=
  error.defensive = true → ¬Tx.Unused tx

theorem blamesIdent_of_undefensive {error : SqlError} {tx : Tx}
    (undefensive : error.defensive = false) : BlamesIdent error tx := by
  intro defensive
  rw [undefensive] at defensive
  cases defensive

theorem tolerates_blamesIdent : Tolerates BlamesIdent := by
  intro error tx plain
  unfold SqlError.plain at plain
  simp only [Bool.and_eq_true, Bool.not_eq_true'] at plain
  exact blamesIdent_of_undefensive plain.2

/-- The evaluation of a deadline fails on the cast of a bound only. -/
theorem TaskRow.due_undefensive (task : TaskRow) (observedAt : Option Timestamptz) :
    OnlyRaises (fun error => error.defensive = false) (task.due observedAt) := by
  have cast : ∀ (policy : Json) (key : String),
      OnlyRaises (fun error => error.defensive = false) (cancellationBound policy key) := by
    intro policy key
    unfold cancellationBound
    split
    · exact onlyRaises_ok _
    · split
      · exact onlyRaises_ok _
      · exact onlyRaises_error rfl
      · exact onlyRaises_error rfl
  unfold TaskRow.due cancellationDue
  split
  · exact onlyRaises_ok _
  · exact onlyRaises_bind (cast _ _) fun _ _ => onlyRaises_ok _
  · exact onlyRaises_bind (cast _ _) fun _ _ => onlyRaises_ok _

theorem reports_blamesIdent : Reports True BlamesIdent := by
  constructor
  case identTaken => exact fun _ _ inUse _ => inUse
  case deadline =>
    intro error task observedAt tx _ failed
    exact blamesIdent_of_undefensive (task.due_undefensive observedAt error failed)
  all_goals
    intros
    exact blamesIdent_of_undefensive rfl

/-- The identifiers a call draws in a reachable state are unused. -/
theorem Local.Consumed.unused {world : World} {tx : Tx} (consumed : Local.Consumed world tx)
    (distinct : Function.Injective world.idents)
    (unused : ∀ position, world.store.findTask (world.idents position) = none ∧
      world.store.findRun (world.idents position) = none) : Tx.Unused tx := by
  refine ⟨?_, ?_⟩
  · rw [consumed.drawn]
    exact List.nodup_range.map distinct
  · intro name isDrawn
    rw [consumed.drawn] at isDrawn
    obtain ⟨position, _, rfl⟩ := List.mem_map.mp isDrawn
    rw [consumed.committed]
    exact unused position

/-- A call with its payload raises no defensive error in a reachable state. -/
theorem History.served_undefensive {initial final : World} {calls : List Call}
    (history : History space initial calls final) {call : Call} {after : World}
    (served : Served space final call after) (payload : call.operation.GivesPayload)
    {error : SqlError} (raised : call.outcome = .error error) : error.defensive = false := by
  obtain ⟨operation, outcome⟩ := call
  change outcome = .error error at raised
  subst raised
  have start : Settled space True .blank (Local.start final.store) :=
    (settled_start history.sound).now
  have meets := (operation.guarantees_program reports_blamesIdent tolerates_blamesIdent
    (Or.inl payload) start).meets (Local.consumed_start final)
  rw [Local.session_start] at meets
  have answered : (alone space (operation.program space) final).1 = .error error := by
    rw [← operation.answer_eq history.sound]
    exact congrArg Prod.fst served
  rcases ran : (operation.program space).run (storage space).handle final with
    ⟨other | result, reached⟩
  · rw [ran] at meets
    obtain ⟨tx, consumed, _, blames⟩ := meets
    have same : other = error := by
      rw [alone, ran] at answered
      exact Except.error.inj answered
    subst same
    by_contra defensive
    refine blames (by simpa using defensive) (Local.Consumed.unused consumed history.ready.distinct ?_)
    exact fun position => ⟨(history.unused position).1, history.ready.unused position⟩
  · rw [alone, ran] at answered
    cases answered

/-- The result of a task carries the payload of its state. -/
theorem Life.Valid.result_payload {life : Life} (valid : life.Valid space) :
    (life.result.state = .completed → life.result.result.isSome) ∧
      (life.result.state = .failed → life.result.failureReason.isSome) := by
  have checked := RunRow.check_ok.mp (valid.runsChecked _ life.last_mem_runs)
  have sameState : ∀ state, life.task.state = state → state ≠ .cancelled →
      life.last.state = state := by
    intro state isState notCancelled
    rcases valid.agrees with same | ⟨cancelled, _⟩
    · exact same.symm.trans isState
    · exact absurd (isState.symm.trans cancelled) notCancelled
  constructor
  · intro completed
    have isState : life.task.state = .completed := completed
    simp only [Life.result, isState, if_true]
    exact (checked.2.1 (sameState _ isState (by simp))).2
  · intro failed
    have isState : life.task.state = .failed := failed
    simp only [Life.result, isState, if_true]
    exact (checked.2.2.1 (sameState _ isState (by simp))).2

/-! ## The law -/

/-- In every reachable state no call that passes its payload raises a defensive
error, and the decoder of task results refuses nothing but a wrong task name. -/
theorem History.defences_unreachable {initial final : World} {calls : List Call}
    (history : History space initial calls final) :
    (∀ call after, Served space final call after → call.operation.GivesPayload →
      ∀ error, call.outcome = .error error → error.defensive = false) ∧
    ∀ taskId row after, Served space final ⟨.getTaskResult taskId, .ok row⟩ after →
      ∀ taskName error, fetchTaskResultSnapshot taskName taskId row = .error error →
        ∃ actual, actual ≠ taskName ∧ error = .taskNameMismatch taskId taskName actual := by
  refine ⟨fun call after served payload error raised =>
    history.served_undefensive served payload raised, ?_⟩
  intro taskId row after served taskName error refused
  obtain ⟨life, rows, lives⟩ := history.sound.lives taskId
  have answered := history.sound.serves_getTaskResult rows
  have isRow : row = life.map Life.result := by
    have same := (congrArg Prod.fst answered).symm.trans (congrArg Prod.fst served)
    exact (Except.ok.inj same).symm
  subst isRow
  cases life with
  | none => cases refused
  | some life =>
      by_cases named : life.result.taskName = taskName
      · obtain ⟨completed, failed⟩ := (lives life rfl).1.result_payload
        obtain ⟨snapshot, accepted⟩ :=
          @fetchTaskResultSnapshot_ok taskName taskId life.result named completed failed
        cases accepted.symm.trans refused
      · simp only [Option.map_some, fetchTaskResultSnapshot, ne_eq, named, not_false_eq_true,
          if_true] at refused
        exact ⟨_, named, (Except.error.inj refused).symm⟩

/-- A completed task and one whose run is not claimed. -/
theorem History.defences_unreachable_completed :
    let served := World.serve asciiSpace [plainSubmission [], plainClaim "worker",
      .completeRun 1 (some .null), plainSubmission []] (.blank second)
    served.2.store.tasks.map TaskRow.state = [.completed, .pending] ∧
      (∀ call after, Served asciiSpace served.2 call after → call.operation.GivesPayload →
        ∀ error, call.outcome = .error error → error.defensive = false) ∧
      ∀ taskId row after, Served asciiSpace served.2 ⟨.getTaskResult taskId, .ok row⟩ after →
        ∀ taskName error, fetchTaskResultSnapshot taskName taskId row = .error error →
          ∃ actual, actual ≠ taskName ∧ error = .taskNameMismatch taskId taskName actual :=
  ⟨rfl, History.defences_unreachable (World.history_serve _ second)⟩

end Steda
