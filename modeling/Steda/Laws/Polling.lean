import Mathlib.Algebra.BigOperators.Intervals
import Mathlib.Tactic.IntervalCases
import Steda.Client.TaskHandle
import Steda.Transaction.Trace

/-!
# Polling for a result

The loop of `await_task_result_snapshot` returns what its last poll saw, gives
up only after a poll at or past its deadline saw a task that is not terminal,
and needs few polls to get there: one a second, and at most five more.
-/

namespace Steda

open Transaction

variable {taskId : Uuid} {timeout : Option Nat}

/-! ## Turns -/

/-- The poll found the task in a state that is not terminal. -/
def Poll.Live (poll : Poll) : Prop :=
  ∃ snapshot : TaskResultSnapshot, poll.fetched = .ok (some snapshot) ∧
    snapshot.isTerminal = false

/-- The deadline of a wait has passed. -/
def Overdue (timeout : Option Nat) (elapsed : Nat) : Prop := ∃ limit ∈ timeout, limit ≤ elapsed

/-- What the last turn of a wait returns. -/
inductive Poll.Returns (taskId : Uuid) (timeout : Option Nat) (poll : Poll) :
    Except Error TaskResultSnapshot → Prop
  /-- The poll failed. -/
  | failed {error : Error} (fetched : poll.fetched = .error error) :
      Returns taskId timeout poll (.error error)
  /-- The task does not exist. -/
  | missing (fetched : poll.fetched = .ok none) :
      Returns taskId timeout poll (.error (.taskNotFound taskId))
  /-- The task is terminal. -/
  | terminal {snapshot : TaskResultSnapshot} (fetched : poll.fetched = .ok (some snapshot))
      (isTerminal : snapshot.isTerminal = true) : Returns taskId timeout poll (.ok snapshot)
  /-- The task is not terminal, and the deadline has passed. -/
  | overdue (live : poll.Live) (late : Overdue timeout poll.elapsed) :
      Returns taskId timeout poll
        (.error (.timeout s!"timed out waiting for task {Uuid.text taskId}"))

/-- The sleep of a turn: the current delay, or what is left until the deadline. -/
def restOf (timeout : Option Nat) (delay elapsed : Nat) : Nat :=
  timeout.elim delay fun limit => min delay (limit - elapsed)

/-- A turn returns what its poll decides, or the task is not terminal, the
deadline has not passed, and the loop sleeps. -/
theorem pollTurn_cases (delay : Nat) (poll : Poll) :
    (∃ result, pollTurn taskId timeout delay poll.fetched poll.elapsed = .finished result ∧
        poll.Returns taskId timeout result) ∨
      poll.Live ∧ ¬Overdue timeout poll.elapsed ∧
        pollTurn taskId timeout delay poll.fetched poll.elapsed =
          .sleeping (restOf timeout delay poll.elapsed)
            (min (restOf timeout delay poll.elapsed * 2) maxResultBackoff) := by
  obtain ⟨fetched, elapsed⟩ := poll
  unfold pollTurn
  cases fetched with
  | error error => exact Or.inl ⟨_, rfl, .failed rfl⟩
  | ok found =>
      cases found with
      | none => exact Or.inl ⟨_, rfl, .missing rfl⟩
      | some snapshot =>
          by_cases isTerminal : snapshot.isTerminal = true
          · exact Or.inl ⟨_, if_pos isTerminal, .terminal rfl isTerminal⟩
          · have live : (⟨.ok (some snapshot), elapsed⟩ : Poll).Live :=
              ⟨snapshot, rfl, Bool.eq_false_iff.mpr isTerminal⟩
            simp only [if_neg isTerminal]
            cases timeout with
            | none =>
                refine Or.inr ⟨live, ?_, rfl⟩
                rintro ⟨limit, isLimit, _⟩
                cases isLimit
            | some limit =>
                by_cases late : limit ≤ elapsed
                · exact Or.inl ⟨_, if_pos late, .overdue live ⟨limit, rfl, late⟩⟩
                · refine Or.inr ⟨live, ?_, if_neg late⟩
                  rintro ⟨other, isLimit, isLate⟩
                  exact late (Option.some.inj isLimit ▸ isLate)

/-- A step of the loop is its last turn, or it goes on waiting. -/
theorem Poller.Step.cases {delay earliest : Nat} {poll : Poll} {after : Poller}
    (steps : Poller.Step taskId timeout (.waiting delay earliest) poll after) :
    earliest ≤ poll.elapsed ∧
      ((∃ result, after = .returned result ∧ poll.Returns taskId timeout result) ∨
        poll.Live ∧ ¬Overdue timeout poll.elapsed ∧
          after = .waiting (min (restOf timeout delay poll.elapsed * 2) maxResultBackoff)
            (poll.elapsed + restOf timeout delay poll.elapsed)) := by
  cases steps with
  | turn slept =>
      refine ⟨slept, ?_⟩
      rcases @pollTurn_cases taskId timeout delay poll with
        ⟨result, isTurn, returns⟩ | ⟨live, early, isTurn⟩
      · exact Or.inl ⟨result, congrArg _ isTurn, returns⟩
      · exact Or.inr ⟨live, early, congrArg _ isTurn⟩

/-- A loop that has returned takes no more turns. -/
theorem Poller.returned_done {result : Except Error TaskResultSnapshot} {polls : List Poll}
    {final : Poller} (trace : Trace (Poller.Step taskId timeout) (.returned result) polls final) :
    polls = [] ∧ final = .returned result := by
  cases trace with
  | nil => exact ⟨rfl, rfl⟩
  | cons head _ => cases head

/-! ## What is fetched -/

/-- All polls but the last find the task live before the deadline, and the last
one decides what is returned. -/
theorem Poller.decides {delay earliest : Nat} {polls : List Poll} {final : Poller}
    (trace : Trace (Poller.Step taskId timeout) (.waiting delay earliest) polls final) :
    (∀ poll ∈ polls.dropLast, poll.Live ∧ ¬Overdue timeout poll.elapsed) ∧
      ∀ result, final = .returned result →
        ∃ last ∈ polls.getLast?, last.Returns taskId timeout result := by
  induction polls generalizing delay earliest with
  | nil =>
      cases trace
      exact ⟨fun _ member => (List.not_mem_nil member).elim, fun _ isResult => by cases isResult⟩
  | cons poll rest inductionHypothesis =>
      obtain ⟨middle, head, tail⟩ := Trace.cons_iff.mp trace
      obtain ⟨_, ⟨result, rfl, returns⟩ | ⟨live, early, rfl⟩⟩ := head.cases
      · obtain ⟨rfl, rfl⟩ := Poller.returned_done tail
        refine ⟨fun _ member => (List.not_mem_nil member).elim, fun other isResult => ?_⟩
        obtain rfl := Poller.returned.inj isResult
        exact ⟨poll, rfl, returns⟩
      · obtain ⟨all, last⟩ := inductionHypothesis tail
        cases rest with
        | nil =>
            cases tail
            exact ⟨fun _ member => (List.not_mem_nil member).elim,
              fun _ isResult => by cases isResult⟩
        | cons next later =>
            refine ⟨?_, last⟩
            intro other member
            rcases List.mem_cons.mp member with rfl | inRest
            · exact ⟨live, early⟩
            · exact all other inRest

/-- A loop that waits after a poll sleeps a second at most, and not past its
deadline. -/
theorem Poller.sleeps {delay earliest later wakes : Nat} {polls : List Poll}
    (trace : Trace (Poller.Step taskId timeout) (.waiting delay earliest) polls
      (.waiting later wakes)) (capped : delay ≤ maxResultBackoff) {last : Poll}
    (isLast : last ∈ polls.getLast?) :
    wakes ≤ last.elapsed + maxResultBackoff ∧ ∀ limit ∈ timeout, wakes ≤ limit := by
  induction polls generalizing delay earliest with
  | nil => cases isLast
  | cons poll rest inductionHypothesis =>
      obtain ⟨middle, head, tail⟩ := Trace.cons_iff.mp trace
      obtain ⟨_, ⟨result, rfl, _⟩ | ⟨_, early, rfl⟩⟩ := head.cases
      · cases (Poller.returned_done tail).2
      · cases rest with
        | cons next others => exact inductionHypothesis tail (min_le_right _ _) isLast
        | nil =>
            cases tail
            have same : poll = last := Option.some.inj isLast
            subst same
            cases timeout with
            | none => exact ⟨Nat.add_le_add_left capped _, fun limit isLimit => by cases isLimit⟩
            | some limit =>
                have inTime : poll.elapsed < limit := by
                  by_contra late
                  exact early ⟨limit, rfl, not_lt.mp late⟩
                have isRest : restOf (some limit) delay poll.elapsed =
                    min delay (limit - poll.elapsed) := rfl
                rw [isRest]
                refine ⟨by omega, fun other isLimit => ?_⟩
                obtain rfl := Option.some.inj isLimit
                omega

/-! ## How often -/

/-- The delay after some full sleeps. -/
def resultBackoff (sleeps : Nat) : Nat := min (initialResultBackoff * 2 ^ sleeps) maxResultBackoff

theorem resultBackoff_succ (sleeps : Nat) :
    min (resultBackoff sleeps * 2) maxResultBackoff = resultBackoff (sleeps + 1) := by
  unfold resultBackoff
  rw [pow_succ, ← Nat.mul_assoc]
  omega

theorem resultBackoff_full {sleeps : Nat} (many : 5 ≤ sleeps) :
    resultBackoff sleeps = maxResultBackoff := by
  have large : 2 ^ 5 ≤ 2 ^ sleeps := Nat.pow_le_pow_right (by decide) many
  unfold resultBackoff initialResultBackoff maxResultBackoff
  omega

/-- Full sleeps are a second each, but for 3.45 seconds. -/
theorem sum_resultBackoff (sleeps : Nat) :
    sleeps * maxResultBackoff ≤ ∑ index ∈ Finset.range sleeps, resultBackoff index + 3450000000 := by
  induction sleeps with
  | zero => simp
  | succ sleeps inductionHypothesis =>
      rcases Nat.lt_or_ge sleeps 5 with few | many
      · interval_cases sleeps <;> decide
      · rw [Finset.sum_range_succ, resultBackoff_full many, Nat.succ_mul]
        omega

/-- Past the deadline there is one more turn at most. -/
theorem Poller.last_turn {limit delay earliest : Nat} {polls : List Poll} {final : Poller}
    (trace : Trace (Poller.Step taskId (some limit)) (.waiting delay earliest) polls final)
    (late : limit ≤ earliest) : polls.length ≤ 1 := by
  cases polls with
  | nil => exact Nat.zero_le 1
  | cons poll rest =>
      obtain ⟨middle, head, tail⟩ := Trace.cons_iff.mp trace
      obtain ⟨slept, ⟨result, rfl, _⟩ | ⟨_, early, _⟩⟩ := head.cases
      · rw [(Poller.returned_done tail).1]
        exact le_rfl
      · exact absurd ⟨limit, rfl, late.trans slept⟩ early

/-- All sleeps but the last are full, and they end before the deadline. -/
theorem Poller.paced {limit sleeps earliest : Nat} {polls : List Poll} {final : Poller}
    (trace : Trace (Poller.Step taskId (some limit)) (.waiting (resultBackoff sleeps) earliest)
      polls final) (several : 2 ≤ polls.length) :
    earliest + ∑ index ∈ Finset.range (polls.length - 2), resultBackoff (sleeps + index) <
      limit := by
  induction polls generalizing sleeps earliest with
  | nil => cases several
  | cons poll rest inductionHypothesis =>
      obtain ⟨middle, head, tail⟩ := Trace.cons_iff.mp trace
      obtain ⟨slept, ⟨result, rfl, _⟩ | ⟨_, early, isMiddle⟩⟩ := head.cases
      · rw [(Poller.returned_done tail).1] at several
        cases Nat.lt_of_succ_lt_succ several
      · have inTime : poll.elapsed < limit := by
          by_contra late
          exact early ⟨limit, rfl, not_lt.mp late⟩
        rcases Nat.lt_or_ge rest.length 2 with few | many
        · have single : (poll :: rest).length - 2 = 0 := by
            rw [List.length_cons]
            omega
          rw [single, Finset.sum_range_zero]
          omega
        · rcases Nat.lt_or_ge (limit - poll.elapsed) (resultBackoff sleeps) with short | full
          · have isRest : restOf (some limit) (resultBackoff sleeps) poll.elapsed =
                limit - poll.elapsed := min_eq_right short.le
            rw [isMiddle, isRest] at tail
            exact absurd (Poller.last_turn tail (by omega)) (by omega)
          · have isRest : restOf (some limit) (resultBackoff sleeps) poll.elapsed =
                resultBackoff sleeps := min_eq_left full
            rw [isMiddle, isRest, resultBackoff_succ] at tail
            have later := inductionHypothesis tail many
            have shifted : ∀ index, resultBackoff (sleeps + 1 + index) =
                resultBackoff (sleeps + (index + 1)) := by
              intro index
              rw [Nat.add_assoc, Nat.add_comm 1]
            have length : (poll :: rest).length - 2 = rest.length - 2 + 1 := by
              rw [List.length_cons]
              omega
            simp only [shifted] at later
            rw [length, Finset.sum_range_succ', Nat.add_zero]
            omega

/-! ## The law -/

/-- A wait for a result keeps its time. -/
structure PollsInTime (taskId : Uuid) (timeout : Option Nat) (polls : List Poll)
    (final : Poller) : Prop where
  /-- All polls but the last found the task in a state that is not terminal,
  before the deadline. -/
  live : ∀ poll ∈ polls.dropLast, poll.Live ∧ ¬Overdue timeout poll.elapsed
  /-- What is returned is decided by the last poll. -/
  decided : ∀ result, final = .returned result →
    ∃ last ∈ polls.getLast?, last.Returns taskId timeout result
  /-- A sleep takes at most a second and ends by the deadline. -/
  prompt : ∀ delay earliest, final = .waiting delay earliest → ∀ last ∈ polls.getLast?,
    earliest ≤ last.elapsed + maxResultBackoff ∧ ∀ limit ∈ timeout, earliest ≤ limit
  /-- A deadline admits one poll a second and at most five more. -/
  few : ∀ limit ∈ timeout, polls.length * maxResultBackoff < limit + 5450000000

/-- Every wait for a result keeps its time, whatever its polls fetch and however
long they take. -/
theorem Poller.keeps_time {polls : List Poll} {final : Poller}
    (trace : Trace (Poller.Step taskId timeout) .start polls final) :
    PollsInTime taskId timeout polls final where
  live := (Poller.decides trace).1
  decided := (Poller.decides trace).2
  prompt := by
    rintro delay earliest rfl last isLast
    exact Poller.sleeps trace (by decide) isLast
  few := by
    intro limit isLimit
    obtain rfl := isLimit
    rcases Nat.lt_or_ge polls.length 2 with few | several
    · have single : polls.length * maxResultBackoff ≤ 1 * maxResultBackoff :=
        Nat.mul_le_mul_right _ (Nat.le_of_lt_succ few)
      unfold maxResultBackoff at single ⊢
      omega
    · have paced := @Poller.paced _ _ 0 _ _ _ trace several
      have counted := sum_resultBackoff (polls.length - 2)
      simp only [Nat.zero_add] at paced
      rw [Nat.mul_comm, Nat.mul_sub, Nat.mul_comm] at counted
      unfold maxResultBackoff at counted ⊢
      omega

/-- A wait of 120 milliseconds for a task that completes too late. -/
theorem Poller.keeps_time_overdue :
    ∃ polls final, PollsInTime 0 (some 120000000) polls final ∧ polls.length = 3 := by
  let poll (elapsed : Nat) : Poll := { fetched := .ok (some .pending), elapsed := elapsed }
  have trace : Trace (Poller.Step 0 (some 120000000)) .start
      [poll 0, poll 60000000, poll 130000000] _ :=
    .cons (.turn (Nat.zero_le _)) (.cons (.turn (by decide)) (.cons (.turn (by decide)) (.nil _)))
  exact ⟨_, _, Poller.keeps_time trace, rfl⟩

end Steda
