import Steda.Transaction.Conduct

/-!
# Guarded commands

A guard says in which states a transaction may issue which commands.  A program
respects a guard when every command it comes to issue, however the others
interfere, is allowed in the state it is issued in.
-/

namespace Transaction

variable {σ κ ω ε τ ι α β : Type}

/-- Every command the program comes to issue is allowed by the guard. -/
def Program.Respects (storage : Storage σ κ ω ε) (rely : Rely κ σ)
    (guard : Local σ κ ω τ ι → Command κ ω → Prop) (program : Script σ κ ω ε τ ι α)
    (state : Local σ κ ω τ ι) : Prop :=
  ∀ past command next last,
    Amid storage rely program state past (.perform command next) last → guard last command

namespace Program

variable {storage : Storage σ κ ω ε} {rely : Rely κ σ}
variable {guard : Local σ κ ω τ ι → Command κ ω → Prop}
variable {state after last : Local σ κ ω τ ι}

theorem respects_done (value : α) :
    (.done value : Script σ κ ω ε τ ι α).Respects storage rely guard state := by
  intro past command next last conduct
  cases conduct.done_cases.2

theorem respects_raise (error : ε) :
    (.raise error : Script σ κ ω ε τ ι α).Respects storage rely guard state := by
  intro past command next last conduct
  cases conduct.raise_cases.2

theorem respects_ofExcept (outcome : Except ε α) :
    (ofExcept outcome : Script σ κ ω ε τ ι α).Respects storage rely guard state := by
  cases outcome with
  | ok value => exact respects_done value
  | error error => exact respects_raise error

theorem Respects.amid {program rest : Script σ κ ω ε τ ι α}
    {past : List (Interaction σ κ ω τ ι)}
    (respects : program.Respects storage rely guard state)
    (conduct : Amid storage rely program state past rest last) :
    rest.Respects storage rely guard last :=
  fun _ _ _ _ later => respects _ _ _ _ (conduct.trans later)

/-- A command is allowed whatever others have committed before it, and the
program goes on respecting the guard whatever the answer. -/
theorem respects_perform {command : Command κ ω}
    {next : command.Response σ τ ι → Script σ κ ω ε τ ι α}
    (allowed : ∀ store, rely.moves state.held state.committed store →
      guard (state.withCommitted store) command)
    (later : ∀ store answer after, rely.moves state.held state.committed store →
      Answered storage command (state.withCommitted store) answer after →
        (next answer).Respects storage rely guard after) :
    (.perform command next : Script σ κ ω ε τ ι α).Respects storage rely guard state := by
  intro past other rest last conduct
  rcases conduct.perform_cases with ⟨isNil, isRest⟩ |
    ⟨store, answer, after, late, moves, answered, _, remaining⟩
  · subst isNil
    cases isRest
    obtain ⟨_, store, moves, isLast⟩ := conduct.nil_cases
    exact isLast ▸ allowed store moves
  · exact later store answer after moves answered _ _ _ _ remaining

theorem respects_issue {command : Command κ ω}
    (allowed : ∀ store, rely.moves state.held state.committed store →
      guard (state.withCommitted store) command) :
    (issue command : Script σ κ ω ε τ ι (command.Response σ τ ι)).Respects storage rely guard
      state :=
  respects_perform allowed fun _ answer _ _ _ => respects_done answer

/-- The rule of composition. -/
theorem Respects.bind {program : Script σ κ ω ε τ ι β} {next : β → Script σ κ ω ε τ ι α}
    (first : program.Respects storage rely guard state)
    (later : ∀ value past between, Amid storage rely program state past (.done value) between →
      (next value).Respects storage rely guard between) :
    (program >>= next).Respects storage rely guard state := by
  intro past command rest last conduct
  rcases conduct.bind_cases with ⟨middle, underWay, isRest⟩ |
    ⟨value, between, early, late, _, returned, remaining⟩
  · cases middle with
    | done value => exact later value past last underWay [] command rest last (isRest ▸ .here _ _)
    | raise error => cases isRest
    | perform other more =>
        cases isRest
        exact first _ _ _ _ underWay
  · exact later value early between returned _ _ _ _ remaining

theorem Respects.mono {weaker : Local σ κ ω τ ι → Command κ ω → Prop}
    {program : Script σ κ ω ε τ ι α} (implies : ∀ state command, guard state command →
      weaker state command) (respects : program.Respects storage rely guard state) :
    program.Respects storage rely weaker state :=
  fun _ _ _ _ conduct => implies _ _ (respects _ _ _ _ conduct)

/-- While an invariant lasts that makes the commands of a program allowed, the
program respects the guard. -/
theorem respects_while (invariant : Local σ κ ω τ ι → Prop) {allowed : Command κ ω → Prop}
    {program : Script σ κ ω ε τ ι α} (issues : program.Issues allowed)
    (stable : ∀ state store, invariant state → rely.moves state.held state.committed store →
      invariant (state.withCommitted store))
    (kept : ∀ {command : Command κ ω} {answer : command.Response σ τ ι}
      {state after : Local σ κ ω τ ι}, allowed command → invariant state →
        Answered storage command state answer after → invariant after)
    (always : ∀ state command, invariant state → allowed command → guard state command)
    (initial : invariant state) : program.Respects storage rely guard state := by
  induction program generalizing state with
  | done value => exact respects_done value
  | raise error => exact respects_raise error
  | perform command next inductionHypothesis =>
      refine respects_perform (fun store moves => ?_) fun store answer after moves answered => ?_
      · exact always _ _ (stable _ _ initial moves) issues.1
      · exact inductionHypothesis answer (issues.2 answer)
          (kept issues.1 (stable _ _ initial moves) answered)

/-- A program all of whose commands are always allowed respects the guard. -/
theorem respects_of_issues {program : Script σ κ ω ε τ ι α} {allowed : Command κ ω → Prop}
    (issues : program.Issues allowed)
    (always : ∀ state command, allowed command → guard state command) :
    program.Respects storage rely guard state :=
  respects_while (fun _ => True) issues (fun _ _ _ _ => trivial) (fun _ _ _ => trivial)
    (fun state command _ => always state command) trivial

end Program

/-- A property of states that others and allowed commands keep holds along the
way of a program that respects the guard. -/
theorem Amid.upholds {storage : Storage σ κ ω ε} {rely : Rely κ σ}
    {guard : Local σ κ ω τ ι → Command κ ω → Prop} {invariant : Local σ κ ω τ ι → Prop}
    {program rest : Script σ κ ω ε τ ι α} {state last : Local σ κ ω τ ι}
    {past : List (Interaction σ κ ω τ ι)}
    (conduct : Amid storage rely program state past rest last)
    (respects : program.Respects storage rely guard state)
    (stable : ∀ state store, invariant state → rely.moves state.held state.committed store →
      invariant (state.withCommitted store))
    (kept : ∀ {command : Command κ ω} {answer : command.Response σ τ ι}
      {state after : Local σ κ ω τ ι}, guard state command → invariant state →
        Answered storage command state answer after → invariant after)
    (initial : invariant state) : invariant last := by
  induction conduct with
  | here program state => exact initial
  | moved moves later inductionHypothesis =>
      exact inductionHypothesis (respects.amid (.moved moves (.here _ _)))
        (stable _ _ initial moves)
  | answered answers later inductionHypothesis =>
      exact inductionHypothesis (respects.amid (.answered answers (.here _ _)))
        (kept (respects _ _ _ _ (.here _ _)) initial answers)

end Transaction
