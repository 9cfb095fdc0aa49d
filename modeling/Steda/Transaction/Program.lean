import Mathlib.Logic.Relation

/-!
# Command programs

A program issues commands one at a time and chooses its next command from the
answer to the previous one.  The same program is read in two ways.  `run`
executes it alone against a deterministic handler.  `Ensures` executes it
against a nondeterministic handler while an environment relation may move the
state before every command, which is how one transaction sees the commits of
the others.
-/

namespace Transaction

/-- A program over a command signature.  It returns a value, raises an error,
or issues a command and continues with the answer. -/
inductive Program {Command : Type} (Response : Command → Type) (ε α : Type) : Type
  | done (value : α)
  | raise (error : ε)
  | perform (command : Command) (next : Response command → Program Response ε α)

namespace Program

variable {Command : Type} {Response : Command → Type}
variable {ε α β σ : Type}

/-- Sequential composition.  A raised error skips the continuation. -/
def bind (program : Program Response ε α) (next : α → Program Response ε β) :
    Program Response ε β :=
  match program with
  | .done value => next value
  | .raise error => .raise error
  | .perform command rest => .perform command fun answer => (rest answer).bind next

instance : Monad (Program Response ε) where
  pure := .done
  bind := bind

/-- Issue one command and return its answer. -/
def issue (command : Command) : Program Response ε (Response command) :=
  .perform command .done

/-- Return the value of a fallible pure computation, or raise its error. -/
def ofExcept : Except ε α → Program Response ε α
  | .ok value => .done value
  | .error error => .raise error

/-! ## Running a program alone -/

/-- Execute a program against a deterministic handler.  The state survives an
error, so that the caller decides what to roll back. -/
def run (handle : (command : Command) → σ → Except ε (Response command) × σ) :
    Program Response ε α → σ → Except ε α × σ
  | .done value, state => (.ok value, state)
  | .raise error, state => (.error error, state)
  | .perform command next, state =>
      match handle command state with
      | (.ok answer, state) => (next answer).run handle state
      | (.error error, state) => (.error error, state)

section Run

variable {handle : (command : Command) → σ → Except ε (Response command) × σ}

@[simp] theorem run_done (value : α) (state : σ) :
    (done value : Program Response ε α).run handle state = (.ok value, state) := rfl

@[simp] theorem run_pure (value : α) (state : σ) :
    (pure value : Program Response ε α).run handle state = (.ok value, state) := rfl

@[simp] theorem run_raise (error : ε) (state : σ) :
    (raise error : Program Response ε α).run handle state = (.error error, state) := rfl

@[simp] theorem run_issue (command : Command) (state : σ) :
    (issue command : Program Response ε _).run handle state = handle command state := by
  rcases answered : handle command state with ⟨answer | answer, after⟩ <;>
    simp [issue, run, answered]

/-- A composition runs its continuation exactly when its first part returns. -/
theorem run_bind (program : Program Response ε α) (next : α → Program Response ε β)
    (state : σ) :
    (program >>= next).run handle state =
      match program.run handle state with
      | (.ok value, after) => (next value).run handle after
      | (.error error, after) => (.error error, after) := by
  induction program generalizing state with
  | done value => rfl
  | raise error => rfl
  | perform command rest inductionHypothesis =>
      change (perform command fun answer => (rest answer).bind next).run handle state = _
      simp only [run]
      split
      · exact inductionHypothesis _ _
      · rfl

/-- Inversion of a composition that returned. -/
theorem run_bind_eq_ok {program : Program Response ε α}
    {next : α → Program Response ε β} {state after : σ} {value : β} :
    (program >>= next).run handle state = (.ok value, after) ↔
      ∃ middle between, program.run handle state = (.ok middle, between) ∧
        (next middle).run handle between = (.ok value, after) := by
  rw [run_bind]
  rcases program.run handle state with ⟨error | answer, between⟩
  · simp
  · constructor
    · intro returned
      exact ⟨answer, between, rfl, returned⟩
    · rintro ⟨middle, reached, equal, returned⟩
      cases equal
      exact returned

@[simp] theorem run_ofExcept (outcome : Except ε α) (state : σ) :
    (ofExcept outcome : Program Response ε α).run handle state = (outcome, state) := by
  cases outcome <;> rfl

/-- A reflexive and transitive relation kept by every command relates the ends
of a run. -/
theorem run_related {relation : σ → σ → Prop} (reflexive : ∀ state, relation state state)
    (transitive : ∀ {a b c}, relation a b → relation b c → relation a c)
    (kept : ∀ command state, relation state (handle command state).2)
    (program : Program Response ε α) (state : σ) :
    relation state (program.run handle state).2 := by
  induction program generalizing state with
  | done value => exact reflexive state
  | raise error => exact reflexive state
  | perform command next inductionHypothesis =>
      have handled := kept command state
      simp only [run]
      rcases answered : handle command state with ⟨error | answer, after⟩
      · rw [answered] at handled
        exact handled
      · rw [answered] at handled
        exact transitive handled (inductionHypothesis answer after)

end Run

end Program
end Transaction
