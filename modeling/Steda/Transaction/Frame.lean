import Mathlib.Order.Defs.Unbundled
import Steda.Transaction.ReadCommitted

/-!
# Frames

A program keeps a preorder on states when it ends, by returning or by raising,
in a state above the one it started in.
-/

namespace Transaction
namespace Program

variable {Command : Type} {Response : Command → Type} {ε α β σ : Type}
variable {handle : (command : Command) → σ → Except ε (Response command) × σ}
variable {kept : σ → σ → Prop}

/-- However it ends, the program ends in a state above its first one. -/
def Keeps (handle : (command : Command) → σ → Except ε (Response command) × σ)
    (kept : σ → σ → Prop) (program : Program Response ε α) : Prop :=
  ∀ state, kept state (program.run handle state).2

section Rules

variable [IsPreorder σ kept]

theorem keeps_pure (value : α) : Keeps handle kept (pure value) := fun state => refl_of kept state

theorem keeps_raise (error : ε) : Keeps handle kept (.raise error : Program Response ε α) :=
  fun state => refl_of kept state

theorem keeps_ofExcept (outcome : Except ε α) :
    Keeps handle kept (ofExcept outcome : Program Response ε α) := by
  cases outcome with
  | error error => exact keeps_raise error
  | ok value => exact keeps_pure value

theorem keeps_bind {program : Program Response ε α} {next : α → Program Response ε β}
    (first : Keeps handle kept program) (later : ∀ value, Keeps handle kept (next value)) :
    Keeps handle kept (program >>= next) := by
  intro state
  have early := first state
  rw [run_bind]
  rcases ran : program.run handle state with ⟨error | value, after⟩
  · rw [ran] at early
    exact early
  · rw [ran] at early
    exact trans_of kept early (later value after)

end Rules

theorem keeps_issue {command : Command} (keeps : ∀ state, kept state (handle command state).2) :
    Keeps handle kept (issue command) := by
  intro state
  rw [run_issue]
  exact keeps state

end Program

/-- Only a write changes the store. -/
theorem Storage.handle_store {σ τ ι κ ω ε : Type} (storage : Storage σ κ ω ε)
    {command : Command κ ω} (notWrite : ∀ change, command ≠ .write change)
    (session : Session σ τ ι) : (storage.handle command session).2.store = session.store := by
  cases command with
  | write change => exact absurd rfl (notWrite change)
  | _ => rfl

end Transaction
