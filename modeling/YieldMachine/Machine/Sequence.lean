import YieldMachine.Machine.Bounce

/-!
# Sequences

A sequence drives a machine.  It always holds the next element, so asking whether
there is one runs no step of the machine.
-/

namespace YieldMachine

/-- A machine stopped one element ahead: that element and the step after it, or
nothing once the machine is at its end. -/
structure Sequence (τ α : Type) where
  ahead : Option (α × τ)
  deriving DecidableEq, Repr

namespace Sequence

variable {τ α σ : Type}

/-- Runs a machine from `t` on to its next element. -/
def start (step : τ → Eff σ (Bounce τ α)) (fuel : Nat) (t : τ) : Eff σ (Sequence τ α) := do
  match ← Bounce.trampoline step fuel t with
  | ⟨some next, some value⟩ => pure ⟨some (value, next)⟩
  | _ => pure ⟨none⟩

/-- Whether there is another element. -/
def hasNext (s : Sequence τ α) : Bool := s.ahead.isSome

/-- The element that is held, and the sequence after it; at the end, `zero` and the
same sequence. -/
def next (step : τ → Eff σ (Bounce τ α)) (fuel : Nat) (zero : α) (s : Sequence τ α) :
    Eff σ (α × Sequence τ α) :=
  match s.ahead with
  | none => pure (zero, s)
  | some (value, t) => do
    let rest ← start step fuel t
    pure (value, rest)

end Sequence

end YieldMachine
