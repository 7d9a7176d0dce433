import YieldMachine.Machine.Fault

/-!
# Bounces and the trampoline

A state of a machine does not call the next state.  It returns a bounce that says
where to go on, and the trampoline goes there, so the stack stays flat however many
transfers there are.  `τ` is the type of deferred steps and `α` that of elements.
-/

namespace YieldMachine

/-- The result of a single step.  Without a next step it marks the end of the
sequence, whether or not it carries a value. -/
structure Bounce (τ α : Type) where
  next : Option τ
  value : Option α
  deriving DecidableEq, Repr

namespace Bounce

variable {τ α σ : Type}

/-- Goes on at `next` without producing anything. -/
def goto (next : τ) : Bounce τ α := ⟨some next, none⟩

/-- Hands over a value, and goes on at `next` once asked to. -/
def emit (next : τ) (value : α) : Bounce τ α := ⟨some next, some value⟩

/-- Ends the sequence. -/
def done : Bounce τ α := ⟨none, none⟩

/-- Whether the sequence ends here. -/
def isDone (b : Bounce τ α) : Bool := b.next.isNone

/-- Takes steps from `t` on until one of them produces a value or the sequence ends,
at most `fuel` of them. -/
def trampoline (step : τ → Eff σ (Bounce τ α)) : Nat → τ → Eff σ (Bounce τ α)
  | 0, _ => throw .exhausted
  | fuel + 1, t => do
    match ← step t with
    | ⟨some next, none⟩ => trampoline step fuel next
    | b => pure b

end Bounce

end YieldMachine
