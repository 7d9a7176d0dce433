import YieldMachine.Machine.Cursor
import YieldMachine.Machine.Supply

/-!
# Adapters

An adapter makes the elements of a value available to a consumer: rows of a key and a
value.  There is one for each kind of cursor, and one that hands on the elements of a
generator.  What an adapter reads when a row is taken is the state.
-/

namespace YieldMachine

variable {σ γ α κ ν ρ : Type}

/-- The row that a cursor gives, which stops at a row that is out of range. -/
def orInvalid : Option ρ × γ → Eff σ (ρ × γ)
  | (some row, g) => pure (row, g)
  | (none, _) => throw .invalid

/-- How a cursor over a list of `n` elements is asked; the state holds the elements. -/
def SliceCursor.supply (α : Type) (n : Nat) : Supply (Vector α n) SliceCursor (Nat × α) where
  hasNext c := pure (c.hasNext, c)
  next c := do
    let elements ← get
    orInvalid (c.next fun i => elements[i]?)

/-- How a cursor over a map is asked. -/
def MapCursor.supply (σ κ ν : Type) : Supply σ (MapCursor κ ν) (κ × ν) where
  hasNext c := pure (c.hasNext, c)
  next c := orInvalid c.next

/-- How a cursor over a byte string is asked. -/
def TextCursor.supply (σ : Type) : Supply σ TextCursor (Nat × Nat) where
  hasNext c := pure (c.hasNext, c)
  next c := pure c.next

/-- How a cursor over a closed channel is asked. -/
def ChanCursor.supply (σ : Type) (zero : α) : Supply σ (ChanCursor α) (α × Unit) where
  hasNext c := pure c.hasNext
  next c := let (value, c) := c.next zero; pure ((value, ()), c)

/-- How a cursor that counts is asked. -/
def CountCursor.supply (σ : Type) : Supply σ CountCursor (Int × Unit) where
  hasNext c := pure (c.hasNext, c)
  next c := let (n, c) := c.next; pure ((n, ()), c)

/-- How a cursor over a generator is asked. -/
def Supply.each (s : Supply σ γ α) : Supply σ γ (α × Unit) where
  hasNext := s.hasNext
  next g := do
    let (value, g) ← s.next g
    return ((value, ()), g)

/-- A generator of the elements of a list. -/
def Supply.ofItems (σ : Type) (zero : α) : Supply σ (List α) α where
  hasNext items := pure (!items.isEmpty, items)
  next items := pure (items.headD zero, items.tail)

end YieldMachine
