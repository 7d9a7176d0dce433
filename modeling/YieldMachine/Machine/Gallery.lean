import YieldMachine.Machine.Supply

/-!
# Ready-made machines

Four machines as they come out of lowering: each state is one step that changes the
fields of the machine and transfers control.  A deferred step is the state to enter,
or `none` for the end.
-/

namespace YieldMachine.Gallery

/-- A transfer to a state. -/
def goto {α : Type} (state : Nat) : Bounce (Option Nat) α := .goto (some state)

/-- A transfer to a state that hands over a value. -/
def emit {α : Type} (state : Nat) (value : α) : Bounce (Option Nat) α := .emit (some state) value

/-- The transfer of the end state. -/
def finish {α : Type} : Bounce (Option Nat) α := .goto none

/-- The fields of `upDown`. -/
structure UpDown where
  stop : Int64
  i : Int64
  i1 : Int64

/-- Counts up to `stop` and back to zero. -/
def upDown : Option Nat → Eff UpDown (Bounce (Option Nat) Int64)
  | none => pure .done
  | some 0 => pure (goto 3)
  | some 1 => pure finish
  | some 2 => pure (goto 10)
  | some 3 => do
    modify fun g => { g with i := 0 }
    pure (goto 4)
  | some 4 => do
    let g ← get
    if g.i < g.stop then pure (goto 5) else pure (goto 2)
  | some 5 => do
    let g ← get
    pure (emit 7 g.i)
  | some 6 => do
    modify fun g => { g with i := g.i + 1 }
    pure (goto 4)
  | some 7 => pure (goto 6)
  | some 8 => pure (goto 6)
  | some 9 => pure (goto 1)
  | some 10 => do
    modify fun g => { g with i1 := g.stop }
    pure (goto 11)
  | some 11 => do
    let g ← get
    if 0 ≤ g.i1 then pure (goto 12) else pure (goto 9)
  | some 12 => do
    let g ← get
    pure (emit 14 g.i1)
  | some 13 => do
    modify fun g => { g with i1 := g.i1 - 1 }
    pure (goto 11)
  | some 14 => pure (goto 13)
  | some 15 => pure (goto 13)
  | some 16 => pure (goto 1)
  | some 17 => pure (goto 1)
  | some _ => throw .invalid

/-- The fields of `upDown` before its first state. -/
def upDownStart (stop : Int64) : UpDown := ⟨stop, 0, 0⟩

/-- Gives every grade that a score earns, best first; the field is the score. -/
def grades : Option Nat → Eff Int64 (Bounce (Option Nat) String)
  | none => pure .done
  | some 0 => pure (goto 3)
  | some 1 => pure finish
  | some 2 => pure (goto 1)
  | some 3 => do
    let score ← get
    if 90 ≤ score then pure (goto 4)
    else if 80 ≤ score then pure (goto 5)
    else pure (goto 6)
  | some 4 => pure (emit 7 "A")
  | some 5 => pure (emit 9 "B")
  | some 6 => pure (emit 11 "C")
  | some 7 => pure (goto 5)
  | some 8 => pure (goto 5)
  | some 9 => pure (goto 6)
  | some 10 => pure (goto 6)
  | some 11 => pure (goto 2)
  | some 12 => pure (goto 2)
  | some 13 => pure (goto 2)
  | some 14 => pure (goto 1)
  | some 15 => pure (goto 1)
  | some _ => throw .invalid

/-- The fields of `shadowed`: an outer variable and an inner one of the same name. -/
structure Shadowed where
  x : Int64
  x1 : Int64

/-- Gives the outer variable, then the inner one, then the outer one again. -/
def shadowed : Option Nat → Eff Shadowed (Bounce (Option Nat) Int64)
  | none => pure .done
  | some 0 => do
    modify fun g => { g with x := 1 }
    let g ← get
    pure (emit 2 g.x)
  | some 1 => pure finish
  | some 2 => do
    modify fun g => { g with x1 := 2 }
    let g ← get
    pure (emit 4 g.x1)
  | some 3 => do
    let g ← get
    pure (emit 6 g.x)
  | some 4 => pure (goto 3)
  | some 5 => pure (goto 3)
  | some 6 => pure (goto 1)
  | some 7 => pure (goto 1)
  | some 8 => pure (goto 1)
  | some _ => throw .invalid

/-- Gives what another thread sends over a channel, which is closed afterwards.  The
field is the channel: what it holds, or `none` once it is closed. -/
def relay : Option Nat → Eff (Option (List Int64)) (Bounce (Option Nat) Int64)
  | none => pure .done
  | some 0 => do
    set (some [(1 : Int64)])
    match ← get with
    | some (value :: rest) =>
      set (some rest)
      pure (emit 2 value)
    | _ => throw .invalid
  | some 1 => pure finish
  | some 2 => do
    set (none : Option (List Int64))
    pure (goto 1)
  | some 3 => pure (goto 1)
  | some 4 => pure (goto 1)
  | some _ => throw .invalid

end YieldMachine.Gallery
