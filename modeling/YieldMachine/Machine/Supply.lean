import YieldMachine.Machine.Sequence

/-!
# Generators and their consumers

A `Supply` says how elements are asked for: whether there is another one, and what
it is.  `Pipe` puts limits on a source, and `Supply.toList` and `Supply.firstOf`
consume elements.
-/

namespace YieldMachine

/-- How to ask a generator with state `γ` for its elements. -/
structure Supply (σ γ α : Type) where
  hasNext : γ → Eff σ (Bool × γ)
  next : γ → Eff σ (α × γ)

/-- The answer of an advance function that was asked and not yet used: whether there
is a value, and the value. -/
abbrev Waiting (α : Type) := Option (Bool × α)

namespace Waiting

variable {α γ σ : Type}

/-- Asks for an answer unless one is waiting. -/
def prime (advance : γ → Eff σ ((Bool × α) × γ)) (w : Waiting α) (g : γ) :
    Eff σ ((Bool × α) × γ) :=
  match w with
  | some answer => pure (answer, g)
  | none => advance g

/-- What is waiting once an answer was handed out: a final answer stays. -/
def after (answer : Bool × α) : Waiting α := if answer.1 then none else some answer

end Waiting

/-- A generator around an advance function, which answers false once there are no more
values. -/
def Supply.ofAdvance {σ α : Type} (advance : Eff σ (Bool × α)) : Supply σ (Waiting α) α where
  hasNext w := do
    let (answer, ()) ← w.prime (fun () => do return (← advance, ())) ()
    pure (answer.1, some answer)
  next w := do
    let (answer, ()) ← w.prime (fun () => do return (← advance, ())) ()
    pure (answer.2, Waiting.after answer)

/-- A started machine as a generator. -/
def Supply.ofSteps {σ τ α : Type} (step : τ → Eff σ (Bounce τ α)) (fuel : Nat) (zero : α) :
    Supply σ (Sequence τ α) α where
  hasNext s := pure (s.hasNext, s)
  next s := s.next step fuel zero

/-- A source, or at most `limit` elements of what stands before it.  A limit counts
what it took and holds an answer that was asked for. -/
inductive Pipe (γ α : Type) where
  | source (g : γ)
  | take (limit : Int) (taken : Nat) (waiting : Waiting α) (inner : Pipe γ α)

namespace Pipe

variable {σ γ α : Type}

/-- The answer of a limit, given how to pull an element from what stands before it:
no more than `limit` elements are pulled. -/
def answer (zero : α) (limit : Int) (taken : Nat) (inner : Pipe γ α)
    (pull : Eff σ (Option α × Pipe γ α)) : Eff σ ((Bool × α) × (Nat × Pipe γ α)) := do
  if limit ≤ taken then return ((false, zero), (taken, inner))
  match ← pull with
  | (some value, inner) => return ((true, value), (taken + 1, inner))
  | (none, inner) => return ((false, zero), (taken, inner))

/-- Takes an element if there is another one. -/
def pull (s : Supply σ γ α) (zero : α) : Pipe γ α → Eff σ (Option α × Pipe γ α)
  | .source g => do
    let (has, g) ← s.hasNext g
    if has then
      let (value, g) ← s.next g
      return (some value, .source g)
    else return (none, .source g)
  | .take limit taken waiting inner => do
    let (ans, taken, inner) ←
      waiting.prime (fun (_ : Nat × Pipe γ α) => answer zero limit taken inner (inner.pull s zero))
        (taken, inner)
    return (if ans.1 then some ans.2 else none, .take limit taken (Waiting.after ans) inner)

/-- Whether there is another element. -/
def hasNext (s : Supply σ γ α) (zero : α) : Pipe γ α → Eff σ (Bool × Pipe γ α)
  | .source g => do
    let (has, g) ← s.hasNext g
    return (has, .source g)
  | .take limit taken waiting inner => do
    let (ans, taken, inner) ←
      waiting.prime (fun (_ : Nat × Pipe γ α) => answer zero limit taken inner (inner.pull s zero))
        (taken, inner)
    return (ans.1, .take limit taken (some ans) inner)

/-- The next element, or what stands for it at the end. -/
def next (s : Supply σ γ α) (zero : α) : Pipe γ α → Eff σ (α × Pipe γ α)
  | .source g => do
    let (value, g) ← s.next g
    return (value, .source g)
  | .take limit taken waiting inner => do
    let (ans, taken, inner) ←
      waiting.prime (fun (_ : Nat × Pipe γ α) => answer zero limit taken inner (inner.pull s zero))
        (taken, inner)
    return (ans.2, .take limit taken (Waiting.after ans) inner)

/-- At most `limit` elements of a pipe. -/
def limitTo (limit : Int) (p : Pipe γ α) : Pipe γ α := .take limit 0 none p

/-- What stands before the outermost limit. -/
def unlimited : Pipe γ α → Pipe γ α
  | .source g => .source g
  | .take _ _ _ inner => inner

/-- A pipe as a generator. -/
def supply (s : Supply σ γ α) (zero : α) : Supply σ (Pipe γ α) α where
  hasNext := hasNext s zero
  next := next s zero

end Pipe

namespace Supply

variable {σ γ α : Type}

/-- All elements that are left, after those in `acc`, taken in at most `fuel` steps. -/
def drain (s : Supply σ γ α) : Nat → Array α → γ → Eff σ (List α × γ)
  | 0, _, _ => throw .exhausted
  | fuel + 1, acc, g => do
    let (has, g) ← s.hasNext g
    if has then
      let (value, g) ← s.next g
      drain s fuel (acc.push value) g
    else pure (acc.toList, g)

/-- All elements that are left. -/
def toList (s : Supply σ γ α) (fuel : Nat) (g : γ) : Eff σ (List α × γ) := s.drain fuel #[] g

/-- The elements that a loop over a generator sees when it is left after `n` of them,
which come after those in `acc`. -/
def firstOf (s : Supply σ γ α) (n : Int) : Nat → Array α → γ → Eff σ (List α × γ)
  | 0, _, _ => throw .exhausted
  | fuel + 1, acc, g => do
    let (has, g) ← s.hasNext g
    if has then
      let (value, g) ← s.next g
      let acc := acc.push value
      if n ≤ acc.size then pure (acc.toList, g) else firstOf s n fuel acc g
    else pure (acc.toList, g)

end Supply

end YieldMachine
