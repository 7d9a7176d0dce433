import YieldMachine.Machine.Supply

/-!
# Consumers

The requests that a consumer makes of a generator, and what it gets for them.
-/

namespace YieldMachine

/-- A request of a consumer. -/
inductive Request where
  | hasNext
  | next
  /-- collects all elements that are left -/
  | collect
  /-- loops over the elements and leaves after `n` of them -/
  | loop (n : Int)
  /-- goes on with at most `n` elements -/
  | limit (n : Int)
  /-- collects at most `n` elements -/
  | collectFirst (n : Int)
  deriving DecidableEq, Repr

/-- What a consumer gets for a request. -/
inductive Reply (α : Type) where
  | flag (b : Bool)
  | element (value : α)
  | collected (values : List α)
  | looped (values : List α)
  | limited
  deriving Repr

/-- Answers a request, and gives the generator after it. -/
def Request.answer {σ γ α : Type} (s : Supply σ γ α) (zero : α) (fuel : Nat) (p : Pipe γ α) :
    Request → Eff σ (Reply α × Pipe γ α)
  | .hasNext => do
    let (has, p) ← p.hasNext s zero
    return (.flag has, p)
  | .next => do
    let (value, p) ← p.next s zero
    return (.element value, p)
  | .collect => do
    let (values, p) ← (Pipe.supply s zero).toList fuel p
    return (.collected values, p)
  | .loop n => do
    let (values, p) ← (Pipe.supply s zero).firstOf n fuel #[] p
    return (.looped values, p)
  | .limit n => return (.limited, p.limitTo n)
  | .collectFirst n => do
    let (values, p) ← (Pipe.supply s zero).toList fuel (p.limitTo n)
    return (.collected values, p.unlimited)

end YieldMachine
