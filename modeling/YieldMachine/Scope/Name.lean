/-!
# Fresh names

Names of the parts of a holder: the state methods, and fields that are named for
the variables they hold, with a number appended where the plain name is taken.
-/

namespace YieldMachine

/-- The receiver name of the methods of a holder. -/
def receiverName : String := "__g"

/-- The parameter name of the state methods. -/
def continuationName : String := "__k"

/-- What the name of every state method starts with. -/
def statePrefix : String := "__state"

/-- The name of the method of a state. -/
def stateMethod (id : Int) : String := statePrefix ++ toString id

/-- The name of the field that holds the `n`-th iterator. -/
def iteratorField (n : Nat) : String := "__iter" ++ toString n

/-- The `n`-th candidate for a name: `x`, `x1`, `x2` and so on. -/
def candidate (x : String) (n : Nat) : String := if n = 0 then x else x ++ toString n

/-- The first candidate for `x` from number `n` on that `taken` does not hold, among
the next `bound` ones. -/
def firstFree (taken : String → Bool) (x : String) (n : Nat) : Nat → String
  | 0 => candidate x n
  | bound + 1 => if taken (candidate x n) then firstFree taken x (n + 1) bound else candidate x n

/-- The first of `x`, `x1`, `x2`, ... that is not in `used`.  Of one more candidates
than used names at least one is free. -/
def freeName (used : List String) (x : String) : String :=
  firstFree used.contains x 0 used.length

/-- A name for `x` that is free in a holder: state methods keep their names to
themselves. -/
def freeField (used : List String) (x : String) : String :=
  freeName used (if statePrefix.isPrefixOf x then "_" ++ x else x)

end YieldMachine
