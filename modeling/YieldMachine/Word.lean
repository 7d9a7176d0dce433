/-!
# Words

Whole numbers of 64 bits, with and without a sign.
-/

namespace YieldMachine.Word

/-- How many words there are: two to the power 64. -/
def count : Nat := 18446744073709551616

/-- How many words are negative: two to the power 63. -/
def half : Nat := 9223372036854775808

/-- The signed word with the given sign and size, if there is one. -/
def signed? (negative : Bool) (size : Nat) : Option Int :=
  if negative then (if size ≤ half then some (-size) else none)
  else if size < half then some size else none

end YieldMachine.Word
