import YieldMachine.Text.Literal

/-!
# Whole numbers in any base

A whole number may start with a sign and a mark of its base, and may have single
underscores between its digits.
-/

namespace YieldMachine

/-- The value of a digit in a base up to 16. -/
def digitIn? (base : Nat) (c : Char) : Option Nat := (hexValue? c).filter (· < base)

/-- Reads digits into a number of at most 64 bits, from the left, skipping underscores. -/
def readDigitsIn (base : Nat) : Nat → List Char → Except DecimalError Nat
  | n, [] => .ok n
  | n, c :: cs =>
    if c = '_' then readDigitsIn base n cs
    else
      match digitIn? base c with
      | some d =>
        if n * base + d < Word.count then readDigitsIn base (n * base + d) cs
        else .error .outOfRange
      | none => .error .malformed

/-- Whether each underscore stands between digits.  The first argument says whether a
digit stands before the text. -/
def separates : Bool → List Char → Bool
  | _, [] => true
  | _, [c] => c != '_'
  | afterDigit, c :: cs => if c = '_' then afterDigit && separates false cs else separates true cs

/-- The base of a number, its digits, and whether underscores may come first. -/
def baseOf : List Char → Nat × List Char × Bool
  | ['0'] => (10, ['0'], false)
  | '0' :: mark :: digit :: cs =>
    match mark.toLower with
    | 'b' => (2, digit :: cs, true)
    | 'o' => (8, digit :: cs, true)
    | 'x' => (16, digit :: cs, true)
    | _ => (8, mark :: digit :: cs, true)
  | '0' :: cs => (8, cs, true)
  | cs => (10, cs, false)

/-- Reads a number without a sign. -/
def readNatural (cs : List Char) : Except DecimalError Nat :=
  if cs.isEmpty then .error .malformed
  else
    let (base, digits, afterDigit) := baseOf cs
    match readDigitsIn base 0 digits with
    | .ok n => if separates afterDigit digits then .ok n else .error .malformed
    | .error e => .error e

/-- A number of 64 bits with a sign. -/
def signedWord (negative : Bool) (n : Nat) : Except DecimalError Int :=
  match Word.signed? negative n with
  | some i => .ok i
  | none => .error .outOfRange

/-- Reads a whole number that fits 64 bits. -/
def readInteger (s : String) : Except DecimalError Int :=
  match s.toList with
  | '-' :: cs => (readNatural cs).bind (signedWord true)
  | '+' :: cs => (readNatural cs).bind (signedWord false)
  | cs => (readNatural cs).bind (signedWord false)

end YieldMachine
