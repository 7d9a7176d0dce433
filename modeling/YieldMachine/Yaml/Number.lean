import YieldMachine.Text.Utf8
import YieldMachine.Word

/-!
# Numbers as written in YAML

Whole numbers may be written in four bases.  A number with a point or an exponent is
the nearest binary number of 53 bits; only its whole part is kept here.
-/

namespace YieldMachine.Yaml

/-- The value of a digit in bases up to 16. -/
def digitValue? (base : Nat) (c : Char) : Option Nat :=
  (hexValue? c).filter (· < base)

/-- Reads digits of a base. -/
def digits? (base : Nat) (cs : List Char) : Option Nat :=
  cs.foldlM (fun n c => return n * base + (← digitValue? base c)) 0

/-- Reads a natural number, the base of which is told by how it starts: a zero alone
marks octal digits. -/
def natural? : List Char → Option Nat
  | [] => none
  | ['0'] => some 0
  | '0' :: x :: rest =>
    let marked := !rest.isEmpty
    if marked && (x == 'x' || x == 'X') then digits? 16 rest
    else if marked && (x == 'o' || x == 'O') then digits? 8 rest
    else if marked && (x == 'b' || x == 'B') then digits? 2 rest
    else digits? 8 (x :: rest)
  | cs => digits? 10 cs

/-- Cuts off a sign. -/
def signed : List Char → Bool × List Char
  | '-' :: rest => (true, rest)
  | '+' :: rest => (false, rest)
  | cs => (false, cs)

/-- Reads a signed number in digits of a base. -/
def signedDigits? (base : Nat) (cs : List Char) : Option Int :=
  let (negative, digits) := signed cs
  if digits.isEmpty then none else (digits? base digits).bind (Word.signed? negative)

/-- Reads a whole number: signed, or above the signed numbers and below `Word.count`. -/
def whole? (cs : List Char) : Option Int :=
  let (negative, digits) := signed cs
  match (natural? digits).bind (Word.signed? negative) with
  | some n => some n
  | none => ((natural? cs).filter (· < Word.count)).map Int.ofNat

/-- Reads a whole number with a sign between the mark of its base and its digits. -/
def markedWhole? : List Char → Option Int
  | '0' :: 'b' :: rest => signedDigits? 2 rest
  | '0' :: 'o' :: rest => signedDigits? 8 rest
  | '-' :: '0' :: 'b' :: rest => signedDigits? 2 ('-' :: rest)
  | '-' :: '0' :: 'o' :: rest => signedDigits? 8 ('-' :: rest)
  | _ => none

/-- A decimal number: `mantissa * 10 ^ exponent`. -/
structure Decimal where
  negative : Bool
  mantissa : Nat
  exponent : Int

/-- Reads the exponent of a decimal number. -/
def exponent? : List Char → Option Int
  | [] => some 0
  | e :: rest =>
    if e == 'e' || e == 'E' then
      let (negative, digits) := signed rest
      if digits.isEmpty then none
      else (digits? 10 digits).map fun n => if negative then -(n : Int) else n
    else none

/-- Reads a decimal number with digits before or after a point. -/
def decimal? (cs : List Char) : Option Decimal := do
  let (negative, cs) := signed cs
  let before := cs.takeWhile Char.isDigit
  let (after, cs) :=
    match cs.drop before.length with
    | '.' :: rest => (rest.takeWhile Char.isDigit, rest.dropWhile Char.isDigit)
    | rest => ([], rest)
  if before.isEmpty && after.isEmpty then none
  let exponent ← exponent? cs
  return ⟨negative, ← digits? 10 (before ++ after), exponent - after.length⟩

/-- A quotient rounded to the nearest number, of two to the even one. -/
def roundQuotient (num den : Nat) : Nat :=
  let q := num / den
  let r := num % den
  if 2 * r < den then q
  else if den < 2 * r then q + 1
  else q + q % 2

/-- The whole part of the binary number of 53 bits that is nearest to a quotient. -/
def wholePart (num den : Nat) : Nat :=
  let q := num / den
  let width := if q = 0 then 0 else q.log2 + 1
  if 53 ≤ width then
    let unit := Nat.pow 2 (width - 53)
    roundQuotient num (den * unit) * unit
  else
    let scale := Nat.pow 2 (53 - width)
    roundQuotient (num * scale) den / scale

/-- The number of decimal digits. -/
def decimalWidth (n : Nat) : Nat := (Nat.toDigits 10 n).length

/-- The whole part of a decimal number once it is rounded to a binary one; none when it
is too large for that. -/
def Decimal.whole? (d : Decimal) : Option Int :=
  let size := (decimalWidth d.mantissa : Int) + d.exponent
  if d.mantissa = 0 || size < -1 then some 0
  else if 310 < size then none
  else
    let n :=
      match d.exponent with
      | .ofNat e => wholePart (d.mantissa * Nat.pow 10 e) 1
      | .negSucc e => wholePart d.mantissa (Nat.pow 10 (e + 1))
    if n < Nat.pow 2 1024 then some (if d.negative then -n else n) else none

/-- The number of 64 bits that a number with a fraction is cut to.  Numbers above
`Word.half` are refused, and those that do not fit become the least one. -/
def cutToWord? (n : Int) : Option Int :=
  if Word.half < n then none
  else if n = Word.half ∨ n < -Word.half then some (-Word.half)
  else some n

end YieldMachine.Yaml
