import YieldMachine.Text.Utf8
import YieldMachine.Word

/-!
# Reading literals

Decimal numbers of 64 bits, and quoted texts with their escapes.
-/

namespace YieldMachine

/-- Why a decimal number cannot be read. -/
inductive DecimalError where
  | malformed
  | outOfRange
  deriving DecidableEq, Repr

/-- The text of an error. -/
def DecimalError.text : DecimalError → String
  | .malformed => "invalid syntax"
  | .outOfRange => "value out of range"

/-- Reads digits into a number of at most 64 bits, from the left.  The first digit
that exceeds the bits or that is none decides the error. -/
def readDigits : Nat → List Char → Except DecimalError Nat
  | n, [] => .ok n
  | n, c :: cs =>
    if '0' ≤ c ∧ c ≤ '9' then
      let next := n * 10 + (c.toNat - 48)
      if next < Word.count then readDigits next cs else .error .outOfRange
    else .error .malformed

/-- Reads a decimal number with an optional sign that fits 64 bits. -/
def readDecimal (s : String) : Except DecimalError Int := do
  let (negative, digits) :=
    match s.toList with
    | '-' :: rest => (true, rest)
    | '+' :: rest => (false, rest)
    | cs => (false, cs)
  if digits.isEmpty then throw .malformed
  let n ← readDigits 0 digits
  match Word.signed? negative n with
  | some i => return i
  | none => throw .outOfRange

/-- The value of hexadecimal digits. -/
def hexNumber? (cs : List Char) : Option Nat :=
  cs.foldlM (fun n c => return n * 16 + (← hexValue? c)) 0

/-- The value of an octal digit. -/
def octalValue? (c : Char) : Option Nat :=
  if '0' ≤ c ∧ c ≤ '7' then some (c.toNat - 48) else none

/-- The bytes of a code point given by its number. -/
def runeBytes? (n : Nat) : Option Bytes :=
  if n < 0xD800 ∨ 0xDFFF < n ∧ n ≤ 0x10FFFF then
    some (bytesOf (String.singleton (Char.ofNat n)))
  else none

/-- Reads the escape after a backslash.  The result is what it stands for and what
follows it. -/
def readEscape (quote : Char) : List Char → Option (Bytes × List Char)
  | 'a' :: r => some ([7], r)
  | 'b' :: r => some ([8], r)
  | 'f' :: r => some ([12], r)
  | 'n' :: r => some ([10], r)
  | 'r' :: r => some ([13], r)
  | 't' :: r => some ([9], r)
  | 'v' :: r => some ([11], r)
  | '\\' :: r => some ([92], r)
  | '\'' :: r => if quote = '\'' then some ([39], r) else none
  | '"' :: r => if quote = '"' then some ([34], r) else none
  | 'x' :: a :: b :: r => return ([UInt8.ofNat (← hexNumber? [a, b])], r)
  | 'u' :: a :: b :: c :: d :: r => return (← runeBytes? (← hexNumber? [a, b, c, d]), r)
  | 'U' :: a :: b :: c :: d :: e :: f :: g :: h :: r =>
    return (← runeBytes? (← hexNumber? [a, b, c, d, e, f, g, h]), r)
  | a :: b :: c :: r => do
    let n := ((← octalValue? a) * 8 + (← octalValue? b)) * 8 + (← octalValue? c)
    if n < 256 then return ([UInt8.ofNat n], r) else none
  | _ => none

/-- Reads the characters of a quoted text up to its closing quote, which has to be the
last character; with the number of characters read.  The first argument bounds the
number of steps. -/
def readQuoted (quote : Char) : Nat → List Char → Option (Bytes × Nat)
  | 0, _ => none
  | _ + 1, [] => none
  | bound + 1, c :: rest =>
    if c = quote then
      if rest.isEmpty then some ([], 0) else none
    else if c = '\n' then none
    else do
      let (bytes, rest) ←
        if c = '\\' then readEscape quote rest
        else some (bytesOf (String.singleton c), rest)
      let (more, count) ← readQuoted quote bound rest
      return (bytes ++ more, count + 1)

/-- What a quoted literal stands for: an interpreted text, a raw text between
backquotes, or a single character between apostrophes. -/
def unquote? (s : String) : Option Bytes :=
  match s.toList with
  | '"' :: rest => return (← readQuoted '"' (rest.length + 1) rest).1
  | '\'' :: rest => do
    let (bytes, count) ← readQuoted '\'' (rest.length + 1) rest
    if count = 1 then return bytes else none
  | c :: rest =>
    if c = Char.ofNat 96 then
      let inner := rest.dropLast
      if rest.getLast? = some c ∧ !inner.contains c then
        some (bytesOf (String.ofList (inner.filter (· ≠ '\r'))))
      else none
    else none
  | [] => none

end YieldMachine
