import YieldMachine.Yaml.Number

/-!
# What scalars mean

A plain scalar is a truth value, a number or nothing when it is written like one, and a
text otherwise.  A tag asks for one of these.
-/

namespace YieldMachine.Yaml

/-- What a scalar stands for. -/
inductive Meaning where
  | null
  | bool (b : Bool)
  | int (n : Int)
  /-- A number with a fraction, given by the number of 64 bits it is cut to, if any. -/
  | float (cut : Option Int)
  | text (s : String)
  deriving DecidableEq, Repr

/-- The tag of a meaning. -/
def Meaning.tag : Meaning → String
  | .null => "!!null"
  | .bool _ => "!!bool"
  | .int _ => "!!int"
  | .float _ => "!!float"
  | .text _ => "!!str"

/-- Words with a meaning of their own. -/
def words : List (String × Meaning) :=
  let all (m : Meaning) (ws : List String) := ws.map (·, m)
  all (.bool true) ["true", "True", "TRUE"]
    ++ all (.bool false) ["false", "False", "FALSE"]
    ++ all .null ["", "~", "null", "Null", "NULL"]
    ++ all (.float none) [".nan", ".NaN", ".NAN", ".inf", ".Inf", ".INF", "+.inf", "+.Inf", "+.INF"]
    ++ all (.float (some (-Word.half))) ["-.inf", "-.Inf", "-.INF"]

/-- The meaning of a decimal number. -/
def decimalMeaning? (cs : List Char) : Option Meaning :=
  ((decimal? cs).bind Decimal.whole?).map fun n => .float (cutToWord? n)

/-- The meaning of a number that starts with a sign or a digit.  Underscores between the
digits do not count. -/
def numberMeaning? (s : String) : Option Meaning :=
  let cs := s.toList.filter (· != '_')
  match whole? cs with
  | some n => some (.int n)
  | none =>
    match decimalMeaning? cs with
    | some m => some m
    | none => (markedWhole? cs).map .int

/-- The meaning of a plain scalar. -/
def plainMeaning (s : String) : Meaning :=
  match words.lookup s with
  | some m => m
  | none =>
    match s.toList with
    | [] => .null
    | c :: _ =>
      if c == '.' then (decimalMeaning? s.toList).getD (.text s)
      else if c == '+' || c == '-' || c.isDigit then (numberMeaning? s).getD (.text s)
      else .text s

/-- The value of a character that stands for six bits. -/
def sextet? (c : Char) : Option Nat :=
  if 'A' ≤ c ∧ c ≤ 'Z' then some (c.toNat - 65)
  else if 'a' ≤ c ∧ c ≤ 'z' then some (c.toNat - 71)
  else if '0' ≤ c ∧ c ≤ '9' then some (c.toNat + 4)
  else if c = '+' then some 62
  else if c = '/' then some 63
  else none

/-- Reads bytes written as groups of four characters, the last of which may be padded. -/
def sextets? : List Char → Option Bytes
  | [] => some []
  | [a, b, '=', '='] => return [UInt8.ofNat ((← sextet? a) * 4 + (← sextet? b) / 16)]
  | [a, b, c, '='] => do
    let n := ((← sextet? a) * 64 + (← sextet? b)) * 64 + (← sextet? c)
    return [UInt8.ofNat (n / 1024), UInt8.ofNat (n / 4)]
  | a :: b :: c :: d :: rest => do
    let n := (((← sextet? a) * 64 + (← sextet? b)) * 64 + (← sextet? c)) * 64 + (← sextet? d)
    return UInt8.ofNat (n / 65536) :: UInt8.ofNat (n / 256) :: UInt8.ofNat n :: (← sextets? rest)
  | _ => none

/-- Reads a text written as bytes in base 64. -/
def binaryText? (s : String) : Option String := do
  textOf? (← sextets? (s.toList.filter fun c => c != '\n' && c != '\r'))

/-- The meaning of a scalar, if it has the one that its tag asks for. -/
def meaning? (tag : Option String) (plain : Bool) (s : String) : Option Meaning :=
  match tag with
  | none => some (if plain then plainMeaning s else .text s)
  | some "!!str" => some (.text s)
  | some "!!binary" => (binaryText? s).map .text
  | some t =>
    let m := plainMeaning s
    if t = m.tag then some m
    else
      match m with
      | .int n =>
        if t = "!!float" ∧ n < Word.half then
          some (.float (cutToWord? (n.sign * wholePart n.natAbs 1)))
        else none
      | _ => none

end YieldMachine.Yaml
