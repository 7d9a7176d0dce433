import YieldMachine.Text.Printable
import YieldMachine.Text.Utf8

/-!
# Quoted texts

A text is quoted between double quotes.  A quote and a backslash are escaped, and so
are characters that cannot be printed, by a short escape, by two hexadecimal digits
below 128, and by four or eight above.
-/

namespace YieldMachine

/-- The `n` lowest hexadecimal digits of a number. -/
def hexDigits (n value : Nat) : List Char :=
  (List.range n).reverse.map fun i => hexDigit (value / Nat.pow 16 i % 16)

/-- The characters that stand for one character between quotes. -/
def quoteChar (c : Char) : List Char :=
  if c = '"' then ['\\', '"']
  else if c = '\\' then ['\\', '\\']
  else if isPrintable c then [c]
  else
    match c.toNat with
    | 7 => ['\\', 'a']
    | 8 => ['\\', 'b']
    | 9 => ['\\', 't']
    | 10 => ['\\', 'n']
    | 11 => ['\\', 'v']
    | 12 => ['\\', 'f']
    | 13 => ['\\', 'r']
    | n =>
      if n < 0x80 then ['\\', 'x'] ++ hexDigits 2 n
      else if n < 0x10000 then ['\\', 'u'] ++ hexDigits 4 n
      else ['\\', 'U'] ++ hexDigits 8 n

/-- A text between quotes. -/
def quote (s : String) : String :=
  String.ofList ('"' :: s.toList.flatMap quoteChar ++ ['"'])

end YieldMachine
