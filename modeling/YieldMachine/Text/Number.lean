/-!
# Number literals

The marks inside a number literal may be written with small or capital letters.
`plainNumber` writes them small, and drops the zeros in front of a whole imaginary
number.
-/

namespace YieldMachine

/-- Replaces the first occurrence of a character, if there is one. -/
def replaceFirst? (old new : Char) : List Char → Option (List Char)
  | [] => none
  | c :: cs => if c = old then some (new :: cs) else (replaceFirst? old new cs).map (c :: ·)

/-- Replaces the last occurrence of a character, if there is one. -/
def replaceLast? (old new : Char) (cs : List Char) : Option (List Char) :=
  (replaceFirst? old new cs.reverse).map List.reverse

/-- A whole imaginary number without zeros in front. -/
def trimImaginary (cs : List Char) : List Char :=
  if cs.getLast? = some 'i' && !cs.contains '.' && !cs.contains 'e' then
    match cs.dropWhile fun c => c = '0' || c = '_' with
    | ['i'] => ['0', 'i']
    | rest => rest
  else cs

/-- A number literal with small marks. -/
def plainNumber (text : String) : String :=
  String.ofList <| match text.toList with
    | [c] => [c]
    | '0' :: 'X' :: cs => (replaceLast? 'P' 'p' ('0' :: 'x' :: cs)).getD ('0' :: 'x' :: cs)
    | '0' :: 'x' :: cs => (replaceLast? 'P' 'p' ('0' :: 'x' :: cs)).getD ('0' :: 'x' :: cs)
    | '0' :: 'O' :: cs => '0' :: 'o' :: cs
    | '0' :: 'B' :: cs => '0' :: 'b' :: cs
    | '0' :: 'o' :: cs => '0' :: 'o' :: cs
    | '0' :: 'b' :: cs => '0' :: 'b' :: cs
    | cs => (replaceLast? 'E' 'e' cs).getD (trimImaginary cs)

end YieldMachine
