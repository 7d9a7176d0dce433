import YieldMachine.Exchange.Document
import YieldMachine.Text.Literal
import YieldMachine.Text.Quoted

/-!
# Documents as JSON

`Doc.json` writes a document without spaces, `Doc.ofJson?` reads one.  Numbers are whole.
Characters that mean something in markup are written as escapes.
-/

namespace YieldMachine

namespace Doc

/-- The characters that stand for one character in a text. -/
def jsonChar (c : Char) : List Char :=
  match c with
  | '"' => ['\\', '"']
  | '\\' => ['\\', '\\']
  | '\n' => ['\\', 'n']
  | '\r' => ['\\', 'r']
  | '\t' => ['\\', 't']
  | c =>
    let n := c.toNat
    if n == 8 then ['\\', 'b']
    else if n == 12 then ['\\', 'f']
    else if n < 0x20 || c == '<' || c == '>' || c == '&' || n == 0x2028 || n == 0x2029 then
      '\\' :: 'u' :: hexDigits 4 n
    else [c]

/-- Writes a text. -/
def jsonText (s : String) : String :=
  String.ofList ('"' :: s.toList.flatMap jsonChar ++ ['"'])

mutual

/-- Writes a document. -/
def json : Doc → String
  | .null => "null"
  | .bool true => "true"
  | .bool false => "false"
  | .int n => toString n
  | .text s => jsonText s
  | .list items => "[" ++ ",".intercalate (jsonItems items) ++ "]"
  | .record fields => "\x7b" ++ ",".intercalate (jsonFields fields) ++ "\x7d"

/-- Writes the items of a list. -/
def jsonItems : List Doc → List String
  | [] => []
  | d :: ds => d.json :: jsonItems ds

/-- Writes the fields of a record. -/
def jsonFields : List (String × Doc) → List String
  | [] => []
  | f :: fs => jsonField f :: jsonFields fs

/-- Writes a field of a record. -/
def jsonField : String × Doc → String
  | (name, d) => jsonText name ++ ":" ++ d.json

end

/-- The characters without white space in front. -/
def skipBlanks (cs : List Char) : List Char :=
  cs.dropWhile fun c => c == ' ' || c == '\n' || c == '\r' || c == '\t'

/-- The characters after a word. -/
def afterWord? (word : String) (cs : List Char) : Option (List Char) :=
  if word.toList.isPrefixOf cs then some (cs.drop word.length) else none

/-- The code unit of four hexadecimal digits, and what follows it. -/
def codeUnit? (cs : List Char) : Option (Nat × List Char) :=
  match cs with
  | a :: b :: c :: d :: rest => (hexNumber? [a, b, c, d]).map (·, rest)
  | _ => none

/-- The character of a pair of code units, the second of which is still escaped. -/
def readPair (high : Nat) (cs : List Char) : Char × List Char :=
  match cs with
  | '\\' :: 'u' :: rest =>
    match codeUnit? rest with
    | some (low, rest) =>
      if 0xDC00 ≤ low && low < 0xE000 then
        (Char.ofNat (0x10000 + (high - 0xD800) * 0x400 + (low - 0xDC00)), rest)
      else ('\uFFFD', cs)
    | none => ('\uFFFD', cs)
  | _ => ('\uFFFD', cs)

/-- Reads the character after a backslash. -/
def readEscape? (cs : List Char) : Option (Char × List Char) :=
  match cs with
  | 'n' :: rest => some ('\n', rest)
  | 'r' :: rest => some ('\r', rest)
  | 't' :: rest => some ('\t', rest)
  | 'b' :: rest => some (Char.ofNat 8, rest)
  | 'f' :: rest => some (Char.ofNat 12, rest)
  | 'u' :: rest =>
    (codeUnit? rest).map fun (n, rest) =>
      if 0xD800 ≤ n && n < 0xDC00 then readPair n rest
      else if 0xDC00 ≤ n && n < 0xE000 then ('\uFFFD', rest)
      else (Char.ofNat n, rest)
  | c :: rest => if c == '"' || c == '\\' || c == '/' then some (c, rest) else none
  | [] => none

/-- Reads the characters of a text up to its closing quote.  The first argument bounds
their number. -/
def readText? : Nat → List Char → Option (List Char × List Char)
  | 0, _ => none
  | _ + 1, [] => none
  | bound + 1, c :: cs =>
    if c == '"' then some ([], cs)
    else if c == '\\' then do
      let (c, cs) ← readEscape? cs
      let (chars, cs) ← readText? bound cs
      return (c :: chars, cs)
    else do
      let (chars, cs) ← readText? bound cs
      return (c :: chars, cs)

/-- Reads a whole number. -/
def readNumber? (cs : List Char) : Option (Doc × List Char) :=
  let sign := cs.takeWhile (· == '-')
  let digits := (cs.drop sign.length).takeWhile Char.isDigit
  match readDecimal (String.ofList (sign ++ digits)) with
  | .ok n => some (.int n, cs.drop (sign.length + digits.length))
  | .error _ => none

mutual

/-- Reads a document.  The first argument bounds the number of its parts. -/
def readJson? : Nat → List Char → Option (Doc × List Char)
  | 0, _ => none
  | bound + 1, cs =>
    match skipBlanks cs with
    | '"' :: cs => (readText? (cs.length + 1) cs).map fun (s, cs) => (.text (String.ofList s), cs)
    | '[' :: cs =>
      match skipBlanks cs with
      | ']' :: cs => some (.list [], cs)
      | cs => (readItems? bound cs).map fun (ds, cs) => (.list ds, cs)
    | '\x7b' :: cs =>
      match skipBlanks cs with
      | '\x7d' :: cs => some (.record [], cs)
      | cs => (readFields? bound cs).map fun (fs, cs) => (.record fs, cs)
    | 't' :: cs => (afterWord? "rue" cs).map (.bool true, ·)
    | 'f' :: cs => (afterWord? "alse" cs).map (.bool false, ·)
    | 'n' :: cs => (afterWord? "ull" cs).map (.null, ·)
    | cs => readNumber? cs

/-- Reads the items of a list that has some. -/
def readItems? : Nat → List Char → Option (List Doc × List Char)
  | 0, _ => none
  | bound + 1, cs => do
    let (d, cs) ← readJson? bound cs
    match skipBlanks cs with
    | ',' :: cs => (readItems? bound cs).map fun (ds, cs) => (d :: ds, cs)
    | ']' :: cs => some ([d], cs)
    | _ => none

/-- Reads the fields of a record that has some. -/
def readFields? : Nat → List Char → Option (List (String × Doc) × List Char)
  | 0, _ => none
  | bound + 1, cs =>
    match skipBlanks cs with
    | '"' :: cs => do
      let (name, cs) ← readText? (cs.length + 1) cs
      let cs ← afterWord? ":" (skipBlanks cs)
      let (d, cs) ← readJson? bound cs
      let field := (String.ofList name, d)
      match skipBlanks cs with
      | ',' :: cs => (readFields? bound cs).map fun (fs, cs) => (field :: fs, cs)
      | '\x7d' :: cs => some ([field], cs)
      | _ => none
    | _ => none

end

/-- Reads a document. -/
def ofJson? (s : String) : Option Doc :=
  match readJson? (s.length + 1) s.toList with
  | some (d, rest) => if (skipBlanks rest).isEmpty then some d else none
  | none => none

end Doc

end YieldMachine
