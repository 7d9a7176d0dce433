import YieldMachine.Yaml.Scalar
import YieldMachine.Yaml.Token

/-!
# Token streams

`tokens` cuts a text into tokens.  A mapping key need not be marked: a token that may
start one is remembered, and when a colon follows on the same line the key token is
put before it.  What cannot be cut ends in `Token.broken`, so that a reader that stops
early never sees a fault behind the place where it stopped.
-/

namespace YieldMachine.Yaml

/-- A place where a mapping key may have started. -/
structure KeyStart where
  /-- Whether nothing but a key can stand there. -/
  required : Bool
  /-- How many tokens are before it. -/
  token : Nat
  line : Nat
  column : Nat
  index : Nat

/-- A stream that is partly cut into tokens. -/
structure Stream where
  cursor : Cursor
  tokens : Array Token
  /-- Indentation of the innermost block collection. -/
  indent : Int
  /-- Indentations of the collections around it. -/
  outer : List Int
  /-- Possible keys outside of any brackets and inside each of them, innermost first. -/
  keys : List (Option KeyStart)
  /-- Whether a key may start at the next token. -/
  keyAllowed : Bool

namespace Stream

/-- The start of a stream. -/
def start (cs : List Char) : Stream := ⟨.start cs, #[], -1, [], [none], true⟩

/-- Whether the next token is inside brackets. -/
def inFlow (s : Stream) : Bool := 1 < s.keys.length

/-- Adds a token. -/
def push (s : Stream) (t : Token) : Stream := { s with tokens := s.tokens.push t }

/-- Adds a token of a few characters. -/
def pushMark (s : Stream) (t : Token) (width : Nat) : Stream :=
  { s.push t with cursor := s.cursor.skip width }

/-- Puts a token before the token with the given number. -/
def insert (s : Stream) (i : Nat) (t : Token) : Stream :=
  { s with tokens := (s.tokens.toList.insertIdx i t).toArray }

/-- Replaces the innermost possible key. -/
def setKey (s : Stream) (k : Option KeyStart) : Stream := { s with keys := k :: s.keys.tail }

/-- Gives up the innermost possible key, which must not have been required. -/
def dropKey (s : Stream) : Option Stream :=
  match s.keys.head?.join with
  | some k => if k.required then none else some (s.setKey none)
  | none => some s

/-- Remembers that a key may start here. -/
def saveKey (s : Stream) : Option Stream :=
  if s.keyAllowed then do
    let c := s.cursor
    let k : KeyStart :=
      ⟨!s.inFlow && s.indent == (c.column : Int), s.tokens.size, c.line, c.column, c.index⟩
    return (← s.dropKey).setKey (some k)
  else some s

/-- Allows or forbids a key at the next token. -/
def allowKey (s : Stream) (b : Bool) : Stream := { s with keyAllowed := b }

/-- Starts a block collection when the column is deeper than the present one. -/
def indentTo (s : Stream) (column : Nat) (i : Nat) (t : Token) : Stream :=
  if !s.inFlow && s.indent < (column : Int) then
    { s.insert i t with indent := column, outer := s.indent :: s.outer }
  else s

/-- Ends the block collections that are deeper than a column. -/
def dedentTo (s : Stream) (column : Int) : Stream :=
  if s.inFlow then s
  else
    let ended := ((s.indent :: s.outer).takeWhile (column < ·)).length
    { s with
      tokens := s.tokens ++ (List.replicate ended Token.blockEnd).toArray
      indent := ((s.indent :: s.outer).drop ended).headD (-1)
      outer := ((s.indent :: s.outer).drop ended).tail }

/-- Moves past further lines of comments after a comment. -/
def skipComments : Nat → Cursor → Cursor
  | 0, c => c
  | bound + 1, c =>
    let rec ahead : Nat → Cursor → Cursor
      | 0, c => c
      | n + 1, c =>
        let c := c.skipWhile isBlank
        match c.lineBreak? with
        | some (_, next) => ahead n next
        | none => c
    let next := ahead (c.rest.length + 1) c
    if next.peek? == some '#' then skipComments bound next.skipToLineEnd else c

/-- Moves past a comment that ends the line. -/
def skipLineComment (c : Cursor) : Cursor :=
  let next := c.skipWhile isBlank
  if next.peek? == some '#' then next.skipToLineEnd else c

/-- Moves to the next token.  Outside of brackets a new line may start a key, and a tab
may not stand where a key may start. -/
def toNextToken : Nat → Stream → Stream
  | 0, s => s
  | bound + 1, s =>
    let c := s.cursor
    let c := if c.column == 0 && c.peek? == some (Char.ofNat 0xFEFF) then c.skip 1 else c
    let tabs := s.inFlow || !s.keyAllowed
    let c := c.skipWhile fun x => x == ' ' || (tabs && x == '\t')
    let c := if c.peek? == some '#' then skipComments (c.rest.length + 1) c else c
    match c.lineBreak? with
    | some (_, next) =>
      toNextToken bound { s with cursor := next, keyAllowed := s.keyAllowed || !s.inFlow }
    | none => { s with cursor := c }

/-- Ends all block collections before a mark of the stream. -/
def close (s : Stream) : Option Stream := do
  return (← (s.dedentTo (-1)).dropKey).allowKey false

/-- Reads a number of at most nine digits. -/
def readVersionNumber (c : Cursor) : Option (Nat × Cursor) :=
  let digits := c.rest.takeWhile Char.isDigit
  if digits.isEmpty || 9 < digits.length then none
  else some (digits.foldl (fun n d => n * 10 + (d.toNat - 48)) 0, c.skip digits.length)

/-- Reads the handle of a tag: an exclamation mark, a name, and perhaps another mark. -/
def readTagHandle (directive : Bool) (c : Cursor) : Option (List Char × Cursor) :=
  match c.rest with
  | '!' :: rest =>
    let name := rest.takeWhile isNameChar
    if (rest.drop name.length).head? == some '!' then
      some ('!' :: name ++ ['!'], c.skip (name.length + 2))
    else if directive && !name.isEmpty then none
    else some ('!' :: name, c.skip (name.length + 1))
  | _ => none

/-- Characters of the suffix of a tag. -/
def isTagChar (c : Char) : Bool :=
  isNameChar c || [';', '/', '?', ':', '@', '&', '=', '+', '$', ',', '.', '!', '~', '*', '\'',
    '(', ')', '[', ']'].contains c

/-- The bytes of escapes of two hexadecimal digits after percent signs. -/
def readTagBytes : Nat → List Char → Option (Bytes × Nat)
  | 0, _ => some ([], 0)
  | n + 1, '%' :: a :: b :: rest => do
    let byte := UInt8.ofNat ((← hexValue? a) * 16 + (← hexValue? b))
    let (more, width) ← readTagBytes n rest
    return (byte :: more, width + 3)
  | _ + 1, _ => none

/-- How many bytes a character has, by its first byte. -/
def sequenceLength? (first : UInt8) : Option Nat :=
  if first < 0x80 then some 1
  else if 0xC0 ≤ first && first < 0xE0 then some 2
  else if 0xE0 ≤ first && first < 0xF0 then some 3
  else if 0xF0 ≤ first && first < 0xF8 then some 4
  else none

/-- Reads the suffix of a tag, in which characters may be escaped. -/
def readTagSuffix : Nat → List Char → Cursor → Option (List Char × Cursor)
  | 0, acc, c => some (acc, c)
  | bound + 1, acc, c =>
    match c.peek? with
    | some '%' => do
      let (first, _) ← readTagBytes 1 c.rest
      let (bytes, width) ← readTagBytes (← first.head?.bind sequenceLength?) c.rest
      let text ← textOf? bytes
      readTagSuffix bound (acc ++ text.toList) (c.skip width)
    | some x =>
      if isTagChar x then readTagSuffix bound (acc ++ [x]) (c.skip 1) else some (acc, c)
    | none => some (acc, c)

/-- Reads the suffix of a tag that may go on after a part that has been read. -/
def readTagRest (read : List Char) (c : Cursor) : Option (List Char × Cursor) := do
  let (suffix, next) ← readTagSuffix (c.rest.length + 1) (read.drop 1) c
  if read.isEmpty && next.index == c.index then none
  return (suffix, next)

/-- Reads the version of a directive. -/
def readVersion (c : Cursor) : Option (Token × Cursor) := do
  let (major, c) ← readVersionNumber c
  if c.peek? != some '.' then none
  let (minor, c) ← readVersionNumber (c.skip 1)
  return (.version major minor, c)

/-- Reads the handle that a directive declares. -/
def readHandleDeclaration (c : Cursor) : Option (Token × Cursor) := do
  let (handle, c) ← readTagHandle true c
  if !c.peek?.any isBlank then none
  let (expansion, c) ← readTagRest [] (c.skipWhile isBlank)
  if !c.atGap then none
  return (.tagHandle (String.ofList handle) (String.ofList expansion), c)

/-- Reads a directive of the stream. -/
def readDirective (c : Cursor) : Option (Token × Cursor) := do
  let c := c.skip 1
  let name := c.rest.takeWhile isNameChar
  let c := c.skip name.length
  if name.isEmpty || !c.atGap then none
  let read : Cursor → Option (Token × Cursor) :=
    match String.ofList name with
    | "YAML" => readVersion
    | "TAG" => readHandleDeclaration
    | _ => fun _ => none
  let (token, c) ← read (c.skipWhile isBlank)
  let c := skipLineComment (c.skipWhile isBlank)
  if !c.atLineEnd then none
  return (token, c.skipLineBreak)

/-- Reads the name of an anchor or alias, the mark of which has been read. -/
def readAnchorName (c : Cursor) : Option (String × Cursor) :=
  let name := c.rest.takeWhile isNameChar
  let c := c.skip name.length
  let ended := c.atGap || c.peek?.any
    (fun x => ['?', ':', ',', ']', '\x7d', '%', '@', Char.ofNat 0x60].contains x)
  if name.isEmpty || !ended then none else some (String.ofList name, c)

/-- Reads a tag without the gap that has to follow it. -/
def readTagParts (c : Cursor) : Option (List Char × List Char × Cursor) :=
  if c.rest.take 2 == ['!', '<'] then do
    let (suffix, c) ← readTagRest [] (c.skip 2)
    if c.peek? != some '>' then none
    return ([], suffix, c.skip 1)
  else do
    let (handle, c) ← readTagHandle false c
    if 1 < handle.length && handle.getLast? == some '!' then
      let (suffix, c) ← readTagRest [] c
      return (handle, suffix, c)
    else
      let (suffix, c) ← readTagRest handle c
      return if suffix.isEmpty then ([], ['!'], c) else (['!'], suffix, c)

/-- Reads a tag. -/
def readTag (c : Cursor) : Option (Token × Cursor) := do
  let (handle, suffix, c) ← readTagParts c
  if !c.atGap then none
  return (.tag (String.ofList handle) (String.ofList suffix), c)

/-- Starts brackets. -/
def openFlow (s : Stream) (t : Token) : Option Stream := do
  let s ← s.saveKey
  return ({ s with keys := none :: s.keys }.allowKey true).pushMark t 1

/-- Ends brackets. -/
def closeFlow (s : Stream) (t : Token) : Option Stream := do
  let s ← s.dropKey
  let s := if s.inFlow then { s with keys := s.keys.tail } else s
  return (s.allowKey false).pushMark t 1

/-- Reads the mark of a sequence entry or of a key. -/
def readBlockMark (s : Stream) (collection mark : Token) : Option Stream := do
  if !s.inFlow && !s.keyAllowed then none
  let s ← (s.indentTo s.cursor.column s.tokens.size collection).dropKey
  return s.pushMark mark 1

/-- Whether a possible key is still one: it is on the same line, and not too far back. -/
def keyIsNear (s : Stream) (k : KeyStart) : Bool :=
  s.cursor.line ≤ k.line && s.cursor.index ≤ k.index + 1024

/-- Reads the mark of a mapping value.  Only here a possible key turns out to be one. -/
def readValueMark (s : Stream) : Option Stream :=
  let complex : Option Stream := do
    if !s.inFlow && !s.keyAllowed then none
    let s := s.indentTo s.cursor.column s.tokens.size .blockMappingStart
    return (s.allowKey !s.inFlow).pushMark .value 1
  match s.keys.head?.join with
  | some k =>
    if s.keyIsNear k then
      let s := (s.insert k.token .key).indentTo k.column k.token .blockMappingStart
      some (((s.setKey none).allowKey false).pushMark .value 1)
    else if k.required then none
    else complex
  | none => complex

/-- Reads a token that may be a key. -/
def readAtom (s : Stream) (read : Cursor → Option (Token × Cursor)) : Option Stream := do
  let s ← s.saveKey
  let (t, c) ← read s.cursor
  return { (s.allowKey false).push t with cursor := c }

/-- Reads a plain scalar. -/
def readPlainToken (s : Stream) : Option Stream := do
  let s ← s.saveKey
  let (text, brk, c) ←
    readPlain s.indent s.inFlow (s.cursor.rest.length + 1) [] (.blanks []) s.cursor
  return { (s.allowKey brk).push (.scalar true (String.ofList text)) with cursor := c }

/-- Reads a block scalar. -/
def readBlockToken (s : Stream) (literal : Bool) : Option Stream := do
  let s ← s.dropKey
  let (text, c) ← readBlock literal s.indent (s.cursor.skip 1)
  return { (s.allowKey true).push (.scalar false (String.ofList text)) with cursor := c }

/-- Reads a quoted scalar. -/
def readQuotedToken (single : Bool) (c : Cursor) : Option (Token × Cursor) := do
  let (text, c) ← readQuotedScalar single (c.rest.length + 1) [] (c.skip 1)
  return (.scalar false (String.ofList text), c)

/-- Characters that start no plain scalar. -/
def isIndicator (c : Char) : Bool :=
  ['-', '?', ':', ',', '[', ']', '\x7b', '\x7d', '#', '&', '*', '!', '|', '>', '\'', '"', '%',
    '@', Char.ofNat 0x60].contains c

/-- Reads the next token, which starts at the cursor. -/
def readToken (s : Stream) : Option Stream :=
  let c := s.cursor
  match c.rest with
  | [] => none
  | x :: rest =>
    let gap := Cursor.gapAt rest
    if c.column == 0 && x == '%' then do
      let s ← s.close
      let (t, c) ← readDirective s.cursor
      return { s.push t with cursor := c }
    else if c.atMarker '-' then do return (← s.close).pushMark .documentStart 3
    else if c.atMarker '.' then do return (← s.close).pushMark .documentEnd 3
    else if x == '[' then s.openFlow .flowSequenceStart
    else if x == '\x7b' then s.openFlow .flowMappingStart
    else if x == ']' then s.closeFlow .flowSequenceEnd
    else if x == '\x7d' then s.closeFlow .flowMappingEnd
    else if x == ',' then do return ((← s.dropKey).allowKey true).pushMark .flowEntry 1
    else if x == '-' && gap then do
      return (← s.readBlockMark .blockSequenceStart .blockEntry).allowKey true
    else if x == '?' && (s.inFlow || gap) then do
      return (← s.readBlockMark .blockMappingStart .key).allowKey !s.inFlow
    else if x == ':' && (s.inFlow || gap) then s.readValueMark
    else if x == '*' then s.readAtom fun c =>
      (readAnchorName (c.skip 1)).map fun (n, c) => (.reference n, c)
    else if x == '&' then s.readAtom fun c =>
      (readAnchorName (c.skip 1)).map fun (n, c) => (.anchor n, c)
    else if x == '!' then s.readAtom readTag
    else if x == '|' && !s.inFlow then s.readBlockToken true
    else if x == '>' && !s.inFlow then s.readBlockToken false
    else if x == '\'' then s.readAtom (readQuotedToken true)
    else if x == '"' then s.readAtom (readQuotedToken false)
    else if (!isIndicator x && !isBlank x) || (x == '-' && !rest.head?.any isBlank)
        || (!s.inFlow && (x == '?' || x == ':') && !gap) then s.readPlainToken
    else none

/-- Cuts the rest of a stream into tokens. -/
def readAll : Nat → Stream → List Token
  | 0, s => (s.push .broken).tokens.toList
  | bound + 1, s =>
    let s := s.toNextToken (s.cursor.rest.length + 1)
    let s := s.dedentTo s.cursor.column
    if s.cursor.atEnd then
      match s.close with
      | some s => (s.push .streamEnd).tokens.toList
      | none => (s.push .broken).tokens.toList
    else
      match s.readToken with
      | none => (s.push .broken).tokens.toList
      | some s =>
        if s.tokens.back? == some .blockEntry then readAll bound s
        else readAll bound { s with cursor := skipLineComment s.cursor }

end Stream

/-- The tokens of a text. -/
def tokens (text : String) : List Token :=
  let cs := text.toList
  if cs.all isAllowed then Stream.readAll (cs.length + 1) (.start cs) else [.broken]

end YieldMachine.Yaml
