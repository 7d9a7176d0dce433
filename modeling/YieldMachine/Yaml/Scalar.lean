import YieldMachine.Text.Utf8
import YieldMachine.Yaml.Cursor

/-!
# Scalars

The three ways to write a scalar: plain, between quotes, and as an indented block.
Lines of plain and quoted scalars are folded: a single break reads as a space, and of
several breaks the first is dropped.
-/

namespace YieldMachine.Yaml

/-- White space inside a scalar that is not yet known to be followed by text. -/
inductive Gap where
  /-- Blanks within a line. -/
  | blanks (text : List Char)
  /-- Line breaks, the first of which may be escaped. -/
  | lines (first : Option Char) (more : List Char)

/-- Whether a gap spans lines. -/
def Gap.spansLines : Gap → Bool
  | .blanks _ => false
  | .lines .. => true

/-- What a gap reads as between two pieces of text. -/
def Gap.folded : Gap → List Char
  | .blanks text => text
  | .lines none more => more
  | .lines (some first) more =>
    if first == '\n' then (if more.isEmpty then [' '] else more) else first :: more

/-- Reads blanks and line breaks.  Once in a new line, a tab left of the column
`margin` is refused.  The first argument bounds the number of steps. -/
def readGap (margin : Int) : Nat → Gap → Cursor → Option (Gap × Cursor)
  | 0, g, c => some (g, c)
  | bound + 1, g, c =>
    match c.lineBreak? with
    | some (x, next) =>
      match g with
      | .blanks _ => readGap margin bound (.lines (some x) []) next
      | .lines first more => readGap margin bound (.lines first (more ++ [x])) next
    | none =>
      match c.peek? with
      | some x =>
        if isBlank x then
          match g with
          | .blanks text => readGap margin bound (.blanks (text ++ [x])) (c.skip 1)
          | .lines .. =>
            if x == '\t' && (c.column : Int) < margin then none
            else readGap margin bound g (c.skip 1)
        else some (g, c)
      | none => some (g, c)

/-- Whether a plain scalar ends before a character: at a colon before a gap and, inside
brackets, at the characters that structure them. -/
def endsPlain (flow : Bool) (c : Char) (rest : List Char) : Bool :=
  (c == ':' && Cursor.gapAt rest)
    || (flow && (c == ',' || c == '?' || c == '[' || c == ']' || c == '\x7b' || c == '\x7d'))

/-- The characters of a plain scalar up to a gap or an indicator. -/
def plainWord (flow : Bool) : List Char → List Char
  | [] => []
  | c :: rest =>
    if isBlank c || isBreak c || endsPlain flow c rest then []
    else c :: plainWord flow rest

/-- Reads a plain scalar.  The result says whether line breaks were read after it. -/
def readPlain (indent : Int) (flow : Bool) :
    Nat → List Char → Gap → Cursor → Option (List Char × Bool × Cursor)
  | 0, _, _, _ => none
  | bound + 1, acc, gap, c =>
    if c.atDocumentMarker || c.peek? == some '#' then some (acc, gap.spansLines, c)
    else
      let word := plainWord flow c.rest
      let c := c.skip word.length
      let (acc, gap) :=
        if word.isEmpty then (acc, gap) else (acc ++ gap.folded ++ word, .blanks [])
      if c.atEnd || !c.atGap then some (acc, gap.spansLines, c)
      else
        match readGap (indent + 1) (c.rest.length + 1) gap c with
        | none => none
        | some (gap, c) =>
          if !flow && (c.column : Int) < indent + 1 then some (acc, gap.spansLines, c)
          else readPlain indent flow bound acc gap c

/-- What an escape of one letter stands for. -/
def shortEscape? : Char → Option Char
  | '0' => some (Char.ofNat 0)
  | 'a' => some (Char.ofNat 7)
  | 'b' => some (Char.ofNat 8)
  | 't' => some '\t'
  | '\t' => some '\t'
  | 'n' => some '\n'
  | 'v' => some (Char.ofNat 11)
  | 'f' => some (Char.ofNat 12)
  | 'r' => some '\r'
  | 'e' => some (Char.ofNat 0x1B)
  | ' ' => some ' '
  | '"' => some '"'
  | '\'' => some '\''
  | '\\' => some '\\'
  | 'N' => some (Char.ofNat 0x85)
  | '_' => some (Char.ofNat 0xA0)
  | 'L' => some (Char.ofNat 0x2028)
  | 'P' => some (Char.ofNat 0x2029)
  | _ => none

/-- How many hexadecimal digits follow an escape letter. -/
def escapeWidth? : Char → Option Nat
  | 'x' => some 2
  | 'u' => some 4
  | 'U' => some 8
  | _ => none

/-- The character that a number stands for. -/
def charOfNumber? (n : Nat) : Option Char :=
  if n < 0xD800 ∨ 0xDFFF < n ∧ n ≤ 0x10FFFF then some (Char.ofNat n) else none

/-- The character an escape stands for and the number of characters after the
backslash. -/
def readEscapeChar : List Char → Option (Char × Nat)
  | [] => none
  | x :: rest =>
    match escapeWidth? x with
    | none => (shortEscape? x).map (·, 1)
    | some width => do
      let digits := rest.take width
      if digits.length < width then none
      let n ← digits.foldlM (fun n c => return n * 16 + (← hexValue? c)) 0
      return (← charOfNumber? n, width + 1)

/-- Reads the text between single or double quotes, the first of which has been read. -/
def readQuotedScalar (single : Bool) :
    Nat → List Char → Cursor → Option (List Char × Cursor)
  | 0, _, _ => none
  | bound + 1, acc, c =>
    if c.atDocumentMarker then none
    else
      match c.rest with
      | [] => none
      | x :: rest =>
        let gap (g : Gap) (c : Cursor) : Option (List Char × Cursor) := do
          let (g, c) ← readGap 0 (c.rest.length + 1) g c
          readQuotedScalar single bound (acc ++ g.folded) c
        if isBlank x || isBreak x then gap (.blanks []) c
        else if single then
          if x == '\'' then
            if rest.head? == some '\'' then
              readQuotedScalar single bound (acc ++ ['\'']) (c.skip 2)
            else some (acc, c.skip 1)
          else readQuotedScalar single bound (acc ++ [x]) (c.skip 1)
        else if x == '"' then some (acc, c.skip 1)
        else if x == '\\' then
          match (c.skip 1).lineBreak? with
          | some (_, next) => gap (.lines none []) next
          | none => do
            let (e, n) ← readEscapeChar rest
            readQuotedScalar single bound (acc ++ [e]) (c.skip (n + 1))
        else readQuotedScalar single bound (acc ++ [x]) (c.skip 1)

/-- How the line breaks at the end of a block are kept. -/
inductive Chomp where
  | strip
  | clip
  | keep
  deriving DecidableEq

/-- Reads the indicators after the mark of a block: how it ends and, as a number from 1
to 9, how far it is indented. -/
def readBlockHeader : List Char → Option (Chomp × Option Nat × Nat) := fun cs =>
  let chomp? : Char → Option Chomp
    | '+' => some .keep
    | '-' => some .strip
    | _ => none
  let digit? (c : Char) : Option Nat := if c.isDigit then some (c.toNat - 48) else none
  match cs with
  | [] => some (.clip, none, 0)
  | a :: rest =>
    match chomp? a, digit? a, rest.head?.bind chomp?, rest.head?.bind digit? with
    | some chomp, _, _, some n => if n = 0 then none else some (chomp, some n, 2)
    | some chomp, _, _, none => some (chomp, none, 1)
    | none, some n, chomp, _ =>
      if n = 0 then none
      else some (chomp.getD .clip, some n, if chomp.isSome then 2 else 1)
    | none, none, _, _ => some (.clip, none, 0)

/-- Reads the indentation and the empty lines before a line of a block.  The result has
the deepest indentation seen.  An `indent` of zero is not known yet. -/
def readBlockBreaks (indent : Nat) :
    Nat → Nat → List Char → Cursor → Option (Nat × List Char × Cursor)
  | 0, deepest, breaks, c => some (deepest, breaks, c)
  | bound + 1, deepest, breaks, c =>
    let spaces := (c.rest.takeWhile (· == ' ')).length
    let c := c.skip (if indent = 0 then spaces else min spaces (indent - c.column))
    let deepest := max deepest c.column
    if c.peek? == some '\t' && (indent = 0 || c.column < indent) then none
    else
      match c.lineBreak? with
      | some (x, next) => readBlockBreaks indent bound deepest (breaks ++ [x]) next
      | none => some (deepest, breaks, c)

/-- The lines of a block, read so far. -/
structure Block where
  text : List Char
  /-- The break that ended the last line. -/
  ended : Option Char
  /-- Breaks of empty lines after it. -/
  empty : List Char
  /-- Whether the last line started with a blank. -/
  indented : Bool

/-- Reads the lines of a block that are indented by `indent`. -/
def readBlockLines (literal : Bool) (indent : Nat) :
    Nat → Block → Cursor → Option (Block × Cursor)
  | 0, b, c => some (b, c)
  | bound + 1, b, c =>
    if c.atEnd || c.column != indent then some (b, c)
    else
      let blank := c.peek?.any isBlank
      let joint :=
        if !literal && !b.indented && !blank && b.ended == some '\n' then
          if b.empty.isEmpty then [' '] else []
        else b.ended.toList
      let line := c.rest.takeWhile (!isBreak ·)
      let c := c.skip line.length
      let (ended, c) :=
        match c.lineBreak? with
        | some (x, next) => (some x, next)
        | none => (none, c)
      match readBlockBreaks indent (c.rest.length + 1) 0 [] c with
      | none => none
      | some (_, empty, c) =>
        let text := b.text ++ joint ++ b.empty ++ line
        readBlockLines literal indent bound ⟨text, ended, empty, blank⟩ c

/-- Reads a block scalar, the mark of which has been read.  `parent` is the indentation
of the collection around it. -/
def readBlock (literal : Bool) (parent : Int) (c : Cursor) : Option (List Char × Cursor) := do
  let (chomp, increment, width) ← readBlockHeader c.rest
  let c := (c.skip width).skipWhile isBlank
  let c := if c.peek? == some '#' then c.skipToLineEnd else c
  if !c.atLineEnd then none
  let c := c.skipLineBreak
  let given := match increment with
    | some n => if 0 ≤ parent then parent.toNat + n else n
    | none => 0
  let (deepest, empty, c) ← readBlockBreaks given (c.rest.length + 1) 0 [] c
  let indent := if given = 0 then max (max deepest (parent + 1).toNat) 1 else given
  let (b, c) ← readBlockLines literal indent (c.rest.length + 1) ⟨[], none, empty, false⟩ c
  let text := match chomp with
    | .strip => b.text
    | .clip => b.text ++ b.ended.toList
    | .keep => b.text ++ b.ended.toList ++ b.empty
  return (text, c)

end YieldMachine.Yaml
