/-!
# Positions in a YAML text

A cursor is the rest of a text together with the line and the column it starts at.
The classes of characters that separate tokens are defined here as well.
-/

namespace YieldMachine.Yaml

/-- Spaces and tabs. -/
def isBlank (c : Char) : Bool := c == ' ' || c == '\t'

/-- Characters that end a line. -/
def isBreak (c : Char) : Bool :=
  c == '\n' || c == '\r' || c.toNat == 0x85 || c.toNat == 0x2028 || c.toNat == 0x2029

/-- Characters of names: ASCII letters, digits, underscore and hyphen. -/
def isNameChar (c : Char) : Bool := c.isAlphanum || c == '_' || c == '-'

/-- Whether a text may stand in a stream: it has no control characters. -/
def isAllowed (c : Char) : Bool :=
  let n := c.toNat
  n == 0x09 || n == 0x0A || n == 0x0D || (0x20 ≤ n && n ≤ 0x7E) || n == 0x85
    || (0xA0 ≤ n && n ≤ 0xFFFD) || 0x10000 ≤ n

/-- The rest of a text and where it starts. -/
structure Cursor where
  rest : List Char
  line : Nat
  column : Nat
  index : Nat

namespace Cursor

/-- The start of a text. -/
def start (cs : List Char) : Cursor := ⟨cs, 0, 0, 0⟩

/-- The next character. -/
def peek? (c : Cursor) : Option Char := c.rest.head?

/-- Whether the text ends here. -/
def atEnd (c : Cursor) : Bool := c.rest.isEmpty

/-- Whether a list of characters is at its end or starts with a blank or a break. -/
def gapAt : List Char → Bool
  | [] => true
  | x :: _ => isBlank x || isBreak x

/-- Whether the text ends here or goes on with a blank or a break. -/
def atGap (c : Cursor) : Bool := gapAt c.rest

/-- Whether the line ends here. -/
def atLineEnd (c : Cursor) : Bool := c.rest.head?.all isBreak

/-- Moves past characters of the same line. -/
def skip (c : Cursor) (n : Nat) : Cursor :=
  ⟨c.rest.drop n, c.line, c.column + n, c.index + n⟩

/-- Moves past the characters of a class. -/
def skipWhile (c : Cursor) (p : Char → Bool) : Cursor :=
  c.skip (c.rest.takeWhile p).length

/-- Moves past the rest of the line, up to its break. -/
def skipToLineEnd (c : Cursor) : Cursor := c.skipWhile (!isBreak ·)

/-- Reads a line break.  Breaks that are separators of ASCII and Latin texts read as a
newline, the others as themselves. -/
def lineBreak? (c : Cursor) : Option (Char × Cursor) :=
  let next (n : Nat) : Cursor := ⟨c.rest.drop n, c.line + 1, 0, c.index + n⟩
  match c.rest with
  | '\r' :: '\n' :: _ => some ('\n', next 2)
  | x :: _ =>
    if x == '\n' || x == '\r' || x.toNat == 0x85 then some ('\n', next 1)
    else if isBreak x then some (x, next 1)
    else none
  | [] => none

/-- Moves past a line break, if there is one. -/
def skipLineBreak (c : Cursor) : Cursor := (c.lineBreak?.map (·.2)).getD c

/-- Whether a marker of a document stands here: three hyphens or three dots at the
start of a line, and a gap after them. -/
def atMarker (c : Cursor) (mark : Char) : Bool :=
  c.column == 0 && c.rest.take 3 == [mark, mark, mark] && gapAt (c.rest.drop 3)

/-- Whether a document starts or ends here. -/
def atDocumentMarker (c : Cursor) : Bool := c.atMarker '-' || c.atMarker '.'

end Cursor

end YieldMachine.Yaml
