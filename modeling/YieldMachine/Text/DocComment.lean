import YieldMachine.Text.Space

/-!
# The layout of doc comments

A comment that documents a declaration consists of paragraphs, headings, lists and
indented blocks.  `layoutDoc` writes each of them in one way: blank lines between
blocks, a tab in front of an indented line, items of lists indented alike.  Directives,
such as `//go:noinline`, come last.
-/

namespace YieldMachine

/-- A line of a text. -/
abbrev Line := List Char

/-- Whether a line holds nothing but white space. -/
def isBlankLine (line : Line) : Bool := line.all isSpace

/-- Whether a line starts with a blank. -/
def isIndented (line : Line) : Bool :=
  match line with
  | c :: _ => c == ' ' || c == '\t'
  | [] => false

/-- A line without white space at its end. -/
def trimEnd (line : Line) : Line := (line.reverse.dropWhile isSpace).reverse

/-- The blanks at the start of a line. -/
def indentation (line : Line) : Line := line.takeWhile fun c => c == ' ' || c == '\t'

/-- What two lists have in common at their start. -/
def commonStart : Line → Line → Line
  | c :: cs, d :: ds => if c = d then c :: commonStart cs ds else []
  | _, _ => []

/-- Lines without blank ones at either end. -/
def trimLines (lines : List Line) : List Line :=
  ((lines.dropWhile isBlankLine).reverse.dropWhile isBlankLine).reverse

/-- Lines without the indentation that they share. -/
def unindent (lines : List Line) : List Line :=
  match trimLines lines with
  | [] => []
  | first :: rest =>
    let shared := (rest.filter (!isBlankLine ·)).foldl
      (fun acc l => commonStart acc (indentation l)) (indentation first)
    (first :: rest).map fun l => if isBlankLine l then [] else l.drop shared.length

/-- The number and the text of a line that starts an item of a list; bullets have no
number. -/
def itemMarker? (line : Line) : Option (Line × Line) :=
  match trimSpaces line with
  | [] => none
  | c :: cs =>
    let marked (number rest : Line) : Option (Line × Line) :=
      if isIndented rest && !isBlankLine rest then some (number, trimSpaces rest) else none
    if c == '•' || c == '*' || c == '+' || c == '-' then marked [] cs
    else
      let digits := (c :: cs).takeWhile Char.isDigit
      match digits, (c :: cs).drop digits.length with
      | [], _ => none
      | _, d :: rest => if d == '.' || d == ')' then marked digits rest else none
      | _, [] => none

/-- The lines of a list.  The first argument says whether the items are numbered. -/
def layoutItems (numbered : Bool) : List Line → List Line
  | [] => []
  | line :: lines =>
    (match itemMarker? line with
      | some (number, text) =>
        if number.isEmpty == numbered then "    ".toList ++ trimSpaces line
        else if numbered then ' ' :: number ++ ". ".toList ++ text
        else "  - ".toList ++ text
      | none => if isBlankLine line then [] else "    ".toList ++ trimSpaces line)
      :: layoutItems numbered lines

/-- The lines of an indented block: a list, or lines that stay as they are. -/
def layoutIndented (lines : List Line) : List Line :=
  match lines.head?.bind itemMarker? with
  | some (number, _) => layoutItems (!number.isEmpty) lines
  | none => (unindent lines).map fun l => if l.isEmpty then [] else '\t' :: l

/-- The lines of a paragraph, or of a heading. -/
def layoutPlain : List Line → List Line
  | [line] =>
    match line with
    | '#' :: c :: cs =>
      if (c == ' ' || c == '\t') && !isBlankLine cs then [['#', ' '] ++ trimSpaces cs] else [line]
    | _ => [line]
  | lines => lines

/-- Whether a list keeps the blank line before it: where one is written, or where its
items have blank lines between them.  Other blocks always have one. -/
def isSetApart (afterBlank : Bool) (lines : List Line) : Bool :=
  (lines.head?.bind itemMarker?).isNone || afterBlank || lines.any isBlankLine

/-- The blocks of a text with their lines laid out, each with a blank line before it if
it has one.  The first argument bounds their number, the second one says whether a blank
line comes before. -/
def layoutBlocks : Nat → Bool → List Line → List Line
  | 0, _, _ => []
  | _ + 1, _, [] => []
  | bound + 1, afterBlank, line :: lines =>
    if line.isEmpty then layoutBlocks bound true lines
    else if isIndented line then
      let inside := lines.takeWhile fun l => l.isEmpty || isIndented l
      let block := trimLines (line :: inside)
      (if isSetApart afterBlank block then [[]] else []) ++ layoutIndented block
        ++ layoutBlocks bound (block.length ≤ inside.length) (lines.drop inside.length)
    else
      let inside := lines.takeWhile fun l => !l.isEmpty && !isIndented l
      [] :: layoutPlain (line :: inside) ++ layoutBlocks bound false (lines.drop inside.length)

/-- The lines of a text, laid out. -/
def layoutText (lines : List Line) : List Line :=
  (layoutBlocks lines.length false (unindent lines)).dropWhile (·.isEmpty)

/-- Whether a comment, without its slashes, is a directive to a tool. -/
def isDirective (text : Line) : Bool :=
  ["line ", "extern ", "export "].any (·.toList.isPrefixOf text)
    || (let isWord (c : Char) : Bool := ('a' ≤ c && c ≤ 'z') || ('0' ≤ c && c ≤ '9')
        let word := text.takeWhile isWord
        match text.drop word.length with
        | ':' :: c :: _ => !word.isEmpty && isWord c
        | _ => false)

/-- Whether every line of a text but the first starts with a star. -/
def allStars (text : Line) : Bool :=
  (splitChars '\n' text).tail.all fun l =>
    match l.dropWhile fun c => c == ' ' || c == '\t' with
    | c :: _ => c == '*'
    | [] => false

/-- A comment of one line without white space at its end. -/
def trimComment (comment : String) : String :=
  if "//".toList.isPrefixOf comment.toList then String.ofList (trimEnd comment.toList)
  else comment

/-- Writes a line of a comment. -/
def commentLine (line : Line) : String :=
  String.ofList <| '/' :: '/' :: match trimEnd line with
    | [] => []
    | '\t' :: cs => '\t' :: cs
    | cs => ' ' :: cs

/-- Lays out a comment between slashes and stars. -/
def layoutBlockComment (comment : String) : String :=
  let cs := comment.toList
  if !cs.contains '\n' || allStars cs then comment
  else
    let lines := layoutText (splitChars '\n' ((cs.drop 2).take (cs.length - 4)))
    if lines.isEmpty then comment
    else String.ofList ("/*\n".toList ++ lines.flatMap (· ++ ['\n']) ++ "*/".toList)

/-- Lays out the lines of a doc comment. -/
def layoutDoc (comments : List String) : List String :=
  match comments with
  | [] => []
  | first :: rest =>
    let texts := comments.map (·.toList)
    if rest.isEmpty && "/*".toList.isPrefixOf first.toList then [layoutBlockComment first]
    else if !texts.all ("//".toList.isPrefixOf ·) then comments
    else
      let bodies := texts.map (·.drop 2)
      let directives := (bodies.filter isDirective).map fun l =>
        String.ofList ('/' :: '/' :: trimEnd l)
      let plain := (bodies.filter (!isDirective ·)).map fun l =>
        if l.head? == some ' ' then l.tail else l
      if plain.isEmpty then directives
      else
        match (layoutText plain).map commentLine with
        | [] => directives
        | lines => if directives.isEmpty then lines else lines ++ "//" :: directives

end YieldMachine
