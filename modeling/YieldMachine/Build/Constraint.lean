import YieldMachine.Text.Letter
import YieldMachine.Text.Space

/-!
# Build constraints

A build constraint is a formula over build tags in a comment before the package clause.
A file is a source for a tag when its constraint holds with that tag alone and fails
without any; the generated file is constrained by the negated tag.
-/

namespace YieldMachine

/-- A formula over build tags. -/
inductive Constraint where
  | tag (name : String)
  | not (x : Constraint)
  | and (x y : Constraint)
  | or (x y : Constraint)
  deriving DecidableEq, Repr

namespace Constraint

/-- Whether a constraint holds when the tags with a given property are set. -/
def eval (set : String → Bool) : Constraint → Bool
  | .tag name => set name
  | .not x => !x.eval set
  | .and x y => x.eval set && y.eval set
  | .or x y => x.eval set || y.eval set

/-- A token of a written constraint. -/
inductive Token where
  | name (s : String)
  | bang
  | both
  | either
  | openParen
  | closeParen
  deriving DecidableEq, Repr

/-- Characters of tags. -/
def isTagChar (c : Char) : Bool := isLetter c || isDecimalDigit c || c == '_' || c == '.'

/-- Cuts a written constraint into tokens.  The first argument bounds their number. -/
def tokens? : Nat → List Char → Option (List Token)
  | _, [] => some []
  | 0, _ => none
  | bound + 1, c :: rest =>
    if c == ' ' || c == '\t' then tokens? bound rest
    else if c == '(' then (tokens? bound rest).map (.openParen :: ·)
    else if c == ')' then (tokens? bound rest).map (.closeParen :: ·)
    else if c == '!' then (tokens? bound rest).map (.bang :: ·)
    else if c == '&' || c == '|' then
      if rest.head? == some c then
        (tokens? bound rest.tail).map ((if c == '&' then .both else .either) :: ·)
      else none
    else
      let name := (c :: rest).takeWhile isTagChar
      if name.isEmpty then none
      else (tokens? bound ((c :: rest).drop name.length)).map (.name (String.ofList name) :: ·)

mutual

/-- Reads alternatives. -/
def readOr : Nat → List Token → Option (Constraint × List Token)
  | 0, _ => none
  | bound + 1, ts => do
    let (x, ts) ← readAnd bound ts
    moreOr bound x ts

/-- Reads further alternatives. -/
def moreOr : Nat → Constraint → List Token → Option (Constraint × List Token)
  | 0, _, _ => none
  | bound + 1, x, .either :: ts => do
    let (y, ts) ← readAnd bound ts
    moreOr bound (.or x y) ts
  | _ + 1, x, ts => some (x, ts)

/-- Reads a conjunction. -/
def readAnd : Nat → List Token → Option (Constraint × List Token)
  | 0, _ => none
  | bound + 1, ts => do
    let (x, ts) ← readNot bound ts
    moreAnd bound x ts

/-- Reads further parts of a conjunction. -/
def moreAnd : Nat → Constraint → List Token → Option (Constraint × List Token)
  | 0, _, _ => none
  | bound + 1, x, .both :: ts => do
    let (y, ts) ← readNot bound ts
    moreAnd bound (.and x y) ts
  | _ + 1, x, ts => some (x, ts)

/-- Reads a tag or a constraint in parentheses, which may be negated once. -/
def readNot : Nat → List Token → Option (Constraint × List Token)
  | 0, _ => none
  | bound + 1, .bang :: ts => do
    let (x, ts) ← readAtom bound ts
    return (.not x, ts)
  | bound + 1, ts => readAtom bound ts

/-- Reads a tag or a constraint in parentheses. -/
def readAtom : Nat → List Token → Option (Constraint × List Token)
  | 0, _ => none
  | bound + 1, .openParen :: ts => do
    let (x, ts) ← readOr bound ts
    match ts with
    | .closeParen :: ts => return (x, ts)
    | _ => none
  | _ + 1, .name s :: ts => some (.tag s, ts)
  | _ + 1, _ => none

end

/-- How many operands a constraint has, counting each parenthesis as one. -/
def operands (ts : List Token) : Nat :=
  (ts.filter fun t =>
    match t with
    | .name _ | .openParen => true
    | _ => false).length

/-- Reads a constraint of at most a thousand operands. -/
def parse? (text : String) : Option Constraint := do
  let cs := text.toList
  let ts ← tokens? cs.length cs
  if 1000 < operands ts then none
  let (x, rest) ← readOr (8 * ts.length + 8) ts
  if rest.isEmpty then some x else none

/-- A text in parentheses if so asked. -/
def enclosed (b : Bool) (s : String) : String := if b then "(" ++ s ++ ")" else s

/-- Whether a constraint is a conjunction. -/
def isAnd : Constraint → Bool
  | .and _ _ => true
  | _ => false

/-- Whether a constraint is an alternative. -/
def isOr : Constraint → Bool
  | .or _ _ => true
  | _ => false

/-- The text of a constraint.  Parentheses stand around each operand that is joined by
the other operator. -/
def text : Constraint → String
  | .tag name => name
  | .not x => "!" ++ enclosed (x.isAnd || x.isOr) x.text
  | .and x y => enclosed x.isOr x.text ++ " && " ++ enclosed y.isOr y.text
  | .or x y => enclosed x.isAnd x.text ++ " || " ++ enclosed y.isAnd y.text

/-- The mark of a comment that holds a constraint. -/
def mark : String := "//go:build"

/-- The constraint text of a comment, if it is marked as one: the mark is followed by
white space or by nothing. -/
def ofComment? (comment : String) : Option String :=
  let cs := comment.toList
  let line := if cs.getLast? == some '\n' then cs.dropLast else cs
  if line.contains '\n' || !mark.toList.isPrefixOf line then none
  else
    let rest := (trimSpaces line).drop mark.length
    if rest.isEmpty || rest.head?.any isSpace then some (String.ofList (trimSpaces rest)) else none

/-- Whether a constraint holds with a tag alone and fails without any. -/
def marks (x : Constraint) (tag : String) : Bool :=
  x.eval (· == tag) && !x.eval fun _ => false

end Constraint

/-- Whether a file with the given comments before its package clause is a source for a
tag.  The first comment that is marked as a constraint decides. -/
def isSource (comments : List String) (tag : String) : Bool :=
  match comments.findSome? Constraint.ofComment? with
  | some text => (Constraint.parse? text).any (·.marks tag)
  | none => false

/-- The constraint of the file generated for a tag. -/
def Constraint.ofGenerated (tag : String) : Constraint := .not (.tag tag)

end YieldMachine
