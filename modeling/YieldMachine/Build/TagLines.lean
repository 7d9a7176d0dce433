import YieldMachine.Build.Constraint

/-!
# Tag lines

Before constraints had operators they were written as lines of tags: all lines have to
hold, a line holds when one of its options does, and an option is a list of tags, each
possibly negated, that have to be set together.  `Constraint.tagLines?` writes a
constraint in this way.
-/

namespace YieldMachine

namespace Constraint

/-- A constraint with its negations moved to the tags.  The first argument says whether
the constraint is negated. -/
def pushNot : Bool → Constraint → Constraint
  | false, .tag name => .tag name
  | true, .tag name => .not (.tag name)
  | negated, .not x => pushNot (!negated) x
  | false, .and x y => .and (pushNot false x) (pushNot false y)
  | true, .and x y => .or (pushNot true x) (pushNot true y)
  | false, .or x y => .or (pushNot false x) (pushNot false y)
  | true, .or x y => .and (pushNot true x) (pushNot true y)

/-- The parts of a conjunction. -/
def conjuncts : Constraint → List Constraint
  | .and x y => x.conjuncts ++ y.conjuncts
  | x => [x]

/-- The parts of an alternative. -/
def disjuncts : Constraint → List Constraint
  | .or x y => x.disjuncts ++ y.disjuncts
  | x => [x]

/-- Whether a constraint is a tag or its negation. -/
def isLiteral : Constraint → Bool
  | .tag _ => true
  | .not _ => true
  | _ => false

/-- The tag lines of a constraint, each with its options.  There are none for a
constraint that has a choice inside of an option. -/
def tagLines? (x : Constraint) : Option (List (List (List Constraint))) :=
  let lines := (pushNot false x).conjuncts.map fun line => line.disjuncts.map conjuncts
  if lines.all (·.all (·.all isLiteral)) then
    some (if lines.all (·.length ≤ 1) then [[lines.flatten.flatten]] else lines)
  else none

/-- The text of a tag line. -/
def tagLine (options : List (List Constraint)) : String :=
  "// +build" ++ String.join (options.map fun option =>
    " " ++ ",".intercalate (option.map text))

/-- The comments that hold a constraint as tag lines. -/
def tagLineComments (x : Constraint) : List String :=
  match x.tagLines? with
  | some lines => lines.map tagLine
  | none => ["// +build error: expression too complex for // +build lines"]

/-- Whether a comment is a tag line. -/
def isTagLine (comment : String) : Bool :=
  let cs := comment.toList
  let line := if cs.getLast? == some '\n' then cs.dropLast else cs
  !line.contains '\n' && "//".toList.isPrefixOf line
    && (let text := trimSpaces (line.drop 2)
        let rest := text.drop 6
        "+build".toList.isPrefixOf text && (rest.isEmpty || rest.head?.any isSpace))

end Constraint

end YieldMachine
