import YieldMachine.Build.TagLines
import YieldMachine.Text.DocComment

/-!
# The header of a generated file

A generated file starts with its build constraint, a notice, and the documentation of
the package.  All comments of the file that hold constraints are gathered at the top;
a single one is written anew, several stay as they are.
-/

namespace YieldMachine

/-- Says that a file is generated. -/
def notice : String := "// Code generated by yieldgen. DO NOT EDIT."

/-- Whether a comment holds a build constraint. -/
def holdsConstraint (comment : String) : Bool := (Constraint.ofComment? comment).isSome

/-- The build constraint of the file generated for a tag. -/
def constraintComment (tag : String) : String := Constraint.mark ++ " !" ++ tag

/-- The comments with build constraints at the top of a file, given all of them in
order. -/
def constraintBlock (constraints tagLines : List String) : List String :=
  match constraints with
  | [comment] =>
    match (Constraint.ofComment? comment).bind Constraint.parse? with
    | some x =>
      (Constraint.mark ++ " " ++ x.text) :: (if tagLines.isEmpty then [] else x.tagLineComments)
    | none => comment :: tagLines
  | _ => constraints ++ tagLines

/-- The comments before the package clause of the file generated for a tag, given those
that document the package and those of the declarations. -/
def header (tag : String) (doc comments : List String) : List String :=
  let doc := layoutDoc doc
  let rest := constraintComment tag :: doc ++ comments
  constraintBlock (rest.filter holdsConstraint) (rest.filter Constraint.isTagLine)
    ++ notice :: layoutDoc (doc.filter fun c => !holdsConstraint c && !Constraint.isTagLine c)

end YieldMachine
