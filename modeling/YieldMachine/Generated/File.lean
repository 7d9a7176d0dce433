import YieldMachine.Generated.Comments
import YieldMachine.Generated.Header
import YieldMachine.Generated.Holder
import YieldMachine.Generated.Imports
import YieldMachine.Source.Scan
import YieldMachine.Table.Lowering
import YieldMachine.Tree.Qualifier

/-!
# Generated files

`Source.File.generate` makes the counterpart of a source file.  Its generators are
replaced by the declarations of their holders, or by stubs where they cannot be
compiled, and all other declarations stay.
-/

namespace YieldMachine

/-- A generated file. -/
structure GeneratedFile where
  /-- the comments before the package clause -/
  header : List String
  pkg : String
  imports : List ImportSpec
  decls : List TopLevel
  /-- the comments of the declarations -/
  comments : List String

/-- A generator after lowering. -/
structure Lowered where
  generator : Source.Generator
  /-- none for a generator that cannot be compiled, and nothing to lower -/
  outcome : Option (Except LowerError Holder)

/-- The holder of a generator that was lowered. -/
def Lowered.holder? (l : Lowered) : Option Holder :=
  match l.outcome with
  | some (.ok h) => some h
  | _ => none

/-- Why a generator was not lowered. -/
def Lowered.error? (l : Lowered) : Option LowerError :=
  match l.outcome with
  | some (.error e) => some e
  | _ => none

/-- Lowers a generator. -/
def Source.Generator.lower (g : Source.Generator) : Lowered := ⟨g, g.routine.map Routine.lower⟩

/-- The text of a failure to lower a generator of a file. -/
def lowerProblem (file : String) (pos : Source.Pos) (e : LowerError) : String :=
  file ++ ":" ++ pos.text ++ ": " ++ e.message

/-- The failures to lower generators of a file. -/
def lowerProblems (file : String) (ls : List Lowered) : List String :=
  ls.filterMap fun l => l.error?.map (lowerProblem file l.generator.pos)

namespace Source

/-- The declaration of a function, without what is known about it. -/
def Func.erase (f : Func) : FuncDecl :=
  ⟨f.name.name, f.recv.erase, f.signature.erase, f.body.map eraseStmts⟩

/-- The generator that a declaration is. -/
def TopDecl.lowered? (d : TopDecl) (ls : List Lowered) : Option Lowered :=
  ls.find? (·.generator.pos == d.pos)

/-- What a declaration becomes in the generated file.  Imports are not among its
declarations. -/
def TopDecl.output (d : TopDecl) (ls : List Lowered) : List TopLevel :=
  match d.form with
  | .func f =>
    match d.lowered? ls with
    | some l =>
      match l.holder? with
      | some h => h.decls f.erase
      | none => [.func f.erase.stub]
    | none => [.func f.erase]
  | .group .imports _ => []
  | .group kind specs => [.group ⟨kind, eraseSpecs specs⟩]

/-- The comments that a declaration has in the generated file. -/
def TopDecl.outputComments (d : TopDecl) (ls : List Lowered) (comments : List CommentGroup)
    (limit : Pos) : List String :=
  match d.lowered? ls with
  | some _ => layoutDoc (d.doc.elim [] (·.2))
  | none => (d.keptComments comments limit).flatMap d.commentLines

/-- The comments of declarations in the generated file, in a file that ends at `stop`. -/
def declsComments (ls : List Lowered) (comments : List CommentGroup) (stop : Pos) :
    List TopDecl → List String
  | [] => []
  | d :: ds =>
    d.outputComments ls comments ((ds.head?.map TopDecl.start).getD stop)
      ++ declsComments ls comments stop ds

/-- The generated file of a source with the given generators. -/
def File.generate (f : File) (tag : String) (ls : List Lowered) : GeneratedFile :=
  let decls := f.decls.flatMap (·.output ls)
  let comments := declsComments ls f.comments f.stop f.decls
  let extra := (ls.filter (·.holder?.isSome)).flatMap (·.generator.imports)
  { header := YieldMachine.header tag f.doc comments
    pkg := f.pkg
    imports := neededImports f.imports extra (fileQualifiers decls)
    decls
    comments := comments.filter fun c => !holdsConstraint c && !Constraint.isTagLine c }

end Source

end YieldMachine
