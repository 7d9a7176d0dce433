import YieldMachine.Scope.Name
import YieldMachine.Source.Convert
import YieldMachine.Table.Basic
import YieldMachine.Text.Case
import YieldMachine.Text.Literal

/-!
# Generators of a package

`scan` finds the generators of a file and converts them.  The names of their holders
are unique in the package, so that the names given so far are handed from file to file.
-/

namespace YieldMachine.Source

/-- The text of a path literal. -/
def pathText? (literal : String) : Option String := (unquote? literal).bind textOf?

/-- The name that a file imports the runtime package under. -/
def runtimeName? (imports : List Import) : Option String :=
  imports.findSome? fun i =>
    if pathText? i.path == some runtimePath then some (i.name.getD "yieldgen") else none

/-- The name that the last import of a path binds; it may be a dot or blank. -/
def importedName? (imports : List Import) (path : String) : Option String :=
  (imports.filterMap fun i =>
    if pathText? i.path == some path then i.name.or i.pkgName else none).getLast?

/-- The qualifier of a package in a file: none for the package of the file itself and
for one whose names are imported without a qualifier. -/
def qualifier (own : String) (imports : List Import) (p : PackageRef) : String :=
  if p.path == own then ""
  else
    match importedName? imports p.path with
    | some name => if name == "." then "" else name
    | none => p.name

/-- Adds a binding unless there is one for the key. -/
def insertNew (entries : List (String × String)) (e : String × String) : List (String × String) :=
  if (entries.lookup e.1).isSome then entries else entries ++ [e]

/-- The packages of types that a file does not import, with their names. -/
def missingImports (own : String) (imports : List Import) (types : List Ty) :
    List (String × String) :=
  (types.flatMap Ty.packages).foldl (fun acc p =>
    if p.path == own || (importedName? imports p.path).isSome then acc
    else insertNew acc (p.path, p.name)) []

/-- Changes the first character of a name. -/
def mapFirst (f : Char → Char) (s : String) : String :=
  match s.toList with
  | [] => s
  | c :: cs => String.ofList (f c :: cs)

/-- The name of the type of a receiver. -/
def receiverTypeName : YieldMachine.Expr → String
  | .star x => receiverTypeName x
  | .index x _ => receiverTypeName x
  | .indexList x _ => receiverTypeName x
  | .paren x => receiverTypeName x
  | .ident name _ => name
  | _ => ""

/-- The receiver of a method. -/
def Func.receiver? (f : Func) : Option Field := f.recv.toList.head?

/-- The name that the holder of a function is derived from: methods have the name of
the receiver's type in front. -/
def Func.holderBase (f : Func) : String :=
  let name := f.name.name
  let name := match f.receiver? with
    | some field =>
      let recv := receiverTypeName field.type.erase
      if recv.isEmpty then name else recv ++ mapFirst toCapital name
    | none => name
  mapFirst toSmall name ++ "Generator"

/-- The results of a signature. -/
def Signature.results : Signature → Fields
  | .mk _ _ results => results

/-- The parameters of a signature. -/
def Signature.params : Signature → Fields
  | .mk _ params _ => params

/-- The type parameters of a signature. -/
def Signature.typeParams : Signature → Fields
  | .mk typeParams _ _ => typeParams

/-- The result of a function that has exactly one entry for results. -/
def Func.result? (f : Func) : Option Field :=
  match f.signature.results.toList with
  | [field] => some field
  | _ => none

/-- The element type of a function that returns a generator. -/
def Func.element? (f : Func) : Option Ty :=
  f.result?.bind fun field => field.type.typed.bind Typed.element?

/-- Whether the body of a function produces elements. -/
def Func.yields (f : Func) : Bool := f.body.any fun body => usesYield (outlineStmts body)

/-- Whether a function is a generator: it returns one and produces elements. -/
def Func.isGenerator (f : Func) : Bool := f.element?.isSome && f.yields

/-- A generator of a file.  Without a routine it cannot be compiled. -/
structure Generator where
  func : Func
  pos : Pos
  routine : Option Routine
  /-- packages that the types of the routine mention and the file does not import -/
  imports : List (String × String)

/-- Why a generator of a file cannot be compiled. -/
structure Diagnostic where
  file : String
  func : String
  problem : Problem
  deriving DecidableEq, Repr

/-- The text of a diagnostic. -/
def Diagnostic.text (d : Diagnostic) : String :=
  d.file ++ ":" ++ d.problem.pos.text ++ ": " ++ d.func ++ ": " ++ d.problem.reason.text

/-- The type parameters of the receiver of a method. -/
def Context.receiverParams (ctx : Context) :
    List (String × Ty) → Noted (List YieldMachine.Field)
  | [] => pure []
  | (name, constraint) :: rest => do
    let ty ← ctx.spell constraint
    return .mk [name] ty none :: (← ctx.receiverParams rest)

/-- Converts a generator with the given name for its holder. -/
def Func.routine (f : Func) (runtime : String) (qualify : PackageRef → String)
    (holder : String) (element : Ty) (body : List Stmt) : Noted Routine := do
  let spelling : Context := ⟨runtime, qualify, false⟩
  let elem ← spelling.spell element
  let typeParams ← match f.receiver? with
    | some _ => do
      let params ← spelling.receiverParams f.recvTypeParams
      pure (if params.isEmpty then .absent else YieldMachine.Fields.list params)
    | none => pure f.signature.typeParams.erase
  let ctx : Context := ⟨runtime, qualify, !typeParams.toList.isEmpty⟩
  let body ← convertBody ctx body
  return {
    name := holder
    recv := f.receiver?.map Field.erase
    typeParams
    params := f.signature.params.erase
    elem
    runtime
    body }

/-- What is made of a function that produces elements: a routine with the packages it
needs, or problems; and the holder names given then. -/
def Func.convert (f : Func) (pos : Pos) (own : String) (scope : List String)
    (imports : List Import) (holders : List String) :
    Except (List Problem) (Routine × List (String × String)) × List String :=
  let refuse (reason : Reason) := (.error [⟨pos, reason⟩], holders)
  match f.element?, f.result?, f.body with
  | some element, some result, some body =>
    match runtimeName? imports with
    | none => refuse .unnamedRuntime
    | some runtime =>
      if runtime == "." || runtime == "_" then refuse .unnamedRuntime
      else if !result.names.isEmpty then refuse .namedResult
      else
        let holder := freeName (holders ++ scope) f.holderBase
        let noted := f.routine runtime (qualifier own imports) holder element body
        (if noted.problems.isEmpty then
          .ok (noted.value, missingImports own imports noted.types)
        else .error noted.problems, holder :: holders)
  | _, _, _ => refuse .notGenerator

/-- The functions of declarations, with their positions. -/
def funcs : List TopDecl → List (Func × Pos)
  | [] => []
  | d :: ds =>
    match d.form with
    | .func f => (f, d.pos) :: funcs ds
    | .group _ _ => funcs ds

/-- What was found in a file. -/
structure Found where
  generators : List Generator
  diagnostics : List Diagnostic
  holders : List String

/-- Finds and converts the generators among functions. -/
def scanFuncs (own : String) (scope : List String) (file : String) (imports : List Import) :
    List String → List (Func × Pos) → Found
  | holders, [] => ⟨[], [], holders⟩
  | holders, (f, pos) :: fs =>
    if f.yields then
      let (result, holders) := f.convert pos own scope imports holders
      let rest := scanFuncs own scope file imports holders fs
      match result with
      | .ok (routine, extra) =>
        { rest with generators := ⟨f, pos, some routine, extra⟩ :: rest.generators }
      | .error problems =>
        { rest with
          generators := ⟨f, pos, none, []⟩ :: rest.generators
          diagnostics := problems.map (⟨file, f.name.name, ·⟩) ++ rest.diagnostics }
    else scanFuncs own scope file imports holders fs

/-- Finds and converts the generators of a file of a package. -/
def File.scan (f : File) (pkg : Package) (holders : List String) : Found :=
  scanFuncs pkg.path pkg.scope f.name f.imports holders (funcs f.decls)

end YieldMachine.Source
