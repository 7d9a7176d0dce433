import YieldMachine.Text.Identifier
import YieldMachine.Text.Space
import YieldMachine.Source.Scan

/-!
# The imports of a generated file

A generated file has the imports of its source and those that the types of its holders
need, without the ones that nothing refers to any more.
-/

namespace YieldMachine

/-- An import: the path of a package and the name that it is given, if any. -/
structure ImportSpec where
  name : Option String
  path : String
  deriving DecidableEq, Repr

/-- The text after the last slash. -/
def afterSlash (path : String) : String :=
  String.ofList ((splitChars '/' path.toList).getLastD [])

/-- The last element of a path, which may end in slashes. -/
def lastElement (path : String) : String :=
  if path.isEmpty then "."
  else
    match (path.toList.reverse.dropWhile (· == '/')).reverse with
    | [] => "/"
    | cs => afterSlash (String.ofList cs)

/-- Whether a name is the number of a version, such as `v2`. -/
def isVersion (name : String) : Bool :=
  match name.toList with
  | 'v' :: c :: cs => (c :: cs).all Char.isDigit
  | _ => false

/-- Whether the name of the package at a path is likely the last element of the path. -/
def isGuessable (path : String) : Bool :=
  let name := lastElement path
  isIdentifier name && !isVersion name

/-- The import of a source. -/
def ImportSpec.ofSource (i : Source.Import) : ImportSpec :=
  ⟨i.name, (Source.pathText? i.path).getD i.path⟩

/-- The import of a package that calls itself by a name. -/
def ImportSpec.ofPackage (path name : String) : ImportSpec :=
  ⟨if name == lastElement path then none else some name, path⟩

/-- The name that an import is referred to by; a blank or dotted import has none. -/
def ImportSpec.qualifier? (s : ImportSpec) : Option String :=
  match s.name with
  | some name => if name == "_" || name == "." then none else some name
  | none => some (afterSlash s.path)

/-- Whether something refers to the package at a path: to its first import by name, or
possibly to an import without a name. -/
def isImportUsed (qualifiers : List String) (specs : List ImportSpec) (path : String) : Bool :=
  match specs.find? (·.path == path) with
  | some s => s.qualifier?.all qualifiers.contains
  | none => false

/-- Whether an import stays in a generated file. -/
def ImportSpec.isNeeded (qualifiers : List String) (specs : List ImportSpec) (s : ImportSpec) :
    Bool :=
  s.qualifier?.isNone || (s.name.isNone && !isGuessable s.path)
    || isImportUsed qualifiers specs s.path

/-- Adds an import unless it is there. -/
def addImport (specs : List ImportSpec) (s : ImportSpec) : List ImportSpec :=
  if specs.contains s then specs else specs ++ [s]

/-- The imports of a generated file, given the imports of its source, the packages that
holders need, and the qualifiers in its declarations. -/
def neededImports (imports : List Source.Import) (extra : List (String × String))
    (qualifiers : List String) : List ImportSpec :=
  let specs := (extra.map fun (path, name) => ImportSpec.ofPackage path name).foldl addImport
    (imports.map ImportSpec.ofSource)
  specs.filter (ImportSpec.isNeeded qualifiers specs)

end YieldMachine
