import YieldMachine.Text.Quoted
import YieldMachine.Tree.Basic

/-!
# Types of checked sources

The types that a type checker gives to the variables of a source, as finite trees: a
named type is a leaf but for its arguments.  `Ty.spell` writes a type as an expression
for a file that imports packages under names of its own, and `Ty.text` writes it for
messages, with full import paths.
-/

namespace YieldMachine

/-- A package: where it is imported from, and how it calls itself. -/
structure PackageRef where
  path : String
  name : String
  deriving DecidableEq, Repr

mutual

/-- A type. -/
inductive Ty where
  | basic (name : String)
  /-- a defined type; without a package it is predeclared -/
  | named (pkg : Option PackageRef) (name : String) (args : List Ty)
  /-- another name for a type -/
  | synonym (pkg : Option PackageRef) (name : String) (args : List Ty)
  | param (name : String)
  | pointer (element : Ty)
  | slice (element : Ty)
  | array (length : Int) (element : Ty)
  | map (key element : Ty)
  | chan (direction : ChanDir) (element : Ty)
  | struct (fields : List TyField)
  | func (signature : TySignature)
  /-- an implicit interface stands for the single type set it embeds -/
  | interface (methods : List TyMethod) (embeds : List Ty) (implicit : Bool)
  | union (terms : List TyTerm)
  | tuple (items : List TyParam)

/-- A field of a struct type; its tag may be empty. -/
inductive TyField where
  | mk (name : String) (type : Ty) (embedded : Bool) (tag : String)

/-- A parameter or result; its name may be empty. -/
inductive TyParam where
  | mk (name : String) (type : Ty)

/-- Parameters and results.  The last parameter of a variadic function is a slice. -/
inductive TySignature where
  | mk (params results : List TyParam) (variadic : Bool)

/-- A method of an interface. -/
inductive TyMethod where
  | mk (name : String) (signature : TySignature)

/-- A term of a union, with or without all types that share its underlying type. -/
inductive TyTerm where
  | mk (tilde : Bool) (type : Ty)

end

instance : Inhabited Ty := ⟨.tuple []⟩

namespace Ty

/-- The expression for a name of a package, which may have no qualifier. -/
def qualified (qualifier name : String) : Expr :=
  if qualifier.isEmpty then .name name else .sel (.name qualifier) name

/-- The expression for an instance of a generic type. -/
def instantiated (x : Expr) : List Expr → Expr
  | [] => x
  | [arg] => .index x arg
  | args => .indexList x args

/-- The expression for a union of type terms. -/
def joined : List Expr → Expr
  | [] => .missing
  | e :: es => es.foldl (.binary .bitOr) e

mutual

/-- The expression that denotes a type in a file that qualifies packages by `q`. -/
def spell (q : PackageRef → String) : Ty → Expr
  | .basic name => .name name
  | .named pkg name args =>
    instantiated (qualified ((pkg.map q).getD "") name) (spellAll q args)
  | .synonym pkg name args =>
    instantiated (qualified ((pkg.map q).getD "") name) (spellAll q args)
  | .param name => .name name
  | .pointer element => .star (element.spell q)
  | .slice element => .array .missing (element.spell q)
  | .array length element => .array (.lit .int (toString length)) (element.spell q)
  | .map key element => .map (key.spell q) (element.spell q)
  | .chan .both (.chan .receive element) =>
    .chan .both (.paren (.chan .receive (element.spell q)))
  | .chan direction element => .chan direction (element.spell q)
  | .struct fields => .struct (.list (spellFields q fields))
  | .func signature => .funcType (spellSignature q signature)
  | .interface [] [embedded] true => embedded.spell q
  | .interface methods embeds _ =>
    .interface (.list (spellMethods q methods ++ spellEmbeds q embeds))
  | .union terms => joined (spellTerms q terms)
  | .tuple _ => .missing

/-- The expressions for a list of types. -/
def spellAll (q : PackageRef → String) : List Ty → List Expr
  | [] => []
  | t :: ts => t.spell q :: spellAll q ts

/-- The fields of a struct type. -/
def spellFields (q : PackageRef → String) : List TyField → List Field
  | [] => []
  | .mk name ty embedded tag :: fs =>
    .mk (if embedded then [] else [name]) (ty.spell q)
      (if tag.isEmpty then none else some (quote tag)) :: spellFields q fs

/-- The signature of a function type. -/
def spellSignature (q : PackageRef → String) : TySignature → Signature
  | .mk params results variadic =>
    .mk .absent (.list (spellParams q variadic params))
      (if results.isEmpty then .absent else .list (spellParams q false results))

/-- The fields for parameters or results. -/
def spellParams (q : PackageRef → String) (variadic : Bool) : List TyParam → List Field
  | [] => []
  | [.mk name (.slice element)] =>
    let ty := element.spell q
    [.mk (if name.isEmpty then [] else [name])
      (if variadic then .ellipsis ty else .array .missing ty) none]
  | .mk name ty :: ps =>
    .mk (if name.isEmpty then [] else [name]) (ty.spell q) none :: spellParams q variadic ps

/-- The fields for the methods of an interface. -/
def spellMethods (q : PackageRef → String) : List TyMethod → List Field
  | [] => []
  | .mk name signature :: ms =>
    .mk [name] (.funcType (spellSignature q signature)) none :: spellMethods q ms

/-- The fields for the embedded types of an interface. -/
def spellEmbeds (q : PackageRef → String) : List Ty → List Field
  | [] => []
  | t :: ts => .mk [] (t.spell q) none :: spellEmbeds q ts

/-- The expressions for the terms of a union. -/
def spellTerms (q : PackageRef → String) : List TyTerm → List Expr
  | [] => []
  | .mk tilde ty :: ts =>
    (if tilde then .unary .tilde (ty.spell q) else ty.spell q) :: spellTerms q ts

end

mutual

/-- The packages that a type mentions, as they come. -/
def packages : Ty → List PackageRef
  | .basic _ => []
  | .named pkg _ args => pkg.toList ++ packagesOfAll args
  | .synonym pkg _ args => pkg.toList ++ packagesOfAll args
  | .param _ => []
  | .pointer element => element.packages
  | .slice element => element.packages
  | .array _ element => element.packages
  | .map key element => key.packages ++ element.packages
  | .chan _ element => element.packages
  | .struct fields => packagesOfFields fields
  | .func signature => packagesOfSignature signature
  | .interface methods embeds _ => packagesOfMethods methods ++ packagesOfAll embeds
  | .union terms => packagesOfTerms terms
  | .tuple items => packagesOfParams items

/-- The packages of a list of types. -/
def packagesOfAll : List Ty → List PackageRef
  | [] => []
  | t :: ts => t.packages ++ packagesOfAll ts

/-- The packages of the fields of a struct. -/
def packagesOfFields : List TyField → List PackageRef
  | [] => []
  | .mk _ ty _ _ :: fs => ty.packages ++ packagesOfFields fs

/-- The packages of a signature. -/
def packagesOfSignature : TySignature → List PackageRef
  | .mk params results _ => packagesOfParams params ++ packagesOfParams results

/-- The packages of parameters. -/
def packagesOfParams : List TyParam → List PackageRef
  | [] => []
  | .mk _ ty :: ps => ty.packages ++ packagesOfParams ps

/-- The packages of methods. -/
def packagesOfMethods : List TyMethod → List PackageRef
  | [] => []
  | .mk _ signature :: ms => packagesOfSignature signature ++ packagesOfMethods ms

/-- The packages of the terms of a union. -/
def packagesOfTerms : List TyTerm → List PackageRef
  | [] => []
  | .mk _ ty :: ts => ty.packages ++ packagesOfTerms ts

end

/-- The text of a name of a package. -/
def qualifiedText (pkg : Option PackageRef) (name : String) : String :=
  match pkg with
  | some p => p.path ++ "." ++ name
  | none => name

mutual

/-- The text of a type, with import paths. -/
def text : Ty → String
  | .basic name => name
  | .named pkg name args => qualifiedText pkg name ++ argsText args
  | .synonym pkg name args => qualifiedText pkg name ++ argsText args
  | .param name => name
  | .pointer element => "*" ++ element.text
  | .slice element => "[]" ++ element.text
  | .array length element => "[" ++ toString length ++ "]" ++ element.text
  | .map key element => "map[" ++ key.text ++ "]" ++ element.text
  | .chan .both (.chan .receive element) => "chan (<-chan " ++ element.text ++ ")"
  | .chan .both element => "chan " ++ element.text
  | .chan .send element => "chan<- " ++ element.text
  | .chan .receive element => "<-chan " ++ element.text
  | .struct fields => "struct\x7b" ++ "; ".intercalate (fieldTexts fields) ++ "\x7d"
  | .func signature => "func" ++ signatureText signature
  | .interface [] [embedded] true => embedded.text
  | .interface methods embeds implicit =>
    (if implicit then "/* implicit */ " else "") ++ "interface\x7b"
      ++ "; ".intercalate (methodTexts methods ++ texts embeds) ++ "\x7d"
  | .union terms => " | ".intercalate (termTexts terms)
  | .tuple items => "(" ++ ", ".intercalate (paramTexts false items) ++ ")"

/-- The texts of a list of types. -/
def texts : List Ty → List String
  | [] => []
  | t :: ts => t.text :: texts ts

/-- The text of type arguments. -/
def argsText : List Ty → String
  | [] => ""
  | t :: ts => "[" ++ ",".intercalate (t.text :: texts ts) ++ "]"

/-- The texts of the fields of a struct. -/
def fieldTexts : List TyField → List String
  | [] => []
  | .mk name ty embedded tag :: fs =>
    ((if embedded then "" else name ++ " ") ++ ty.text
      ++ (if tag.isEmpty then "" else " " ++ quote tag)) :: fieldTexts fs

/-- The text of a signature. -/
def signatureText : TySignature → String
  | .mk params results variadic =>
    let given := "(" ++ ", ".intercalate (paramTexts variadic params) ++ ")"
    match results with
    | [] => given
    | [.mk name ty] =>
      let result := ty.text
      if name.isEmpty then given ++ " " ++ result
      else given ++ " (" ++ name ++ " " ++ result ++ ")"
    | results => given ++ " (" ++ ", ".intercalate (paramTexts false results) ++ ")"

/-- The texts of parameters. -/
def paramTexts (variadic : Bool) : List TyParam → List String
  | [] => []
  | [.mk name (.slice element)] =>
    [(if name.isEmpty then "" else name ++ " ") ++ (if variadic then "..." else "[]")
      ++ element.text]
  | .mk name ty :: ps =>
    ((if name.isEmpty then "" else name ++ " ") ++ ty.text) :: paramTexts variadic ps

/-- The texts of the methods of an interface. -/
def methodTexts : List TyMethod → List String
  | [] => []
  | .mk name signature :: ms => (name ++ signatureText signature) :: methodTexts ms

/-- The texts of the terms of a union. -/
def termTexts : List TyTerm → List String
  | [] => []
  | .mk tilde ty :: ts => ((if tilde then "~" else "") ++ ty.text) :: termTexts ts

end

end Ty

/-- What can be done with the values of a type, whatever the type is called.  The parts
of a collection are given with their types. -/
inductive Shape where
  | slice (element : Ty)
  | array (element : Ty)
  | arrayPointer (element : Ty)
  | map (key element : Ty)
  | chan (element : Ty)
  | text
  /-- whole numbers; `counter` is the type of a variable that counts up to one -/
  | integer (counter : Ty)
  | func
  | struct
  | other

/-- A type with the shape of its values. -/
structure Typed where
  type : Ty
  shape : Shape

end YieldMachine
