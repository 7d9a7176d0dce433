import YieldMachine.Tree.Basic

/-!
# Declarations of a file

A file declares functions and groups of variables, constants and types.
-/

namespace YieldMachine

/-- A function declaration.  The receiver is absent unless it is a method, and the body
is none where the function is declared without one. -/
structure FuncDecl where
  name : String
  recv : Fields
  signature : Signature
  body : Option (List Stmt)

/-- A declaration of a file. -/
inductive TopLevel where
  | func (f : FuncDecl)
  | group (d : Decl)

/-- The names that a declaration adds to the names of its file.  Methods belong to
their receiver, and an `init` function cannot be referred to. -/
def TopLevel.names : TopLevel → List String
  | .func f => if f.recv.toList.isEmpty && f.name != "init" then [f.name] else []
  | .group d => d.specs.flatMap Spec.names

end YieldMachine
