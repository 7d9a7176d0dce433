import YieldMachine.Tree.Basic

/-!
# Generator bodies

`Flow` is the statement tree of a generator body.  Only statements that shape
control flow have a form of their own; expressions and all other statements stay
trees.
-/

namespace YieldMachine

/-- The type that a declaration gives to one of its names. -/
inductive DeclType where
  /-- the name is an existing variable that is only assigned -/
  | reused
  | own (type : Expr)
  /-- the type written for the first name, shared with it -/
  | asFirst

/-- Declares `names`.  The values are one for each name, a single expression with
several results, or none for zero values. -/
structure VarDecl where
  names : List String
  types : List DeclType
  values : List Expr
  /-- written with `:=` -/
  define : Bool

/-- The header of a loop over an iterator.  `x` denotes the iterator; the key and
value are declared (`define`) or assigned, and either may be missing. -/
structure Walk where
  key : Expr
  value : Expr
  define : Bool
  keyType : Expr
  valueType : Expr
  x : Expr

mutual

/-- The statements of a generator body.  An empty label stands for none. -/
inductive Flow where
  /-- no statement at all -/
  | missing
  | block (body : List Flow)
  | declare (decl : VarDecl)
  /-- produces a value and resumes right after itself -/
  | yield (value : Expr)
  /-- ends the generator -/
  | finish
  | ite (cond : Expr) (body : List Flow) (other : Flow)
  | while (cond : Expr) (body : List Flow)
  | doWhile (body : List Flow) (cond : Expr)
  | loop (init : Flow) (cond : Expr) (post : Flow) (body : List Flow)
  | walk (header : Walk) (body : List Flow)
  /-- a case that does not end in a break continues into the next one -/
  | switch (tag : Expr) (cases : List FlowCase)
  | labeled (label : String) (stmt : Flow)
  | brk (label : String)
  | cont (label : String)
  /-- a local type or constant declaration -/
  | lift (decl : Decl)
  /-- a statement without effect on the control flow of the generator -/
  | simple (stmt : Stmt)

/-- A case of a switch: for listed values, or for all others. -/
inductive FlowCase where
  | case (values : List Expr) (body : List Flow)
  | default (body : List Flow)

end

instance : Inhabited Flow := ⟨.missing⟩

/-- Whether there is no statement. -/
def Flow.isMissing : Flow → Bool
  | .missing => true
  | _ => false

/-- The statements of a case. -/
def FlowCase.body : FlowCase → List Flow
  | .case _ body => body
  | .default body => body

/-- The type written for the first name of a declaration. -/
def VarDecl.firstType (d : VarDecl) : Expr :=
  match d.types with
  | .own type :: _ => type
  | _ => .missing

/-- The type of the name at position `i`: `none` when no type is recorded for it,
and `missing` when the name is only assigned. -/
def VarDecl.typeAt? (d : VarDecl) (i : Nat) : Option Expr :=
  d.types[i]?.map fun
    | .reused => .missing
    | .own type => type
    | .asFirst => d.firstType

/-- The type written for all names, if there is exactly one. -/
def VarDecl.sharedType (d : VarDecl) : Expr :=
  match d.types with
  | [] => .missing
  | .reused :: _ => .missing
  | first :: rest =>
    if rest.all (fun | .asFirst => true | _ => false) then
      match first with
      | .own type => type
      | _ => .missing
    else .missing

end YieldMachine
