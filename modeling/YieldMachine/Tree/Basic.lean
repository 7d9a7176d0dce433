/-!
# Statement and expression trees

The trees that a generator body is made of, and that a state table holds.  A
place where nothing is written holds `missing`, so that every position of a tree
has the same type whether or not it is filled.
-/

namespace YieldMachine

/-- The classes of literals. -/
inductive LitKind where
  | int | float | imag | char | string
  deriving DecidableEq, Repr, Inhabited

/-- Operators that stand in front of one operand. -/
inductive UnaryOp where
  | plus | minus | not | complement | address | receive | tilde
  deriving DecidableEq, Repr, Inhabited

/-- Operators that stand between two operands. -/
inductive BinaryOp where
  | add | sub | mul | quo | rem
  | bitAnd | bitOr | bitXor | shiftLeft | shiftRight | bitClear
  | land | lor
  | eq | ne | lt | le | gt | ge
  deriving DecidableEq, Repr, Inhabited

/-- How an assignment treats its left side: `=`, `:=`, or an update such as `+=`. -/
inductive AssignKind where
  | set
  | define
  | update (op : BinaryOp)
  deriving DecidableEq, Repr, Inhabited

/-- How a range clause treats its key and value; `bare` has neither. -/
inductive RangeKind where
  | bare | set | define
  deriving DecidableEq, Repr, Inhabited

/-- The four statements that leave a statement list sideways. -/
inductive BranchKind where
  | brk | cont | goto | fallthrough
  deriving DecidableEq, Repr, Inhabited

/-- The directions of a channel type. -/
inductive ChanDir where
  | send | receive | both
  deriving DecidableEq, Repr, Inhabited

/-- The keyword of a grouped declaration. -/
inductive DeclKind where
  | var | const | type | imports
  deriving DecidableEq, Repr, Inhabited

mutual

/-- Expressions, type expressions included. -/
inductive Expr where
  /-- nothing is written here -/
  | missing
  /-- a name; a kept name denotes no variable (the key of a struct literal) -/
  | ident (name : String) (kept : Bool)
  | lit (kind : LitKind) (text : String)
  | sel (x : Expr) (member : String)
  | index (x i : Expr)
  | indexList (x : Expr) (indices : List Expr)
  | slice (x low high max : Expr) (three : Bool)
  /-- `x.(type)`; the type is missing in a type switch guard -/
  | assert (x type : Expr)
  | call (fn : Expr) (args : List Expr) (spread : Bool)
  | star (x : Expr)
  | unary (op : UnaryOp) (x : Expr)
  | binary (op : BinaryOp) (x y : Expr)
  | paren (x : Expr)
  | pair (key value : Expr)
  | composite (type : Expr) (elements : List Expr)
  /-- a function literal; the body is a block, or missing -/
  | func (signature : Signature) (body : Stmt)
  | funcType (signature : Signature)
  /-- an array type, or a slice type when the length is missing -/
  | array (length element : Expr)
  | map (key element : Expr)
  | chan (direction : ChanDir) (element : Expr)
  | struct (fields : Fields)
  | interface (fields : Fields)
  | ellipsis (element : Expr)

/-- Type parameters, parameters and results of a function. -/
inductive Signature where
  | mk (typeParams params results : Fields)

/-- A field list that may be absent altogether. -/
inductive Fields where
  | absent
  | list (fields : List Field)

/-- Names that share one type, and a tag literal. -/
inductive Field where
  | mk (names : List String) (type : Expr) (tag : Option String)

/-- Statements. -/
inductive Stmt where
  /-- nothing is written here -/
  | missing
  | empty
  | expr (x : Expr)
  | send (channel value : Expr)
  | incDec (increment : Bool) (x : Expr)
  | assign (kind : AssignKind) (lhs rhs : List Expr)
  | go (call : Expr)
  | defer (call : Expr)
  | ret (results : List Expr)
  | branch (kind : BranchKind) (label : Option String)
  | block (body : List Stmt)
  | ite (init : Stmt) (cond : Expr) (body : List Stmt) (other : Stmt)
  | switch (init : Stmt) (tag : Expr) (clauses : List Clause)
  | typeSwitch (init guard : Stmt) (clauses : List Clause)
  | select (clauses : List CommClause)
  | loop (init : Stmt) (cond : Expr) (post : Stmt) (body : List Stmt)
  | range (key value : Expr) (kind : RangeKind) (x : Expr) (body : List Stmt)
  | labeled (label : String) (stmt : Stmt)
  | decl (kind : DeclKind) (specs : List Spec)

/-- A clause of a switch: for listed values, or for all others. -/
inductive Clause where
  | case (values : List Expr) (body : List Stmt)
  | default (body : List Stmt)

/-- A clause of a select; the default clause has no communication. -/
inductive CommClause where
  | mk (comm : Stmt) (body : List Stmt)

/-- One entry of a grouped declaration. -/
inductive Spec where
  | value (names : List String) (type : Expr) (values : List Expr)
  | type (name : String) (typeParams : Fields) (isAlias : Bool) (type : Expr)
  | imported (name : Option String) (path : String)

end

instance : Inhabited Expr := ⟨.missing⟩
instance : Inhabited Stmt := ⟨.missing⟩
instance : Inhabited Fields := ⟨.absent⟩

/-- A grouped declaration. -/
structure Decl where
  kind : DeclKind
  specs : List Spec
  deriving Inhabited

namespace Expr

/-- A name that may denote a variable. -/
def name (x : String) : Expr := .ident x false

/-- The name that an identifier spells. -/
def name? : Expr → Option String
  | .ident x _ => some x
  | _ => none

/-- Whether the expression is the identifier `x`. -/
def isName (x : String) (e : Expr) : Bool := e.name? == some x

/-- Whether nothing is written. -/
def isMissing : Expr → Bool
  | .missing => true
  | _ => false

/-- The expression without the parentheses around it. -/
def unparen : Expr → Expr
  | .paren x => x.unparen
  | e => e

end Expr

/-- Whether nothing is written. -/
def Stmt.isMissing : Stmt → Bool
  | .missing => true
  | _ => false

/-- The fields of a list, none when it is absent. -/
def Fields.toList : Fields → List Field
  | .absent => []
  | .list fs => fs

/-- The names of a field. -/
def Field.names : Field → List String
  | .mk names _ _ => names

/-- The type of a field. -/
def Field.type : Field → Expr
  | .mk _ type _ => type

/-- The type parameters of a signature. -/
def Signature.typeParams : Signature → Fields
  | .mk typeParams _ _ => typeParams

/-- The parameters of a signature. -/
def Signature.params : Signature → Fields
  | .mk _ params _ => params

/-- The results of a signature. -/
def Signature.results : Signature → Fields
  | .mk _ _ results => results

/-- All names of a field list. -/
def Fields.names (fs : Fields) : List String := fs.toList.flatMap Field.names

/-- The names that an entry of a declaration declares. -/
def Spec.names : Spec → List String
  | .value names _ _ => names
  | .type name _ _ _ => [name]
  | .imported _ _ => []

end YieldMachine
