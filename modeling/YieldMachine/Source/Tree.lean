import YieldMachine.Source.Types

/-!
# Checked sources

The trees of a source file together with what a type checker found out about them:
where each node is, which variable an identifier denotes, and the types that matter for
compiling.  A node is a form at a site, so that forms are the trees of `Tree.Basic`
with sites in between.
-/

namespace YieldMachine.Source

/-- A position in a file. -/
structure Pos where
  line : Nat
  column : Nat
  deriving DecidableEq, Repr, Inhabited

/-- Whether a position is before another one. -/
def Pos.before (p q : Pos) : Bool := p.line < q.line || (p.line == q.line && p.column < q.column)

/-- The text of a position. -/
def Pos.text (p : Pos) : String := toString p.line ++ ":" ++ toString p.column

/-- A variable, or a function of the runtime package. -/
structure Object where
  name : String
  /-- the import path of its package -/
  pkg : String
  /-- the type, of variables -/
  type : Option Ty
  deriving Inhabited

/-- What an identifier denotes: an object with its number, which the identifier
declares or uses. -/
structure Ref where
  id : Nat
  defines : Bool
  object : Object
  deriving Inhabited

/-- An identifier. -/
structure Ident where
  name : String
  pos : Pos
  ref : Option Ref
  deriving Inhabited

/-- Where an expression is and what is known about it. -/
structure Site where
  pos : Pos
  typed : Option Typed
  /-- whether it is the predeclared value that is nothing -/
  isNil : Bool

mutual

/-- An expression. -/
inductive Expr where
  | missing
  | mk (site : Site) (form : Form)

/-- The form of an expression. -/
inductive Form where
  | ident (id : Ident)
  | lit (kind : LitKind) (text : String)
  | sel (x : Expr) (member : Ident)
  | index (x i : Expr)
  | indexList (x : Expr) (indices : List Expr)
  | slice (x low high max : Expr) (three : Bool)
  | assert (x type : Expr)
  | call (fn : Expr) (args : List Expr) (spread : Bool)
  | star (x : Expr)
  | unary (op : UnaryOp) (x : Expr)
  | binary (op : BinaryOp) (x y : Expr)
  | paren (x : Expr)
  | pair (key value : Expr)
  | composite (type : Expr) (elements : List Expr)
  | func (signature : Signature) (body : List Stmt)
  | funcType (signature : Signature)
  | array (length element : Expr)
  | map (key element : Expr)
  | chan (direction : ChanDir) (element : Expr)
  | struct (fields : Fields)
  | interface (fields : Fields)
  | ellipsis (element : Expr)

/-- Type parameters, parameters and results of a function. -/
inductive Signature where
  | mk (typeParams params results : Fields)

/-- A field list that may be absent altogether. -/
inductive Fields where
  | absent
  | list (fields : List Field)

/-- Names that share one type, and a tag literal. -/
inductive Field where
  | mk (names : List Ident) (type : Expr) (tag : Option String)

/-- A statement. -/
inductive Stmt where
  | missing
  | mk (pos : Pos) (form : StmtForm)

/-- The form of a statement. -/
inductive StmtForm where
  | empty
  | expr (x : Expr)
  | send (channel value : Expr)
  | incDec (increment : Bool) (x : Expr)
  | assign (kind : AssignKind) (lhs rhs : List Expr)
  | go (call : Expr)
  | defer (call : Expr)
  | ret (results : List Expr)
  | branch (kind : BranchKind) (label : Option Ident)
  | block (body : List Stmt)
  | ite (init : Stmt) (cond : Expr) (body : List Stmt) (other : Stmt)
  | switch (init : Stmt) (tag : Expr) (clauses : List Clause)
  | typeSwitch (init guard : Stmt) (clauses : List Clause)
  | select (clauses : List CommClause)
  | loop (init : Stmt) (cond : Expr) (post : Stmt) (body : List Stmt)
  | range (key value : Expr) (kind : RangeKind) (x : Expr) (body : List Stmt)
  | labeled (label : Ident) (stmt : Stmt)
  | decl (kind : DeclKind) (specs : List Spec)

/-- A clause of a switch: for listed values, or for all others. -/
inductive Clause where
  | case (values : List Expr) (body : List Stmt)
  | default (body : List Stmt)

/-- A clause of a select; the default clause has no communication. -/
inductive CommClause where
  | mk (comm : Stmt) (body : List Stmt)

/-- One entry of a grouped declaration. -/
inductive Spec where
  | value (names : List Ident) (type : Expr) (values : List Expr)
  | type (name : Ident) (typeParams : Fields) (isAlias : Bool) (type : Expr)
  | imported (name : Option String) (path : String)

end

instance : Inhabited Expr := ⟨.missing⟩
instance : Inhabited Stmt := ⟨.missing⟩
instance : Inhabited Fields := ⟨.absent⟩

namespace Expr

/-- Where an expression is. -/
def pos : Expr → Pos
  | .missing => ⟨0, 0⟩
  | .mk site _ => site.pos

/-- The type of an expression, where it is known. -/
def typed : Expr → Option Typed
  | .missing => none
  | .mk site _ => site.typed

/-- Whether an expression is the predeclared value that is nothing. -/
def isNil : Expr → Bool
  | .missing => false
  | .mk site _ => site.isNil

/-- The identifier that an expression is. -/
def ident? : Expr → Option Ident
  | .mk _ (.ident id) => some id
  | _ => none

mutual

/-- The expression without the parentheses around it. -/
def unparen : Expr → Expr
  | .missing => .missing
  | .mk site form => unparenForm site form

/-- The expression of a form at a site, without the parentheses around it. -/
def unparenForm (site : Site) : Form → Expr
  | .paren x => x.unparen
  | form => .mk site form

end

end Expr

/-- The fields of a list, none when it is absent. -/
def Fields.toList : Fields → List Field
  | .absent => []
  | .list fs => fs

/-- The names of a field. -/
def Field.names : Field → List Ident
  | .mk names _ _ => names

/-- The type of a field. -/
def Field.type : Field → Expr
  | .mk _ type _ => type

/-- A function declaration. -/
structure Func where
  name : Ident
  recv : Fields
  signature : Signature
  /-- none for a function that is declared without one -/
  body : Option (List Stmt)
  /-- the type parameters of the receiver, with their constraints -/
  recvTypeParams : List (String × Ty)

/-- A declaration of a file. -/
inductive TopForm where
  | func (f : Func)
  | group (kind : DeclKind) (specs : List Spec)

/-- A declaration with its place in the file and the comment that documents it. -/
structure TopDecl where
  form : TopForm
  pos : Pos
  stop : Pos
  doc : Option (Pos × List String)
  /-- whether its entries stand in parentheses -/
  grouped : Bool

/-- An import of a file.  The path is a literal, and `pkgName` is how the package calls
itself. -/
structure Import where
  name : Option String
  path : String
  pkgName : Option String

/-- A group of comments. -/
structure CommentGroup where
  pos : Pos
  lines : List String

/-- A source file. -/
structure File where
  name : String
  pkg : String
  pkgPos : Pos
  doc : List String
  imports : List Import
  comments : List CommentGroup
  stop : Pos
  decls : List TopDecl

/-- The files of a package, and the names that are declared in it. -/
structure Package where
  path : String
  files : List File
  scope : List String

end YieldMachine.Source
