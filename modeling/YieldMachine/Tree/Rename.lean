import YieldMachine.Tree.Basic
import YieldMachine.Scope.Target

/-!
# Renaming variables in a tree

`Expr.rename` and `Stmt.rename` replace the free occurrences of renamed names.
A field target becomes a selector on the receiver, a plain target an identifier.
Nested scopes (function literals, blocks, statement headers, clauses) shadow the
names they declare and restore the outer bindings once left, so a statement hands
on the bindings that hold after it.
-/

namespace YieldMachine

/-- The expression that a target stands for. -/
def Target.toExpr (recv : String) (t : Target) : Expr :=
  if t.field then .sel (.name recv) t.name else .name t.name

/-- A name under the given bindings. -/
def Renames.apply (r : Renames) (recv x : String) : Expr :=
  match r.find? x with
  | some t => if t.field || t.name != x then t.toExpr recv else .name x
  | none => .name x

/-- The bindings after the identifiers among `es` are declared. -/
def Renames.declareExprs (r : Renames) (es : List Expr) : Renames :=
  r.shadowAll (es.filterMap Expr.name?)

/-- The bindings after the names of a field list are declared. -/
def Renames.declareFields (r : Renames) (fs : Fields) : Renames :=
  r.shadowAll fs.names

mutual

/-- Renames the free variables of an expression. -/
def Expr.rename (recv : String) (r : Renames) : Expr → Expr
  | .missing => .missing
  | .ident x true => .ident x true
  | .ident x false => r.apply recv x
  | .lit kind text => .lit kind text
  | .sel x member => .sel (x.rename recv r) member
  | .index x i => .index (x.rename recv r) (i.rename recv r)
  | .indexList x is => .indexList (x.rename recv r) (renameExprs recv r is)
  | .slice x low high max three =>
    .slice (x.rename recv r) (low.rename recv r) (high.rename recv r) (max.rename recv r) three
  | .assert x type => .assert (x.rename recv r) (type.rename recv r)
  | .call fn args spread => .call (fn.rename recv r) (renameExprs recv r args) spread
  | .star x => .star (x.rename recv r)
  | .unary op x => .unary op (x.rename recv r)
  | .binary op x y => .binary op (x.rename recv r) (y.rename recv r)
  | .paren x => .paren (x.rename recv r)
  | .pair key value => .pair (key.rename recv r) (value.rename recv r)
  | .composite type elements =>
    .composite (type.rename recv r) (renameExprs recv r elements)
  | .func (.mk typeParams params results) body =>
    let inner := (r.declareFields params).declareFields results
    .func
      (.mk (typeParams.rename recv r) (params.rename recv r) (results.rename recv r))
      (body.rename recv inner).1
  | .funcType signature => .funcType (signature.rename recv r)
  | .array length element => .array (length.rename recv r) (element.rename recv r)
  | .map key element => .map (key.rename recv r) (element.rename recv r)
  | .chan direction element => .chan direction (element.rename recv r)
  | .struct fields => .struct (fields.rename recv r)
  | .interface fields => .interface (fields.rename recv r)
  | .ellipsis element => .ellipsis (element.rename recv r)

/-- Renames each expression of a list. -/
def renameExprs (recv : String) (r : Renames) : List Expr → List Expr
  | [] => []
  | e :: es => e.rename recv r :: renameExprs recv r es

/-- Renames the types of a signature; parameter names stay. -/
def Signature.rename (recv : String) (r : Renames) : Signature → Signature
  | .mk typeParams params results =>
    .mk (typeParams.rename recv r) (params.rename recv r) (results.rename recv r)

/-- Renames the types of a field list; field names stay. -/
def Fields.rename (recv : String) (r : Renames) : Fields → Fields
  | .absent => .absent
  | .list fs => .list (renameFields recv r fs)

/-- Renames the types of the fields. -/
def renameFields (recv : String) (r : Renames) : List Field → List Field
  | [] => []
  | f :: fs => f.rename recv r :: renameFields recv r fs

/-- Renames the type of a field. -/
def Field.rename (recv : String) (r : Renames) : Field → Field
  | .mk names type tag => .mk names (type.rename recv r) tag

/-- Renames the free variables of a statement, and gives the bindings after it. -/
def Stmt.rename (recv : String) (r : Renames) : Stmt → Stmt × Renames
  | .missing => (.missing, r)
  | .empty => (.empty, r)
  | .expr x => (.expr (x.rename recv r), r)
  | .send channel value => (.send (channel.rename recv r) (value.rename recv r), r)
  | .incDec increment x => (.incDec increment (x.rename recv r), r)
  | .assign .define lhs rhs =>
    (.assign .define lhs (renameExprs recv r rhs), r.declareExprs lhs)
  | .assign kind lhs rhs =>
    (.assign kind (renameExprs recv r lhs) (renameExprs recv r rhs), r)
  | .go call => (.go (call.rename recv r), r)
  | .defer call => (.defer (call.rename recv r), r)
  | .ret results => (.ret (renameExprs recv r results), r)
  | .branch kind label => (.branch kind label, r)
  | .block body => (.block (renameStmts recv r body), r)
  | .ite init cond body other =>
    let (init, inner) := init.rename recv r
    (.ite init (cond.rename recv inner) (renameStmts recv inner body)
      (other.rename recv inner).1, r)
  | .switch init tag clauses =>
    let (init, inner) := init.rename recv r
    (.switch init (tag.rename recv inner) (renameClauses recv inner clauses), r)
  | .typeSwitch init (.assign kind lhs rhs) clauses =>
    let (init, inner) := init.rename recv r
    (.typeSwitch init (.assign kind lhs (renameExprs recv inner rhs))
      (renameClauses recv (inner.declareExprs lhs) clauses), r)
  | .typeSwitch init (.expr x) clauses =>
    let (init, inner) := init.rename recv r
    (.typeSwitch init (.expr (x.rename recv inner)) (renameClauses recv inner clauses), r)
  | .typeSwitch init guard clauses =>
    let (init, inner) := init.rename recv r
    (.typeSwitch init guard (renameClauses recv inner clauses), r)
  | .select clauses => (.select (renameComms recv r clauses), r)
  | .loop init cond post body =>
    let (init, inner) := init.rename recv r
    let (post, last) := post.rename recv inner
    (.loop init (cond.rename recv inner) post (renameStmts recv last body), r)
  | .range key value .define x body =>
    (.range key value .define (x.rename recv r)
      (renameStmts recv (r.declareExprs [key, value]) body), r)
  | .range key value kind x body =>
    (.range (key.rename recv r) (value.rename recv r) kind (x.rename recv r)
      (renameStmts recv r body), r)
  | .labeled label stmt =>
    let (stmt, after) := stmt.rename recv r
    (.labeled label stmt, after)
  | .decl kind specs =>
    let (specs, after) := renameSpecs recv r specs
    (.decl kind specs, after)

/-- Renames a statement list; each statement sees what those before it declare. -/
def renameStmts (recv : String) (r : Renames) : List Stmt → List Stmt
  | [] => []
  | s :: ss =>
    let (s, after) := s.rename recv r
    s :: renameStmts recv after ss

/-- Renames the clauses of a switch, each in a scope of its own. -/
def renameClauses (recv : String) (r : Renames) : List Clause → List Clause
  | [] => []
  | c :: cs => c.rename recv r :: renameClauses recv r cs

/-- Renames a clause of a switch. -/
def Clause.rename (recv : String) (r : Renames) : Clause → Clause
  | .case values body => .case (renameExprs recv r values) (renameStmts recv r body)
  | .default body => .default (renameStmts recv r body)

/-- Renames the clauses of a select, each in a scope of its own. -/
def renameComms (recv : String) (r : Renames) : List CommClause → List CommClause
  | [] => []
  | c :: cs => c.rename recv r :: renameComms recv r cs

/-- Renames a clause of a select; its body sees what its communication declares. -/
def CommClause.rename (recv : String) (r : Renames) : CommClause → CommClause
  | .mk comm body =>
    let (comm, inner) := comm.rename recv r
    .mk comm (renameStmts recv inner body)

/-- Renames the entries of a declaration, and gives the bindings after it. -/
def renameSpecs (recv : String) (r : Renames) : List Spec → List Spec × Renames
  | [] => ([], r)
  | s :: ss =>
    let (s, after) := s.rename recv r
    let (ss, last) := renameSpecs recv after ss
    (s :: ss, last)

/-- Renames one entry of a declaration: a value is declared after its own type
and values, a type before them. -/
def Spec.rename (recv : String) (r : Renames) : Spec → Spec × Renames
  | .value names ty values =>
    (.value names (ty.rename recv r) (renameExprs recv r values), r.shadowAll names)
  | .type name typeParams isAlias ty =>
    let inner := r.shadow name
    (.type name (typeParams.rename recv inner) isAlias (ty.rename recv inner), inner)
  | .imported name path => (.imported name path, r)

end

end YieldMachine
