import YieldMachine.Source.Tree

/-!
# Trees of checked sources

`erase` forgets sites and what identifiers denote.  The keys of struct literals look
like variables but name fields, so that they become kept names.
-/

namespace YieldMachine.Source

/-- Whether an expression has the type of a struct. -/
def Site.isStruct (s : Site) : Bool :=
  match s.typed with
  | some ⟨_, .struct⟩ => true
  | _ => false

/-- The names of identifiers. -/
def identNames (ids : List Ident) : List String := ids.map (·.name)

mutual

/-- The tree of an expression. -/
def Expr.erase : Expr → YieldMachine.Expr
  | .missing => .missing
  | .mk site form => form.erase site.isStruct

/-- The tree of a form.  `keyed` says whether keys of its elements name fields. -/
def Form.erase (keyed : Bool) : Form → YieldMachine.Expr
  | .ident id => .name id.name
  | .lit kind text => .lit kind text
  | .sel x member => .sel x.erase member.name
  | .index x i => .index x.erase i.erase
  | .indexList x is => .indexList x.erase (eraseExprs is)
  | .slice x low high max three => .slice x.erase low.erase high.erase max.erase three
  | .assert x ty => .assert x.erase ty.erase
  | .call fn args spread => .call fn.erase (eraseExprs args) spread
  | .star x => .star x.erase
  | .unary op x => .unary op x.erase
  | .binary op x y => .binary op x.erase y.erase
  | .paren x => .paren x.erase
  | .pair key value => .pair key.erase value.erase
  | .composite ty elements => .composite ty.erase (eraseElements keyed elements)
  | .func signature body => .func signature.erase (.block (eraseStmts body))
  | .funcType signature => .funcType signature.erase
  | .array length element => .array length.erase element.erase
  | .map key element => .map key.erase element.erase
  | .chan direction element => .chan direction element.erase
  | .struct fields => .struct fields.erase
  | .interface fields => .interface fields.erase
  | .ellipsis element => .ellipsis element.erase

/-- The trees of expressions. -/
def eraseExprs : List Expr → List YieldMachine.Expr
  | [] => []
  | e :: es => e.erase :: eraseExprs es

/-- The trees of the elements of a literal; identifiers before a colon are kept names
in a keyed literal. -/
def eraseElements (keyed : Bool) : List Expr → List YieldMachine.Expr
  | [] => []
  | .mk _ (.pair (.mk _ (.ident id)) value) :: es =>
    .pair (.ident id.name keyed) value.erase :: eraseElements keyed es
  | e :: es => e.erase :: eraseElements keyed es

/-- The tree of a signature. -/
def Signature.erase : Signature → YieldMachine.Signature
  | .mk typeParams params results => .mk typeParams.erase params.erase results.erase

/-- The tree of a field list. -/
def Fields.erase : Fields → YieldMachine.Fields
  | .absent => .absent
  | .list fs => .list (eraseFields fs)

/-- The trees of fields. -/
def eraseFields : List Field → List YieldMachine.Field
  | [] => []
  | f :: fs => f.erase :: eraseFields fs

/-- The tree of a field. -/
def Field.erase : Field → YieldMachine.Field
  | .mk names ty tag => .mk (identNames names) ty.erase tag

/-- The tree of a statement. -/
def Stmt.erase : Stmt → YieldMachine.Stmt
  | .missing => .missing
  | .mk _ form => form.erase

/-- The tree of a form of statement. -/
def StmtForm.erase : StmtForm → YieldMachine.Stmt
  | .empty => .empty
  | .expr x => .expr x.erase
  | .send channel value => .send channel.erase value.erase
  | .incDec increment x => .incDec increment x.erase
  | .assign kind lhs rhs => .assign kind (eraseExprs lhs) (eraseExprs rhs)
  | .go call => .go call.erase
  | .defer call => .defer call.erase
  | .ret results => .ret (eraseExprs results)
  | .branch kind label => .branch kind (label.map (·.name))
  | .block body => .block (eraseStmts body)
  | .ite init cond body other => .ite init.erase cond.erase (eraseStmts body) other.erase
  | .switch init tag clauses => .switch init.erase tag.erase (eraseClauses clauses)
  | .typeSwitch init guard clauses => .typeSwitch init.erase guard.erase (eraseClauses clauses)
  | .select clauses => .select (eraseComms clauses)
  | .loop init cond post body => .loop init.erase cond.erase post.erase (eraseStmts body)
  | .range key value kind x body => .range key.erase value.erase kind x.erase (eraseStmts body)
  | .labeled label stmt => .labeled label.name stmt.erase
  | .decl kind specs => .decl kind (eraseSpecs specs)

/-- The trees of statements. -/
def eraseStmts : List Stmt → List YieldMachine.Stmt
  | [] => []
  | s :: ss => s.erase :: eraseStmts ss

/-- The trees of the clauses of a switch. -/
def eraseClauses : List Clause → List YieldMachine.Clause
  | [] => []
  | c :: cs => c.erase :: eraseClauses cs

/-- The tree of a clause of a switch. -/
def Clause.erase : Clause → YieldMachine.Clause
  | .case values body => .case (eraseExprs values) (eraseStmts body)
  | .default body => .default (eraseStmts body)

/-- The trees of the clauses of a select. -/
def eraseComms : List CommClause → List YieldMachine.CommClause
  | [] => []
  | c :: cs => c.erase :: eraseComms cs

/-- The tree of a clause of a select. -/
def CommClause.erase : CommClause → YieldMachine.CommClause
  | .mk comm body => .mk comm.erase (eraseStmts body)

/-- The trees of the entries of a declaration. -/
def eraseSpecs : List Spec → List YieldMachine.Spec
  | [] => []
  | s :: ss => s.erase :: eraseSpecs ss

/-- The tree of an entry of a declaration. -/
def Spec.erase : Spec → YieldMachine.Spec
  | .value names ty values => .value (identNames names) ty.erase (eraseExprs values)
  | .type name typeParams isAlias ty => .type name.name typeParams.erase isAlias ty.erase
  | .imported name path => .imported name path

end

end YieldMachine.Source
