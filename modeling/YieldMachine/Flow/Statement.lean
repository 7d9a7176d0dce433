import YieldMachine.Flow.Basic

/-!
# Generator bodies as plain statements

`Flow.toStmt?` turns a statement of a generator body back into one tree with the
same behaviour.  It is used for statements that run inside a single state.  There
is no tree for a body in which a statement is missing.
-/

namespace YieldMachine

/-- The hidden variable of a loop that tests its condition last. -/
def doName : String := "__do"

/-- The hidden variable that holds the iterator of a loop. -/
def iteratorName : String := "__it"

/-- The tree of a declaration. -/
def VarDecl.toStmt (d : VarDecl) : Stmt :=
  if d.define then .assign .define (d.names.map .name) d.values
  else .decl .var [.value d.names d.sharedType d.values]

/-- A branch statement; an empty label stands for none. -/
def branchTo (kind : BranchKind) (label : String) : Stmt :=
  .branch kind (if label = "" then none else some label)

/-- An expression, or the blank name where nothing is written. -/
def Expr.orBlank : Expr → Expr
  | .missing => .name "_"
  | e => e

/-- Whether an assignment to the expression is discarded. -/
def Expr.isBlank : Expr → Bool
  | .missing => true
  | e => e.isName "_"

/-- A call of a method without arguments. -/
def Expr.method (x : Expr) (method : String) : Expr := .call (.sel x method) [] false

/-- The statement that takes the next key and value from the hidden iterator. -/
def Walk.take (w : Walk) : Stmt :=
  let kind :=
    if w.define && !(w.key.isBlank && w.value.isBlank) then AssignKind.define else .set
  .assign kind [w.key.orBlank, w.value.orBlank] [(Expr.name iteratorName).method "Next"]

/-- Whether a case body leaves its switch on its own. -/
def endsCase (body : List Flow) : Bool :=
  match body.getLast? with
  | some (.brk _) | some (.cont _) | some .finish | some (.yield _) => true
  | _ => false

/-- Whether the last statement is a break without a label. -/
def endsInBreak (body : List Flow) : Bool :=
  match body.getLast? with
  | some (.brk label) => label = ""
  | _ => false

/-- The statements of a case, given their trees: a final plain break is dropped, and
a case that runs on is told so unless it is the last one. -/
def closeCase (body : List Flow) (stmts : List Stmt) (last : Bool) : List Stmt :=
  if endsInBreak body then stmts.dropLast
  else if endsCase body || last then stmts
  else stmts ++ [.branch .fallthrough none]

mutual

/-- The tree of a statement, if no statement in it is missing. -/
def Flow.toStmt? : Flow → Option Stmt
  | .missing => none
  | .block body => return .block (← toStmts? body)
  | .declare d => some d.toStmt
  | .yield value => some (.ret [.call (.name "Yield") [value] false])
  | .finish => some (.ret [.name "nil"])
  | .ite cond body .missing => return .ite .missing cond (← toStmts? body) .missing
  | .ite cond body other =>
    return .ite .missing cond (← toStmts? body) (← other.toStmt?)
  | .while cond body => return .loop .missing cond .missing (← toStmts? body)
  | .doWhile body cond =>
    return .loop
      (.assign .define [.name doName] [.name "true"])
      (.name doName)
      (.assign .set [.name doName] [if cond.isMissing then .name "true" else cond])
      (← toStmts? body)
  | .loop .missing cond .missing body =>
    return .loop .missing cond .missing (← toStmts? body)
  | .loop .missing cond post body =>
    return .loop .missing cond (← post.toStmt?) (← toStmts? body)
  | .loop init cond .missing body =>
    return .loop (← init.toStmt?) cond .missing (← toStmts? body)
  | .loop init cond post body =>
    return .loop (← init.toStmt?) cond (← post.toStmt?) (← toStmts? body)
  | .walk header body =>
    return .loop
      (.assign .define [.name iteratorName] [header.x])
      ((Expr.name iteratorName).method "HasNext")
      .missing
      (header.take :: (← toStmts? body))
  | .switch tag cases => return .switch .missing tag (← toClauses? cases)
  | .labeled label stmt => return .labeled label (← stmt.toStmt?)
  | .brk label => some (branchTo .brk label)
  | .cont label => some (branchTo .cont label)
  | .lift d => some (.decl d.kind d.specs)
  | .simple stmt => some stmt

/-- The trees of a statement list. -/
def toStmts? : List Flow → Option (List Stmt)
  | [] => some []
  | s :: ss => return (← s.toStmt?) :: (← toStmts? ss)

/-- The clauses of a switch. -/
def toClauses? : List FlowCase → Option (List Clause)
  | [] => some []
  | c :: cs => return (← c.toClause? cs.isEmpty) :: (← toClauses? cs)

/-- The clause of one case. -/
def FlowCase.toClause? (last : Bool) : FlowCase → Option Clause
  | .case values body => return .case values (closeCase body (← toStmts? body) last)
  | .default body => return .default (closeCase body (← toStmts? body) last)

end

end YieldMachine
