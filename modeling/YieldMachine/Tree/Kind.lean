import YieldMachine.Tree.Basic

/-!
# The names of node kinds

Messages about a construct that is not supported name the kind of its node.
-/

namespace YieldMachine

/-- The name of the kind of an expression. -/
def Expr.kind : Expr → String
  | .missing => "<nil>"
  | .ident .. => "*ast.Ident"
  | .lit .. => "*ast.BasicLit"
  | .sel .. => "*ast.SelectorExpr"
  | .index .. => "*ast.IndexExpr"
  | .indexList .. => "*ast.IndexListExpr"
  | .slice .. => "*ast.SliceExpr"
  | .assert .. => "*ast.TypeAssertExpr"
  | .call .. => "*ast.CallExpr"
  | .star .. => "*ast.StarExpr"
  | .unary .. => "*ast.UnaryExpr"
  | .binary .. => "*ast.BinaryExpr"
  | .paren .. => "*ast.ParenExpr"
  | .pair .. => "*ast.KeyValueExpr"
  | .composite .. => "*ast.CompositeLit"
  | .func .. => "*ast.FuncLit"
  | .funcType .. => "*ast.FuncType"
  | .array .. => "*ast.ArrayType"
  | .map .. => "*ast.MapType"
  | .chan .. => "*ast.ChanType"
  | .struct .. => "*ast.StructType"
  | .interface .. => "*ast.InterfaceType"
  | .ellipsis .. => "*ast.Ellipsis"

/-- The name of the kind of a statement. -/
def Stmt.kind : Stmt → String
  | .missing => "<nil>"
  | .empty => "*ast.EmptyStmt"
  | .expr .. => "*ast.ExprStmt"
  | .send .. => "*ast.SendStmt"
  | .incDec .. => "*ast.IncDecStmt"
  | .assign .. => "*ast.AssignStmt"
  | .go .. => "*ast.GoStmt"
  | .defer .. => "*ast.DeferStmt"
  | .ret .. => "*ast.ReturnStmt"
  | .branch .. => "*ast.BranchStmt"
  | .block .. => "*ast.BlockStmt"
  | .ite .. => "*ast.IfStmt"
  | .switch .. => "*ast.SwitchStmt"
  | .typeSwitch .. => "*ast.TypeSwitchStmt"
  | .select .. => "*ast.SelectStmt"
  | .loop .. => "*ast.ForStmt"
  | .range .. => "*ast.RangeStmt"
  | .labeled .. => "*ast.LabeledStmt"
  | .decl .. => "*ast.DeclStmt"

end YieldMachine
