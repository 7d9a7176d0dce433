import YieldMachine.Exchange.Flow

/-!
# State tables as documents
-/

namespace YieldMachine

mutual

/-- Writes an operation. -/
def Op.toDoc : Op → Doc
  | .exec stmt => .tagged "exec" [stmt.toDoc .full]
  | .jump goal value => .tagged "jump" [.nat goal, value.toDoc .full]
  | .finish => .tagged "finish" []
  | .when cond ops => .tagged "branch" [cond.toDoc .full, .list (opsToDocs ops), .null]
  | .choose cond ops others =>
    .tagged "branch" [cond.toDoc .full, .list (opsToDocs ops), .list (opsToDocs others)]
  | .dispatch tag arms => .tagged "dispatch" [tag.toDoc .full, .list (armsToDocs arms)]

/-- Writes a list of operations. -/
def opsToDocs : List Op → List Doc
  | [] => []
  | op :: ops => op.toDoc :: opsToDocs ops

/-- Writes the arms of a dispatch. -/
def armsToDocs : List Arm → List Doc
  | [] => []
  | arm :: arms => arm.toDoc :: armsToDocs arms

/-- Writes an arm of a dispatch. -/
def Arm.toDoc : Arm → Doc
  | .case values ops => .list [.exprs values, .list (opsToDocs ops)]
  | .default ops => .list [.null, .list (opsToDocs ops)]

end

mutual

/-- Reads an operation. -/
def Op.ofDoc? : Doc → Option Op
  | .list [.text "exec", stmt] => return .exec (← Stmt.ofDoc? stmt)
  | .list [.text "jump", goal, value] => return .jump (← goal.nat?) (← Expr.ofDoc? value)
  | .list [.text "finish"] => some .finish
  | .list [.text "branch", cond, .list ops, .null] =>
    return .when (← Expr.ofDoc? cond) (← opsOfDocs? ops)
  | .list [.text "branch", cond, .list ops, .list others] =>
    return .choose (← Expr.ofDoc? cond) (← opsOfDocs? ops) (← opsOfDocs? others)
  | .list [.text "dispatch", tag, .list arms] =>
    return .dispatch (← Expr.ofDoc? tag) (← armsOfDocs? arms)
  | _ => none

/-- Reads a list of operations. -/
def opsOfDocs? : List Doc → Option (List Op)
  | [] => some []
  | d :: ds => return (← Op.ofDoc? d) :: (← opsOfDocs? ds)

/-- Reads the arms of a dispatch. -/
def armsOfDocs? : List Doc → Option (List Arm)
  | [] => some []
  | d :: ds => return (← Arm.ofDoc? d) :: (← armsOfDocs? ds)

/-- Reads an arm of a dispatch. -/
def Arm.ofDoc? : Doc → Option Arm
  | .list [.null, .list ops] => return .default (← opsOfDocs? ops)
  | .list [.list values, .list ops] => return .case (← exprsOfDocs? values) (← opsOfDocs? ops)
  | _ => none

end

/-- Writes the states of a table, each with its id. -/
def statesToDocs : Nat → List (List Op) → List Doc
  | _, [] => []
  | id, ops :: states => .list [.nat id, .list (opsToDocs ops)] :: statesToDocs (id + 1) states

/-- Writes a holder. -/
def Holder.toDoc (h : Holder) : Doc :=
  .record
    [("name", .text h.name), ("recv", .text h.recv), ("runtime", .text h.runtime),
      ("elem", h.elem.toDoc .full), ("typeParams", h.typeParams.toDoc .full),
      ("fields", .listOf (fun (name, type) => .list [.text name, type.toDoc .full]) h.fields),
      ("params", .texts h.params), ("types", .listOf (Decl.toDoc .full) h.types),
      ("states", .list (statesToDocs 0 h.states))]

end YieldMachine
