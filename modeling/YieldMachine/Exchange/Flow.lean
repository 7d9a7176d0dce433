import YieldMachine.Exchange.Tree
import YieldMachine.Table.Basic

/-!
# Generator bodies as documents
-/

namespace YieldMachine

/-- Writes the type of a declared name. -/
def DeclType.toDoc : DeclType → Doc
  | .reused => .null
  | .own type => type.toDoc .full
  | .asFirst => .text "="

/-- Reads the type of a declared name. -/
def DeclType.ofDoc? : Doc → Option DeclType
  | .null => some .reused
  | .text "=" => some .asFirst
  | d => (Expr.ofDoc? d).map .own

/-- Writes a list of expressions. -/
def Doc.exprs (es : List Expr) : Doc := .list (exprsToDocs .full es)

mutual

/-- Writes a statement of a generator body. -/
def Flow.toDoc : Flow → Doc
  | .missing => .null
  | .block body => .tagged "Block" [.list (flowsToDocs body)]
  | .declare d =>
    .tagged "VarDecl"
      [.texts d.names, .listOf DeclType.toDoc d.types, .exprs d.values, .bool d.define]
  | .yield value => .tagged "Yield" [value.toDoc .full]
  | .finish => .tagged "Return" []
  | .ite cond body other =>
    .tagged "If" [cond.toDoc .full, .list (flowsToDocs body), other.toDoc]
  | .while cond body => .tagged "While" [cond.toDoc .full, .list (flowsToDocs body)]
  | .doWhile body cond => .tagged "DoWhile" [.list (flowsToDocs body), cond.toDoc .full]
  | .loop init cond post body =>
    .tagged "For" [init.toDoc, cond.toDoc .full, post.toDoc, .list (flowsToDocs body)]
  | .walk w body =>
    .tagged "ForEach"
      [w.key.toDoc .full, w.value.toDoc .full, .bool w.define, w.keyType.toDoc .full,
        w.valueType.toDoc .full, w.x.toDoc .full, .list (flowsToDocs body)]
  | .switch tag cases => .tagged "Switch" [tag.toDoc .full, .list (casesToDocs cases)]
  | .labeled label stmt => .tagged "Labeled" [.text label, stmt.toDoc]
  | .brk label => .tagged "Break" [.text label]
  | .cont label => .tagged "Continue" [.text label]
  | .lift d => .tagged "TypeDecl" [d.toDoc .full]
  | .simple stmt => .tagged "Simple" [stmt.toDoc .full]

/-- Writes a statement list. -/
def flowsToDocs : List Flow → List Doc
  | [] => []
  | s :: ss => s.toDoc :: flowsToDocs ss

/-- Writes the cases of a switch. -/
def casesToDocs : List FlowCase → List Doc
  | [] => []
  | c :: cs => c.toDoc :: casesToDocs cs

/-- Writes a case of a switch. -/
def FlowCase.toDoc : FlowCase → Doc
  | .case values body => .list [.exprs values, .list (flowsToDocs body)]
  | .default body => .list [.null, .list (flowsToDocs body)]

end

mutual

/-- Reads a statement of a generator body. -/
def Flow.ofDoc? : Doc → Option Flow
  | .null => some .missing
  | .list [.text "Block", .list body] => return .block (← flowsOfDocs? body)
  | .list [.text "VarDecl", names, types, .list values, .bool define] =>
    return .declare
      ⟨← names.names?, ← types.listOf? DeclType.ofDoc?, ← exprsOfDocs? values, define⟩
  | .list [.text "Yield", value] => return .yield (← Expr.ofDoc? value)
  | .list [.text "Return"] => some .finish
  | .list [.text "If", cond, .list body, other] =>
    return .ite (← Expr.ofDoc? cond) (← flowsOfDocs? body) (← Flow.ofDoc? other)
  | .list [.text "While", cond, .list body] =>
    return .while (← Expr.ofDoc? cond) (← flowsOfDocs? body)
  | .list [.text "DoWhile", .list body, cond] =>
    return .doWhile (← flowsOfDocs? body) (← Expr.ofDoc? cond)
  | .list [.text "For", init, cond, post, .list body] =>
    return .loop (← Flow.ofDoc? init) (← Expr.ofDoc? cond) (← Flow.ofDoc? post)
      (← flowsOfDocs? body)
  | .list [.text "ForEach", key, value, .bool define, keyType, valueType, x, .list body] =>
    return .walk
      ⟨← Expr.ofDoc? key, ← Expr.ofDoc? value, define, ← Expr.ofDoc? keyType,
        ← Expr.ofDoc? valueType, ← Expr.ofDoc? x⟩
      (← flowsOfDocs? body)
  | .list [.text "Switch", tag, .list cases] =>
    return .switch (← Expr.ofDoc? tag) (← casesOfDocs? cases)
  | .list [.text "Labeled", .text label, stmt] => return .labeled label (← Flow.ofDoc? stmt)
  | .list [.text "Break", .text label] => some (.brk label)
  | .list [.text "Continue", .text label] => some (.cont label)
  | .list [.text "TypeDecl", d] => return .lift (← Decl.ofDoc? d)
  | .list [.text "Simple", stmt] => return .simple (← Stmt.ofDoc? stmt)
  | _ => none

/-- Reads a statement list. -/
def flowsOfDocs? : List Doc → Option (List Flow)
  | [] => some []
  | d :: ds => return (← Flow.ofDoc? d) :: (← flowsOfDocs? ds)

/-- Reads the cases of a switch. -/
def casesOfDocs? : List Doc → Option (List FlowCase)
  | [] => some []
  | d :: ds => return (← FlowCase.ofDoc? d) :: (← casesOfDocs? ds)

/-- Reads a case of a switch. -/
def FlowCase.ofDoc? : Doc → Option FlowCase
  | .list [.null, .list body] => return .default (← flowsOfDocs? body)
  | .list [.list values, .list body] =>
    return .case (← exprsOfDocs? values) (← flowsOfDocs? body)
  | _ => none

end

/-- Writes a generator function. -/
def Routine.toDoc (fn : Routine) : Doc :=
  .record
    [("name", .text fn.name), ("recv", .option (Field.toDoc .full) fn.recv),
      ("typeParams", fn.typeParams.toDoc .full), ("params", fn.params.toDoc .full),
      ("elem", fn.elem.toDoc .full), ("runtime", .text fn.runtime),
      ("body", .list (flowsToDocs fn.body))]

/-- Reads a generator function. -/
def Routine.ofDoc? (d : Doc) : Option Routine := do
  return {
    name := ← (d.field "name").text?
    recv := ← (d.field "recv").option? Field.ofDoc?
    typeParams := ← Fields.ofDoc? (d.field "typeParams")
    params := ← Fields.ofDoc? (d.field "params")
    elem := ← Expr.ofDoc? (d.field "elem")
    runtime := ← (d.field "runtime").text?
    body := ← (d.field "body").listOf? Flow.ofDoc? }

end YieldMachine
