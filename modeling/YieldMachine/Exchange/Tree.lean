import YieldMachine.Exchange.Document
import YieldMachine.Text.Number
import YieldMachine.Tree.Token

/-!
# Trees as documents

A node is a list that starts with its tag; `null` stands where nothing is written.
`toDoc` writes a tree, `ofDoc?` reads one.
-/

namespace YieldMachine

/-- How trees are written: in full, or without parentheses, empty statements, empty
results and the mark of kept names, and with plain numbers, none of which changes what a
tree says. -/
inductive TreeStyle where
  | full
  | essential
  deriving DecidableEq

/-- The text of a literal. -/
def TreeStyle.literal (style : TreeStyle) (kind : LitKind) (text : String) : String :=
  match style, kind with
  | .full, _ => text
  | .essential, .char => text
  | .essential, .string => text
  | .essential, _ => plainNumber text

/-- Chooses how results are written: as `full`, unless there are none. -/
def TreeStyle.resultsDoc (style : TreeStyle) (results : Fields) (full : Doc) : Doc :=
  match style, results with
  | .essential, .list [] => .null
  | _, _ => full

/-- The number of a channel direction. -/
def ChanDir.number : ChanDir → Nat
  | .send => 1
  | .receive => 2
  | .both => 3

/-- The channel direction with a number. -/
def ChanDir.ofNumber? : Nat → Option ChanDir
  | 1 => some .send
  | 2 => some .receive
  | 3 => some .both
  | _ => none

mutual

/-- Writes an expression. -/
def Expr.toDoc (style : TreeStyle) : Expr → Doc
  | .missing => .null
  | .ident x kept =>
    .tagged (if kept && style == .full then "keep" else "id") [.text x]
  | .lit kind text => .tagged "lit" [.text kind.text, .text (style.literal kind text)]
  | .sel x member => .tagged "sel" [x.toDoc style, .text member]
  | .index x i => .tagged "index" [x.toDoc style, i.toDoc style]
  | .indexList x is => .tagged "indexlist" [x.toDoc style, .list (exprsToDocs style is)]
  | .slice x low high max three =>
    .tagged "slice"
      [x.toDoc style, low.toDoc style, high.toDoc style, max.toDoc style, .bool three]
  | .assert x ty => .tagged "assert" [x.toDoc style, ty.toDoc style]
  | .call fn args spread =>
    .tagged "call" [fn.toDoc style, .list (exprsToDocs style args), .bool spread]
  | .star x => .tagged "star" [x.toDoc style]
  | .unary op x => .tagged "un" [.text op.text, x.toDoc style]
  | .binary op x y => .tagged "bin" [.text op.text, x.toDoc style, y.toDoc style]
  | .paren x =>
    match style with
    | .full => .tagged "paren" [x.toDoc style]
    | .essential => x.toDoc style
  | .pair key value => .tagged "kv" [key.toDoc style, value.toDoc style]
  | .composite ty elements =>
    .tagged "comp" [ty.toDoc style, .list (exprsToDocs style elements)]
  | .func signature body => .tagged "func" [signature.toDoc style, body.toDoc style]
  | .funcType signature => signature.toDoc style
  | .array length element => .tagged "array" [length.toDoc style, element.toDoc style]
  | .map key element => .tagged "map" [key.toDoc style, element.toDoc style]
  | .chan direction element =>
    .tagged "chan" [.nat direction.number, element.toDoc style]
  | .struct fields => .tagged "struct" [fields.toDoc style]
  | .interface fields => .tagged "iface" [fields.toDoc style]
  | .ellipsis element => .tagged "ellipsis" [element.toDoc style]

/-- Writes a list of expressions. -/
def exprsToDocs (style : TreeStyle) : List Expr → List Doc
  | [] => []
  | e :: es => e.toDoc style :: exprsToDocs style es

/-- Writes a signature. -/
def Signature.toDoc (style : TreeStyle) : Signature → Doc
  | .mk typeParams params results =>
    .tagged "functype"
      [typeParams.toDoc style, params.toDoc style, style.resultsDoc results (results.toDoc style)]

/-- Writes a field list. -/
def Fields.toDoc (style : TreeStyle) : Fields → Doc
  | .absent => .null
  | .list fs => .list (fieldsToDocs style fs)

/-- Writes the fields of a list. -/
def fieldsToDocs (style : TreeStyle) : List Field → List Doc
  | [] => []
  | f :: fs => f.toDoc style :: fieldsToDocs style fs

/-- Writes a field. -/
def Field.toDoc (style : TreeStyle) : Field → Doc
  | .mk names ty tag => .list [.texts names, ty.toDoc style, .option .text tag]

/-- Writes a statement. -/
def Stmt.toDoc (style : TreeStyle) : Stmt → Doc
  | .missing => .null
  | .empty => .tagged "empty" []
  | .expr x => .tagged "expr" [x.toDoc style]
  | .send channel value => .tagged "send" [channel.toDoc style, value.toDoc style]
  | .incDec increment x =>
    .tagged "incdec" [.text (if increment then "++" else "--"), x.toDoc style]
  | .assign kind lhs rhs =>
    .tagged "assign"
      [.text kind.text, .list (exprsToDocs style lhs), .list (exprsToDocs style rhs)]
  | .go call => .tagged "go" [call.toDoc style]
  | .defer call => .tagged "defer" [call.toDoc style]
  | .ret results => .tagged "return" [.list (exprsToDocs style results)]
  | .branch kind label => .tagged "branch" [.text kind.text, .option .text label]
  | .block body => .tagged "block" [.list (stmtsToDocs style body)]
  | .ite init cond body other =>
    .tagged "if" [init.toDoc style, cond.toDoc style,
      .tagged "block" [.list (stmtsToDocs style body)], other.toDoc style]
  | .switch init tag clauses =>
    .tagged "switch" [init.toDoc style, tag.toDoc style, .list (clausesToDocs style clauses)]
  | .typeSwitch init guard clauses =>
    .tagged "typeswitch"
      [init.toDoc style, guard.toDoc style, .list (clausesToDocs style clauses)]
  | .select clauses => .tagged "select" [.list (commsToDocs style clauses)]
  | .loop init cond post body =>
    .tagged "for" [init.toDoc style, cond.toDoc style, post.toDoc style,
      .tagged "block" [.list (stmtsToDocs style body)]]
  | .range key value kind x body =>
    .tagged "range" [key.toDoc style, value.toDoc style, .text kind.text, x.toDoc style,
      .tagged "block" [.list (stmtsToDocs style body)]]
  | .labeled label stmt => .tagged "labeled" [.text label, stmt.toDoc style]
  | .decl kind specs =>
    .tagged "decl" [.tagged "gen" [.text kind.text, .list (specsToDocs style specs)]]

/-- Writes a statement list. -/
def stmtsToDocs (style : TreeStyle) : List Stmt → List Doc
  | [] => []
  | .empty :: ss =>
    match style with
    | .full => Doc.tagged "empty" [] :: stmtsToDocs style ss
    | .essential => stmtsToDocs style ss
  | s :: ss => s.toDoc style :: stmtsToDocs style ss

/-- Writes the clauses of a switch. -/
def clausesToDocs (style : TreeStyle) : List Clause → List Doc
  | [] => []
  | c :: cs => c.toDoc style :: clausesToDocs style cs

/-- Writes a clause of a switch. -/
def Clause.toDoc (style : TreeStyle) : Clause → Doc
  | .case values body =>
    .tagged "case" [.list (exprsToDocs style values), .list (stmtsToDocs style body)]
  | .default body => .tagged "case" [.null, .list (stmtsToDocs style body)]

/-- Writes the clauses of a select. -/
def commsToDocs (style : TreeStyle) : List CommClause → List Doc
  | [] => []
  | c :: cs => c.toDoc style :: commsToDocs style cs

/-- Writes a clause of a select. -/
def CommClause.toDoc (style : TreeStyle) : CommClause → Doc
  | .mk comm body => .tagged "comm" [comm.toDoc style, .list (stmtsToDocs style body)]

/-- Writes the entries of a declaration. -/
def specsToDocs (style : TreeStyle) : List Spec → List Doc
  | [] => []
  | s :: ss => s.toDoc style :: specsToDocs style ss

/-- Writes an entry of a declaration. -/
def Spec.toDoc (style : TreeStyle) : Spec → Doc
  | .value names ty values =>
    .tagged "value" [.texts names, ty.toDoc style, .list (exprsToDocs style values)]
  | .type name typeParams isAlias ty =>
    .tagged "type" [.text name, typeParams.toDoc style, .bool isAlias, ty.toDoc style]
  | .imported name path => .tagged "import" [.option .text name, .text path]

end

/-- Writes a declaration. -/
def Decl.toDoc (style : TreeStyle) (d : Decl) : Doc :=
  .tagged "gen" [.text d.kind.text, .list (specsToDocs style d.specs)]

mutual

/-- Reads an expression. -/
def Expr.ofDoc? : Doc → Option Expr
  | .null => some .missing
  | .list [.text "id", .text x] => some (.ident x false)
  | .list [.text "keep", .text x] => some (.ident x true)
  | .list [.text "lit", .text kind, .text text] => return .lit (← LitKind.ofText? kind) text
  | .list [.text "sel", x, .text member] => return .sel (← Expr.ofDoc? x) member
  | .list [.text "index", x, i] => return .index (← Expr.ofDoc? x) (← Expr.ofDoc? i)
  | .list [.text "indexlist", x, .list is] =>
    return .indexList (← Expr.ofDoc? x) (← exprsOfDocs? is)
  | .list [.text "slice", x, low, high, max, .bool three] =>
    return .slice (← Expr.ofDoc? x) (← Expr.ofDoc? low) (← Expr.ofDoc? high)
      (← Expr.ofDoc? max) three
  | .list [.text "assert", x, ty] => return .assert (← Expr.ofDoc? x) (← Expr.ofDoc? ty)
  | .list [.text "call", fn, .list args, .bool spread] =>
    return .call (← Expr.ofDoc? fn) (← exprsOfDocs? args) spread
  | .list [.text "star", x] => return .star (← Expr.ofDoc? x)
  | .list [.text "un", .text op, x] => return .unary (← UnaryOp.ofText? op) (← Expr.ofDoc? x)
  | .list [.text "bin", .text op, x, y] =>
    return .binary (← BinaryOp.ofText? op) (← Expr.ofDoc? x) (← Expr.ofDoc? y)
  | .list [.text "paren", x] => return .paren (← Expr.ofDoc? x)
  | .list [.text "kv", key, value] =>
    return .pair (← Expr.ofDoc? key) (← Expr.ofDoc? value)
  | .list [.text "comp", ty, .list elements] =>
    return .composite (← Expr.ofDoc? ty) (← exprsOfDocs? elements)
  | .list [.text "func", signature, body] =>
    return .func (← Signature.ofDoc? signature) (← Stmt.ofDoc? body)
  | .list [.text "functype", typeParams, params, results] =>
    return .funcType
      (.mk (← Fields.ofDoc? typeParams) (← Fields.ofDoc? params) (← Fields.ofDoc? results))
  | .list [.text "array", length, element] =>
    return .array (← Expr.ofDoc? length) (← Expr.ofDoc? element)
  | .list [.text "map", key, element] =>
    return .map (← Expr.ofDoc? key) (← Expr.ofDoc? element)
  | .list [.text "chan", .int direction, element] =>
    return .chan (← ChanDir.ofNumber? direction.toNat) (← Expr.ofDoc? element)
  | .list [.text "struct", fields] => return .struct (← Fields.ofDoc? fields)
  | .list [.text "iface", fields] => return .interface (← Fields.ofDoc? fields)
  | .list [.text "ellipsis", element] => return .ellipsis (← Expr.ofDoc? element)
  | _ => none

/-- Reads a list of expressions. -/
def exprsOfDocs? : List Doc → Option (List Expr)
  | [] => some []
  | d :: ds => return (← Expr.ofDoc? d) :: (← exprsOfDocs? ds)

/-- Reads a signature. -/
def Signature.ofDoc? : Doc → Option Signature
  | .list [.text "functype", typeParams, params, results] =>
    return .mk (← Fields.ofDoc? typeParams) (← Fields.ofDoc? params) (← Fields.ofDoc? results)
  | _ => none

/-- Reads a field list. -/
def Fields.ofDoc? : Doc → Option Fields
  | .null => some .absent
  | .list fs => return .list (← fieldsOfDocs? fs)
  | _ => none

/-- Reads the fields of a list. -/
def fieldsOfDocs? : List Doc → Option (List Field)
  | [] => some []
  | d :: ds => return (← Field.ofDoc? d) :: (← fieldsOfDocs? ds)

/-- Reads a field. -/
def Field.ofDoc? : Doc → Option Field
  | .list [names, ty, tag] =>
    return .mk (← names.names?) (← Expr.ofDoc? ty) (← tag.option? Doc.text?)
  | _ => none

/-- Reads a statement. -/
def Stmt.ofDoc? : Doc → Option Stmt
  | .null => some .missing
  | .list [.text "empty"] => some .empty
  | .list [.text "expr", x] => return .expr (← Expr.ofDoc? x)
  | .list [.text "send", channel, value] =>
    return .send (← Expr.ofDoc? channel) (← Expr.ofDoc? value)
  | .list [.text "incdec", .text op, x] => return .incDec (op == "++") (← Expr.ofDoc? x)
  | .list [.text "assign", .text op, .list lhs, .list rhs] =>
    return .assign (← AssignKind.ofText? op) (← exprsOfDocs? lhs) (← exprsOfDocs? rhs)
  | .list [.text "go", call] => return .go (← Expr.ofDoc? call)
  | .list [.text "defer", call] => return .defer (← Expr.ofDoc? call)
  | .list [.text "return", .list results] => return .ret (← exprsOfDocs? results)
  | .list [.text "branch", .text kind, label] =>
    return .branch (← BranchKind.ofText? kind) (← label.option? Doc.text?)
  | .list [.text "block", .list body] => return .block (← stmtsOfDocs? body)
  | .list [.text "if", init, cond, .list [.text "block", .list body], other] =>
    return .ite (← Stmt.ofDoc? init) (← Expr.ofDoc? cond) (← stmtsOfDocs? body)
      (← Stmt.ofDoc? other)
  | .list [.text "switch", init, tag, .list clauses] =>
    return .switch (← Stmt.ofDoc? init) (← Expr.ofDoc? tag) (← clausesOfDocs? clauses)
  | .list [.text "typeswitch", init, guard, .list clauses] =>
    return .typeSwitch (← Stmt.ofDoc? init) (← Stmt.ofDoc? guard) (← clausesOfDocs? clauses)
  | .list [.text "select", .list clauses] => return .select (← commsOfDocs? clauses)
  | .list [.text "for", init, cond, post, .list [.text "block", .list body]] =>
    return .loop (← Stmt.ofDoc? init) (← Expr.ofDoc? cond) (← Stmt.ofDoc? post)
      (← stmtsOfDocs? body)
  | .list [.text "range", key, value, .text kind, x, .list [.text "block", .list body]] =>
    return .range (← Expr.ofDoc? key) (← Expr.ofDoc? value) (← RangeKind.ofText? kind)
      (← Expr.ofDoc? x) (← stmtsOfDocs? body)
  | .list [.text "labeled", .text label, stmt] => return .labeled label (← Stmt.ofDoc? stmt)
  | .list [.text "decl", .list [.text "gen", .text kind, .list specs]] =>
    return .decl (← DeclKind.ofText? kind) (← specsOfDocs? specs)
  | _ => none

/-- Reads a statement list. -/
def stmtsOfDocs? : List Doc → Option (List Stmt)
  | [] => some []
  | d :: ds => return (← Stmt.ofDoc? d) :: (← stmtsOfDocs? ds)

/-- Reads the clauses of a switch. -/
def clausesOfDocs? : List Doc → Option (List Clause)
  | [] => some []
  | d :: ds => return (← Clause.ofDoc? d) :: (← clausesOfDocs? ds)

/-- Reads a clause of a switch. -/
def Clause.ofDoc? : Doc → Option Clause
  | .list [.text "case", .null, .list body] => return .default (← stmtsOfDocs? body)
  | .list [.text "case", .list values, .list body] =>
    return .case (← exprsOfDocs? values) (← stmtsOfDocs? body)
  | _ => none

/-- Reads the clauses of a select. -/
def commsOfDocs? : List Doc → Option (List CommClause)
  | [] => some []
  | d :: ds => return (← CommClause.ofDoc? d) :: (← commsOfDocs? ds)

/-- Reads a clause of a select. -/
def CommClause.ofDoc? : Doc → Option CommClause
  | .list [.text "comm", comm, .list body] =>
    return .mk (← Stmt.ofDoc? comm) (← stmtsOfDocs? body)
  | _ => none

/-- Reads the entries of a declaration. -/
def specsOfDocs? : List Doc → Option (List Spec)
  | [] => some []
  | d :: ds => return (← Spec.ofDoc? d) :: (← specsOfDocs? ds)

/-- Reads an entry of a declaration. -/
def Spec.ofDoc? : Doc → Option Spec
  | .list [.text "value", names, ty, .list values] =>
    return .value (← names.names?) (← Expr.ofDoc? ty) (← exprsOfDocs? values)
  | .list [.text "type", .text name, typeParams, .bool isAlias, ty] =>
    return .type name (← Fields.ofDoc? typeParams) isAlias (← Expr.ofDoc? ty)
  | .list [.text "import", name, .text path] =>
    return .imported (← name.option? Doc.text?) path
  | _ => none

end

/-- Reads a declaration. -/
def Decl.ofDoc? : Doc → Option Decl
  | .list [.text "gen", .text kind, .list specs] =>
    return ⟨← DeclKind.ofText? kind, ← specsOfDocs? specs⟩
  | _ => none

end YieldMachine
