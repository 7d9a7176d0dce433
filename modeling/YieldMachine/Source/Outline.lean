import YieldMachine.Source.Problem

/-!
# Outlines

Whether a source can be compiled depends on a few kinds of nodes: identifiers,
function literals, loops, statements that are kept whole, labels, branches, returns and
address operators.  The outline of a tree has these nodes only, in the order in which
they are written.
-/

namespace YieldMachine.Source

/-- What an outline shows of a tree. -/
inductive Outline where
  | ident (id : Ident)
  /-- a function literal: its signature, then its body -/
  | literal (pos : Pos) (signature body : List Outline)
  | loop (parts : List Outline)
  /-- a select or a type switch -/
  | whole (parts : List Outline)
  | labeled (label : String) (parts : List Outline)
  | branch (kind : BranchKind) (label : Option String)
  | ret (parts : List Outline)
  /-- the address of an operand, which may be a variable -/
  | address (target : Option Ident) (parts : List Outline)

/-- The outlines of identifiers. -/
def outlineIdents (ids : List Ident) : List Outline := ids.map .ident

mutual

/-- The outline of an expression. -/
def Expr.outline : Expr → List Outline
  | .missing => []
  | .mk site form => form.outline site.pos

/-- The outline of a form of expression at a position. -/
def Form.outline (pos : Pos) : Form → List Outline
  | .ident id => [.ident id]
  | .lit _ _ => []
  | .sel x member => x.outline ++ [.ident member]
  | .index x i => x.outline ++ i.outline
  | .indexList x is => x.outline ++ outlineExprs is
  | .slice x low high max _ => x.outline ++ low.outline ++ high.outline ++ max.outline
  | .assert x ty => x.outline ++ ty.outline
  | .call fn args _ => fn.outline ++ outlineExprs args
  | .star x => x.outline
  | .unary .address x => [.address (x.unparen.ident?) x.outline]
  | .unary _ x => x.outline
  | .binary _ x y => x.outline ++ y.outline
  | .paren x => x.outline
  | .pair key value => key.outline ++ value.outline
  | .composite ty elements => ty.outline ++ outlineExprs elements
  | .func signature body => [.literal pos signature.outline (outlineStmts body)]
  | .funcType signature => signature.outline
  | .array length element => length.outline ++ element.outline
  | .map key element => key.outline ++ element.outline
  | .chan _ element => element.outline
  | .struct fields => fields.outline
  | .interface fields => fields.outline
  | .ellipsis element => element.outline

/-- The outline of expressions. -/
def outlineExprs : List Expr → List Outline
  | [] => []
  | e :: es => e.outline ++ outlineExprs es

/-- The outline of a signature. -/
def Signature.outline : Signature → List Outline
  | .mk typeParams params results => typeParams.outline ++ params.outline ++ results.outline

/-- The outline of a field list. -/
def Fields.outline : Fields → List Outline
  | .absent => []
  | .list fs => outlineFields fs

/-- The outline of fields. -/
def outlineFields : List Field → List Outline
  | [] => []
  | f :: fs => f.outline ++ outlineFields fs

/-- The outline of a field. -/
def Field.outline : Field → List Outline
  | .mk names ty _ => outlineIdents names ++ ty.outline

/-- The outline of a statement. -/
def Stmt.outline : Stmt → List Outline
  | .missing => []
  | .mk _ form => form.outline

/-- The outline of a form of statement. -/
def StmtForm.outline : StmtForm → List Outline
  | .empty => []
  | .expr x => x.outline
  | .send channel value => channel.outline ++ value.outline
  | .incDec _ x => x.outline
  | .assign _ lhs rhs => outlineExprs lhs ++ outlineExprs rhs
  | .go call => call.outline
  | .defer call => call.outline
  | .ret results => [.ret (outlineExprs results)]
  | .branch kind label => [.branch kind (label.map (·.name))]
  | .block body => outlineStmts body
  | .ite init cond body other =>
    init.outline ++ cond.outline ++ outlineStmts body ++ other.outline
  | .switch init tag clauses => init.outline ++ tag.outline ++ outlineClauses clauses
  | .typeSwitch init guard clauses =>
    [.whole (init.outline ++ guard.outline ++ outlineClauses clauses)]
  | .select clauses => [.whole (outlineComms clauses)]
  | .loop init cond post body =>
    [.loop (init.outline ++ cond.outline ++ post.outline ++ outlineStmts body)]
  | .range key value _ x body =>
    [.loop (key.outline ++ value.outline ++ x.outline ++ outlineStmts body)]
  | .labeled label stmt => [.labeled label.name stmt.outline]
  | .decl _ specs => outlineSpecs specs

/-- The outline of statements. -/
def outlineStmts : List Stmt → List Outline
  | [] => []
  | s :: ss => s.outline ++ outlineStmts ss

/-- The outline of the clauses of a switch. -/
def outlineClauses : List Clause → List Outline
  | [] => []
  | c :: cs => c.outline ++ outlineClauses cs

/-- The outline of a clause of a switch. -/
def Clause.outline : Clause → List Outline
  | .case values body => outlineExprs values ++ outlineStmts body
  | .default body => outlineStmts body

/-- The outline of the clauses of a select. -/
def outlineComms : List CommClause → List Outline
  | [] => []
  | c :: cs => c.outline ++ outlineComms cs

/-- The outline of a clause of a select. -/
def CommClause.outline : CommClause → List Outline
  | .mk comm body => comm.outline ++ outlineStmts body

/-- The outline of the entries of a declaration. -/
def outlineSpecs : List Spec → List Outline
  | [] => []
  | s :: ss => s.outline ++ outlineSpecs ss

/-- The outline of an entry of a declaration. -/
def Spec.outline : Spec → List Outline
  | .value names ty values => outlineIdents names ++ ty.outline ++ outlineExprs values
  | .type name typeParams _ ty => .ident name :: typeParams.outline ++ ty.outline
  | .imported _ _ => []

end

/-- The import path of the runtime package. -/
def runtimePath : String := "github.com/tmr232/yieldgen"

/-- Whether an identifier uses the object of the runtime package with a name. -/
def Ident.usesRuntime (id : Ident) (name : String) : Bool :=
  match id.ref with
  | some r => !r.defines && r.object.pkg == runtimePath && r.object.name == name
  | none => false

/-- Whether an identifier marks a produced element. -/
def Ident.isYield (id : Ident) : Bool := id.usesRuntime "Yield"

mutual

/-- The identifiers of an outline. -/
def Outline.idents : Outline → List Ident
  | .ident id => [id]
  | .literal _ signature body => outlinesIdents signature ++ outlinesIdents body
  | .loop parts => outlinesIdents parts
  | .whole parts => outlinesIdents parts
  | .labeled _ parts => outlinesIdents parts
  | .branch _ _ => []
  | .ret parts => outlinesIdents parts
  | .address _ parts => outlinesIdents parts

/-- The identifiers of a list of outlines. -/
def outlinesIdents : List Outline → List Ident
  | [] => []
  | o :: os => o.idents ++ outlinesIdents os

end

mutual

/-- The identifiers of an outline that are not inside function literals. -/
def Outline.ownIdents : Outline → List Ident
  | .ident id => [id]
  | .literal _ _ _ => []
  | .loop parts => outlinesOwnIdents parts
  | .whole parts => outlinesOwnIdents parts
  | .labeled _ parts => outlinesOwnIdents parts
  | .branch _ _ => []
  | .ret parts => outlinesOwnIdents parts
  | .address _ parts => outlinesOwnIdents parts

/-- The identifiers of a list of outlines that are not inside function literals. -/
def outlinesOwnIdents : List Outline → List Ident
  | [] => []
  | o :: os => o.ownIdents ++ outlinesOwnIdents os

end

/-- Whether elements are produced anywhere in an outline. -/
def usesYield (os : List Outline) : Bool := (outlinesIdents os).any Ident.isYield

/-- The variable that an identifier declares. -/
def Ident.declared? (id : Ident) : Option Nat :=
  match id.ref with
  | some r => if r.defines && r.object.type.isSome then some r.id else none
  | none => none

mutual

/-- The variables that are declared inside a loop and that outlive an iteration:
function literals and statements that are kept whole have variables of their own. -/
def Outline.loopLocals (inLoop : Bool) : Outline → List Nat
  | .ident id => if inLoop then id.declared?.toList else []
  | .literal _ _ _ => []
  | .loop parts => outlinesLoopLocals true parts
  | .whole _ => []
  | .labeled _ parts => outlinesLoopLocals inLoop parts
  | .branch _ _ => []
  | .ret parts => outlinesLoopLocals inLoop parts
  | .address _ parts => outlinesLoopLocals inLoop parts

/-- The variables of a list of outlines that are declared inside a loop. -/
def outlinesLoopLocals (inLoop : Bool) : List Outline → List Nat
  | [] => []
  | o :: os => o.loopLocals inLoop ++ outlinesLoopLocals inLoop os

end

mutual

/-- How a statement that is kept whole would be left other than at its end: the first
way in an outline.  `looped` says whether there is a loop around, `labels` holds the
labels around. -/
def Outline.exit? (looped : Bool) (labels : List String) : Outline → Option Exit
  | .ident id => if id.isYield then some .yield else none
  | .literal _ _ _ => none
  | .loop parts => outlinesExit? true labels parts
  | .whole parts => outlinesExit? looped labels parts
  | .labeled label parts => outlinesExit? looped (label :: labels) parts
  | .branch .goto _ => some .goto
  | .branch kind (some label) => if labels.contains label then none else some (.label kind label)
  | .branch .cont none => if looped then none else some .cont
  | .branch _ none => none
  | .ret _ => some .ret
  | .address _ parts => outlinesExit? looped labels parts

/-- The first way in a list of outlines. -/
def outlinesExit? (looped : Bool) (labels : List String) : List Outline → Option Exit
  | [] => none
  | o :: os => (o.exit? looped labels).or (outlinesExit? looped labels os)

end

/-- What has to be looked at before a body is compiled: produced elements inside a
function literal, and variables that a literal captures or the address of which is
taken. -/
inductive Concern where
  | yielding (pos : Pos)
  | captured (id : Ident)
  | addressed (id : Ident)

mutual

/-- The concerns of an outline, in order. -/
def Outline.concerns : Outline → List Concern
  | .ident _ => []
  | .literal pos signature body =>
    (if usesYield body then [.yielding pos] else []) ++ (outlinesIdents body).map .captured
      ++ outlinesConcerns signature ++ outlinesConcerns body
  | .loop parts => outlinesConcerns parts
  | .whole parts => outlinesConcerns parts
  | .labeled _ parts => outlinesConcerns parts
  | .branch _ _ => []
  | .ret parts => outlinesConcerns parts
  | .address target parts => target.toList.map .addressed ++ outlinesConcerns parts

/-- The concerns of a list of outlines. -/
def outlinesConcerns : List Outline → List Concern
  | [] => []
  | o :: os => o.concerns ++ outlinesConcerns os

end

/-- The variable that an identifier uses. -/
def Ident.used? (id : Ident) : Option Nat :=
  match id.ref with
  | some r => if r.defines then none else some r.id
  | none => none

/-- The problem of a pointer or a closure that keeps a variable, if it is one of the
given variables and was not reported before; with the variables reported then. -/
def keptProblem (locals reported : List Nat) (id : Ident) (reason : String → Reason) :
    List Problem × List Nat :=
  match id.used? with
  | some n =>
    if locals.contains n && !reported.contains n then
      ([⟨id.pos, reason id.name⟩], n :: reported)
    else ([], reported)
  | none => ([], reported)

/-- The problems that concerns are, each variable being reported once. -/
def concernProblems (locals : List Nat) : List Nat → List Concern → List Problem
  | _, [] => []
  | reported, .yielding pos :: cs =>
    ⟨pos, .yieldInLiteral⟩ :: concernProblems locals reported cs
  | reported, .captured id :: cs =>
    let (ps, reported) := keptProblem locals reported id .captured
    ps ++ concernProblems locals reported cs
  | reported, .addressed id :: cs =>
    let (ps, reported) := keptProblem locals reported id .addressed
    ps ++ concernProblems locals reported cs

/-- The problems of a body as a whole: variables declared in loops are shared by all
iterations once the body is compiled, so that nothing may outlive an iteration of
them. -/
def bodyProblems (os : List Outline) : List Problem :=
  concernProblems (outlinesLoopLocals false os) [] (outlinesConcerns os)

/-- The problems of marks of produced elements outside of the forms that are compiled;
those in function literals are problems of the body as a whole. -/
def strayYields (runtime : String) (os : List Outline) : List Problem :=
  ((outlinesOwnIdents os).filter Ident.isYield).map fun id => ⟨id.pos, .yieldAsValue runtime⟩

end YieldMachine.Source
