import YieldMachine.Flow.Basic
import YieldMachine.Source.Erase
import YieldMachine.Source.Outline
import YieldMachine.Tree.Text

/-!
# Bodies of checked sources

A body is converted to `Flow` statement by statement.  A case of a source switch ends
where the next one begins, so that a break is put after a case that does not fall
through; a statement that initialises another one moves into a block around it.
-/

namespace YieldMachine.Source

/-- What the conversion of a body depends on: the name of the runtime package in the
file, the qualifiers of other packages, and whether the generator is generic. -/
structure Context where
  runtime : String
  qualify : PackageRef → String
  generic : Bool

/-- The expression for a type. -/
def Context.spell (ctx : Context) (t : Ty) : Noted YieldMachine.Expr :=
  ⟨t.spell ctx.qualify, [], [t]⟩

/-- Notes marks of produced elements that stand in an expression or a statement. -/
def Context.check (ctx : Context) (os : List Outline) : Noted Unit :=
  noteAll (strayYields ctx.runtime os)

/-- The identifier that a called expression ends in, without type arguments. -/
def Expr.callee? (fn : Expr) : Option Ident :=
  let fn := match fn.unparen with
    | .mk _ (.index x _) => x
    | f => f
  match fn with
  | .mk _ (.ident id) => some id
  | .mk _ (.sel _ member) => some member
  | _ => none

/-- The argument of a call of the function of the runtime package with a name. -/
def Expr.runtimeArg? (name : String) (e : Expr) : Option Expr :=
  match e.unparen with
  | .mk _ (.call fn [arg] _) =>
    if fn.callee?.any (·.usesRuntime name) then some arg else none
  | _ => none

/-- The value of a mark of a produced element. -/
def Context.yieldValue? (ctx : Context) (e : Expr) : Noted (Option YieldMachine.Expr) :=
  match e.runtimeArg? "Yield" with
  | some arg => do
    ctx.check arg.outline
    return some arg.erase
  | none => pure none

/-- The element type of the generators of a type. -/
def Typed.element? (t : Typed) : Option Ty :=
  match t.type with
  | .named (some pkg) "Generator" [element] =>
    if pkg.path == runtimePath then some element else none
  | _ => none

/-- Whether an operand can have its address taken. -/
def addressable : YieldMachine.Expr → Bool
  | .ident _ _ => true
  | .sel x _ => addressable x
  | .index x _ => addressable x
  | .star _ => true
  | .paren x => addressable x
  | _ => false

/-- An iterator of the runtime package over an operand. -/
def Context.adapter (ctx : Context) (name : String) (x : YieldMachine.Expr) :
    YieldMachine.Expr :=
  .call (.sel (.name ctx.runtime) name) [x] false

/-- The type of indices. -/
def indexType : Ty := .basic "int"

/-- The type of characters. -/
def charType : Ty := .basic "rune"

/-- The type with a single value. -/
def unitType : Ty := .struct []

/-- An iterator and the types of the keys and values it gives. -/
structure Iteration where
  adapter : YieldMachine.Expr
  key : Ty
  value : Ty

/-- The slice of a whole array. -/
def wholeSlice (x : YieldMachine.Expr) : YieldMachine.Expr :=
  .slice x .missing .missing .missing false

/-- The iterator over an operand of a known type. -/
def Context.iterationOver (ctx : Context) (x : YieldMachine.Expr) (t : Typed) :
    Except Reason Iteration :=
  match t.type with
  | .param _ => .error (.rangeOverParam t.type.text)
  | _ =>
    match t.shape with
    | .slice element => .ok ⟨ctx.adapter "Slice" x, indexType, element⟩
    | .array element =>
      if addressable x then .ok ⟨ctx.adapter "Slice" (wholeSlice x), indexType, element⟩
      else .error (.rangeOverArray x.text)
    | .arrayPointer element => .ok ⟨ctx.adapter "Slice" (wholeSlice x), indexType, element⟩
    | .map key element => .ok ⟨ctx.adapter "Map" x, key, element⟩
    | .chan element => .ok ⟨ctx.adapter "Chan" x, element, unitType⟩
    | .text => .ok ⟨ctx.adapter "String" x, indexType, charType⟩
    | .integer counter => .ok ⟨ctx.adapter "Count" x, counter, unitType⟩
    | .func => .error (.rangeOverFunc x.text ctx.runtime)
    | .struct => .error (.rangeOverType x.text t.type.text)
    | .other => .error (.rangeOverType x.text t.type.text)

/-- The iterator over the operand of a range clause.  A generator is walked when it is
given as a sequence of the runtime package. -/
def Context.iteration (ctx : Context) (x : Expr) : Except Reason Iteration :=
  match x.runtimeArg? "Seq" with
  | some arg =>
    match arg.typed.bind Typed.element? with
    | some element => .ok ⟨ctx.adapter "Each" arg.erase, element, unitType⟩
    | none => .error (.rangeOver x.erase.text)
  | none =>
    match x.typed with
    | some t => ctx.iterationOver x.erase t
    | none => .error (.rangeOver x.erase.text)

/-- The type of a variable that an identifier declares; a name that is not declared is
only assigned. -/
def Context.declType (ctx : Context) (id : Ident) : Noted DeclType :=
  match id.ref with
  | some ⟨_, true, object⟩ =>
    match object.type with
    | some t => return .own (← ctx.spell t)
    | none => pure .reused
  | _ => pure .reused

/-- The types of variables that identifiers declare. -/
def Context.declTypes (ctx : Context) : List Ident → Noted (List DeclType)
  | [] => pure []
  | id :: ids => return (← ctx.declType id) :: (← ctx.declTypes ids)

/-- The types of names with one written type. -/
def sharedTypes (ty : YieldMachine.Expr) (names : List Ident) : List DeclType :=
  match names with
  | [] => []
  | _ :: rest => .own ty :: rest.map fun _ => .asFirst

/-- Converts the entries of a variable declaration. -/
def Context.varSpecs (ctx : Context) : List Spec → Noted (List Flow)
  | [] => pure []
  | .value names ty values :: specs => do
    ctx.check (Spec.value names ty values).outline
    let types ← match ty with
      | .missing => ctx.declTypes names
      | ty => pure (sharedTypes ty.erase names)
    let rest ← ctx.varSpecs specs
    return .declare ⟨identNames names, types, eraseExprs values, false⟩ :: rest
  | _ :: specs => ctx.varSpecs specs

/-- Keeps a statement as it is. -/
def Context.keep (ctx : Context) (form : StmtForm) : Noted (List Flow) := do
  ctx.check form.outline
  return [.simple form.erase]

/-- Keeps a select or a type switch, which must not be left other than at its end. -/
def keepWhole (pos : Pos) (form : StmtForm) : Noted (List Flow) := do
  match outlinesExit? false [] form.outline with
  | some e => note pos (.exit e)
  | none => pure ()
  return [.simple form.erase]

/-- Converts a return, which produces an element or ends the generator. -/
def Context.ret (ctx : Context) (pos : Pos) (results : List Expr) : Noted (List Flow) := do
  let refuse : Noted (List Flow) := do
    note pos (.badReturn ctx.runtime)
    return []
  match results with
  | [x] =>
    match ← ctx.yieldValue? x with
    | some value => return [.yield value]
    | none => if x.isNil then return [.finish] else refuse
  | _ => refuse

/-- Converts a branch. -/
def branchFlow (pos : Pos) (kind : BranchKind) (label : Option Ident) : Noted (List Flow) :=
  let name := (label.map (·.name)).getD ""
  match kind with
  | .brk => pure [.brk name]
  | .cont => pure [.cont name]
  | .goto => do
    note pos .goto
    return []
  | .fallthrough => do
    note pos (.misplaced kind)
    return []

/-- Puts the statements that initialise a statement into a block around it. -/
def aroundInit (written : Bool) (init : List Flow) (s : Flow) : Flow :=
  if written then .block (init ++ [s]) else s

/-- Whether a statement is written. -/
def Stmt.isWritten : Stmt → Bool
  | .missing => false
  | .mk _ _ => true

mutual

/-- Converts a statement, which may become several. -/
def Stmt.convert (ctx : Context) : Stmt → Noted (List Flow)
  | .missing => pure []
  | .mk pos form => form.convert ctx pos

/-- Converts a form of statement at a position. -/
def StmtForm.convert (ctx : Context) (pos : Pos) : StmtForm → Noted (List Flow)
  | .empty => ctx.keep .empty
  | .expr x => do
    match ← ctx.yieldValue? x with
    | some value => return [.yield value]
    | none => ctx.keep (.expr x)
  | .send channel value => ctx.keep (.send channel value)
  | .incDec increment x => ctx.keep (.incDec increment x)
  | .assign .define lhs rhs => do
    ctx.check (StmtForm.assign .define lhs rhs).outline
    let names := lhs.filterMap Expr.ident?
    let types ← ctx.declTypes names
    return [.declare ⟨identNames names, types, eraseExprs rhs, true⟩]
  | .assign kind lhs rhs => ctx.keep (.assign kind lhs rhs)
  | .go call => ctx.keep (.go call)
  | .defer _ => do
    note pos .defer
    return []
  | .ret results => ctx.ret pos results
  | .branch kind label => branchFlow pos kind label
  | .block body => return [.block (← convertStmts ctx body)]
  | .ite init cond body other => do
    ctx.check cond.outline
    let body ← convertStmts ctx body
    let other' ← other.convert ctx
    let init' ← init.convert ctx
    return [aroundInit init.isWritten init' (.ite cond.erase body (other'.headD .missing))]
  | .switch init tag clauses => do
    ctx.check tag.outline
    let cases ← convertClauses ctx clauses
    let init' ← init.convert ctx
    return [aroundInit init.isWritten init' (.switch tag.erase cases)]
  | .typeSwitch init guard clauses => keepWhole pos (.typeSwitch init guard clauses)
  | .select clauses => keepWhole pos (.select clauses)
  | .loop init cond post body => do
    ctx.check cond.outline
    let body ← convertStmts ctx body
    if !init.isWritten && !post.isWritten then return [.while cond.erase body]
    let init' ← init.convert ctx
    let start := match init' with
      | [s] => s
      | _ => .missing
    ctx.check post.outline
    let next := if post.isWritten then .simple post.erase else .missing
    return [.loop start cond.erase next body]
  | .range key value kind x body => do
    ctx.check x.outline
    let body ← convertStmts ctx body
    match ctx.iteration x with
    | .error reason =>
      note x.pos reason
      return [.block body]
    | .ok it =>
      let keyType ← ctx.spell it.key
      let valueType ← ctx.spell it.value
      return [.walk ⟨key.erase, value.erase, kind == .define, keyType, valueType, it.adapter⟩ body]
  | .labeled label stmt => do
    let inner ← stmt.convert ctx
    let target := match inner with
      | [s] => s
      | _ => .block inner
    return [.labeled label.name target]
  | .decl .var specs => ctx.varSpecs specs
  | .decl kind specs => do
    if ctx.generic then
      note pos (.localDecl kind)
      return []
    ctx.check (StmtForm.decl kind specs).outline
    return [.lift ⟨kind, eraseSpecs specs⟩]

/-- Converts a statement list. -/
def convertStmts (ctx : Context) : List Stmt → Noted (List Flow)
  | [] => pure []
  | s :: ss => do
    let fs ← s.convert ctx
    let rest ← convertStmts ctx ss
    return fs ++ rest

/-- Converts the clauses of a switch. -/
def convertClauses (ctx : Context) : List Clause → Noted (List FlowCase)
  | [] => pure []
  | c :: cs => do
    let case ← c.convert ctx
    let cases ← convertClauses ctx cs
    return case :: cases

/-- Converts a clause of a switch. -/
def Clause.convert (ctx : Context) : Clause → Noted FlowCase
  | .case values body => do
    ctx.check (outlineExprs values)
    return .case (eraseExprs values) (← convertArm ctx body)
  | .default body => return .default (← convertArm ctx body)

/-- Converts the statements of a clause, which ends in a break unless it falls through
to the next one. -/
def convertArm (ctx : Context) : List Stmt → Noted (List Flow)
  | [] => pure [.brk ""]
  | [.mk _ (.branch .fallthrough _)] => pure []
  | s :: ss => do
    let fs ← s.convert ctx
    let rest ← convertArm ctx ss
    return fs ++ rest

end

/-- Converts the body of a generator. -/
def convertBody (ctx : Context) (body : List Stmt) : Noted (List Flow) := do
  noteAll (bodyProblems (outlineStmts body))
  convertStmts ctx body

end YieldMachine.Source
