import YieldMachine.Flow.Statement
import YieldMachine.Flow.Escape
import YieldMachine.Scope.Env
import YieldMachine.Scope.Name
import YieldMachine.Table.Basic
import YieldMachine.Tree.Rename

/-!
# Lowering a generator body to a state table

Locals and parameters become fields of the holder, so that they survive between
states.  Straight-line statements share a state.  A statement that ends its state
moves lowering into a continuation state that was reserved for it.
-/

namespace YieldMachine

/-- The part of a holder that is built so far. -/
structure Draft where
  fields : List (String × Expr)
  params : List String
  types : List Decl
  states : List (List Op)
  /-- the names taken by fields and lifted declarations -/
  used : List String
  /-- how many iterators have a field -/
  iterators : Nat
  /-- how many statements of blocks were reached -/
  reached : Nat

/-- The draft of a holder without states. -/
def Draft.empty : Draft := ⟨[], [], [], [], [], 0, 0⟩

/-- What lowering reads: the names of the holder and the runtime, and which
statements of blocks are split into states.  The choice may depend on how many
statements were reached before, so that equal statements can be treated apart. -/
structure Plan where
  holder : String
  runtime : String
  split : Nat → Flow → Bool

/-- Steps of lowering: they extend a draft, or fail. -/
abbrev Lowering := StateT Draft (Except LowerError)

namespace Lowering

/-- Reserves a state without operations. -/
def newState : Lowering Nat := fun d =>
  .ok (d.states.length, { d with states := d.states ++ [[]] })

/-- Appends an operation to a state. -/
def emit (id : Nat) (op : Op) : Lowering Unit := fun d =>
  .ok ((), { d with states := d.states.modify id (· ++ [op]) })

/-- Whether a state already ends in a transfer. -/
def terminated (id : Nat) : Lowering Bool := fun d =>
  .ok (opsTerminate (d.states.getD id []), d)

/-- Adds a field for a variable, under a name that is free. -/
def hoist (name : String) (type : Expr) : Lowering String := fun d =>
  let field := freeField d.used name
  .ok (field, { d with used := field :: d.used, fields := d.fields ++ [(field, type)] })

/-- Adds a field for the next iterator. -/
def hoistIterator (type : Expr) : Lowering String := fun d => do
  let (field, d) ← hoist (iteratorField d.iterators) type d
  .ok (field, { d with iterators := d.iterators + 1 })

/-- Takes a name for a lifted declaration. -/
def liftName (plan : Plan) (name : String) : Lowering String := fun d =>
  let lifted := freeField d.used (plan.holder ++ "_" ++ name)
  .ok (lifted, { d with used := lifted :: d.used })

/-- Counts a statement of a block, and gives its number. -/
def reach : Lowering Nat := fun d => .ok (d.reached, { d with reached := d.reached + 1 })

/-- Adds a lifted declaration. -/
def addType (decl : Decl) : Lowering Unit := fun d =>
  .ok ((), { d with types := d.types ++ [decl] })

end Lowering

open Lowering

/-- The contexts of statements of a table. -/
abbrev StateEnv := Env Nat

/-- An expression under the bindings of a context. -/
def StateEnv.resolve (env : StateEnv) (e : Expr) : Expr := e.rename receiverName env.renames

/-- A type expression that `uses` places share.  A name is looked up at each place; in
a composite type the names inside are looked up once for every place. -/
def StateEnv.resolveShared (env : StateEnv) (uses : Nat) (e : Expr) : Expr :=
  match e.name? with
  | some _ => env.resolve e
  | none => Nat.repeat env.resolve uses e

/-- The expression of a field of the holder. -/
def fieldExpr (field : String) : Expr := .sel (.name receiverName) field

/-- Copies a statement into a state. -/
def verbatim (s : Flow) (current : Nat) (env : StateEnv) : Lowering Unit :=
  match s.toStmt? with
  | none => throw .missingStatement
  | some .missing => throw .malformed
  | some .empty => pure ()
  | some stmt => emit current (.exec (stmt.rename receiverName env.renames).1)

/-- How often the type of the name at position `i` is read: once for each field that
shares it, and once more where each of these is reset. -/
def VarDecl.typeUses (d : VarDecl) (i : Nat) : Nat :=
  let fields :=
    match d.types[i]? with
    | some .asFirst => sharing
    | _ => if i = 0 then sharing else 1
  if d.values.isEmpty then 2 * fields else fields
where
  /-- The number of fields whose type is that of the first name. -/
  sharing : Nat :=
    ((d.names.zip d.types).zipIdx.filter fun ((name, type), j) =>
      name != "_" && (j == 0 || match type with | .asFirst => true | _ => false)).length

/-- Gives each declared name its field.  The result has the targets to assign, those
of them that are new with their types, and the context with the new bindings. -/
def hoistNames (d : VarDecl) (env : StateEnv) :
    Nat → List String → StateEnv → Lowering (List Expr × List (Expr × Expr) × StateEnv)
  | _, [], inner => pure ([], [], inner)
  | i, name :: names, inner => do
    if name == "_" then
      let (lhs, fresh, inner) ← hoistNames d env (i + 1) names inner
      pure (.name "_" :: lhs, fresh, inner)
    else
      match d.typeAt? i with
      | none => throw .malformed
      | some .missing =>
        let (lhs, fresh, inner) ← hoistNames d env (i + 1) names inner
        pure (env.resolve (.name name) :: lhs, fresh, inner)
      | some type =>
        let type := env.resolveShared (d.typeUses i) type
        let field ← hoist name type
        let inner := inner.withRename name ⟨field, true⟩
        let (lhs, fresh, inner) ← hoistNames d env (i + 1) names inner
        pure (fieldExpr field :: lhs, (fieldExpr field, type) :: fresh, inner)

/-- Resets fields to the zero values of their types. -/
def resetFields (current : Nat) : List (Expr × Expr) → Lowering Unit
  | [] => pure ()
  | (field, type) :: rest => do
    emit current (.exec (.assign .set [field] [.star (.call (.name "new") [type] false)]))
    resetFields current rest

/-- Lowers a declaration.  Its values see the bindings from before it.  Declarations
can run more than once, so fields without a value are reset. -/
def VarDecl.lower (d : VarDecl) (current : Nat) (env : StateEnv) : Lowering StateEnv := do
  let (lhs, fresh, inner) ← hoistNames d env 0 d.names env
  if d.values.isEmpty then
    resetFields current fresh
  else
    emit current (.exec (.assign .set lhs (d.values.map env.resolve)))
  pure inner

/-- Binds each name to a name that is unique to the holder. -/
def liftNames (plan : Plan) : List String → StateEnv → Lowering StateEnv
  | [], env => pure env
  | name :: names, env => do
    if name == "_" then liftNames plan names env
    else
      let lifted ← liftName plan name
      liftNames plan names (env.withRename name ⟨lifted, false⟩)

/-- The name that a declared name has after lifting. -/
def StateEnv.liftedName (env : StateEnv) (name : String) : String :=
  match env.find? name with
  | some target => target.name
  | none => name

/-- An entry of a local declaration after lifting. -/
def Spec.lifted (env : StateEnv) : Spec → Spec
  | .value names ty values =>
    .value (names.map env.liftedName) (env.resolve ty) (values.map env.resolve)
  | .type name typeParams isAlias ty =>
    .type (env.liftedName name) (typeParams.rename receiverName env.renames) isAlias
      (env.resolve ty)
  | .imported name path => .imported name path

/-- Lifts a local declaration out of the body. -/
def liftDecl (plan : Plan) (d : Decl) (env : StateEnv) : Lowering StateEnv := do
  let env ← liftNames plan (d.specs.flatMap Spec.names) env
  addType { d with specs := d.specs.map (Spec.lifted env) }
  pure env

/-- Closes a condition state: on to `body` while the condition holds, otherwise to
`exit`.  A missing condition always holds. -/
def lowerTest (state : Nat) (cond : Expr) (body exit : Nat) (env : StateEnv) : Lowering Unit :=
  match cond with
  | .missing => emit state (.jump body .missing)
  | cond => do
    emit state (.when (env.resolve cond) [.jump body .missing])
    emit state (.jump exit .missing)

/-- Gives a key or value of a loop over an iterator its target and new context. -/
def lowerTarget (define : Bool) (target type : Expr) (env inner : StateEnv) :
    Lowering (Expr × StateEnv) :=
  match target with
  | .missing => pure (.name "_", inner)
  | .ident name _ =>
    if name == "_" then pure (.name "_", inner)
    else if define then do
      let field ← hoist name (env.resolveShared 2 type)
      pure (fieldExpr field, inner.withRename name ⟨field, true⟩)
    else pure (env.resolve target, inner)
  | _ => pure (env.resolve target, inner)

/-- Whether a loop over an iterator declares the target. -/
def Walk.declares (w : Walk) (target : Expr) : Bool :=
  match target.name? with
  | some name => w.define && name != "_"
  | none => false

/-- The type of the iterator of a loop. -/
def Walk.iteratorType (w : Walk) (plan : Plan) (env : StateEnv) : Expr :=
  let type (target type : Expr) := env.resolveShared (if w.declares target then 2 else 1) type
  .indexList (.sel (.name plan.runtime) "Iterator2")
    [type w.key w.keyType, type w.value w.valueType]

/-- Lowers the header of a loop over an iterator: the iterator is captured once, the
condition state asks whether it has a next element and takes that on the way into the
body.  Gives the condition state, the body state and the context of the loop. -/
def Walk.lower (w : Walk) (plan : Plan) (current : Nat) (env : StateEnv) :
    Lowering (Nat × Nat × StateEnv) := do
  let initState ← newState
  emit current (.jump initState .missing)
  let it ← hoistIterator (w.iteratorType plan env)
  emit initState (.exec (.assign .set [fieldExpr it] [env.resolve w.x]))
  let (key, inner) ← lowerTarget w.define w.key w.keyType env env
  let (value, inner) ← lowerTarget w.define w.value w.valueType env inner
  let condState ← newState
  emit initState (.jump condState .missing)
  let bodyState ← newState
  emit condState (.when ((fieldExpr it).method "HasNext")
    [.exec (.assign .set [key, value] [(fieldExpr it).method "Next"]), .jump bodyState .missing])
  emit condState (.jump env.next .missing)
  pure (condState, bodyState, inner)

/-- Lowers the first part of a loop header, if one is written, and gives the context of
the loop. -/
def Flow.lowerInit (init : Flow) (state : Nat) (env : StateEnv) : Lowering StateEnv :=
  match init with
  | .missing => pure env
  | .declare d => d.lower state env
  | init => do
    verbatim init state env
    pure env

/-- Lowers the last part of a loop header, if one is written. -/
def Flow.lowerPost (post : Flow) (state : Nat) (env : StateEnv) : Lowering Unit :=
  match post with
  | .missing => pure ()
  | post => verbatim post state env

/-- Whether one of the branches of a conditional always runs, given its else part. -/
def Flow.isTotalElse : Flow → Bool
  | .missing => false
  | .ite _ _ other => other.isTotalElse
  | _ => true

/-- Reserves a state for each case, and gives the arms that lead there. -/
def lowerArms (env : StateEnv) : List FlowCase → Lowering (List Nat × List Arm)
  | [] => pure ([], [])
  | c :: cs => do
    let state ← newState
    let (states, arms) ← lowerArms env cs
    let ops := [Op.jump state .missing]
    let arm :=
      match c with
      | .case values _ => Arm.case (values.map env.resolve) ops
      | .default _ => Arm.default ops
    pure (state :: states, arm :: arms)

/-- Whether one of the cases is the default. -/
def FlowCase.isDefault : FlowCase → Bool
  | .case _ _ => false
  | .default _ => true

/-- Lowers one statement of a block, given how it is split, and gives the context of
the statements after it. -/
def stitch (plan : Plan) (s : Flow) (lower : StateEnv → Lowering Unit)
    (current cont : Nat) (env : StateEnv) : Lowering StateEnv :=
  match s with
  | .declare d => d.lower current env
  | .lift d => liftDecl plan d env
  | s => do
    let child := (env.withNext cont).clearLabels
    let number ← reach
    if plan.split number s then lower child else verbatim s current child
    pure env

/-- Closes the states of a block. -/
def closeBlock (current cont : Nat) (env : StateEnv) : Lowering Unit := do
  unless ← terminated current do
    emit current (.jump env.next .missing)
  emit cont (.jump env.next .missing)

/-- Lowers a single statement as a block, given how it is split. -/
def lowerSingle (plan : Plan) (s : Flow) (lower : StateEnv → Lowering Unit) (current : Nat)
    (env : StateEnv) : Lowering Unit := do
  let cont ← newState
  let env ← stitch plan s lower current cont env
  if ← terminated current then
    let fresh ← newState
    closeBlock cont fresh env
  else
    closeBlock current cont env

mutual

/-- Lowers a statement into the state `current`. -/
def Flow.lower (plan : Plan) : Flow → Nat → StateEnv → Lowering Unit
  | .missing, _, _ => throw .missingStatement
  | .block body, current, env => do
    let cont ← newState
    lowerStmts plan body current cont env
  | .declare d, current, env => discard (d.lower current env)
  | .lift d, _, env => discard (liftDecl plan d env)
  | .yield value, current, env => emit current (.jump env.next (env.resolve value))
  | .finish, current, _ => emit current (.jump endState .missing)
  | .ite cond body other, current, env => do
    let cond := env.resolve cond
    let thenState ← newState
    let cont ← newState
    lowerStmts plan body thenState cont env.clearLabels
    match other with
    | .missing =>
      emit current (.when cond [.jump thenState .missing])
      emit current (.jump env.next .missing)
    | .block otherBody =>
      let elseState ← newState
      let cont ← newState
      lowerStmts plan otherBody elseState cont env.clearLabels
      emit current (.when cond [.jump thenState .missing])
      emit current (.jump elseState .missing)
    | other =>
      let elseState ← newState
      lowerSingle plan other (fun child => other.lower plan elseState child) elseState
        env.clearLabels
      if other.isTotalElse then
        emit current (.when cond [.jump thenState .missing])
        emit current (.jump elseState .missing)
      else
        emit current (.choose cond [.jump thenState .missing] [.jump elseState .missing])
  | .while cond body, current, env => do
    let condState ← newState
    emit current (.jump condState .missing)
    let bodyState ← newState
    lowerTest condState cond bodyState env.next env
    let cont ← newState
    lowerStmts plan body bodyState cont (env.inLoop condState)
  | .doWhile body cond, current, env => do
    let bodyState ← newState
    emit current (.jump bodyState .missing)
    let condState ← newState
    lowerTest condState cond bodyState env.next env
    let cont ← newState
    lowerStmts plan body bodyState cont (env.inLoop condState)
  | .loop init cond post body, current, env => do
    let initState ← newState
    emit current (.jump initState .missing)
    let inner ← init.lowerInit initState env
    let condState ← newState
    emit initState (.jump condState .missing)
    let bodyState ← newState
    lowerTest condState cond bodyState env.next inner
    let updateState ← newState
    post.lowerPost updateState inner
    emit updateState (.jump condState .missing)
    let cont ← newState
    lowerStmts plan body bodyState cont (inner.inLoop updateState)
  | .walk header body, current, env => do
    let (condState, bodyState, inner) ← header.lower plan current env
    let cont ← newState
    lowerStmts plan body bodyState cont (inner.inLoop condState)
  | .switch tag cases, current, env => do
    let dispatcher ← newState
    emit current (.jump dispatcher .missing)
    let (states, arms) ← lowerArms env cases
    emit dispatcher (.dispatch (env.resolve tag) arms)
    unless cases.any FlowCase.isDefault do
      emit dispatcher (.jump env.next .missing)
    lowerCases plan cases states ((env.withBreak "" env.next).clearLabels)
  | .labeled label stmt, current, env =>
    stmt.lower plan current ((env.withLabel label).withBreak label env.next)
  | .brk label, current, env =>
    match env.break? label with
    | none => throw (.unresolved plan.holder .brk label)
    | some goal => emit current (.jump goal .missing)
  | .cont label, current, env =>
    match env.continue? label with
    | none => throw (.unresolved plan.holder .cont label)
    | some goal => emit current (.jump goal .missing)
  | .simple stmt, current, env => verbatim (.simple stmt) current env

/-- Lowers a statement list into `current`, with `cont` reserved for what follows the
first statement that ends its state. -/
def lowerStmts (plan : Plan) : List Flow → Nat → Nat → StateEnv → Lowering Unit
  | [], current, cont, env => closeBlock current cont env
  | s :: ss, current, cont, env => do
    let env ← stitch plan s (fun child => s.lower plan current child) current cont env
    if ← terminated current then
      let fresh ← newState
      lowerStmts plan ss cont fresh env
    else
      lowerStmts plan ss current cont env

/-- Lowers the cases of a switch, each of which continues into the next one. -/
def lowerCases (plan : Plan) : List FlowCase → List Nat → StateEnv → Lowering Unit
  | c :: cs, state :: states, env => do
    c.lower plan state (match states with | next :: _ => env.withNext next | [] => env)
    lowerCases plan cs states env
  | _, _, _ => pure ()

/-- Lowers the statements of a case. -/
def FlowCase.lower (plan : Plan) : FlowCase → Nat → StateEnv → Lowering Unit
  | .case _ body, current, env => do
    let cont ← newState
    lowerStmts plan body current cont env
  | .default body, current, env => do
    let cont ← newState
    lowerStmts plan body current cont env

end

/-- Adds a field for each named parameter of a field.  Parameters keep their names, so
that the holder can be filled from them. -/
def lowerParam (f : Field) (env : StateEnv) : Lowering StateEnv := fun d =>
  let type :=
    match f.type with
    | .ellipsis element => Expr.array .missing element
    | type => type
  let names := f.names.filter (· != "_")
  .ok (names.foldl (fun env name => env.withRename name ⟨name, true⟩) env,
    { d with
      used := names ++ d.used
      fields := d.fields ++ names.map (·, type)
      params := d.params ++ names })

/-- Adds fields for a list of parameters. -/
def lowerParams : List Field → StateEnv → Lowering StateEnv
  | [], env => pure env
  | f :: fs, env => do lowerParams fs (← lowerParam f env)

/-- Lowers a whole generator, with a free choice of the statements to split. -/
def Routine.lowerWith (fn : Routine) (split : Nat → Flow → Bool) : Except LowerError Holder := do
  let build : Lowering Unit := do
    let entry ← newState
    let finish ← newState
    let env ← lowerParams (fn.recv.toList ++ fn.params.toList) (Env.start finish)
    let cont ← newState
    lowerStmts ⟨fn.name, fn.runtime, split⟩ fn.body entry cont env
    emit finish .finish
  let ((), d) ← build Draft.empty
  validate fn.name d.states
  return {
    name := fn.name
    recv := receiverName
    runtime := fn.runtime
    elem := fn.elem
    typeParams := fn.typeParams
    fields := d.fields
    params := d.params
    types := d.types
    states := d.states }

/-- Lowers a generator: exactly the statements that change its control flow are split. -/
def Routine.lower (fn : Routine) : Except LowerError Holder :=
  fn.lowerWith fun _ s => s.modifiesControlFlow

end YieldMachine
