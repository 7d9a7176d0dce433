import YieldMachine.Interp.Eval

/-!
# Executing statements

Statements change the fields and local variables of a machine and the heap.  They
are executed by recursion on their tree; only the turns of a loop are bounded by
fuel.
-/

namespace YieldMachine

/-- What a running machine works on: its fields, its local variables with the
innermost scope first, and the heap. -/
structure Memory where
  fields : Bindings
  frames : List Bindings
  heap : Heap

/-- How a statement ends: normally, or by a branch that looks for its target.  An empty
label stands for none. -/
inductive Control where
  | normal
  | brk (label : String)
  | cont (label : String)
  | fall
  deriving DecidableEq, Repr

/-- The variables that expressions can see. -/
def Memory.view (m : Memory) : View := ⟨m.fields, m.frames⟩

/-- Runs a computation that reads the variables and changes only the heap. -/
def onHeap {α : Type} (f : View → Eff Heap α) : Eff Memory α := fun m =>
  match f m.view m.heap with
  | .ok a h => .ok a { m with heap := h }
  | .error e h => .error e { m with heap := h }

/-- Runs a computation in a new innermost scope. -/
def inScope {α : Type} (f : Eff Memory α) : Eff Memory α := do
  modify fun m => { m with frames := [] :: m.frames }
  let a ← f
  modify fun m => { m with frames := m.frames.tail }
  pure a

/-- Binds a name in the innermost scope. -/
def bindLocal (name : String) (value : Value) : Eff Memory Unit :=
  modify fun m =>
    match m.frames with
    | frame :: frames => { m with frames := frame.put name value :: frames }
    | [] => m

/-- Gives the innermost variable of a name a new value. -/
def assignFrames (name : String) (value : Value) : List Bindings → Option (List Bindings)
  | [] => none
  | frame :: frames =>
    if (frame.lookup name).isSome then some (frame.update name value :: frames)
    else (assignFrames name value frames).map (frame :: ·)

/-- Gives a local variable a new value. -/
def assignLocal (name : String) (value : Value) : Eff Memory Unit := do
  let m ← get
  match assignFrames name value m.frames with
  | some frames => set { m with frames := frames }
  | none => throw (.unknownTarget name)

/-- Gives a field a new value. -/
def assignField (s : Session) (x : Expr) (member : String) (value : Value) : Eff Memory Unit := do
  let m ← get
  match m.view.fieldName s x member with
  | .ok name => set { m with fields := m.fields.update name value }
  | .error e => throw e

/-- Gives an element of a list a new value. -/
def assignElement (list index value : Value) : Eff Heap Unit := do
  let (block, length) ← list.asList
  let i ← index.asInt
  if 0 ≤ i.toInt ∧ i.toInt < length then
    modify fun h =>
      { h with blocks := h.blocks.modify block (·.setIfInBounds i.toInt.toNat value) }
  else throw .invalid

/-- Assigns a value to a target; a definition binds a new variable. -/
def store (s : Session) (define : Bool) (target : Expr) (value : Value) : Eff Memory Unit :=
  match target with
  | .ident "_" _ => pure ()
  | .ident name _ => if define then bindLocal name value else assignLocal name value
  | .sel x member => assignField s x member value
  | .index x i =>
    onHeap fun v => do
      let list ← x.eval s v
      let _ ← list.asList
      assignElement list (← i.eval s v) value
  | e => throw (.badTarget e.kind)

/-- Assigns values to targets from left to right; every target needs a value. -/
def storeAll (s : Session) (define : Bool) : List Expr → List Value → Eff Memory Unit
  | [], _ => pure ()
  | _ :: _, [] => throw .invalid
  | target :: targets, value :: values => do
    store s define target value
    storeAll s define targets values

/-- The operator that an assignment applies to its first target. -/
def AssignKind.operator? : AssignKind → Option BinaryOp
  | .update .add => some .add
  | .update .sub => some .sub
  | .update .mul => some .mul
  | _ => none

/-- Executes an assignment. -/
def execAssign (s : Session) (kind : AssignKind) (lhs rhs : List Expr) : Eff Memory Unit := do
  let values ← onHeap fun v =>
    match lhs, rhs with
    | _ :: _ :: _, [e] => e.evalMulti s v
    | _, rhs => evalAll s v rhs
  let values ←
    match kind.operator? with
    | none => pure values
    | some op =>
      onHeap fun v =>
        match lhs, values with
        | target :: _, value :: rest => do
          return (← applyOperator op (← target.eval s v) value) :: rest
        | _, _ => throw .invalid
  storeAll s (kind == .define) lhs values

/-- Binds the names of a declaration one after the other. -/
def declareNames (s : Session) (type : Expr) : List String → List Expr → Eff Memory Unit
  | [], _ => pure ()
  | name :: names, [] => do
    bindLocal name (zeroValue type)
    declareNames s type names []
  | name :: names, e :: es => do
    bindLocal name (← onHeap fun v => e.eval s v)
    declareNames s type names es

/-- Binds the names of a grouped declaration. -/
def declareSpecs (s : Session) : List Spec → Eff Memory Unit
  | [] => pure ()
  | .value names type values :: specs => do
    declareNames s type names values
    declareSpecs s specs
  | _ :: specs => declareSpecs s specs

/-- Evaluates a condition; a missing condition holds. -/
def condition (s : Session) (cond : Expr) : Eff Memory Bool :=
  match cond with
  | .missing => pure true
  | cond => onHeap fun v => do (← cond.eval s v).asBool

/-- What a loop does after its body ended: `none` goes on with the next turn. -/
def Control.afterBody (label : String) : Control → Option Control
  | .brk l => if l = "" ∨ l = label then some .normal else some (.brk l)
  | .cont l => if l = "" ∨ l = label then none else some (.cont l)
  | _ => none

/-- Takes the turns of a loop, at most `fuel` of them. -/
def turns (label : String) (test : Eff Memory Bool) (body : Eff Memory Control)
    (post : Eff Memory Unit) : Nat → Eff Memory Control
  | 0 => throw .exhausted
  | fuel + 1 => do
    if ← test then
      let c ← body
      match c.afterBody label with
      | some c => pure c
      | none => do
        post
        turns label test body post fuel
    else pure .normal

/-- Whether one of the values equals the tag. -/
def matchesAny (s : Session) (v : View) (tag : Value) : List Expr → Eff Heap Bool
  | [] => pure false
  | e :: es => do
    if ← (← e.eval s v).equals tag then pure true else matchesAny s v tag es

/-- The position of the first clause that lists the tag. -/
def matchingClause? (s : Session) (v : View) (tag : Value) :
    Nat → List Clause → Eff Heap (Option Nat)
  | _, [] => pure none
  | i, .default _ :: cs => matchingClause? s v tag (i + 1) cs
  | i, .case values _ :: cs => do
    if ← matchesAny s v tag values then pure (some i) else matchingClause? s v tag (i + 1) cs

/-- The position of the last default clause. -/
def defaultClause? : Nat → List Clause → Option Nat
  | _, [] => none
  | i, c :: cs =>
    match defaultClause? (i + 1) cs, c with
    | some j, _ => some j
    | none, .default _ => some i
    | none, .case _ _ => none

/-- The position of the clause that a switch starts at. -/
def chooseClause (s : Session) (tag : Expr) (clauses : List Clause) : Eff Memory (Option Nat) :=
  onHeap fun v => do
    let value ←
      match tag with
      | .missing => pure (.bool true)
      | tag => tag.eval s v
    match ← matchingClause? s v value 0 clauses with
    | some i => pure (some i)
    | none => pure (defaultClause? 0 clauses)

/-- Runs the statement of a header, if one is written. -/
def optional (stmt : Stmt) (run : Eff Memory Control) : Eff Memory Unit :=
  match stmt with
  | .missing => pure ()
  | _ => discard run

/-- Runs the else part of a conditional, if one is written. -/
def otherwise (stmt : Stmt) (run : Eff Memory Control) : Eff Memory Control :=
  match stmt with
  | .missing => pure .normal
  | _ => run

mutual

/-- Executes a statement; each loop takes at most `fuel` turns. -/
def Stmt.exec (s : Session) (fuel : Nat) : Stmt → Eff Memory Control
  | .expr x => do
    let _ ← onHeap fun v => x.eval s v
    pure .normal
  | .assign kind lhs rhs => do
    execAssign s kind lhs rhs
    pure .normal
  | .incDec increment x => do
    let n ← onHeap fun v => do (← x.eval s v).asInt
    store s false x (.int (if increment then n + 1 else n - 1))
    pure .normal
  | .decl _ specs => do
    declareSpecs s specs
    pure .normal
  | .block body => inScope (execAll s fuel body)
  | .ite init cond body other => inScope do
    optional init (init.exec s fuel)
    if ← onHeap fun v => do (← cond.eval s v).asBool then inScope (execAll s fuel body)
    else otherwise other (other.exec s fuel)
  | .loop init cond post body => inScope do
    optional init (init.exec s fuel)
    turns "" (condition s cond) (inScope (execAll s fuel body))
      (optional post (post.exec s fuel)) fuel
  | .labeled label (.loop init cond post body) => inScope do
    optional init (init.exec s fuel)
    turns label (condition s cond) (inScope (execAll s fuel body))
      (optional post (post.exec s fuel)) fuel
  | .labeled label stmt => do
    match ← stmt.exec s fuel with
    | .brk l => pure (if l = label then .normal else .brk l)
    | c => pure c
  | .switch init tag clauses => inScope do
    optional init (init.exec s fuel)
    match ← chooseClause s tag clauses with
    | none => pure .normal
    | some i => execFrom s fuel i clauses
  | .branch .brk label => pure (.brk (label.getD ""))
  | .branch .cont label => pure (.cont (label.getD ""))
  | .branch .fallthrough _ => pure .fall
  | .branch .goto _ => pure .normal
  | .empty => pure .normal
  | stmt => throw (.badStmt stmt.kind)

/-- Executes statements until one of them ends in a branch. -/
def execAll (s : Session) (fuel : Nat) : List Stmt → Eff Memory Control
  | [] => pure .normal
  | stmt :: stmts => do
    match ← stmt.exec s fuel with
    | .normal => execAll s fuel stmts
    | c => pure c

/-- Executes the clauses of a switch after the first `i`, as far as they fall
through. -/
def execFrom (s : Session) (fuel : Nat) : Nat → List Clause → Eff Memory Control
  | _, [] => pure .normal
  | i + 1, _ :: cs => execFrom s fuel i cs
  | 0, c :: cs => do
    match ← inScope (c.exec s fuel) with
    | .fall => execFrom s fuel 0 cs
    | .brk l => pure (if l = "" then .normal else .brk l)
    | ctl => pure ctl

/-- Executes the statements of a clause. -/
def Clause.exec (s : Session) (fuel : Nat) : Clause → Eff Memory Control
  | .case _ body => execAll s fuel body
  | .default body => execAll s fuel body

end

end YieldMachine
