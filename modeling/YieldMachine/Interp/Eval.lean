import YieldMachine.Interp.Value
import YieldMachine.Text.Quoted
import YieldMachine.Tree.Kind
import YieldMachine.Tree.Token

/-!
# Evaluating expressions

Evaluation reads the fields and local variables of a machine, and changes only the
heap.  The host's functions, and how the generators of the heap are asked for elements, are
parameters (`Session`), so that an expression is evaluated by recursion on its tree.
-/

namespace YieldMachine

/-- What is around a running table: the host's functions, and how generators are asked. -/
structure Environs where
  host : Host
  generators : Supply Heap Nat Value

/-- What evaluation needs to know besides the variables: the name of the receiver, the
name of the runtime package, and what is around. -/
structure Session where
  recv : String
  runtime : String
  around : Environs

/-- The variables that an expression can see: fields, and local variables with the
innermost scope first. -/
structure View where
  fields : Bindings
  frames : List Bindings

/-- The value of a local variable. -/
def View.local? (v : View) (name : String) : Option Value :=
  v.frames.findSome? (·.lookup name)

/-- A truth value. -/
def Value.asBool : Value → Eff Heap Bool
  | .bool b => pure b
  | _ => throw .invalid

/-- A number. -/
def Value.asInt : Value → Eff Heap Int64
  | .int n => pure n
  | _ => throw .invalid

/-- A list. -/
def Value.asList : Value → Eff Heap (Nat × Nat)
  | .list block length => pure (block, length)
  | _ => throw .invalid

/-- A cursor. -/
def Value.asCursor : Value → Eff Heap Nat
  | .cursor id => pure id
  | _ => throw .invalid

/-- Whether two values are equal; lists and functions cannot be compared. -/
def Value.equals : Value → Value → Eff Heap Bool
  | .list _ _, .list _ _ => throw .invalid
  | .host _, .host _ => throw .invalid
  | x, y => pure (decide (x = y))

/-- The value of a binary operator on numbers. -/
def intOperator (op : BinaryOp) (x y : Int64) : Eff Heap Value :=
  match op with
  | .add => pure (.int (x + y))
  | .sub => pure (.int (x - y))
  | .mul => pure (.int (x * y))
  | .quo => if y = 0 then throw .invalid else pure (.int (x / y))
  | .rem => if y = 0 then throw .invalid else pure (.int (x % y))
  | .lt => pure (.bool (x < y))
  | .le => pure (.bool (x ≤ y))
  | .gt => pure (.bool (y < x))
  | .ge => pure (.bool (y ≤ x))
  | op => throw (.badOperator op.text)

/-- The value of a binary operator that evaluates both operands. -/
def applyOperator (op : BinaryOp) (x y : Value) : Eff Heap Value := do
  match op, x, y with
  | .eq, x, y => return .bool (← x.equals y)
  | .ne, x, y => return .bool (!(← x.equals y))
  | .add, .text a, .text b => return .text (a ++ b)
  | .lt, .text a, .text b => return .bool (bytesLt a b)
  | .gt, .text a, .text b => return .bool (bytesLt b a)
  | op, x, y => intOperator op (← x.asInt) (← y.asInt)

/-- The zero value of a type. -/
def zeroValue (type : Expr) : Value :=
  match type.name? with
  | some "int" => .int 0
  | some "string" => .text []
  | some "bool" => .bool false
  | _ => .nil

/-- The value of a literal. -/
def literal (kind : LitKind) (text : String) : Eff Heap Value :=
  match kind with
  | .int =>
    match readDecimal text with
    | .ok n => pure (.int (Int64.ofInt n))
    | .error e => throw (.badNumber (quote text) e)
  | .string =>
    match unquote? text with
    | some bytes => pure (.text bytes)
    | none => throw .badText
  | _ => throw (.badExpr (Expr.lit kind text).kind)

/-- The value of a name. -/
def View.name (v : View) (s : Session) (name : String) : Eff Heap Value :=
  match name with
  | "true" => pure (.bool true)
  | "false" => pure (.bool false)
  | "nil" => pure .nil
  | name =>
    match v.local? name with
    | some value => pure value
    | none => if s.around.host.knows name then pure (.host name) else throw (.unknownName name)

/-- The field that a selector names: the receiver has to stand before it. -/
def View.fieldName (v : View) (s : Session) (x : Expr) (member : String) : Except Fault String :=
  if !x.isName s.recv then .error .badSelector
  else if (v.fields.lookup member).isSome then .ok member
  else .error (.unknownField member)

/-- The value of a field. -/
def View.field (v : View) (s : Session) (x : Expr) (member : String) : Eff Heap Value :=
  match v.fieldName s x member with
  | .ok name => pure ((v.fields.lookup name).getD .nil)
  | .error e => throw e

/-- The element of a list at an index. -/
def element (list index : Value) : Eff Heap Value := do
  let (block, length) ← list.asList
  let i ← index.asInt
  let h ← get
  if 0 ≤ i.toInt ∧ i.toInt < length then
    match (h.blocks.getD block #[])[i.toInt.toNat]? with
    | some value => pure value
    | none => throw .invalid
  else throw .invalid

/-- Calls a host function. -/
def callHost (s : Session) (name : String) (args : List Value) : Eff Heap Value := do
  match s.around.host.answer (← get) ⟨name, args⟩ with
  | none => throw .invalid
  | some value =>
    modify fun h => { h with calls := h.calls.push ⟨name, args⟩ }
    pure value

/-- Makes a change of the heap that gives a value. -/
def changeHeap (f : Heap → Heap × Value) : Eff Heap Value := fun h =>
  let (h, v) := f h
  .ok v h

/-- Appends to a list; anything else counts as the empty list. -/
def callAppend : List Value → Eff Heap Value
  | [] => throw .invalid
  | .list block length :: values => changeHeap (·.append block length values)
  | _ :: values => changeHeap fun h =>
    h.allocate (Heap.grownCapacity 0 values.length) values

/-- The width of the numbers of a table. -/
def intWidth : IntWidth := ⟨64, true⟩

/-- Makes a cursor by the name of its adapter. -/
def makeCursor (name : String) (args : List Value) : Eff Heap Value :=
  match name, args with
  | "Slice", .list block length :: _ =>
    changeHeap (·.addCursor (.slice block (.start length)))
  | "Slice", _ :: _ => changeHeap (·.addCursor (.slice 0 (.start 0)))
  | "String", .text bytes :: _ => changeHeap (·.addCursor (.text (.start bytes)))
  | "Count", .int n :: _ => changeHeap (·.addCursor (.count (.start intWidth n.toInt)))
  | "Each", .generator id :: _ => changeHeap (·.addCursor (.each id))
  | "Slice", _ | "String", _ | "Count", _ | "Each", _ => throw .invalid
  | name, _ => throw (.badAdapter name)

/-- Whether a cursor of the heap has another element. -/
def cursorHasNext (s : Session) (id : Nat) : Eff Heap Bool := do
  match (← get).cursors[id]? with
  | none => throw .invalid
  | some (.slice _ c) => pure c.hasNext
  | some (.text c) => pure c.hasNext
  | some (.count c) => pure c.hasNext
  | some (.each g) => return (← s.around.generators.hasNext g).1

/-- Replaces a cursor of the heap. -/
def setCursor (id : Nat) (c : HeapCursor) : Eff Heap Unit :=
  modify fun h => { h with cursors := h.cursors.setIfInBounds id c }

/-- The next key and value of a cursor of the heap. -/
def cursorNext (s : Session) (id : Nat) : Eff Heap (Value × Value) := do
  let h ← get
  match h.cursors[id]? with
  | none => throw .invalid
  | some (.slice block c) =>
    let (item, c) := c.next fun i => (h.blocks.getD block #[])[i]?
    setCursor id (.slice block c)
    match item with
    | some (i, value) => pure (.int (Int64.ofNat i), value)
    | none => throw .invalid
  | some (.text c) =>
    let ((offset, rune), c) := c.next
    setCursor id (.text c)
    pure (.int (Int64.ofNat offset), .rune rune)
  | some (.count c) =>
    let (i, c) := c.next
    setCursor id (.count c)
    pure (.int (Int64.ofInt i), .unit)
  | some (.each g) => return ((← s.around.generators.next g).1, .unit)

mutual

/-- Evaluates an expression. -/
def Expr.eval (s : Session) (v : View) : Expr → Eff Heap Value
  | .lit kind text => literal kind text
  | .ident name _ => v.name s name
  | .sel x member => v.field s x member
  | .paren x => x.eval s v
  | .unary op x => do
    let value ← x.eval s v
    match op with
    | .not => return .bool (!(← value.asBool))
    | .minus => return .int (-(← value.asInt))
    | op => throw (.badExpr (Expr.unary op x).kind)
  | .binary .land x y => do
    if ← (← x.eval s v).asBool then return .bool (← (← y.eval s v).asBool)
    else return .bool false
  | .binary .lor x y => do
    if ← (← x.eval s v).asBool then return .bool true
    else return .bool (← (← y.eval s v).asBool)
  | .binary op x y => do
    let a ← x.eval s v
    let b ← y.eval s v
    applyOperator op a b
  | .index x i => do
    let list ← x.eval s v
    let _ ← list.asList
    element list (← i.eval s v)
  | .composite _ elements => do
    let values ← evalAll s v elements
    changeHeap (·.allocate (Heap.builtCapacity values.length) values)
  | .star (.call (.ident "new" _) args _) =>
    match args with
    | type :: _ => pure (zeroValue type)
    | [] => throw .invalid
  | .call (.ident "len" kept) args _ => do
    match ← evalHead s v args with
    | .text bytes => pure (.int (Int64.ofNat bytes.length))
    | .list _ length => pure (.int (Int64.ofNat length))
    | _ =>
      match ← v.name s "len" with
      | .host fn => callHost s fn (← evalAll s v args)
      | _ => throw (.badCall (Expr.ident "len" kept).kind)
  | .call (.ident "append" _) args _ => do callAppend (← evalAll s v args)
  | .call (.ident name kept) args _ => do
    match ← v.name s name with
    | .host fn => callHost s fn (← evalAll s v args)
    | _ => throw (.badCall (Expr.ident name kept).kind)
  | .call (.sel x member) args _ => do
    if x.isName s.runtime then makeCursor member (← evalAll s v args)
    else if member = "HasNext" then
      return .bool (← cursorHasNext s (← (← x.eval s v).asCursor))
    else throw (.badCall (Expr.sel x member).kind)
  | .call fn _ _ => throw (.badCall fn.kind)
  | e => throw (.badExpr e.kind)

/-- Evaluates expressions from left to right. -/
def evalAll (s : Session) (v : View) : List Expr → Eff Heap (List Value)
  | [] => pure []
  | e :: es => do
    let value ← e.eval s v
    let values ← evalAll s v es
    pure (value :: values)

/-- Evaluates the first of the expressions. -/
def evalHead (s : Session) (v : View) : List Expr → Eff Heap Value
  | [] => throw .invalid
  | e :: _ => e.eval s v

end

/-- Evaluates an expression with several values. -/
def Expr.evalMulti (s : Session) (v : View) : Expr → Eff Heap (List Value)
  | .call (.sel x "Next") _ _ => do
    let (key, value) ← cursorNext s (← (← x.eval s v).asCursor)
    pure [key, value]
  | e => throw (.badMulti e.kind)

end YieldMachine
