import YieldMachine.Interp.Exec

/-!
# Running state tables

A state runs its operations until one of them transfers control.  Tables are driven
through sequences like every other machine, and a table may ask generators of the
heap for elements, which may be running tables themselves; `depth` bounds how deep
that goes.
-/

namespace YieldMachine

/-- A jump to a state, which has to exist. -/
def jumpTo (s : Session) (states : Array (List Op)) (goal : Nat) (value : Expr) :
    Eff Memory (Bounce TableStep Value) :=
  if goal < states.size then
    match value with
    | .missing => pure (.goto (.enter goal))
    | value => do return .emit (.enter goal) (← onHeap fun v => value.eval s v)
  else throw .invalid

/-- The position of the first arm that lists the tag. -/
def matchingArm? (s : Session) (v : View) (tag : Value) : Nat → List Arm → Eff Heap (Option Nat)
  | _, [] => pure none
  | i, .default _ :: arms => matchingArm? s v tag (i + 1) arms
  | i, .case values _ :: arms => do
    if ← matchesAny s v tag values then pure (some i) else matchingArm? s v tag (i + 1) arms

/-- The position of the last default arm. -/
def defaultArm? : Nat → List Arm → Option Nat
  | _, [] => none
  | i, arm :: arms =>
    match defaultArm? (i + 1) arms with
    | some j => some j
    | none => if arm.isDefault then some i else none

/-- The position of the arm that a dispatch runs. -/
def chooseArm (s : Session) (tag : Expr) (arms : List Arm) : Eff Memory (Option Nat) :=
  onHeap fun v => do
    let value ←
      match tag with
      | .missing => pure (.bool true)
      | tag => tag.eval s v
    match ← matchingArm? s v value 0 arms with
    | some i => pure (some i)
    | none => pure (defaultArm? 0 arms)

mutual

/-- Runs an operation; the result is its transfer, if it has one. -/
def Op.run (s : Session) (states : Array (List Op)) (fuel : Nat) :
    Op → Eff Memory (Option (Bounce TableStep Value))
  | .exec stmt => do
    let _ ← inScope (stmt.exec s fuel)
    pure none
  | .jump goal value => do return some (← jumpTo s states goal value)
  | .finish => pure (some (.goto .stop))
  | .when cond ops => do
    if ← onHeap fun v => do (← cond.eval s v).asBool then runOps s states fuel ops
    else pure none
  | .choose cond ops others => do
    if ← onHeap fun v => do (← cond.eval s v).asBool then runOps s states fuel ops
    else runOps s states fuel others
  | .dispatch tag arms => do
    match ← chooseArm s tag arms with
    | some i => runArm s states fuel i arms
    | none => pure none

/-- Runs operations up to the first transfer. -/
def runOps (s : Session) (states : Array (List Op)) (fuel : Nat) :
    List Op → Eff Memory (Option (Bounce TableStep Value))
  | [] => pure none
  | op :: ops => do
    match ← op.run s states fuel with
    | some b => pure (some b)
    | none => runOps s states fuel ops

/-- Runs the arm at a position. -/
def runArm (s : Session) (states : Array (List Op)) (fuel : Nat) :
    Nat → List Arm → Eff Memory (Option (Bounce TableStep Value))
  | _, [] => pure none
  | 0, arm :: _ => arm.run s states fuel
  | i + 1, _ :: arms => runArm s states fuel i arms

/-- Runs the operations of an arm. -/
def Arm.run (s : Session) (states : Array (List Op)) (fuel : Nat) :
    Arm → Eff Memory (Option (Bounce TableStep Value))
  | .case _ ops => runOps s states fuel ops
  | .default ops => runOps s states fuel ops

end

/-- Takes a deferred step of a table. -/
def tableStep (s : Session) (states : Array (List Op)) (fuel : Nat) :
    TableStep → Eff Memory (Bounce TableStep Value)
  | .stop => pure .done
  | .enter state => do
    match states[state]? with
    | none => throw .invalid
    | some ops =>
      match ← runOps s states fuel ops with
      | some b => pure b
      | none => throw (.fellThrough state)

/-- Runs a computation of a machine with the given fields on the shared heap. -/
def withFields {α : Type} (fields : Bindings) (f : Eff Memory α) :
    Eff Heap (α × Bindings) := fun h =>
  match f ⟨fields, [], h⟩ with
  | .ok a m => .ok (a, m.fields) m.heap
  | .error e m => .error e m.heap

/-- Replaces a generator of the heap. -/
def setGenerator (id : Nat) (g : HeapGenerator) : Eff Heap Unit :=
  modify fun h => { h with generators := h.generators.setIfInBounds id g }

/-- Whether a generator of the heap has another element. -/
def generatorHasNext (id : Nat) : Eff Heap Bool := do
  match (← get).generators[id]? with
  | none => throw .invalid
  | some (.items rest) => pure !rest.isEmpty
  | some (.running _ _ ahead) => pure ahead.hasNext

/-- How the generators of the heap are asked for elements. -/
def heapSupply (host : Host) (fuel : Nat) : Nat → Supply Heap Nat Value
  | 0 => ⟨fun _ => throw .exhausted, fun _ => throw .exhausted⟩
  | depth + 1 =>
    { hasNext := fun id => do return (← generatorHasNext id, id)
      next := fun id => do
        match (← get).generators[id]? with
        | none => throw .invalid
        | some (.items []) => pure (.nil, id)
        | some (.items (value :: rest)) =>
          setGenerator id (.items rest)
          pure (value, id)
        | some (.running table fields ahead) =>
          let session := ⟨table.recv, table.runtime, host, heapSupply host fuel depth⟩
          let ((value, ahead), fields) ←
            withFields fields (ahead.next (tableStep session table.states fuel) fuel .nil)
          setGenerator id (.running table fields ahead)
          pure (value, id) }

/-- Instantiates a holder with the given arguments, and runs it to its first element.
Fields without an argument start as nil. -/
def Holder.start (h : Holder) (host : Host) (fuel depth : Nat) (args : Bindings) :
    Eff Heap Nat := do
  let table := h.table
  let fields := (h.fields.map fun (name, _) => (name, Value.nil)) ++ args
  let fields := fields.foldl (fun b (name, value) => Bindings.put b name value) []
  let session := ⟨table.recv, table.runtime, host, heapSupply host fuel depth⟩
  let (ahead, fields) ←
    withFields fields
      (Sequence.start (tableStep session table.states fuel) fuel (.enter entryState))
  fun heap =>
    let (heap, id) := heap.addGenerator (.running table fields ahead)
    .ok id heap

end YieldMachine
