import YieldMachine.Exchange.Table
import YieldMachine.Interp.Run
import YieldMachine.Table.Lowering

/-!
# Values as documents

Plain values stand for themselves.  Records mark the others: code points, the unit
value, functions, byte strings that are no text, and everything that is not to be
looked into.
-/

namespace YieldMachine

/-- Writes a byte string. -/
def bytesToDoc (bs : Bytes) : Doc :=
  match textOf? bs with
  | some s => .text s
  | none => .record [("bytes", .text (hexOf bs))]

/-- Writes a value, following lists `depth` levels deep. -/
def Value.toDoc (h : Heap) : Nat → Value → Doc
  | _, .nil => .null
  | _, .bool b => .bool b
  | _, .int n => .int n.toInt
  | _, .text bytes => bytesToDoc bytes
  | _, .rune n => .record [("rune", .nat n)]
  | _, .unit => .record [("unit", .bool true)]
  | depth + 1, .list block length => .list ((h.cells block length).map (toDoc h depth))
  | _, .host _ => .record [("func", .bool true)]
  | _, _ => .record [("opaque", .bool true)]

/-- The errors of reading an argument: it is malformed, or a generator in it cannot be
lowered or started. -/
inductive ArgumentError where
  | malformed
  | lowering (cause : LowerError)
  | running (cause : Fault)

/-- Reads a value that holds no generator, adding its lists to the heap. -/
def plainValue? : Doc → Heap → Option (Value × Heap)
  | .null, h => some (.nil, h)
  | .bool b, h => some (.bool b, h)
  | .int n, h => some (.int (Int64.ofInt n), h)
  | .text s, h => some (.text (bytesOf s), h)
  | .list items, h => do
    let (values, h) ← plainValues? items h
    let (h, value) := h.allocate values.length values
    return (value, h)
  | .record [("gen", .list items)], h => do
    let (values, h) ← plainValues? items h
    let (h, id) := h.addGenerator (.items values)
    return (.generator id, h)
  | _, _ => none
where
  /-- Reads a list of such values. -/
  plainValues? : List Doc → Heap → Option (List Value × Heap)
    | [], h => some ([], h)
    | d :: ds, h => do
      let (value, h) ← plainValue? d h
      let (values, h) ← plainValues? ds h
      return (value :: values, h)

mutual

/-- Reads an argument, which may be a lowered generator with arguments of its own. -/
def argument? (fuel depth : Nat) : Doc → Heap → Except ArgumentError (Value × Heap)
  | .record [("args", .record args), ("lowered", fn)], h => do
    let (args, h) ← arguments? fuel depth args h
    let some fn := Routine.ofDoc? fn | .error .malformed
    match fn.lower with
    | .error e => .error (.lowering e)
    | .ok holder =>
      match holder.start .standard fuel depth args h with
      | .ok id h => .ok (.generator id, h)
      | .error e _ => .error (.running e)
  | d, h =>
    match plainValue? d h with
    | some result => .ok result
    | none => .error .malformed

/-- Reads named arguments. -/
def arguments? (fuel depth : Nat) :
    List (String × Doc) → Heap → Except ArgumentError (Bindings × Heap)
  | [], h => .ok ([], h)
  | arg :: args, h => do
    let (binding, h) ← namedArgument? fuel depth arg h
    let (bindings, h) ← arguments? fuel depth args h
    return (binding :: bindings, h)

/-- Reads a named argument. -/
def namedArgument? (fuel depth : Nat) :
    String × Doc → Heap → Except ArgumentError ((String × Value) × Heap)
  | (name, d), h => do
    let (value, h) ← argument? fuel depth d h
    return ((name, value), h)

end

end YieldMachine
