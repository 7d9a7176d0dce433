import YieldMachine.Machine.Cursor
import YieldMachine.Machine.Supply
import YieldMachine.Table.Basic

/-!
# Values and storage of a running table

Lists are references: a list value names a block of the heap and how many of its
cells it uses.  Two lists may share a block, and appending within a block writes to
it.  Cursors and generators live in the heap as well.
-/

namespace YieldMachine

/-- Values of a running table.  A function is one of the host's, by its name. -/
inductive Value where
  | nil
  | bool (b : Bool)
  | int (n : Int64)
  | text (bytes : Bytes)
  | rune (n : Nat)
  | unit
  | list (block length : Nat)
  | host (name : String)
  | cursor (id : Nat)
  | generator (id : Nat)
  deriving DecidableEq

instance : Inhabited Value := ⟨.nil⟩

/-- Names with their values, the latest first. -/
abbrev Bindings := List (String × Value)

/-- Gives a bound name a new value. -/
def Bindings.update (b : Bindings) (name : String) (value : Value) : Bindings :=
  b.map fun (x, v) => if x == name then (x, value) else (x, v)

/-- Binds a name, or gives a bound name a new value. -/
def Bindings.put (b : Bindings) (name : String) (value : Value) : Bindings :=
  if (b.lookup name).isSome then b.update name value else (name, value) :: b

/-- A deferred step of a running table: entering a state, or the end. -/
inductive TableStep where
  | enter (state : Nat)
  | stop
  deriving DecidableEq, Repr

/-- A cursor of a running table. -/
inductive HeapCursor where
  | slice (block : Nat) (cursor : SliceCursor)
  | text (cursor : TextCursor)
  | count (cursor : CountCursor)
  | each (generator : Nat)

/-- The parts of a holder that running it needs. -/
structure Table where
  recv : String
  runtime : String
  states : Array (List Op)

/-- The table of a holder. -/
def Holder.table (h : Holder) : Table := ⟨h.recv, h.runtime, h.states.toArray⟩

/-- A generator in the heap: the elements that are left, or a running table with its
fields. -/
inductive HeapGenerator where
  | items (rest : List Value)
  | running (table : Table) (fields : Bindings) (ahead : Sequence TableStep Value)

/-- A call of a host function. -/
structure HostCall where
  name : String
  args : List Value

/-- The storage that all generators of a run share, and the calls of host functions that
were made. -/
structure Heap where
  blocks : Array (Array Value)
  cursors : Array HeapCursor
  generators : Array HeapGenerator
  calls : Array HostCall

/-- The storage before anything runs. -/
def Heap.empty : Heap := ⟨#[], #[], #[], #[]⟩

namespace Heap

/-- The sizes in bytes that storage is handed out in. -/
def blockSizes : List Nat :=
  [16, 32, 48, 64, 80, 96, 112, 128, 144, 160, 176, 192, 208, 224, 240, 256, 288, 320, 352,
    384, 416, 448, 480, 512, 576, 640, 704, 768, 896, 1024, 1152, 1280, 1408, 1536, 1792,
    2048, 2304, 2688, 3072, 3200, 3456, 4096, 4864, 5120, 5376, 6144, 6528, 6784, 6912, 8192,
    9472, 9728, 10240, 10880, 12288, 13568, 14336, 16384, 18432, 19072, 20480, 21760, 24576,
    27264, 28672, 32768]

/-- The number of cells of 16 bytes in the block handed out for `cells` of them.  Blocks
of more than 512 bytes carry a header of 8 bytes, and large blocks are whole pages. -/
def roundedCells (cells : Nat) : Nat :=
  if cells = 0 then 0 else
  let size := cells * 16
  let header := if 512 < size then 8 else 0
  match blockSizes.find? (size + header ≤ ·) with
  | some block => (block - header) / 16
  | none => ((size + 8191) / 8192 * 8192) / 16

/-- The capacity of a full block after it grows by a quarter until `needed` cells fit. -/
def growByQuarter (needed : Nat) : Nat → Nat → Nat
  | 0, capacity => capacity
  | bound + 1, capacity =>
    let grown := capacity + (capacity + 768) / 4
    if needed ≤ grown then grown else growByQuarter needed bound grown

/-- The capacity of the block that replaces one of `capacity` cells when `needed` cells
do not fit: small blocks double. -/
def grownCapacity (capacity needed : Nat) : Nat :=
  roundedCells <|
    if 2 * capacity < needed then needed
    else if capacity < 256 then 2 * capacity
    else growByQuarter needed needed capacity

/-- Adds a block of a given capacity, unused cells being nil. -/
def allocate (h : Heap) (capacity : Nat) (cells : List Value) : Heap × Value :=
  let block := (cells ++ List.replicate (capacity - cells.length) Value.nil).toArray
  ({ h with blocks := h.blocks.push block }, .list h.blocks.size cells.length)

/-- The cells that a list uses. -/
def cells (h : Heap) (block length : Nat) : List Value :=
  ((h.blocks.getD block #[]).toList.take length)

/-- Writes cells of a block from an index on. -/
def writeFrom (cells : Array Value) : Nat → List Value → Array Value
  | _, [] => cells
  | i, v :: vs => writeFrom (cells.setIfInBounds i v) (i + 1) vs

/-- Appends to a list: within its block where there is room, in a larger block
otherwise. -/
def append (h : Heap) (block length : Nat) (values : List Value) : Heap × Value :=
  let capacity := (h.blocks.getD block #[]).size
  let needed := length + values.length
  if needed ≤ capacity then
    ({ h with blocks := h.blocks.modify block (writeFrom · length values) }, .list block needed)
  else
    h.allocate (grownCapacity capacity needed) (h.cells block length ++ values)

/-- The capacity of a list that was built by appending `n` elements one by one. -/
def builtCapacity : Nat → Nat
  | 0 => 0
  | n + 1 =>
    let capacity := builtCapacity n
    if n < capacity then capacity else grownCapacity capacity (n + 1)

/-- Adds a cursor. -/
def addCursor (h : Heap) (c : HeapCursor) : Heap × Value :=
  ({ h with cursors := h.cursors.push c }, .cursor h.cursors.size)

/-- Adds a generator. -/
def addGenerator (h : Heap) (g : HeapGenerator) : Heap × Nat :=
  ({ h with generators := h.generators.push g }, h.generators.size)

/-- The calls of one host function. -/
def callsOf (h : Heap) (name : String) : List HostCall := h.calls.toList.filter (·.name == name)

end Heap

/-- The functions that a table can call and that are not part of it: their names, and what
each call gives on the storage and after the calls before it, nothing if it fails. -/
structure Host where
  knows : String → Bool
  answer : Heap → HostCall → Option Value

/-- The sum of some numbers. -/
def sumOf? (values : List Value) : Option Int64 :=
  values.foldlM (fun n value => match value with
    | .int m => some (n + m)
    | _ => none) 0

/-- The functions that the command lets tables call: one that records its arguments, one
that gives back its argument, one that adds its arguments, and one that counts its calls. -/
def Host.standard : Host where
  knows name := ["trace", "id", "sum", "calls"].contains name
  answer h call :=
    match call.name with
    | "trace" => some .nil
    | "id" => call.args.head?
    | "sum" => (sumOf? call.args).map .int
    | "calls" => some (.int (Int64.ofNat ((h.callsOf "calls").length + 1)))
    | _ => none

end YieldMachine
