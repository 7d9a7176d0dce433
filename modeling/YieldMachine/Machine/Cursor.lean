import YieldMachine.Text.Utf8

/-!
# Cursors

A lowered range loop holds a cursor between its states.  There is one kind for each
kind of operand: lists, byte strings, maps, channels and numbers.  A cursor says
whether there is another key and value, and gives them.
-/

namespace YieldMachine

/-- A cursor over the elements of a list, which are read when they are reached. -/
structure SliceCursor where
  length : Nat
  index : Nat
  deriving DecidableEq, Repr

namespace SliceCursor

/-- A cursor at the start of a list of a given length. -/
def start (length : Nat) : SliceCursor := ⟨length, 0⟩

/-- Whether there is another element. -/
def hasNext (c : SliceCursor) : Bool := c.index < c.length

/-- The position reached and the element there, if the list holds one; the cursor moves
on in either case. -/
def next {α : Type} (c : SliceCursor) (read : Nat → Option α) : Option (Nat × α) × SliceCursor :=
  let item := if c.index < c.length then (read c.index).map (c.index, ·) else none
  (item, { c with index := c.index + 1 })

end SliceCursor

/-- A cursor over the code points of a byte string. -/
structure TextCursor where
  rest : Bytes
  offset : Nat
  deriving DecidableEq, Repr

namespace TextCursor

/-- A cursor at the start of a byte string. -/
def start (bytes : Bytes) : TextCursor := ⟨bytes, 0⟩

/-- Whether there is another code point. -/
def hasNext (c : TextCursor) : Bool := !c.rest.isEmpty

/-- The offset reached and the code point there. -/
def next (c : TextCursor) : (Nat × Nat) × TextCursor :=
  let (rune, width) := decodeRune c.rest
  ((c.offset, rune), ⟨c.rest.drop width, c.offset + width⟩)

end TextCursor

/-- A cursor over the entries that a map had when the cursor was made. -/
structure MapCursor (κ ν : Type) where
  items : Array (κ × ν)
  index : Nat
  deriving DecidableEq, Repr

namespace MapCursor

variable {κ ν : Type}

/-- Copies the entries of a map, in the order in which a loop over the map meets them. -/
def snapshot (entries : List (κ × ν)) : Array (κ × ν) :=
  entries.foldl (fun items (key, value) => items.push (key, value)) #[]

/-- A cursor at the start of a map, whose entries a loop meets in the given order. -/
def start (entries : List (κ × ν)) : MapCursor κ ν := ⟨snapshot entries, 0⟩

/-- Whether there is another entry. -/
def hasNext (c : MapCursor κ ν) : Bool := c.index < c.items.size

/-- The next entry, if there is one. -/
def next (c : MapCursor κ ν) : Option (κ × ν) × MapCursor κ ν :=
  match c.items[c.index]? with
  | some entry => (some entry, { c with index := c.index + 1 })
  | none => (none, c)

end MapCursor

/-- A cursor over a closed channel.  It receives one element ahead when it is asked;
`waiting` holds what it received, which is nothing at the end. -/
structure ChanCursor (α : Type) where
  queue : List α
  waiting : Option (Option α)
  deriving DecidableEq, Repr

namespace ChanCursor

variable {α : Type}

/-- A cursor over a closed channel that holds the given elements. -/
def start (queue : List α) : ChanCursor α := ⟨queue, none⟩

/-- Receives an element unless one is waiting. -/
def prime (c : ChanCursor α) : ChanCursor α :=
  match c.waiting with
  | some _ => c
  | none => ⟨c.queue.tail, some c.queue.head?⟩

/-- Whether there is another element. -/
def hasNext (c : ChanCursor α) : Bool × ChanCursor α :=
  let c := c.prime
  (c.waiting.any Option.isSome, c)

/-- The next element, or `zero` at the end. -/
def next (zero : α) (c : ChanCursor α) : α × ChanCursor α :=
  let c := c.prime
  ((c.waiting.bind id).getD zero, { c with waiting := none })

end ChanCursor

/-- A type of whole numbers: how many bits it has, and whether one of them is a sign. -/
structure IntWidth where
  bits : Nat
  signed : Bool
  deriving DecidableEq, Repr

/-- The number of the type that is congruent to `n` modulo its size. -/
def IntWidth.wrap (w : IntWidth) (n : Int) : Int :=
  if w.signed then n.bmod (Nat.pow 2 w.bits) else n % Nat.pow 2 w.bits

/-- A cursor that counts from 0 up to a limit. -/
structure CountCursor where
  width : IntWidth
  limit : Int
  current : Int
  deriving DecidableEq, Repr

namespace CountCursor

/-- A cursor at 0. -/
def start (width : IntWidth) (limit : Int) : CountCursor := ⟨width, limit, 0⟩

/-- Whether the limit is not reached. -/
def hasNext (c : CountCursor) : Bool := c.current < c.limit

/-- The current number; the one after it may wrap around. -/
def next (c : CountCursor) : Int × CountCursor :=
  (c.current, { c with current := c.width.wrap (c.current + 1) })

end CountCursor

end YieldMachine
