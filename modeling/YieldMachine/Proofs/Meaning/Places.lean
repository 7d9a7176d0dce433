import YieldMachine.Proofs.Meaning.Language

/-!
# A language with arrays

A language in which structs and arrays are values that are copied as a whole, while pointers and
slices refer to the places where values are kept.  A place is a variable or a part of one, so
that a slice of an array and the array itself share their elements.  Walks over slices, texts and
numbers are taken by the cursors of the runtime package; a walk over an array goes over the
elements that the array has when the walk starts.
-/

namespace YieldMachine.Places

/-- A step from a value to a part of it. -/
inductive Part where
  | field (name : String)
  | element (index : Nat)
  deriving DecidableEq, Repr

/-- A variable, or a part of the value that it holds. -/
structure Location where
  root : Nat
  path : List Part
  deriving DecidableEq, Repr

/-- A part of the value that is kept in a place. -/
def Location.inner (l : Location) (part : Part) : Location := { l with path := l.path ++ [part] }

/-- The values of the language. -/
inductive Datum where
  | nil
  | bool (b : Bool)
  | int (n : Int64)
  | text (bytes : Bytes)
  | struct (fields : List (String × Datum))
  | array (elements : List Datum)
  | pointer (target : Location)
  /-- elements of the array that is kept in a place, from position `low` on -/
  | slice (array : Location) (low length capacity : Nat)

/-- The part of a value that a path leads to. -/
def Datum.part? : Datum → List Part → Option Datum
  | d, [] => some d
  | .struct fields, .field x :: path => (fields.lookup x).bind (·.part? path)
  | .array elements, .element i :: path => elements[i]?.bind (·.part? path)
  | _, _ :: _ => none

/-- A value with a new part where a path leads to. -/
def Datum.replace? : Datum → List Part → Datum → Option Datum
  | _, [], new => some new
  | .struct fields, .field x :: path, new => do
    let field ← (← fields.lookup x).replace? path new
    return .struct (fields.map fun (y, old) => if y = x then (y, field) else (y, old))
  | .array elements, .element i :: path, new => do
    return .array (elements.set i (← (← elements[i]?).replace? path new))
  | _, _ :: _, _ => none

/-- Why a program panics. -/
inductive Panic where
  | outOfRange
  | nilPointer
  deriving DecidableEq, Repr

/-- The variables of a program with their values. -/
abbrev Store := List Datum

/-- The value that is kept in a place. -/
def read? (s : Store) (l : Location) : Option Datum := s[l.root]?.bind (·.part? l.path)

/-- The store after a value was put in a place. -/
def write? (s : Store) (l : Location) (value : Datum) : Option Store := do
  return s.set l.root (← (← s[l.root]?).replace? l.path value)

/-- Results of evaluations, which change nothing. -/
abbrev Result (α : Type) := Except (Stop Panic) α

/-- What is there, if anything. -/
def found {α : Type} : Option α → Result α
  | some a => pure a
  | none => throw .meaningless

/-- What an expression stands for: a place with what is kept there, or just a value. -/
inductive Operand where
  | location (l : Location)
  | value (d : Datum)

namespace Operand

variable (s : Store)

/-- The value of an operand. -/
def datum : Operand → Result Datum
  | .location l => found (read? s l)
  | .value d => pure d

/-- The number that an operand is. -/
def int (o : Operand) : Result Int64 := do
  match ← o.datum s with
  | .int n => pure n
  | _ => throw .meaningless

/-- A field of an operand, also through a pointer. -/
def field (o : Operand) (x : String) : Result Operand := do
  match ← o.datum s, o with
  | .pointer l, _ => pure (.location (l.inner (.field x)))
  | .struct _, .location l => pure (.location (l.inner (.field x)))
  | .struct fields, .value _ => return .value (← found (fields.lookup x))
  | .nil, _ => throw (.fault .nilPointer)
  | _, _ => throw .meaningless

/-- An index that is less than a length. -/
def index (i : Int64) (length : Nat) : Result Nat :=
  if 0 ≤ i.toInt ∧ i.toInt < length then pure i.toInt.toNat else throw (.fault .outOfRange)

/-- An element of an operand, also through a pointer. -/
def element (o : Operand) (i : Int64) : Result Operand := do
  match ← o.datum s, o with
  | .array elements, .location l =>
    return .location (l.inner (.element (← index i elements.length)))
  | .array elements, .value _ => return .value (← found elements[← index i elements.length]?)
  | .slice l low length _, _ => return .location (l.inner (.element (low + (← index i length))))
  | .pointer l, _ =>
    match read? s l with
    | some (.array elements) => return .location (l.inner (.element (← index i elements.length)))
    | _ => throw .meaningless
  | .nil, _ => throw (.fault .outOfRange)
  | _, _ => throw .meaningless

/-- What a pointer points to. -/
def target (o : Operand) : Result Operand := do
  match ← o.datum s with
  | .pointer l => pure (.location l)
  | .nil => throw (.fault .nilPointer)
  | _ => throw .meaningless

/-- The slice of all elements of an operand: of an array that is kept somewhere, also behind a
pointer, or of a slice. -/
def whole (o : Operand) : Result (Location × Nat × Nat × Nat) := do
  match ← o.datum s, o with
  | .array elements, .location l => pure (l, 0, elements.length, elements.length)
  | .slice l low length capacity, _ => pure (l, low, length, capacity)
  | .pointer l, _ =>
    match read? s l with
    | some (.array elements) => pure (l, 0, elements.length, elements.length)
    | _ => throw .meaningless
  | _, _ => throw .meaningless

/-- A slice of an operand between optional bounds. -/
def slice (o : Operand) (low high : Option Int64) : Result Datum := do
  let (l, start, length, capacity) ← o.whole s
  let high ← match high with
    | some high => index high (capacity + 1)
    | none => pure length
  let low ← match low with
    | some low => index low (high + 1)
    | none => pure 0
  return .slice l (start + low) (high - low) (capacity - low)

end Operand

/-- Whether two values are equal. -/
def same? : Datum → Datum → Option Bool
  | .bool a, .bool b => some (a == b)
  | .int m, .int n => some (m == n)
  | .text a, .text b => some (a == b)
  | .pointer l, .pointer k => some (l == k)
  | .nil, .nil => some true
  | .pointer _, .nil | .nil, .pointer _ | .slice _ _ _ _, .nil | .nil, .slice _ _ _ _ => some false
  | _, _ => none

/-- The value of an operator on two values. -/
def apply (op : BinaryOp) (x y : Datum) : Result Datum :=
  match op, x, y with
  | .eq, x, y => return .bool (← found (same? x y))
  | .ne, x, y => return .bool (!(← found (same? x y)))
  | .add, .int m, .int n => pure (.int (m + n))
  | .sub, .int m, .int n => pure (.int (m - n))
  | .mul, .int m, .int n => pure (.int (m * n))
  | .lt, .int m, .int n => pure (.bool (m < n))
  | .le, .int m, .int n => pure (.bool (m ≤ n))
  | .gt, .int m, .int n => pure (.bool (n < m))
  | .ge, .int m, .int n => pure (.bool (n ≤ m))
  | .add, .text a, .text b => pure (.text (a ++ b))
  | _, _, _ => throw .meaningless

/-- What a name stands for that is no variable. -/
def constant : String → Result Datum
  | "true" => pure (.bool true)
  | "false" => pure (.bool false)
  | "nil" => pure .nil
  | _ => throw .meaningless

/-- The value of a literal. -/
def literal (kind : LitKind) (text : String) : Result Datum :=
  match kind, readDecimal text, unquote? text with
  | .int, .ok n, _ => pure (.int (Int64.ofInt n))
  | .string, _, some bytes => pure (.text bytes)
  | _, _, _ => throw .meaningless

/-- What an expression stands for. -/
def operand (names : List (String × Nat)) (s : Store) : Expr → Result Operand
  | .ident x _ =>
    match names.lookup x with
    | some root => pure (.location ⟨root, []⟩)
    | none => return .value (← constant x)
  | .lit kind text => return .value (← literal kind text)
  | .paren x => operand names s x
  | .sel x member => do (← operand names s x).field s member
  | .index x i => do (← operand names s x).element s (← (← operand names s i).int s)
  | .star x => do (← operand names s x).target s
  | .slice x low high .missing false => do
    let o ← operand names s x
    let low ←
      if low.isMissing then pure none else do pure (some (← (← operand names s low).int s))
    let high ←
      if high.isMissing then pure none else do pure (some (← (← operand names s high).int s))
    return .value (← o.slice s low high)
  | .unary .address x => do
    match ← operand names s x with
    | .location l => pure (.value (.pointer l))
    | .value _ => throw .meaningless
  | .unary .minus x => do return .value (.int (-(← (← operand names s x).int s)))
  | .unary .not x => do
    match ← (← operand names s x).datum s with
    | .bool b => pure (.value (.bool !b))
    | _ => throw .meaningless
  | .binary .land x y => do
    match ← (← operand names s x).datum s with
    | .bool true => return .value (← (← operand names s y).datum s)
    | .bool false => pure (.value (.bool false))
    | _ => throw .meaningless
  | .binary .lor x y => do
    match ← (← operand names s x).datum s with
    | .bool false => return .value (← (← operand names s y).datum s)
    | .bool true => pure (.value (.bool true))
    | _ => throw .meaningless
  | .binary op x y => do
    return .value
      (← apply op (← (← operand names s x).datum s) (← (← operand names s y).datum s))
  | _ => throw .meaningless

/-- The value of an expression. -/
def value (names : List (String × Nat)) (s : Store) (e : Expr) : Result Datum := do
  (← operand names s e).datum s

/-- The place that an assignment to an expression changes; there is none for a blank name. -/
def assigned? (names : List (String × Nat)) (s : Store) (e : Expr) : Result (Option Location) := do
  if e.isName "_" then return none
  match ← operand names s e with
  | .location l => return some l
  | .value _ => throw .meaningless

/-- Writes values to places, one after the other. -/
def writeAll (s : Store) : List (Option Location × Datum) → Result Store
  | [] => pure s
  | (none, _) :: writes => writeAll s writes
  | (some l, value) :: writes => do writeAll (← found (write? s l value)) writes

/-- Runs an assignment, which evaluates its operands before it writes. -/
def assignAll (names : List (String × Nat)) (s : Store) (targets : List Expr)
    (values : List Datum) : Result Store := do
  if targets.length = values.length then
    writeAll s ((← targets.mapM (assigned? names s)).zip values)
  else throw .meaningless

/-- The store after a simple statement. -/
def run (names : List (String × Nat)) (s : Store) : Stmt → Result Store
  | .empty => pure s
  | .expr x => do
    let _ ← value names s x
    return s
  | .assign .set lhs rhs => do assignAll names s lhs (← rhs.mapM (value names s))
  | .assign (.update op) [x] [y] => do
    assignAll names s [x] [← apply op (← value names s x) (← value names s y)]
  | .incDec increment x => do
    assignAll names s [x] [← apply (if increment then .add else .sub) (← value names s x) (.int 1)]
  | _ => throw .meaningless

/-- The zero value of a type. -/
def zero : Expr → Result Datum
  | .ident "int" _ => pure (.int 0)
  | .ident "bool" _ => pure (.bool false)
  | .ident "string" _ => pure (.text [])
  | .array .missing _ => pure .nil
  | .array (.lit .int text) element =>
    match readDecimal text with
    | .ok n => return .array (List.replicate n.toNat (← zero element))
    | .error _ => throw .meaningless
  | .star _ => pure .nil
  | .paren x => zero x
  | _ => throw .meaningless

/-- How far a walk has come. -/
inductive Walk where
  /-- over elements of the array that is kept in a place -/
  | kept (array : Location) (low : Nat) (cursor : SliceCursor)
  /-- over elements that were copied -/
  | copied (elements : List Datum) (cursor : SliceCursor)
  | text (cursor : TextCursor)
  | count (cursor : CountCursor)

/-- Starts to walk over a value. -/
def start : Iterable → Datum → Result Walk
  | .slice, .slice l low length _ => pure (.kept l low (.start length))
  | .slice, .nil => pure (.copied [] (.start 0))
  | .array, .array elements => pure (.copied elements (.start elements.length))
  | .text, .text bytes => pure (.text (.start bytes))
  | .integer, .int n => pure (.count (.start intWidth n.toInt))
  | _, _ => throw .meaningless

/-- Whether a walk goes on. -/
def Walk.hasNext : Walk → Bool
  | .kept _ _ c => c.hasNext
  | .copied _ c => c.hasNext
  | .text c => c.hasNext
  | .count c => c.hasNext

/-- A position with the element there. -/
def row (item : Nat × Datum) : Datum × Datum := (.int (Int64.ofNat item.1), item.2)

/-- The next key and value of a walk. -/
def Walk.next (s : Store) : Walk → Result ((Datum × Datum) × Walk)
  | .kept l low c => do
    let (item, c) := c.next fun i => read? s (l.inner (.element (low + i)))
    return (row (← found item), .kept l low c)
  | .copied elements c => do
    let (item, c) := c.next fun i => elements[i]?
    return (row (← found item), .copied elements c)
  | .text c =>
    let ((offset, rune), c) := c.next
    pure (row (offset, .int (Int64.ofNat rune)), .text c)
  | .count c =>
    let (i, c) := c.next
    pure ((.int (Int64.ofInt i), .struct []), .count c)

/-- What the language computes with. -/
abbrev domain : Domain := ⟨Datum, Nat, Store, Panic, Walk⟩

/-- An evaluation, as a computation over the store. -/
def looking {α : Type} (f : Store → Result α) : domain.Eff α := fun s =>
  match f s with
  | .ok a => .ok a s
  | .error e => .error e s

/-- A change of the store. -/
def changing (f : Store → Result Store) : domain.Eff Unit := fun s =>
  match f s with
  | .ok t => .ok () t
  | .error e => .error e s

/-- Makes a new variable. -/
def allocate (value : Datum) : domain.Eff Nat := fun s =>
  .ok (List.length s) (List.append s [value])

/-- The language. -/
@[reducible]
def language : Language where
  toDomain := domain
  eval e names := looking fun s => value names s e
  evalAll count es names := looking fun s =>
    if es.length = count then es.mapM (value names s) else throw .meaningless
  truth v := looking fun _ =>
    match v with
    | .bool b => pure b
    | _ => throw .meaningless
  equal x y := looking fun _ => found (same? x y)
  run stmt names := changing fun s => Places.run names s stmt
  assign targets names := changing fun s =>
    assignAll names s (targets.map Prod.fst) (targets.map Prod.snd)
  fresh type initial := do
    allocate (← match initial with
      | some v => pure v
      | none => looking fun _ => zero type)
  put place v := changing fun s => found (write? s ⟨place, []⟩ v)
  renew place := do allocate (← looking fun s => found (read? s ⟨place, []⟩))
  start kind v := looking fun _ => Places.start kind v
  hasNext walk := pure walk.hasNext
  next walk := looking walk.next

section Parts

theorem Datum.part?_append (d : Datum) (path inner : List Part) :
    d.part? (path ++ inner) = (d.part? path).bind (·.part? inner) := by
  induction path generalizing d with
  | nil => rfl
  | cons part path ih =>
      cases d <;> cases part <;> try rfl
      · rename_i fields x
        cases hfield : fields.lookup x <;> simp [Datum.part?, hfield, ih]
      · rename_i elements k
        cases helement : elements[k]? <;> simp [Datum.part?, helement, ih]

theorem lookup_map_update {fields : List (String × Datum)} {x : String} {old : Datum}
    (h : fields.lookup x = some old) (new : Datum) :
    (fields.map fun (y, d) => if y = x then (y, new) else (y, d)).lookup x = some new := by
  induction fields with
  | nil => cases h
  | cons entry fields ih =>
      obtain ⟨y, d⟩ := entry
      by_cases hy : y = x
      · subst hy
        simp
      · have hyx : (x == y) = false := beq_false_of_ne (Ne.symm hy)
        simp only [List.lookup_cons, hyx] at h
        simp only [List.map_cons, if_neg hy, List.lookup_cons, hyx]
        exact ih h

/-- Replacing an element of an array that a path leads to sets it there. -/
theorem Datum.replace?_element {d : Datum} {path : List Part} {cells : List Datum}
    (h : d.part? path = some (.array cells)) {i : Nat} (hi : i < cells.length) (new : Datum) :
    ∃ d', d.replace? (path ++ [.element i]) new = some d' ∧
      d'.part? path = some (.array (cells.set i new)) := by
  induction path generalizing d with
  | nil =>
      obtain rfl := Option.some.inj h
      refine ⟨.array (cells.set i new), ?_, rfl⟩
      simp [Datum.replace?, List.getElem?_eq_getElem hi]
  | cons part path ih =>
      cases part with
      | field x =>
          cases d with
          | struct fields =>
              obtain ⟨old, hfield, hold⟩ := Option.bind_eq_some_iff.mp h
              obtain ⟨d', hreplace, hpart⟩ := ih hold
              refine ⟨.struct _, by simp [Datum.replace?, hfield, hreplace]; rfl, ?_⟩
              simp only [Datum.part?, lookup_map_update hfield, Option.bind_some, hpart]
          | _ => cases h
      | element k =>
          cases d with
          | array elements =>
              obtain ⟨old, helement, hold⟩ := Option.bind_eq_some_iff.mp h
              obtain ⟨d', hreplace, hpart⟩ := ih hold
              have hk := (List.getElem?_eq_some_iff.mp helement).1
              refine ⟨.array (elements.set k d'), by simp [Datum.replace?, helement, hreplace], ?_⟩
              simp only [Datum.part?, List.getElem?_set_self hk, Option.bind_some, hpart]
          | _ => cases h

end Parts

section Arrays

variable {s : Store} {l : Location} {cells : List Datum}

/-- An element of an array that is kept in a place is a part of the place. -/
theorem read?_element (h : read? s l = some (.array cells)) (k : Nat) :
    read? s (l.inner (.element k)) = cells[k]? := by
  obtain ⟨d, hroot, hpart⟩ := Option.bind_eq_some_iff.mp h
  simp only [read?, Location.inner, hroot, Option.bind_some, Datum.part?_append, hpart, Datum.part?]
  cases cells[k]? <;> rfl

/-- Writing to an element of an array sets it in the array. -/
theorem write?_element (h : read? s l = some (.array cells)) {i : Nat} (hi : i < cells.length)
    (new : Datum) :
    ∃ t, write? s (l.inner (.element i)) new = some t ∧
      read? t l = some (.array (cells.set i new)) := by
  obtain ⟨d, hroot, hpart⟩ := Option.bind_eq_some_iff.mp h
  obtain ⟨d', hreplace, hpart'⟩ := Datum.replace?_element hpart hi new
  have hlt := (List.getElem?_eq_some_iff.mp hroot).1
  refine ⟨s.set l.root d', ?_, ?_⟩
  · simp only [write?, Location.inner, hroot, hreplace, Option.pure_def, Option.bind_eq_bind,
      Option.bind_some]
  · simp only [read?, List.getElem?_set_self hlt, Option.bind_some, hpart']

end Arrays

section Addressable

variable {s : Store} {names : List (String × Nat)}

theorem Result.bind_eq_ok {α β : Type} {x : Result α} {f : α → Result β} {b : β} :
    x >>= f = .ok b ↔ ∃ a, x = .ok a ∧ f a = .ok b := by
  cases x with
  | error e => exact ⟨nofun, nofun⟩
  | ok a => exact ⟨fun h => ⟨a, rfl, h⟩, fun ⟨_, ha, h⟩ => Except.ok.inj ha ▸ h⟩

/-- Whether an operand is a place, or else a value that has no parts. -/
def Operand.Anchored : Operand → Prop
  | .location _ => True
  | .value d => d = .nil ∨ ∃ b, d = .bool b

/-- What is kept in the place of an operand that has parts. -/
theorem Operand.Anchored.array {o : Operand} (h : o.Anchored) {cells : List Datum}
    (hdatum : o.datum s = .ok (.array cells)) :
    ∃ l, o = .location l ∧ read? s l = some (.array cells) := by
  cases o with
  | location l =>
      refine ⟨l, rfl, ?_⟩
      cases hread : read? s l with
      | none => simp only [Operand.datum, hread] at hdatum; cases hdatum
      | some d =>
          simp only [Operand.datum, hread] at hdatum
          exact congrArg some (Except.ok.inj hdatum)
  | value d =>
      obtain rfl | ⟨b, rfl⟩ := h <;> cases hdatum

theorem Operand.Anchored.field {o o' : Operand} (h : o.Anchored) {x : String}
    (hfield : o.field s x = .ok o') : o'.Anchored := by
  obtain ⟨d, hdatum, hfield⟩ := Result.bind_eq_ok.mp hfield
  cases o with
  | location l =>
      cases d <;> cases hfield <;> trivial
  | value d =>
      obtain rfl := Except.ok.inj hdatum
      obtain rfl | ⟨b, rfl⟩ := h <;> cases hfield

theorem Operand.Anchored.element {o o' : Operand} (h : o.Anchored) {i : Int64}
    (helement : o.element s i = .ok o') : o'.Anchored := by
  obtain ⟨d, hdatum, helement⟩ := Result.bind_eq_ok.mp helement
  cases o with
  | location l =>
      cases d with
      | array elements =>
          obtain ⟨k, -, hk⟩ := Result.bind_eq_ok.mp helement
          obtain rfl := Except.ok.inj hk
          trivial
      | slice l low length capacity =>
          obtain ⟨k, -, hk⟩ := Result.bind_eq_ok.mp helement
          obtain rfl := Except.ok.inj hk
          trivial
      | pointer l =>
          simp only at helement
          split at helement
          · obtain ⟨k, -, hk⟩ := Result.bind_eq_ok.mp helement
            obtain rfl := Except.ok.inj hk
            trivial
          · cases helement
      | _ => cases helement
  | value d =>
      obtain rfl := Except.ok.inj hdatum
      obtain rfl | ⟨b, rfl⟩ := h <;> cases helement

theorem Operand.target_anchored {o o' : Operand} (htarget : o.target s = .ok o') :
    o'.Anchored := by
  obtain ⟨d, -, htarget⟩ := Result.bind_eq_ok.mp htarget
  cases d <;> cases htarget
  trivial

theorem constant_anchored {x : String} {d : Datum} (h : constant x = .ok d) :
    (Operand.value d).Anchored := by
  unfold constant at h
  split at h <;> cases h
  · exact .inr ⟨true, rfl⟩
  · exact .inr ⟨false, rfl⟩
  · exact .inl rfl

end Addressable

end YieldMachine.Places
