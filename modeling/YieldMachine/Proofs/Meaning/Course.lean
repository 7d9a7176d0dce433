import YieldMachine.Interp.Run

/-!
# Courses of generators

A course says what a computation over a memory does until it ends: it hands over
values, and each time waits for the heap with which it is resumed.  `Action` is the
monad of such computations.  What a consumer sees of a course, of a started sequence or
of a running table is a list of events.
-/

namespace YieldMachine

/-- How a computation goes on: it ends with a result, stops with a fault, or hands over
a value and is resumed with a heap. -/
inductive Course (α : Type) where
  | done (a : α) (m : Memory)
  | fault (e : Fault) (h : Heap)
  | emit (value : Value) (h : Heap) (resume : Heap → Course α)

namespace Course

variable {α β γ : Type}

/-- Goes on with `f` where a course ends. -/
def bind : Course α → (α → Memory → Course β) → Course β
  | .done a m, f => f a m
  | .fault e h, _ => .fault e h
  | .emit value h resume, f => .emit value h fun h => (resume h).bind f

@[simp]
theorem bind_done (a : α) (m : Memory) (f : α → Memory → Course β) :
    (done a m).bind f = f a m := rfl

@[simp]
theorem bind_fault (e : Fault) (h : Heap) (f : α → Memory → Course β) :
    (fault e h).bind f = .fault e h := rfl

@[simp]
theorem bind_emit (value : Value) (h : Heap) (resume : Heap → Course α)
    (f : α → Memory → Course β) :
    (emit value h resume).bind f = .emit value h fun h => (resume h).bind f := rfl

theorem bind_assoc
    (t : Course α) (f : α → Memory → Course β) (g : β → Memory → Course γ) :
    (t.bind f).bind g = t.bind fun a m => (f a m).bind g := by
  induction t with
  | done a m => rfl
  | fault e h => rfl
  | emit value h resume ih =>
      simp only [bind_emit, ih]

theorem bind_done_right (t : Course α) : t.bind (fun a m => .done a m) = t := by
  induction t with
  | done a m => rfl
  | fault e h => rfl
  | emit value h resume ih =>
      simp only [bind_emit, ih]

/-- The course of a computation that hands over nothing. -/
def ofResult : EStateM.Result Fault Memory α → Course α
  | .ok a m => .done a m
  | .error e m => .fault e m.heap

end Course

/-- Computations over a memory that may hand over values. -/
def Action (α : Type) : Type := Memory → Course α

namespace Action

variable {α β γ : Type}

instance : Monad Action where
  pure a := fun m => .done a m
  bind x f := fun m => (x m).bind f

/-- A computation that hands over nothing. -/
def lift (x : Eff Memory α) : Action α := fun m => .ofResult (x m)

instance : MonadLift (Eff Memory) Action := ⟨lift⟩

/-- Stops with a fault. -/
def stop (e : Fault) : Action α := fun m => .fault e m.heap

/-- Hands over a value. -/
def emit (value : Value) : Action Unit := fun m =>
  .emit value m.heap fun h => .done () { m with heap := h }

/-- Runs a computation in a new innermost scope. -/
def inScope (x : Action α) : Action α := fun m =>
  (x { m with frames := [] :: m.frames }).bind fun a m =>
    .done a { m with frames := m.frames.tail }

@[simp]
theorem pure_apply (a : α) (m : Memory) : (pure a : Action α) m = .done a m := rfl

@[simp]
theorem bind_apply (x : Action α) (f : α → Action β) (m : Memory) :
    (x >>= f) m = (x m).bind f := rfl

@[simp]
theorem lift_apply (x : Eff Memory α) (m : Memory) : lift x m = .ofResult (x m) := rfl

@[simp]
theorem monadLift_apply (x : Eff Memory α) (m : Memory) :
    (monadLift x : Action α) m = .ofResult (x m) := rfl

theorem bind_pure (x : Action α) : (x >>= Pure.pure) = x := funext fun m => (x m).bind_done_right

theorem bind_assoc (x : Action α) (f : α → Action β) (g : β → Action γ) :
    (x >>= f) >>= g = x >>= fun a => f a >>= g :=
  funext fun m => (x m).bind_assoc _ _

end Action

/-- What a consumer sees of a generator: an element, the end, or a fault, each with the
heap at that moment. -/
inductive Event where
  | element (value : Value) (h : Heap)
  | finished (h : Heap)
  | stopped (h : Heap)

/-- The events of a course whose consumer changes the heap before each resumption as the
list says, and leaves after the last one.  There are none when the bound on the number of
steps is used up. -/
def Course.events {α : Type} : Course α → List (Heap → Heap) → Option (List Event)
  | .done _ m, _ => some [.finished m.heap]
  | .fault e h, _ => if e = .exhausted then none else some [.stopped h]
  | .emit value h _, [] => some [.element value h]
  | .emit value h resume, change :: changes =>
    ((resume (change h)).events changes).map (.element value h :: ·)

/-- A started table: what it holds ahead, and its fields. -/
abbrev Started := Sequence TableStep Value × Bindings

/-- The events of a table after it was started or resumed with the given result; see
`Course.events`. -/
def tableEvents (s : Session) (states : Array (List Op)) (fuel : Nat) :
    EStateM.Result Fault Heap Started → List (Heap → Heap) → Option (List Event)
  | .error e h, _ => if e = .exhausted then none else some [.stopped h]
  | .ok (⟨none⟩, _) h, _ => some [.finished h]
  | .ok (⟨some (value, _)⟩, _) h, [] => some [.element value h]
  | .ok (⟨some (value, t)⟩, fields) h, change :: changes =>
    (tableEvents s states fuel
      (withFields fields (Sequence.start (tableStep s states fuel) fuel t) (change h))
      changes).map (.element value h :: ·)

/-- The fields of a new holder: every field is nil unless an argument fills it. -/
def Holder.initial (h : Holder) (args : Bindings) : Bindings :=
  let fields := (h.fields.map fun (name, _) => (name, Value.nil)) ++ args
  fields.foldl (fun b (name, value) => Bindings.put b name value) []

/-- Instantiates a holder and runs it to its first element, with a free choice of what is
around. -/
def Holder.begin (h : Holder) (around : Environs) (fuel : Nat)
    (args : Bindings) : Eff Heap Started :=
  withFields (h.initial args)
    (Sequence.start (tableStep ⟨h.recv, h.runtime, around⟩ h.table.states fuel) fuel
      (.enter entryState))

/-- Starting a holder puts what `Holder.begin` gives into the heap. -/
theorem Holder.start_eq_begin (h : Holder) (host : Host) (fuel depth : Nat) (args : Bindings) :
    h.start host fuel depth args = (do
      let (ahead, fields) ← h.begin ⟨host, heapSupply host fuel depth⟩ fuel args
      fun heap =>
        let (heap, id) := heap.addGenerator (.running h.table fields ahead)
        .ok id heap) := rfl

/-- The events of a holder that is started with the given arguments. -/
def Holder.events (h : Holder) (around : Environs) (fuel : Nat)
    (args : Bindings) (heap : Heap) (changes : List (Heap → Heap)) : Option (List Event) :=
  tableEvents ⟨h.recv, h.runtime, around⟩ h.table.states fuel
    (h.begin around fuel args heap) changes

/-- For all large enough bounds the answer is `a`. -/
def Settles {α : Type} (answer : Nat → Option α) (a : α) : Prop :=
  ∃ bound, ∀ n, bound ≤ n → answer n = some a

end YieldMachine
