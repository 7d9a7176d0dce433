import YieldMachine.Proofs.Meaning.Course
import YieldMachine.Table.Lowering

/-!
# What a generator body means

`Flow.exec` runs a generator body as it is written: statements in order, over variables
that live in nested scopes.  Expressions and simple statements are evaluated and executed
as in a running table.  A yield hands over its value and the run goes on right after it.
-/

namespace YieldMachine

/-- How a statement of a generator body ends: normally, by a branch that looks for its
target, or by ending the generator.  An empty label stands for none. -/
inductive Ending where
  | normal
  | brk (label : String)
  | cont (label : String)
  | finish
  deriving DecidableEq, Repr

/-- What a loop with the given labels does after its body ended: `none` goes on with the
next round. -/
def Ending.afterBody (labels : List String) : Ending → Option Ending
  | .normal => none
  | .brk l => if l = "" then some .normal else some (.brk l)
  | .cont l => if l = "" ∨ l ∈ labels then none else some (.cont l)
  | .finish => some .finish

/-- How a labelled statement ends: a break to its label is over. -/
def Ending.leave (label : String) : Ending → Ending
  | .brk l => if l = label then .normal else .brk l
  | c => c

/-- The value of an expression. -/
def evaluate (s : Session) (e : Expr) : Eff Memory Value := onHeap fun v => e.eval s v

/-- The truth of a condition. -/
def holds (s : Session) (e : Expr) : Eff Memory Bool :=
  onHeap fun v => do (← e.eval s v).asBool

/-- Whether the name at position `i` has no type of its own: it is an existing variable. -/
def VarDecl.reuses (d : VarDecl) (i : Nat) : Bool := (d.typeAt? i).any Expr.isMissing

/-- Gives a declared name its value; an existing variable is assigned. -/
def VarDecl.bindName (d : VarDecl) (i : Nat) (name : String) (value : Value) :
    Eff Memory Unit :=
  if name = "_" then pure ()
  else if d.reuses i then assignLocal name value
  else bindLocal name value

/-- Gives the names of a declaration from position `i` on their values. -/
def VarDecl.bindNames (d : VarDecl) : Nat → List String → List Value → Eff Memory Unit
  | _, [], _ => pure ()
  | _, _ :: _, [] => throw .invalid
  | i, name :: names, value :: values => do
    d.bindName i name value
    d.bindNames (i + 1) names values

/-- Gives the new names of a declaration from position `i` on the zero values of their
types. -/
def VarDecl.bindZeros (d : VarDecl) : Nat → List String → Eff Memory Unit
  | _, [] => pure ()
  | i, name :: names => do
    if d.reuses i then pure ()
    else d.bindName i name (zeroValue ((d.typeAt? i).getD .missing))
    d.bindZeros (i + 1) names

/-- Runs a declaration: its values see the bindings from before it. -/
def VarDecl.run (s : Session) (d : VarDecl) : Eff Memory Unit :=
  if d.values.isEmpty then d.bindZeros 0 d.names
  else do
    let values ← onHeap fun v =>
      match d.names, d.values with
      | _ :: _ :: _, [e] => e.evalMulti s v
      | _, es => evalAll s v es
    d.bindNames 0 d.names values

/-- Whether the iterator of a loop has another element. -/
def iteratorHasNext (s : Session) (it : Value) : Eff Memory Bool :=
  onHeap fun _ => do cursorHasNext s (← it.asCursor)

/-- Takes the next key and value from the iterator of a loop. -/
def Walk.advance (s : Session) (w : Walk) (it : Value) : Eff Memory Unit := do
  let (key, value) ← onHeap fun _ => do cursorNext s (← it.asCursor)
  store s w.define w.key.orBlank key
  store s w.define w.value.orBlank value

/-- What a case is for, without its statements. -/
def FlowCase.guard : FlowCase → Clause
  | .case values _ => .case values []
  | .default _ => .default []

/-- Takes the rounds of a loop, at most `fuel` of them.  What `post` gives after a body
decides, through `test`, whether there is another round. -/
def rounds {β : Type} (labels : List String) (test : β → Eff Memory Bool)
    (body : Action Ending) (post : Eff Memory β) : Nat → β → Action Ending
  | 0, _ => .stop .exhausted
  | fuel + 1, b => do
    if ← test b then
      match (← body).afterBody labels with
      | some c => pure c
      | none => do rounds labels test body post fuel (← post)
    else pure .normal

/-- Runs the first part of a loop header, if one is written. -/
def Flow.begin (init : Flow) (run : Action Ending) : Action Unit :=
  if init.isMissing then pure ()
  else do
    let _ ← run
    pure ()

/-- Runs the last part of a loop header, if one is written. -/
def Flow.update (s : Session) (fuel : Nat) : Flow → Eff Memory Unit
  | .simple stmt => discard (stmt.exec s fuel)
  | _ => pure ()

mutual

/-- Runs a statement with the given labels attached; each loop takes at most `fuel`
rounds. -/
def Flow.exec (s : Session) (fuel : Nat) : Flow → List String → Action Ending
  | .missing, _ => .stop .invalid
  | .block body, _ => .inScope (execFlows s fuel body)
  | .declare d, _ => do
    d.run s
    pure .normal
  | .yield .missing, _ => pure .normal
  | .yield value, _ => do
    .emit (← evaluate s value)
    pure .normal
  | .finish, _ => pure .finish
  | .ite cond body other, _ => do
    if ← holds s cond then .inScope (execFlows s fuel body)
    else
      if other.isMissing then pure .normal
      else .inScope (other.exec s fuel [])
  | .while cond body, labels =>
    rounds labels (fun () => condition s cond) (.inScope (execFlows s fuel body)) (pure ())
      fuel ()
  | .doWhile body cond, labels =>
    rounds labels (fun value => onHeap fun _ => Value.asBool value)
      (.inScope (execFlows s fuel body))
      (if cond.isMissing then pure (.bool true) else evaluate s cond)
      fuel (.bool true)
  | .loop init cond post body, labels => .inScope do
    init.begin (init.exec s fuel [])
    rounds labels (fun () => condition s cond) (.inScope (execFlows s fuel body))
      (post.update s fuel) fuel ()
  | .walk header body, labels => do
    let it ← evaluate s header.x
    rounds labels (fun () => iteratorHasNext s it)
      (.inScope do
        header.advance s it
        .inScope (execFlows s fuel body))
      (pure ()) fuel ()
  | .switch tag cases, _ => do
    match ← chooseClause s tag (cases.map FlowCase.guard) with
    | none => pure .normal
    | some i => execCases s fuel i cases
  | .labeled label stmt, labels => do
    return (← stmt.exec s fuel (labels ++ [label])).leave label
  | .brk label, _ => pure (.brk label)
  | .cont label, _ => pure (.cont label)
  | .lift _, _ => pure .normal
  | .simple stmt, _ => do
    let _ ← stmt.exec s fuel
    pure .normal

/-- Runs statements until one of them does not end normally. -/
def execFlows (s : Session) (fuel : Nat) : List Flow → Action Ending
  | [] => pure .normal
  | f :: fs => do
    match ← f.exec s fuel [] with
    | .normal => execFlows s fuel fs
    | c => pure c

/-- Runs the cases of a switch after the first `i`; a case that ends normally continues
into the next one, and a plain break is over. -/
def execCases (s : Session) (fuel : Nat) : Nat → List FlowCase → Action Ending
  | _, [] => pure .normal
  | i + 1, _ :: cs => execCases s fuel i cs
  | 0, c :: cs => do
    match ← Action.inScope (c.exec s fuel) with
    | .normal => execCases s fuel 0 cs
    | c => pure (c.leave "")

/-- Runs the statements of a case. -/
def FlowCase.exec (s : Session) (fuel : Nat) : FlowCase → Action Ending
  | .case _ body => execFlows s fuel body
  | .default body => execFlows s fuel body

end

theorem execFlows_singleton (s : Session) (n : Nat) (f : Flow) :
    execFlows s n [f] = f.exec s n [] := by
  refine Eq.trans ?_ (Action.bind_pure (f.exec s n []))
  rw [execFlows]
  congr 1
  funext c
  cases c <;> rfl

/-- The parameters of a generator, the receiver first. -/
def Routine.parameters (fn : Routine) : List String :=
  ((fn.recv.toList ++ fn.params.toList).flatMap Field.names).filter (· != "_")

/-- The parameters of a generator with the values that arguments give them; the last
argument of a name counts, and a parameter without one is nil. -/
def Routine.frame (fn : Routine) (args : Bindings) : Bindings :=
  fn.parameters.map fun x => (x, (args.reverse.lookup x).getD .nil)

/-- What a generator does when it is started on a heap. -/
def Routine.course (fn : Routine) (around : Environs) (fuel : Nat)
    (args : Bindings) (heap : Heap) : Course Ending :=
  execFlows ⟨receiverName, fn.runtime, around⟩ fuel fn.body
    ⟨[], [fn.frame args], heap⟩

/-- The events of a generator body that is run as it is written. -/
def Routine.events (fn : Routine) (around : Environs) (fuel : Nat)
    (args : Bindings) (heap : Heap) (changes : List (Heap → Heap)) : Option (List Event) :=
  (fn.course around fuel args heap).events changes

end YieldMachine
