import YieldMachine.Proofs.Meaning.Flow
import YieldMachine.Proofs.Meaning.Progress

/-!
# Generator bodies over any language

A `Language` says what expressions and statements that do not shape control flow do, and how
variables are made, assigned and renewed; nothing is known of its values.  `Flow.perform` runs
a generator body over a language: statements in order, over variables in nested scopes, cases
that continue into the next one unless they break, and yields that hand over a value after which
the run goes on.
-/

namespace YieldMachine

/-- What the iterator of a loop walks over. -/
inductive Iterable where
  | slice | array | map | text | channel | integer
  /-- the elements of a generator -/
  | sequence
  /-- whatever an iterator that is written out gives -/
  | iterator
  deriving DecidableEq, Repr

/-- What the programs of a language do. -/
structure Language extends Domain where
  /-- the value of an expression -/
  eval (e : Expr) (names : toDomain.Names) : toDomain.Eff Value
  /-- the values of expressions that give a number of values together -/
  evalAll (count : Nat) (es : List Expr) (names : toDomain.Names) : toDomain.Eff (List Value)
  truth (value : Value) : toDomain.Eff Bool
  equal (x y : Value) : toDomain.Eff Bool
  /-- a statement that neither declares variables nor shapes control flow -/
  run (stmt : Stmt) (names : toDomain.Names) : toDomain.Eff Unit
  /-- assigns values to operands -/
  assign (targets : List (Expr × Value)) (names : toDomain.Names) : toDomain.Eff Unit
  /-- makes a variable of a type, with a value or else the zero value of the type; where no type
  is written, it has that of the value -/
  fresh (type : Expr) (value : Option Value) : toDomain.Eff Place
  /-- gives a variable a value -/
  put (place : Place) (value : Value) : toDomain.Eff Unit
  /-- what a variable of a loop header is in the next turn -/
  renew (place : Place) : toDomain.Eff Place
  /-- starts to walk over a value -/
  start (kind : Iterable) (value : Value) : toDomain.Eff Walk
  hasNext (walk : Walk) : toDomain.Eff Bool
  /-- the next key and value, and where the walk is then -/
  next (walk : Walk) : toDomain.Eff ((Value × Value) × Walk)

namespace Language

variable (L : Language)

/-- The truth of a condition; a missing condition holds. -/
def condition (cond : Expr) (names : L.Names) : L.Eff Bool :=
  if cond.isMissing then pure true else do L.truth (← L.eval cond names)

/-- Makes a variable under a name; a blank name has none. -/
def introduce (type : Expr) (value : Option L.Value) (x : String) (names : L.Names) :
    L.Eff L.Names :=
  if x = "_" then pure names else do return (x, ← L.fresh type value) :: names

/-- Assigns to the variable under a name. -/
def reassign (value : L.Value) (x : String) (names : L.Names) : L.Eff Unit :=
  if x = "_" then pure ()
  else
    match names.lookup x with
    | some place => L.put place value
    | none => throw .meaningless

/-- Renews the variables of the innermost names, as many as `count`. -/
def renewAll : Nat → L.Names → L.Eff L.Names
  | 0, names => pure names
  | _, [] => pure []
  | count + 1, (x, place) :: names => do
    let place ← L.renew place
    return (x, place) :: (← renewAll count names)

/-- Declares the key and the value of a walk, or assigns them, with the given types. -/
def bindRow (define : Bool) (key value : Expr × Expr) (row : L.Value × L.Value)
    (names : L.Names) : L.Eff L.Names :=
  if define then do
    let names ← L.introduce key.2 (some row.1) (key.1.name?.getD "_") names
    L.introduce value.2 (some row.2) (value.1.name?.getD "_") names
  else do
    L.assign ([(key.1, row.1), (value.1, row.2)].filter fun target => !target.1.isMissing) names
    return names

/-- Whether one of the values of a case is the tag of its switch, or is true where there is no
tag. -/
def matchesAny (tag : Option L.Value) (names : L.Names) : List Expr → L.Eff Bool
  | [] => pure false
  | e :: es => do
    let value ← L.eval e names
    let found ← match tag with
      | some tag => L.equal value tag
      | none => L.truth value
    if found then pure true else matchesAny tag names es

/-- The position of the first clause that matches. -/
def matching? (tag : Option L.Value) (names : L.Names) :
    Nat → List Clause → L.Eff (Option Nat)
  | _, [] => pure none
  | i, .default _ :: cs => matching? tag names (i + 1) cs
  | i, .case values _ :: cs => do
    if ← L.matchesAny tag names values then pure (some i) else matching? tag names (i + 1) cs

/-- The position of the clause that a switch starts at. -/
def choose (tag : Expr) (clauses : List Clause) (names : L.Names) : L.Eff (Option Nat) := do
  let tag ← if tag.isMissing then pure none else some <$> L.eval tag names
  match ← L.matching? tag names 0 clauses with
  | some i => pure (some i)
  | none => pure (defaultClause? 0 clauses)

end Language

/-- What an adapter of the runtime package walks over. -/
def adapted? : String → Option Iterable
  | "Slice" => some .slice
  | "Map" => some .map
  | "String" => some .text
  | "Chan" => some .channel
  | "Count" => some .integer
  | "Each" => some .sequence
  | _ => none

/-- What an iterator walks over: the operand of an adapter, or else itself. -/
def Expr.operand (runtime : String) (iterator : Expr) : Iterable × Expr :=
  match iterator with
  | .call (.sel package adapter) [x] _ =>
    match adapted? adapter with
    | some kind => if package.isName runtime then (kind, x) else (.iterator, iterator)
    | none => (.iterator, iterator)
  | _ => (.iterator, iterator)

section Perform

variable (L : Language)

/-- The type that is written for the name at position `i`. -/
def VarDecl.typeOf (d : VarDecl) (i : Nat) : Expr := (d.typeAt? i).getD .missing

/-- Gives the names of a declaration from position `i` on their values.  A name without a type
of its own is an existing variable, which only a value changes. -/
def VarDecl.introduce (d : VarDecl) :
    Nat → List String → List (Option L.Value) → L.Names → L.Eff L.Names
  | _, [], _, names => pure names
  | _, _ :: _, [], _ => throw .meaningless
  | i, x :: xs, value :: values, names => do
    if d.reuses i then
      match value with
      | some value => L.reassign value x names
      | none => pure ()
      d.introduce (i + 1) xs values names
    else d.introduce (i + 1) xs values (← L.introduce (d.typeOf i) value x names)

/-- Performs a declaration: its values see the variables from before it. -/
def VarDecl.perform (d : VarDecl) (names : L.Names) : L.Eff L.Names := do
  let values ←
    if d.values.isEmpty then pure (d.names.map fun _ => none)
    else List.map some <$> L.evalAll d.names.length d.values names
  d.introduce L 0 d.names values names

/-- Performs the first part of a loop header, if one is written. -/
def Flow.performFirst (init : Flow) (names : L.Names) (run : L.Action (Ending × L.Names)) :
    L.Action (Ending × L.Names) :=
  if init.isMissing then pure (.normal, names) else run

/-- Performs the last part of a loop header, if one is written. -/
def Flow.performUpdate (names : L.Names) : Flow → L.Eff Unit
  | .simple stmt => L.run stmt names
  | _ => pure ()

mutual

/-- Performs a statement with the given labels attached; each loop takes at most `n` turns. -/
def Flow.perform (runtime : String) (n : Nat) :
    Flow → List String → L.Names → L.Action (Ending × L.Names)
  | .missing, _, _ => .halt .meaningless
  | .block body, _, names => .within names (Flow.performAll runtime n body names)
  | .declare d, _, names => do return (.normal, ← d.perform L names)
  | .yield .missing, _, names => pure (.normal, names)
  | .yield value, _, names => do
    .hand (← L.eval value names)
    return (.normal, names)
  | .finish, _, names => pure (.finish, names)
  | .ite cond body other, _, names => do
    if ← L.condition cond names then .within names (Flow.performAll runtime n body names)
    else
      if other.isMissing then pure (.normal, names)
      else .within names (other.perform runtime n [] names)
  | .while cond body, labels, names => do
    let e ← Domain.turns .normal (Ending.afterBody labels) (L.condition cond)
      (fun now => .within now (Flow.performAll runtime n body now)) pure n names
    return (e, names)
  | .doWhile body cond, labels, names => do
    let e ← Domain.turns .normal (Ending.afterBody labels) pure
      (fun again => do return ((← Flow.performAll runtime n body names).1, again))
      (fun _ => liftM (L.condition cond names)) n true
    return (e, names)
  | .loop init cond post body, labels, names => do
    let (_, inner) ← init.performFirst L names (init.perform runtime n [] names)
    let e ← Domain.turns .normal (Ending.afterBody labels) (L.condition cond)
      (fun now => .within now (Flow.performAll runtime n body now))
      (fun now => do
        let now ← L.renewAll (inner.length - names.length) now
        post.performUpdate L now
        return now)
      n inner
    return (e, names)
  | .walk header body, labels, names => do
    let (kind, x) := header.x.operand runtime
    let walk ← L.start kind (← L.eval x names)
    let e ← Domain.turns .normal (Ending.afterBody labels) L.hasNext
      (fun walk => do
        let (row, walk) ← L.next walk
        let inner ← L.bindRow header.define (header.key, header.keyType)
          (header.value, header.valueType) row names
        return ((← Flow.performAll runtime n body inner).1, walk))
      pure n walk
    return (e, names)
  | .switch tag cases, _, names => do
    match ← L.choose tag (cases.map FlowCase.guard) names with
    | none => return (.normal, names)
    | some i => return (← Flow.performCases runtime n i cases names, names)
  | .labeled label stmt, labels, names => do
    let (e, names) ← stmt.perform runtime n (labels ++ [label]) names
    return (e.leave label, names)
  | .brk label, _, names => pure (.brk label, names)
  | .cont label, _, names => pure (.cont label, names)
  | .lift _, _, names => pure (.normal, names)
  | .simple stmt, _, names => do
    L.run stmt names
    return (.normal, names)

/-- Performs statements until one of them does not end normally. -/
def Flow.performAll (runtime : String) (n : Nat) :
    List Flow → L.Names → L.Action (Ending × L.Names)
  | [], names => pure (.normal, names)
  | f :: fs, names => do
    match ← f.perform runtime n [] names with
    | (.normal, names) => Flow.performAll runtime n fs names
    | (e, names) => pure (e, names)

/-- Performs the cases of a switch after the first `i`; a case that ends normally continues
into the next one, and a plain break is over. -/
def Flow.performCases (runtime : String) (n : Nat) :
    Nat → List FlowCase → L.Names → L.Action Ending
  | _, [], _ => pure .normal
  | i + 1, _ :: cs, names => Flow.performCases runtime n i cs names
  | 0, c :: cs, names => do
    match ← c.perform runtime n names with
    | .normal => Flow.performCases runtime n 0 cs names
    | e => pure (e.leave "")

/-- Performs the statements of a case. -/
def FlowCase.perform (runtime : String) (n : Nat) : FlowCase → L.Names → L.Action Ending
  | .case _ body, names => do return (← Flow.performAll runtime n body names).1
  | .default body, names => do return (← Flow.performAll runtime n body names).1

end

/-- What a generator does when it is started on a store.  `args` are the places of its parameters
and `outer` the variables that are declared outside of it. -/
def Routine.progress (fn : Routine) (n : Nat) (args : List L.Place) (outer : L.Names) :
    L.Action (Ending × L.Names) :=
  Flow.performAll L fn.runtime n fn.body (fn.parameters.zip args ++ outer)

/-- The events of a generator body that is performed over a language. -/
def Routine.observed (fn : Routine) (n : Nat) (args : List L.Place) (outer : L.Names)
    (s : L.Store) (changes : List (L.Store → L.Store)) : Option (List (Observed L.toDomain)) :=
  (fn.progress L n args outer s).events changes

theorem Flow.performAll_singleton (runtime : String) (n : Nat) (f : Flow) (names : L.Names) :
    Flow.performAll L runtime n [f] names = f.perform L runtime n [] names := by
  refine Eq.trans ?_ (Domain.Action.bind_pure _)
  rw [Flow.performAll]
  congr 1
  funext r
  obtain ⟨e, names⟩ := r
  cases e <;> rfl

/-- A statement list is performed like its first part and then the rest. -/
theorem Flow.performAll_append (runtime : String) (n : Nat) (fs gs : List Flow) (names : L.Names) :
    Flow.performAll L runtime n (fs ++ gs) names = (do
      match ← Flow.performAll L runtime n fs names with
      | (.normal, names) => Flow.performAll L runtime n gs names
      | (e, names) => pure (e, names)) := by
  induction fs generalizing names with
  | nil => rfl
  | cons f fs ih =>
      rw [List.cons_append, Flow.performAll, Flow.performAll, Domain.Action.bind_assoc]
      congr 1
      funext r
      obtain ⟨e, names⟩ := r
      cases e with
      | normal => exact ih names
      | _ => rfl

end Perform

end YieldMachine
