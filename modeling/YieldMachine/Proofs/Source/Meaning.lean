import YieldMachine.Proofs.Meaning.Language
import YieldMachine.Proofs.Source.Marks
import YieldMachine.Source.Scan

/-!
# What a checked source means

`Stmt.exec` runs the body of a generator as the language of the source has it: a case of a
switch ends where the next one begins unless it falls through, every conditional, switch and loop
is a scope of its own, in which the variables of its first part live, and a definition declares
the variables that its scope does not have yet.  What expressions and simple statements do is left
to a `Language`, which gives the same expressions and statements of a generator body their
meaning.  A mark hands over its argument, and the run goes on right after it.
-/

namespace YieldMachine.Source

/-- How a statement of a source ends: normally, by a branch that looks for its target, by
falling through to the next clause, or by ending the generator.  An empty label stands for
none. -/
inductive Completion where
  | normal
  | brk (label : String)
  | cont (label : String)
  | fall
  | finish
  deriving DecidableEq, Repr

/-- What a loop with the given labels does after its body completed: `none` goes on with the
next turn. -/
def Completion.afterBody (labels : List String) : Completion → Option Completion
  | .normal => none
  | .brk l => if l = "" then some .normal else some (.brk l)
  | .cont l => if l = "" ∨ l ∈ labels then none else some (.cont l)
  | c => some c

/-- How a statement completes that a break with the label leaves. -/
def Completion.leave (label : String) : Completion → Completion
  | .brk l => if l = label then .normal else .brk l
  | c => c

/-- A range clause: what it walks over, and the types of the keys and values. -/
structure RangeClause where
  kind : Iterable
  operand : Expr
  key : Ty
  value : Ty

/-- What a range statement walks over: the elements of a generator that is given as a sequence, or
the elements, code points or numbers of a value of a known type. -/
def Expr.rangeClause? (x : Expr) : Option RangeClause :=
  match x.runtimeArg? "Seq" with
  | some g => (g.typed.bind Typed.element?).map (⟨.sequence, g, ·, unitType⟩)
  | none =>
    x.typed.bind fun t =>
      match t.shape with
      | .slice element => some ⟨.slice, x, indexType, element⟩
      | .array element => some ⟨.array, x, indexType, element⟩
      | .text => some ⟨.text, x, indexType, charType⟩
      | .integer counter => some ⟨.integer, x, counter, unitType⟩
      | _ => none

/-- The type of the variable that an identifier declares, as a file spells it. -/
def Ident.spellType (q : PackageRef → String) (id : Ident) : YieldMachine.Expr :=
  match id.ref.bind (·.object.type) with
  | some t => t.spell q
  | none => .missing

/-- The type of a variable that an entry declares, which may be written down. -/
def Ident.declaredType (q : PackageRef → String) (ty : Expr) (id : Ident) : YieldMachine.Expr :=
  match ty with
  | .missing => id.spellType q
  | ty => ty.erase

/-- The variables that an entry declares. -/
def Spec.binds : Spec → List String
  | .value names _ _ => identNames names
  | _ => []

/-- The variables that a statement declares in the scope it stands in. -/
def Stmt.binds : Stmt → List String
  | .mk _ (.assign .define lhs _) => identNames (lhs.filterMap Expr.ident?)
  | .mk _ (.decl _ specs) => specs.flatMap Spec.binds
  | _ => []

section Exec

variable (L : Language) (q : PackageRef → String)

/-- Gives the names of a definition their values: those that the scope has are assigned, the
others are declared. -/
def defineAll (scope : List String) : List Ident → List L.Value → L.Names → L.Eff L.Names
  | [], _, names => pure names
  | _ :: _, [], _ => throw .meaningless
  | id :: ids, value :: values, names => do
    if id.name ∈ scope then
      L.reassign value id.name names
      defineAll scope ids values names
    else
      defineAll scope ids values
        (← L.introduce (id.spellType q) (some value) id.name names)

/-- Declares the names of an entry, with their values or with the zero value of their type. -/
def declareAll (ty : Expr) : List Ident → List (Option L.Value) → L.Names → L.Eff L.Names
  | [], _, names => pure names
  | _ :: _, [], _ => throw .meaningless
  | id :: ids, value :: values, names => do
    declareAll ty ids values (← L.introduce (id.declaredType q ty) value id.name names)

/-- Declares the variables of an entry.  Their values see the variables from before it. -/
def Spec.exec : Spec → L.Names → L.Eff L.Names
  | .value ids ty values, names => do
    let values ←
      if values.isEmpty then pure (ids.map fun _ => none)
      else List.map some <$> L.evalAll ids.length (eraseExprs values) names
    declareAll L q ty ids values names
  | _, _ => throw .meaningless

/-- Declares the variables of entries one after the other. -/
def execSpecs : List Spec → L.Names → L.Eff L.Names
  | [], names => pure names
  | spec :: specs, names => do execSpecs specs (← spec.exec L q names)

/-- Runs a mark, which hands over its argument. -/
def Expr.execMark (arg : Expr) (names : L.Names) : L.Action (Completion × L.Names) := do
  .hand (← L.eval arg.erase names)
  return (.normal, names)

mutual

/-- Runs a statement with the given labels attached, in a scope that has some variables already;
each loop takes at most `n` turns. -/
def Stmt.exec (n : Nat) (scope : List String) :
    Stmt → List String → L.Names → L.Action (Completion × L.Names)
  | .missing, _, names => pure (.normal, names)
  | .mk _ form, labels, names => form.exec n scope labels names

/-- Runs a form of statement. -/
def StmtForm.exec (n : Nat) (scope : List String) :
    StmtForm → List String → L.Names → L.Action (Completion × L.Names)
  | .empty, _, names => do
    L.run .empty names
    return (.normal, names)
  | .expr x, _, names =>
    match x.runtimeArg? "Yield" with
    | some arg => arg.execMark L names
    | none => do
      L.run (.expr x.erase) names
      return (.normal, names)
  | .incDec increment x, _, names => do
    L.run (.incDec increment x.erase) names
    return (.normal, names)
  | .assign .define lhs rhs, _, names => do
    let ids := lhs.filterMap Expr.ident?
    let values ← L.evalAll ids.length (eraseExprs rhs) names
    return (.normal, ← defineAll L q scope ids values names)
  | .assign kind lhs rhs, _, names => do
    L.run (.assign kind (eraseExprs lhs) (eraseExprs rhs)) names
    return (.normal, names)
  | .ret [x], _, names =>
    match x.runtimeArg? "Yield" with
    | some arg => arg.execMark L names
    | none => if x.isNil then pure (.finish, names) else .halt .meaningless
  | .branch .brk label, _, names => pure (.brk ((label.map (·.name)).getD ""), names)
  | .branch .cont label, _, names => pure (.cont ((label.map (·.name)).getD ""), names)
  | .branch .fallthrough _, _, names => pure (.fall, names)
  | .block body, _, names => .within names (execStmts n [] body names)
  | .ite init cond body other, _, names => .within names do
    let start ← init.exec n [] [] names
    if ← L.condition cond.erase start.2 then .within start.2 (execStmts n [] body start.2)
    else other.exec n [] [] start.2
  | .switch init tag clauses, _, names => .within names do
    let start ← init.exec n [] [] names
    match ← L.choose tag.erase (eraseClauses clauses) start.2 with
    | none => return (.normal, start.2)
    | some i => return (← execClauses n i clauses start.2, start.2)
  | .loop init cond post body, labels, names => do
    let start ← init.exec n [] [] names
    let c ← Domain.turns .normal (Completion.afterBody labels) (L.condition cond.erase)
      (fun now => .within now (execStmts n [] body now))
      (fun now => do
        let now ← L.renewAll (start.2.length - names.length) now
        let _ ← post.exec n [] [] now
        return now)
      n start.2
    return (c, names)
  | .range key value kind x body, labels, names => do
    match x.rangeClause? with
    | none => .halt .meaningless
    | some r => do
      let walk ← L.start r.kind (← L.eval r.operand.erase names)
      let c ← Domain.turns .normal (Completion.afterBody labels) L.hasNext
        (fun walk => do
          let (row, walk) ← L.next walk
          let inner ← L.bindRow (kind == .define) (key.erase, r.key.spell q)
            (value.erase, r.value.spell q) row names
          return ((← execStmts n [] body inner).1, walk))
        pure n walk
      return (c, names)
  | .labeled label stmt, labels, names => do
    let (c, names) ← stmt.exec n scope (labels ++ [label.name]) names
    return (c.leave label.name, names)
  | .decl .var specs, _, names => do return (.normal, ← execSpecs L q specs names)
  | _, _, _ => .halt .meaningless

/-- Runs statements until one of them does not complete normally. -/
def execStmts (n : Nat) (scope : List String) :
    List Stmt → L.Names → L.Action (Completion × L.Names)
  | [], names => pure (.normal, names)
  | stmt :: stmts, names => do
    match ← stmt.exec n scope [] names with
    | (.normal, names) => execStmts n (stmt.binds ++ scope) stmts names
    | (c, names) => pure (c, names)

/-- Runs the clauses of a switch after the first `i`, as far as they fall through. -/
def execClauses (n : Nat) : Nat → List Clause → L.Names → L.Action Completion
  | _, [], _ => pure .normal
  | i + 1, _ :: cs, names => execClauses n i cs names
  | 0, c :: cs, names => do
    match ← c.exec n names with
    | .fall => execClauses n 0 cs names
    | c => pure (c.leave "")

/-- Runs the statements of a clause. -/
def Clause.exec (n : Nat) : Clause → L.Names → L.Action Completion
  | .case _ body, names => do return (← execStmts n [] body names).1
  | .default body, names => do return (← execStmts n [] body names).1

end

/-- The parameters of a function, the receiver first. -/
def Func.parameters (f : Func) : List String :=
  (identNames ((f.receiver?.toList ++ f.signature.params.toList).flatMap Field.names)).filter
    (· != "_")

/-- What a generator does when it is started on a store, as its source has it.  `args` are the
places of its parameters and `outer` the variables that are declared outside of it. -/
def Func.progress (f : Func) (n : Nat) (args : List L.Place) (outer : L.Names) :
    L.Action (Completion × L.Names) :=
  execStmts L q n f.parameters (f.body.getD []) (f.parameters.zip args ++ outer)

/-- The events of a generator that is run as its source has it. -/
def Func.observed (f : Func) (n : Nat) (args : List L.Place) (outer : L.Names) (s : L.Store)
    (changes : List (L.Store → L.Store)) : Option (List (Observed L.toDomain)) :=
  (f.progress L q n args outer s).events changes

end Exec

section Fragment

/-- Whether a mark has an argument. -/
def Expr.HandsOver (e : Expr) : Prop := ∀ arg, e.runtimeArg? "Yield" = some arg → arg ≠ .missing

/-- Whether a range statement walks over an operand in order: over a sequence, or a slice, a
text or a number. -/
def Expr.isOrdered (x : Expr) : Bool :=
  (x.runtimeArg? "Seq").isSome || x.typed.any fun t =>
    match t.shape with
    | .slice _ | .text | .integer _ => true
    | _ => false

/-- Whether an entry declares variables. -/
def Spec.DeclaresVars : Spec → Prop
  | .value _ _ _ => True
  | _ => False

/-- Whether a statement declares variables in the scope it stands in. -/
def Stmt.declares : Stmt → Bool
  | .mk _ (.assign .define _ _) | .mk _ (.decl _ _) => true
  | _ => false

/-- Whether a statement can have a label that a branch goes to. -/
def Stmt.isTarget : Stmt → Bool
  | .mk _ (.loop _ _ _ _) | .mk _ (.range _ _ _ _ _) | .mk _ (.switch _ _ _)
  | .mk _ (.ite _ _ _ _) | .mk _ (.block _) | .mk _ (.labeled _ _) => true
  | _ => false

mutual

/-- Whether a statement is built from blocks, declarations of variables, assignments,
expressions, conditionals, loops over conditions and over ordered operands, switches, labels,
branches and returns. -/
def Stmt.Covered : Stmt → Prop
  | .missing => True
  | .mk _ form => form.Covered

/-- Whether a form of statement is built from these. -/
def StmtForm.Covered : StmtForm → Prop
  | .empty | .incDec _ _ | .branch _ _ => True
  | .expr x => x.HandsOver
  | .assign kind _ rhs => kind = .define → rhs ≠ []
  | .ret results => ∀ x ∈ results, x.HandsOver
  | .block body => stmtsCovered body
  | .ite init _ body other =>
    init.Covered ∧ init.isSimple = true ∧ stmtsCovered body ∧ other.Covered ∧ other.isElse = true
  | .switch init _ clauses => init.Covered ∧ init.isSimple = true ∧ clausesCovered clauses
  | .loop init _ post body =>
    init.Covered ∧ init.isSimple = true ∧ post.Covered ∧ post.isSimple = true ∧
      post.declares = false ∧ stmtsCovered body
  | .range _ _ _ x body => x.isOrdered = true ∧ stmtsCovered body
  | .labeled _ stmt => stmt.Covered ∧ stmt.isTarget = true
  | .decl .var specs => ∀ spec ∈ specs, spec.DeclaresVars
  | _ => False

/-- Whether statements are built from these. -/
def stmtsCovered : List Stmt → Prop
  | [] => True
  | s :: ss => s.Covered ∧ stmtsCovered ss

/-- Whether the clauses of a switch are built from these. -/
def clausesCovered : List Clause → Prop
  | [] => True
  | c :: cs => c.Covered ∧ clausesCovered cs

/-- Whether a clause of a switch is built from these. -/
def Clause.Covered : Clause → Prop
  | .case _ body => stmtsCovered body
  | .default body => stmtsCovered body

end

/-- Whether a type checker found that an identifier declares a variable, whose type can be
written down. -/
def Ident.Introduced (id : Ident) : Prop :=
  ∃ n object t, id.ref = some ⟨n, true, object⟩ ∧ object.type = some t ∧
    ∀ q, (t.spell q).isMissing = false

/-- Whether a type checker found that an identifier declares nothing. -/
def Ident.Used (id : Ident) : Prop := ∀ r, id.ref = some r → r.defines = false

/-- Whether a type checker found out of an identifier on the left of a definition that it
declares a variable just if its scope does not have the variable yet. -/
def Ident.Resolved (scope : List String) (id : Ident) : Prop :=
  id.name = "_" ∨ if id.name ∈ scope then id.Used else id.Introduced

/-- Whether the names of an entry without a written type are declared. -/
def Spec.Resolved : Spec → Prop
  | .value names .missing _ => ∀ id ∈ names, id.name = "_" ∨ id.Introduced
  | _ => True

mutual

/-- Whether a type checker found out, of every identifier on the left of a definition, that it
declares a variable just if its scope does not have the variable yet.  `scope` are the variables
of the scope that the statement stands in. -/
def Stmt.Resolved (scope : List String) : Stmt → Prop
  | .missing => True
  | .mk _ form => form.Resolved scope

/-- Whether this was found of the identifiers of a form of statement. -/
def StmtForm.Resolved (scope : List String) : StmtForm → Prop
  | .assign .define lhs _ =>
    ∀ e ∈ lhs, ∃ id, e.ident? = some id ∧ id.Resolved scope
  | .decl _ specs => ∀ spec ∈ specs, spec.Resolved
  | .block body => stmtsResolved [] body
  | .ite init _ body other => init.Resolved [] ∧ stmtsResolved [] body ∧ other.Resolved []
  | .switch init _ clauses => init.Resolved [] ∧ clausesResolved clauses
  | .loop init _ _ body => init.Resolved [] ∧ stmtsResolved [] body
  | .range _ _ _ _ body => stmtsResolved [] body
  | .labeled _ stmt => stmt.Resolved scope
  | _ => True

/-- Whether this was found of the identifiers of statements. -/
def stmtsResolved (scope : List String) : List Stmt → Prop
  | [] => True
  | s :: ss => s.Resolved scope ∧ stmtsResolved (s.binds ++ scope) ss

/-- Whether this was found of the identifiers of the clauses of a switch. -/
def clausesResolved : List Clause → Prop
  | [] => True
  | c :: cs => c.Resolved ∧ clausesResolved cs

/-- Whether this was found of the identifiers of a clause of a switch. -/
def Clause.Resolved : Clause → Prop
  | .case _ body => stmtsResolved [] body
  | .default body => stmtsResolved [] body

end

end Fragment

end YieldMachine.Source
