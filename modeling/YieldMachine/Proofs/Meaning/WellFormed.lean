import YieldMachine.Proofs.Meaning.Flow

/-!
# Well-formed generator bodies

A body is regular when it has the shape that a checked source gives it: every branch
has a target, declarations and loop headers are written as they can be, and simple
statements neither declare anything for what follows nor leave themselves.

Its names are plain when each of them is used for what it looks like.  The evaluator knows
some names by their spelling alone, and asks a variable neither for a function nor for a
type.  `Flow.Plain` says that no variable stands in such a place.  A body is well formed
when it is regular and its names are plain.
-/

namespace YieldMachine

/-- The hidden variables of loops. -/
def hiddenNames : List String := [doName, iteratorName]

/-- Names that are never read: the blank name, and the hidden variables of loops. -/
def unreadNames : List String := "_" :: hiddenNames

/-- Names that no variable has: those of constants, and of hidden variables of loops. -/
def reservedNames : List String := ["true", "false", "nil"] ++ hiddenNames

/-- What the names of an expression may refer to: the runtime package, and the variables
in scope. -/
structure Visible where
  runtime : String
  vars : List String

/-- Without the given names, which something local hides. -/
def Visible.without (c : Visible) (names : List String) : Visible :=
  { c with vars := c.vars.filter (· ∉ names) }

/-- Whether a type expression is not the name of a variable. -/
def Expr.TypeClear (c : Visible) (e : Expr) : Prop := ∀ x, e.name? = some x → x ∉ c.vars

mutual

/-- Whether the names that evaluating an expression reads are plain: no variable is
called, stands for a type or for the runtime package, or is kept from renaming, and
neither the receiver nor a name that is never read occurs. -/
def Expr.Clear (c : Visible) : Expr → Prop
  | .ident x kept => x ∉ unreadNames ∧ (kept = true → x ∉ c.vars)
  | .sel x _ => x.isName receiverName = false
  | .paren x => x.Clear c
  | .unary _ x => x.Clear c
  | .binary _ x y => x.Clear c ∧ y.Clear c
  | .index x i => x.Clear c ∧ i.Clear c
  | .composite _ elements => exprsClear c elements
  | .star (.call (.ident f _) args _) =>
    f = "new" → f ∉ c.vars ∧ ∀ ty ∈ args.head?, Expr.TypeClear c ty
  | .call (.ident f _) args _ => f ∉ unreadNames ∧ f ∉ c.vars ∧ exprsClear c args
  | .call (.sel x _) args _ =>
    x.Clear c ∧ (x.isName c.runtime = true → c.runtime ∉ c.vars ∧ exprsClear c args)
  | _ => True

/-- Whether the names that evaluating expressions reads are plain. -/
def exprsClear (c : Visible) : List Expr → Prop
  | [] => True
  | e :: es => e.Clear c ∧ exprsClear c es

end

/-- Whether the names of a target of an assignment are plain; a blank target is. -/
def Expr.TargetClear (c : Visible) (e : Expr) : Prop := e.isBlank = true ∨ e.Clear c

/-- The names that a statement declares for what follows it. -/
def Stmt.binds : Stmt → List String
  | .assign .define lhs _ => lhs.filterMap Expr.name?
  | .decl _ specs => specs.flatMap Spec.names
  | .labeled _ stmt => stmt.binds
  | _ => []

/-- Whether the names of an assignment are plain.  Only identifiers can be defined. -/
def AssignClear (c : Visible) (lhs rhs : List Expr) : AssignKind → Prop
  | .define => (∀ e ∈ lhs, ∃ x kept, e = .ident x kept ∧ x ∉ reservedNames) ∧ exprsClear c rhs
  | .set => (∀ e ∈ lhs, e.TargetClear c) ∧ exprsClear c rhs
  | .update _ => exprsClear c lhs ∧ exprsClear c rhs

/-- Whether the names of one entry of a declaration are plain. -/
def Spec.Clear (c : Visible) : Spec → Prop
  | .value names ty values =>
    (∀ x ∈ names, x ∉ reservedNames) ∧ (values = [] ∨ names.length ≤ 1) ∧ ty.TypeClear c ∧
      exprsClear c values
  | .type name _ _ _ => name ∉ c.vars
  | .imported _ _ => True

/-- Whether the names of the entries of a declaration are plain. -/
def specsClear (c : Visible) : List Spec → Prop
  | [] => True
  | spec :: specs => spec.Clear c ∧ specsClear (c.without spec.names) specs

mutual

/-- Whether the names that executing a statement reads are plain.  The last statement of
a loop header declares nothing. -/
def Stmt.Clear (c : Visible) : Stmt → Prop
  | .expr x => x.Clear c
  | .incDec _ x => x.Clear c
  | .assign kind lhs rhs => AssignClear c lhs rhs kind
  | .decl _ specs => specsClear c specs
  | .block body => stmtsClear c body
  | .ite init cond body other =>
    init.Clear c ∧ cond.Clear (c.without init.binds) ∧
      stmtsClear (c.without init.binds) body ∧ other.Clear (c.without init.binds)
  | .switch init tag clauses =>
    init.Clear c ∧ tag.Clear (c.without init.binds) ∧
      clausesClear (c.without init.binds) clauses
  | .loop init cond post body =>
    init.Clear c ∧ cond.Clear (c.without init.binds) ∧ post.binds = [] ∧
      post.Clear (c.without init.binds) ∧ stmtsClear (c.without init.binds) body
  | .labeled _ stmt => stmt.Clear c
  | _ => True

/-- Whether the names that executing statements reads are plain. -/
def stmtsClear (c : Visible) : List Stmt → Prop
  | [] => True
  | s :: ss => s.Clear c ∧ stmtsClear (c.without s.binds) ss

/-- Whether the names of the clauses of a switch are plain. -/
def clausesClear (c : Visible) : List Clause → Prop
  | [] => True
  | clause :: clauses => clause.Clear c ∧ clausesClear c clauses

/-- Whether the names of a clause of a switch are plain. -/
def Clause.Clear (c : Visible) : Clause → Prop
  | .case values body => exprsClear c values ∧ stmtsClear c body
  | .default body => stmtsClear c body

end

/-- The branch targets around a statement that is executed as it is. -/
structure Reach where
  brk : Bool
  cont : Bool
  fall : Bool
  breaks : List String
  continues : List String

namespace Reach

/-- No target is around. -/
def none : Reach := ⟨false, false, false, [], []⟩

/-- Inside a loop with the given labels. -/
def inLoop (r : Reach) (labels : List String) : Reach :=
  ⟨true, true, true, labels ++ r.breaks, labels ++ r.continues⟩

/-- Inside a switch. -/
def inSwitch (r : Reach) : Reach := { r with brk := true, fall := true }

/-- Inside a labelled statement that is no loop. -/
def withLabel (r : Reach) (label : String) : Reach := { r with breaks := label :: r.breaks }

/-- Whether a way to end has a target. -/
def Allows (r : Reach) : Control → Prop
  | .normal => True
  | .brk l => if l = "" then r.brk = true else l ∈ r.breaks
  | .cont l => if l = "" then r.cont = true else l ∈ r.continues
  | .fall => r.fall = true

end Reach

mutual

/-- Whether every branch of a statement has its target inside the statement or among
those around it. -/
def Stmt.Stays (r : Reach) : Stmt → Prop
  | .branch .brk label => r.Allows (.brk (label.getD ""))
  | .branch .cont label => r.Allows (.cont (label.getD ""))
  | .branch .fallthrough _ => r.Allows .fall
  | .block body => stmtsStay r body
  | .ite _ _ body other => stmtsStay r body ∧ other.Stays r
  | .loop _ _ _ body => stmtsStay (r.inLoop []) body
  | .labeled label (.loop _ _ _ body) => stmtsStay (r.inLoop [label]) body
  | .labeled label stmt => stmt.Stays (r.withLabel label)
  | .switch _ _ clauses => clausesStay r.inSwitch clauses
  | _ => True

/-- Whether every branch of a statement list has a target. -/
def stmtsStay (r : Reach) : List Stmt → Prop
  | [] => True
  | s :: ss => s.Stays r ∧ stmtsStay r ss

/-- Whether every branch of the clauses of a switch has a target. -/
def clausesStay (r : Reach) : List Clause → Prop
  | [] => True
  | c :: cs => c.Stays r ∧ clausesStay r cs

/-- Whether every branch of a clause has a target. -/
def Clause.Stays (r : Reach) : Clause → Prop
  | .case _ body => stmtsStay r body
  | .default body => stmtsStay r body

end

/-- The variables of a generator body, the innermost scope first. -/
abbrev Scopes := List (List String)

/-- Declares names in the innermost scope. -/
def Scopes.declare (scopes : Scopes) (names : List String) : Scopes :=
  match scopes with
  | [] => [names]
  | scope :: outer => (names ++ scope) :: outer

/-- The names from position `i` on that a declaration makes new variables of. -/
def VarDecl.freshFrom (d : VarDecl) : Nat → List String → List String
  | _, [] => []
  | i, x :: xs =>
    if x = "_" ∨ d.reuses i then d.freshFrom (i + 1) xs else x :: d.freshFrom (i + 1) xs

/-- The names from position `i` on that a declaration only assigns. -/
def VarDecl.reusedFrom (d : VarDecl) : Nat → List String → List String
  | _, [] => []
  | i, x :: xs =>
    if x ≠ "_" ∧ d.reuses i then x :: d.reusedFrom (i + 1) xs else d.reusedFrom (i + 1) xs

/-- The new variables of a declaration. -/
def VarDecl.fresh (d : VarDecl) : List String := d.freshFrom 0 d.names

/-- The names that an iterator loop declares for its body. -/
def Walk.names (w : Walk) : List String :=
  if w.define then ([w.key, w.value].filterMap Expr.name?).filter (· != "_") else []

/-- Whether a declaration can be written as one statement.  Every name has its type.  A
definition has values and may reuse variables of its own scope; other declarations give
one name one value, or all names the zero value of the type they share. -/
def VarDecl.Regular (scopes : Scopes) (d : VarDecl) : Prop :=
  d.types.length = d.names.length ∧ (d.names.filter (· != "_")).Nodup ∧
    if d.define then
      d.values ≠ [] ∧ ∀ x ∈ d.reusedFrom 0 d.names, x ∈ scopes.headD []
    else
      d.reusedFrom 0 d.names = [] ∧
        (d.values = [] ∧ (d.names = [] ∨ d.sharedType.isMissing = false) ∨
          d.names.length = 1 ∧ d.values.length = 1)

/-- Whether the key and value of an iterator loop can be declared, if they are. -/
def Walk.Regular (w : Walk) : Prop :=
  w.define = true → ∀ e ∈ [w.key, w.value], e.isMissing = true ∨ e.name?.isSome = true

/-- Whether a simple statement is written, declares nothing for what follows it, and
holds no branch that leaves it. -/
def Stmt.Regular (s : Stmt) : Prop := s.isMissing = false ∧ s.binds = [] ∧ s.Stays .none

/-- Where a statement of a generator body stands: the variables in scope, and the targets
of branches.  A label is listed with whether it stands on a loop. -/
structure Place where
  scopes : Scopes
  brk : Bool
  cont : Bool
  labels : List (String × Bool)

namespace Place

/-- In a new innermost scope. -/
def inner (p : Place) : Place := { p with scopes := [] :: p.scopes }

/-- After names were declared. -/
def declare (p : Place) (names : List String) : Place :=
  { p with scopes := p.scopes.declare names }

/-- In the body of a loop. -/
def inLoop (p : Place) : Place := { p with brk := true, cont := true }

/-- In a case of a switch. -/
def inSwitch (p : Place) : Place := { p with brk := true }

/-- In a labelled statement. -/
def withLabel (p : Place) (label : String) (loop : Bool) : Place :=
  { p with labels := (label, loop) :: p.labels }

end Place

/-- Whether the statement is a loop. -/
def Flow.isLoop : Flow → Bool
  | .while _ _ | .doWhile _ _ | .loop _ _ _ _ | .walk _ _ => true
  | _ => false

/-- Whether the statement is a declaration of variables. -/
def Flow.isDeclare : Flow → Bool
  | .declare _ => true
  | _ => false

/-- Whether the first part of a loop header is missing, a declaration or a simple
statement. -/
def Flow.RegularInit (scopes : Scopes) : Flow → Prop
  | .missing => True
  | .declare d => d.Regular scopes
  | .simple stmt => stmt.Regular
  | _ => False

/-- Whether the last part of a loop header is missing or a simple statement. -/
def Flow.RegularPost : Flow → Prop
  | .missing => True
  | .simple stmt => stmt.Regular
  | _ => False

/-- The variables that a statement declares for what follows it. -/
def Flow.fresh : Flow → List String
  | .declare d => d.fresh
  | _ => []

mutual

/-- Whether a statement has the shape that a checked source gives it. -/
def Flow.Regular (p : Place) : Flow → Prop
  | .missing | .lift _ => False
  | .block body => flowsRegular p.inner body
  | .declare d => d.Regular p.scopes
  | .yield _ | .finish => True
  | .ite _ body other =>
    flowsRegular p.inner body ∧ (other.isMissing = false → other.Regular p.inner)
  | .while _ body => flowsRegular p.inLoop.inner body
  | .doWhile body _ => flowsRegular p.inLoop.inner body
  | .loop init _ post body =>
    init.RegularInit p.inner.scopes ∧ post.RegularPost ∧
      flowsRegular (p.inner.declare init.fresh).inLoop.inner body
  | .walk header body =>
    header.Regular ∧ flowsRegular (p.inner.declare header.names).inLoop.inner body
  | .switch _ cases => casesRegular p.inSwitch cases
  | .labeled label stmt =>
    label ≠ "" ∧ stmt.isDeclare = false ∧ stmt.Regular (p.withLabel label stmt.isLoop)
  | .brk label => if label = "" then p.brk = true else (p.labels.lookup label).isSome = true
  | .cont label => if label = "" then p.cont = true else p.labels.lookup label = some true
  | .simple stmt => stmt.Regular

/-- Whether the statements of a list have the shape that a checked source gives them. -/
def flowsRegular (p : Place) : List Flow → Prop
  | [] => True
  | .declare d :: fs => d.Regular p.scopes ∧ flowsRegular (p.declare d.fresh) fs
  | f :: fs => f.Regular p ∧ flowsRegular p fs

/-- Whether the cases of a switch have the shape that a checked source gives them. -/
def casesRegular (p : Place) : List FlowCase → Prop
  | [] => True
  | c :: cs => c.Regular p ∧ casesRegular p cs

/-- Whether a case of a switch has the shape that a checked source gives it. -/
def FlowCase.Regular (p : Place) : FlowCase → Prop
  | .case _ body => flowsRegular p.inner body
  | .default body => flowsRegular p.inner body

end

/-- What expressions can see in the given scopes. -/
def Scopes.visible (scopes : Scopes) (runtime : String) : Visible := ⟨runtime, scopes.flatten⟩

/-- Whether the names of a declaration are plain. -/
def VarDecl.Plain (c : Visible) (d : VarDecl) : Prop :=
  (∀ x ∈ d.names, x ∉ reservedNames) ∧ exprsClear c d.values ∧
    (d.values = [] → ∀ i ty, d.typeAt? i = some ty → ty.TypeClear c)

/-- Whether the names of an iterator loop are plain. -/
def Walk.Plain (c : Visible) (w : Walk) : Prop :=
  w.x.Clear c ∧
    if w.define then ∀ x ∈ w.names, x ∉ reservedNames
    else w.key.TargetClear c ∧ w.value.TargetClear c

/-- Whether the names of a part of a loop header are plain. -/
def Flow.PlainPart (c : Visible) : Flow → Prop
  | .declare d => d.Plain c
  | .simple stmt => stmt.Clear c
  | _ => True

mutual

/-- Whether the names of a statement are plain. -/
def Flow.Plain (runtime : String) (scopes : Scopes) : Flow → Prop
  | .block body => flowsPlain runtime ([] :: scopes) body
  | .declare d => d.Plain (scopes.visible runtime)
  | .yield value => value.Clear (scopes.visible runtime)
  | .ite cond body other =>
    cond.Clear (scopes.visible runtime) ∧ flowsPlain runtime ([] :: scopes) body ∧
      other.Plain runtime ([] :: scopes)
  | .while cond body =>
    cond.Clear (scopes.visible runtime) ∧ flowsPlain runtime ([] :: scopes) body
  | .doWhile body cond =>
    cond.Clear (scopes.visible runtime) ∧ flowsPlain runtime ([] :: scopes) body
  | .loop init cond post body =>
    let inner := Scopes.declare ([] :: scopes) init.fresh
    init.PlainPart (scopes.visible runtime) ∧ cond.Clear (inner.visible runtime) ∧
      post.PlainPart (inner.visible runtime) ∧ flowsPlain runtime ([] :: inner) body
  | .walk header body =>
    header.Plain (scopes.visible runtime) ∧
      flowsPlain runtime ([] :: Scopes.declare ([] :: scopes) header.names) body
  | .switch tag cases =>
    tag.Clear (scopes.visible runtime) ∧ casesPlain runtime scopes cases
  | .labeled _ stmt => stmt.Plain runtime scopes
  | .simple stmt => stmt.Clear (scopes.visible runtime)
  | _ => True

/-- Whether the names of a statement list are plain. -/
def flowsPlain (runtime : String) (scopes : Scopes) : List Flow → Prop
  | [] => True
  | .declare d :: fs =>
    d.Plain (scopes.visible runtime) ∧ flowsPlain runtime (scopes.declare d.fresh) fs
  | f :: fs => f.Plain runtime scopes ∧ flowsPlain runtime scopes fs

/-- Whether the names of the cases of a switch are plain. -/
def casesPlain (runtime : String) (scopes : Scopes) : List FlowCase → Prop
  | [] => True
  | c :: cs => c.Plain runtime scopes ∧ casesPlain runtime scopes cs

/-- Whether the names of a case of a switch are plain. -/
def FlowCase.Plain (runtime : String) (scopes : Scopes) : FlowCase → Prop
  | .case values body =>
    exprsClear (scopes.visible runtime) values ∧ flowsPlain runtime ([] :: scopes) body
  | .default body => flowsPlain runtime ([] :: scopes) body

end

/-- Whether a generator has the shape that a checked source gives it. -/
def Routine.Regular (fn : Routine) : Prop :=
  flowsRegular ⟨[fn.parameters], false, false, []⟩ fn.body

/-- Whether the names of a generator are plain. -/
def Routine.Plain (fn : Routine) : Prop :=
  (∀ x ∈ fn.parameters, x ∉ reservedNames) ∧ fn.runtime ≠ iteratorName ∧
    flowsPlain fn.runtime [fn.parameters] fn.body

/-- Whether a generator is well formed. -/
def Routine.WellFormed (fn : Routine) : Prop := fn.Regular ∧ fn.Plain

end YieldMachine
