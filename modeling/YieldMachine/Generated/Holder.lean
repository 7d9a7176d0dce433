import YieldMachine.Scope.Name
import YieldMachine.Source.Types
import YieldMachine.Table.Basic
import YieldMachine.Text.Quoted
import YieldMachine.Tree.TopLevel

/-!
# The declarations of a holder

A lowered generator is written as a function that fills a holder with its parameters
and starts at the entry state, the type of the holder, its lifted declarations, and one
method for each state.
-/

namespace YieldMachine

namespace Holder

/-- A name of the runtime package, applied to the type of the elements. -/
def runtimeOf (h : Holder) (name : String) : Expr := .index (.sel (.name h.runtime) name) h.elem

/-- The type of the holder, applied to its own type parameters. -/
def type (h : Holder) : Expr := Ty.instantiated (.name h.name) (h.typeParams.names.map .name)

/-- The method of a state, as a value. -/
def stateRef (h : Holder) (id : Nat) : Expr := .sel (.name h.recv) (stateMethod id)

/-- Returns what a function of the runtime package makes of arguments. -/
def returnOf (h : Holder) (name : String) (args : List Expr) : Stmt :=
  .ret [.call (h.runtimeOf name) args false]

end Holder

/-- What a state method was called with. -/
def continuation : Expr := .name continuationName

mutual

/-- The statement of an operation. -/
def Op.toStmt (h : Holder) : Op → Stmt
  | .exec stmt => stmt
  | .jump goal value =>
    if value.isMissing then h.returnOf "Goto" [continuation, h.stateRef goal]
    else h.returnOf "Emit" [continuation, h.stateRef goal, value]
  | .finish => h.returnOf "Finish" [continuation]
  | .when cond ops => .ite .missing cond (opsToStmts h ops) .missing
  | .choose cond ops others =>
    .ite .missing cond (opsToStmts h ops) (.block (opsToStmts h others))
  | .dispatch tag arms => .switch .missing tag (armsToClauses h arms)

/-- The statements of operations. -/
def opsToStmts (h : Holder) : List Op → List Stmt
  | [] => []
  | op :: ops => op.toStmt h :: opsToStmts h ops

/-- The clauses of the arms of a dispatch. -/
def armsToClauses (h : Holder) : List Arm → List Clause
  | [] => []
  | arm :: arms => arm.toClause h :: armsToClauses h arms

/-- The clause of an arm of a dispatch. -/
def Arm.toClause (h : Holder) : Arm → Clause
  | .case values ops => .case values (opsToStmts h ops)
  | .default ops => .default (opsToStmts h ops)

end

namespace Holder

/-- The declaration of the type of the holder. -/
def typeDecl (h : Holder) : TopLevel :=
  let fields := h.fields.map fun (name, type) => Field.mk [name] type none
  .group ⟨.type, [.type h.name h.typeParams false (.struct (.list fields))]⟩

/-- The method of the state with an id. -/
def stateDecl (h : Holder) (id : Nat) (ops : List Op) : TopLevel :=
  .func {
    name := stateMethod id
    recv := .list [.mk [h.recv] (.star h.type) none]
    signature := .mk .absent (.list [.mk [continuationName] (h.runtimeOf "State") none])
      (.list [.mk [] (h.runtimeOf "Bounce") none])
    body := some (opsToStmts h ops) }

/-- The methods of states, the ids of which are counted from `id` on. -/
def stateDecls (h : Holder) : Nat → List (List Op) → List TopLevel
  | _, [] => []
  | id, ops :: states => h.stateDecl id ops :: h.stateDecls (id + 1) states

/-- The body of the function that starts the generator. -/
def startBody (h : Holder) : List Stmt :=
  let entries := h.params.map fun name => Expr.pair (.name name) (.name name)
  [.assign .define [.name h.recv] [.unary .address (.composite h.type entries)],
    h.returnOf "Start" [h.stateRef entryState]]

/-- The declarations that replace the generator `f`. -/
def decls (h : Holder) (f : FuncDecl) : List TopLevel :=
  .func { f with body := some h.startBody } :: h.typeDecl :: h.types.map .group
    ++ h.stateDecls 0 h.states

end Holder

/-- What a generator says that could not be compiled. -/
def stubMessage (name : String) : String :=
  "yieldgen: " ++ name ++ " could not be rewritten, run yieldgen for details"

/-- The declaration that replaces a generator that could not be compiled. -/
def FuncDecl.stub (f : FuncDecl) : FuncDecl :=
  { f with
    body := some [.expr (.call (.name "panic") [.lit .string (quote (stubMessage f.name))] false)] }

end YieldMachine
