import YieldMachine.Text.Literal
import YieldMachine.Tree.Basic

/-!
# Why a running machine stops

A fault ends the step that raises it, and keeps everything done so far.
-/

namespace YieldMachine

/-- The causes that stop a machine. -/
inductive Fault where
  /-- the bound on the number of steps is used up -/
  | exhausted
  /-- a value does not have the form that an operation needs, such as an index out of
  range or a comparison of lists -/
  | invalid
  /-- the machine raises a text of its own -/
  | raised (text : String)
  /-- a state ends without a transfer -/
  | fellThrough (state : Nat)
  | unknownName (name : String)
  | unknownField (name : String)
  | unknownTarget (name : String)
  | badSelector
  | badExpr (kind : String)
  | badStmt (kind : String)
  | badTarget (kind : String)
  | badCall (kind : String)
  | badMulti (kind : String)
  | badOperator (op : String)
  | badAdapter (name : String)
  /-- a number literal, quoted, that cannot be read -/
  | badNumber (quoted : String) (cause : DecimalError)
  /-- a text literal that cannot be read -/
  | badText
  deriving DecidableEq, Repr

/-- The text of a fault.  Invalid operations and used up bounds have none. -/
def Fault.message? : Fault → Option String
  | .exhausted => none
  | .invalid => none
  | .raised text => some text
  | .fellThrough state => some ("state " ++ toString state ++ " fell through")
  | .unknownName name => some ("lowertest: unknown identifier " ++ name)
  | .unknownField name => some ("lowertest: unknown field " ++ name)
  | .unknownTarget name => some ("lowertest: assignment to unknown " ++ name)
  | .badSelector => some "lowertest: unsupported selector"
  | .badExpr kind => some ("lowertest: unsupported expression " ++ kind)
  | .badStmt kind => some ("lowertest: unsupported statement " ++ kind)
  | .badTarget kind => some ("lowertest: unsupported assignment target " ++ kind)
  | .badCall kind => some ("lowertest: unsupported call of " ++ kind)
  | .badMulti kind => some ("lowertest: unsupported multi-valued expression " ++ kind)
  | .badOperator op => some ("lowertest: unsupported operator " ++ op)
  | .badAdapter name => some ("lowertest: unsupported adapter " ++ name)
  | .badNumber quoted cause =>
    some ("strconv.Atoi: parsing " ++ quoted ++ ": " ++ cause.text)
  | .badText => some "invalid syntax"

/-- Computations over a state `σ` that may stop with a fault and keep the state. -/
abbrev Eff (σ : Type) := EStateM Fault σ

end YieldMachine
