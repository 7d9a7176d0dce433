import YieldMachine.Flow.Basic
import YieldMachine.Tree.Token

/-!
# State tables

A lowered generator is a table of states.  Each state is a list of operations
that has to end in a transfer: a jump to another state, with or without a value on
the way, or the end of the generator.
-/

namespace YieldMachine

/-- The state that a generator starts in. -/
def entryState : Nat := 0

/-- The state that finishes a generator. -/
def endState : Nat := 1

mutual

/-- The operations of a state. -/
inductive Op where
  | exec (stmt : Stmt)
  /-- goes to a state, producing the value on the way unless it is missing -/
  | jump (goal : Nat) (value : Expr)
  /-- resumes what the generator was started with -/
  | finish
  /-- runs the operations when the condition holds -/
  | when (cond : Expr) (ops : List Op)
  /-- runs the first or the second operations -/
  | choose (cond : Expr) (ops others : List Op)
  /-- runs the first arm that matches the tag, like a switch -/
  | dispatch (tag : Expr) (arms : List Arm)

/-- An arm of a dispatch: for listed values, or for all others. -/
inductive Arm where
  | case (values : List Expr) (ops : List Op)
  | default (ops : List Op)

end

instance : Inhabited Op := ⟨.finish⟩

/-- Whether the arm is for all values that no other arm lists. -/
def Arm.isDefault : Arm → Bool
  | .case _ _ => false
  | .default _ => true

/-- The operations of an arm. -/
def Arm.ops : Arm → List Op
  | .case _ ops => ops
  | .default ops => ops

mutual

/-- Whether every path through the operation ends in a transfer. -/
def Op.terminates : Op → Bool
  | .exec _ => false
  | .jump _ _ => true
  | .finish => true
  | .when _ _ => false
  | .choose _ ops others => opsTerminate ops && opsTerminate others
  | .dispatch _ arms => arms.any Arm.isDefault && armsTerminate arms

/-- Whether the last of the operations ends in a transfer on every path. -/
def opsTerminate : List Op → Bool
  | [] => false
  | [op] => op.terminates
  | _ :: ops => opsTerminate ops

/-- Whether every arm ends in a transfer. -/
def armsTerminate : List Arm → Bool
  | [] => true
  | arm :: arms => arm.terminates && armsTerminate arms

/-- Whether the arm ends in a transfer. -/
def Arm.terminates : Arm → Bool
  | .case _ ops => opsTerminate ops
  | .default ops => opsTerminate ops

end

/-- A generator function ready for lowering. -/
structure Routine where
  /-- becomes the name of the holder -/
  name : String
  recv : Option Field
  typeParams : Fields
  params : Fields
  /-- the type of the produced elements -/
  elem : Expr
  /-- the name that the runtime package is imported under -/
  runtime : String
  body : List Flow

/-- The result of lowering one generator.  The id of a state is its position. -/
structure Holder where
  name : String
  /-- the receiver name of the state methods -/
  recv : String
  runtime : String
  elem : Expr
  typeParams : Fields
  fields : List (String × Expr)
  /-- the fields that are filled from parameters of the same name -/
  params : List String
  /-- lifted local declarations -/
  types : List Decl
  states : List (List Op)

/-- Why a body cannot be lowered. -/
inductive LowerError where
  /-- a break or continue has no target -/
  | unresolved (holder : String) (kind : BranchKind) (label : String)
  /-- a state does not end in a transfer -/
  | incomplete (holder : String) (state : Nat)
  /-- a statement is missing -/
  | missingStatement
  /-- a declaration has fewer types than names, or a simple statement holds nothing -/
  | malformed
  deriving DecidableEq, Repr

/-- The text of an error; a malformed body has none. -/
def LowerError.message : LowerError → String
  | .unresolved holder kind label =>
    "lowering " ++ holder ++ ": unresolved branch target: " ++ kind.text ++ " " ++ label
  | .incomplete holder state =>
    "state without transfer: " ++ holder ++ " state " ++ toString state
  | .missingStatement => "ir: unknown statement <nil>"
  | .malformed => ""

/-- The first state of a table that does not end in a transfer, its id counted from
`id` on. -/
def firstIncomplete? : Nat → List (List Op) → Option Nat
  | _, [] => none
  | id, ops :: states => if opsTerminate ops then firstIncomplete? (id + 1) states else some id

/-- Checks that every state ends in a transfer. -/
def validate (holder : String) (states : List (List Op)) : Except LowerError Unit :=
  match firstIncomplete? 0 states with
  | some id => .error (.incomplete holder id)
  | none => .ok ()

end YieldMachine
