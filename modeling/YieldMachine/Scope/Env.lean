import YieldMachine.Scope.Target

/-!
# The context of a statement being lowered

An `Env` says where control goes after a statement, where its branches lead, what
its names stand for, and which labels are attached to it.  It is a value: each
operation gives a new context, so sibling branches never see each other's bindings.
-/

namespace YieldMachine

/-- The context of a statement, with states of type `α`.  The empty label stands for
a branch without one. -/
structure Env (α : Type) where
  /-- the state to go to when the statement completes normally -/
  next : α
  breaks : List (String × α)
  continues : List (String × α)
  renames : Renames
  labels : List String

namespace Env

variable {α : Type}

/-- The context in which nothing is bound. -/
def start (next : α) : Env α := ⟨next, [], [], [], []⟩

/-- Continues at `state` after the statement. -/
def withNext (e : Env α) (state : α) : Env α := { e with next := state }

/-- Binds the target of a break. -/
def withBreak (e : Env α) (label : String) (state : α) : Env α :=
  { e with breaks := (label, state) :: e.breaks }

/-- Binds the target of a continue. -/
def withContinue (e : Env α) (label : String) (state : α) : Env α :=
  { e with continues := (label, state) :: e.continues }

/-- Lets a name stand for `target`. -/
def withRename (e : Env α) (name : String) (target : Target) : Env α :=
  { e with renames := e.renames.insert name target }

/-- Makes a renamed name refer to itself again. -/
def shadow (e : Env α) (name : String) : Env α :=
  { e with renames := e.renames.shadow name }

/-- Attaches a label to the statement about to be lowered. -/
def withLabel (e : Env α) (label : String) : Env α :=
  { e with labels := e.labels ++ [label] }

/-- Forgets the attached labels. -/
def clearLabels (e : Env α) : Env α := { e with labels := [] }

/-- The target of a break. -/
def break? (e : Env α) (label : String) : Option α := e.breaks.lookup label

/-- The target of a continue. -/
def continue? (e : Env α) (label : String) : Option α := e.continues.lookup label

/-- What a name stands for, if it was renamed. -/
def find? (e : Env α) (name : String) : Option Target := e.renames.find? name

/-- The context of a loop body: break leaves the loop, and continue goes to `state`,
with and without each label attached to the loop. -/
def inLoop (e : Env α) (state : α) : Env α :=
  let inner := (e.withBreak "" e.next).withContinue "" state
  let inner := e.labels.foldl (fun inner label => inner.withContinue label state) inner
  (inner.withNext state).clearLabels

end Env

end YieldMachine
