import YieldMachine.Flow.Basic

/-!
# Which statements change the control flow of their generator

A statement has to be split into states when it yields, ends the generator, or
holds a break or continue that leaves the statement itself.  Everything else can
run inside one state unchanged.
-/

namespace YieldMachine

/-- The branch targets that lie inside the statement under examination. -/
structure Bound where
  brk : Bool
  cont : Bool
  labels : List String
  deriving Inhabited

namespace Bound

/-- No target is inside. -/
def none : Bound := ⟨false, false, []⟩

/-- Inside a loop both plain branches have a target. -/
def inLoop (b : Bound) : Bound := { b with brk := true, cont := true }

/-- Inside a switch a plain break has a target. -/
def inSwitch (b : Bound) : Bound := { b with brk := true }

/-- Inside a labelled statement the label is a target. -/
def withLabel (b : Bound) (label : String) : Bound := { b with labels := label :: b.labels }

end Bound

mutual

/-- Whether the statement yields, ends the generator or branches to a target that
is not among `b`. -/
def Flow.escapes (b : Bound) : Flow → Bool
  | .yield _ => true
  | .finish => true
  | .brk label => if label = "" then !b.brk else !b.labels.contains label
  | .cont label => if label = "" then !b.cont else !b.labels.contains label
  | .block body => anyEscapes b body
  | .ite _ body other => anyEscapes b body || other.escapes b
  | .while _ body => anyEscapes b.inLoop body
  | .doWhile body _ => anyEscapes b.inLoop body
  | .loop _ _ _ body => anyEscapes b.inLoop body
  | .walk _ body => anyEscapes b.inLoop body
  | .switch _ cases => anyCaseEscapes b.inSwitch cases
  | .labeled label stmt => stmt.escapes (b.withLabel label)
  | .missing | .declare _ | .lift _ | .simple _ => false

/-- Whether one of the statements escapes. -/
def anyEscapes (b : Bound) : List Flow → Bool
  | [] => false
  | s :: ss => s.escapes b || anyEscapes b ss

/-- Whether a statement of one of the cases escapes. -/
def anyCaseEscapes (b : Bound) : List FlowCase → Bool
  | [] => false
  | c :: cs => c.escapes b || anyCaseEscapes b cs

/-- Whether a statement of the case escapes. -/
def FlowCase.escapes (b : Bound) : FlowCase → Bool
  | .case _ body => anyEscapes b body
  | .default body => anyEscapes b body

end

/-- Whether a statement has to be split into states. -/
def Flow.modifiesControlFlow (s : Flow) : Bool := s.escapes .none

end YieldMachine
