import YieldMachine.Source.Tree
import YieldMachine.Tree.Token

/-!
# Why a generator cannot be compiled

A problem is a reason at a position.  Problems do not stop the work: `Noted` is a value
together with all problems that were met, and with the types that were spelled on the
way.
-/

namespace YieldMachine.Source

/-- How a statement would be left other than at its end. -/
inductive Exit where
  | yield
  | ret
  | goto
  | cont
  | label (kind : BranchKind) (name : String)
  deriving DecidableEq, Repr

/-- The text of an exit. -/
def Exit.text : Exit → String
  | .yield => "Yield"
  | .ret => "return"
  | .goto => "goto"
  | .cont => "continue"
  | .label kind name => kind.text ++ " " ++ name

/-- Why a generator cannot be compiled.  Operands and types are given by their texts. -/
inductive Reason where
  | notGenerator
  | unnamedRuntime
  | namedResult
  | yieldInLiteral
  | captured (name : String)
  | addressed (name : String)
  | yieldAsValue (runtime : String)
  | badReturn (runtime : String)
  | goto
  | misplaced (kind : BranchKind)
  | defer
  | localDecl (kind : DeclKind)
  | exit (e : Exit)
  | rangeOver (x : String)
  | rangeOverParam (type : String)
  | rangeOverArray (x : String)
  | rangeOverFunc (x runtime : String)
  | rangeOverType (x type : String)
  deriving DecidableEq, Repr

/-- The text of a reason. -/
def Reason.text : Reason → String
  | .notGenerator => "Yield used in a function that does not return a Generator"
  | .unnamedRuntime => "the runtime package must be imported by name"
  | .namedResult => "generators must not name their result"
  | .yieldInLiteral => "Yield inside a function literal"
  | .captured name => "function literal captures " ++ name ++ ", which is declared in a loop"
  | .addressed name => "address taken of " ++ name ++ ", which is declared in a loop"
  | .yieldAsValue runtime => "Yield used as a value, write return " ++ runtime ++ ".Yield(v)"
  | .badReturn runtime => "return must be return " ++ runtime ++ ".Yield(v) or return nil"
  | .goto => "goto is not supported in generators"
  | .misplaced kind => "misplaced " ++ kind.text
  | .defer => "defer is not supported in generators"
  | .localDecl kind =>
    "local " ++ kind.text ++ " declarations are not supported in generic generators"
  | .exit e => e.text ++ " inside a select or type switch"
  | .rangeOver x => "cannot range over " ++ x
  | .rangeOverParam type => "cannot range over type parameter " ++ type
  | .rangeOverArray x => "cannot range over unaddressable array " ++ x
  | .rangeOverFunc x runtime =>
    "cannot range over function " ++ x ++ ", use " ++ runtime ++ ".Seq only on generators"
  | .rangeOverType x type => "cannot range over " ++ x ++ " of type " ++ type

/-- A reason at a position. -/
structure Problem where
  pos : Pos
  reason : Reason
  deriving DecidableEq, Repr

/-- A value with the problems that were met and the types that were spelled. -/
structure Noted (α : Type) where
  value : α
  problems : List Problem
  types : List Ty

namespace Noted

instance : Monad Noted where
  pure a := ⟨a, [], []⟩
  bind x f :=
    ⟨(f x.value).value, x.problems ++ (f x.value).problems, x.types ++ (f x.value).types⟩

@[simp]
theorem value_pure {α : Type} (a : α) : (pure a : Noted α).value = a := rfl

@[simp]
theorem problems_pure {α : Type} (a : α) : (pure a : Noted α).problems = [] := rfl

@[simp]
theorem value_bind {α β : Type} (x : Noted α) (f : α → Noted β) :
    (x >>= f).value = (f x.value).value := rfl

@[simp]
theorem problems_bind {α β : Type} (x : Noted α) (f : α → Noted β) :
    (x >>= f).problems = x.problems ++ (f x.value).problems := rfl

end Noted

/-- Notes a problem. -/
def note (pos : Pos) (reason : Reason) : Noted Unit := ⟨(), [⟨pos, reason⟩], []⟩

/-- Notes problems. -/
def noteAll (problems : List Problem) : Noted Unit := ⟨(), problems, []⟩

end YieldMachine.Source
