import YieldMachine.Tree.Basic

/-!
# The spelling of operators and keywords

Each class of tokens has a `text` and a partial inverse `ofText?`, which searches
the list of all tokens of the class.
-/

namespace YieldMachine

/-- The first of `all` that is spelled `s`. -/
def findSpelled? {α : Type} (text : α → String) (all : List α) (s : String) : Option α :=
  all.find? (fun a => text a == s)

namespace LitKind

/-- The name of a class of literals. -/
def text : LitKind → String
  | .int => "INT"
  | .float => "FLOAT"
  | .imag => "IMAG"
  | .char => "CHAR"
  | .string => "STRING"

/-- The class of literals with a name. -/
def ofText? : String → Option LitKind :=
  findSpelled? text [.int, .float, .imag, .char, .string]

end LitKind

namespace UnaryOp

/-- The spelling of an operator. -/
def text : UnaryOp → String
  | .plus => "+"
  | .minus => "-"
  | .not => "!"
  | .complement => "^"
  | .address => "&"
  | .receive => "<-"
  | .tilde => "~"

/-- The operator with a spelling. -/
def ofText? : String → Option UnaryOp :=
  findSpelled? text [.plus, .minus, .not, .complement, .address, .receive, .tilde]

end UnaryOp

namespace BinaryOp

/-- The spelling of an operator. -/
def text : BinaryOp → String
  | .add => "+"
  | .sub => "-"
  | .mul => "*"
  | .quo => "/"
  | .rem => "%"
  | .bitAnd => "&"
  | .bitOr => "|"
  | .bitXor => "^"
  | .shiftLeft => "<<"
  | .shiftRight => ">>"
  | .bitClear => "&^"
  | .land => "&&"
  | .lor => "||"
  | .eq => "=="
  | .ne => "!="
  | .lt => "<"
  | .le => "<="
  | .gt => ">"
  | .ge => ">="

/-- All operators. -/
def all : List BinaryOp :=
  [.add, .sub, .mul, .quo, .rem, .bitAnd, .bitOr, .bitXor, .shiftLeft, .shiftRight,
    .bitClear, .land, .lor, .eq, .ne, .lt, .le, .gt, .ge]

/-- The operator with a spelling. -/
def ofText? : String → Option BinaryOp := findSpelled? text all

end BinaryOp

namespace AssignKind

/-- The spelling of an assignment operator. -/
def text : AssignKind → String
  | .set => "="
  | .define => ":="
  | .update op => op.text ++ "="

/-- The assignment operator with a spelling. -/
def ofText? : String → Option AssignKind :=
  findSpelled? text (.set :: .define :: BinaryOp.all.map .update)

end AssignKind

namespace RangeKind

/-- The spelling of the operator of a range clause; a clause without key has none. -/
def text : RangeKind → String
  | .bare => ""
  | .set => "="
  | .define => ":="

/-- The range operator with a spelling. -/
def ofText? : String → Option RangeKind := findSpelled? text [.bare, .set, .define]

end RangeKind

namespace BranchKind

/-- The keyword of a branch. -/
def text : BranchKind → String
  | .brk => "break"
  | .cont => "continue"
  | .goto => "goto"
  | .fallthrough => "fallthrough"

/-- The branch with a keyword. -/
def ofText? : String → Option BranchKind :=
  findSpelled? text [.brk, .cont, .goto, .fallthrough]

end BranchKind

namespace DeclKind

/-- The keyword of a declaration. -/
def text : DeclKind → String
  | .var => "var"
  | .const => "const"
  | .type => "type"
  | .imports => "import"

/-- The declaration with a keyword. -/
def ofText? : String → Option DeclKind :=
  findSpelled? text [.var, .const, .type, .imports]

end DeclKind

end YieldMachine
