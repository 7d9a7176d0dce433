import YieldMachine.Text.Letter

/-!
# Identifiers

An identifier starts with a letter, goes on with letters and digits, and is no keyword.
-/

namespace YieldMachine

/-- Words that cannot be used as names. -/
def keywords : List String :=
  ["break", "case", "chan", "const", "continue", "default", "defer", "else", "fallthrough",
    "for", "func", "go", "goto", "if", "import", "interface", "map", "package", "range",
    "return", "select", "struct", "switch", "type", "var"]

/-- Whether a character can start an identifier. -/
def startsIdentifier (c : Char) : Bool := isLetter c || c == '_'

/-- Whether a text is an identifier. -/
def isIdentifier (s : String) : Bool :=
  match s.toList with
  | [] => false
  | c :: cs =>
    startsIdentifier c && cs.all (fun c => startsIdentifier c || isDecimalDigit c)
      && !keywords.contains s

end YieldMachine
