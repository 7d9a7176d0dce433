import YieldMachine.Settings.Basic
import YieldMachine.Text.Literal

/-!
# Environment variables

A variable that is empty counts as not set.  Some words stand for a true value.
-/

namespace YieldMachine

/-- Environment variables with their values. -/
abbrev Environment := List (String × String)

/-- The value of a variable that is set. -/
def Environment.value? (env : Environment) (name : String) : Option String :=
  (env.lookup name).filter (!·.isEmpty)

/-- Words that stand for a true value, besides the digit 1. -/
def affirmatives : List String :=
  ["absolutely", "affirmative", "enable", "enabled", "positive", "t", "true", "y", "yes"]

/-- The ways a word may be written: in small letters, in capitals, and capitalised. -/
def spellings (word : String) : List String :=
  let cs := word.toList
  [word, String.ofList (cs.map Char.toUpper),
    String.ofList ((cs.take 1).map Char.toUpper ++ cs.drop 1)]

/-- Whether the value of a variable is a true one. -/
def isAffirmative (s : String) : Bool :=
  s == "1" || affirmatives.any fun word => (spellings word).contains s

end YieldMachine
