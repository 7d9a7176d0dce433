import YieldMachine.Exchange.Document

/-!
# Documents in running text
-/

namespace YieldMachine

mutual

/-- A document as it stands in a message: texts bare, lists between brackets with
blanks between their items. -/
def Doc.display : Doc → String
  | .null => "<nil>"
  | .bool b => if b then "true" else "false"
  | .int n => toString n
  | .text s => s
  | .list items => "[" ++ displayItems items ++ "]"
  | .record fields => "map[" ++ displayFields fields ++ "]"

/-- The items of a list with blanks between them. -/
def displayItems : List Doc → String
  | [] => ""
  | [d] => d.display
  | d :: ds => d.display ++ " " ++ displayItems ds

/-- The fields of a record with blanks between them. -/
def displayFields : List (String × Doc) → String
  | [] => ""
  | [f] => displayField f
  | f :: fs => displayField f ++ " " ++ displayFields fs

/-- A field of a record. -/
def displayField : String × Doc → String
  | (name, d) => name ++ ":" ++ d.display

end

/-- What is raised where a value is yielded by a function that was not lowered. -/
def yieldOutside (value : Doc) : String :=
  "yieldgen: Yield(" ++ value.display ++ ") called outside a generated file, run go generate"

end YieldMachine
