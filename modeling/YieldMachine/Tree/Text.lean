import YieldMachine.Tree.Kind
import YieldMachine.Tree.Token

/-!
# Expressions in messages

The text of an expression in a message.  Bodies of function literals and elements of
composite literals are left out.
-/

namespace YieldMachine

/-- The text of a kind of node that has no text of its own. -/
def nodeText (kind : String) : String := "(ast: " ++ kind ++ ")"

/-- The text of a node that need not be there. -/
def writtenText (absent : Bool) (text : String) : String := if absent then "" else text

mutual

/-- The text of an expression. -/
def Expr.text : Expr → String
  | .missing => nodeText "<nil>"
  | .ident x _ => x
  | .lit _ text => text
  | .sel x member => x.text ++ "." ++ member
  | .index x i => x.text ++ "[" ++ i.text ++ "]"
  | .indexList x is => x.text ++ "[" ++ ", ".intercalate (exprTexts is) ++ "]"
  | .slice x low high max three =>
    x.text ++ "[" ++ writtenText low.isMissing low.text
      ++ ":" ++ writtenText high.isMissing high.text
      ++ (if three then ":" ++ writtenText max.isMissing max.text else "") ++ "]"
  | .assert x ty => x.text ++ ".(" ++ ty.text ++ ")"
  | .call fn args spread =>
    fn.text ++ "(" ++ ", ".intercalate (exprTexts args) ++ (if spread then "..." else "") ++ ")"
  | .star x => "*" ++ x.text
  | .unary op x => op.text ++ x.text
  | .binary op x y => x.text ++ " " ++ op.text ++ " " ++ y.text
  | .paren x => "(" ++ x.text ++ ")"
  | .pair _ _ => nodeText "*ast.KeyValueExpr"
  | .composite ty elements => ty.text ++ (if elements.isEmpty then "\x7b\x7d" else "\x7b…\x7d")
  | .func signature _ => "(func" ++ signature.text ++ " literal)"
  | .funcType signature => "func" ++ signature.text
  | .array length element => "[" ++ writtenText length.isMissing length.text ++ "]" ++ element.text
  | .map key element => "map[" ++ key.text ++ "]" ++ element.text
  | .chan .send element => "chan<- " ++ element.text
  | .chan .receive element => "<-chan " ++ element.text
  | .chan .both element => "chan " ++ element.text
  | .struct fields => "struct\x7b" ++ "; ".intercalate (fields.texts false) ++ "\x7d"
  | .interface fields => "interface\x7b" ++ "; ".intercalate (fields.texts true) ++ "\x7d"
  | .ellipsis element => "..." ++ writtenText element.isMissing element.text

/-- The texts of expressions. -/
def exprTexts : List Expr → List String
  | [] => []
  | e :: es => e.text :: exprTexts es

/-- The text of a signature. -/
def Signature.text : Signature → String
  | .mk _ params results =>
    "(" ++ ", ".intercalate (params.texts false) ++ ")" ++ results.resultText

/-- The text of the results of a function. -/
def Fields.resultText : Fields → String
  | .absent => ""
  | .list [] => ""
  | .list [.mk [] ty _] => " " ++ ty.text
  | .list fs => " (" ++ ", ".intercalate (fieldTexts false fs) ++ ")"

/-- The texts of the fields of a list. -/
def Fields.texts (methods : Bool) : Fields → List String
  | .absent => []
  | .list fs => fieldTexts methods fs

/-- The texts of fields; a method is a name with a signature. -/
def fieldTexts (methods : Bool) : List Field → List String
  | [] => []
  | .mk names (.funcType signature) _ :: fs =>
    let signature := signature.text
    (", ".intercalate names ++ (if methods then "" else if names.isEmpty then "func" else " func")
      ++ signature) :: fieldTexts methods fs
  | .mk names ty _ :: fs =>
    (", ".intercalate names ++ (if names.isEmpty then "" else " ") ++ ty.text)
      :: fieldTexts methods fs

end

end YieldMachine
