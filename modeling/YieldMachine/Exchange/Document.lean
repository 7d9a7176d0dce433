/-!
# Documents

Trees, tables and packages are exchanged with other programs as documents: nested
lists and records of texts, whole numbers and truth values.
-/

namespace YieldMachine

/-- A document. -/
inductive Doc where
  | null
  | bool (b : Bool)
  | int (n : Int)
  | text (s : String)
  | list (items : List Doc)
  | record (fields : List (String × Doc))
  deriving Inhabited

namespace Doc

/-- A list that starts with a tag. -/
def tagged (tag : String) (items : List Doc) : Doc := .list (.text tag :: items)

/-- A natural number. -/
def nat (n : Nat) : Doc := .int n

/-- A list of texts. -/
def texts (xs : List String) : Doc := .list (xs.map .text)

/-- A document, or nothing. -/
def option {α : Type} (write : α → Doc) : Option α → Doc
  | some a => write a
  | none => .null

/-- A list of documents. -/
def listOf {α : Type} (write : α → Doc) (xs : List α) : Doc := .list (xs.map write)

/-- The field of a record, nothing when there is none. -/
def field (d : Doc) (name : String) : Doc :=
  match d with
  | .record fields => (fields.lookup name).getD .null
  | _ => .null

/-- Whether there is nothing. -/
def isNull : Doc → Bool
  | .null => true
  | _ => false

/-- Reads a text. -/
def text? : Doc → Option String
  | .text s => some s
  | _ => none

/-- Reads a name: a text, or the text after the tag of a list. -/
def name? : Doc → Option String
  | .text s => some s
  | .list (_ :: .text s :: _) => some s
  | _ => none

/-- Reads a truth value. -/
def bool? : Doc → Option Bool
  | .bool b => some b
  | _ => none

/-- Reads a number. -/
def int? : Doc → Option Int
  | .int n => some n
  | _ => none

/-- Reads a natural number. -/
def nat? : Doc → Option Nat
  | .int (.ofNat n) => some n
  | _ => none

/-- Reads a list. -/
def list? : Doc → Option (List Doc)
  | .list items => some items
  | _ => none

/-- Reads a record. -/
def record? : Doc → Option (List (String × Doc))
  | .record fields => some fields
  | _ => none

/-- Reads a list of equal parts. -/
def listOf? {α : Type} (read : Doc → Option α) (d : Doc) : Option (List α) :=
  d.list?.bind (·.mapM read)

/-- Reads a part that may be nothing. -/
def option? {α : Type} (read : Doc → Option α) : Doc → Option (Option α)
  | .null => some none
  | d => (read d).map some

/-- Reads a list of names. -/
def names? : Doc → Option (List String) := listOf? name?

end Doc

end YieldMachine
