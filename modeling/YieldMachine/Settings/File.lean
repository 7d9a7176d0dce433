import YieldMachine.Settings.Basic
import YieldMachine.Yaml.Meaning
import YieldMachine.Yaml.Node

/-!
# Settings files

A settings file is a YAML mapping.  Keys that are not settings are ignored, with their
values; a key that comes twice is an error, and so is a value of another kind than the
setting.  A merge key adds the entries of other mappings for keys that are missing.
-/

namespace YieldMachine

namespace Yaml

/-- The node that aliases stand for; none for an alias inside its own node. -/
def Node.resolved? : Node → Option Node
  | .reference _ none => none
  | .reference _ (some n) => n.resolved?
  | n => some n

/-- The meaning of a scalar; none for other nodes. -/
def Node.meaning? (n : Node) : Option Meaning :=
  match n.resolved? with
  | some (.scalar tag plain text) => Yaml.meaning? tag plain text
  | _ => none

/-- The text of a scalar, whatever it means; the inner option is none for nothing.
Only a text that is written as bytes differs from how it is written. -/
def Node.text? (n : Node) : Option (Option String) :=
  match n.resolved? with
  | some (.scalar tag plain text) =>
    match Yaml.meaning? tag plain text with
    | none => none
    | some .null => some none
    | some (.text s) => some (some s)
    | some _ => some (some text)
  | _ => none

/-- A list of texts without those that are nothing. -/
def Node.texts? (n : Node) : Option (List String) :=
  match n.resolved? with
  | some (.sequence items) => (items.mapM Node.text?).map (·.filterMap id)
  | some (.scalar tag plain text) =>
    if Yaml.meaning? tag plain text = some .null then some [] else none
  | _ => none

/-- A truth value; words of older versions of YAML count too. -/
def Node.bool? (n : Node) : Option (Option Bool) :=
  match n.meaning? with
  | some .null => some none
  | some (.bool b) => some (some b)
  | some (.text s) =>
    if ["y", "Y", "yes", "on"].contains s then some (some true)
    else if ["n", "N", "no", "off"].contains s then some (some false)
    else none
  | _ => none

/-- A number of 64 bits. -/
def Node.int? (n : Node) : Option (Option Int) :=
  match n.meaning? with
  | some .null => some none
  | some (.int i) => if i < Word.half then some (some i) else none
  | some (.float (some i)) => some (some i)
  | _ => none

/-- Whether a key asks to merge other mappings. -/
def Node.isMerge : Node → Bool
  | .scalar none true text => text == "<<"
  | .scalar (some tag) _ text => text == "<<" && tag == "!!merge"
  | _ => false

/-- What tells keys apart: the kind of node and, of scalars and aliases, the text. -/
def Node.keyText : Node → Nat × String
  | .scalar _ _ text => (0, text)
  | .sequence _ => (1, "")
  | .mapping _ => (2, "")
  | .reference name _ => (3, name)

/-- Whether no element comes twice. -/
def allDistinct {α : Type} [BEq α] : List α → Bool
  | [] => true
  | x :: xs => !xs.contains x && allDistinct xs

/-- The entries of a mapping, split into those with a name and the value of the last
merge key.  Keys that are nothing are skipped. -/
def namedEntries? : List Entry → Option (List (String × Node) × Option Node)
  | [] => some ([], none)
  | ⟨key, value⟩ :: rest => do
    let (named, merge) ← namedEntries? rest
    if key.isMerge then return (named, merge.getD value)
    match ← key.text? with
    | some name => return ((name, value) :: named, merge)
    | none => return (named, merge)

/-- Puts entries behind others that are preferred. -/
def preferring (first more : List (String × Node)) : List (String × Node) :=
  first ++ more.filter fun (name, _) => (first.lookup name).isNone

/-- The named entries of a mapping and of those merged into it.  `known` are the names
that must not come twice in one mapping.  The first argument bounds the depth. -/
def Node.entries? (known : List String) : Nat → Node → Option (List (String × Node))
  | 0, _ => none
  | bound + 1, n =>
    match n.resolved? with
    | some (.mapping entries) => do
      if !allDistinct (entries.map fun ⟨key, _⟩ => key.keyText) then none
      let (named, merge) ← namedEntries? entries
      if !allDistinct ((named.map (·.1)).filter known.contains) then none
      match merge with
      | none => return named
      | some m =>
        match m with
        | .sequence items =>
          items.foldlM (fun acc item => return preferring acc (← item.entries? known bound)) named
        | m => return preferring named (← m.entries? known bound)
    | _ => none

/-- How deep nodes are nested. -/
def Node.depth : Node → Nat
  | .scalar .. => 1
  | .sequence items => depths items + 1
  | .mapping entries => entryDepths entries + 1
  | .reference _ none => 1
  | .reference _ (some n) => n.depth + 1
where
  /-- The greatest depth of a list of nodes. -/
  depths : List Node → Nat
    | [] => 0
    | n :: rest => max n.depth (depths rest)
  /-- The greatest depth of a list of entries. -/
  entryDepths : List Entry → Nat
    | [] => 0
    | ⟨key, value⟩ :: rest => max (max key.depth value.depth) (entryDepths rest)

end Yaml

namespace Settings

/-- Settings as the entries of a mapping give them; what is nothing stays unset. -/
def ofEntries? (entries : List (String × Yaml.Node)) : Option Settings := do
  let get {α : Type} (name : String) (read : Yaml.Node → Option α) (absent : α) : Option α :=
    match entries.lookup name with
    | some n => read n
    | none => some absent
  return {
    tags := ← get "tags" Yaml.Node.texts? []
    suffix := (← get "suffix" Yaml.Node.text? none).getD ""
    jobs := (← get "jobs" Yaml.Node.int? none).getD 0
    verbose := (← get "verbose" Yaml.Node.bool? none).getD false }

/-- The names of the settings in a file. -/
def fileKeys : List String := ["tags", "suffix", "jobs", "verbose"]

/-- The settings that a document holds, none of them for an empty one. -/
def ofNode? (n : Yaml.Node) : Option Settings :=
  match n.meaning? with
  | some .null => some unset
  | _ => (n.entries? fileKeys n.depth).bind ofEntries?

/-- The settings that a text holds. -/
def ofText? (text : String) : Option Settings := do
  match ← Yaml.document? text with
  | some n => ofNode? n
  | none => some unset

end Settings

end YieldMachine
