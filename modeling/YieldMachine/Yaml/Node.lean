import YieldMachine.Yaml.Stream

/-!
# Documents of YAML

`document?` reads the first document of a stream into a tree of nodes.  An alias holds
the node it stands for, except inside that node, where it holds nothing.
-/

namespace YieldMachine.Yaml

mutual

/-- A node of a document.  The tag of a scalar is the one written before it. -/
inductive Node where
  | scalar (tag : Option String) (plain : Bool) (text : String)
  | sequence (items : List Node)
  | mapping (entries : List Entry)
  | reference (name : String) (target : Option Node)

/-- An entry of a mapping. -/
inductive Entry where
  | mk (key value : Node)

end

namespace Node

/-- A scalar that is not written. -/
def empty : Node := .scalar none true ""

/-- The state of reading: the tokens ahead, the tag handles and the anchors.  An anchor
is pending while its node is being read. -/
structure Reading where
  tokens : List Token
  handles : List (String × String)
  anchors : List (String × Option Node)

/-- Steps of reading. -/
abbrev Reader := StateT Reading Option

/-- The next token. -/
def peek : Reader Token := do
  match (← get).tokens with
  | t :: _ => return t
  | [] => failure

/-- Moves past a token. -/
def advance : Reader Unit := modify fun s => { s with tokens := s.tokens.tail }

/-- Binds an anchor. -/
def bindAnchor (name : String) (node : Option Node) : Reader Unit :=
  modify fun s => { s with anchors := (name, node) :: s.anchors }

/-- Binds the anchor of a node that has been read, unless the name was given to another
node meanwhile. -/
def bindRead (name : String) (node : Node) : Reader Unit := do
  match (← get).anchors.lookup name with
  | some none => bindAnchor name (some node)
  | _ => return ()

/-- The tag that a handle and a suffix stand for; none for a tag that says nothing. -/
def expandTag (handle suffix : String) : Reader (Option String) := do
  let standard := "tag:yaml.org,2002:"
  let tag ←
    if handle.isEmpty then pure suffix
    else
      match (← get).handles.lookup handle with
      | some expansion => pure (expansion ++ suffix)
      | none => failure
  if tag.isEmpty || tag == "!" then return none
  if tag.startsWith standard then
    return some ("!!" ++ String.ofList (tag.toList.drop standard.length))
  return some tag

/-- What may be written before a node: an anchor and a tag, in either order. -/
structure Properties where
  anchor : Option String
  tag : Option (String × String)

/-- Reads the properties of a node. -/
def properties : Reader Properties := do
  match ← peek with
  | .anchor a =>
    advance
    match ← peek with
    | .tag h s =>
      advance
      return ⟨some a, some (h, s)⟩
    | _ => return ⟨some a, none⟩
  | .tag h s =>
    advance
    match ← peek with
    | .anchor a =>
      advance
      return ⟨some a, some (h, s)⟩
    | _ => return ⟨none, some (h, s)⟩
  | _ => return ⟨none, none⟩

/-- Reads a node, or nothing before one of the given tokens. -/
def orEmpty (ends : List Token) (read : Reader Node) : Reader Node := do
  if ends.contains (← peek) then return .empty else read

mutual

/-- Reads a node.  Block collections may be forbidden, and a sequence without an
indentation of its own allowed.  The first argument bounds the depth. -/
def node : Nat → Bool → Bool → Reader Node
  | 0, _, _ => failure
  | bound + 1, block, indentless => do
    if let .reference name ← peek then
      advance
      match (← get).anchors.lookup name with
      | some target => return .reference name target
      | none => failure
    else
      let p ← properties
      let tag ← match p.tag with
        | some (h, s) => expandTag h s
        | none => pure none
      let content : Reader Node := do
        match ← peek with
        | .blockEntry =>
          if indentless then return .sequence (← indentlessItems bound) else failure
        | .scalar plain text =>
          advance
          return .scalar tag plain text
        | .flowSequenceStart =>
          advance
          return .sequence (← flowItems bound true)
        | .flowMappingStart =>
          advance
          return .mapping (← flowEntries bound true)
        | .blockSequenceStart =>
          if !block then failure
          advance
          return .sequence (← blockItems bound)
        | .blockMappingStart =>
          if !block then failure
          advance
          return .mapping (← blockEntries bound)
        | _ => failure
      let absent : Reader Bool := do
        match ← peek with
        | .blockEntry => return !indentless
        | .blockSequenceStart | .blockMappingStart => return !block
        | .scalar .. | .flowSequenceStart | .flowMappingStart => return false
        | _ => return true
      if let some a := p.anchor then bindAnchor a none
      let n ←
        if (p.anchor.isSome || p.tag.isSome) && (← absent) then
          pure (.scalar tag true "")
        else content
      if let some a := p.anchor then bindRead a n
      return n

/-- Reads the items of a block sequence. -/
def blockItems : Nat → Reader (List Node)
  | 0 => failure
  | bound + 1 => do
    match ← peek with
    | .blockEntry =>
      advance
      let item ← orEmpty [.blockEntry, .blockEnd] (node bound true false)
      return item :: (← blockItems bound)
    | .blockEnd =>
      advance
      return []
    | _ => failure

/-- Reads the items of a sequence at the indentation of its mapping. -/
def indentlessItems : Nat → Reader (List Node)
  | 0 => failure
  | bound + 1 => do
    match ← peek with
    | .blockEntry =>
      advance
      let item ← orEmpty [.blockEntry, .key, .value, .blockEnd] (node bound true false)
      return item :: (← indentlessItems bound)
    | _ => return []

/-- Reads the entries of a block mapping. -/
def blockEntries : Nat → Reader (List Entry)
  | 0 => failure
  | bound + 1 => do
    match ← peek with
    | .key =>
      advance
      let key ← orEmpty [.key, .value, .blockEnd] (node bound true true)
      let value ← match ← peek with
        | .value => do
          advance
          orEmpty [.key, .value, .blockEnd] (node bound true true)
        | _ => pure .empty
      return ⟨key, value⟩ :: (← blockEntries bound)
    | .blockEnd =>
      advance
      return []
    | _ => failure

/-- Reads the value of an entry inside brackets. -/
def flowValue : Nat → Token → Reader Node
  | 0, _ => failure
  | bound + 1, close => do
    match ← peek with
    | .value =>
      advance
      orEmpty [.flowEntry, close] (node bound false false)
    | _ => return .empty

/-- Reads the items of a sequence in brackets; an item may be a mapping of one entry. -/
def flowItems : Nat → Bool → Reader (List Node)
  | 0, _ => failure
  | bound + 1, first => do
    if (← peek) == .flowSequenceEnd then
      advance
      return []
    if !first then
      if (← peek) != .flowEntry then failure
      advance
    match ← peek with
    | .flowSequenceEnd =>
      advance
      return []
    | .key =>
      advance
      let key ←
        if [.value, .flowEntry, .flowSequenceEnd].contains (← peek) then do
          advance
          pure .empty
        else node bound false false
      let value ← flowValue bound .flowSequenceEnd
      return .mapping [⟨key, value⟩] :: (← flowItems bound false)
    | _ =>
      let item ← node bound false false
      return item :: (← flowItems bound false)

/-- Reads the entries of a mapping in braces. -/
def flowEntries : Nat → Bool → Reader (List Entry)
  | 0, _ => failure
  | bound + 1, first => do
    if (← peek) == .flowMappingEnd then
      advance
      return []
    if !first then
      if (← peek) != .flowEntry then failure
      advance
    match ← peek with
    | .flowMappingEnd =>
      advance
      return []
    | .key =>
      advance
      let key ← orEmpty [.value, .flowEntry, .flowMappingEnd] (node bound false false)
      let value ← flowValue bound .flowMappingEnd
      return ⟨key, value⟩ :: (← flowEntries bound false)
    | _ =>
      let key ← node bound false false
      return ⟨key, .empty⟩ :: (← flowEntries bound false)

end

/-- Reads the directives before a document.  The result says whether there were any. -/
def directives : Nat → Bool → Bool → Reader Bool
  | 0, _, _ => failure
  | bound + 1, versioned, any => do
    match ← peek with
    | .version major minor =>
      if versioned || (major, minor) != (1, 1) then failure
      advance
      directives bound true true
    | .tagHandle handle expansion =>
      if ((← get).handles.lookup handle).isSome then failure
      modify fun s => { s with handles := (handle, expansion) :: s.handles }
      advance
      directives bound versioned true
    | _ => return any

/-- Whether a token stands outside of the content of a document. -/
def outside : Token → Bool
  | .version .. | .tagHandle .. | .documentStart | .documentEnd | .streamEnd => true
  | _ => false

/-- Reads the first document, if there is one. -/
def document : Reader (Option Node) := do
  let bound := 4 * (← get).tokens.length + 4
  let declared ← directives bound false false
  modify fun s =>
    { s with handles := s.handles ++ [("!", "!"), ("!!", "tag:yaml.org,2002:")] }
  let t ← peek
  if !declared && t == .streamEnd then return none
  if declared || t == .documentStart then
    if t != .documentStart then failure
    advance
    if outside (← peek) then return some .empty else return some (← node bound true false)
  else return some (← node bound true false)

end Node

/-- Reads the first document of a text.  The outer option is whether it can be read, the
inner one whether there is a document.  Two tokens after a document are looked at. -/
def document? (text : String) : Option (Option Node) := do
  let (doc, s) ← Node.document.run ⟨tokens text, [], []⟩
  if (s.tokens.take 3).contains .broken then none else some doc

end YieldMachine.Yaml
