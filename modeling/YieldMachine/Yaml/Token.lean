/-!
# Tokens of YAML

A stream is cut into tokens.  Indentation is made explicit: block collections start
and end with tokens of their own, and every mapping entry has a key token.
-/

namespace YieldMachine.Yaml

/-- A token. -/
inductive Token where
  | streamEnd
  | version (major minor : Nat)
  | tagHandle (handle expansion : String)
  | documentStart
  | documentEnd
  | blockSequenceStart
  | blockMappingStart
  | blockEnd
  | flowSequenceStart
  | flowSequenceEnd
  | flowMappingStart
  | flowMappingEnd
  | blockEntry
  | flowEntry
  | key
  | value
  | reference (name : String)
  | anchor (name : String)
  | tag (handle suffix : String)
  | scalar (plain : Bool) (text : String)
  /-- The rest of the stream is malformed. -/
  | broken
  deriving DecidableEq, Repr

end YieldMachine.Yaml
