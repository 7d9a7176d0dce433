import YieldMachine.Exchange.Json

/-!
# Reports

What a run says besides its results: records with a level, the part of the program they
come from, a message and fields; and plain lines.
-/

namespace YieldMachine

/-- How important a record is. -/
inductive Level where
  | debug | info | warn | error
  deriving DecidableEq, Repr

/-- The name of a level. -/
def Level.text : Level → String
  | .debug => "DEBUG"
  | .info => "INFO"
  | .warn => "WARN"
  | .error => "ERROR"

/-- Something that a run says. -/
inductive Report where
  /-- a record; `source` is empty for the command itself -/
  | record (level : Level) (source message : String) (fields : List (String × Doc))
  | plain (text : String)

namespace Report

/-- Whether a report is only for those who ask for details. -/
def isDetail : Report → Bool
  | .record level _ _ _ => level == .debug
  | .plain _ => false

/-- A report as a line of texts between separators. -/
def line (separator : String) : Report → String
  | .plain text => text
  | .record level source message fields =>
    separator.intercalate
      ([level.text] ++ (if source.isEmpty then [] else [source]) ++ [message]
        ++ (if fields.isEmpty then [] else [(Doc.record fields).json]))

end Report

end YieldMachine
