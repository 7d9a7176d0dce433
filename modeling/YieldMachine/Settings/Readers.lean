import YieldMachine.Settings.Environment
import YieldMachine.Settings.File

/-!
# Reading settings

Settings come from a file and from environment variables, of which each setting has one that
overrides it.  How a file and the values of variables are read is a parameter; in either case the
settings are checked and completed.
-/

namespace YieldMachine

/-- How settings are read. -/
structure Readers where
  /-- the settings that a file holds; none if it is malformed -/
  file? : String → Option Settings
  /-- the value of a variable that is set -/
  value? : Environment → String → Option String
  /-- the number that a value stands for, or else the given one -/
  number : String → Int → Int
  /-- whether a value is a true one -/
  truth : String → Bool

/-- The readers of the command. -/
def Readers.standard : Readers where
  file? := Settings.ofText?
  value? := Environment.value?
  number value n :=
    match readDecimal value with
    | .ok n => n
    | .error _ => n
  truth := isAffirmative

namespace Settings

/-- Reads a settings file; `path` is where it is, for messages. -/
def parse (text path : String) (R : Readers := .standard) : Except SettingsError Settings :=
  match R.file? text with
  | none => .error (.malformed path)
  | some s => s.check path

/-- Settings overridden by the variables that are set. -/
def override (s : Settings) (env : Environment) (R : Readers := .standard) : Settings where
  tags := (R.value? env "YIELDGEN_TAGS").elim s.tags splitTags
  suffix := (R.value? env "YIELDGEN_SUFFIX").getD s.suffix
  jobs := (R.value? env "YIELDGEN_JOBS").elim s.jobs (R.number · s.jobs)
  verbose := (R.value? env "YIELDGEN_VERBOSE").elim s.verbose R.truth

/-- Settings overridden by an environment, checked and completed. -/
def applyEnv (s : Settings) (env : Environment) (R : Readers := .standard) :
    Except SettingsError Settings :=
  (s.override env R).check "environment"

end Settings

end YieldMachine
