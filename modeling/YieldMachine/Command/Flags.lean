import YieldMachine.Settings.Discovery
import YieldMachine.Text.Integer

/-!
# The command line

A flag is a name after one or two dashes, with its value after an equals sign or as the
next argument.  The first argument that is no flag ends the flags.
-/

namespace YieldMachine

/-- What the command line asks for. -/
structure Flags where
  /-- the folder of the package -/
  dir : String
  tags : Option String
  suffix : Option String
  /-- a settings file, instead of the one that would be found -/
  config : Option String
  jobs : Option Int
  /-- whether to print generated files instead of writing them -/
  dryRun : Bool
  verbose : Bool
  help : Bool
  /-- the arguments after the flags -/
  rest : List String
  deriving DecidableEq, Repr

/-- Why a command line cannot be read. -/
inductive FlagError where
  | syntaxOf (arg : String)
  | undefined (name : String)
  | noValue (name : String)
  | badSwitch (name value : String)
  | badNumber (name value : String) (reason : DecimalError)
  deriving DecidableEq, Repr

/-- Why a number is not accepted. -/
def numberReason : DecimalError → String
  | .malformed => "parse error"
  | .outOfRange => "value out of range"

/-- The text of an error. -/
def FlagError.message : FlagError → String
  | .syntaxOf arg => "bad flag syntax: " ++ arg
  | .undefined name => "flag provided but not defined: -" ++ name
  | .noValue name => "flag needs an argument: -" ++ name
  | .badSwitch name value =>
    "invalid boolean value " ++ quote value ++ " for -" ++ name ++ ": parse error"
  | .badNumber name value reason =>
    "invalid value " ++ quote value ++ " for flag -" ++ name ++ ": " ++ numberReason reason

/-- How an argument reads: a flag, the end of the flags, or neither. -/
inductive Argument where
  | flag (name : String) (value : Option String)
  | terminator
  | plain
  | malformed
  deriving DecidableEq, Repr

/-- Cuts a flag into its name and the value after an equals sign. -/
def splitFlag (cs : List Char) : Argument :=
  match cs with
  | [] => .malformed
  | c :: rest =>
    if c == '-' || c == '=' then .malformed
    else
      let name := String.ofList (c :: rest.takeWhile (· != '='))
      match rest.dropWhile (· != '=') with
      | _ :: value => .flag name (some (String.ofList value))
      | [] => .flag name none

/-- Reads an argument. -/
def Argument.ofText (s : String) : Argument :=
  match s.toList with
  | ['-', '-'] => .terminator
  | '-' :: '-' :: cs => splitFlag cs
  | '-' :: c :: cs => splitFlag (c :: cs)
  | _ => .plain

/-- Reads a truth value. -/
def readSwitch? (s : String) : Option Bool :=
  if ["1", "t", "T", "TRUE", "true", "True"].contains s then some true
  else if ["0", "f", "F", "FALSE", "false", "False"].contains s then some false
  else none

namespace Flags

/-- The flags of an empty command line. -/
def none : Flags := ⟨".", .none, .none, .none, .none, false, false, false, []⟩

/-- Whether a flag is on or off, without a value. -/
def isSwitch (name : String) : Bool := ["dry-run", "verbose", "help", "h"].contains name

/-- Whether a flag has a value. -/
def hasValue (name : String) : Bool :=
  ["dir", "tags", "suffix", "config", "jobs"].contains name

/-- Sets a switch. -/
def setSwitch (f : Flags) (name value : String) : Except FlagError Flags :=
  match readSwitch? value with
  | .none => .error (.badSwitch name value)
  | some b =>
    .ok (if name == "dry-run" then { f with dryRun := b }
      else if name == "verbose" then { f with verbose := b }
      else { f with help := b })

/-- Sets a flag that has a value. -/
def setValue (f : Flags) (name value : String) : Except FlagError Flags :=
  if name == "dir" then .ok { f with dir := value }
  else if name == "tags" then .ok { f with tags := some value }
  else if name == "suffix" then .ok { f with suffix := some value }
  else if name == "config" then .ok { f with config := some value }
  else
    match readInteger value with
    | .ok n => .ok { f with jobs := some n }
    | .error e => .error (.badNumber name value e)

/-- Reads arguments on top of flags that were read before. -/
def parseFrom (f : Flags) : List String → Except FlagError Flags
  | [] => .ok f
  | arg :: args =>
    match Argument.ofText arg with
    | .plain => .ok { f with rest := arg :: args }
    | .terminator => .ok { f with rest := args }
    | .malformed => .error (.syntaxOf arg)
    | .flag name value =>
      if isSwitch name then
        match f.setSwitch name (value.getD "true") with
        | .ok f => f.parseFrom args
        | .error e => .error e
      else if hasValue name then
        match value, args with
        | some value, args =>
          match f.setValue name value with
          | .ok f => f.parseFrom args
          | .error e => .error e
        | .none, value :: args =>
          match f.setValue name value with
          | .ok f => f.parseFrom args
          | .error e => .error e
        | .none, [] => .error (.noValue name)
      else .error (.undefined name)

/-- Reads a command line. -/
def parse (args : List String) : Except FlagError Flags := none.parseFrom args

/-- Settings overridden by flags.  Unlike other settings, those from flags are taken as
they are. -/
def override (f : Flags) (s : Settings) : Except SettingsError Settings :=
  let tags := f.tags.elim s.tags splitTags
  if tags.isEmpty && f.tags.isSome then .error .noTags
  else
    .ok {
      tags
      suffix := f.suffix.getD s.suffix
      jobs := f.jobs.getD s.jobs
      verbose := s.verbose || f.verbose }

/-- The settings of a run: those of the given file or of the nearest one, overridden by
the environment and then by flags. -/
def settings (f : Flags) (t : FileTree) (folder : Path) (env : Environment)
    (R : Readers := .standard) : Except SettingsError Settings :=
  let path := f.config.getD ""
  let found :=
    if path.isEmpty then Settings.discover t (folder.resolve f.dir) env R
    else (Settings.load t path (folder.resolve path) R).bind (·.applyEnv env R)
  found.bind f.override

end Flags

end YieldMachine
