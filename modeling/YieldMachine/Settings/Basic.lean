import YieldMachine.Text.Quoted
import YieldMachine.Text.Space

/-!
# Settings

The settings of a run: build tags, the suffix of generated files, how many files are
compiled at once, and whether to log details.  `Settings.check` says what is wrong
with settings; `Settings.withDefaults` fills in what was left empty.
-/

namespace YieldMachine

/-- The settings of a run. -/
structure Settings where
  /-- Build tags; the first one marks sources. -/
  tags : List String
  /-- What is appended to the base name of a source to name its generated file. -/
  suffix : String
  /-- How many files are compiled at once, 0 for one per processor. -/
  jobs : Int
  verbose : Bool
  deriving DecidableEq, Repr

/-- What can be wrong with settings. -/
inductive Defect where
  | tag (i : Nat) (tag : String)
  | negativeJobs
  | separator (suffix : String)
  | testFiles (suffix : String)
  deriving DecidableEq, Repr

/-- The text of a defect. -/
def Defect.text : Defect → String
  | .tag i t => "tags[" ++ toString i ++ "]: invalid build tag " ++ quote t
  | .negativeJobs => "jobs must not be negative"
  | .separator s => "suffix " ++ quote s ++ " must not contain a path separator"
  | .testFiles s => "suffix " ++ quote s ++ " would produce test files"

/-- Why there are no settings. -/
inductive SettingsError where
  /-- A file cannot be read. -/
  | unreadable (path reason : String)
  /-- A file does not hold settings. -/
  | malformed (path : String)
  /-- Settings from the named source have a defect. -/
  | invalid (source : String) (defect : Defect)
  /-- The command line asks for no tags. -/
  | noTags
  deriving DecidableEq, Repr

/-- The text of an error. -/
def SettingsError.message : SettingsError → String
  | .unreadable path reason => "reading config " ++ path ++ ": " ++ reason
  | .malformed path => "parsing " ++ path
  | .invalid source defect => source ++ ": " ++ defect.text
  | .noTags => "--tags: no build tags given"

/-- Whether a tag can be used in a build constraint and in a list of tags. -/
def isTag (tag : String) : Bool :=
  !tag.isEmpty && tag.toList.all fun c => !(c == ' ' || c == ',' || c == '!')

/-- Whether a text ends in another one. -/
def endsIn (s suffix : String) : Bool := suffix.toList.isSuffixOf s.toList

namespace Settings

/-- The tag that marks sources unless another one is set. -/
def defaultTag : String := "yieldgen"

/-- The suffix of generated files unless another one is set. -/
def defaultSuffix : String := "_yieldgen"

/-- The first tag that cannot be used, with its number counted from `i`. -/
def badTag? : Nat → List String → Option Defect
  | _, [] => none
  | i, t :: ts => if isTag t then badTag? (i + 1) ts else some (.tag i t)

/-- What is wrong with settings, if anything. -/
def defect? (s : Settings) : Option Defect :=
  match badTag? 0 s.tags with
  | some d => some d
  | none =>
    if s.jobs < 0 then some .negativeJobs
    else if s.suffix.toList.contains '/' then some (.separator s.suffix)
    else if endsIn s.suffix "_test" then some (.testFiles s.suffix)
    else none

/-- Settings without a tag or a suffix get the default one. -/
def withDefaults (s : Settings) : Settings :=
  { s with
    tags := if s.tags.isEmpty then [defaultTag] else s.tags
    suffix := if s.suffix.isEmpty then defaultSuffix else s.suffix }

/-- Settings that say nothing. -/
def unset : Settings := ⟨[], "", 0, false⟩

/-- The settings when nothing is set. -/
def default : Settings := unset.withDefaults

/-- Settings from the named source, checked and completed. -/
def check (s : Settings) (source : String) : Except SettingsError Settings :=
  match s.defect? with
  | some d => .error (.invalid source d)
  | none => .ok s.withDefaults

/-- The tag that marks sources. -/
def tag (s : Settings) : String := s.tags.headD ""

/-- The name of the file generated from a source. -/
def output (s : Settings) (path : String) : String :=
  let base := if endsIn path ".go" then path.toList.take (path.toList.length - 3) else path.toList
  String.ofList base ++ s.suffix ++ ".go"

end Settings

/-- The tags of a list separated by commas.  Blanks around tags do not count. -/
def splitTags (s : String) : List String :=
  (((splitChars ',' s.toList).map trimSpaces).filter (!·.isEmpty)).map String.ofList

end YieldMachine
