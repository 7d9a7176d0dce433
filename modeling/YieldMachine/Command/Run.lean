import YieldMachine.Command.Flags
import YieldMachine.Command.Report
import YieldMachine.Generated.File

/-!
# Running the command

`runCommand` reads the command line and the settings, compiles the sources of a package,
and prints or writes the generated files.  Files are delivered even if some of their
generators could not be compiled; the exit status then says so.
-/

namespace YieldMachine

/-- What a run is given: the folder it starts in, the files, the environment, and the
package, unless it cannot be loaded. -/
structure Surroundings where
  folder : Path
  files : FileTree
  env : Environment
  package : Option Source.Package

/-- What a run leaves behind. -/
structure Outcome where
  exit : Nat
  printed : List (String × GeneratedFile)
  written : List (Path × GeneratedFile)
  reports : List Report

/-- A run that ends with a line of text. -/
def Outcome.stop (exit : Nat) (text : String) : Outcome := ⟨exit, [], [], [.plain text]⟩

/-- A source file and what was made of it. -/
structure Compiled where
  file : Source.File
  found : Source.Found
  lowered : List Lowered
  output : GeneratedFile

namespace Source

/-- Whether a file is a source for a tag. -/
def File.isSourceFor (f : File) (tag : String) : Bool :=
  isSource ((f.comments.takeWhile (·.pos.before f.pkgPos)).flatMap (·.lines)) tag

/-- Finds the generators of files.  The names of holders are unique among all of them. -/
def scanFiles (pkg : Package) : List String → List File → List (File × Found)
  | _, [] => []
  | holders, f :: fs =>
    let found := f.scan pkg holders
    (f, found) :: scanFiles pkg found.holders fs

/-- Compiles the sources of a package for a tag. -/
def Package.compile (pkg : Package) (tag : String) : List Compiled :=
  (scanFiles pkg [] (pkg.files.filter (·.isSourceFor tag))).map fun (f, found) =>
    let lowered := found.generators.map Generator.lower
    ⟨f, found, lowered, f.generate tag lowered⟩

end Source

/-- Says that a package is being loaded. -/
def loadingReport (dir : String) (tags : List String) : Report :=
  .record .debug "frontend" "loading packages" [("dir", .text dir), ("tags", .texts tags)]

/-- Says that there is nothing to compile. -/
def noSourcesReport (dir tag : String) : Report :=
  .record .warn "" "no generator source files found" [("dir", .text dir), ("tag", .text tag)]

/-- Says that a run failed. -/
def failureReport : Report := .record .error "" "generation failed" []

/-- Says why a generator was not compiled. -/
def problemReport (text : String) : Report :=
  .record .error "" "cannot rewrite generator" [("error", .text text)]

/-- Says that a file was written. -/
def writtenReport (path : String) (generators : Nat) : Report :=
  .record .info "" "generated" [("file", .text path), ("generators", .nat generators)]

/-- Details about a generator of a file. -/
def Lowered.details (file : String) (l : Lowered) : List Report :=
  let func := l.generator.func.name.name
  (l.generator.routine.elim [] fun r =>
      [Report.record .debug "frontend" "found generator"
        [("func", .text func), ("holder", .text r.name),
          ("pos", .text (file ++ ":" ++ l.generator.pos.text))]])
    ++ l.holder?.elim [] fun h =>
      [Report.record .debug "lower" "lowered generator"
        [("fields", .nat h.fields.length), ("holder", .text h.name),
          ("states", .nat h.states.length)],
        Report.record .debug "emit" "emitting generator"
        [("func", .text func), ("holder", .text h.name), ("states", .nat h.states.length)]]

/-- Details about the generators of a file. -/
def Compiled.details (r : Compiled) : List Report := r.lowered.flatMap (·.details r.file.name)

/-- Why generators of a file were not compiled. -/
def Compiled.problems (r : Compiled) : List String :=
  r.found.diagnostics.map (·.text) ++ lowerProblems r.file.name r.lowered

/-- The path at which a file can be written: all folders on the way exist, and the path
itself is no folder. -/
def FileTree.writable? (t : FileTree) (p : Path) : List String → Option Path
  | [] => none
  | [name] => if t.get? (p.step name) == some .folder then none else some (p.step name)
  | name :: names =>
    if t.get? (p.step name) == some .folder then t.writable? (p.step name) names else none

/-- What delivering files leaves behind, and whether all of them were delivered. -/
structure Delivery where
  printed : List (String × GeneratedFile)
  written : List (Path × GeneratedFile)
  reports : List Report
  complete : Bool

/-- Writes files, the first of which may fail to be written. -/
def writeFiles (s : Surroundings) (settings : Settings) : List Compiled → Delivery
  | [] => ⟨[], [], [], true⟩
  | r :: rs =>
    let problems := r.problems.map problemReport
    let name := settings.output r.file.name
    let parts := (splitChars '/' (name.toList.drop (s.folder.text.length + 1))).map String.ofList
    match s.files.writable? s.folder parts with
    | none => ⟨[], [], problems, false⟩
    | some path =>
      let rest := writeFiles s settings rs
      { rest with
        written := (path, r.output) :: rest.written
        reports := problems ++ writtenReport name r.found.generators.length :: rest.reports }

/-- Prints files. -/
def printFiles (settings : Settings) (rs : List Compiled) : Delivery where
  printed := rs.map fun r => (settings.output r.file.name, r.output)
  written := []
  reports := rs.flatMap fun r => r.problems.map problemReport
  complete := true

/-- The last report and the exit status of a run. -/
def conclude (rs : List Compiled) (complete : Bool) : Nat × List Report :=
  if !complete then (1, [failureReport])
  else if rs.any fun r => !r.found.diagnostics.isEmpty then
    (1, [.plain "some generators could not be rewritten"])
  else if rs.any fun r => !r.problems.isEmpty then (1, [failureReport])
  else (0, [])

/-- The files of a package, named by their full paths. -/
def Source.Package.located (pkg : Source.Package) (folder : Path) : Source.Package :=
  { pkg with files := pkg.files.map fun f => { f with name := folder.text ++ "/" ++ f.name } }

/-- Compiles the package with the given settings. -/
def generatePackage (s : Surroundings) (flags : Flags) (settings : Settings) : Outcome :=
  let loading := loadingReport flags.dir settings.tags
  match s.package with
  | none => ⟨1, [], [], [loading, failureReport]⟩
  | some pkg =>
    let rs := (pkg.located s.folder).compile settings.tag
    if rs.isEmpty then ⟨0, [], [], [loading, noSourcesReport flags.dir settings.tag]⟩
    else
      let d := if flags.dryRun then printFiles settings rs else writeFiles s settings rs
      let (exit, last) := conclude rs d.complete
      ⟨exit, d.printed, d.written, loading :: rs.flatMap Compiled.details ++ d.reports ++ last⟩

/-- What is said about a topic that help is asked for. -/
def showHelp : List String → Outcome
  | topic :: _ =>
    if topic == "help" || topic == "h" then ⟨0, [], [], []⟩
    else .stop 3 ("No help topic for '" ++ topic ++ "'")
  | [] => ⟨0, [], [], []⟩

/-- Runs the command with flags that were read. -/
def runFlags (s : Surroundings) (flags : Flags) : Outcome :=
  if flags.help then showHelp []
  else
    match flags.rest with
    | "help" :: topics => showHelp topics
    | "h" :: topics => showHelp topics
    | _ =>
      match flags.settings s.files s.folder s.env with
      | .error e => .stop 2 e.message
      | .ok settings =>
        let out := generatePackage s flags settings
        { out with reports := out.reports.filter fun r => settings.verbose || !r.isDetail }

/-- Runs the command with arguments. -/
def runCommand (s : Surroundings) (args : List String) : Outcome :=
  match Flags.parse args with
  | .error e => .stop 1 e.message
  | .ok flags => runFlags s flags

end YieldMachine
