import YieldMachine.Command.Run
import YieldMachine.Exchange.Generated
import YieldMachine.Exchange.Source

/-!
# The command

The checked package comes from standard input as a document.  Settings files are read
from the folders at and above the package, and generated files leave as documents, on
standard output or in files of their own.
-/

namespace YieldMachine

/-- The variables that override settings, where they are set. -/
def readEnvironment : IO Environment := do
  let names := ["YIELDGEN_TAGS", "YIELDGEN_SUFFIX", "YIELDGEN_JOBS", "YIELDGEN_VERBOSE"]
  let values ← names.mapM fun name => (IO.getEnv name : IO (Option String))
  return (names.zip values).filterMap fun (name, value) => value.map fun v => (name, v)

/-- The file at a path, if it can be read. -/
def readEntry (p : Path) : IO (List (Path × FileEntry)) :=
  try
    return [(p, .file (← IO.FS.readFile p.text))]
  catch _ => return []

/-- The files that settings may come from: those in the folders of a path, and the one
that is asked for. -/
def readFiles (folder : Path) (flags : Flags) : IO FileTree := do
  let start := folder.resolve flags.dir
  let folders := (List.range start.length).map start.drop
  let named := flags.config.toList.map folder.resolve
  let candidates := named ++ folders.flatMap fun f => ["yieldgen.yaml", "yieldgen.yml"].map (· :: f)
  let entries ← candidates.mapM readEntry
  return ⟨entries.flatten ++ [(folder, .folder)]⟩

/-- Delivers what a run leaves behind. -/
def Outcome.deliver (out : Outcome) : IO Unit := do
  for (name, file) in out.printed do
    IO.println ("// " ++ name ++ "\n" ++ file.toDoc.json)
  for (path, file) in out.written do
    IO.FS.writeFile path.text file.toDoc.json
  for report in out.reports do
    IO.eprintln (report.line "\t")

/-- Runs the command on the package on standard input. -/
def runWith (args : List String) : IO UInt32 := do
  let folder := Path.resolve [""] (← IO.currentDir).toString
  let files ← readFiles folder ((Flags.parse args).toOption.getD .none)
  let input ← (← IO.getStdin).readToEnd
  let package := (Doc.ofJson? input).bind Source.Package.ofDoc?
  let out := runCommand ⟨folder, files, ← readEnvironment, package⟩ args
  out.deliver
  return out.exit.toUInt32

end YieldMachine

/-- Compiles the generators of a package. -/
def main (args : List String) : IO UInt32 := YieldMachine.runWith args
