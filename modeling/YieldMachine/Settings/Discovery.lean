import YieldMachine.Settings.Readers

/-!
# Finding settings

The settings file of a folder is the nearest one at or above it.  A path is the list of
its components, the innermost first, so that its folder is its tail.
-/

namespace YieldMachine

/-- A path, innermost component first. -/
abbrev Path := List String

namespace Path

/-- The text of a path. -/
def text (p : Path) : String := "/".intercalate p.reverse

/-- One step along a path: a name, the folder above, or nowhere.  Above the unnamed
root there is nothing. -/
def step (p : Path) (part : String) : Path :=
  if part == "" || part == "." then p
  else if part == ".." then (if p.head? == some "" then p else p.tail)
  else part :: p

/-- The path that a text names, seen from a folder.  A text that starts with the root of
the folder does not depend on the rest of it. -/
def resolve (folder : Path) (text : String) : Path :=
  let parts := (splitChars '/' text.toList).map String.ofList
  match parts with
  | first :: rest =>
    if !text.isEmpty && folder.getLast? == some first then rest.foldl step [first]
    else parts.foldl step folder
  | [] => folder

end Path

/-- What a path can hold. -/
inductive FileEntry where
  | folder
  | file (text : String)
  deriving DecidableEq, Repr

/-- Files and folders.  The folders above an entry are part of the tree. -/
structure FileTree where
  entries : List (Path × FileEntry)

namespace FileTree

/-- What is at a path. -/
def get? (t : FileTree) (p : Path) : Option FileEntry :=
  match t.entries.lookup p with
  | some e => some e
  | none => if t.entries.any fun (q, _) => p.isSuffixOf q then some .folder else none

/-- Whether there is anything at a path. -/
def has (t : FileTree) (p : Path) : Bool := (t.get? p).isSome

/-- Whether one of the folders of a path is a file. -/
def passesFile (t : FileTree) : Path → Bool
  | [] => false
  | _ :: folder =>
    (match t.get? folder with
      | some (.file _) => true
      | _ => false) || passesFile t folder

/-- Reads a file; `name` is its name in messages. -/
def read (t : FileTree) (name : String) (p : Path) : Except SettingsError String :=
  match t.get? p with
  | some (.file text) => .ok text
  | some .folder => .error (.unreadable name ("read " ++ name ++ ": is a directory"))
  | none =>
    let reason := if t.passesFile p then "not a directory" else "no such file or directory"
    .error (.unreadable name ("open " ++ name ++ ": " ++ reason))

end FileTree

namespace Settings

/-- The settings file in a folder; of two names the first counts. -/
def fileIn? (has : Path → Bool) (folder : Path) : Option Path :=
  (["yieldgen.yaml", "yieldgen.yml"].map (· :: folder)).find? has

/-- The nearest settings file at or above a folder. -/
def find? (has : Path → Bool) : Path → Option Path
  | [] => fileIn? has []
  | d :: up => (fileIn? has (d :: up)).or (find? has up)

/-- Reads the settings file at a path. -/
def load (t : FileTree) (name : String) (p : Path) (R : Readers := .standard) :
    Except SettingsError Settings := do
  parse (← t.read name p) name R

/-- The settings for a folder: those of the nearest file, or the default ones,
overridden by the environment. -/
def discover (t : FileTree) (folder : Path) (env : Environment) (R : Readers := .standard) :
    Except SettingsError Settings := do
  let s ← match find? t.has folder with
    | some p => load t p.text p R
    | none => pure default
  s.applyEnv env R

end Settings

end YieldMachine
