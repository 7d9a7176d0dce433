/-!
# What a name stands for after lowering

Locals and parameters of a generator live in fields of its holder, and lifted
declarations get new names.  `Renames` records where each name went.
-/

namespace YieldMachine

/-- What a name is replaced by: a field of the holder, or another plain name. -/
structure Target where
  name : String
  field : Bool
  deriving DecidableEq, Repr, Inhabited

/-- The names that were renamed, the latest entry of a name being the valid one. -/
abbrev Renames := List (String × Target)

namespace Renames

/-- The target of a name, if it was renamed. -/
def find? (r : Renames) (x : String) : Option Target := r.lookup x

/-- Lets `x` go to `t` from now on. -/
def insert (r : Renames) (x : String) (t : Target) : Renames := (x, t) :: r

/-- Makes `x` refer to itself again, where it was renamed before. -/
def shadow (r : Renames) (x : String) : Renames :=
  match r.find? x with
  | none => r
  | some _ => r.insert x ⟨x, false⟩

/-- Shadows every name of a list, in order. -/
def shadowAll (r : Renames) (xs : List String) : Renames := xs.foldl shadow r

@[simp]
theorem find?_insert_self (r : Renames) (x : String) (t : Target) :
    (r.insert x t).find? x = some t := by
  simp [find?, insert]

theorem find?_insert_of_ne (r : Renames) {x y : String} (t : Target) (h : y ≠ x) :
    (r.insert x t).find? y = r.find? y := by
  have : (y == x) = false := by simpa using h
  simp [find?, insert, List.lookup_cons, this]

end Renames

end YieldMachine
