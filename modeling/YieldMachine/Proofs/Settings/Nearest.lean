import Mathlib.Logic.Function.Iterate
import YieldMachine.Settings.Discovery

/-!
# The nearest settings file

A search for settings walks up from a folder.  It ends in a folder with a settings file, or at the
root, which it knows by being its own parent.  The walk always ends, and with the file of the
deepest of the folders that have one.
-/

namespace YieldMachine

/-- The folder that a path is in.  The path without components is the root, which is in itself. -/
def Path.parent (p : Path) : Path := p.tail

namespace Settings

variable {has : Path → Bool} {dir folder p : Path}

/-- Whether there is a settings file in a folder, under one of its two names. -/
def FileIn (has : Path → Bool) (folder : Path) : Prop :=
  has ("yieldgen.yaml" :: folder) = true ∨ has ("yieldgen.yml" :: folder) = true

theorem fileIn?_eq_none : fileIn? has folder = none ↔ ¬ FileIn has folder := by
  simp [fileIn?, FileIn]

/-- Of two settings files in a folder the first one counts. -/
theorem fileIn?_eq_some : fileIn? has folder = some p ↔ FileIn has folder ∧
    p = if has ("yieldgen.yaml" :: folder) then "yieldgen.yaml" :: folder
      else "yieldgen.yml" :: folder := by
  unfold fileIn? FileIn
  cases hyaml : has ("yieldgen.yaml" :: folder) with
  | true =>
      simp only [List.map_cons, List.find?_cons, hyaml, true_or, if_true, Option.some.injEq,
        true_and]
      exact eq_comm
  | false =>
      cases hyml : has ("yieldgen.yml" :: folder) with
      | true => simp [hyaml, hyml, eq_comm]
      | false => simp [hyaml, hyml]

/-- How far a search has come: it looks into a folder, or it has ended. -/
inductive Search where
  | looking (folder : Path)
  | ended (found : Option Path)

/-- One round of a search.  It ends at a folder that is its own parent. -/
def Search.round (has : Path → Bool) : Search → Search
  | .looking folder =>
    match fileIn? has folder with
    | some p => .ended (some p)
    | none => if folder.parent = folder then .ended none else .looking folder.parent
  | .ended found => .ended found

namespace Search

theorem iterate_round_ended (found : Option Path) (rounds : ℕ) :
    (round has)^[rounds] (.ended found) = .ended found :=
  Function.iterate_fixed rfl rounds

/-- A search needs at most one round for each folder on the way to the root. -/
theorem iterate_round_looking (dir : Path) :
    (round has)^[dir.length + 1] (.looking dir) = .ended (find? has dir) := by
  induction dir with
  | nil => cases h : fileIn? has [] <;> simp [round, find?, h, Path.parent]
  | cons name up ih =>
      rw [List.length_cons, Function.iterate_succ_apply]
      cases h : fileIn? has (name :: up) with
      | some p =>
          have hround : round has (.looking (name :: up)) = .ended (some p) := by simp [round, h]
          rw [hround, iterate_round_ended, find?, h, Option.some_or]
      | none =>
          have hround : round has (.looking (name :: up)) = .looking up := by
            simp [round, h, Path.parent]
          rw [hround, ih, find?, h, Option.none_or]

end Search

/-- There is nothing to be found where no folder up to the root has a settings file. -/
theorem find?_eq_none : find? has dir = none ↔ ∀ folder, folder <:+ dir → ¬ FileIn has folder := by
  induction dir with
  | nil => simp [find?, fileIn?_eq_none]
  | cons name up ih =>
      simp only [find?, Option.or_eq_none_iff, fileIn?_eq_none, ih, List.suffix_cons_iff]
      constructor
      · rintro ⟨hhere, habove⟩ folder (rfl | hfolder)
        · exact hhere
        · exact habove folder hfolder
      · intro h
        exact ⟨h _ (.inl rfl), fun folder hfolder => h folder (.inr hfolder)⟩

/-- Whether a folder is the deepest one with a settings file, of those from `dir` up to the
root. -/
structure Nearest (has : Path → Bool) (dir folder : Path) : Prop where
  above : folder <:+ dir
  fileIn : FileIn has folder
  deepest : ∀ other, other <:+ dir → FileIn has other → other <:+ folder

theorem Nearest.unique {other : Path} (h : Nearest has dir folder)
    (h' : Nearest has dir other) : folder = other :=
  (h'.deepest folder h.above h.fileIn).eq_of_length_le
    (h.deepest other h'.above h'.fileIn).length_le

/-- What is found is the settings file of the nearest folder that has one. -/
theorem find?_eq_some : find? has dir = some p ↔
    ∃ folder, Nearest has dir folder ∧ fileIn? has folder = some p := by
  induction dir with
  | nil =>
      constructor
      · intro h
        refine ⟨[], ⟨List.suffix_rfl, (fileIn?_eq_some.mp h).1, ?_⟩, h⟩
        exact fun other hother _ => hother
      · rintro ⟨folder, ⟨habove, -, -⟩, hfolder⟩
        rwa [List.suffix_nil.mp habove] at hfolder
  | cons name up ih =>
      rw [find?]
      cases hhere : fileIn? has (name :: up) with
      | some q =>
          obtain ⟨hfile, -⟩ := fileIn?_eq_some.mp hhere
          have hnearest : Nearest has (name :: up) (name :: up) :=
            ⟨List.suffix_rfl, hfile, fun other hother _ => hother⟩
          rw [Option.some_or]
          constructor
          · intro h
            exact ⟨_, hnearest, hhere.trans h⟩
          · rintro ⟨folder, hfolder, h⟩
            rw [hfolder.unique hnearest] at h
            exact hhere.symm.trans h
      | none =>
          have hnone := fileIn?_eq_none.mp hhere
          rw [Option.none_or, ih]
          refine exists_congr fun folder => and_congr_left fun _ => ?_
          constructor
          · rintro ⟨habove, hfile, hdeepest⟩
            refine ⟨habove.trans (List.suffix_cons name up), hfile, fun other hother hin => ?_⟩
            obtain rfl | hother := List.suffix_cons_iff.mp hother
            · exact absurd hin hnone
            · exact hdeepest other hother hin
          · rintro ⟨habove, hfile, hdeepest⟩
            obtain rfl | habove := List.suffix_cons_iff.mp habove
            · exact absurd hfile hnone
            · exact ⟨habove, hfile, fun other hother =>
                hdeepest other (hother.trans (List.suffix_cons name up))⟩

/-- The walk up from a folder ends, with the settings file of the deepest folder from there up to
the root that has one, the first of its two names being preferred.  It ends with nothing exactly
when none of these folders has a settings file. -/
theorem find?_nearest (has : Path → Bool) (dir : Path) :
    (Search.round has)^[dir.length + 1] (.looking dir) = .ended (find? has dir) ∧
      (∀ p, find? has dir = some p ↔ ∃ folder, Nearest has dir folder ∧
        p = if has ("yieldgen.yaml" :: folder) then "yieldgen.yaml" :: folder
          else "yieldgen.yml" :: folder) ∧
      (find? has dir = none ↔ ∀ folder, folder <:+ dir → ¬ FileIn has folder) := by
  refine ⟨Search.iterate_round_looking dir, fun p => ?_, find?_eq_none⟩
  rw [find?_eq_some]
  refine exists_congr fun folder => and_congr_right fun hnearest => ?_
  rw [fileIn?_eq_some, and_iff_right hnearest.fileIn]

/-- The file of the folder above counts before the preferred name at the root. -/
example : find? (fun p => p == ["yieldgen.yml", "a"] || p == ["yieldgen.yaml"]) ["b", "a"] =
    some ["yieldgen.yml", "a"] := by decide

end Settings

end YieldMachine
