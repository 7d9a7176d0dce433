import YieldMachine.Proofs.Meaning.WellFormed
import YieldMachine.Tree.Rename

/-!
# Names that are declared again

A declaration hides the targets that its names had, and renaming a statement hands on the
bindings without the names that it declares.
-/

namespace YieldMachine

namespace Renames

theorem find?_shadow (r : Renames) (x y : String) :
    (r.shadow x).find? y =
      if y = x then (r.find? y).map fun _ => ⟨x, false⟩ else r.find? y := by
  unfold shadow
  cases hx : r.find? x with
  | none =>
      by_cases hyx : y = x
      · simp [hyx, hx]
      · simp [hyx]
  | some t =>
      by_cases hyx : y = x
      · simp [hyx, hx]
      · simp [hyx, find?_insert_of_ne]

theorem find?_shadowAll (r : Renames) (xs : List String) (y : String) :
    (r.shadowAll xs).find? y =
      if y ∈ xs then (r.find? y).map fun _ => ⟨y, false⟩ else r.find? y := by
  induction xs generalizing r with
  | nil => rfl
  | cons x xs ih =>
      have hstep : (shadowAll r (x :: xs)).find? y = ((r.shadow x).shadowAll xs).find? y := rfl
      rw [hstep, ih, find?_shadow]
      by_cases hyx : y = x
      · subst hyx
        by_cases hmem : y ∈ xs <;> simp [hmem, Function.comp_def]
      · by_cases hmem : y ∈ xs <;> simp [hmem, hyx]

/-- Where names were declared, a declared name stands for itself and another one for what it stood
for before. -/
theorem cases_of_find?_shadowAll {r : Renames} {xs : List String} {y : String} {t : Target}
    (h : (r.shadowAll xs).find? y = some t) :
    y ∈ xs ∧ t = ⟨y, false⟩ ∨ y ∉ xs ∧ r.find? y = some t := by
  rw [find?_shadowAll] at h
  split at h
  · obtain ⟨-, -, rfl⟩ := Option.map_eq_some_iff.mp h
    exact .inl ⟨‹_›, rfl⟩
  · exact .inr ⟨‹_›, h⟩

theorem shadowAll_append (r : Renames) (xs ys : List String) :
    r.shadowAll (xs ++ ys) = (r.shadowAll xs).shadowAll ys := List.foldl_append

end Renames

theorem renameExprs_eq_map {recv : String} (r : Renames) (es : List Expr) :
    renameExprs recv r es = es.map fun e => e.rename recv r := by
  induction es with
  | nil => rfl
  | cons e es ih => rw [renameExprs, ih, List.map_cons]

theorem Spec.rename_snd (recv : String) (r : Renames) (spec : Spec) :
    (spec.rename recv r).2 = r.shadowAll spec.names := by
  cases spec <;> rfl

theorem renameSpecs_snd (recv : String) (r : Renames) (specs : List Spec) :
    (renameSpecs recv r specs).2 = r.shadowAll (specs.flatMap Spec.names) := by
  induction specs generalizing r with
  | nil => rfl
  | cons spec specs ih =>
      rw [List.flatMap_cons, Renames.shadowAll_append, ← spec.rename_snd recv]
      exact ih _

/-- Renaming hands on the bindings without what the statement declares. -/
theorem Stmt.rename_snd (recv : String) (r : Renames) (stmt : Stmt) :
    (stmt.rename recv r).2 = r.shadowAll stmt.binds := by
  match stmt with
  | .assign .define lhs rhs => rfl
  | .assign .set lhs rhs => rfl
  | .assign (.update op) lhs rhs => rfl
  | .decl kind specs => exact renameSpecs_snd recv r specs
  | .labeled label stmt => exact stmt.rename_snd recv r
  | .typeSwitch init guard clauses => cases guard <;> rfl
  | .range key value kind x body => cases kind <;> rfl
  | .missing | .empty | .expr _ | .send _ _ | .incDec _ _ | .go _ | .defer _ | .ret _
  | .branch _ _ | .block _ | .ite _ _ _ _ | .switch _ _ _ | .select _ | .loop _ _ _ _ => rfl

end YieldMachine
