import Mathlib.Logic.Relation
import YieldMachine.Proofs.Scope.Substitution

/-!
# Keys of literals

The keys of a literal of a struct are kept names.  Replacing variables by names and selectors
leaves every literal where it is and its kept keys as they are, and changes nothing else in it than
the names and selectors that stand for variables.
-/

namespace YieldMachine

/-- The kept name before the colon of an element of a literal. -/
def Expr.keptKey? : Expr → Option String
  | .pair (.ident x true) _ => some x
  | _ => none

/-- The kept names before the colons of the elements of a literal, in order. -/
def Node.keptKeys? : Node → Option (List (Option String))
  | .expr (.composite _ elements) => some (elements.map Expr.keptKey?)
  | _ => none

/-- What names are replaced by: names and selectors of names. -/
def Expr.IsTarget (e : Expr) : Prop := (∃ x, e = .name x) ∨ ∃ x y, e = .sel (.name x) y

/-- Whether the second node is the first one with variables replaced by names and selectors. -/
def Node.Replaces (n n' : Node) : Prop :=
  ∃ target hidden, (∀ x e, target x = some e → e.IsTarget) ∧ Substituted target hidden n n'

/-- Whether nodes are the same up to the names and selectors that stand for their variables. -/
def Node.Alike : Node → Node → Prop := Relation.EqvGen Node.Replaces

/-- A literal with its kept keys.  Its tree is given up to the names that its variables have. -/
structure Literal where
  keys : List (Option String)
  tree : Expr

/-- Whether a literal like this one, and with its kept keys, stands anywhere in a node. -/
inductive Node.Holds (l : Literal) : Node → Prop where
  | here {n : Node} (hkeys : n.keptKeys? = some l.keys) (halike : n.Alike (.expr l.tree)) :
      Holds l n
  | part {n : Node} {p : List String × Node} (hmem : p ∈ n.parts) (hholds : Holds l p.2) :
      Holds l n

/-- Whether a literal like this one stands anywhere in an expression. -/
def Expr.Holds (l : Literal) (e : Expr) : Prop := Node.Holds l (.expr e)

section Holding

variable {l : Literal}

theorem Node.exists_literal {n : Node} (h : n.keptKeys? ≠ none) :
    ∃ ty elements, n = .expr (.composite ty elements) := by
  cases n with
  | expr e =>
      cases e with
      | composite ty elements => exact ⟨ty, elements, rfl⟩
      | _ => exact absurd rfl h
  | _ => exact absurd rfl h

/-- A node that is no literal holds what its parts hold. -/
theorem Node.holds_iff {n : Node} (h : n.keptKeys? = none) :
    n.Holds l ↔ ∃ p ∈ n.parts, p.2.Holds l := by
  constructor
  · rintro (⟨hkeys, -⟩ | ⟨hmem, hholds⟩)
    · rw [h] at hkeys
      cases hkeys
    · exact ⟨_, hmem, hholds⟩
  · rintro ⟨p, hmem, hholds⟩
    exact .part hmem hholds

/-- An expression that is no literal holds what its parts hold. -/
theorem Expr.holds_iff {e : Expr} (es : List Expr) (h : Node.keptKeys? (.expr e) = none)
    (hparts : e.parts = exprParts [] es) : e.Holds l ↔ ∃ x ∈ es, x.Holds l := by
  rw [Expr.Holds, Node.holds_iff h]
  simp [Node.parts, hparts, exprParts, Expr.Holds]

theorem Expr.holds_composite {ty : Expr} {elements : List Expr} :
    (Expr.composite ty elements).Holds l ↔
      (elements.map Expr.keptKey? = l.keys ∧
          Node.Alike (.expr (.composite ty elements)) (.expr l.tree)) ∨
        ty.Holds l ∨ ∃ x ∈ elements, x.Holds l := by
  constructor
  · rintro (⟨hkeys, halike⟩ | ⟨hmem, hholds⟩)
    · exact .inl ⟨Option.some.inj hkeys, halike⟩
    · right
      simp only [Node.parts, Expr.parts, exprParts, List.map_cons, List.mem_cons,
        List.mem_map] at hmem
      obtain rfl | ⟨x, hx, rfl⟩ := hmem
      · exact .inl hholds
      · exact .inr ⟨x, hx, hholds⟩
  · rintro (⟨hkeys, halike⟩ | hty | ⟨x, hx, hholds⟩)
    · exact .here (congrArg some hkeys) halike
    · exact .part (p := ([], .expr ty)) (List.mem_cons_self ..) hty
    · refine .part (p := ([], .expr x)) ?_ hholds
      exact List.mem_cons_of_mem _ (List.mem_map_of_mem hx)

theorem Expr.not_holds_name (x : String) : ¬ (Expr.name x).Holds l := by
  rw [Expr.name, Expr.holds_iff [] rfl rfl]
  simp

theorem Expr.not_holds_missing : ¬ Expr.missing.Holds l := by
  rw [Expr.holds_iff [] rfl rfl]
  simp

theorem Expr.Holds.ne_missing {e : Expr} (h : e.Holds l) : e ≠ .missing := by
  rintro rfl
  exact not_holds_missing h

theorem Expr.IsTarget.not_holds {e : Expr} (h : e.IsTarget) : ¬ e.Holds l := by
  rcases h with ⟨x, rfl⟩ | ⟨x, y, rfl⟩
  · exact not_holds_name x
  · rw [Expr.holds_iff [.name x] rfl rfl]
    simp [not_holds_name]

end Holding

section Substitution

variable {l : Literal} {target : String → Option Expr} {hidden : List String}
  {n n' : Node}

theorem Expr.keptKey?_eq_some {e : Expr} {x : String} :
    e.keptKey? = some x ↔ ∃ value, e = .pair (.ident x true) value := by
  unfold keptKey?
  split
  · simp
  · rename_i hne
    constructor
    · exact nofun
    · rintro ⟨value, rfl⟩
      exact (hne x value rfl).elim

/-- A kept name is left as it is, and nothing else becomes one. -/
theorem Substituted.kept_iff {e e' : Expr} {x : String}
    (htarget : ∀ y t, target y = some t → t.IsTarget)
    (h : Substituted target hidden (.expr e) (.expr e')) :
    e' = .ident x true ↔ e = .ident x true := by
  cases h with
  | replaced hfree h =>
      rcases htarget _ _ h with ⟨y, rfl⟩ | ⟨y, z, rfl⟩
      · simp [Expr.name]
      · exact ⟨nofun, nofun⟩
  | bound => simp
  | inside hnode hhead =>
      have hident : ∀ e e' : Expr, e.head = e'.head → e = .ident x true → e' = .ident x true := by
        rintro _ e' hhead rfl
        cases e' <;> cases hhead
        rfl
      exact ⟨hident e' e (Node.expr.inj hhead), hident e e' (Node.expr.inj hhead).symm⟩

theorem Substituted.keptKey?_eq {e e' : Expr} (htarget : ∀ y t, target y = some t → t.IsTarget)
    (h : Substituted target hidden (.expr e) (.expr e')) : e'.keptKey? = e.keptKey? := by
  cases h with
  | replaced hfree h =>
      rcases htarget _ _ h with ⟨y, rfl⟩ | ⟨y, z, rfl⟩ <;> rfl
  | bound => rfl
  | inside hnode hhead hlength hparts =>
      cases e with
      | pair key value =>
          cases e' <;> cases hhead
          rename_i key' value'
          have hkey := hparts (([], .expr key), [], .expr key') (List.mem_cons_self ..)
          ext x
          simp [Expr.keptKey?_eq_some, hkey.kept_iff htarget]
      | _ => cases e' <;> first | rfl | cases hhead

theorem Substituted.keptKeys?_eq (htarget : ∀ y t, target y = some t → t.IsTarget)
    (h : Substituted target hidden n n') : n'.keptKeys? = n.keptKeys? := by
  have hliteral : ∀ {n n' : Node}, n.head = n'.head → n.keptKeys? = none → n'.keptKeys? = none := by
    intro n n' hhead hnone
    cases n' with
    | expr e' =>
        cases e' with
        | composite ty elements =>
            cases n with
            | expr e => cases e <;> first | cases hhead | cases hnone
            | _ => cases hhead
        | _ => rfl
    | _ => rfl
  cases h with
  | replaced hfree h =>
      rcases htarget _ _ h with ⟨y, rfl⟩ | ⟨y, z, rfl⟩ <;> rfl
  | bound => rfl
  | inside hnode hhead hlength hparts =>
      by_cases hn : n.keptKeys? = none
      · rw [hn, hliteral hhead.symm hn]
      · obtain ⟨ty, elements, rfl⟩ := Node.exists_literal hn
        obtain ⟨ty', elements', rfl⟩ := Node.exists_literal (mt (hliteral hhead) hn)
        simp only [Node.parts, Expr.parts, exprParts, List.length_map, List.length_cons,
          Nat.add_right_cancel_iff] at hlength
        refine congrArg some (List.ext_getElem (by simpa using hlength) fun i hi hi' => ?_)
        rw [List.getElem_map, List.getElem_map]
        rw [List.length_map] at hi hi'
        have helement := hparts _ (getElem_mem_zip (i := i + 1)
          (by simpa [Node.parts, Expr.parts, exprParts] using hi')
          (by simpa [Node.parts, Expr.parts, exprParts] using hi))
        simp only [Node.parts, Expr.parts, exprParts, List.getElem_map,
          List.getElem_cons_succ] at helement
        exact helement.keptKey?_eq htarget

/-- Replacing variables by names and selectors keeps the literals with their kept keys. -/
theorem Substituted.holds_iff (htarget : ∀ y t, target y = some t → t.IsTarget)
    (h : Substituted target hidden n n') : n'.Holds l ↔ n.Holds l := by
  induction h with
  | @replaced hidden x e hfree h =>
      exact iff_of_false (htarget _ _ h).not_holds (Expr.not_holds_name x)
  | bound => rfl
  | @inside hidden n n' hnode hhead hlength hparts ih =>
      have hwhole : Substituted target hidden n n' := .inside hnode hhead hlength hparts
      have hkeys : n'.keptKeys? = n.keptKeys? := hwhole.keptKeys?_eq htarget
      have halike : n.Alike n' := .rel _ _ ⟨target, hidden, htarget, hwhole⟩
      constructor
      · rintro (⟨h, hlike⟩ | ⟨hmem, hholds⟩)
        · exact .here (hkeys ▸ h) (halike.trans _ _ _ hlike)
        · obtain ⟨i, hi, rfl⟩ := List.getElem_of_mem hmem
          have hin : i < n.parts.length := hlength ▸ hi
          exact .part (List.getElem_mem hin) ((ih _ (getElem_mem_zip hin hi)).mp hholds)
      · rintro (⟨h, hlike⟩ | ⟨hmem, hholds⟩)
        · exact .here (hkeys.trans h) ((halike.symm _ _).trans _ _ _ hlike)
        · obtain ⟨i, hi, rfl⟩ := List.getElem_of_mem hmem
          have hin : i < n'.parts.length := hlength ▸ hi
          exact .part (List.getElem_mem hin) ((ih _ (getElem_mem_zip hi hin)).mpr hholds)

end Substitution

section Renamed

variable {l : Literal} {recv : String} {r : Renames}

theorem Renames.isTarget {x : String} {t : Expr} (h : r.target recv x = some t) : t.IsTarget := by
  obtain ⟨t, -, rfl⟩ := Option.map_eq_some_iff.mp h
  unfold Target.toExpr
  split
  · exact .inr ⟨recv, t.name, rfl⟩
  · exact .inl ⟨t.name, rfl⟩

/-- Renaming keeps the literals with their kept keys. -/
theorem Expr.holds_rename {e : Expr} : (e.rename recv r).Holds l ↔ e.Holds l :=
  (e.rename_substituted (.refl recv r)).holds_iff fun _ _ => Renames.isTarget

theorem Stmt.holds_rename {s : Stmt} :
    Node.Holds l (.stmt (s.rename recv r).1) ↔ Node.Holds l (.stmt s) :=
  (s.rename_substituted (.refl recv r)).holds_iff fun _ _ => Renames.isTarget

end Renamed

end YieldMachine
