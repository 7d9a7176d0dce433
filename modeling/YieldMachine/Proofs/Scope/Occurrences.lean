import YieldMachine.Proofs.Scope.Substitution

/-!
# Occurrences of names

A variable is free in a node where one of its identifiers stands outside all declarations of its
name.  Two renamings give the same tree exactly when they agree on the variables that are free in
it, and a renamed tree mentions nothing but what the tree and the targets of its names mention.
-/

namespace YieldMachine

/-- Whether a variable occurs in a node outside the declarations of its name. -/
inductive Node.Free (x : String) : Node → Prop where
  | here : Free x (.expr (.ident x false))
  | part {n : Node} {p : List String × Node} (hmem : p ∈ n.parts) (hvisible : x ∉ p.1)
      (hfree : Free x p.2) : Free x n

/-- Whether a variable is free in an expression. -/
def Expr.Free (x : String) (e : Expr) : Prop := Node.Free x (.expr e)

/-- Whether a variable is free in an entry of a declaration.  A type may refer to itself without
this name being free in it. -/
def Spec.Free (x : String) (s : Spec) : Prop := Node.Free x (.spec s)

/-- Whether an identifier with a name occurs anywhere in a node. -/
inductive Node.Mentions (x : String) : Node → Prop where
  | here {kept : Bool} : Mentions x (.expr (.ident x kept))
  | part {n : Node} {p : List String × Node} (hmem : p ∈ n.parts)
      (hmentions : Mentions x p.2) : Mentions x n

/-- Whether an expression mentions a name. -/
def Expr.Mentions (x : String) (e : Expr) : Prop := Node.Mentions x (.expr e)

theorem Node.free_iff {x : String} {n : Node} (hnode : n.variable? = none) :
    Node.Free x n ↔ ∃ p ∈ n.parts, x ∉ p.1 ∧ Node.Free x p.2 := by
  constructor
  · intro h
    cases h with
    | here => cases hnode
    | part hmem hvisible hfree => exact ⟨_, hmem, hvisible, hfree⟩
  · rintro ⟨p, hmem, hvisible, hfree⟩
    exact .part hmem hvisible hfree

/-- The parts of a substitution of a node are substitutions of its parts. -/
theorem Substituted.part {target : String → Option Expr} {hidden : List String} {n n' : Node}
    (h : Substituted target hidden n n') {i : Nat} (hi : i < n.parts.length) :
    ∃ hi' : i < n'.parts.length,
      Substituted target (n.parts[i].1 ++ hidden) n.parts[i].2 n'.parts[i].2 := by
  cases h with
  | replaced => simp [Node.parts, Expr.parts] at hi
  | bound => simp [Node.parts, Expr.parts] at hi
  | inside _ _ hlength hparts =>
      have hi' : i < n'.parts.length := by omega
      exact ⟨hi', hparts _ (getElem_mem_zip hi hi')⟩

/-- A substitution only depends on what the free variables are replaced by. -/
theorem Substituted.congr {target target' : String → Option Expr} {hidden : List String}
    {n n' : Node} (h : Substituted target hidden n n')
    (hsame : ∀ x, Node.Free x n → x ∉ hidden →
      (target x).getD (.name x) = (target' x).getD (.name x)) :
    Substituted target' hidden n n' := by
  induction h with
  | @replaced hidden x e hfree htarget =>
      have hx := hsame x .here hfree
      rw [htarget, Option.getD_some] at hx
      cases htarget' : target' x with
      | some e' =>
          rw [htarget', Option.getD_some] at hx
          exact hx ▸ .replaced hfree htarget'
      | none =>
          rw [htarget', Option.getD_none] at hx
          exact hx ▸ .bound (.inr htarget')
  | @bound hidden x h =>
      by_cases hx : x ∈ hidden
      · exact .bound (.inl hx)
      · have hnone : target x = none := h.resolve_left hx
        have heq := hsame x .here hx
        rw [hnone, Option.getD_none] at heq
        cases htarget' : target' x with
        | none => exact .bound (.inr htarget')
        | some e' =>
            rw [htarget', Option.getD_some] at heq
            subst heq
            exact .replaced hx htarget'
  | inside hnode hhead hlength hparts ih =>
      refine .inside hnode hhead hlength fun p hp => ih p hp fun x hfree hx => ?_
      rw [List.mem_append, not_or] at hx
      exact hsame x (.part (List.of_mem_zip hp).1 hx.1 hfree) hx.2

/-- A substitution mentions what the node does, and what the variables of the node are replaced
by. -/
theorem Substituted.mentions {target : String → Option Expr} {hidden : List String} {x : String}
    {n n' : Node} (h : Substituted target hidden n n') (hx : Node.Mentions x n') :
    Node.Mentions x n ∨ ∃ y e, Node.Mentions y n ∧ target y = some e ∧ e.Mentions x := by
  induction h with
  | replaced hfree htarget => exact .inr ⟨_, _, .here, htarget, hx⟩
  | bound => exact .inl hx
  | @inside hidden n n' hnode hhead hlength hparts ih =>
      cases hx with
      | here =>
          have hnil : n.parts = [] := List.eq_nil_of_length_eq_zero hlength.symm
          have heq := Node.eq_of_parts hhead (by rw [hnil]; rfl)
          exact .inl (heq ▸ .here)
      | @part _ p hmem hmentions =>
          obtain ⟨i, hi, rfl⟩ := List.getElem_of_mem hmem
          have hin : i < n.parts.length := hlength ▸ hi
          rcases ih _ (getElem_mem_zip hin hi) hmentions with h | ⟨y, e, hy, htarget, he⟩
          · exact .inl (.part (List.getElem_mem hin) h)
          · exact .inr ⟨y, e, .part (List.getElem_mem hin) hy, htarget, he⟩

theorem Substituted.eq_of_visible {target : String → Option Expr} {hidden : List String}
    {x : String} {n : Node} (h : Substituted target hidden (.expr (.ident x false)) n)
    (hx : x ∉ hidden) : n = .expr ((target x).getD (.name x)) := by
  cases h with
  | replaced _ htarget => rw [htarget, Option.getD_some]
  | bound hbound =>
      rw [hbound.resolve_left hx, Option.getD_none]
      rfl
  | inside hnode => cases hnode

/-- What a free variable is replaced by can be seen in the substitution. -/
theorem Substituted.agree {target target' : String → Option Expr} {hidden : List String}
    {x : String} {n n' : Node} (hfree : Node.Free x n) (hx : x ∉ hidden)
    (h : Substituted target hidden n n') (h' : Substituted target' hidden n n') :
    (target x).getD (.name x) = (target' x).getD (.name x) := by
  induction hfree generalizing hidden n' with
  | here => exact Node.expr.inj ((h.eq_of_visible hx).symm.trans (h'.eq_of_visible hx))
  | @part n p hmem hvisible hfree ih =>
      obtain ⟨i, hi, rfl⟩ := List.getElem_of_mem hmem
      obtain ⟨hi', hpart⟩ := h.part hi
      obtain ⟨_, hpart'⟩ := h'.part hi
      refine ih ?_ hpart hpart'
      rw [List.mem_append, not_or]
      exact ⟨hvisible, hx⟩

theorem Expr.free_name {x y : String} : (Expr.name y).Free x ↔ x = y := by
  constructor
  · rintro (_ | ⟨hmem, -, -⟩)
    · rfl
    · simp [Node.parts, Expr.parts, Expr.name] at hmem
  · rintro rfl
    exact .here

/-- The free variables of an expression that declares nothing are those of its parts. -/
theorem Expr.free_iff_of_parts {x : String} {e : Expr} {es : List Expr}
    (hnode : Node.variable? (.expr e) = none) (hparts : e.parts = exprParts [] es) :
    e.Free x ↔ ∃ y ∈ es, y.Free x := by
  rw [Expr.Free, Node.free_iff hnode]
  simp [Node.parts, hparts, exprParts, Expr.Free]

theorem Expr.mentions_name {x y : String} : (Expr.name y).Mentions x ↔ x = y := by
  constructor
  · rintro (_ | ⟨hmem, -⟩)
    · rfl
    · simp [Node.parts, Expr.parts, Expr.name] at hmem
  · rintro rfl
    exact .here

/-- An expression that is no identifier mentions what its parts mention. -/
theorem Expr.mentions_iff_of_parts {x : String} {e : Expr} {es : List Expr}
    (hname : e.name? = none) (hparts : e.parts = exprParts [] es) :
    e.Mentions x ↔ ∃ y ∈ es, y.Mentions x := by
  constructor
  · rintro (_ | ⟨hmem, hmentions⟩)
    · cases hname
    · simp only [Node.parts, hparts, exprParts, List.mem_map] at hmem
      obtain ⟨y, hy, rfl⟩ := hmem
      exact ⟨y, hy, hmentions⟩
  · rintro ⟨y, hy, hmentions⟩
    refine .part (p := ([], .expr y)) ?_ hmentions
    simpa [Node.parts, hparts, exprParts] using hy

/-- An entry with values has the free variables of a tree with its type and values. -/
theorem Spec.free_value {x : String} {names : List String} {ty : Expr} {values : List Expr} :
    (Spec.value names ty values).Free x ↔ (Expr.composite ty values).Free x := by
  rw [Spec.Free, Expr.Free, Node.free_iff rfl, Node.free_iff rfl]
  rfl

/-- A type has the free variables of its definition and its parameters, but for its own name. -/
theorem Spec.free_type {x name : String} {typeParams : Fields} {isAlias : Bool} {ty : Expr} :
    (Spec.type name typeParams isAlias ty).Free x ↔
      x ≠ name ∧ (ty.Free x ∨ (Expr.struct typeParams).Free x) := by
  rw [Spec.Free, Expr.Free, Expr.Free, Node.free_iff rfl,
    Node.free_iff (n := .expr (.struct _)) rfl]
  simp only [Node.parts, Spec.parts, Expr.parts, fieldParts, List.mem_cons, List.mem_map]
  constructor
  · rintro ⟨p, rfl | ⟨f, hf, rfl⟩, hvisible, hfree⟩
    · exact ⟨by simpa using hvisible, .inl hfree⟩
    · exact ⟨by simpa using hvisible, .inr ⟨_, ⟨f, hf, rfl⟩, List.not_mem_nil, hfree⟩⟩
  · rintro ⟨hname, hfree | ⟨p, ⟨f, hf, rfl⟩, -, hfree⟩⟩
    · exact ⟨_, .inl rfl, by simpa using hname, hfree⟩
    · exact ⟨_, .inr ⟨f, hf, rfl⟩, by simpa using hname, hfree⟩

section Renamed

variable {recv : String} {r r' : Renames}

/-- A renamed expression mentions what the expression does, and what its names are renamed to. -/
theorem Expr.mentions_rename {x : String} {e : Expr} (h : (e.rename recv r).Mentions x) :
    e.Mentions x ∨ ∃ y t, e.Mentions y ∧ r.find? y = some t ∧ (t.toExpr recv).Mentions x := by
  refine ((e.rename_substituted (.refl recv r)).mentions h).imp_right ?_
  rintro ⟨y, e', hy, htarget, he'⟩
  obtain ⟨t, ht, rfl⟩ := Option.map_eq_some_iff.mp htarget
  exact ⟨y, t, hy, ht, he'⟩

/-- Two renamings give the same expression exactly when they agree on its free variables. -/
theorem Expr.rename_eq_iff (recv : String) (r r' : Renames) (e : Expr) :
    e.rename recv r = e.rename recv r' ↔
      ∀ x, e.Free x → r.apply recv x = r'.apply recv x := by
  have hsub := e.rename_substituted (Renames.Hides.refl recv r)
  have hsub' := e.rename_substituted (Renames.Hides.refl recv r')
  constructor
  · intro heq x hfree
    rw [Renames.apply_eq, Renames.apply_eq]
    exact Substituted.agree hfree List.not_mem_nil hsub (heq ▸ hsub')
  · intro hsame
    refine Node.expr.inj ((hsub.congr fun x hfree _ => ?_).functional hsub')
    rw [← Renames.apply_eq, ← Renames.apply_eq]
    exact hsame x hfree

theorem Fields.rename_eq_iff (recv : String) (r r' : Renames) (fs : Fields) :
    fs.rename recv r = fs.rename recv r' ↔
      ∀ x, (Expr.struct fs).Free x → r.apply recv x = r'.apply recv x := by
  rw [← Expr.rename_eq_iff, Expr.rename, Expr.rename, Expr.struct.injEq]

end Renamed

end YieldMachine
