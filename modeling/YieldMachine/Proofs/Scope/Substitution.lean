import Mathlib.Data.List.Forall2
import YieldMachine.Proofs.Scope.Nodes
import YieldMachine.Proofs.Scope.Shadow

/-!
# Renaming is substitution

Substitution replaces the identifiers that no node around them declares, and leaves the heads of
all other nodes as they are.  Renaming gives the one tree that is a substitution of its argument.
-/

namespace YieldMachine

/-- The variable that a node may refer to: the name of an identifier that is not kept. -/
def Node.variable? : Node → Option String
  | .expr (.ident x false) => some x
  | _ => none

/-- Whether the second node is the first one with its free variables replaced by their targets,
when the names in `hidden` are declared around it.  Variables without a target stay. -/
inductive Substituted (target : String → Option Expr) : List String → Node → Node → Prop where
  | replaced {hidden : List String} {x : String} {e : Expr} (hfree : x ∉ hidden)
      (htarget : target x = some e) :
      Substituted target hidden (.expr (.ident x false)) (.expr e)
  | bound {hidden : List String} {x : String} (h : x ∈ hidden ∨ target x = none) :
      Substituted target hidden (.expr (.ident x false)) (.expr (.ident x false))
  | inside {hidden : List String} {n n' : Node} (hnode : n.variable? = none)
      (hhead : n'.head = n.head) (hlength : n'.parts.length = n.parts.length)
      (hparts : ∀ p ∈ n.parts.zip n'.parts,
        Substituted target (p.1.1 ++ hidden) p.1.2 p.2.2) :
      Substituted target hidden n n'

theorem getElem_mem_zip {α β : Type} {xs : List α} {ys : List β} {i : Nat} (hx : i < xs.length)
    (hy : i < ys.length) : (xs[i], ys[i]) ∈ xs.zip ys := by
  have hi : i < (xs.zip ys).length := by
    rw [List.length_zip]
    omega
  rw [← List.getElem_zip (h := hi)]
  exact List.getElem_mem hi

/-- There is at most one substitution of a node. -/
theorem Substituted.functional {target : String → Option Expr} {hidden : List String}
    {n n' n'' : Node} (h : Substituted target hidden n n') (h' : Substituted target hidden n n'') :
    n' = n'' := by
  induction h generalizing n'' with
  | replaced hfree htarget =>
      cases h' with
      | replaced _ htarget' =>
          rw [htarget] at htarget'
          rw [Option.some.inj htarget']
      | bound h =>
          rcases h with hmem | hnone
          · exact absurd hmem hfree
          · rw [htarget] at hnone
            cases hnone
      | inside hnode => cases hnode
  | bound h =>
      cases h' with
      | replaced hfree htarget =>
          rcases h with hmem | hnone
          · exact absurd hmem hfree
          · rw [htarget] at hnone
            cases hnone
      | bound => rfl
      | inside hnode => cases hnode
  | inside hnode hhead hlength hparts ih =>
      cases h' with
      | replaced => cases hnode
      | bound => cases hnode
      | inside _ hhead' hlength' hparts' =>
          refine Node.eq_of_parts (hhead.trans hhead'.symm) ?_
          refine List.ext_getElem (by simp [hlength, hlength']) fun i hi hi' => ?_
          rw [List.getElem_map, List.getElem_map]
          rw [List.length_map] at hi hi'
          have hn := hlength ▸ hi
          exact ih _ (getElem_mem_zip hn hi) (hparts' _ (getElem_mem_zip hn hi'))

namespace Renames

variable {recv : String} {r r' : Renames} {hidden : List String}

/-- The expression that a name is renamed to. -/
def target (r : Renames) (recv x : String) : Option Expr := (r.find? x).map (Target.toExpr recv)

/-- Whether bindings are others without those of the hidden names. -/
def Hides (recv : String) (r : Renames) (hidden : List String) (r' : Renames) : Prop :=
  ∀ x, r'.apply recv x = if x ∈ hidden then .name x else r.apply recv x

theorem apply_eq (r : Renames) (recv x : String) :
    r.apply recv x = (r.target recv x).getD (.name x) := by
  unfold apply target
  cases r.find? x with
  | none => rfl
  | some t =>
      by_cases hsame : t.field = false ∧ t.name = x
      · simp [Target.toExpr, hsame.1, hsame.2]
      · have : (t.field || t.name != x) = true := by
          rw [Bool.or_eq_true, bne_iff_ne]
          by_contra hcon
          push Not at hcon
          exact hsame ⟨by simpa using hcon.1, hcon.2⟩
        simp [this]

theorem Hides.refl (recv : String) (r : Renames) : r.Hides recv [] r := by
  intro x
  rw [if_neg List.not_mem_nil]

theorem Hides.shadowAll (h : r.Hides recv hidden r') (names : List String) :
    r.Hides recv (names ++ hidden) (r'.shadowAll names) := by
  intro x
  by_cases hx : x ∈ names
  · rw [if_pos (List.mem_append_left _ hx), apply_eq, target, find?_shadowAll, if_pos hx]
    cases r'.find? x <;> rfl
  · have hsame : (r'.shadowAll names).apply recv x = r'.apply recv x := by
      rw [apply_eq, apply_eq, target, target, find?_shadowAll, if_neg hx]
    rw [hsame, h x]
    simp only [List.mem_append, hx, false_or]

/-- After a statement, the names that it declares are hidden. -/
theorem Hides.after (h : r.Hides recv hidden r') (s : Stmt) :
    r.Hides recv (s.binds ++ hidden) (s.rename recv r').2 := by
  rw [s.rename_snd]
  exact h.shadowAll s.binds

end Renames

/-- Whether nodes are the others with their free variables replaced. -/
def PartsSubstituted (target : String → Option Expr) (hidden : List String) :
    Scoped → Scoped → Prop :=
  List.Forall₂ fun p p' => Substituted target (p.1 ++ hidden) p.2 p'.2

section Renamed

variable {recv : String} {r r' : Renames} {hidden names names' : List String}

theorem PartsSubstituted.append {target : String → Option Expr} {ps ps' qs qs' : Scoped}
    (hp : PartsSubstituted target hidden ps ps') (hq : PartsSubstituted target hidden qs qs') :
    PartsSubstituted target hidden (ps ++ qs) (ps' ++ qs') :=
  List.rel_append hp hq

theorem Substituted.of_parts {target : String → Option Expr} {n n' : Node}
    (hnode : n.variable? = none) (hhead : n'.head = n.head)
    (hparts : PartsSubstituted target hidden n.parts n'.parts) :
    Substituted target hidden n n' := by
  obtain ⟨hlength, hzip⟩ := List.forall₂_iff_zip.mp hparts
  exact .inside hnode hhead hlength.symm fun p hp => hzip hp

theorem blankExprs_rename (r : Renames) (es : List Expr) :
    blankExprs (renameExprs recv r es) = blankExprs es := by
  induction es with
  | nil => rfl
  | cons e es ih => exact congrArg (Expr.missing :: ·) ih

theorem blankStmts_rename (r : Renames) (ss : List Stmt) :
    blankStmts (renameStmts recv r ss) = blankStmts ss := by
  induction ss generalizing r with
  | nil => rfl
  | cons s ss ih => exact congrArg (Stmt.missing :: ·) (ih _)

theorem blankClauses_rename (r : Renames) (cs : List Clause) :
    blankClauses (renameClauses recv r cs) = blankClauses cs := by
  induction cs with
  | nil => rfl
  | cons c cs ih => exact congrArg (Clause.default [] :: ·) ih

theorem blankComms_rename (r : Renames) (cs : List CommClause) :
    blankComms (renameComms recv r cs) = blankComms cs := by
  induction cs with
  | nil => rfl
  | cons c cs ih => exact congrArg (CommClause.mk .missing [] :: ·) ih

theorem blankSpecs_rename (r : Renames) (ss : List Spec) :
    blankSpecs (renameSpecs recv r ss).1 = blankSpecs ss := by
  induction ss generalizing r with
  | nil => rfl
  | cons s ss ih => exact congrArg (Spec.imported none "" :: ·) (ih _)

theorem Fields.blank_rename (r : Renames) (fs : Fields) : (fs.rename recv r).blank = fs.blank := by
  cases fs with
  | absent => rfl
  | list fields =>
      refine congrArg Fields.list ?_
      induction fields with
      | nil => rfl
      | cons f fields ih => exact congrArg (Field.mk [] .missing none :: ·) ih

theorem Signature.blank_rename (r : Renames) (sig : Signature) :
    (sig.rename recv r).blank = sig.blank := by
  obtain ⟨typeParams, params, results⟩ := sig
  simp only [Signature.rename, Signature.blank, Fields.blank_rename]

/-- Renaming keeps what a statement is besides its parts. -/
theorem Stmt.head_rename (s : Stmt) (r : Renames) : (s.rename recv r).1.head = s.head := by
  cases s with
  | assign kind lhs rhs =>
      cases kind <;> simp [Stmt.rename, Stmt.head, blankExprs_rename]
  | typeSwitch init guard clauses =>
      cases guard with
      | assign kind lhs rhs =>
          simp only [Stmt.rename, Stmt.head, Stmt.guardHead, blankExprs_rename,
            blankClauses_rename]
      | _ => simp only [Stmt.rename, Stmt.head, Stmt.guardHead, blankClauses_rename]
  | range key value kind x body =>
      cases kind <;> simp [Stmt.rename, Stmt.head, blankStmts_rename]
  | _ =>
      simp only [Stmt.rename, Stmt.head, blankExprs_rename, blankStmts_rename,
        blankClauses_rename, blankComms_rename, blankSpecs_rename]

/-- Renaming keeps what an expression other than a variable is besides its parts. -/
theorem Expr.head_rename (e : Expr) (r : Renames) (h : Node.variable? (.expr e) = none) :
    (e.rename recv r).head = e.head := by
  cases e with
  | ident x kept =>
      cases kept with
      | true => rfl
      | false => cases h
  | func signature body =>
      obtain ⟨typeParams, params, results⟩ := signature
      simp only [Expr.rename, Expr.head, Signature.blank, Fields.blank_rename]
  | _ =>
      simp only [Expr.rename, Expr.head, blankExprs_rename, Signature.blank_rename,
        Fields.blank_rename]

theorem Substituted.of_expr_parts {target : String → Option Expr} {e : Expr}
    (hnode : Node.variable? (.expr e) = none)
    (hparts : PartsSubstituted target hidden (Node.expr e).parts
      (Node.expr (e.rename recv r')).parts) :
    Substituted target hidden (.expr e) (.expr (e.rename recv r')) :=
  .of_parts hnode (congrArg Node.expr (e.head_rename r' hnode)) hparts

mutual

/-- Renaming an expression replaces its free variables. -/
theorem Expr.rename_substituted (e : Expr) {hidden : List String} {r' : Renames}
    (h : r.Hides recv hidden r') :
    Substituted (r.target recv) hidden (.expr e) (.expr (e.rename recv r')) := by
  cases e with
  | missing => exact .of_parts rfl rfl .nil
  | ident x kept =>
      cases kept with
      | true => exact .of_parts rfl rfl .nil
      | false =>
          rw [Expr.rename, h x]
          by_cases hx : x ∈ hidden
          · rw [if_pos hx]
            exact .bound (.inl hx)
          · rw [if_neg hx, Renames.apply_eq]
            cases htarget : r.target recv x with
            | none => exact .bound (.inr htarget)
            | some e => exact .replaced hx htarget
  | lit kind text => exact .of_expr_parts rfl .nil
  | sel x member | star x | unary op x | paren x | chan direction x | ellipsis x =>
      exact .of_expr_parts rfl (.cons (x.rename_substituted h) .nil)
  | index x y | assert x y | binary op x y | pair x y | array x y | map x y =>
      exact .of_expr_parts rfl
        (.cons (x.rename_substituted h) (.cons (y.rename_substituted h) .nil))
  | slice x low high max three =>
      exact .of_expr_parts rfl
        (.cons (x.rename_substituted h) (.cons (low.rename_substituted h)
          (.cons (high.rename_substituted h) (.cons (max.rename_substituted h) .nil))))
  | indexList x es | call x es spread | composite x es =>
      exact .of_expr_parts rfl (.cons (x.rename_substituted h) (renameExprs_substituted es h))
  | func signature body =>
      obtain ⟨typeParams, params, results⟩ := signature
      have hbody := (h.shadowAll params.names).shadowAll results.names
      rw [← List.append_assoc] at hbody
      exact .of_expr_parts rfl (.append (.append (.append
        (typeParams.rename_substituted h) (params.rename_substituted h))
        (results.rename_substituted h)) (.cons (body.rename_substituted hbody) .nil))
  | funcType signature =>
      obtain ⟨typeParams, params, results⟩ := signature
      exact .of_expr_parts rfl (.append (.append
        (typeParams.rename_substituted h) (params.rename_substituted h))
        (results.rename_substituted h))
  | struct fields | interface fields => exact .of_expr_parts rfl (fields.rename_substituted h)

theorem renameExprs_substituted (es : List Expr) {hidden names names' : List String} {r' : Renames}
    (h : r.Hides recv (names ++ hidden) r') :
    PartsSubstituted (r.target recv) hidden (exprParts names es)
      (exprParts names' (renameExprs recv r' es)) := by
  cases es with
  | nil => exact .nil
  | cons e es => exact .cons (e.rename_substituted h) (renameExprs_substituted es h)

theorem Fields.rename_substituted (fs : Fields) {hidden names names' : List String} {r' : Renames}
    (h : r.Hides recv (names ++ hidden) r') :
    PartsSubstituted (r.target recv) hidden (fieldParts names fs)
      (fieldParts names' (fs.rename recv r')) := by
  cases fs with
  | absent => exact .nil
  | list fields => exact renameFields_substituted fields h

theorem renameFields_substituted (fs : List Field) {hidden names names' : List String}
    {r' : Renames} (h : r.Hides recv (names ++ hidden) r') :
    PartsSubstituted (r.target recv) hidden (fs.map fun f => (names, .field f))
      ((renameFields recv r' fs).map fun f => (names', .field f)) := by
  cases fs with
  | nil => exact .nil
  | cons f fs => exact .cons (f.rename_substituted h) (renameFields_substituted fs h)

theorem Field.rename_substituted (f : Field) {hidden : List String} {r' : Renames}
    (h : r.Hides recv hidden r') :
    Substituted (r.target recv) hidden (.field f) (.field (f.rename recv r')) := by
  obtain ⟨names, type, tag⟩ := f
  exact .of_parts rfl rfl (.cons (type.rename_substituted h) .nil)

/-- Renaming a statement replaces its free variables. -/
theorem Stmt.rename_substituted (s : Stmt) {hidden : List String} {r' : Renames}
    (h : r.Hides recv hidden r') :
    Substituted (r.target recv) hidden (.stmt s) (.stmt (s.rename recv r').1) := by
  refine .of_parts rfl (congrArg Node.stmt (s.head_rename r')) ?_
  cases s with
  | missing | empty | branch => exact .nil
  | expr x | incDec increment x | go x | defer x => exact .cons (x.rename_substituted h) .nil
  | send x y => exact .cons (x.rename_substituted h) (.cons (y.rename_substituted h) .nil)
  | labeled label s => exact .cons (s.rename_substituted h) .nil
  | assign kind lhs rhs =>
      have hrhs : PartsSubstituted (r.target recv) hidden (exprParts [] rhs)
          (exprParts [] (renameExprs recv r' rhs)) := renameExprs_substituted rhs h
      cases kind with
      | define => exact hrhs
      | set | update => exact .append (renameExprs_substituted lhs h) hrhs
  | ret results => exact renameExprs_substituted results h
  | block body => exact renameStmts_substituted body h
  | ite init cond body other =>
      have hin := h.after init
      exact .cons (init.rename_substituted h)
        (.cons (cond.rename_substituted hin) (.cons (other.rename_substituted hin)
          (renameStmts_substituted body hin)))
  | switch init tag clauses =>
      have hin := h.after init
      exact .cons (init.rename_substituted h)
        (.cons (tag.rename_substituted hin) (renameClauses_substituted clauses hin))
  | typeSwitch init guard clauses =>
      have hin := h.after init
      have hinit := init.rename_substituted h
      cases guard with
      | assign kind lhs rhs =>
          have hclauses := hin.shadowAll (lhs.filterMap Expr.name?)
          rw [← List.append_assoc] at hclauses
          exact .cons hinit (PartsSubstituted.append
            (renameExprs_substituted rhs hin) (renameClauses_substituted clauses hclauses))
      | expr x =>
          exact .cons hinit (.cons (x.rename_substituted hin)
            (renameClauses_substituted clauses hin))
      | _ => exact .cons hinit (renameClauses_substituted clauses hin)
  | select clauses => exact renameComms_substituted clauses h
  | loop init cond post body =>
      have hin := h.after init
      have hbody := hin.after post
      rw [← List.append_assoc] at hbody
      exact .cons (init.rename_substituted h)
        (.cons (cond.rename_substituted hin) (.cons (post.rename_substituted hin)
          (renameStmts_substituted body hbody)))
  | range key value kind x body =>
      have hx := x.rename_substituted h
      cases kind with
      | define =>
          exact .cons hx (renameStmts_substituted body
            (h.shadowAll ([key, value].filterMap Expr.name?)))
      | set | bare =>
          exact .cons (key.rename_substituted h)
            (.cons (value.rename_substituted h) (.cons hx (renameStmts_substituted body h)))
  | decl kind specs => exact renameSpecs_substituted specs h

theorem renameStmts_substituted (ss : List Stmt) {hidden names names' : List String} {r' : Renames}
    (h : r.Hides recv (names ++ hidden) r') :
    PartsSubstituted (r.target recv) hidden (stmtParts names ss)
      (stmtParts names' (renameStmts recv r' ss)) := by
  cases ss with
  | nil => exact .nil
  | cons s ss =>
      have hafter := h.after s
      rw [← List.append_assoc] at hafter
      exact .cons (s.rename_substituted h) (renameStmts_substituted ss hafter)

theorem renameClauses_substituted (cs : List Clause) {hidden names names' : List String}
    {r' : Renames} (h : r.Hides recv (names ++ hidden) r') :
    PartsSubstituted (r.target recv) hidden (clauseParts names cs)
      (clauseParts names' (renameClauses recv r' cs)) := by
  cases cs with
  | nil => exact .nil
  | cons c cs => exact .cons (c.rename_substituted h) (renameClauses_substituted cs h)

theorem Clause.rename_substituted (c : Clause) {hidden : List String} {r' : Renames}
    (h : r.Hides recv hidden r') :
    Substituted (r.target recv) hidden (.clause c) (.clause (c.rename recv r')) := by
  cases c with
  | case values body =>
      refine .of_parts rfl ?_
        (.append (renameExprs_substituted values h) (renameStmts_substituted body h))
      simp only [Node.head, Clause.rename, Clause.head, blankExprs_rename, blankStmts_rename]
  | default body =>
      refine .of_parts rfl ?_ (renameStmts_substituted body h)
      simp only [Node.head, Clause.rename, Clause.head, blankStmts_rename]

theorem renameComms_substituted (cs : List CommClause) {hidden : List String} {r' : Renames}
    (h : r.Hides recv hidden r') :
    PartsSubstituted (r.target recv) hidden (cs.map fun c => ([], .comm c))
      ((renameComms recv r' cs).map fun c => ([], .comm c)) := by
  cases cs with
  | nil => exact .nil
  | cons c cs => exact .cons (c.rename_substituted h) (renameComms_substituted cs h)

theorem CommClause.rename_substituted (c : CommClause) {hidden : List String} {r' : Renames}
    (h : r.Hides recv hidden r') :
    Substituted (r.target recv) hidden (.comm c) (.comm (c.rename recv r')) := by
  obtain ⟨comm, body⟩ := c
  refine .of_parts rfl ?_
    (.cons (comm.rename_substituted h) (renameStmts_substituted body (h.after comm)))
  simp only [Node.head, CommClause.rename, CommClause.head, blankStmts_rename]

theorem renameSpecs_substituted (ss : List Spec) {hidden names names' : List String} {r' : Renames}
    (h : r.Hides recv (names ++ hidden) r') :
    PartsSubstituted (r.target recv) hidden (specParts names ss)
      (specParts names' (renameSpecs recv r' ss).1) := by
  cases ss with
  | nil => exact .nil
  | cons s ss =>
      have hafter : r.Hides recv ((s.names ++ names) ++ hidden) (s.rename recv r').2 := by
        rw [List.append_assoc, s.rename_snd]
        exact h.shadowAll s.names
      exact .cons (s.rename_substituted h) (renameSpecs_substituted ss hafter)

theorem Spec.rename_substituted (s : Spec) {hidden : List String} {r' : Renames}
    (h : r.Hides recv hidden r') :
    Substituted (r.target recv) hidden (.spec s) (.spec (s.rename recv r').1) := by
  cases s with
  | value names ty values =>
      refine .of_parts rfl ?_ (.cons (ty.rename_substituted h) (renameExprs_substituted values h))
      simp only [Node.head, Spec.rename, Spec.head, blankExprs_rename]
  | type name typeParams isAlias ty =>
      have hin := h.shadowAll [name]
      refine .of_parts rfl ?_
        (.cons (ty.rename_substituted hin) (typeParams.rename_substituted hin))
      simp only [Node.head, Spec.rename, Spec.head, Fields.blank_rename]
  | imported name path => exact .of_parts rfl rfl .nil

end

end Renamed

/-- Renaming is scope-correct substitution.  The renamed tree, and no other, is the given tree
with every free variable that has a target replaced by it and everything else as it was. -/
theorem Renames.substituted_iff_rename (r : Renames) (recv : String) :
    (∀ (e : Expr) (n : Node),
      Substituted (r.target recv) [] (.expr e) n ↔ n = .expr (e.rename recv r)) ∧
      ∀ (s : Stmt) (n : Node),
        Substituted (r.target recv) [] (.stmt s) n ↔ n = .stmt (s.rename recv r).1 := by
  constructor
  · intro e n
    have he := e.rename_substituted (.refl recv r)
    constructor
    · intro hn
      exact hn.functional he
    · rintro rfl
      exact he
  · intro s n
    have hs := s.rename_substituted (.refl recv r)
    constructor
    · intro hn
      exact hn.functional hs
    · rintro rfl
      exact hs

end YieldMachine
