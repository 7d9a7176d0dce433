import YieldMachine.Proofs.Lowering.Emitted
import YieldMachine.Proofs.Scope.Keys
import YieldMachine.Proofs.Scope.Redeclared

/-!
# Literals of a body

`Flow.trees` lists the trees that a statement of a generator body is written with, and
`Flow.operands` those of them that it is run with: the type of blank variables may be left out, and
so are targets that it defines.  The tree of a statement has all literals of the operands, and no
other literals than the trees have.
-/

namespace YieldMachine

open Lowering Draft

/-- The type that a declaration writes for its variables, if not all of them are blank. -/
def VarDecl.writtenTypes (d : VarDecl) : List Expr :=
  if !d.define && d.names.any (· != "_") then [d.sharedType] else []

/-- The trees that a statement itself is run with. -/
def Flow.operands : Flow → List Node
  | .declare d => d.values.map .expr ++ d.writtenTypes.map .expr
  | .yield value => [.expr value]
  | .ite cond _ _ | .while cond _ | .doWhile _ cond | .loop _ cond _ _ => [.expr cond]
  | .walk header _ =>
    .expr header.x :: if header.define then [] else [.expr header.key, .expr header.value]
  | .switch tag cases => .expr tag :: (cases.flatMap (·.guard.values)).map .expr
  | .lift d => d.specs.map .spec
  | .simple stmt => [.stmt stmt]
  | _ => []

/-- The type that a declaration itself gives to a name. -/
def DeclType.own? : DeclType → Option Expr
  | .own type => some type
  | _ => none

/-- All trees that a statement itself is written with. -/
def Flow.trees : Flow → List Node
  | .declare d => d.values.map .expr ++ (d.types.filterMap DeclType.own?).map .expr
  | .walk header _ =>
    [header.x, header.key, header.value, header.keyType, header.valueType].map .expr
  | s => s.operands

/-- Whether a literal like this one stands in one of the trees of some statements. -/
def PartsHold (trees : Flow → List Node) (l : Literal) (parts : List Flow) : Prop :=
  ∃ s ∈ parts, ∃ n ∈ trees s, n.Holds l

section Parts

variable {trees : Flow → List Node} {l : Literal}

theorem partsHold_nil : ¬ PartsHold trees l [] := by simp [PartsHold]

theorem partsHold_cons {s : Flow} {ss : List Flow} : PartsHold trees l (s :: ss) ↔
    (∃ n ∈ trees s, n.Holds l) ∨ PartsHold trees l ss := by
  simp [PartsHold]

theorem partsHold_append {ss ts : List Flow} : PartsHold trees l (ss ++ ts) ↔
    PartsHold trees l ss ∨ PartsHold trees l ts := by
  simp [PartsHold, or_and_right, exists_or]

/-- An optional part of a statement. -/
theorem partsHold_part (hmissing : trees .missing = []) (part : Flow) :
    PartsHold trees l (if part.isMissing then [] else part.parts) ↔
      PartsHold trees l part.parts := by
  cases part <;> simp [Flow.isMissing, Flow.parts, PartsHold, hmissing]

theorem holds_operands_part (part : Flow) :
    PartsHold Flow.operands l (if part.isMissing then [] else part.parts) ↔
      PartsHold Flow.operands l part.parts := partsHold_part rfl part

theorem holds_trees_part (part : Flow) :
    PartsHold Flow.trees l (if part.isMissing then [] else part.parts) ↔
      PartsHold Flow.trees l part.parts := partsHold_part rfl part

end Parts

section Trees

variable {l : Literal}

/-- Whether a literal like this one stands anywhere in a statement. -/
def Stmt.Holds (l : Literal) (s : Stmt) : Prop := Node.Holds l (.stmt s)

/-- Whether a literal like this one stands anywhere in an entry of a declaration. -/
def Spec.Holds (l : Literal) (s : Spec) : Prop := Node.Holds l (.spec s)

/-- Whether a literal like this one stands in one of some expressions. -/
def ExprsHold (l : Literal) (es : List Expr) : Prop := ∃ e ∈ es, e.Holds l

/-- Whether a literal like this one stands in one of some statements. -/
def StmtsHold (l : Literal) (ss : List Stmt) : Prop := ∃ s ∈ ss, s.Holds l

/-- Whether a literal like this one stands in one of some entries of a declaration. -/
def SpecsHold (l : Literal) (ss : List Spec) : Prop := ∃ s ∈ ss, s.Holds l

@[simp]
theorem not_exprsHold_nil : ¬ ExprsHold l [] := by simp [ExprsHold]

@[simp]
theorem exprsHold_cons {e : Expr} {es : List Expr} :
    ExprsHold l (e :: es) ↔ e.Holds l ∨ ExprsHold l es := by
  simp [ExprsHold]

theorem exprsHold_append {es fs : List Expr} :
    ExprsHold l (es ++ fs) ↔ ExprsHold l es ∨ ExprsHold l fs := by
  simp [ExprsHold, or_and_right, exists_or]

@[simp]
theorem not_stmtsHold_nil : ¬ StmtsHold l [] := by simp [StmtsHold]

@[simp]
theorem stmtsHold_cons {s : Stmt} {ss : List Stmt} :
    StmtsHold l (s :: ss) ↔ s.Holds l ∨ StmtsHold l ss := by
  simp [StmtsHold]

theorem exists_map_expr {es : List Expr} :
    (∃ n ∈ es.map Node.expr, n.Holds l) ↔ ExprsHold l es := by
  simp [ExprsHold, Expr.Holds]

theorem exists_exprParts {names : List String} {es : List Expr} :
    (∃ p ∈ exprParts names es, p.2.Holds l) ↔ ExprsHold l es := by
  simp [exprParts, ExprsHold, Expr.Holds]

theorem exists_of_map_snd {parts : Scoped} {α : Type} {node : α → Node} {as : List α}
    (h : parts.map Prod.snd = as.map node) :
    (∃ p ∈ parts, p.2.Holds l) ↔ ∃ a ∈ as, (node a).Holds l := by
  have hparts : (∃ p ∈ parts, p.2.Holds l) ↔ ∃ n ∈ parts.map Prod.snd, n.Holds l := by
    simp only [List.mem_map, exists_exists_and_eq_and]
  rw [hparts, h]
  simp only [List.mem_map, exists_exists_and_eq_and]

theorem exists_stmtParts {names : List String} {ss : List Stmt} :
    (∃ p ∈ stmtParts names ss, p.2.Holds l) ↔ StmtsHold l ss :=
  exists_of_map_snd (map_snd_stmtParts names ss)

theorem exists_specParts {names : List String} {ss : List Spec} :
    (∃ p ∈ specParts names ss, p.2.Holds l) ↔ SpecsHold l ss :=
  exists_of_map_snd (map_snd_specParts names ss)

theorem exists_append_parts {parts parts' : Scoped} :
    (∃ p ∈ parts ++ parts', p.2.Holds l) ↔
      (∃ p ∈ parts, p.2.Holds l) ∨ ∃ p ∈ parts', p.2.Holds l := by
  simp only [List.mem_append, or_and_right, exists_or]

theorem Stmt.holds_iff {s : Stmt} : s.Holds l ↔ ∃ p ∈ s.parts, p.2.Holds l :=
  Node.holds_iff rfl

theorem Stmt.not_holds_missing : ¬ Stmt.missing.Holds l := by
  rw [holds_iff]
  simp [parts]

theorem Stmt.not_holds_branch (kind : BranchKind) (label : Option String) :
    ¬ (Stmt.branch kind label).Holds l := by
  rw [holds_iff]
  simp [parts]

theorem Stmt.holds_block {body : List Stmt} :
    (Stmt.block body).Holds l ↔ StmtsHold l body :=
  holds_iff.trans exists_stmtParts

theorem Stmt.holds_ret {results : List Expr} :
    (Stmt.ret results).Holds l ↔ ExprsHold l results :=
  holds_iff.trans exists_exprParts

theorem Stmt.holds_define {lhs rhs : List Expr} :
    (Stmt.assign .define lhs rhs).Holds l ↔ ExprsHold l rhs :=
  holds_iff.trans exists_exprParts

theorem Stmt.holds_assign {kind : AssignKind} {lhs rhs : List Expr} (h : kind ≠ .define) :
    (Stmt.assign kind lhs rhs).Holds l ↔ ExprsHold l lhs ∨ ExprsHold l rhs := by
  rw [holds_iff, parts, if_neg h]
  exact exists_append_parts.trans (or_congr exists_exprParts exists_exprParts)

theorem Stmt.holds_set {lhs rhs : List Expr} : (Stmt.assign .set lhs rhs).Holds l ↔
    ExprsHold l lhs ∨ ExprsHold l rhs := holds_assign nofun

theorem Stmt.holds_ite {init other : Stmt} {cond : Expr} {body : List Stmt} :
    (Stmt.ite init cond body other).Holds l ↔ init.Holds l ∨ cond.Holds l ∨
      other.Holds l ∨ StmtsHold l body := by
  rw [holds_iff, parts, List.exists_mem_cons_iff, List.exists_mem_cons_iff,
    List.exists_mem_cons_iff, exists_stmtParts]
  rfl

theorem Stmt.holds_loop {init post : Stmt} {cond : Expr} {body : List Stmt} :
    (Stmt.loop init cond post body).Holds l ↔ init.Holds l ∨ cond.Holds l ∨
      post.Holds l ∨ StmtsHold l body := by
  rw [holds_iff, parts, List.exists_mem_cons_iff, List.exists_mem_cons_iff,
    List.exists_mem_cons_iff, exists_stmtParts]
  rfl

theorem Stmt.holds_switch {init : Stmt} {tag : Expr} {clauses : List Clause} :
    (Stmt.switch init tag clauses).Holds l ↔ init.Holds l ∨ tag.Holds l ∨
      ∃ c ∈ clauses, Node.Holds l (.clause c) := by
  rw [holds_iff, parts, List.exists_mem_cons_iff, List.exists_mem_cons_iff]
  simp [clauseParts, Stmt.Holds, Expr.Holds]

theorem Stmt.holds_labeled {label : String} {stmt : Stmt} :
    (Stmt.labeled label stmt).Holds l ↔ stmt.Holds l := by
  rw [holds_iff]
  simp [parts, Stmt.Holds]

theorem Stmt.holds_decl {kind : DeclKind} {specs : List Spec} :
    (Stmt.decl kind specs).Holds l ↔ SpecsHold l specs :=
  holds_iff.trans exists_specParts

theorem Clause.holds_iff {c : Clause} :
    Node.Holds l (.clause c) ↔ ExprsHold l c.values ∨ StmtsHold l c.body := by
  rw [Node.holds_iff rfl]
  cases c with
  | case values body =>
      exact exists_append_parts.trans (or_congr exists_exprParts exists_stmtParts)
  | default body =>
      simp only [Clause.values, not_exprsHold_nil, false_or]
      exact exists_stmtParts

theorem Spec.holds_value {names : List String} {ty : Expr} {values : List Expr} :
    (Spec.value names ty values).Holds l ↔ ty.Holds l ∨ ExprsHold l values := by
  rw [Spec.Holds, Node.holds_iff rfl, ← exprsHold_cons]
  exact exists_exprParts

theorem Spec.holds_type {name : String} {typeParams : Fields} {isAlias : Bool} {ty : Expr} :
    (Spec.type name typeParams isAlias ty).Holds l ↔
      ty.Holds l ∨ (Expr.struct typeParams).Holds l := by
  rw [Spec.Holds, Node.holds_iff rfl, Expr.Holds, Expr.Holds,
    Node.holds_iff (n := .expr (.struct _)) rfl]
  simp [Node.parts, Spec.parts, Expr.parts, fieldParts]

theorem Spec.not_holds_imported (name : Option String) (path : String) :
    ¬ (Spec.imported name path).Holds l := by
  rw [Spec.Holds, Node.holds_iff rfl]
  simp [Node.parts, Spec.parts]

theorem Expr.holds_call {fn : Expr} {args : List Expr} {spread : Bool} :
    (Expr.call fn args spread).Holds l ↔ fn.Holds l ∨ ExprsHold l args := by
  rw [← exprsHold_cons]
  exact Expr.holds_iff (fn :: args) rfl rfl

theorem Expr.holds_sel {x : Expr} {member : String} :
    (Expr.sel x member).Holds l ↔ x.Holds l := by
  rw [Expr.holds_iff [x] rfl rfl]
  simp

theorem Expr.holds_star {x : Expr} : (Expr.star x).Holds l ↔ x.Holds l := by
  rw [Expr.holds_iff [x] rfl rfl]
  simp

end Trees

/-- Whether something follows from `lo` and implies `hi`. -/
structure Between (lo p hi : Prop) : Prop where
  low : lo → p
  high : p → hi

namespace Between

variable {lo lo' p p' hi hi' : Prop}

theorem refl (p : Prop) : Between p p p := ⟨id, id⟩

theorem or (h : Between lo p hi) (h' : Between lo' p' hi') :
    Between (lo ∨ lo') (p ∨ p') (hi ∨ hi') :=
  ⟨Or.imp h.low h'.low, Or.imp h.high h'.high⟩

theorem swap (h : Between (lo ∨ lo') (p ∨ p') (hi ∨ hi')) :
    Between (lo ∨ lo') (p' ∨ p) (hi ∨ hi') :=
  ⟨fun h' => (h.low h').symm, fun h' => h.high h'.symm⟩

theorem congr (h : Between lo p hi) (hlo : lo ↔ lo') (hp : p ↔ p') (hhi : hi ↔ hi') :
    Between lo' p' hi' :=
  ⟨fun h' => hp.mp (h.low (hlo.mpr h')), fun h' => hhi.mp (h.high (hp.mpr h'))⟩

end Between

section Copies

variable {l : Literal}

/-- A type that is written for all names of a declaration is that of its first name, which the
others share. -/
theorem VarDecl.types_of_shared {d : VarDecl} (h : d.sharedType ≠ .missing) :
    ∃ rest, d.types = .own d.sharedType :: rest ∧ ∀ type ∈ rest, type = .asFirst := by
  unfold sharedType at h ⊢
  cases htypes : d.types with
  | nil => simp [htypes] at h
  | cons first rest =>
      cases first with
      | own type =>
          simp only [htypes] at h ⊢
          split at h
          · rename_i hrest
            refine ⟨rest, by rw [if_pos hrest], fun other hother => ?_⟩
            have hother := List.all_eq_true.mp hrest other hother
            cases other <;> first | rfl | cases hother
          · exact absurd rfl h
      | _ => simp [htypes] at h

theorem VarDecl.exprsHold_writtenTypes {d : VarDecl} :
    ExprsHold l d.writtenTypes ↔
      d.define = false ∧ d.names.any (· != "_") = true ∧ d.sharedType.Holds l := by
  unfold writtenTypes
  split
  · rename_i h
    simp only [Bool.and_eq_true, Bool.not_eq_true'] at h
    simp [h]
  · rename_i h
    simp only [Bool.and_eq_true, Bool.not_eq_true'] at h
    exact iff_of_false not_exprsHold_nil fun h' => h ⟨h'.1, h'.2.1⟩

theorem VarDecl.holds_operands {d : VarDecl} :
    PartsHold Flow.operands l (Flow.declare d).parts ↔
      ExprsHold l d.values ∨ ExprsHold l d.writtenTypes := by
  simp only [Flow.parts, partsHold_cons, partsHold_nil, or_false, Flow.operands]
  rw [← List.map_append, exists_map_expr, exprsHold_append]

theorem VarDecl.holds_trees {d : VarDecl} :
    PartsHold Flow.trees l (Flow.declare d).parts ↔
      ExprsHold l d.values ∨ ExprsHold l (d.types.filterMap DeclType.own?) := by
  simp only [Flow.parts, partsHold_cons, partsHold_nil, or_false, Flow.trees]
  rw [← List.map_append, exists_map_expr, exprsHold_append]

theorem VarDecl.holds_toStmt (d : VarDecl) :
    Between (PartsHold Flow.operands l (Flow.declare d).parts) (d.toStmt.Holds l)
      (PartsHold Flow.trees l (Flow.declare d).parts) := by
  rw [holds_operands, holds_trees, exprsHold_writtenTypes]
  unfold toStmt
  split
  · rename_i hdefine
    rw [Stmt.holds_define]
    exact ⟨fun h => h.resolve_right (by simp [hdefine]), .inl⟩
  · rw [Stmt.holds_decl]
    simp only [SpecsHold, List.mem_singleton, exists_eq_left, Spec.holds_value]
    refine ⟨fun h => h.symm.imp_left fun h => h.2.2, ?_⟩
    rintro (htype | hvalues)
    · obtain ⟨rest, htypes, -⟩ := VarDecl.types_of_shared htype.ne_missing
      exact .inr ⟨_, by simp [htypes, DeclType.own?], htype⟩
    · exact .inl hvalues

theorem Expr.holds_orBlank {e : Expr} : e.orBlank.Holds l ↔ e.Holds l := by
  cases e with
  | missing => exact iff_of_false (not_holds_name "_") not_holds_missing
  | _ => rfl

/-- The statement that takes the next key and value has literals in its targets only. -/
theorem Walk.holds_take (w : Walk) :
    Between (w.define = false ∧ (w.key.Holds l ∨ w.value.Holds l)) (w.take.Holds l)
      (w.key.Holds l ∨ w.value.Holds l) := by
  have hnext : ¬ ExprsHold l [(Expr.name iteratorName).method "Next"] := by
    simp [Expr.method, Expr.holds_call, Expr.holds_sel, Expr.not_holds_name]
  rw [Walk.take_eq]
  cases hbinding : w.binding with
  | true =>
      have hdefine : w.define = true := (Bool.and_eq_true_iff.mp hbinding).1
      simp only [if_true, Stmt.holds_define, hnext, hdefine]
      exact ⟨by simp, False.elim⟩
  | false =>
      simp only [Bool.false_eq_true, if_false, Stmt.holds_set, hnext, or_false, exprsHold_cons,
        Expr.holds_orBlank, not_exprsHold_nil]
      exact ⟨And.right, id⟩

theorem Walk.holds_operands {w : Walk} {body : List Flow} :
    (∃ n ∈ (Flow.walk w body).operands, n.Holds l) ↔
      w.x.Holds l ∨ w.define = false ∧ (w.key.Holds l ∨ w.value.Holds l) := by
  rw [Flow.operands, List.exists_mem_cons_iff]
  cases w.define <;> simp [Expr.Holds]

theorem Walk.holds_trees {w : Walk} {body : List Flow} :
    (∃ n ∈ (Flow.walk w body).trees, n.Holds l) ↔ w.x.Holds l ∨
      (w.key.Holds l ∨ w.value.Holds l) ∨ w.keyType.Holds l ∨ w.valueType.Holds l := by
  simp [Flow.trees, Expr.Holds, or_assoc]

/-- A loop over an iterator has the literals of its header before its body. -/
theorem Walk.holds_header (w : Walk) {body : List Flow} :
    Between (∃ n ∈ (Flow.walk w body).operands, n.Holds l)
      (w.x.Holds l ∨ w.take.Holds l) (∃ n ∈ (Flow.walk w body).trees, n.Holds l) := by
  rw [holds_operands, holds_trees]
  exact .or (.refl _) ⟨w.holds_take.low, fun h => .inl (w.holds_take.high h)⟩

theorem stmtsHold_closeCase {body : List Flow} {stmts : List Stmt} (h : toStmts? body = some stmts)
    (last : Bool) : StmtsHold l (closeCase body stmts last) ↔ StmtsHold l stmts := by
  have hnone := forall_closeCase (P := fun s => ¬ s.Holds l)
    (fun kind => Stmt.not_holds_branch kind none) h last
  rw [← not_iff_not]
  simpa [StmtsHold] using hnone

theorem Expr.holds_test {cond : Expr} :
    (if cond.isMissing then Expr.name "true" else cond).Holds l ↔ cond.Holds l := by
  cases cond with
  | missing => exact iff_of_false (not_holds_name "true") not_holds_missing
  | _ => rfl

theorem exists_expr {e : Expr} : (∃ n ∈ [Node.expr e], n.Holds l) ↔ e.Holds l := by
  simp [Expr.Holds]

/-- The tree of an optional part of a statement. -/
theorem Flow.holds_part {part : Flow} {stmt : Stmt} (h : part.part? = some stmt)
    (hpart : ∀ stmt, part.toStmt? = some stmt →
      Between (PartsHold Flow.operands l part.parts) (stmt.Holds l)
        (PartsHold Flow.trees l part.parts)) :
    Between (PartsHold Flow.operands l (if part.isMissing then [] else part.parts))
      (stmt.Holds l)
      (PartsHold Flow.trees l (if part.isMissing then [] else part.parts)) := by
  unfold Flow.part? at h
  split at h
  · rename_i hmissing
    obtain rfl := Option.some.inj h
    rw [if_pos hmissing]
    exact ⟨fun h => (partsHold_nil h).elim, fun h => (Stmt.not_holds_missing h).elim⟩
  · rename_i hmissing
    rw [if_neg hmissing]
    exact hpart stmt h

/-- What a statement that jumps holds. -/
theorem Flow.holds_none {s : Flow} {stmt : Stmt} (hparts : s.parts = [s]) (hnone : s.operands = [])
    (hnone' : s.trees = []) (hstmt : ¬ stmt.Holds l) :
    Between (PartsHold Flow.operands l s.parts) (stmt.Holds l)
      (PartsHold Flow.trees l s.parts) := by
  simp [hparts, PartsHold, hnone, hnone', hstmt]
  exact ⟨id, id⟩

mutual

/-- The tree of a statement has the literals of the statement. -/
theorem Flow.holds_toStmt (flow : Flow) {stmt : Stmt} (h : flow.toStmt? = some stmt) :
    Between (PartsHold Flow.operands l flow.parts) (stmt.Holds l)
      (PartsHold Flow.trees l flow.parts) := by
  cases flow.hasTree h with
  | @declare d => exact d.holds_toStmt
  | yield =>
      simp only [Flow.parts, partsHold_cons, partsHold_nil, Flow.operands, Flow.trees, exists_expr,
        or_false, Stmt.holds_ret, exprsHold_cons, Expr.holds_call, Expr.not_holds_name,
        not_exprsHold_nil, false_or]
      exact .refl _
  | finish =>
      exact Flow.holds_none rfl rfl rfl (by simp [Stmt.holds_ret, Expr.not_holds_name])
  | brk | cont =>
      exact Flow.holds_none rfl rfl rfl (Stmt.not_holds_branch _ _)
  | lift =>
      simp only [Flow.parts, partsHold_cons, partsHold_nil, Flow.operands, Flow.trees, or_false,
        Stmt.holds_decl, List.mem_map, exists_exists_and_eq_and]
      exact .refl _
  | simple =>
      simp only [Flow.parts, partsHold_cons, partsHold_nil, Flow.operands, Flow.trees, or_false,
        List.mem_singleton, exists_eq_left]
      exact .refl _
  | @block body stmts hbody =>
      simp only [Flow.parts, partsHold_cons, Flow.operands, Flow.trees, List.not_mem_nil, false_and,
        exists_false, false_or, Stmt.holds_block]
      exact flowsHold_toStmts body hbody
  | @labeled label s stmt' hs =>
      simp only [Flow.parts, partsHold_cons, Flow.operands, Flow.trees, List.not_mem_nil, false_and,
        exists_false, false_or, Stmt.holds_labeled]
      exact s.holds_toStmt hs
  | @«while» cond body stmts hbody =>
      simp only [Flow.parts, partsHold_cons, Flow.operands, Flow.trees, exists_expr,
        Stmt.holds_loop, Stmt.not_holds_missing, false_or]
      exact .or (.refl _) (flowsHold_toStmts body hbody)
  | @doWhile cond body stmts hbody =>
      simp only [Flow.parts, partsHold_cons, Flow.operands, Flow.trees, exists_expr,
        Stmt.holds_loop, Stmt.holds_define, Stmt.holds_set, exprsHold_cons, not_exprsHold_nil,
        Expr.not_holds_name, false_or, or_false, Expr.holds_test]
      exact .or (.refl _) (flowsHold_toStmts body hbody)
  | @walk header body stmts hbody =>
      have hstmts := flowsHold_toStmts body hbody
      simp only [Flow.parts, partsHold_cons, Stmt.holds_loop, Stmt.holds_define, Expr.method,
        Expr.holds_call, Expr.holds_sel, exprsHold_cons, not_exprsHold_nil, Expr.not_holds_name,
        Stmt.not_holds_missing, stmtsHold_cons, or_false, false_or]
      rw [← or_assoc]
      refine .or ?_ hstmts
      exact header.holds_header
  | @switch tag cases clauses hcases =>
      simp only [Flow.parts, partsHold_cons, Flow.operands, Flow.trees, List.exists_mem_cons_iff,
        exists_map_expr, Stmt.holds_switch, Stmt.not_holds_missing, false_or, or_assoc]
      exact .or (.refl _) (casesHold_toClauses cases hcases)
  | @ite cond body other stmts other' hbody hother =>
      simp only [Flow.parts, partsHold_cons, partsHold_append, Flow.operands, Flow.trees,
        exists_expr, Stmt.holds_ite, Stmt.not_holds_missing, false_or]
      refine .or (.refl _) (.swap (.or (flowsHold_toStmts body hbody) ?_))
      exact Flow.holds_part hother fun _ => other.holds_toStmt
  | @loop init post cond body init' post' stmts hinit hpost hbody =>
      simp only [Flow.parts, partsHold_cons, partsHold_append, Flow.operands, Flow.trees,
        exists_expr, Stmt.holds_loop]
      rw [or_assoc, or_assoc, @or_left_comm (init'.Holds l)]
      refine .or (.refl _) (.or ?_ (.or ?_ (flowsHold_toStmts body hbody)))
      · exact Flow.holds_part hinit fun _ => init.holds_toStmt
      · exact Flow.holds_part hpost fun _ => post.holds_toStmt

theorem flowsHold_toStmts (fs : List Flow) {stmts : List Stmt} (h : toStmts? fs = some stmts) :
    Between (PartsHold Flow.operands l (flowsParts fs)) (StmtsHold l stmts)
      (PartsHold Flow.trees l (flowsParts fs)) := by
  cases fs with
  | nil =>
      obtain rfl := Option.some.inj h
      exact ⟨fun h => (partsHold_nil h).elim, fun h => (not_stmtsHold_nil h).elim⟩
  | cons f fs =>
      obtain ⟨stmt, rest, hf, hfs, rfl⟩ := return_eq_some₂.mp h
      simp only [flowsParts, partsHold_append, stmtsHold_cons]
      exact (f.holds_toStmt hf).or (flowsHold_toStmts fs hfs)

theorem casesHold_toClauses (cs : List FlowCase) {clauses : List Clause}
    (h : toClauses? cs = some clauses) :
    Between (ExprsHold l (cs.flatMap (·.guard.values)) ∨
        PartsHold Flow.operands l (casesParts cs))
      (∃ c ∈ clauses, Node.Holds l (.clause c))
      (ExprsHold l (cs.flatMap (·.guard.values)) ∨
        PartsHold Flow.trees l (casesParts cs)) := by
  cases cs with
  | nil =>
      obtain rfl := Option.some.inj h
      simp [casesParts, partsHold_nil]
      exact .refl _
  | cons c cs =>
      obtain ⟨clause, rest, hc, hcs, rfl⟩ := return_eq_some₂.mp h
      obtain ⟨hvalues, stmts, hstmts, hbody⟩ := FlowCase.clause_of_toClause hc
      have hhere := c.holds_toStmts hstmts
      simp only [casesParts, partsHold_append, List.flatMap_cons, exprsHold_append]
      rw [List.exists_mem_cons_iff, Clause.holds_iff, hvalues, hbody, stmtsHold_closeCase hstmts]
      refine Between.congr (.or (.or (.refl _) hhere) (casesHold_toClauses cs hcs)) ?_ .rfl ?_
      · exact or_or_or_comm ..
      · exact or_or_or_comm ..

theorem FlowCase.holds_toStmts (c : FlowCase) {stmts : List Stmt}
    (h : toStmts? c.body = some stmts) :
    Between (PartsHold Flow.operands l c.parts) (StmtsHold l stmts)
      (PartsHold Flow.trees l c.parts) := by
  cases c with
  | case values body => exact flowsHold_toStmts body h
  | default body => exact flowsHold_toStmts body h

end

end Copies

end YieldMachine
