import YieldMachine.Proofs.Lowering.Keyed
import YieldMachine.Proofs.Source.Labels
import YieldMachine.Proofs.Source.Pointers

/-!
# Literals of a source

An identifier before a colon in a literal names a field where the recorded type of the literal is
that of a struct; such keys become kept names, and no other names do.  So the literals of a tree,
with their kept keys, are those of the source that it was made of.
-/

namespace YieldMachine

section Trees

variable {l : Literal}

theorem Node.holds_field {names : List String} {ty : Expr} {tag : Option String} :
    Node.Holds l (.field (.mk names ty tag)) ↔ ty.Holds l := by
  rw [Node.holds_iff rfl]
  simp [Node.parts, Field.parts, exprParts, Expr.Holds]

theorem Expr.holds_struct {fs : Fields} :
    (Expr.struct fs).Holds l ↔ ∃ f ∈ fs.toList, Node.Holds l (.field f) := by
  rw [Expr.Holds, Node.holds_iff rfl]
  simp [Node.parts, Expr.parts, fieldParts]

theorem Expr.holds_interface {fs : Fields} :
    (Expr.interface fs).Holds l ↔ (Expr.struct fs).Holds l := by
  rw [holds_struct, Expr.Holds, Node.holds_iff rfl]
  simp [Node.parts, Expr.parts, fieldParts]

theorem Expr.holds_funcType {typeParams params results : Fields} :
    (Expr.funcType (.mk typeParams params results)).Holds l ↔
      (Expr.struct typeParams).Holds l ∨ (Expr.struct params).Holds l ∨
        (Expr.struct results).Holds l := by
  rw [holds_struct, holds_struct, holds_struct, Expr.Holds, Node.holds_iff rfl]
  simp [Node.parts, Expr.parts, Signature.parts, fieldParts, or_and_right, exists_or]

theorem Expr.holds_func {signature : Signature} {body : Stmt} :
    (Expr.func signature body).Holds l ↔
      (Expr.funcType signature).Holds l ∨ body.Holds l := by
  rw [Expr.Holds, Expr.Holds, Node.holds_iff rfl, Node.holds_iff (n := .expr (.funcType _)) rfl]
  simp [Node.parts, Expr.parts, Stmt.Holds, or_and_right, exists_or]

theorem Expr.holds_pair {key value : Expr} :
    (Expr.pair key value).Holds l ↔ key.Holds l ∨ value.Holds l := by
  rw [Expr.holds_iff [key, value] rfl rfl]
  simp

theorem Expr.not_holds_ident (x : String) (kept : Bool) : ¬ (Expr.ident x kept).Holds l := by
  rw [Expr.holds_iff [] rfl rfl]
  simp

theorem Stmt.holds_exprs {s : Stmt} (es : List Expr) (h : s.parts = exprParts [] es) :
    s.Holds l ↔ ExprsHold l es := by
  rw [holds_iff, h, exists_exprParts]

theorem Stmt.exists_guardParts {names : List String} {guard : Stmt} :
    (∃ p ∈ guardParts names guard, p.2.Holds l) ↔
      match guard with
      | .assign _ _ rhs => ExprsHold l rhs
      | .expr x => x.Holds l
      | _ => False := by
  cases guard with
  | assign kind lhs rhs => exact exists_exprParts
  | expr x => simp [guardParts, Expr.Holds]
  | _ => simp [guardParts]

theorem Stmt.holds_typeSwitch {init guard : Stmt} {clauses : List Clause} :
    (Stmt.typeSwitch init guard clauses).Holds l ↔ init.Holds l ∨
      (∃ p ∈ guardParts init.binds guard, p.2.Holds l) ∨
        ∃ c ∈ clauses, Node.Holds l (.clause c) := by
  rw [holds_iff, parts, List.exists_mem_cons_iff, exists_append_parts]
  simp [clauseParts, Stmt.Holds]

theorem Stmt.holds_select {clauses : List CommClause} :
    (Stmt.select clauses).Holds l ↔ ∃ c ∈ clauses, Node.Holds l (.comm c) := by
  rw [holds_iff]
  simp [parts]

theorem Stmt.holds_range {key value x : Expr} {kind : RangeKind} {body : List Stmt} :
    (Stmt.range key value kind x body).Holds l ↔
      (kind ≠ .define ∧ (key.Holds l ∨ value.Holds l)) ∨ x.Holds l ∨
        StmtsHold l body := by
  rw [holds_iff, parts]
  split
  · rename_i h
    rw [List.exists_mem_cons_iff, exists_stmtParts]
    simp [h, Expr.Holds]
  · rename_i h
    rw [exists_append_parts, exists_exprParts, exists_stmtParts]
    simp [h, or_assoc]

theorem Node.holds_comm {action : Stmt} {body : List Stmt} :
    Node.Holds l (.comm (.mk action body)) ↔ action.Holds l ∨ StmtsHold l body := by
  rw [Node.holds_iff rfl, Node.parts, CommClause.parts, List.exists_mem_cons_iff, exists_stmtParts]
  rfl

end Trees

namespace Source

/-- The name before the colon of an element of a literal. -/
def Expr.keyName? : Expr → Option String
  | .mk _ (.pair (.mk _ (.ident id)) _) => some id.name
  | _ => none

/-- The keys of a literal that name fields, in order: where the literal has the recorded type of a
struct, the names before its colons. -/
def literalKeys (site : Site) (elements : List Expr) : List (Option String) :=
  elements.map fun e => if site.isStruct then e.keyName? else none

/-- A literal of the source, with the keys that name fields. -/
def literalOf (site : Site) (ty : Expr) (elements : List Expr) : Literal :=
  ⟨literalKeys site elements, (Expr.mk site (.composite ty elements)).erase⟩

/-- Whether a literal of the source is like this one, with the same keys. -/
def Describes (l : Literal) (site : Site) (ty : Expr) (elements : List Expr) : Prop :=
  (literalOf site ty elements).keys = l.keys ∧
    Node.Alike (.expr (literalOf site ty elements).tree) (.expr l.tree)

/-- The operands of the guard of a type switch. -/
def Stmt.guardPieces : Stmt → List Piece
  | .mk _ (.assign _ _ rhs) => rhs.map .expr
  | .mk _ (.expr x) => [.expr x]
  | _ => []

/-- Whether an identifier denotes a function of the runtime package that marks an element or a
sequence. -/
def Ident.isMark (id : Ident) : Bool := id.usesRuntime "Yield" || id.usesRuntime "Seq"

namespace Piece

/-- The pieces right inside a piece, but for the targets that it defines. -/
def copied : Piece → List Piece
  | .expr (.mk _ (.func head body)) => .signature head :: body.map .stmt
  | .stmt (.mk _ (.assign .define _ rhs)) => rhs.map .expr
  | .stmt (.mk _ (.typeSwitch init guard clauses)) =>
    .stmt init :: guard.guardPieces ++ clauses.map .clause
  | .stmt (.mk _ (.range _ _ .define x body)) => .expr x :: body.map .stmt
  | p => p.pieces

/-- The pieces right inside a piece that are sure to end up in the table.  Others are the targets
that it defines, the type of blank variables, a function of the runtime package that marks its
argument, and the value that ends a generator; and there are places where the language has certain
statements only. -/
def retained : Piece → List Piece
  | .expr (.mk _ (.call fn args _)) =>
    if fn.callee?.any Ident.isMark then args.map .expr else .expr fn :: args.map .expr
  | .stmt (.mk _ (.ret results)) => (results.filter (!·.isNil)).map .expr
  | .stmt (.mk _ (.ite init cond body other)) =>
    .stmt init :: .expr cond :: body.map .stmt ++ if other.isElse then [.stmt other] else []
  | .stmt (.mk _ (.loop init cond post body)) =>
    (if init.isSimple then [.stmt init] else []) ++ .expr cond :: .stmt post :: body.map .stmt
  | .stmt (.mk _ (.decl .var specs)) => (specs.filter Spec.isValue).map .spec
  | .spec (.value names ty values) =>
    (if names.all (·.name == "_") then [] else [.expr ty]) ++ values.map .expr
  | p => p.copied

/-- Whether a piece stands anywhere in another one, in a place that is sure to end up in the
table. -/
inductive Retains : Piece → Piece → Prop
  | here (p : Piece) : Retains p p
  | inside {p q r : Piece} : q ∈ p.retained → Retains q r → Retains p r

/-- Whether such a literal is retained in a piece. -/
def RetainsLiteral (l : Literal) (p : Piece) : Prop :=
  ∃ site ty elements, p.Retains (.expr (.mk site (.composite ty elements))) ∧
    Describes l site ty elements

/-- Whether such a literal stands in a piece. -/
def ContainsLiteral (l : Literal) (p : Piece) : Prop :=
  ∃ literal site ty elements, p.Contains literal (.expr (.mk site (.composite ty elements))) ∧
    Describes l site ty elements

/-- Whether such a literal stands in the tree of a piece. -/
def Holds (l : Literal) : Piece → Prop
  | .ident _ => False
  | .expr e => e.erase.Holds l
  | .signature s => (YieldMachine.Expr.funcType s.erase).Holds l
  | .fields fs => (YieldMachine.Expr.struct fs.erase).Holds l
  | .field f => Node.Holds l (.field f.erase)
  | .stmt s => s.erase.Holds l
  | .clause c => Node.Holds l (.clause c.erase)
  | .comm c => Node.Holds l (.comm c.erase)
  | .spec s => s.erase.Holds l

end Piece

section Erased

variable {l : Literal}

@[simp]
theorem Piece.not_holds_ident (id : Ident) : ¬ (Piece.ident id).Holds l := fun h => h

@[simp]
theorem Piece.holds_expr {e : Expr} : (Piece.expr e).Holds l ↔ e.erase.Holds l := .rfl

@[simp]
theorem Piece.holds_stmt {s : Stmt} : (Piece.stmt s).Holds l ↔ s.erase.Holds l := .rfl

@[simp]
theorem Piece.holds_spec {s : Spec} : (Piece.spec s).Holds l ↔ s.erase.Holds l := .rfl

@[simp]
theorem Piece.holds_fields {fs : Fields} : (Piece.fields fs).Holds l ↔
    (YieldMachine.Expr.struct fs.erase).Holds l := .rfl

theorem exprsHold_eraseExprs {es : List Expr} :
    ExprsHold l (eraseExprs es) ↔ ∃ q ∈ es.map Piece.expr, q.Holds l := by
  induction es with
  | nil => simp [eraseExprs]
  | cons e es ih => simp [eraseExprs, ih, Piece.Holds]

theorem stmtsHold_eraseStmts {ss : List Stmt} :
    StmtsHold l (eraseStmts ss) ↔ ∃ q ∈ ss.map Piece.stmt, q.Holds l := by
  induction ss with
  | nil => simp [eraseStmts]
  | cons s ss ih => simp [eraseStmts, ih, Piece.Holds]

theorem specsHold_eraseSpecs {specs : List Spec} :
    SpecsHold l (eraseSpecs specs) ↔ ∃ q ∈ specs.map Piece.spec, q.Holds l := by
  induction specs with
  | nil => simp [eraseSpecs, SpecsHold]
  | cons s specs ih =>
      rw [eraseSpecs, List.map_cons, SpecsHold, List.exists_mem_cons_iff, List.exists_mem_cons_iff,
        ← ih]
      rfl

theorem exists_eraseClauses {cs : List Clause} :
    (∃ c ∈ eraseClauses cs, Node.Holds l (.clause c)) ↔
      ∃ q ∈ cs.map Piece.clause, q.Holds l := by
  induction cs with
  | nil => simp [eraseClauses]
  | cons c cs ih =>
      rw [eraseClauses, List.map_cons, List.exists_mem_cons_iff, List.exists_mem_cons_iff, ih]
      rfl

theorem exists_eraseComms {cs : List CommClause} :
    (∃ c ∈ eraseComms cs, Node.Holds l (.comm c)) ↔ ∃ q ∈ cs.map Piece.comm, q.Holds l := by
  induction cs with
  | nil => simp [eraseComms]
  | cons c cs ih =>
      rw [eraseComms, List.map_cons, List.exists_mem_cons_iff, List.exists_mem_cons_iff, ih]
      rfl

theorem exists_eraseFields {fs : List Field} :
    (∃ f ∈ eraseFields fs, Node.Holds l (.field f)) ↔
      ∃ q ∈ fs.map Piece.field, q.Holds l := by
  induction fs with
  | nil => simp [eraseFields]
  | cons f fs ih =>
      rw [eraseFields, List.map_cons, List.exists_mem_cons_iff, List.exists_mem_cons_iff, ih]
      rfl

/-- No name becomes a kept one but in an element of a literal. -/
theorem Expr.erase_ne_kept (e : Expr) (x : String) : e.erase ≠ .ident x true := by
  cases e with
  | missing => nofun
  | mk site form => cases form <;> nofun

theorem Expr.keptKey?_erase (e : Expr) : e.erase.keptKey? = none := by
  rw [Option.eq_none_iff_forall_ne_some]
  intro x hx
  obtain ⟨value', heq⟩ := YieldMachine.Expr.keptKey?_eq_some.mp hx
  cases e with
  | missing => cases heq
  | mk site form =>
      cases form with
      | pair key value => exact key.erase_ne_kept x (YieldMachine.Expr.pair.inj heq).1
      | _ => cases heq

/-- An element has an identifier before its colon, or is erased like any expression. -/
theorem eraseElements_cons (e : Expr) (es : List Expr) :
    (∃ site place id value, e = .mk site (.pair (.mk place (.ident id)) value)) ∨
      e.keyName? = none ∧
        ∀ keyed, eraseElements keyed (e :: es) = e.erase :: eraseElements keyed es := by
  by_cases h : ∃ site place id value, e = .mk site (.pair (.mk place (.ident id)) value)
  · exact .inl h
  · have hne : ∀ site place id value, e ≠ .mk site (.pair (.mk place (.ident id)) value) :=
      fun site place id value heq => h ⟨site, place, id, value, heq⟩
    refine .inr ⟨?_, fun keyed => ?_⟩
    · unfold Expr.keyName?
      split
      · exact absurd rfl (hne _ _ _ _)
      · rfl
    · rw [eraseElements]
      exact hne

theorem map_keptKey?_eraseElements (keyed : Bool) (elements : List Expr) :
    (eraseElements keyed elements).map YieldMachine.Expr.keptKey? =
      elements.map fun e => if keyed then e.keyName? else none := by
  induction elements with
  | nil => rfl
  | cons e es ih =>
      rw [List.map_cons, ← ih]
      rcases eraseElements_cons e es with ⟨site, place, id, value, rfl⟩ | ⟨hname, herase⟩
      · cases keyed <;> rfl
      · rw [herase, List.map_cons, e.keptKey?_erase, hname, ite_self]

theorem exprsHold_eraseElements {keyed : Bool} {elements : List Expr} :
    ExprsHold l (eraseElements keyed elements) ↔ ExprsHold l (eraseExprs elements) := by
  induction elements with
  | nil => rfl
  | cons e es ih =>
      rcases eraseElements_cons e es with ⟨site, place, id, value, rfl⟩ | ⟨-, herase⟩
      · simp only [eraseElements, eraseExprs, Expr.erase, Form.erase, exprsHold_cons, ih,
          YieldMachine.Expr.holds_pair, YieldMachine.Expr.not_holds_ident,
          YieldMachine.Expr.not_holds_name]
      · rw [herase, eraseExprs, exprsHold_cons, exprsHold_cons, ih]

/-- The tree of an expression that is no literal holds what the trees of its operands hold. -/
theorem Piece.holds_exprs {site : Site} {form : Form} (es : List Expr)
    (h : Node.keptKeys? (.expr (form.erase site.isStruct)) = none)
    (hparts : (form.erase site.isStruct).parts = exprParts [] (eraseExprs es)) :
    (Piece.expr (.mk site form)).Holds l ↔ ∃ q ∈ es.map Piece.expr, q.Holds l := by
  rw [← exprsHold_eraseExprs]
  exact YieldMachine.Expr.holds_iff (eraseExprs es) h hparts

theorem Piece.holds_literal {site : Site} {ty : Expr} {elements : List Expr} :
    (Piece.expr (.mk site (.composite ty elements))).Holds l ↔
      Describes l site ty elements ∨
        ∃ q ∈ (Piece.expr (.mk site (.composite ty elements))).copied, q.Holds l := by
  show _ ↔ _ ∨ ∃ q ∈ Piece.expr ty :: elements.map .expr, q.Holds l
  rw [List.exists_mem_cons_iff, ← exprsHold_eraseExprs, ← exprsHold_eraseElements]
  exact YieldMachine.Expr.holds_composite.trans
    (or_congr_left (by rw [map_keptKey?_eraseElements]; rfl))

theorem Piece.exists_append_pieces {ps qs : List Piece} :
    (∃ q ∈ ps ++ qs, q.Holds l) ↔ (∃ q ∈ ps, q.Holds l) ∨ ∃ q ∈ qs, q.Holds l := by
  simp only [List.mem_append, or_and_right, exists_or]

theorem Piece.not_holds_idents {ids : List Ident} :
    ¬ ∃ q ∈ ids.map Piece.ident, q.Holds l := by
  simp [Holds]

theorem Stmt.holds_guardPieces {names : List String} (guard : Stmt) :
    (∃ p ∈ guardParts names guard.erase, p.2.Holds l) ↔
      ∃ q ∈ guard.guardPieces, q.Holds l := by
  rw [YieldMachine.Stmt.exists_guardParts]
  cases guard with
  | missing => simp [Stmt.erase, guardPieces]
  | mk pos form =>
      cases form with
      | assign kind lhs rhs => exact exprsHold_eraseExprs
      | expr x => simp [Stmt.erase, StmtForm.erase, guardPieces, Piece.Holds]
      | _ => simp [Stmt.erase, StmtForm.erase, guardPieces]

/-- The tree of a statement that is made of expressions holds what they hold. -/
theorem StmtForm.holds_exprs {pos : Pos} {form : StmtForm} (es : List Expr)
    (hparts : form.erase.parts = exprParts [] (eraseExprs es)) :
    (Piece.stmt (.mk pos form)).Holds l ↔ ∃ q ∈ es.map Piece.expr, q.Holds l := by
  rw [← exprsHold_eraseExprs]
  exact YieldMachine.Stmt.holds_exprs (eraseExprs es) hparts

/-- The tree of a statement holds what the trees of the pieces inside hold. -/
theorem StmtForm.holds_copied (form : StmtForm) (pos : Pos) :
    (Piece.stmt (.mk pos form)).Holds l ↔
      ∃ q ∈ (Piece.stmt (.mk pos form)).copied, q.Holds l := by
  cases form with
  | empty | branch kind label => exact holds_exprs [] rfl
  | expr x | incDec increment x | go x | «defer» x => exact holds_exprs [x] rfl
  | send x y => exact holds_exprs [x, y] rfl
  | ret results => exact holds_exprs results rfl
  | assign kind lhs rhs =>
      cases kind with
      | define => exact holds_exprs rhs rfl
      | _ =>
          simp only [Piece.copied, Piece.pieces, StmtForm.pieces, Piece.exists_append_pieces,
            ← exprsHold_eraseExprs]
          exact YieldMachine.Stmt.holds_assign (by simp)
  | block body => exact YieldMachine.Stmt.holds_block.trans stmtsHold_eraseStmts
  | ite init cond body other =>
      refine YieldMachine.Stmt.holds_ite.trans ?_
      simp only [Piece.copied, Piece.pieces, StmtForm.pieces, List.cons_append,
        List.exists_mem_cons_iff, Piece.exists_append_pieces, ← stmtsHold_eraseStmts,
        List.not_mem_nil, false_and, exists_false, or_false, Piece.holds_stmt, Piece.holds_expr]
      exact or_congr_right (or_congr_right or_comm)
  | switch init tag clauses =>
      refine YieldMachine.Stmt.holds_switch.trans ?_
      simp only [Piece.copied, Piece.pieces, StmtForm.pieces, List.exists_mem_cons_iff,
        exists_eraseClauses, Piece.holds_stmt, Piece.holds_expr]
  | typeSwitch init guard clauses =>
      refine YieldMachine.Stmt.holds_typeSwitch.trans ?_
      simp only [Piece.copied, List.cons_append, List.exists_mem_cons_iff,
        Piece.exists_append_pieces, exists_eraseClauses, guard.holds_guardPieces, Piece.holds_stmt]
  | select clauses => exact YieldMachine.Stmt.holds_select.trans exists_eraseComms
  | loop init cond post body =>
      refine YieldMachine.Stmt.holds_loop.trans ?_
      simp only [Piece.copied, Piece.pieces, StmtForm.pieces, List.exists_mem_cons_iff,
        ← stmtsHold_eraseStmts, Piece.holds_stmt, Piece.holds_expr]
  | range key value kind x body =>
      refine YieldMachine.Stmt.holds_range.trans ?_
      cases kind with
      | define =>
          simp only [Piece.copied, List.exists_mem_cons_iff, ← stmtsHold_eraseStmts,
            Piece.holds_expr, ne_eq, not_true_eq_false, false_and, false_or]
      | _ =>
          simp only [Piece.copied, Piece.pieces, StmtForm.pieces, List.exists_mem_cons_iff,
            ← stmtsHold_eraseStmts, Piece.holds_expr]
          simp [or_assoc]
  | labeled label stmt =>
      refine YieldMachine.Stmt.holds_labeled.trans ?_
      simp [Piece.copied, Piece.pieces, StmtForm.pieces]
  | decl kind specs => exact YieldMachine.Stmt.holds_decl.trans specsHold_eraseSpecs

/-- The tree of a piece that is no literal holds what the trees of the pieces inside hold. -/
theorem Piece.holds_copied {p : Piece}
    (h : ∀ site ty elements, p ≠ .expr (.mk site (.composite ty elements))) :
    p.Holds l ↔ ∃ q ∈ p.copied, q.Holds l := by
  cases p with
  | ident id => simp [Holds, copied, pieces]
  | expr e =>
      cases e with
      | missing => simp [Holds, copied, pieces, Expr.erase, YieldMachine.Expr.not_holds_missing]
      | mk site form =>
          cases form with
          | composite ty elements => exact absurd rfl (h site ty elements)
          | ident id =>
              rw [holds_exprs [] rfl rfl]
              simp [copied, pieces, Form.pieces]
          | sel x member =>
              rw [holds_exprs [x] rfl rfl]
              simp [copied, pieces, Form.pieces]
          | lit kind text => exact holds_exprs [] rfl rfl
          | star x | unary op x | paren x | chan direction x | ellipsis x =>
              exact holds_exprs [x] rfl rfl
          | index x y | assert x y | binary op x y | pair x y | array x y | map x y =>
              exact holds_exprs [x, y] rfl rfl
          | indexList x ys | call x ys spread => exact holds_exprs (x :: ys) rfl rfl
          | slice x low high max three => exact holds_exprs [x, low, high, max] rfl rfl
          | func head body =>
              simp only [copied, List.exists_mem_cons_iff, ← stmtsHold_eraseStmts]
              exact YieldMachine.Expr.holds_func.trans
                (or_congr_right YieldMachine.Stmt.holds_block)
          | funcType head => simp [copied, pieces, Form.pieces, Holds, Expr.erase, Form.erase]
          | struct fields => simp [copied, pieces, Form.pieces, Holds, Expr.erase, Form.erase]
          | interface fields =>
              simp [copied, pieces, Form.pieces, Holds, Expr.erase, Form.erase,
                YieldMachine.Expr.holds_interface]
  | signature s =>
      obtain ⟨typeParams, params, results⟩ := s
      simp [copied, pieces, Holds, Signature.erase, YieldMachine.Expr.holds_funcType]
  | fields fs =>
      cases fs with
      | absent => simp [copied, pieces, Holds, Fields.erase, YieldMachine.Expr.holds_struct,
          Fields.toList, YieldMachine.Fields.toList]
      | list fs =>
          exact YieldMachine.Expr.holds_struct.trans exists_eraseFields
  | field f =>
      obtain ⟨names, ty, tag⟩ := f
      simp [copied, pieces, Holds, Field.erase, Node.holds_field, or_and_right, exists_or]
  | clause c =>
      cases c with
      | case values body =>
          simp only [copied, pieces, exists_append_pieces, ← exprsHold_eraseExprs,
            ← stmtsHold_eraseStmts]
          exact Clause.holds_iff
      | default body =>
          refine Clause.holds_iff.trans ?_
          simp [Clause.erase, YieldMachine.Clause.values, YieldMachine.Clause.body, copied, pieces,
            stmtsHold_eraseStmts]
  | comm c =>
      obtain ⟨action, body⟩ := c
      simp only [copied, pieces, List.exists_mem_cons_iff, ← stmtsHold_eraseStmts]
      exact Node.holds_comm
  | spec s =>
      cases s with
      | value names ty values =>
          simp only [copied, pieces, exists_append_pieces, List.exists_mem_cons_iff,
            ← exprsHold_eraseExprs, not_holds_idents, false_or]
          exact YieldMachine.Spec.holds_value
      | type name typeParams isAlias ty =>
          refine YieldMachine.Spec.holds_type.trans ?_
          simp [copied, pieces, Holds, or_comm]
      | imported name path =>
          simp [copied, pieces, Holds, Spec.erase, YieldMachine.Spec.not_holds_imported]
  | stmt s =>
      cases s with
      | missing => simp [Holds, copied, pieces, Stmt.erase, YieldMachine.Stmt.not_holds_missing]
      | mk pos form => exact form.holds_copied pos

/-- The guard of a type switch holds what its operands hold. -/
theorem Stmt.holds_of_guardPieces {guard : Stmt} {q : Piece} (hq : q ∈ guard.guardPieces)
    (h : q.Holds l) : (Piece.stmt guard).Holds l := by
  cases guard with
  | missing => cases hq
  | mk pos form =>
      refine (form.holds_copied pos).mpr ⟨q, ?_, h⟩
      cases form with
      | assign kind lhs rhs =>
          cases kind with
          | define => exact hq
          | _ => exact List.mem_append_right _ hq
      | expr x => exact hq
      | _ => cases hq

namespace Piece

variable {p q : Piece}

/-- What is in a piece that is copied is right inside. -/
theorem exists_step_of_copied (hq : q ∈ p.copied) (h : q.Holds l) :
    ∃ entered r, (entered, r) ∈ p.steps ∧ r.Holds l := by
  have hpiece : ∀ {r : Piece}, r ∈ p.pieces → r.Holds l →
      ∃ entered r, (entered, r) ∈ p.steps ∧ r.Holds l :=
    fun hr h => ⟨false, _, mem_steps_of_mem_pieces hr, h⟩
  unfold copied at hq
  split at hq
  · rcases List.mem_cons.mp hq with rfl | hq
    · exact ⟨false, _, .head _, h⟩
    · obtain ⟨s, hs, rfl⟩ := List.mem_map.mp hq
      exact ⟨true, _, List.mem_cons_of_mem _ (List.mem_map_of_mem hs), h⟩
  · exact hpiece (List.mem_append_right _ hq) h
  · rename_i pos init guard clauses
    simp only [List.cons_append, List.mem_cons, List.mem_append] at hq
    rcases hq with rfl | hq | hq
    · exact hpiece (.head _) h
    · exact hpiece (.tail _ (.head _)) (guard.holds_of_guardPieces hq h)
    · exact hpiece (.tail _ (.tail _ hq)) h
  · rcases List.mem_cons.mp hq with rfl | hq
    · exact hpiece (.tail _ (.tail _ (.head _))) h
    · exact hpiece (.tail _ (.tail _ (.tail _ hq))) h
  · exact hpiece hq h

/-- The literals of a tree are those of the source. -/
theorem containsLiteral_of_holds (h : p.Holds l) : p.ContainsLiteral l := by
  induction p using inward with
  | h p ih =>
      have hinside : (∃ q ∈ p.copied, q.Holds l) → p.ContainsLiteral l := by
        rintro ⟨q, hq, hholds⟩
        obtain ⟨entered, r, hr, hholds⟩ := exists_step_of_copied hq hholds
        obtain ⟨literal, site, ty, elements, hcontains, hkeys⟩ := ih entered r hr hholds
        exact ⟨_, site, ty, elements, .inside hr hcontains, hkeys⟩
      by_cases hliteral : ∃ site ty elements, p = .expr (.mk site (.composite ty elements))
      · obtain ⟨site, ty, elements, rfl⟩ := hliteral
        rcases holds_literal.mp h with hkeys | h
        · exact ⟨false, site, ty, elements, .here _, hkeys⟩
        · exact hinside h
      · refine hinside ((holds_copied fun site ty elements hp => ?_).mp h)
        exact hliteral ⟨site, ty, elements, hp⟩

theorem holds_of_copied (hq : q ∈ p.copied) (h : q.Holds l) : p.Holds l := by
  by_cases hliteral : ∃ site ty elements, p = .expr (.mk site (.composite ty elements))
  · obtain ⟨site, ty, elements, rfl⟩ := hliteral
    exact holds_literal.mpr (.inr ⟨q, hq, h⟩)
  · refine (holds_copied fun site ty elements hp => ?_).mpr ⟨q, hq, h⟩
    exact hliteral ⟨site, ty, elements, hp⟩

theorem retained_subset (p : Piece) : p.retained ⊆ p.copied := by
  intro q hq
  unfold retained at hq
  split at hq
  · split at hq
    · exact .tail _ hq
    · exact hq
  · obtain ⟨e, he, rfl⟩ := List.mem_map.mp hq
    exact List.mem_map_of_mem (List.mem_filter.mp he).1
  · split at hq
    · exact hq
    · rw [List.append_nil] at hq
      exact List.mem_append_left _ hq
  · split at hq
    · exact hq
    · exact .tail _ hq
  · obtain ⟨spec, hspec, rfl⟩ := List.mem_map.mp hq
    exact List.mem_map_of_mem (List.mem_filter.mp hspec).1
  · refine List.mem_append_right _ ?_
    split at hq
    · exact .tail _ hq
    · exact hq
  · exact hq

/-- A literal that is retained is in the tree. -/
theorem holds_of_retainsLiteral (h : p.RetainsLiteral l) : p.Holds l := by
  obtain ⟨site, ty, elements, hretains, hkeys⟩ := h
  generalize hr : Piece.expr (.mk site (.composite ty elements)) = r at hretains
  induction hretains with
  | here p =>
      subst hr
      exact holds_literal.mpr (.inl hkeys)
  | inside hq _ ih => exact holds_of_copied (retained_subset _ hq) (ih hr)

end Piece

end Erased

end Source

end YieldMachine
