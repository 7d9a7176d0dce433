import YieldMachine.Proofs.Scope.Redeclared

/-!
# Labels of branches

A labelled break names the label right before a loop, a switch or a select around it, and a
labelled continue the label right before a loop around it.  `Node.Targeted` says so of all branches
in a tree, and `Flow.Targeted` of those in a statement of a generator body.  The tree of a statement
keeps the labels where they are: its branches have targets exactly when those of the statement do.
-/

namespace YieldMachine

/-- What branches may name at a place in a tree. -/
structure LabelScope where
  /-- the labels that a break may name -/
  brk : List String
  /-- the labels that a continue may name -/
  cont : List String
  /-- the label right before the place -/
  label : Option String
  /-- whether a switch whose header has a first part is no target, as in a block of its own -/
  moves : Bool

namespace LabelScope

/-- The place of a statement by itself, or of the body of a function literal. -/
def outside : LabelScope := ⟨[], [], none, false⟩

/-- A place inside a statement that is no target. -/
def inside (p : LabelScope) : LabelScope := { p with label := none }

/-- A place inside a loop. -/
def inLoop (p : LabelScope) : LabelScope :=
  { p with brk := p.label.toList ++ p.brk, cont := p.label.toList ++ p.cont, label := none }

/-- A place inside a switch or a select. -/
def inCases (p : LabelScope) : LabelScope :=
  { p with brk := p.label.toList ++ p.brk, label := none }

/-- The place right after a label. -/
def after (p : LabelScope) (label : String) : LabelScope := { p with label := some label }

/-- The same place where every switch is a target. -/
def kept (p : LabelScope) : LabelScope := { p with moves := false }

variable (p : LabelScope)

@[simp]
theorem inside_inside : p.inside.inside = p.inside := rfl

@[simp]
theorem label_inside : p.inside.label = none := rfl

@[simp]
theorem label_after (label : String) : (p.after label).label = some label := rfl

@[simp]
theorem moves_after (label : String) : (p.after label).moves = p.moves := rfl

@[simp]
theorem brk_inside : p.inside.brk = p.brk := rfl

@[simp]
theorem brk_inLoop : p.inLoop.brk = p.label.toList ++ p.brk := rfl

@[simp]
theorem brk_inCases : p.inCases.brk = p.label.toList ++ p.brk := rfl

@[simp]
theorem brk_after (label : String) : (p.after label).brk = p.brk := rfl

theorem inside_of_label (h : p.label = none) : p.inside = p := by
  obtain ⟨brk, cont, label, moves⟩ := p
  obtain rfl : label = none := h
  rfl

end LabelScope

/-- The place of the parts of a statement. -/
def Stmt.within (p : LabelScope) : Stmt → LabelScope
  | .loop _ _ _ _ | .range _ _ _ _ _ => p.inLoop
  | .switch init _ _ => if p.moves && !init.isMissing then p.inside else p.inCases
  | .typeSwitch _ _ _ | .select _ => p.inCases.kept
  | .labeled label _ => p.after label
  | _ => p.inside

/-- The place of the parts of a node.  Branches do not leave a function literal. -/
def Node.within (p : LabelScope) : Node → LabelScope
  | .stmt s => s.within p
  | .expr (.func _ _) => .outside
  | _ => p.inside

/-- Whether a statement names a target if it is a labelled branch.  An empty label stands for
none. -/
def Stmt.NamesTarget (p : LabelScope) : Stmt → Prop
  | .branch .brk (some label) => label = "" ∨ label ∈ p.brk
  | .branch .cont (some label) => label = "" ∨ label ∈ p.cont
  | _ => True

/-- Whether a node names a target if it is a labelled branch. -/
def Node.NamesTarget (p : LabelScope) : Node → Prop
  | .stmt s => s.NamesTarget p
  | _ => True

/-- Whether every labelled branch in a node has a target. -/
inductive Node.Targeted : LabelScope → Node → Prop where
  | intro {p : LabelScope} {n : Node} (own : n.NamesTarget p)
      (parts : ∀ q ∈ n.parts, Targeted (n.within p) q.2) : Targeted p n

/-- Whether every labelled branch in the function literals of an expression has a target. -/
def Expr.Targeted (e : Expr) : Prop := (Node.expr e).Targeted .outside

namespace Node

theorem targeted_iff {p : LabelScope} {n : Node} :
    n.Targeted p ↔ n.NamesTarget p ∧ ∀ m ∈ n.parts.map Prod.snd, m.Targeted (n.within p) := by
  constructor
  · rintro ⟨own, parts⟩
    exact ⟨own, List.forall_mem_map.mpr parts⟩
  · rintro ⟨own, parts⟩
    exact ⟨own, List.forall_mem_map.mp parts⟩

theorem targeted_stmt {p : LabelScope} {s : Stmt} :
    (Node.stmt s).Targeted p ↔
      s.NamesTarget p ∧ ∀ m ∈ s.parts.map Prod.snd, m.Targeted (s.within p) := targeted_iff

/-- Whether a node is no branch and has statements below it in function literals only. -/
def isPlain : Node → Bool
  | .expr _ | .field _ | .spec _ => true
  | .stmt s =>
    match s with
    | .missing | .empty | .expr _ | .send _ _ | .incDec _ _ | .assign _ _ _ | .go _ | .defer _
    | .ret _ | .decl _ _ => true
    | _ => false
  | _ => false

/-- Whether a node is a function literal. -/
def isLiteral : Node → Bool
  | .expr (.func _ _) => true
  | _ => false

theorem isPlain_exprParts {names : List String} {es : List Expr} :
    ∀ q ∈ exprParts names es, q.2.isPlain = true := by
  simp [exprParts, isPlain]

theorem isPlain_fieldParts {names : List String} {fs : Fields} :
    ∀ q ∈ fieldParts names fs, q.2.isPlain = true := by
  simp [fieldParts, isPlain]

theorem isPlain_specParts {names : List String} {ss : List Spec} :
    ∀ q ∈ specParts names ss, q.2.isPlain = true := by
  induction ss generalizing names with
  | nil => exact List.forall_mem_nil _
  | cons s ss ih => exact List.forall_mem_cons.mpr ⟨rfl, ih⟩

theorem isPlain_signatureParts {sig : Signature} : ∀ q ∈ sig.parts, q.2.isPlain = true := by
  obtain ⟨typeParams, params, results⟩ := sig
  simp only [Signature.parts, List.forall_mem_append]
  exact ⟨⟨isPlain_fieldParts, isPlain_fieldParts⟩, isPlain_fieldParts⟩

theorem isPlain_parts {n : Node} (hplain : n.isPlain = true) (hliteral : n.isLiteral = false) :
    ∀ q ∈ n.parts, q.2.isPlain = true := by
  cases n with
  | expr e =>
      cases e with
      | func signature body => cases hliteral
      | funcType signature => exact isPlain_signatureParts
      | struct fields | interface fields => exact isPlain_fieldParts
      | missing | ident name kept | lit kind text => exact List.forall_mem_nil _
      | _ => exact isPlain_exprParts
  | field f =>
      obtain ⟨names, type, tag⟩ := f
      exact isPlain_exprParts
  | spec s =>
      cases s with
      | value names type values => exact isPlain_exprParts
      | type name typeParams isAlias type =>
          simp only [parts, Spec.parts, List.forall_mem_cons]
          exact ⟨rfl, isPlain_fieldParts⟩
      | imported name path => exact List.forall_mem_nil _
  | stmt s =>
      cases s with
      | missing | empty => exact List.forall_mem_nil _
      | assign kind lhs rhs =>
          exact List.forall_mem_append.mpr ⟨isPlain_exprParts, isPlain_exprParts⟩
      | decl kind specs => exact isPlain_specParts
      | expr | send | incDec | go | «defer» | ret => exact isPlain_exprParts
      | _ => cases hplain
  | _ => cases hplain

theorem namesTarget_of_isPlain {p : LabelScope} {n : Node} (h : n.isPlain = true) :
    n.NamesTarget p := by
  cases n with
  | stmt s =>
      cases s with
      | branch kind label => cases h
      | _ => trivial
  | _ => trivial

theorem within_eq_of_isLiteral {n : Node} (h : n.isLiteral = true) (p q : LabelScope) :
    n.within p = n.within q := by
  cases n with
  | expr e =>
      cases e with
      | func signature body => rfl
      | _ => cases h
  | _ => cases h

/-- It does not matter where a plain node stands. -/
theorem Targeted.of_isPlain {p : LabelScope} {n : Node} (h : n.Targeted p)
    (hplain : n.isPlain = true) (q : LabelScope) : n.Targeted q := by
  induction h generalizing q with
  | @intro p n own parts ih =>
      refine .intro (namesTarget_of_isPlain hplain) fun part hpart => ?_
      cases hliteral : n.isLiteral with
      | true =>
          rw [within_eq_of_isLiteral hliteral q p]
          exact parts part hpart
      | false => exact ih part hpart (isPlain_parts hplain hliteral part hpart) _

@[simp]
theorem targeted_expr {p : LabelScope} {e : Expr} : (Node.expr e).Targeted p ↔ e.Targeted :=
  ⟨fun h => h.of_isPlain rfl _, fun h => h.of_isPlain rfl _⟩

/-- An expression that is no function literal. -/
theorem targeted_iff_of_isLiteral {e : Expr} (h : (Node.expr e).isLiteral = false) :
    e.Targeted ↔ ∀ m ∈ e.parts.map Prod.snd, m.Targeted .outside := by
  have hwithin : (Node.expr e).within .outside = .outside := by
    cases e with
    | func signature body => cases h
    | _ => rfl
  rw [Expr.Targeted, targeted_iff, hwithin]
  exact and_iff_right trivial

@[simp]
theorem targeted_field {p : LabelScope} {names : List String} {type : Expr}
    {tag : Option String} : (Node.field (.mk names type tag)).Targeted p ↔ type.Targeted := by
  rw [targeted_iff, and_iff_right (by trivial)]
  simp [parts, Field.parts, map_snd_exprParts]

@[simp]
theorem targeted_missing {p : LabelScope} : (Node.stmt .missing).Targeted p :=
  targeted_stmt.mpr ⟨trivial, by simp [Stmt.parts]⟩

@[simp]
theorem targeted_clause {p : LabelScope} {c : Clause} :
    (Node.clause c).Targeted p ↔
      (∀ e ∈ c.values, e.Targeted) ∧ ∀ s ∈ c.body, (Node.stmt s).Targeted p.inside := by
  rw [targeted_iff, and_iff_right (by trivial)]
  cases c <;>
    simp [parts, within, Clause.parts, Clause.values, Clause.body, map_snd_exprParts,
      map_snd_stmtParts, or_imp, forall_and]

@[simp]
theorem targeted_assign {p : LabelScope} {kind : AssignKind} {lhs rhs : List Expr} :
    (Node.stmt (.assign kind lhs rhs)).Targeted p ↔
      (kind ≠ .define → ∀ e ∈ lhs, e.Targeted) ∧ ∀ e ∈ rhs, e.Targeted := by
  rw [targeted_stmt, and_iff_right (by trivial)]
  by_cases h : kind = .define <;>
    simp [Stmt.parts, map_snd_exprParts, h, or_imp, forall_and]

@[simp]
theorem targeted_branch {p : LabelScope} {kind : BranchKind} {label : Option String} :
    (Node.stmt (.branch kind label)).Targeted p ↔ (Stmt.branch kind label).NamesTarget p := by
  rw [targeted_stmt]
  simp [Stmt.parts]

theorem targeted_unlabelled {p : LabelScope} (kind : BranchKind) :
    (Node.stmt (.branch kind none)).Targeted p := by
  rw [targeted_branch]
  cases kind <;> trivial

theorem targeted_exprStmt {p : LabelScope} {e : Expr} :
    (Node.stmt (.expr e)).Targeted p ↔ e.Targeted := by
  rw [targeted_stmt, and_iff_right (by trivial)]
  simp [Stmt.parts, map_snd_exprParts]

theorem targeted_ret {p : LabelScope} {results : List Expr} :
    (Node.stmt (.ret results)).Targeted p ↔ ∀ e ∈ results, e.Targeted := by
  rw [targeted_stmt, and_iff_right (by trivial)]
  simp [Stmt.parts, map_snd_exprParts]

theorem targeted_decl {p : LabelScope} {kind : DeclKind} {specs : List Spec} :
    (Node.stmt (.decl kind specs)).Targeted p ↔ ∀ s ∈ specs, (Node.spec s).Targeted p.inside := by
  rw [targeted_stmt, and_iff_right (by trivial)]
  simp [Stmt.parts, Stmt.within, map_snd_specParts]

theorem targeted_value {p : LabelScope} {names : List String} {type : Expr}
    {values : List Expr} :
    (Node.spec (.value names type values)).Targeted p ↔
      type.Targeted ∧ ∀ e ∈ values, e.Targeted := by
  rw [targeted_iff, and_iff_right (by trivial)]
  simp [parts, Spec.parts, map_snd_exprParts]

@[simp]
theorem targeted_block {p : LabelScope} {body : List Stmt} :
    (Node.stmt (.block body)).Targeted p ↔ ∀ s ∈ body, (Node.stmt s).Targeted p.inside := by
  rw [targeted_stmt, and_iff_right (by trivial)]
  simp [Stmt.parts, Stmt.within, map_snd_stmtParts]

theorem targeted_ite {p : LabelScope} {init other : Stmt} {cond : Expr} {body : List Stmt} :
    (Node.stmt (.ite init cond body other)).Targeted p ↔
      (Node.stmt init).Targeted p.inside ∧ cond.Targeted ∧
        (∀ s ∈ body, (Node.stmt s).Targeted p.inside) ∧ (Node.stmt other).Targeted p.inside := by
  rw [targeted_stmt, and_iff_right (by trivial)]
  simp [Stmt.parts, Stmt.within, map_snd_stmtParts, and_comm]

@[simp]
theorem targeted_loop {p : LabelScope} {init post : Stmt} {cond : Expr} {body : List Stmt} :
    (Node.stmt (.loop init cond post body)).Targeted p ↔
      (Node.stmt init).Targeted p.inLoop ∧ cond.Targeted ∧ (Node.stmt post).Targeted p.inLoop ∧
        ∀ s ∈ body, (Node.stmt s).Targeted p.inLoop := by
  rw [targeted_stmt, and_iff_right (by trivial)]
  simp [Stmt.parts, Stmt.within, map_snd_stmtParts]

theorem targeted_range {p : LabelScope} {key value x : Expr} {kind : RangeKind}
    {body : List Stmt} :
    (Node.stmt (.range key value kind x body)).Targeted p ↔
      (kind ≠ .define → key.Targeted ∧ value.Targeted) ∧ x.Targeted ∧
        ∀ s ∈ body, (Node.stmt s).Targeted p.inLoop := by
  rw [targeted_stmt, and_iff_right (by trivial)]
  by_cases h : kind = .define <;>
    simp [Stmt.parts, Stmt.within, map_snd_exprParts, map_snd_stmtParts, h, and_assoc, or_imp,
      forall_and]

@[simp]
theorem targeted_switch {p : LabelScope} {init : Stmt} {tag : Expr} {clauses : List Clause} :
    (Node.stmt (.switch init tag clauses)).Targeted p ↔
      (Node.stmt init).Targeted ((Stmt.switch init tag clauses).within p) ∧ tag.Targeted ∧
        ∀ c ∈ clauses, (Node.clause c).Targeted ((Stmt.switch init tag clauses).within p) := by
  rw [targeted_stmt, and_iff_right (by trivial)]
  simp [Stmt.parts, clauseParts]

@[simp]
theorem targeted_labeled {p : LabelScope} {label : String} {s : Stmt} :
    (Node.stmt (.labeled label s)).Targeted p ↔ (Node.stmt s).Targeted (p.after label) := by
  rw [targeted_stmt, and_iff_right (by trivial)]
  simp [Stmt.parts, Stmt.within]

end Node

namespace Expr

@[simp]
theorem targeted_missing : Expr.missing.Targeted :=
  (Node.targeted_iff_of_isLiteral rfl).mpr (by simp [parts])

@[simp]
theorem targeted_ident (x : String) (kept : Bool) : (Expr.ident x kept).Targeted :=
  (Node.targeted_iff_of_isLiteral rfl).mpr (by simp [parts])

@[simp]
theorem targeted_lit (kind : LitKind) (text : String) : (Expr.lit kind text).Targeted :=
  (Node.targeted_iff_of_isLiteral rfl).mpr (by simp [parts])

@[simp]
theorem targeted_name (x : String) : (Expr.name x).Targeted := targeted_ident x false

@[simp]
theorem targeted_call {f : Expr} {args : List Expr} {spread : Bool} :
    (Expr.call f args spread).Targeted ↔ f.Targeted ∧ ∀ e ∈ args, e.Targeted := by
  rw [Node.targeted_iff_of_isLiteral rfl]
  simp [parts, map_snd_exprParts]

@[simp]
theorem targeted_sel {x : Expr} {member : String} : (Expr.sel x member).Targeted ↔ x.Targeted := by
  rw [Node.targeted_iff_of_isLiteral rfl]
  simp [parts, map_snd_exprParts]

@[simp]
theorem targeted_method {x : Expr} {method : String} : (x.method method).Targeted ↔ x.Targeted := by
  simp [Expr.method]

@[simp]
theorem targeted_paren {x : Expr} : (Expr.paren x).Targeted ↔ x.Targeted := by
  rw [Node.targeted_iff_of_isLiteral rfl]
  simp [parts, map_snd_exprParts]

@[simp]
theorem targeted_orBlank {e : Expr} : e.orBlank.Targeted ↔ e.Targeted := by
  cases e <;> simp [Expr.orBlank]

theorem targeted_of_isBlank {e : Expr} (h : e.isBlank = true) : e.Targeted := by
  cases e with
  | missing => simp
  | ident x kept => simp
  | _ => cases h

end Expr

theorem VarDecl.targeted_sharedType {d : VarDecl} (h : ∀ ty, .own ty ∈ d.types → ty.Targeted) :
    d.sharedType.Targeted := by
  unfold VarDecl.sharedType
  split
  · simp
  · simp
  · rename_i first rest hfirst htypes
    split
    · split
      · exact h _ (by rw [htypes]; exact .head _)
      · simp
    · simp

/-- Whether the expressions of the header of a loop over an iterator have targets.  What the loop
declares are names. -/
def Walk.Targeted (w : Walk) : Prop :=
  (w.define = false → w.key.Targeted ∧ w.value.Targeted) ∧ w.x.Targeted

mutual

/-- Whether every labelled branch in a statement of a generator body has a target. -/
def Flow.Targeted (p : LabelScope) : Flow → Prop
  | .missing | .finish => True
  | .block body => flowsTargeted p.inside body
  | .declare d =>
    (d.define = false → d.sharedType.Targeted) ∧ ∀ e ∈ d.values, e.Targeted
  | .yield value => value.Targeted
  | .ite cond body other =>
    cond.Targeted ∧ flowsTargeted p.inside body ∧ other.Targeted p.inside
  | .while cond body | .doWhile body cond => cond.Targeted ∧ flowsTargeted p.inLoop body
  | .loop init cond post body =>
    init.Targeted p.inLoop ∧ cond.Targeted ∧ post.Targeted p.inLoop ∧ flowsTargeted p.inLoop body
  | .walk header body => header.Targeted ∧ flowsTargeted p.inLoop body
  | .switch tag cases => tag.Targeted ∧ casesTargeted p.inCases cases
  | .labeled label s => s.Targeted (p.after label)
  | .brk label => label = "" ∨ label ∈ p.brk
  | .cont label => label = "" ∨ label ∈ p.cont
  | .lift d => (Node.stmt (.decl d.kind d.specs)).Targeted p
  | .simple stmt => (Node.stmt stmt).Targeted p

/-- Whether every labelled branch in a list of statements has a target. -/
def flowsTargeted (p : LabelScope) : List Flow → Prop
  | [] => True
  | s :: ss => s.Targeted p ∧ flowsTargeted p ss

/-- Whether every labelled branch in the cases of a switch has a target. -/
def casesTargeted (p : LabelScope) : List FlowCase → Prop
  | [] => True
  | c :: cs => c.Targeted p ∧ casesTargeted p cs

/-- Whether every labelled branch in a case has a target. -/
def FlowCase.Targeted (p : LabelScope) : FlowCase → Prop
  | .case values body => (∀ e ∈ values, e.Targeted) ∧ flowsTargeted p.inside body
  | .default body => flowsTargeted p.inside body

end

section Trees

variable {p : LabelScope}

theorem VarDecl.targeted_toStmt {d : VarDecl} :
    (Node.stmt d.toStmt).Targeted p ↔
      (d.define = false → d.sharedType.Targeted) ∧ ∀ e ∈ d.values, e.Targeted := by
  unfold VarDecl.toStmt
  cases d.define with
  | true => simp [Node.targeted_assign]
  | false => simp [Node.targeted_decl, Node.targeted_value]

/-- The taking of the next key and value stands in the loop. -/
theorem Walk.targeted_take {w : Walk} :
    (Node.stmt w.take).Targeted p ↔ (w.define = false → w.key.Targeted ∧ w.value.Targeted) := by
  rw [Walk.take_eq, Node.targeted_assign]
  cases hdefine : w.define with
  | false =>
      have hbinding : w.binding = false := by simp [Walk.binding, hdefine]
      simp [hbinding]
  | true =>
      cases hbinding : w.binding with
      | true => simp
      | false =>
          obtain ⟨hkey, hvalue⟩ : w.key.isBlank = true ∧ w.value.isBlank = true := by
            simpa [Walk.binding, hdefine] using hbinding
          simp [Expr.targeted_of_isBlank hkey, Expr.targeted_of_isBlank hvalue]

theorem Stmt.targeted_branchTo {kind : BranchKind} {label : String} :
    (Node.stmt (branchTo kind label)).Targeted p ↔
      (Stmt.branch kind (some label)).NamesTarget p := by
  rw [branchTo, Node.targeted_branch]
  split
  · rename_i hempty
    cases kind <;> simp [Stmt.NamesTarget, hempty]
  · rfl

/-- An optional part of a statement. -/
theorem Flow.targeted_part {s : Flow} {stmt : Stmt} (h : s.part? = some stmt)
    (htree : s.toStmt? = some stmt → ((Node.stmt stmt).Targeted p ↔ s.Targeted p)) :
    (Node.stmt stmt).Targeted p ↔ s.Targeted p := by
  unfold Flow.part? at h
  split at h
  · rename_i hmissing
    obtain rfl := Option.some.inj h
    obtain rfl := isMissing_eq_true.mp hmissing
    exact iff_of_true Node.targeted_missing trivial
  · exact htree h

end Trees

mutual

/-- The tree of a statement has targets for the branches that have them in the statement. -/
theorem Flow.targeted_toStmt (s : Flow) {stmt : Stmt} (p : LabelScope) (h : s.toStmt? = some stmt) :
    (Node.stmt stmt).Targeted p ↔ s.Targeted p := by
  cases Flow.hasTree h with
  | simple | lift => exact .rfl
  | declare => exact VarDecl.targeted_toStmt
  | brk | cont => exact Stmt.targeted_branchTo
  | finish => exact iff_of_true (Node.targeted_ret.mpr (by simp)) trivial
  | yield =>
      rw [Node.targeted_ret]
      simp [Flow.Targeted]
  | @labeled label s stmt hstmt =>
      exact Node.targeted_labeled.trans (s.targeted_toStmt (p.after label) hstmt)
  | @block body stmts hbody =>
      exact Node.targeted_block.trans (targeted_toStmts body p.inside hbody)
  | @«while» cond body stmts hbody =>
      rw [Node.targeted_loop, Flow.Targeted, ← targeted_toStmts body p.inLoop hbody]
      simp
  | @doWhile cond body stmts hbody =>
      have htest :
          (if cond.isMissing then Expr.name "true" else cond).Targeted ↔ cond.Targeted := by
        cases cond <;> simp [Expr.isMissing]
      rw [Node.targeted_loop, Flow.Targeted, ← targeted_toStmts body p.inLoop hbody]
      simp [Node.targeted_assign, htest]
  | @walk w body stmts hbody =>
      rw [Node.targeted_loop, Flow.Targeted, Walk.Targeted, ← targeted_toStmts body p.inLoop hbody]
      simp [Node.targeted_assign, Walk.targeted_take, and_assoc, and_left_comm]
  | @ite cond body other stmts other' hbody hother =>
      rw [Node.targeted_ite, Flow.Targeted, ← targeted_toStmts body p.inside hbody,
        ← Flow.targeted_part hother fun h => other.targeted_toStmt p.inside h]
      simp
  | @loop init post cond body init' post' stmts hinit hpost hbody =>
      rw [Node.targeted_loop, Flow.Targeted, ← targeted_toStmts body p.inLoop hbody,
        ← Flow.targeted_part hinit fun h => init.targeted_toStmt p.inLoop h,
        ← Flow.targeted_part hpost fun h => post.targeted_toStmt p.inLoop h]
  | @switch tag cases clauses hclauses =>
      rw [Node.targeted_switch, Flow.Targeted, ← targeted_toClauses cases p.inCases hclauses]
      simp [Stmt.within, Stmt.isMissing]

/-- The trees of a list of statements. -/
theorem targeted_toStmts (body : List Flow) {stmts : List Stmt} (p : LabelScope)
    (h : toStmts? body = some stmts) :
    (∀ s ∈ stmts, (Node.stmt s).Targeted p) ↔ flowsTargeted p body := by
  cases body with
  | nil =>
      obtain rfl := Option.some.inj h
      simp [flowsTargeted]
  | cons s body =>
      simp only [toStmts?, Option.pure_def, Option.bind_eq_bind, Option.bind_eq_some_iff] at h
      obtain ⟨stmt, hstmt, rest, hrest, heq⟩ := h
      obtain rfl := Option.some.inj heq
      rw [List.forall_mem_cons, flowsTargeted, s.targeted_toStmt p hstmt,
        targeted_toStmts body p hrest]

/-- The clauses of the cases of a switch. -/
theorem targeted_toClauses (cs : List FlowCase) {clauses : List Clause} (p : LabelScope)
    (h : toClauses? cs = some clauses) :
    (∀ c ∈ clauses, (Node.clause c).Targeted p) ↔ casesTargeted p cs := by
  cases cs with
  | nil =>
      obtain rfl := Option.some.inj h
      simp [casesTargeted]
  | cons c cs =>
      simp only [toClauses?, Option.pure_def, Option.bind_eq_bind, Option.bind_eq_some_iff] at h
      obtain ⟨clause, hclause, rest, hrest, heq⟩ := h
      obtain rfl := Option.some.inj heq
      rw [List.forall_mem_cons, casesTargeted, c.targeted_toClause p hclause,
        targeted_toClauses cs p hrest]

/-- The clause of a case. -/
theorem FlowCase.targeted_toClause (c : FlowCase) {last : Bool} {clause : Clause} (p : LabelScope)
    (h : c.toClause? last = some clause) :
    (Node.clause clause).Targeted p ↔ c.Targeted p := by
  obtain ⟨hguard, stmts, hstmts, hbody⟩ := FlowCase.clause_of_toClause h
  rw [Node.targeted_clause, hguard, hbody,
    forall_closeCase Node.targeted_unlabelled hstmts]
  cases c with
  | case values body => exact and_congr_right' (targeted_toStmts body p.inside hstmts)
  | default body =>
      rw [FlowCase.Targeted, ← targeted_toStmts body p.inside hstmts]
      simp [FlowCase.guard, Clause.values]

end

end YieldMachine
