import YieldMachine.Proofs.Source.Yields

/-!
# Statements that are kept whole

A select or a type switch that is accepted is left at its end only.  Function literals apart, it
marks no element, it does not return, and each branch in it goes to a statement that is in it as
well.

`Stands` says where a piece of a statement stands, with the statements around it.  What an outline
hides is no matter here: an outline is that of the pieces, so that each step inwards keeps what the
outline excludes, and the loops and labels that it counts are those around.
-/

namespace YieldMachine.Source

/-- A piece of a source. -/
inductive Piece where
  | ident (id : Ident)
  | expr (e : Expr)
  | signature (s : Signature)
  | fields (fs : Fields)
  | field (f : Field)
  | stmt (s : Stmt)
  | clause (c : Clause)
  | comm (c : CommClause)
  | spec (s : Spec)

/-- The pieces right inside a form of expression; what is inside a function literal is a function
of its own. -/
def Form.pieces : Form → List Piece
  | .ident id => [.ident id]
  | .lit _ _ => []
  | .sel x member => [.expr x, .ident member]
  | .index x i => [.expr x, .expr i]
  | .indexList x is => .expr x :: is.map .expr
  | .slice x low high max _ => [.expr x, .expr low, .expr high, .expr max]
  | .assert x ty => [.expr x, .expr ty]
  | .call fn args _ => .expr fn :: args.map .expr
  | .star x => [.expr x]
  | .unary _ x => [.expr x]
  | .binary _ x y => [.expr x, .expr y]
  | .paren x => [.expr x]
  | .pair key value => [.expr key, .expr value]
  | .composite ty elements => .expr ty :: elements.map .expr
  | .func _ _ => []
  | .funcType signature => [.signature signature]
  | .array length element => [.expr length, .expr element]
  | .map key element => [.expr key, .expr element]
  | .chan _ element => [.expr element]
  | .struct fields => [.fields fields]
  | .interface fields => [.fields fields]
  | .ellipsis element => [.expr element]

/-- The pieces right inside a form of statement.  Labels are names of statements, not identifiers
of their own. -/
def StmtForm.pieces : StmtForm → List Piece
  | .empty => []
  | .expr x => [.expr x]
  | .send channel value => [.expr channel, .expr value]
  | .incDec _ x => [.expr x]
  | .assign _ lhs rhs => lhs.map .expr ++ rhs.map .expr
  | .go call => [.expr call]
  | .defer call => [.expr call]
  | .ret results => results.map .expr
  | .branch _ _ => []
  | .block body => body.map .stmt
  | .ite init cond body other => .stmt init :: .expr cond :: body.map .stmt ++ [.stmt other]
  | .switch init tag clauses => .stmt init :: .expr tag :: clauses.map .clause
  | .typeSwitch init guard clauses => .stmt init :: .stmt guard :: clauses.map .clause
  | .select clauses => clauses.map .comm
  | .loop init cond post body => .stmt init :: .expr cond :: .stmt post :: body.map .stmt
  | .range key value _ x body => .expr key :: .expr value :: .expr x :: body.map .stmt
  | .labeled _ stmt => [.stmt stmt]
  | .decl _ specs => specs.map .spec

namespace Piece

/-- The pieces right inside a piece. -/
def pieces : Piece → List Piece
  | .ident _ => []
  | .expr .missing => []
  | .expr (.mk _ form) => form.pieces
  | .signature (.mk typeParams params results) =>
    [.fields typeParams, .fields params, .fields results]
  | .fields fs => fs.toList.map .field
  | .field (.mk names ty _) => names.map .ident ++ [.expr ty]
  | .stmt .missing => []
  | .stmt (.mk _ form) => form.pieces
  | .clause (.case values body) => values.map .expr ++ body.map .stmt
  | .clause (.default body) => body.map .stmt
  | .comm (.mk action body) => .stmt action :: body.map .stmt
  | .spec (.value names ty values) => names.map .ident ++ .expr ty :: values.map .expr
  | .spec (.type name typeParams _ ty) => [.ident name, .fields typeParams, .expr ty]
  | .spec (.imported _ _) => []

/-- The statement that a piece is. -/
def form? : Piece → Option StmtForm
  | .stmt (.mk _ form) => some form
  | _ => none

/-- Whether a piece stands somewhere in another one, and the statements around it in there, the
innermost first. -/
inductive Stands : Piece → List StmtForm → Piece → Prop
  | here (p : Piece) : Stands p [] p
  | inside {p q r : Piece} {around : List StmtForm} :
      q ∈ p.pieces → Stands q around r → Stands p (around ++ p.form?.toList) r

/-- The outline of a piece. -/
def outline : Piece → List Outline
  | .ident id => [.ident id]
  | .expr e => e.outline
  | .signature s => s.outline
  | .fields fs => fs.outline
  | .field f => f.outline
  | .stmt s => s.outline
  | .clause c => c.outline
  | .comm c => c.outline
  | .spec s => s.outline

end Piece

/-- Whether a statement is a loop. -/
def StmtForm.isLoop : StmtForm → Bool
  | .loop _ _ _ _ | .range _ _ _ _ _ => true
  | _ => false

/-- Whether a statement is one that a break without a label leaves. -/
def StmtForm.isBreakable : StmtForm → Bool
  | .loop _ _ _ _ | .range _ _ _ _ _ | .switch _ _ _ | .typeSwitch _ _ _ | .select _ => true
  | _ => false

/-- The label of a labelled statement. -/
def StmtForm.label? : StmtForm → Option String
  | .labeled label _ => some label.name
  | _ => none

/-- Whether a statement is one that a break or a continue inside it may go to: the innermost one
like this is the target. -/
def StmtForm.Aimed (kind : BranchKind) (label : Option Ident) (form : StmtForm) : Bool :=
  match kind, label with
  | _, some label => form.label? == some label.name
  | .cont, none => form.isLoop
  | _, none => form.isBreakable

section Outlines

theorem outlineIdents_eq_flatMap (ids : List Ident) :
    outlineIdents ids = ids.flatMap fun id => [.ident id] := by
  rw [outlineIdents, List.map_eq_flatMap]

theorem outlineExprs_eq_flatMap (es : List Expr) : outlineExprs es = es.flatMap Expr.outline := by
  induction es with
  | nil => rfl
  | cons e es ih => rw [outlineExprs, ih, List.flatMap_cons]

theorem outlineStmts_eq_flatMap (ss : List Stmt) : outlineStmts ss = ss.flatMap Stmt.outline := by
  induction ss with
  | nil => rfl
  | cons s ss ih => rw [outlineStmts, ih, List.flatMap_cons]

theorem outlineFields_eq_flatMap (fs : List Field) :
    outlineFields fs = fs.flatMap Field.outline := by
  induction fs with
  | nil => rfl
  | cons f fs ih => rw [outlineFields, ih, List.flatMap_cons]

theorem outlineClauses_eq_flatMap (cs : List Clause) :
    outlineClauses cs = cs.flatMap Clause.outline := by
  induction cs with
  | nil => rfl
  | cons c cs ih => rw [outlineClauses, ih, List.flatMap_cons]

theorem outlineComms_eq_flatMap (cs : List CommClause) :
    outlineComms cs = cs.flatMap CommClause.outline := by
  induction cs with
  | nil => rfl
  | cons c cs ih => rw [outlineComms, ih, List.flatMap_cons]

theorem outlineSpecs_eq_flatMap (ss : List Spec) : outlineSpecs ss = ss.flatMap Spec.outline := by
  induction ss with
  | nil => rfl
  | cons s ss ih => rw [outlineSpecs, ih, List.flatMap_cons]

end Outlines

section Steps

variable {looped : Bool} {labels : List String} {p r : Piece} {around : List StmtForm}

theorem outlinesExit?_flatMap_eq_none {ps : List Piece} :
    outlinesExit? looped labels (ps.flatMap Piece.outline) = none ↔
      ∀ q ∈ ps, outlinesExit? looped labels q.outline = none := by
  induction ps with
  | nil => simp [outlinesExit?]
  | cons q ps ih =>
      rw [List.flatMap_cons, outlinesExit?_append_eq_none, ih, List.forall_mem_cons]

/-- A form of expression that is not left has pieces that are not left. -/
theorem Form.exit_pieces {pos : Pos} {form : Form}
    (h : outlinesExit? looped labels (form.outline pos) = none) :
    ∀ q ∈ form.pieces, outlinesExit? looped labels q.outline = none := by
  rw [← outlinesExit?_flatMap_eq_none]
  cases form with
  | func signature body => rfl
  | unary op x =>
      cases op with
      | address =>
          rw [Form.outline, outlinesExit?_singleton, Outline.exit?] at h
          simpa [Form.pieces, Piece.outline] using h
      | _ => simpa [Form.pieces, Form.outline, Piece.outline] using h
  | _ =>
      simpa [Form.pieces, Form.outline, Piece.outline, outlineExprs_eq_flatMap, List.flatMap_map]
        using h

/-- A form of statement that is not left has pieces that are not left: those of a loop may continue,
and those of a labelled statement may name its label. -/
theorem StmtForm.exit_pieces {form : StmtForm}
    (h : outlinesExit? looped labels form.outline = none) :
    ∀ q ∈ form.pieces,
      outlinesExit? (looped || form.isLoop) (form.label?.toList ++ labels) q.outline = none := by
  rw [← outlinesExit?_flatMap_eq_none]
  cases form with
  | ret results => cases h
  | branch kind label => rfl
  | loop init cond post body | range key value kind x body =>
      rw [StmtForm.outline, outlinesExit?_singleton, Outline.exit?] at h
      simpa [StmtForm.pieces, Piece.outline, outlineStmts_eq_flatMap, List.flatMap_map, isLoop,
        label?] using h
  | select clauses | typeSwitch init guard clauses | labeled label stmt =>
      rw [StmtForm.outline, outlinesExit?_singleton, Outline.exit?] at h
      simpa [StmtForm.pieces, Piece.outline, outlineComms_eq_flatMap, outlineClauses_eq_flatMap,
        List.flatMap_map, isLoop, label?] using h
  | _ =>
      simpa [StmtForm.pieces, StmtForm.outline, Piece.outline, outlineExprs_eq_flatMap,
        outlineStmts_eq_flatMap, outlineClauses_eq_flatMap, outlineSpecs_eq_flatMap,
        List.flatMap_map, isLoop, label?] using h

namespace Piece

/-- A piece that is not left has pieces that are not left. -/
theorem exit_pieces (h : outlinesExit? looped labels p.outline = none) :
    ∀ q ∈ p.pieces,
      outlinesExit? (looped || p.form?.toList.any StmtForm.isLoop)
        (p.form?.toList.filterMap StmtForm.label? ++ labels) q.outline = none := by
  cases p with
  | stmt s =>
      cases s with
      | missing => exact List.forall_mem_nil _
      | mk pos form =>
          have hpieces := form.exit_pieces h
          cases hlabel : form.label? <;> simpa [pieces, form?, hlabel] using hpieces
  | expr e =>
      cases e with
      | missing => exact List.forall_mem_nil _
      | mk site form => simpa [pieces, form?] using Form.exit_pieces h
  | signature s =>
      obtain ⟨typeParams, params, results⟩ := s
      rw [← outlinesExit?_flatMap_eq_none]
      simpa [pieces, outline, Signature.outline, form?] using h
  | fields fs =>
      cases fs with
      | absent => exact List.forall_mem_nil _
      | list fs =>
          rw [← outlinesExit?_flatMap_eq_none]
          simpa [pieces, outline, Fields.outline, Fields.toList, outlineFields_eq_flatMap,
            List.flatMap_map, form?] using h
  | field f =>
      obtain ⟨names, ty, tag⟩ := f
      rw [← outlinesExit?_flatMap_eq_none]
      simpa [pieces, outline, Field.outline, outlineIdents_eq_flatMap, List.flatMap_map, form?]
        using h
  | clause c =>
      rw [← outlinesExit?_flatMap_eq_none]
      cases c <;>
        simpa [pieces, outline, Clause.outline, outlineExprs_eq_flatMap, outlineStmts_eq_flatMap,
          List.flatMap_map, form?] using h
  | comm c =>
      obtain ⟨action, body⟩ := c
      rw [← outlinesExit?_flatMap_eq_none]
      simpa [pieces, outline, CommClause.outline, outlineStmts_eq_flatMap, List.flatMap_map, form?]
        using h
  | spec s =>
      rw [← outlinesExit?_flatMap_eq_none]
      cases s <;>
        simpa [pieces, outline, Spec.outline, outlineIdents_eq_flatMap, outlineExprs_eq_flatMap,
          List.flatMap_map, form?] using h
  | ident id => exact List.forall_mem_nil _

/-- What stands in a piece that is not left is not left either, where the loops and labels around it
count. -/
theorem Stands.exit_eq_none (h : Stands p around r)
    (hexit : outlinesExit? looped labels p.outline = none) :
    outlinesExit? (looped || around.any StmtForm.isLoop)
      (around.filterMap StmtForm.label? ++ labels) r.outline = none := by
  induction h generalizing looped labels with
  | here p => simpa using hexit
  | inside hmem _ ih =>
      have hpart := ih (exit_pieces hexit _ hmem)
      simpa [Bool.or_assoc, Bool.or_comm, Bool.or_left_comm] using hpart

end Piece

end Steps

section Branches

variable {kind : BranchKind} {label : Option Ident} {around : List StmtForm}

/-- The innermost statement of some that a branch may go to is in front of those around them. -/
theorem find?_aimed (h : around.any (StmtForm.Aimed kind label) = true) (outer : List StmtForm) :
    ∃ target ∈ around, (around ++ outer).find? (StmtForm.Aimed kind label) = some target := by
  have hsome : (around.find? (StmtForm.Aimed kind label)).isSome = true := by
    simpa [List.find?_isSome] using h
  obtain ⟨target, htarget⟩ := Option.isSome_iff_exists.mp hsome
  refine ⟨target, List.mem_of_find?_eq_some htarget, ?_⟩
  rw [List.find?_append, htarget, Option.some_or]

/-- A labelled branch that is not excluded names a label around it. -/
theorem any_aimed_label {label : Ident} (hkind : kind ≠ .goto)
    (h : outlinesExit? (around.any StmtForm.isLoop) (around.filterMap StmtForm.label?)
      (StmtForm.branch kind (some label)).outline = none) :
    around.any (StmtForm.Aimed kind (some label)) = true := by
  have hlabel : label.name ∈ around.filterMap StmtForm.label? := by
    rw [StmtForm.outline, outlinesExit?_singleton] at h
    cases kind with
    | goto => exact absurd rfl hkind
    | _ => simpa [Outline.exit?] using h
  obtain ⟨form, hmem, hform⟩ := List.mem_filterMap.mp hlabel
  refine List.any_eq_true.mpr ⟨form, hmem, ?_⟩
  cases kind <;> simp [StmtForm.Aimed, hform]

/-- A continue that is not excluded stands in a loop. -/
theorem any_aimed_cont
    (h : outlinesExit? (around.any StmtForm.isLoop) (around.filterMap StmtForm.label?)
      (StmtForm.branch .cont none).outline = none) :
    around.any (StmtForm.Aimed .cont none) = true := by
  rw [StmtForm.outline, outlinesExit?_singleton] at h
  have hlooped : around.any StmtForm.isLoop = true := by
    by_contra hlooped
    simp [Outline.exit?, hlooped] at h
  exact hlooped

end Branches

/-- Whether a statement is a select or a type switch. -/
def StmtForm.isWhole : StmtForm → Bool
  | .typeSwitch _ _ _ | .select _ => true
  | _ => false

theorem StmtForm.isBreakable_of_isWhole {form : StmtForm} (h : form.isWhole = true) :
    form.isBreakable = true := by
  cases form <;> first | rfl | cases h

/-- A select or a type switch that is accepted is left at its end only.  Wherever something stands
in it, function literals apart: it is no mark of an element, no return and no goto, and if it is a
break or a continue, its target is among the statements around it in there, whatever stands around
the whole. -/
theorem keepWhole_contained {pos : Pos} {form : StmtForm} (hwhole : form.isWhole = true)
    (hclean : (keepWhole pos form).problems = []) {around : List StmtForm} {p : Piece}
    (h : (Piece.stmt (.mk pos form)).Stands around p) :
    (∀ id, p = .ident id → id.isYield = false) ∧
    (∀ place results, p ≠ .stmt (.mk place (.ret results))) ∧
    (∀ place label, p ≠ .stmt (.mk place (.branch .goto label))) ∧
    ∀ place kind label, p = .stmt (.mk place (.branch kind label)) → kind = .brk ∨ kind = .cont →
      ∀ outer : List StmtForm,
        ∃ target ∈ around, (around ++ outer).find? (StmtForm.Aimed kind label) = some target := by
  have hexit := h.exit_eq_none (StmtForm.clean_keepWhole hclean)
  rw [Bool.false_or, List.append_nil] at hexit
  refine ⟨?_, ?_, ?_, ?_⟩
  · rintro id rfl
    by_contra hyield
    simp [Piece.outline, outlinesExit?, Outline.exit?, hyield] at hexit
  · rintro place results rfl
    cases hexit
  · rintro place label rfl
    cases hexit
  · rintro place kind label rfl hkind outer
    apply find?_aimed
    cases label with
    | some label =>
        apply any_aimed_label _ hexit
        rintro rfl
        simp at hkind
    | none =>
        obtain rfl | rfl := hkind
        · -- the whole statement is around the break, and is one that a break leaves
          cases h with
          | here => cases hwhole
          | inside =>
              simp [Piece.form?, StmtForm.Aimed, StmtForm.isBreakable_of_isWhole hwhole]
        · exact any_aimed_cont hexit

/-- A label. -/
def outerLabel : Ident := ⟨"outer", ⟨5, 3⟩, none⟩

/-- A loop that continues the one with a label around it. -/
def innerLoop : StmtForm :=
  .loop .missing .missing .missing [.mk ⟨7, 5⟩ (.branch .cont (some outerLabel))]

/-- A loop around `innerLoop`. -/
def outerLoop : StmtForm := .loop .missing .missing .missing [.mk ⟨6, 4⟩ innerLoop]

/-- A select with a labelled loop in it. -/
def looping : StmtForm :=
  .select [.mk .missing [.mk ⟨5, 3⟩ (.labeled outerLabel (.mk ⟨5, 10⟩ outerLoop))]]

theorem keepWhole_contained_looping :
    looping.isWhole = true ∧ (keepWhole ⟨4, 2⟩ looping).problems = [] ∧
    ∀ outer : List StmtForm, ∃ target ∈
        [innerLoop, outerLoop, .labeled outerLabel (.mk ⟨5, 10⟩ outerLoop), looping],
      ([innerLoop, outerLoop, .labeled outerLabel (.mk ⟨5, 10⟩ outerLoop), looping] ++
        outer).find? (StmtForm.Aimed .cont (some outerLabel)) = some target := by
  have hclean : (keepWhole ⟨4, 2⟩ looping).problems = [] := by decide
  have hinner := Piece.Stands.inside (p := .stmt (.mk ⟨6, 4⟩ innerLoop))
    (by simp [Piece.pieces, StmtForm.pieces, innerLoop])
    (.here (.stmt (.mk ⟨7, 5⟩ (.branch .cont (some outerLabel)))))
  have houter := Piece.Stands.inside (p := .stmt (.mk ⟨5, 10⟩ outerLoop))
    (by simp [Piece.pieces, StmtForm.pieces, outerLoop]) hinner
  have hlabeled := Piece.Stands.inside
    (p := .stmt (.mk ⟨5, 3⟩ (.labeled outerLabel (.mk ⟨5, 10⟩ outerLoop))))
    (by simp [Piece.pieces, StmtForm.pieces]) houter
  have hclause := Piece.Stands.inside
    (p := .comm (.mk .missing [.mk ⟨5, 3⟩ (.labeled outerLabel (.mk ⟨5, 10⟩ outerLoop))]))
    (by simp [Piece.pieces]) hlabeled
  have hwhole := Piece.Stands.inside (p := .stmt (.mk ⟨4, 2⟩ looping))
    (by simp [Piece.pieces, StmtForm.pieces, looping]) hclause
  obtain ⟨-, -, -, hbranch⟩ := keepWhole_contained rfl hclean hwhole
  exact ⟨rfl, hclean, hbranch _ _ _ rfl (.inr rfl)⟩

end YieldMachine.Source
