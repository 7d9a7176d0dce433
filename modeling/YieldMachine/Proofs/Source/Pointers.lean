import YieldMachine.Proofs.Source.Contained

/-!
# Pointers into loop variables

A variable that is declared in a loop is shared by the rounds of the loop once the body is compiled,
so that nothing may keep it for longer than a round.  A body is accepted in this respect exactly
when no such variable is used in a function literal and the address of none is taken.  The address
of a part of such a variable is not looked at.

`Contains` says where a piece stands, function literals included.  What is collected from an outline
is what is collected from the pieces, so that each collection is read off one step inwards.
-/

namespace YieldMachine.Source

namespace Piece

/-- The pieces right inside a piece, where those of a function literal count as well, and whether
the step inwards leads into the body of one. -/
def steps : Piece → List (Bool × Piece)
  | .expr (.mk _ (.func head body)) =>
    (false, .signature head) :: body.map fun s => (true, .stmt s)
  | p => p.pieces.map fun q => (false, q)

/-- Whether a piece stands anywhere in another one, and whether the body of a function literal is
around it in there. -/
inductive Contains : Piece → Bool → Piece → Prop
  | here (p : Piece) : Contains p false p
  | inside {p q r : Piece} {entered literal : Bool} :
      (entered, q) ∈ p.steps → Contains q literal r → Contains p (entered || literal) r

/-- The outline of a piece around the outline of its pieces. -/
def shell : Piece → List Outline → List Outline
  | .ident id, _ => [.ident id]
  | .expr (.mk _ (.unary .address x)), parts => [.address x.unparen.ident? parts]
  | .expr (.mk site (.func head body)), _ =>
    [.literal site.pos head.outline (outlineStmts body)]
  | .stmt (.mk _ (.ret _)), parts => [.ret parts]
  | .stmt (.mk _ (.branch kind label)), _ => [.branch kind (label.map (·.name))]
  | .stmt (.mk _ (.typeSwitch _ _ _)), parts => [.whole parts]
  | .stmt (.mk _ (.select _)), parts => [.whole parts]
  | .stmt (.mk _ (.loop _ _ _ _)), parts => [.loop parts]
  | .stmt (.mk _ (.range _ _ _ _ _)), parts => [.loop parts]
  | .stmt (.mk _ (.labeled label _)), parts => [.labeled label.name parts]
  | _, parts => parts

/-- An outline is that of the pieces, in a shell. -/
theorem outline_eq_shell (p : Piece) : p.outline = p.shell (p.pieces.flatMap outline) := by
  cases p with
  | ident id => rfl
  | expr e =>
      cases e with
      | missing => rfl
      | mk site form =>
          cases form with
          | unary op x =>
              cases op <;> simp [outline, Expr.outline, Form.outline, shell, pieces, Form.pieces]
          | _ =>
              simp [outline, Expr.outline, Form.outline, shell, pieces, Form.pieces,
                outlineExprs_eq_flatMap, List.flatMap_map]
  | stmt s =>
      cases s with
      | missing => rfl
      | mk pos form =>
          cases form <;>
            simp [outline, Stmt.outline, StmtForm.outline, shell, pieces, StmtForm.pieces,
              outlineExprs_eq_flatMap, outlineStmts_eq_flatMap, outlineClauses_eq_flatMap,
              outlineComms_eq_flatMap, outlineSpecs_eq_flatMap, List.flatMap_map]
  | signature s =>
      obtain ⟨typeParams, params, results⟩ := s
      simp [outline, Signature.outline, shell, pieces]
  | fields fs =>
      cases fs with
      | absent => rfl
      | list fs =>
          simp [outline, Fields.outline, Fields.toList, shell, pieces, outlineFields_eq_flatMap,
            List.flatMap_map]
  | field f =>
      obtain ⟨names, ty, tag⟩ := f
      simp [outline, Field.outline, shell, pieces, outlineIdents_eq_flatMap, List.flatMap_map]
  | clause c =>
      cases c <;>
        simp [outline, Clause.outline, shell, pieces, outlineExprs_eq_flatMap,
          outlineStmts_eq_flatMap, List.flatMap_map]
  | comm c =>
      obtain ⟨action, body⟩ := c
      simp [outline, CommClause.outline, shell, pieces, outlineStmts_eq_flatMap, List.flatMap_map]
  | spec s =>
      cases s <;>
        simp [outline, Spec.outline, shell, pieces, outlineIdents_eq_flatMap,
          outlineExprs_eq_flatMap, List.flatMap_map]

/-- The size of the tree of a piece. -/
noncomputable def weight : Piece → Nat
  | .ident id => sizeOf id
  | .expr e => sizeOf e
  | .signature s => sizeOf s
  | .fields fs => sizeOf fs
  | .field f => sizeOf f
  | .stmt s => sizeOf s
  | .clause c => sizeOf c
  | .comm c => sizeOf c
  | .spec s => sizeOf s

/-- The elements of a list weigh less than the list, by one for each of them and one for its end. -/
theorem sum_weight {α : Type} [SizeOf α] {piece : α → Piece}
    (hpiece : ∀ a, (piece a).weight = sizeOf a) (as : List α) :
    ((as.map piece).map weight).sum = sizeOf as - (as.length + 1) := by
  suffices h : ((as.map piece).map weight).sum + (as.length + 1) = sizeOf as by omega
  induction as with
  | nil => rfl
  | cons a as ih =>
      simp only [List.map_cons, List.sum_cons, hpiece, List.cons.sizeOf_spec, List.length_cons]
      omega

/-- The pieces right inside a piece weigh less than the piece. -/
theorem sum_weight_pieces (p : Piece) : (p.pieces.map weight).sum < p.weight := by
  have hexprs := @sum_weight Expr _ .expr fun _ => rfl
  have hstmts := @sum_weight Stmt _ .stmt fun _ => rfl
  have hidents := @sum_weight Ident _ .ident fun _ => rfl
  cases p with
  | ident id =>
      cases id
      simp [pieces, weight]
  | expr e =>
      cases e with
      | missing => simp [pieces, weight]
      | mk site form =>
          cases form <;> simp [pieces, Form.pieces, weight, hexprs, -List.map_map] <;> omega
  | stmt s =>
      have hclauses := @sum_weight Clause _ .clause fun _ => rfl
      have hcomms := @sum_weight CommClause _ .comm fun _ => rfl
      have hspecs := @sum_weight Spec _ .spec fun _ => rfl
      cases s with
      | missing => simp [pieces, weight]
      | mk pos form =>
          cases form <;>
            simp [pieces, StmtForm.pieces, weight, hexprs, hstmts, hclauses, hcomms, hspecs,
              -List.map_map] <;>
            omega
  | signature s =>
      cases s
      simp [pieces, weight]
      omega
  | fields fs =>
      have hfields := @sum_weight Field _ .field fun _ => rfl
      cases fs <;> simp [pieces, Fields.toList, weight, hfields, -List.map_map]
      omega
  | field f =>
      cases f
      simp [pieces, weight, hidents, -List.map_map]
      omega
  | clause c => cases c <;> simp [pieces, weight, hexprs, hstmts, -List.map_map] <;> omega
  | comm c =>
      cases c
      simp [pieces, weight, hstmts, -List.map_map]
      omega
  | spec s => cases s <;> simp [pieces, weight, hidents, hexprs, -List.map_map] <;> omega

theorem weight_lt_of_mem_pieces {p q : Piece} (h : q ∈ p.pieces) : q.weight < p.weight :=
  Nat.lt_of_le_of_lt (List.le_sum_of_mem (List.mem_map_of_mem h)) p.sum_weight_pieces

theorem weight_lt_of_mem_steps {p q : Piece} {entered : Bool} (h : (entered, q) ∈ p.steps) :
    q.weight < p.weight := by
  unfold steps at h
  split at h
  · grind [weight, → List.sizeOf_lt_of_mem]
  · obtain ⟨q', hq', heq⟩ := List.mem_map.mp h
    obtain ⟨-, rfl⟩ := Prod.mk.inj heq
    exact weight_lt_of_mem_pieces hq'

/-- What holds of a piece whenever it holds of the pieces a step inwards holds of every piece. -/
theorem inward {P : Piece → Prop}
    (h : ∀ p : Piece, (∀ entered q, (entered, q) ∈ p.steps → P q) → P p) (p : Piece) : P p :=
  h p fun _ q _ => inward h q
termination_by p.weight
decreasing_by exact weight_lt_of_mem_steps ‹_›

theorem mem_steps_of_mem_pieces {p q : Piece} (h : q ∈ p.pieces) : (false, q) ∈ p.steps := by
  unfold steps
  split
  · cases h
  · exact List.mem_map_of_mem h

theorem Contains.of_mem_pieces {p q r : Piece} {literal : Bool} (hq : q ∈ p.pieces)
    (h : q.Contains literal r) : p.Contains literal r := by
  simpa using Contains.inside (mem_steps_of_mem_pieces hq) h

theorem Contains.of_mem_body {site : Site} {head : Signature} {body : List Stmt} {s : Stmt}
    {r : Piece} {literal : Bool} (hs : s ∈ body) (h : (Piece.stmt s).Contains literal r) :
    (Piece.expr (.mk site (.func head body))).Contains true r := by
  have hstep : (true, .stmt s) ∈ (Piece.expr (.mk site (.func head body))).steps :=
    List.mem_cons_of_mem _ (List.mem_map_of_mem hs)
  simpa using Contains.inside hstep h

section Collections

variable {p q r : Piece}

theorem outlinesIdents_eq_flatMap (os : List Outline) :
    outlinesIdents os = os.flatMap Outline.idents := by
  induction os with
  | nil => rfl
  | cons o os ih => rw [outlinesIdents, ih, List.flatMap_cons]

theorem outlinesConcerns_eq_flatMap (os : List Outline) :
    outlinesConcerns os = os.flatMap Outline.concerns := by
  induction os with
  | nil => rfl
  | cons o os ih => rw [outlinesConcerns, ih, List.flatMap_cons]

theorem outlinesLoopLocals_eq_flatMap (inLoop : Bool) (os : List Outline) :
    outlinesLoopLocals inLoop os = os.flatMap (Outline.loopLocals inLoop) := by
  induction os with
  | nil => rfl
  | cons o os ih => rw [outlinesLoopLocals, ih, List.flatMap_cons]

/-- The concerns that a piece itself is. -/
def concerns : Piece → List Concern
  | .expr (.mk _ (.unary .address x)) => x.unparen.ident?.toList.map .addressed
  | .expr (.mk site (.func _ body)) =>
    (if usesYield (outlineStmts body) then [.yielding site.pos] else []) ++
      (outlinesIdents (outlineStmts body)).map .captured
  | _ => []

theorem exists_mem_steps {P : Piece → Prop}
    (h : ∀ site head body, p ≠ .expr (.mk site (.func head body))) :
    (∃ entered q, (entered, q) ∈ p.steps ∧ P q) ↔ ∃ q ∈ p.pieces, P q := by
  unfold steps
  split
  · rename_i site head body
    exact absurd rfl (h site head body)
  · simp

theorem mem_idents_step {id : Ident} : id ∈ outlinesIdents p.outline ↔
    p = .ident id ∨ ∃ entered q, (entered, q) ∈ p.steps ∧ id ∈ outlinesIdents q.outline := by
  rw [outline_eq_shell]
  unfold shell
  split
  case h_1 => simp [outlinesIdents, Outline.idents, steps, pieces, eq_comm]
  case h_3 =>
    simp [outlinesIdents_eq_flatMap, Outline.idents, steps, outlineStmts_eq_flatMap, outline,
      List.flatMap_assoc]
  case h_5 => simp [outlinesIdents, Outline.idents, steps, pieces, StmtForm.pieces]
  case h_11 p' _ _ hident _ hfunc _ _ _ _ _ _ _ =>
    have hne : p' ≠ .ident id := hident id
    rw [exists_mem_steps hfunc]
    simp [outlinesIdents_eq_flatMap, List.flatMap_assoc, hne]
  all_goals
    rw [exists_mem_steps (by simp)]
    simp [outlinesIdents_eq_flatMap, Outline.idents, List.flatMap_assoc]

theorem mem_concerns_step {c : Concern} : c ∈ outlinesConcerns p.outline ↔
    c ∈ p.concerns ∨ ∃ entered q, (entered, q) ∈ p.steps ∧ c ∈ outlinesConcerns q.outline := by
  rw [outline_eq_shell]
  unfold shell
  split
  case h_1 => simp [outlinesConcerns, Outline.concerns, steps, pieces, concerns]
  case h_3 =>
    simp [outlinesConcerns_eq_flatMap, Outline.concerns, steps, outlineStmts_eq_flatMap, outline,
      concerns, List.flatMap_assoc, or_assoc]
  case h_5 => simp [outlinesConcerns, Outline.concerns, steps, pieces, StmtForm.pieces, concerns]
  case h_11 _ haddress hfunc _ _ _ _ _ _ _ =>
    rw [exists_mem_steps hfunc]
    simp [outlinesConcerns_eq_flatMap, List.flatMap_assoc, concerns.eq_3 _ haddress hfunc]
  all_goals
    rw [exists_mem_steps (by simp)]
    simp [outlinesConcerns_eq_flatMap, Outline.concerns, concerns, List.flatMap_assoc]

theorem any_form?_eq_false {f : StmtForm → Bool}
    (h : ∀ pos form, p = .stmt (.mk pos form) → f form = false) :
    p.form?.toList.any f = false := by
  cases p with
  | stmt s =>
      cases s with
      | missing => rfl
      | mk pos form => simpa [form?] using h pos form rfl
  | _ => rfl

theorem mem_loopLocals_step {n : Nat} {inLoop : Bool} : n ∈ outlinesLoopLocals inLoop p.outline ↔
    (∃ id, p = .ident id ∧ inLoop = true ∧ id.declared? = some n) ∨
      p.form?.toList.any StmtForm.isWhole = false ∧ ∃ q ∈ p.pieces,
        n ∈ outlinesLoopLocals (inLoop || p.form?.toList.any StmtForm.isLoop) q.outline := by
  rw [outline_eq_shell]
  unfold shell
  split
  case h_1 => simp [outlinesLoopLocals, Outline.loopLocals, pieces]
  case h_3 => simp [outlinesLoopLocals, Outline.loopLocals, pieces, Form.pieces]
  case h_5 => simp [outlinesLoopLocals, Outline.loopLocals, pieces, StmtForm.pieces]
  case h_11 p' _ _ hident _ _ _ _ htypeSwitch hselect hloop hrange _ =>
    have hwhole : p'.form?.toList.any StmtForm.isWhole = false := by
      refine any_form?_eq_false fun pos form hp => ?_
      cases form with
      | typeSwitch init guard clauses => exact (htypeSwitch _ _ _ _ hp).elim
      | select clauses => exact (hselect _ _ hp).elim
      | _ => rfl
    have hloop : p'.form?.toList.any StmtForm.isLoop = false := by
      refine any_form?_eq_false fun pos form hp => ?_
      cases form with
      | loop init cond post body => exact (hloop _ _ _ _ _ hp).elim
      | range key value kind x body => exact (hrange _ _ _ _ _ _ hp).elim
      | _ => rfl
    rw [hwhole, hloop, Bool.or_false]
    simp [outlinesLoopLocals_eq_flatMap, List.flatMap_assoc]
    exact fun id hid => (hident id hid).elim
  all_goals
    simp [outlinesLoopLocals_eq_flatMap, Outline.loopLocals, form?, StmtForm.isWhole,
      StmtForm.isLoop, List.flatMap_assoc]

/-- The identifiers of an outline are those that stand somewhere in it. -/
theorem mem_idents_iff {id : Ident} :
    id ∈ outlinesIdents p.outline ↔ ∃ literal, p.Contains literal (.ident id) := by
  induction p using inward with
  | h p ih =>
      rw [mem_idents_step]
      constructor
      · rintro (rfl | ⟨entered, q, hq, hid⟩)
        · exact ⟨false, .here _⟩
        · obtain ⟨literal, hcontains⟩ := (ih entered q hq).mp hid
          exact ⟨_, .inside hq hcontains⟩
      · rintro ⟨literal, hcontains⟩
        cases hcontains with
        | here => exact .inl rfl
        | inside hq hcontains => exact .inr ⟨_, _, hq, (ih _ _ hq).mpr ⟨_, hcontains⟩⟩

/-- The concerns of an outline are those of the pieces that stand somewhere in it. -/
theorem mem_concerns_iff {c : Concern} : c ∈ outlinesConcerns p.outline ↔
    ∃ literal q, p.Contains literal q ∧ c ∈ q.concerns := by
  induction p using inward with
  | h p ih =>
      rw [mem_concerns_step]
      constructor
      · rintro (hc | ⟨entered, q, hq, hc⟩)
        · exact ⟨false, p, .here p, hc⟩
        · obtain ⟨literal, r, hcontains, hc⟩ := (ih entered q hq).mp hc
          exact ⟨_, r, .inside hq hcontains, hc⟩
      · rintro ⟨literal, r, hcontains, hc⟩
        cases hcontains with
        | here => exact .inl hc
        | inside hq hcontains => exact .inr ⟨_, _, hq, (ih _ _ hq).mpr ⟨_, r, hcontains, hc⟩⟩

/-- The variables that an outline declares in loops are those that stand in a loop, and not in a
statement that is kept whole. -/
theorem mem_loopLocals_iff {n : Nat} {inLoop : Bool} : n ∈ outlinesLoopLocals inLoop p.outline ↔
    ∃ around id, p.Stands around (.ident id) ∧ id.declared? = some n ∧
      (inLoop || around.any StmtForm.isLoop) = true ∧ around.any StmtForm.isWhole = false := by
  induction p using inward generalizing inLoop with
  | h p ih =>
      rw [mem_loopLocals_step]
      constructor
      · rintro (⟨id, rfl, rfl, hid⟩ | ⟨hwhole, q, hq, hn⟩)
        · exact ⟨[], id, .here _, hid, rfl, rfl⟩
        · obtain ⟨around, id, hstands, hid, hloop, hwhole'⟩ :=
            (ih false q (mem_steps_of_mem_pieces hq)).mp hn
          refine ⟨_, id, .inside hq hstands, hid, ?_, ?_⟩
          · simpa [or_assoc, or_comm, or_left_comm] using hloop
          · rw [List.any_append, hwhole, hwhole', Bool.or_false]
      · rintro ⟨around, id, hstands, hid, hloop, hwhole⟩
        cases hstands with
        | here =>
            exact .inl ⟨id, rfl, by simpa using hloop, hid⟩
        | inside hq hstands =>
            rw [List.any_append, Bool.or_eq_false_iff] at hwhole
            refine .inr ⟨hwhole.2, _, hq, (ih false _ (mem_steps_of_mem_pieces hq)).mpr ?_⟩
            refine ⟨_, id, hstands, hid, ?_, hwhole.1⟩
            simpa [or_assoc, or_comm, or_left_comm] using hloop

theorem Contains.trans {literal literal' : Bool} (h : p.Contains literal q)
    (h' : q.Contains literal' r) : p.Contains (literal || literal') r := by
  induction h with
  | here => simpa using h'
  | inside hq _ ih =>
      rw [Bool.or_assoc]
      exact .inside hq (ih h')

/-- What has the body of a function literal around it stands in a statement of one. -/
theorem Contains.exists_literal (h : p.Contains true r) : ∃ outer site head body, ∃ s ∈ body,
    p.Contains outer (.expr (.mk site (.func head body))) ∧
      ∃ inner, (Piece.stmt s).Contains inner r := by
  generalize htrue : true = literal at h
  induction h with
  | here => cases htrue
  | @inside p q r entered literal hq hcontains ih =>
      cases literal with
      | true =>
          obtain ⟨outer, site, head, body, s, hs, houter, hinner⟩ := ih rfl
          exact ⟨_, site, head, body, s, hs, .inside hq houter, hinner⟩
      | false =>
          -- the step itself leads into the body
          obtain rfl : true = entered := by simpa using htrue
          unfold steps at hq
          split at hq
          · rename_i site head body
            obtain ⟨s, hs, heq⟩ := List.mem_map.mp ((List.mem_cons.mp hq).resolve_left nofun)
            obtain rfl := (Prod.mk.inj heq).2
            exact ⟨false, site, head, body, s, hs, .here _, false, hcontains⟩
          · simp at hq

theorem mem_idents_stmts {body : List Stmt} {id : Ident} : id ∈ outlinesIdents (outlineStmts body) ↔
    ∃ s ∈ body, ∃ literal, (Piece.stmt s).Contains literal (.ident id) := by
  simp only [← mem_idents_iff, outlinesIdents_eq_flatMap, outlineStmts_eq_flatMap,
    List.flatMap_assoc, List.mem_flatMap (b := id), outline]

/-- An identifier is looked at as a captured one where it stands in the body of a function
literal. -/
theorem captured_mem_concerns_iff {id : Ident} :
    .captured id ∈ outlinesConcerns p.outline ↔ p.Contains true (.ident id) := by
  rw [mem_concerns_iff]
  constructor
  · rintro ⟨literal, q, hq, hc⟩
    unfold concerns at hc
    split at hc
    · simp at hc
    · obtain ⟨s, hs, inner, hid⟩ : ∃ s ∈ _, _ := mem_idents_stmts.mp (by simpa using hc)
      simpa using hq.trans (.of_mem_body hs hid)
    · cases hc
  · intro h
    obtain ⟨outer, site, head, body, s, hs, houter, hinner⟩ := h.exists_literal
    refine ⟨outer, _, houter, ?_⟩
    simp [concerns, mem_idents_stmts.mpr ⟨s, hs, hinner⟩]

/-- The address of an identifier is looked at where an address operator stands before it, with or
without parentheses. -/
theorem addressed_mem_concerns_iff {id : Ident} : .addressed id ∈ outlinesConcerns p.outline ↔
    ∃ literal site x, p.Contains literal (.expr (.mk site (.unary .address x))) ∧
      x.unparen.ident? = some id := by
  rw [mem_concerns_iff]
  constructor
  · rintro ⟨literal, q, hq, hc⟩
    unfold concerns at hc
    split at hc
    · exact ⟨literal, _, _, hq, by simpa using hc⟩
    · simp at hc
    · cases hc
  · rintro ⟨literal, site, x, hx, hid⟩
    exact ⟨literal, _, hx, by simp [concerns, hid]⟩

/-- A function literal is looked at where a mark of an element stands in its body. -/
theorem yielding_mem_concerns_iff : (∃ pos, .yielding pos ∈ outlinesConcerns p.outline) ↔
    ∃ id, p.Contains true (.ident id) ∧ id.isYield = true := by
  simp only [mem_concerns_iff]
  constructor
  · rintro ⟨pos, literal, q, hq, hc⟩
    unfold concerns at hc
    split at hc
    · simp at hc
    · rename_i body
      have hyields : usesYield (outlineStmts body) = true := by
        by_contra hyields
        simp [hyields] at hc
      obtain ⟨id, hid, hyield⟩ := List.any_eq_true.mp hyields
      obtain ⟨s, hs, inner, hid⟩ := mem_idents_stmts.mp hid
      exact ⟨id, by simpa using hq.trans (.of_mem_body hs hid), hyield⟩
    · cases hc
  · rintro ⟨id, h, hyield⟩
    obtain ⟨outer, site, head, body, s, hs, houter, hinner⟩ := h.exists_literal
    have hyields : usesYield (outlineStmts body) = true :=
      List.any_eq_true.mpr ⟨id, mem_idents_stmts.mpr ⟨s, hs, hinner⟩, hyield⟩
    exact ⟨site.pos, outer, _, houter, by simp [concerns, hyields]⟩

end Collections

end Piece

/-- Whether a concern is no problem, where some variables may not be kept. -/
def Concern.Harmless (locals : List Nat) : Concern → Prop
  | .yielding _ => False
  | .captured id | .addressed id => ∀ n ∈ locals, id.used? ≠ some n

theorem keptProblem_eq_nil {locals : List Nat} {id : Ident} (reason : String → Reason) :
    (keptProblem locals [] id reason).1 = [] ↔ ∀ n ∈ locals, id.used? ≠ some n := by
  unfold keptProblem
  cases id.used? with
  | none => simp
  | some n => by_cases hn : n ∈ locals <;> grind

theorem keptProblem_reported {locals : List Nat} {id : Ident} {reason : String → Reason}
    (h : (keptProblem locals [] id reason).1 = []) : (keptProblem locals [] id reason).2 = [] := by
  unfold keptProblem at h ⊢
  cases hused : id.used? with
  | none => rfl
  | some n => by_cases hn : n ∈ locals <;> simp_all

/-- There are no problems exactly when no concern is one: nothing is passed over before the first
problem is reported. -/
theorem concernProblems_eq_nil {locals : List Nat} {cs : List Concern} :
    concernProblems locals [] cs = [] ↔ ∀ c ∈ cs, c.Harmless locals := by
  have hkept : ∀ (id : Ident) (reason : String → Reason) (cs : List Concern),
      (concernProblems locals [] cs = [] ↔ ∀ c ∈ cs, c.Harmless locals) →
      ((keptProblem locals [] id reason).1 ++
          concernProblems locals (keptProblem locals [] id reason).2 cs = [] ↔
        (∀ n ∈ locals, id.used? ≠ some n) ∧ ∀ c ∈ cs, c.Harmless locals) := by
    intro id reason cs ih
    rw [List.append_eq_nil_iff, ← ih, ← keptProblem_eq_nil reason]
    exact and_congr_right fun h => by rw [keptProblem_reported h]
  induction cs with
  | nil => simp [concernProblems]
  | cons c cs ih =>
      rw [List.forall_mem_cons]
      cases c with
      | yielding pos => simp [concernProblems, Concern.Harmless]
      | captured id => exact hkept id .captured cs ih
      | addressed id => exact hkept id .addressed cs ih

/-- Whether a variable is declared in a loop of a body and shared by the rounds of the loop.
Function literals, selects and type switches have variables of their own. -/
def LoopVariable (body : List Stmt) (n : Nat) : Prop :=
  ∃ s ∈ body, ∃ around id, (Piece.stmt s).Stands around (.ident id) ∧ id.declared? = some n ∧
    around.any StmtForm.isLoop = true ∧ around.any StmtForm.isWhole = false

theorem mem_loopLocals_stmts {body : List Stmt} {n : Nat} :
    n ∈ outlinesLoopLocals false (outlineStmts body) ↔ LoopVariable body n := by
  rw [outlineStmts_eq_flatMap, Piece.outlinesLoopLocals_eq_flatMap, List.flatMap_assoc,
    List.mem_flatMap]
  refine exists_congr fun s => and_congr_right fun _ => ?_
  rw [← Piece.outlinesLoopLocals_eq_flatMap]
  exact Piece.mem_loopLocals_iff (p := .stmt s)

theorem mem_concerns_stmts {body : List Stmt} {c : Concern} :
    c ∈ outlinesConcerns (outlineStmts body) ↔
      ∃ s ∈ body, c ∈ outlinesConcerns (Piece.stmt s).outline := by
  simp only [Piece.outlinesConcerns_eq_flatMap, outlineStmts_eq_flatMap, List.flatMap_assoc,
    List.mem_flatMap (b := c), Piece.outline]

/-- A body as a whole has no problems exactly when no element is marked in a function literal, and
of the variables that it declares in loops none is used in a function literal and the address of
none is taken. -/
theorem bodyProblems_eq_nil_iff {body : List Stmt} : bodyProblems (outlineStmts body) = [] ↔
    (∀ s ∈ body, ∀ id, (Piece.stmt s).Contains true (.ident id) → id.isYield = false) ∧
      ∀ n, LoopVariable body n → ∀ s ∈ body, ∀ id, id.used? = some n →
        ¬ (Piece.stmt s).Contains true (.ident id) ∧
        ∀ literal site x, (Piece.stmt s).Contains literal (.expr (.mk site (.unary .address x))) →
          x.unparen.ident? ≠ some id := by
  unfold bodyProblems
  rw [concernProblems_eq_nil]
  constructor
  · intro h
    have hconcern : ∀ s ∈ body, ∀ c ∈ outlinesConcerns (Piece.stmt s).outline, c.Harmless _ :=
      fun s hs c hc => h c (mem_concerns_stmts.mpr ⟨s, hs, hc⟩)
    refine ⟨fun s hs id hid => ?_, fun n hn s hs id hused => ⟨fun hid => ?_, ?_⟩⟩
    · by_contra hyield
      obtain ⟨pos, hc⟩ := Piece.yielding_mem_concerns_iff.mpr ⟨id, hid, by simpa using hyield⟩
      exact hconcern s hs _ hc
    · have hc := Piece.captured_mem_concerns_iff.mpr hid
      exact hconcern s hs _ hc n (mem_loopLocals_stmts.mpr hn) hused
    · intro literal site x hx hid
      have hc := Piece.addressed_mem_concerns_iff.mpr ⟨literal, site, x, hx, hid⟩
      exact hconcern s hs _ hc n (mem_loopLocals_stmts.mpr hn) hused
  · rintro ⟨hyields, hkept⟩ c hc
    obtain ⟨s, hs, hc⟩ := mem_concerns_stmts.mp hc
    cases c with
    | yielding pos =>
        obtain ⟨id, hid, hyield⟩ := Piece.yielding_mem_concerns_iff.mp ⟨pos, hc⟩
        rw [hyields s hs id hid] at hyield
        cases hyield
    | captured id =>
        intro n hn hused
        exact (hkept n (mem_loopLocals_stmts.mp hn) s hs id hused).1
          (Piece.captured_mem_concerns_iff.mp hc)
    | addressed id =>
        intro n hn hused
        obtain ⟨literal, site, x, hx, hid⟩ := Piece.addressed_mem_concerns_iff.mp hc
        exact (hkept n (mem_loopLocals_stmts.mp hn) s hs id hused).2 literal site x hx hid

mutual

/-- The identifier that an operand starts with: it is the operand itself, or the operand selects a
field or an element of it, or of a part of it. -/
def Expr.root? : Expr → Option Ident
  | .missing => none
  | .mk _ form => form.root?

/-- The identifier that a form of operand starts with. -/
def Form.root? : Form → Option Ident
  | .ident id => some id
  | .sel x _ => x.root?
  | .index x _ => x.root?
  | .paren x => x.root?
  | _ => none

end

section Roots

variable {id : Ident}

mutual

theorem Expr.root?_of_unparen {x : Expr} (h : x.unparen.ident? = some id) : x.root? = some id := by
  cases x with
  | missing => cases h
  | mk site form => exact form.root?_of_unparen h

theorem Form.root?_of_unparen {site : Site} (form : Form)
    (h : (Expr.unparenForm site form).ident? = some id) : form.root? = some id := by
  cases form with
  | ident id' => exact h
  | paren x => exact x.root?_of_unparen h
  | _ => cases h

end

mutual

/-- The identifier that an operand starts with stands in it. -/
theorem Expr.contains_root? (x : Expr) (h : x.root? = some id) :
    (Piece.expr x).Contains false (.ident id) := by
  cases x with
  | missing => cases h
  | mk site form => exact form.contains_root? site h

theorem Form.contains_root? (form : Form) (site : Site) (h : form.root? = some id) :
    (Piece.expr (.mk site form)).Contains false (.ident id) := by
  cases form with
  | ident id' =>
      obtain rfl := Option.some.inj h
      exact .of_mem_pieces (.head _) (.here _)
  | sel x member => exact .of_mem_pieces (.head _) (x.contains_root? h)
  | index x i => exact .of_mem_pieces (.head _) (x.contains_root? h)
  | paren x => exact .of_mem_pieces (.head _) (x.contains_root? h)
  | _ => cases h

end

end Roots

section Generators

theorem Func.bodyProblems_routine {f : Func} {runtime : String} {qualify : PackageRef → String}
    {holder : String} {element : Ty} {body : List Stmt}
    (h : (f.routine runtime qualify holder element body).problems = []) :
    bodyProblems (outlineStmts body) = [] := by
  unfold Func.routine at h
  cases hrecv : f.receiver? with
  | none =>
      simp only [hrecv, problems_bind_eq_nil, convertBody] at h
      exact h.2.2.1.1
  | some field =>
      simp only [hrecv, problems_bind_eq_nil, convertBody] at h
      exact h.2.2.2.1.1

/-- Wherever an accepted generator takes the address of a variable that it declares in a loop, or of
a part of one, it is that of a part, and no function literal is around it. -/
theorem File.scan_loop_pointers {file : File} {pkg : Package} {holders : List String}
    {g : Generator} (hg : g ∈ (file.scan pkg holders).generators) {fn : Routine}
    (hfn : g.routine = some fn) {body : List Stmt} (hbody : g.func.body = some body) {n : Nat}
    (hn : LoopVariable body n) {s : Stmt} (hs : s ∈ body) {literal : Bool} {site : Site} {x : Expr}
    (hpointer : (Piece.stmt s).Contains literal (.expr (.mk site (.unary .address x))))
    {id : Ident} (hroot : x.root? = some id) (hused : id.used? = some n) :
    literal = false ∧ x.unparen.ident? = none := by
  obtain ⟨taken, hconvert⟩ := scanFuncs_convert hg hfn
  obtain ⟨runtime, holder, element, hproblems, -⟩ := Func.convert_ok hconvert hbody
  obtain ⟨-, hkept⟩ := bodyProblems_eq_nil_iff.mp (Func.bodyProblems_routine hproblems)
  obtain ⟨hcaptured, haddressed⟩ := hkept n hn s hs id hused
  constructor
  · by_contra hliteral
    obtain rfl : literal = true := by simpa using hliteral
    exact hcaptured (hpointer.trans (.of_mem_pieces (.head _) (x.contains_root? hroot)))
  · by_contra hident
    obtain ⟨id', hid'⟩ := Option.ne_none_iff_exists'.mp hident
    obtain rfl := Option.some.inj (hroot.symm.trans (x.root?_of_unparen hid'))
    exact haddressed literal site x hpointer hid'

/-- The type `struct{ x int }`. -/
def oneField : Ty := .struct [⟨"x", .basic "int", false, ""⟩]

/-- The variable `p` of this type, where it is declared. -/
def declaredPoint : Ident := ⟨"p", ⟨7, 7⟩, some ⟨1, true, "p", "example.com/sample", some oneField⟩⟩

/-- The variable `p`, where it is used. -/
def usedPoint : Ident := ⟨"p", ⟨8, 6⟩, some ⟨1, false, "p", "example.com/sample", some oneField⟩⟩

/-- The operand `p.x`. -/
def pointField : Expr := untyped (.sel (untyped (.ident usedPoint)) ⟨"x", ⟨8, 8⟩, none⟩)

/-- The expression `&p.x`. -/
def fieldAddress : Expr := untyped (.unary .address pointField)

/-- The statement `f(&p.x)`. -/
def keepsField : Stmt :=
  .mk ⟨8, 3⟩ (.expr (untyped (.call (untyped (.ident ⟨"f", ⟨8, 3⟩, none⟩)) [fieldAddress] false)))

/-- The entry `p struct{ x int }` of a declaration. -/
def pointSpec : Spec :=
  .value [declaredPoint]
    (untyped (.struct (.list [.mk [⟨"x", ⟨7, 17⟩, none⟩]
      (untyped (.ident ⟨"int", ⟨7, 19⟩, none⟩)) none])))
    []

/-- The loop `for { var p struct{ x int }; f(&p.x); yieldgen.Yield(1) }`. -/
def pointing : StmtForm :=
  .loop .missing .missing .missing
    [.mk ⟨7, 3⟩ (.decl .var [pointSpec]), keepsField, .mk ⟨9, 3⟩ (.expr yieldOne)]

/-- A body with this loop. -/
def pointingBody : List Stmt := [.mk ⟨6, 2⟩ pointing, returnNil]

theorem loopVariable_pointing : LoopVariable pointingBody 1 := by
  have hspec := Piece.Stands.inside (p := .spec pointSpec) (.head _)
    (.here (.ident declaredPoint))
  have hdecl := Piece.Stands.inside (p := .stmt (.mk ⟨7, 3⟩ (.decl .var [pointSpec]))) (.head _)
    hspec
  have hloop := Piece.Stands.inside (p := .stmt (.mk ⟨6, 2⟩ pointing))
    (by simp [Piece.pieces, StmtForm.pieces, pointing]) hdecl
  exact ⟨.mk ⟨6, 2⟩ pointing, .head _, _, declaredPoint, hloop, rfl, rfl, rfl⟩

theorem contains_fieldAddress :
    (Piece.stmt (.mk ⟨6, 2⟩ pointing)).Contains false (.expr fieldAddress) := by
  have hcall : (Piece.stmt keepsField).Contains false (.expr fieldAddress) :=
    .of_mem_pieces (.head _) (.of_mem_pieces (.tail _ (.head _)) (.here _))
  exact .of_mem_pieces (by simp [Piece.pieces, StmtForm.pieces, pointing]) hcall

theorem pointing_loop_pointers :
    ∃ g ∈ ((producing pointingBody).scan (producingPackage pointingBody) []).generators,
      ∃ fn, g.routine = some fn ∧ g.func.body = some pointingBody ∧ LoopVariable pointingBody 1 ∧
        .mk ⟨6, 2⟩ pointing ∈ pointingBody ∧
        (Piece.stmt (.mk ⟨6, 2⟩ pointing)).Contains false (.expr fieldAddress) ∧
        pointField.root? = some usedPoint ∧ usedPoint.used? = some 1 ∧
        pointField.unparen.ident? = none := by
  obtain ⟨g, hg, hbody, qualify, holder, hfn⟩ := scan_producing pointingBody (by decide)
    fun _ _ => rfl
  exact ⟨g, hg, _, hfn, hbody, loopVariable_pointing, .head _, contains_fieldAddress, rfl, rfl,
    (File.scan_loop_pointers hg hfn hbody loopVariable_pointing (.head _) contains_fieldAddress rfl
      rfl).2⟩

/-- A pointer into a variable of a loop is accepted, and the variable becomes one field of the
holder, which the pointers of all rounds lead into. -/
theorem pointing_shares_field :
    ∃ g ∈ ((producing pointingBody).scan (producingPackage pointingBody) []).generators,
      ∃ fn h, g.routine = some fn ∧ fn.lower = .ok h ∧ g.func.body = some pointingBody ∧
        LoopVariable pointingBody 1 ∧
        (Piece.stmt (.mk ⟨6, 2⟩ pointing)).Contains false (.expr fieldAddress) ∧
        pointField.root? = some usedPoint ∧ usedPoint.used? = some 1 ∧
        h.fields.map Prod.fst = ["p"] := by
  obtain ⟨g, hg, hbody, qualify, holder, hfn⟩ := scan_producing pointingBody (by decide)
    fun _ _ => rfl
  obtain ⟨h, hlower, hfields⟩ : ∃ h, ((produced pointingBody).routine "yieldgen" qualify holder
      (.basic "int") pointingBody).value.lower = .ok h ∧ h.fields.map Prod.fst = ["p"] :=
    ⟨_, by cbv, rfl⟩
  exact ⟨g, hg, _, h, hfn, hlower, hbody, loopVariable_pointing, contains_fieldAddress, rfl, rfl,
    hfields⟩

end Generators

end YieldMachine.Source
