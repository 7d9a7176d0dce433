import YieldMachine.Proofs.Source.Literals

/-!
# Keys of a generator

An accepted generator keeps the keys that name fields.  Each literal of its table is one of the
source, with those keys kept and no others, and each literal of the source that is retained is in
the table.  The type that is recorded for a literal decides.  Where `&T{...}` stands in a literal
of pointers without its type, that is a pointer and no struct: the keys are taken for variables,
and replaced where a variable has such a name.
-/

namespace YieldMachine

/-- No literal stands in a spelled type. -/
theorem Ty.not_holds_spell {l : Literal} (q : PackageRef → String) (t : Ty) :
    ¬ (t.spell q).Holds l := by
  refine Outward.spell (P := fun n => ¬ n.Holds l) (fun n htype hparts => ?_) q t
  have hnone : n.keptKeys? = none := by
    cases n with
    | expr e =>
        cases e with
        | composite ty elements => cases htype
        | _ => rfl
    | _ => rfl
  show ¬ n.Holds l
  rw [Node.holds_iff hnone]
  rintro ⟨p, hp, hholds⟩
  exact hparts p.2 (List.mem_map_of_mem hp) hholds

namespace Source

section Operands

variable {l : Literal} {ctx : Context}

namespace Piece

variable {p q : Piece}

theorem RetainsLiteral.of_mem (hq : q ∈ p.retained) (h : q.RetainsLiteral l) :
    p.RetainsLiteral l := by
  obtain ⟨site, ty, elements, hretains, hkeys⟩ := h
  exact ⟨site, ty, elements, .inside hq hretains, hkeys⟩

/-- What is retained in a piece that is no literal is retained right inside. -/
theorem RetainsLiteral.exists_mem (h : p.RetainsLiteral l)
    (hp : ∀ site ty elements, p ≠ .expr (.mk site (.composite ty elements))) :
    ∃ q ∈ p.retained, q.RetainsLiteral l := by
  obtain ⟨site, ty, elements, hretains, hkeys⟩ := h
  cases hretains with
  | here => exact absurd rfl (hp site ty elements)
  | inside hq hretains => exact ⟨_, hq, site, ty, elements, hretains, hkeys⟩

theorem ContainsLiteral.of_mem (hq : q ∈ p.pieces) (h : q.ContainsLiteral l) :
    p.ContainsLiteral l := by
  obtain ⟨literal, site, ty, elements, hcontains, hkeys⟩ := h
  exact ⟨literal, site, ty, elements, .of_mem_pieces hq hcontains, hkeys⟩

end Piece

theorem Expr.retainsLiteral_unparen (e : Expr) (h : (Piece.expr e).RetainsLiteral l) :
    (Piece.expr e.unparen).RetainsLiteral l := by
  cases e with
  | missing => exact h
  | mk site form =>
      cases form with
      | paren x =>
          obtain ⟨q, hq, h⟩ := h.exists_mem (by simp)
          obtain rfl := List.mem_singleton.mp hq
          exact x.retainsLiteral_unparen h
      | _ => exact h

theorem Expr.containsLiteral_of_unparen (e : Expr) (h : (Piece.expr e.unparen).ContainsLiteral l) :
    (Piece.expr e).ContainsLiteral l := by
  cases e with
  | missing => exact h
  | mk site form =>
      cases form with
      | paren x => exact .of_mem (.head _) (x.containsLiteral_of_unparen h)
      | _ => exact h

/-- A call of a function that marks its argument retains what the argument retains. -/
theorem Expr.retainsLiteral_runtimeArg {name : String} {e arg : Expr}
    (harg : e.runtimeArg? name = some arg) (hname : name = "Yield" ∨ name = "Seq")
    (h : (Piece.expr e).RetainsLiteral l) : (Piece.expr arg).RetainsLiteral l := by
  have hcall := e.retainsLiteral_unparen h
  unfold Expr.runtimeArg? at harg
  split at harg
  · rename_i site fn only spread hunparen
    rw [hunparen] at hcall
    split at harg
    · rename_i huses
      obtain rfl := Option.some.inj harg
      have hmark : fn.callee?.any Ident.isMark = true := by
        obtain ⟨id, hid, huses⟩ := (Option.any_eq_true _ _).mp huses
        refine (Option.any_eq_true _ _).mpr ⟨id, hid, ?_⟩
        rcases hname with rfl | rfl <;> simp [Ident.isMark, huses]
      obtain ⟨q, hq, h⟩ := hcall.exists_mem (by simp)
      simp only [Piece.retained, hmark, if_true] at hq
      obtain rfl := List.mem_singleton.mp hq
      exact h
    · cases harg
  · cases harg

theorem Expr.containsLiteral_of_runtimeArg {name : String} {e arg : Expr}
    (harg : e.runtimeArg? name = some arg) (h : (Piece.expr arg).ContainsLiteral l) :
    (Piece.expr e).ContainsLiteral l := by
  refine e.containsLiteral_of_unparen ?_
  unfold Expr.runtimeArg? at harg
  split at harg
  · rename_i site fn only spread hunparen
    rw [hunparen]
    split at harg
    · obtain rfl := Option.some.inj harg
      exact .of_mem (.tail _ (.head _)) h
    · cases harg
  · cases harg

theorem Context.holds_adapter {name : String} {x : YieldMachine.Expr} :
    (ctx.adapter name x).Holds l ↔ x.Holds l := by
  simp [Context.adapter, YieldMachine.Expr.holds_call, YieldMachine.Expr.holds_sel,
    YieldMachine.Expr.not_holds_name]

theorem holds_wholeSlice {x : YieldMachine.Expr} : (wholeSlice x).Holds l ↔ x.Holds l := by
  rw [wholeSlice, YieldMachine.Expr.holds_iff [x, .missing, .missing, .missing] rfl rfl]
  simp [YieldMachine.Expr.not_holds_missing]

/-- The iterator of a range statement is made of its operand, or of the sequence in it. -/
theorem Context.adapter_iteration {x : Expr} {it : Iteration} (hit : ctx.iteration x = .ok it) :
    ∃ operand, (operand = x ∨ x.runtimeArg? "Seq" = some operand) ∧
      (it.adapter.Holds l ↔ operand.erase.Holds l) := by
  unfold Context.iteration at hit
  cases hseq : x.runtimeArg? "Seq" with
  | some arg =>
      simp only [hseq] at hit
      split at hit
      · cases hit
        exact ⟨arg, .inr rfl, Context.holds_adapter⟩
      · cases hit
  | none =>
      refine ⟨x, .inl rfl, ?_⟩
      simp only [hseq] at hit
      split at hit
      · rename_i t htyped
        obtain ⟨type, shape⟩ := t
        unfold Context.iterationOver at hit
        split at hit
        · cases hit
        · cases shape with
          | array element =>
              simp only at hit
              split at hit
              · cases hit
                exact Context.holds_adapter.trans holds_wholeSlice
              · cases hit
          | arrayPointer element =>
              cases hit
              exact Context.holds_adapter.trans holds_wholeSlice
          | slice | map | chan | text | integer =>
              cases hit
              exact Context.holds_adapter
          | _ => cases hit
      · cases hit

theorem Context.holds_iteration {x : Expr} {it : Iteration} (hit : ctx.iteration x = .ok it)
    (h : (Piece.expr x).RetainsLiteral l) : it.adapter.Holds l := by
  obtain ⟨operand, rfl | hseq, hholds⟩ := Context.adapter_iteration hit
  · exact hholds.mpr (Piece.holds_of_retainsLiteral h)
  · exact hholds.mpr
      (Piece.holds_of_retainsLiteral (Expr.retainsLiteral_runtimeArg hseq (.inr rfl) h))

theorem Context.containsLiteral_iteration {x : Expr} {it : Iteration}
    (hit : ctx.iteration x = .ok it) (h : it.adapter.Holds l) :
    (Piece.expr x).ContainsLiteral l := by
  obtain ⟨operand, hoperand, hholds⟩ :
      ∃ operand, (operand = x ∨ x.runtimeArg? "Seq" = some operand) ∧
        (it.adapter.Holds l ↔ operand.erase.Holds l) := Context.adapter_iteration hit
  have harg : (Piece.expr operand).ContainsLiteral l := Piece.containsLiteral_of_holds (hholds.mp h)
  rcases hoperand with rfl | hseq
  · exact harg
  · exact Expr.containsLiteral_of_runtimeArg hseq harg

end Operands

/-- Whether `lo` holds where a literal with these keys is retained in one of the pieces `ps`, and
one stands in one of the pieces `qs` where `hi` holds. -/
structure Carries (l : Literal) (ps qs : List Piece) (lo hi : Prop) : Prop where
  low : (∃ p ∈ ps, p.RetainsLiteral l) → lo
  high : hi → ∃ q ∈ qs, q.ContainsLiteral l

/-- Whether statements of a generator body have the literals of pieces: those that `ps` retain, and
no others than those in `qs`. -/
def Becomes (l : Literal) (ps qs : List Piece) (fs : List Flow) : Prop :=
  Carries l ps qs (PartsHold Flow.operands l (flowsParts fs))
    (PartsHold Flow.trees l (flowsParts fs))

section Carrying

variable {l : Literal} {ps qs ps' qs' : List Piece} {lo hi lo' hi' : Prop}
  {fs gs : List Flow}

namespace Carries

theorem mono (h : Carries l ps qs lo hi) (hps : ps' ⊆ ps) (hqs : qs ⊆ qs') :
    Carries l ps' qs' lo hi where
  low := fun ⟨p, hp, hretains⟩ => h.low ⟨p, hps hp, hretains⟩
  high hhi :=
    let ⟨q, hq, hcontains⟩ := h.high hhi
    ⟨q, hqs hq, hcontains⟩

theorem congr (h : Carries l ps qs lo hi) (hlo : lo ↔ lo') (hhi : hi ↔ hi') :
    Carries l ps qs lo' hi' :=
  ⟨fun h' => hlo.mp (h.low h'), fun h' => h.high (hhi.mpr h')⟩

theorem append (h : Carries l ps qs lo hi) (h' : Carries l ps' qs' lo' hi') :
    Carries l (ps ++ ps') (qs ++ qs') (lo ∨ lo') (hi ∨ hi') where
  low := by
    rintro ⟨p, hp, hretains⟩
    exact (List.mem_append.mp hp).imp (fun hp => h.low ⟨p, hp, hretains⟩)
      fun hp => h'.low ⟨p, hp, hretains⟩
  high := by
    rintro (hhi | hhi)
    · obtain ⟨q, hq, hcontains⟩ := h.high hhi
      exact ⟨q, List.mem_append_left _ hq, hcontains⟩
    · obtain ⟨q, hq, hcontains⟩ := h'.high hhi
      exact ⟨q, List.mem_append_right _ hq, hcontains⟩

theorem nil : Carries l [] [] False False := ⟨by simp, False.elim⟩

/-- The tree of a piece has its literals. -/
theorem piece (p : Piece) : Carries l [p] [p] (p.Holds l) (p.Holds l) where
  low := by
    rintro ⟨q, hq, hretains⟩
    obtain rfl := List.mem_singleton.mp hq
    exact Piece.holds_of_retainsLiteral hretains
  high h := ⟨p, .head _, Piece.containsLiteral_of_holds h⟩

theorem exprs (es : List Expr) : Carries l (es.map .expr) (es.map .expr)
    (ExprsHold l (eraseExprs es)) (ExprsHold l (eraseExprs es)) where
  low := by
    rintro ⟨p, hp, hretains⟩
    exact exprsHold_eraseExprs.mpr ⟨p, hp, Piece.holds_of_retainsLiteral hretains⟩
  high h :=
    let ⟨q, hq, hholds⟩ := exprsHold_eraseExprs.mp h
    ⟨q, hq, Piece.containsLiteral_of_holds hholds⟩

/-- A piece that is no literal has the literals of the pieces inside. -/
theorem inside {p : Piece} (hp : ∀ site ty elements, p ≠ .expr (.mk site (.composite ty elements)))
    (h : Carries l p.retained p.pieces lo hi) : Carries l [p] [p] lo hi where
  low := by
    rintro ⟨q, hq, hretains⟩
    obtain rfl := List.mem_singleton.mp hq
    exact h.low (hretains.exists_mem hp)
  high hhi :=
    let ⟨q, hq, hcontains⟩ := h.high hhi
    ⟨p, .head _, .of_mem hq hcontains⟩

/-- A statement has the literals of the pieces inside. -/
theorem stmt {s : Stmt}
    (h : Carries l (Piece.stmt s).retained (Piece.stmt s).pieces lo hi) :
    Carries l [.stmt s] [.stmt s] lo hi := inside (by simp) h

end Carries

theorem partsHold_of_mem {trees : Flow → List Node} {f : Flow} (hf : f ∈ fs)
    (h : PartsHold trees l f.parts) : PartsHold trees l (flowsParts fs) := by
  induction fs with
  | nil => cases hf
  | cons g fs ih =>
      rw [flowsParts, partsHold_append]
      rcases List.mem_cons.mp hf with rfl | hf
      · exact .inl h
      · exact .inr (ih hf)

theorem flowsParts_append (fs gs : List Flow) :
    flowsParts (fs ++ gs) = flowsParts fs ++ flowsParts gs := by
  induction fs with
  | nil => rfl
  | cons f fs ih => simp [flowsParts, ih]

theorem becomes_singleton {f : Flow} : Becomes l ps qs [f] ↔
    Carries l ps qs (PartsHold Flow.operands l f.parts)
      (PartsHold Flow.trees l f.parts) := by
  simp [Becomes, flowsParts]

namespace Becomes

variable {f : Flow}

theorem nil : Becomes l [] [] [] := Carries.nil.congr (by simp [flowsParts, partsHold_nil])
  (by simp [flowsParts, partsHold_nil])

theorem append (h : Becomes l ps qs fs) (h' : Becomes l ps' qs' gs) :
    Becomes l (ps ++ ps') (qs ++ qs') (fs ++ gs) := by
  unfold Becomes
  rw [flowsParts_append, partsHold_append, partsHold_append]
  exact Carries.append h h'

/-- A statement around others that has no literals of its own. -/
theorem around (h : Becomes l ps qs fs) (hparts : f.parts = f :: flowsParts fs)
    (hoperands : f.operands = []) (htrees : f.trees = []) : Becomes l ps qs [f] := by
  rw [becomes_singleton, hparts, partsHold_cons, partsHold_cons, hoperands, htrees]
  simpa [Becomes] using h

theorem block (h : Becomes l ps qs fs) : Becomes l ps qs [.block fs] := h.around rfl rfl rfl

theorem labeled (h : Becomes l ps qs [f]) (label : String) :
    Becomes l ps qs [.labeled label f] :=
  h.around (by simp [Flow.parts, flowsParts]) rfl rfl

theorem asOne (h : Becomes l ps qs fs) : Becomes l ps qs [asOne fs] := by
  match fs with
  | [] => exact h.block
  | [f] => exact h
  | _ :: _ :: _ => exact h.block

/-- Statements that initialise another one. -/
theorem aroundInit {written : Bool} (hinit : Becomes l ps qs fs)
    (hbare : written = false → fs = []) (h : Becomes l ps' qs' [f]) :
    Becomes l (ps ++ ps') (qs ++ qs') [aroundInit written fs f] := by
  cases written with
  | true => exact (hinit.append h).block
  | false =>
      obtain rfl := hbare rfl
      exact hinit.append h

/-- One of some statements, where there is no other one if `keep` holds. -/
theorem only {keep : Bool} (h : Becomes l ps qs fs) (hmem : f = .missing ∨ f ∈ fs)
    (honly : keep = true → fs = [] ∨ fs = [f]) :
    Becomes l (if keep then ps else []) qs [f] := by
  rw [becomes_singleton]
  constructor
  · intro hretains
    cases keep with
    | false => simp at hretains
    | true =>
        have hlow := h.low hretains
        obtain rfl | rfl := honly rfl
        · exact (partsHold_nil hlow).elim
        · simpa [flowsParts] using hlow
  · intro hhi
    obtain rfl | hf := hmem
    · simp [Flow.parts, PartsHold, Flow.trees, Flow.operands] at hhi
    · exact h.high (partsHold_of_mem hf hhi)

/-- An optional part of a statement. -/
theorem part (h : Becomes l ps qs [f]) :
    Carries l ps qs (PartsHold Flow.operands l (if f.isMissing then [] else f.parts))
      (PartsHold Flow.trees l (if f.isMissing then [] else f.parts)) := by
  rw [holds_operands_part, holds_trees_part]
  exact becomes_singleton.mp h

theorem kept (pos : Pos) (form : StmtForm) :
    Becomes l [.stmt (.mk pos form)] [.stmt (.mk pos form)] [.simple form.erase] := by
  refine becomes_singleton.mpr ((Carries.piece (.stmt (.mk pos form))).congr ?_ ?_) <;>
    simp [Flow.parts, partsHold_cons, partsHold_nil, Flow.operands, Flow.trees, Stmt.erase,
      YieldMachine.Stmt.Holds]

/-- A statement without literals. -/
theorem none {pos : Pos} {form : StmtForm} (h : ¬ (Piece.stmt (.mk pos form)).Holds l)
    (hparts : f.parts = [f]) (hoperands : f.operands = []) (htrees : f.trees = []) :
    Becomes l [.stmt (.mk pos form)] [.stmt (.mk pos form)] [f] := by
  refine becomes_singleton.mpr ((Carries.piece _).congr (iff_of_false h ?_) (iff_of_false h ?_)) <;>
    simp [hparts, PartsHold, hoperands, htrees]

theorem yields {arg : Expr} : Becomes l [.expr arg] [.expr arg] [.yield arg.erase] := by
  refine becomes_singleton.mpr ((Carries.piece (.expr arg)).congr ?_ ?_) <;>
    simp [Flow.parts, partsHold_cons, partsHold_nil, Flow.operands, Flow.trees,
      YieldMachine.Expr.Holds]

end Becomes

end Carrying

section Statements

variable {l : Literal} {ctx : Context}

/-- No literal stands in the types of declared variables. -/
theorem Context.not_exprsHold_declTypes (names : List Ident) :
    ¬ ExprsHold l ((ctx.declTypes names).value.filterMap DeclType.own?) := by
  rw [value_declTypes]
  rintro ⟨ty, hty, hholds⟩
  obtain ⟨declared, hdeclared, hown⟩ := List.mem_filterMap.mp hty
  obtain ⟨id, -, rfl⟩ := List.mem_map.mp hdeclared
  unfold Context.declType at hown
  split at hown
  · split at hown
    · obtain rfl := Option.some.inj hown
      exact Ty.not_holds_spell _ _ hholds
    · cases hown
  · cases hown

/-- A literal in the type of declared variables is one of the type that is written for them. -/
theorem Context.containsLiteral_entry {names : List Ident} {ty : Expr} {values : List Expr}
    (h : ExprsHold l ((ctx.entry names ty values).types.filterMap DeclType.own?)) :
    (Piece.expr ty).ContainsLiteral l := by
  cases ty with
  | missing => exact (ctx.not_exprsHold_declTypes names h).elim
  | mk site form =>
      obtain ⟨type, htype, hholds⟩ := h
      obtain ⟨declared, hdeclared, hown⟩ := List.mem_filterMap.mp htype
      have heq : type = (Expr.mk site form).erase := by
        cases names with
        | nil => cases hdeclared
        | cons name names =>
            rcases List.mem_cons.mp hdeclared with rfl | hshared
            · exact (Option.some.inj hown).symm
            · obtain ⟨_, -, rfl⟩ := List.mem_map.mp hshared
              cases hown
      subst heq
      exact Piece.containsLiteral_of_holds hholds

/-- Variables that are not all blank have the type that is written for them. -/
theorem Context.holds_entry_type {names : List Ident} {ty : Expr} {values : List Expr}
    (hnames : names.all (·.name == "_") = false) (h : ty.erase.Holds l) :
    ExprsHold l (ctx.entry names ty values).writtenTypes := by
  refine VarDecl.exprsHold_writtenTypes.mpr ⟨rfl, ?_, ?_⟩
  · simpa [Context.entry, identNames] using hnames
  · cases ty with
    | missing => exact absurd h YieldMachine.Expr.not_holds_missing
    | mk site form =>
        cases names with
        | nil => cases hnames
        | cons name names => simpa [Context.entry, VarDecl.sharedType, sharedTypes] using h

/-- The declaration of variables is run with its values and their type. -/
theorem Context.becomes_entry (names : List Ident) (ty : Expr) (values : List Expr) :
    Becomes l [.spec (.value names ty values)] [.spec (.value names ty values)]
      [.declare (ctx.entry names ty values)] := by
  refine Carries.inside (by simp) (becomes_singleton.mpr ?_)
  rw [VarDecl.holds_operands, VarDecl.holds_trees]
  constructor
  · rintro ⟨p, hp, hretains⟩
    rcases List.mem_append.mp hp with htype | hvalues
    · split at htype
      · cases htype
      · rename_i hnames
        obtain rfl := List.mem_singleton.mp htype
        exact .inr (ctx.holds_entry_type (Bool.eq_false_iff.mpr hnames)
          (Piece.holds_of_retainsLiteral hretains))
    · exact .inl ((Carries.exprs values).low ⟨p, hvalues, hretains⟩)
  · rintro (hvalues | htypes)
    · obtain ⟨q, hq, hcontains⟩ := (Carries.exprs values).high hvalues
      exact ⟨q, List.mem_append_right _ (.tail _ hq), hcontains⟩
    · exact ⟨.expr ty, List.mem_append_right _ (.head _), ctx.containsLiteral_entry htypes⟩

theorem Context.becomes_varSpecs (specs : List Spec) :
    Becomes l ((specs.filter Spec.isValue).map .spec) (specs.map .spec)
      (ctx.varSpecs specs).value := by
  induction specs with
  | nil => exact .nil
  | cons spec specs ih =>
      cases spec with
      | value names ty values =>
          rw [value_varSpecs]
          exact (ctx.becomes_entry names ty values).append ih
      | _ => exact Carries.mono ih (List.Subset.refl _) (List.subset_cons_self _ _)

theorem Context.becomes_define (pos : Pos) (lhs rhs : List Expr) :
    Becomes l [.stmt (.mk pos (.assign .define lhs rhs))]
      [.stmt (.mk pos (.assign .define lhs rhs))]
      ((StmtForm.assign .define lhs rhs).convert ctx pos).value := by
  refine Carries.stmt (becomes_singleton.mpr ?_)
  rw [VarDecl.holds_operands, VarDecl.holds_trees]
  constructor
  · exact fun h => .inl ((Carries.exprs rhs).low h)
  · rintro (hvalues | htypes)
    · obtain ⟨q, hq, hcontains⟩ := (Carries.exprs rhs).high hvalues
      exact ⟨q, List.mem_append_right _ hq, hcontains⟩
    · exact (ctx.not_exprsHold_declTypes _ htypes).elim

/-- A mark becomes a jump with its argument. -/
theorem Expr.becomes_mark {e : Expr} {m : Ident × Expr} (hm : e.mark? = some m) :
    Becomes l [.expr e] [.expr e] [.yield m.2.erase] := by
  have harg : e.runtimeArg? "Yield" = some m.2 := by rw [e.runtimeArg?_yield, hm]; rfl
  have hyields : Becomes l [.expr m.2] [.expr m.2] [.yield m.2.erase] := .yields
  constructor
  · rintro ⟨p, hp, hretains⟩
    obtain rfl := List.mem_singleton.mp hp
    exact hyields.low ⟨_, .head _, e.retainsLiteral_runtimeArg harg (.inl rfl) hretains⟩
  · intro hhi
    obtain ⟨q, hq, hcontains⟩ := hyields.high hhi
    obtain rfl := List.mem_singleton.mp hq
    exact ⟨_, .head _, e.containsLiteral_of_runtimeArg harg hcontains⟩

theorem StmtForm.becomes_expr (pos : Pos) (x : Expr) :
    Becomes l [.stmt (.mk pos (.expr x))] [.stmt (.mk pos (.expr x))]
      ((StmtForm.expr x).convert ctx pos).value := by
  rw [value_convert_expr]
  cases hm : x.mark? with
  | none => exact .kept pos (.expr x)
  | some m => exact Carries.stmt (Expr.becomes_mark hm)

theorem StmtForm.becomes_ret {pos : Pos} {results : List Expr}
    (h : (ctx.ret pos results).problems = []) :
    Becomes l [.stmt (.mk pos (.ret results))] [.stmt (.mk pos (.ret results))]
      ((StmtForm.ret results).convert ctx pos).value := by
  match results with
  | [] => exact absurd h (problems_note pos _ _)
  | _ :: _ :: _ => exact absurd h (problems_note pos _ _)
  | [x] =>
      refine Carries.stmt ?_
      rw [value_convert_ret]
      cases hm : x.mark? with
      | some m =>
          refine Carries.mono (Expr.becomes_mark hm) ?_ (List.Subset.refl _)
          exact List.map_subset _ (List.filter_subset_self _)
      | none =>
          obtain ⟨-, hrest⟩ := problems_bind_eq_nil.mp h
          simp only [value_yieldValue?, hm, Option.map_none] at hrest
          by_cases hnil : x.isNil = true
          · simp only [hnil, if_true]
            constructor
            · rintro ⟨p, hp, -⟩
              simp [Piece.retained, hnil] at hp
            · simp [flowsParts, Flow.parts, PartsHold, Flow.trees, Flow.operands]
          · rw [if_neg hnil] at hrest
            exact absurd hrest (problems_note pos _ _)

theorem Context.carries_iteration {x : Expr} {it : Iteration} (hit : ctx.iteration x = .ok it) :
    Carries l [.expr x] [.expr x] (it.adapter.Holds l) (it.adapter.Holds l) where
  low := by
    rintro ⟨p, hp, hretains⟩
    obtain rfl := List.mem_singleton.mp hp
    exact Context.holds_iteration hit hretains
  high h := ⟨_, .head _, Context.containsLiteral_iteration hit h⟩

/-- The header of a range statement is run with its operand, and with targets that are assigned. -/
theorem Context.carries_header {key value x : Expr} {it : Iteration}
    (hit : ctx.iteration x = .ok it) (define : Bool) (body : List Flow) :
    Carries l (if define then [.expr x] else [.expr x, .expr key, .expr value])
      [.expr x, .expr key, .expr value]
      (∃ n ∈ (Flow.walk ⟨key.erase, value.erase, define, (ctx.spell it.key).value,
        (ctx.spell it.value).value, it.adapter⟩ body).operands, n.Holds l)
      (∃ n ∈ (Flow.walk ⟨key.erase, value.erase, define, (ctx.spell it.key).value,
        (ctx.spell it.value).value, it.adapter⟩ body).trees, n.Holds l) := by
  have hx : Carries l [.expr x] [.expr x] _ _ := Context.carries_iteration hit
  have hall := hx.append ((Carries.piece (.expr key)).append (Carries.piece (.expr value)))
  have hspelled : ¬ ((ctx.spell it.key).value.Holds l ∨ (ctx.spell it.value).value.Holds l) :=
    not_or.mpr ⟨Ty.not_holds_spell _ _, Ty.not_holds_spell _ _⟩
  rw [Walk.holds_operands, Walk.holds_trees]
  refine ⟨?_, fun h => hall.high (h.imp_right (·.resolve_right hspelled))⟩
  cases define with
  | true => exact fun h => .inl (hx.low h)
  | false => exact fun h => (hall.low h).imp_right fun h => ⟨rfl, h⟩

theorem StmtForm.becomes_range {pos : Pos} {key value x : Expr} {kind : RangeKind}
    {body : List Stmt} {it : Iteration} (hit : ctx.iteration x = .ok it)
    (hbody : Becomes l (body.map .stmt) (body.map .stmt) (convertStmts ctx body).value) :
    Becomes l [.stmt (.mk pos (.range key value kind x body))]
      [.stmt (.mk pos (.range key value kind x body))]
      ((StmtForm.range key value kind x body).convert ctx pos).value := by
  refine Carries.stmt ?_
  rw [value_convert_range pos hit]
  refine becomes_singleton.mpr ?_
  rw [Flow.parts, partsHold_cons, partsHold_cons]
  refine ((Context.carries_header hit (kind == .define) _).append hbody).mono ?_ ?_
  · cases kind with
    | define => exact List.Subset.refl _
    | _ =>
        simp only [Piece.retained, Piece.copied, Piece.pieces, StmtForm.pieces]
        grind
  · simp only [Piece.pieces, StmtForm.pieces]
    grind

/-- A statement after an else is converted to one statement. -/
theorem Stmt.value_convert_else {s : Stmt} (h : s.isElse = true) :
    (s.convert ctx).value = [] ∨
      (s.convert ctx).value = [(s.convert ctx).value.headD .missing] := by
  cases s with
  | missing => exact .inl rfl
  | mk pos form =>
      cases form with
      | block body => exact .inr rfl
      | ite init cond body other => exact .inr rfl
      | _ => cases h

/-- The else part of a conditional. -/
theorem Becomes.headD {s : Stmt}
    (h : Becomes l [.stmt s] [.stmt s] (s.convert ctx).value) :
    Becomes l (if s.isElse then [.stmt s] else []) [.stmt s]
      [(s.convert ctx).value.headD .missing] := by
  refine h.only ?_ Stmt.value_convert_else
  cases (s.convert ctx).value with
  | nil => exact .inl rfl
  | cons f fs => exact .inr (.head _)

/-- The first part of a loop header. -/
theorem Becomes.start {s : Stmt}
    (h : Becomes l [.stmt s] [.stmt s] (s.convert ctx).value) :
    Becomes l (if s.isSimple then [.stmt s] else []) [.stmt s]
      [match (s.convert ctx).value with
        | [f] => f
        | _ => .missing] := by
  refine h.only ?_ fun hsimple => ?_
  · split
    · rename_i f hf
      exact .inr (hf ▸ .head _)
    · exact .inl rfl
  · obtain rfl | ⟨f, hf, -⟩ := Stmt.value_convert_simple ctx hsimple
    · exact .inl rfl
    · exact .inr (by rw [hf])

/-- The last part of a loop header. -/
theorem Stmt.becomes_next (s : Stmt) : Becomes l [.stmt s] [.stmt s]
    [if s.isWritten then .simple s.erase else .missing] := by
  cases s with
  | missing =>
      refine becomes_singleton.mpr ((Carries.piece _).congr (iff_of_false ?_ ?_)
        (iff_of_false ?_ ?_)) <;>
        simp [Stmt.isWritten, Stmt.erase, YieldMachine.Stmt.not_holds_missing, Flow.parts,
          PartsHold, Flow.operands, Flow.trees]
  | mk pos form => exact .kept pos form

theorem Stmt.value_convert_unwritten {s : Stmt} (h : s.isWritten = false) :
    (s.convert ctx).value = [] := by
  obtain rfl := Stmt.isWritten_eq_false.mp h
  rfl

theorem becomes_missing : Becomes l [.stmt .missing] [.stmt .missing] [] :=
  Carries.stmt Becomes.nil

/-- A conditional has the literals of its condition and of its branches. -/
theorem Becomes.ite {ps ps' qs qs' : List Piece} {fs : List Flow} {f : Flow}
    (hbody : Becomes l ps qs fs) (hother : Becomes l ps' qs' [f]) (cond : Expr) :
    Becomes l (.expr cond :: (ps ++ ps')) (.expr cond :: (qs ++ qs'))
      [.ite cond.erase fs f] := by
  rw [becomes_singleton]
  simp only [Flow.parts, partsHold_cons, partsHold_append, Flow.operands, Flow.trees, exists_expr]
  exact (Carries.piece (.expr cond)).append (Carries.append hbody hother.part)

theorem Becomes.while {ps qs : List Piece} {fs : List Flow} (hbody : Becomes l ps qs fs)
    (cond : Expr) :
    Becomes l (.expr cond :: ps) (.expr cond :: qs) [.while cond.erase fs] := by
  rw [becomes_singleton]
  simp only [Flow.parts, partsHold_cons, Flow.operands, Flow.trees, exists_expr]
  exact (Carries.piece (.expr cond)).append hbody

theorem Becomes.loop {ps qs ps' qs' ps'' qs'' : List Piece} {fs : List Flow} {start next : Flow}
    (hstart : Becomes l ps' qs' [start]) (hnext : Becomes l ps'' qs'' [next])
    (hbody : Becomes l ps qs fs) (cond : Expr) :
    Becomes l (.expr cond :: ((ps' ++ ps'') ++ ps)) (.expr cond :: ((qs' ++ qs'') ++ qs))
      [.loop start cond.erase next fs] := by
  rw [becomes_singleton]
  simp only [Flow.parts, partsHold_cons, partsHold_append, Flow.operands, Flow.trees, exists_expr]
  exact (Carries.piece (.expr cond)).append ((hstart.part.append hnext.part).append hbody)

/-- A declaration of types or constants is lifted out of the body. -/
theorem StmtForm.becomes_lift {pos : Pos} {kind : DeclKind} {specs : List Spec}
    (hkind : kind ≠ .var) (h : ((StmtForm.decl kind specs).convert ctx pos).problems = []) :
    Becomes l [.stmt (.mk pos (.decl kind specs))] [.stmt (.mk pos (.decl kind specs))]
      ((StmtForm.decl kind specs).convert ctx pos).value := by
  have hlift : Becomes l [.stmt (.mk pos (.decl kind specs))]
      [.stmt (.mk pos (.decl kind specs))] [.lift ⟨kind, eraseSpecs specs⟩] := by
    have hholds : (Piece.stmt (.mk pos (.decl kind specs))).Holds l ↔
        SpecsHold l (eraseSpecs specs) := YieldMachine.Stmt.holds_decl
    refine becomes_singleton.mpr ((Carries.piece _).congr ?_ ?_) <;>
      simp [hholds, Flow.parts, partsHold_cons, partsHold_nil, Flow.operands, Flow.trees, SpecsHold,
        YieldMachine.Spec.Holds]
  have hvalue : ((StmtForm.decl kind specs).convert ctx pos).value = _ :=
    StmtForm.value_convert_decl hkind specs
  rw [(StmtForm.problems_convert_decl h hkind).1, if_neg Bool.false_ne_true] at hvalue
  rwa [hvalue]

/-- A loop without a first and a last part has a header of its own. -/
theorem StmtForm.becomes_loop {pos : Pos} {init post : Stmt} {cond : Expr} {body : List Stmt}
    (h : ((StmtForm.loop init cond post body).convert ctx pos).problems = [])
    (hinit : (init.convert ctx).problems = [] →
      Becomes l [.stmt init] [.stmt init] (init.convert ctx).value)
    (hbody : (convertStmts ctx body).problems = [] →
      Becomes l (body.map .stmt) (body.map .stmt) (convertStmts ctx body).value) :
    Becomes l [.stmt (.mk pos (.loop init cond post body))]
      [.stmt (.mk pos (.loop init cond post body))]
      ((StmtForm.loop init cond post body).convert ctx pos).value := by
  simp only [StmtForm.convert, problems_bind_eq_nil] at h
  obtain ⟨-, hbodyClean, hrest⟩ := h
  have hbody := hbody hbodyClean
  refine Carries.stmt ?_
  simp only [StmtForm.convert, Noted.value_bind]
  by_cases hbare : (!init.isWritten && !post.isWritten) = true
  · obtain ⟨hinit, hpost⟩ : init.isWritten = false ∧ post.isWritten = false := by simpa using hbare
    obtain rfl := Stmt.isWritten_eq_false.mp hinit
    obtain rfl := Stmt.isWritten_eq_false.mp hpost
    rw [if_pos hbare]
    refine Carries.mono ((becomes_missing.append becomes_missing).append (hbody.while cond)) ?_ ?_
    · simp only [Piece.retained]
      grind
    · simp only [Piece.pieces, StmtForm.pieces]
      grind
  · rw [if_neg hbare] at hrest ⊢
    have hinit := hinit (problems_bind_eq_nil.mp hrest).1
    refine Carries.mono (Becomes.loop hinit.start post.becomes_next hbody cond) ?_ ?_
    · simp only [Piece.retained]
      grind
    · simp only [Piece.pieces, StmtForm.pieces]
      grind

mutual

/-- A statement that is converted without problems keeps its literals. -/
theorem Stmt.becomes_convert (s : Stmt) (h : (s.convert ctx).problems = []) :
    Becomes l [.stmt s] [.stmt s] (s.convert ctx).value := by
  cases s with
  | missing => exact becomes_missing
  | mk pos form => exact form.becomes_convert pos h

theorem StmtForm.becomes_convert (form : StmtForm) (pos : Pos)
    (h : (form.convert ctx pos).problems = []) :
    Becomes l [.stmt (.mk pos form)] [.stmt (.mk pos form)] (form.convert ctx pos).value := by
  cases form with
  | empty => exact .kept pos .empty
  | send channel value => exact .kept pos (.send channel value)
  | incDec increment x => exact .kept pos (.incDec increment x)
  | go call => exact .kept pos (.go call)
  | expr x => exact StmtForm.becomes_expr pos x
  | assign kind lhs rhs =>
      cases kind with
      | define => exact ctx.becomes_define pos lhs rhs
      | _ => exact .kept pos (.assign _ lhs rhs)
  | «defer» call => cases h
  | ret results => exact StmtForm.becomes_ret h
  | branch kind label =>
      have hnone : ¬ (Piece.stmt (.mk pos (.branch kind label))).Holds l :=
        YieldMachine.Stmt.not_holds_branch _ _
      cases kind with
      | brk | cont => exact .none hnone rfl rfl rfl
      | _ => cases h
  | block body =>
      exact Carries.stmt (becomes_convertStmts body (problems_bind_eq_nil.mp h).1).block
  | ite init cond body other =>
      simp only [StmtForm.convert, problems_bind_eq_nil] at h
      obtain ⟨-, hbody, hother, hinit, -⟩ := h
      refine Carries.stmt ?_
      exact (init.becomes_convert hinit).aroundInit Stmt.value_convert_unwritten
        ((becomes_convertStmts body hbody).ite (other.becomes_convert hother).headD cond)
  | switch init tag clauses =>
      simp only [StmtForm.convert, problems_bind_eq_nil] at h
      obtain ⟨-, hclauses, hinit, -⟩ := h
      have hcases := carries_convertClauses clauses hclauses
      have hswitch : Becomes l (.expr tag :: clauses.map .clause)
          (.expr tag :: clauses.map .clause)
          [.switch tag.erase (convertClauses ctx clauses).value] := by
        rw [becomes_singleton]
        simp only [Flow.parts, partsHold_cons, Flow.operands, Flow.trees,
          List.exists_mem_cons_iff, exists_map_expr, or_assoc]
        exact (Carries.piece (.expr tag)).append hcases
      refine Carries.stmt ?_
      exact (init.becomes_convert hinit).aroundInit Stmt.value_convert_unwritten hswitch
  | typeSwitch init guard clauses =>
      rw [StmtForm.convert, value_keepWhole]
      exact .kept pos (.typeSwitch init guard clauses)
  | select clauses =>
      rw [StmtForm.convert, value_keepWhole]
      exact .kept pos (.select clauses)
  | loop init cond post body =>
      exact StmtForm.becomes_loop h (fun hinit => init.becomes_convert hinit)
        fun hbody => becomes_convertStmts body hbody
  | range key value kind x body =>
      obtain ⟨it, hit⟩ := exists_iteration_of_clean h
      simp only [StmtForm.convert, problems_bind_eq_nil] at h
      exact StmtForm.becomes_range hit (becomes_convertStmts body h.2.1)
  | labeled label stmt =>
      rw [value_convert_labeled]
      refine Carries.stmt ?_
      exact (stmt.becomes_convert (problems_bind_eq_nil.mp h).1).asOne.labeled label.name
  | decl kind specs =>
      cases kind with
      | var => exact Carries.stmt (ctx.becomes_varSpecs specs)
      | _ => exact StmtForm.becomes_lift nofun h

theorem becomes_convertStmts (ss : List Stmt) (h : (convertStmts ctx ss).problems = []) :
    Becomes l (ss.map .stmt) (ss.map .stmt) (convertStmts ctx ss).value := by
  cases ss with
  | nil => exact .nil
  | cons s ss =>
      simp only [convertStmts, problems_bind_eq_nil] at h
      exact (s.becomes_convert h.1).append (becomes_convertStmts ss h.2.1)

theorem carries_convertClauses (cs : List Clause) (h : (convertClauses ctx cs).problems = []) :
    Carries l (cs.map .clause) (cs.map .clause)
      (ExprsHold l ((convertClauses ctx cs).value.flatMap (·.guard.values)) ∨
        PartsHold Flow.operands l (casesParts (convertClauses ctx cs).value))
      (ExprsHold l ((convertClauses ctx cs).value.flatMap (·.guard.values)) ∨
        PartsHold Flow.trees l (casesParts (convertClauses ctx cs).value)) := by
  cases cs with
  | nil =>
      refine Carries.nil.congr ?_ ?_ <;> simp [convertClauses, casesParts, partsHold_nil]
  | cons c cs =>
      simp only [convertClauses, problems_bind_eq_nil] at h
      simp only [convertClauses, Noted.value_bind, Noted.value_pure, List.flatMap_cons, casesParts,
        exprsHold_append, partsHold_append]
      refine ((c.carries_convert h.1).append (carries_convertClauses cs h.2.1)).congr ?_ ?_
      · exact or_or_or_comm ..
      · exact or_or_or_comm ..

theorem Clause.carries_convert (c : Clause) (h : (c.convert ctx).problems = []) :
    Carries l [.clause c] [.clause c]
      (ExprsHold l (c.convert ctx).value.guard.values ∨
        PartsHold Flow.operands l (c.convert ctx).value.parts)
      (ExprsHold l (c.convert ctx).value.guard.values ∨
        PartsHold Flow.trees l (c.convert ctx).value.parts) := by
  cases c with
  | case values body =>
      simp only [Clause.convert, problems_bind_eq_nil] at h
      exact Carries.inside (by simp) ((Carries.exprs values).append (becomes_convertArm body h.2.1))
  | default body =>
      have hbody := becomes_convertArm body (problems_bind_eq_nil.mp h).1
      refine Carries.inside (by simp) (hbody.congr ?_ ?_) <;>
        exact (or_iff_right not_exprsHold_nil).symm

theorem becomes_convertArm (ss : List Stmt) (h : (convertArm ctx ss).problems = []) :
    Becomes l (ss.map .stmt) (ss.map .stmt) (convertArm ctx ss).value := by
  cases ss with
  | nil =>
      refine Carries.nil.congr ?_ ?_ <;>
        simp [convertArm, flowsParts, Flow.parts, PartsHold, Flow.operands, Flow.trees]
  | cons s ss =>
      obtain ⟨pos, label, rfl, rfl⟩ | hcons := convertArm_cons ctx s ss
      · have hnone : ¬ (Piece.stmt (.mk pos (.branch .fallthrough label))).Holds l :=
          YieldMachine.Stmt.not_holds_branch _ _
        exact (Carries.piece _).congr (iff_of_false hnone partsHold_nil)
          (iff_of_false hnone partsHold_nil)
      · simp only [hcons, problems_bind_eq_nil] at h
        rw [hcons]
        exact (s.becomes_convert h.1).append (becomes_convertArm ss h.2.1)

end

end Statements

section Generators

theorem Field.containsLiteral_of_holds {l : Literal} (f : Field)
    (h : f.erase.type.Holds l) : (Piece.field f).ContainsLiteral l := by
  obtain ⟨names, ty, tag⟩ := f
  exact Piece.containsLiteral_of_holds (p := .field (.mk names ty tag)) (Node.holds_field.mpr h)

/-- The literals of an accepted generator keep the keys that name fields, and no other keys become
names of fields: each literal of a statement of the body is in the table with its keys, if it stands
where it is retained, and each literal of the table is one of the source with its keys.  What else
is in a literal stays as it is, but for the names and selectors that stand for variables. -/
theorem File.scan_literal_keys {file : File} {pkg : Package} {holders : List String}
    {g : Generator} (hg : g ∈ (file.scan pkg holders).generators) {fn : Routine}
    (hfn : g.routine = some fn) {h : Holder} (hlower : fn.lower = .ok h) {body : List Stmt}
    (hbody : g.func.body = some body) :
    (∀ s ∈ body, ∀ site ty elements,
      (Piece.stmt s).Retains (.expr (.mk site (.composite ty elements))) →
        h.Holds (literalOf site ty elements)) ∧
    ∀ l, h.Holds l → (∃ s ∈ body, (Piece.stmt s).ContainsLiteral l) ∨
      ∃ f ∈ g.func.receiver?.toList ++ g.func.signature.params.toList,
        (Piece.field f).ContainsLiteral l := by
  obtain ⟨taken, hconvert⟩ := scanFuncs_convert hg hfn
  obtain ⟨runtime, holder, element, hproblems, rfl⟩ := Func.convert_ok hconvert hbody
  generalize qualifier pkg.path file.imports = qualify at hproblems hlower ⊢
  have hbecomes : ∀ l, Becomes l (body.map .stmt) (body.map .stmt) _ := fun l =>
    becomes_convertStmts body (Func.problems_routine _ _ _ _ _ hproblems)
  have hroutine := g.func.value_routine runtime qualify holder element body body
  have hconverted : (g.func.routine runtime qualify holder element body).value.body =
      (convertStmts (g.func.bodyContext runtime qualify) body).value := by rw [hroutine]
  constructor
  · intro s hs site ty elements hretains
    refine (Routine.lowerWith_holds hlower).low ?_
    rw [hconverted]
    exact (hbecomes _).low
      ⟨.stmt s, List.mem_map_of_mem hs, site, ty, elements, hretains, rfl, .refl _⟩
  · intro l hholds
    rcases (Routine.lowerWith_holds hlower).high hholds with hparts | ⟨x, hx, hfield⟩
    · rw [hconverted] at hparts
      obtain ⟨q, hq, hcontains⟩ := (hbecomes l).high hparts
      obtain ⟨s, hs, rfl⟩ := List.mem_map.mp hq
      exact .inl ⟨s, hs, hcontains⟩
    · rw [g.func.fields_routine runtime qualify holder element body] at hx
      obtain ⟨f, hf, rfl⟩ := List.mem_map.mp hx
      exact .inr ⟨f, hf, f.containsLiteral_of_holds hfield⟩

/-- The type `T` of the package of the sample, which is a struct with a field `x`. -/
def pointType : Ty := .named (some ⟨"example.com/sample", "sample"⟩) "T" []

/-- The variable `x`, where it is declared. -/
def declaredCount : Ident :=
  ⟨"x", ⟨6, 2⟩, some ⟨1, true, "x", "example.com/sample", some (.basic "int")⟩⟩

/-- The identifier `x` before the colon, which denotes the field. -/
def keyField : Ident := ⟨"x", ⟨7, 10⟩, none⟩

/-- The variable `x`, where it is used. -/
def usedCount : Ident :=
  ⟨"x", ⟨7, 13⟩, some ⟨1, false, "x", "example.com/sample", some (.basic "int")⟩⟩

/-- The literal `{x: x}` where it is an element of another one, with the type recorded for it. -/
def elidedLiteral (recorded : Typed) : Expr :=
  .mk ⟨⟨7, 9⟩, some recorded, false⟩
    (.composite .missing [untyped (.pair (untyped (.ident keyField)) (untyped (.ident usedCount)))])

/-- The statement `f([]T{{x: x}})`, where `element` stands for `T`. -/
def passesLiteral (element : Expr) (recorded : Typed) : Stmt :=
  .mk ⟨7, 2⟩ (.expr (untyped (.call (untyped (.ident ⟨"f", ⟨7, 2⟩, none⟩))
    [untyped (.composite (untyped (.array .missing element)) [elidedLiteral recorded])] false)))

/-- The body `x := 1; f([]T{{x: x}}); yieldgen.Yield(1); return nil`. -/
def countingBody (element : Expr) (recorded : Typed) : List Stmt :=
  [.mk ⟨6, 2⟩ (.assign .define [untyped (.ident declaredCount)] [untyped (.lit .int "1")]),
    passesLiteral element recorded, .mk ⟨8, 2⟩ (.expr yieldOne), returnNil]

/-- The type name `T`. -/
def pointName : Expr := untyped (.ident ⟨"T", ⟨7, 6⟩, none⟩)

/-- The body with a literal of structs. -/
def structBody : List Stmt := countingBody pointName ⟨pointType, .struct⟩

/-- The body with a literal of pointers to structs. -/
def pointerBody : List Stmt := countingBody (untyped (.star pointName)) ⟨.pointer pointType, .other⟩

theorem retains_elidedLiteral (element : Expr) (recorded : Typed) :
    (Piece.stmt (passesLiteral element recorded)).Retains (.expr (elidedLiteral recorded)) :=
  .inside (.head _) (.inside (.tail _ (.head _)) (.inside (.tail _ (.head _)) (.here _)))

theorem structBody_literal_keys :
    ∃ g ∈ ((producing structBody).scan (producingPackage structBody) []).generators,
      ∃ fn h, g.routine = some fn ∧ fn.lower = .ok h ∧ g.func.body = some structBody ∧
        h.Holds ⟨[some "x"], .composite .missing [.pair (.ident "x" true) (.name "x")]⟩ := by
  obtain ⟨g, hg, hbody, qualify, holder, hfn⟩ := scan_producing structBody (by decide)
    fun _ _ => rfl
  obtain ⟨h, hlower⟩ : ∃ h, ((produced structBody).routine "yieldgen" qualify holder (.basic "int")
      structBody).value.lower = .ok h := ⟨_, by cbv⟩
  exact ⟨g, hg, _, h, hfn, hlower, hbody,
    (File.scan_literal_keys hg hfn hlower hbody).1 _ (.tail _ (.head _)) _ _ _
      (retains_elidedLiteral _ _)⟩

/-- Where a literal of pointers leaves the type of an element out, its key is taken for the variable
and replaced by the field that holds it. -/
theorem pointerBody_replaces_key :
    ∃ g ∈ ((producing pointerBody).scan (producingPackage pointerBody) []).generators,
      ∃ fn h, g.routine = some fn ∧ fn.lower = .ok h ∧ g.func.body = some pointerBody ∧
        (∃ s ∈ pointerBody, (Piece.stmt s).Retains
          (.expr (elidedLiteral ⟨.pointer pointType, .other⟩))) ∧
        h.fields.map Prod.fst = ["x"] ∧
        .exec (.expr (.call (.name "f")
          [.composite (.array .missing (.star (.name "T")))
            [.composite .missing [.pair (fieldExpr "x") (fieldExpr "x")]]] false)) ∈
          tableOps h.states := by
  obtain ⟨g, hg, hbody, qualify, holder, hfn⟩ := scan_producing pointerBody (by decide)
    fun _ _ => rfl
  obtain ⟨h, hlower, hfields, hop⟩ : ∃ h, ((produced pointerBody).routine "yieldgen" qualify holder
      (.basic "int") pointerBody).value.lower = .ok h ∧ h.fields.map Prod.fst = ["x"] ∧
        .exec (.expr (.call (.name "f")
          [.composite (.array .missing (.star (.name "T")))
            [.composite .missing [.pair (fieldExpr "x") (fieldExpr "x")]]] false)) ∈
          tableOps h.states := by
    refine ⟨_, by cbv, rfl, ?_⟩
    simp [tableOps, opsParts, Op.parts, fieldExpr, receiverName, YieldMachine.Expr.name]
  exact ⟨g, hg, _, h, hfn, hlower, hbody,
    ⟨_, .tail _ (.head _), retains_elidedLiteral _ _⟩, hfields, hop⟩

end Generators

end Source

end YieldMachine
