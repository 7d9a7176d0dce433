import YieldMachine.Proofs.Lowering.Emitted
import YieldMachine.Source.Convert

/-!
# Marks of produced elements

A mark is a call of `Yield` that stands as a statement or is returned.  A body without
problems uses `Yield` in marks only, apart from the first part of a loop header and the
targets of a range clause, where nothing looks for it.
-/

namespace YieldMachine.Source

/-- The identifiers that denote `Yield`, function literals apart. -/
def ownYields (os : List Outline) : List Ident := (outlinesOwnIdents os).filter Ident.isYield

/-- Whether `Yield` is used in function literals only. -/
def Silent (os : List Outline) : Prop := ownYields os = []

@[simp]
theorem outlinesOwnIdents_append (os ps : List Outline) :
    outlinesOwnIdents (os ++ ps) = outlinesOwnIdents os ++ outlinesOwnIdents ps := by
  induction os with
  | nil => rfl
  | cons o os ih => simp [outlinesOwnIdents, ih]

@[simp]
theorem ownYields_append (os ps : List Outline) :
    ownYields (os ++ ps) = ownYields os ++ ownYields ps := by
  simp [ownYields]

@[simp]
theorem ownYields_nil : ownYields [] = [] := rfl

@[simp]
theorem ownYields_loop (os : List Outline) : ownYields [.loop os] = ownYields os := by
  simp [ownYields, outlinesOwnIdents, Outline.ownIdents]

@[simp]
theorem ownYields_whole (os : List Outline) : ownYields [.whole os] = ownYields os := by
  simp [ownYields, outlinesOwnIdents, Outline.ownIdents]

@[simp]
theorem ownYields_labeled (label : String) (os : List Outline) :
    ownYields [.labeled label os] = ownYields os := by
  simp [ownYields, outlinesOwnIdents, Outline.ownIdents]

@[simp]
theorem ownYields_ret (os : List Outline) : ownYields [.ret os] = ownYields os := by
  simp [ownYields, outlinesOwnIdents, Outline.ownIdents]

@[simp]
theorem ownYields_branch (kind : BranchKind) (label : Option String) :
    ownYields [.branch kind label] = [] := rfl

@[simp]
theorem silent_nil : Silent [] := rfl

@[simp]
theorem silent_append {os ps : List Outline} : Silent (os ++ ps) ↔ Silent os ∧ Silent ps := by
  simp [Silent]

/-- A part passes its check where it is silent. -/
@[simp]
theorem problems_check (ctx : Context) (os : List Outline) :
    (ctx.check os).problems = [] ↔ Silent os := by
  simp [Context.check, noteAll, strayYields, Silent, ownYields]

/-- A call of `Yield`: the identifier that is called, and the argument. -/
def Expr.mark? (e : Expr) : Option (Ident × Expr) :=
  match e.unparen with
  | .mk _ (.call fn [arg] _) => (fn.callee?.filter Ident.isYield).map (·, arg)
  | _ => none

/-- The expressions that are a call with a single argument, up to parentheses. -/
theorem Expr.unparen_cases (e : Expr) :
    (∃ site fn arg spread, e.unparen = .mk site (.call fn [arg] spread)) ∨
      ∀ name, e.mark? = none ∧ e.runtimeArg? name = none := by
  unfold Expr.mark? Expr.runtimeArg?
  generalize e.unparen = u
  cases u with
  | missing => exact .inr fun _ => ⟨rfl, rfl⟩
  | mk site form =>
      cases form with
      | call fn args spread =>
          match args with
          | [] => exact .inr fun _ => ⟨rfl, rfl⟩
          | [arg] => exact .inl ⟨site, fn, arg, spread, rfl⟩
          | _ :: _ :: _ => exact .inr fun _ => ⟨rfl, rfl⟩
      | _ => exact .inr fun _ => ⟨rfl, rfl⟩

theorem Expr.runtimeArg?_yield (e : Expr) : e.runtimeArg? "Yield" = e.mark?.map Prod.snd := by
  obtain ⟨site, fn, arg, spread, he⟩ | hnone := e.unparen_cases
  · unfold Expr.runtimeArg? Expr.mark?
    rw [he]
    cases hcallee : fn.callee? with
    | none => simp [hcallee]
    | some id =>
        by_cases hid : id.usesRuntime "Yield" = true
        · simp [hcallee, Option.filter, Ident.isYield, hid]
        · simp [hcallee, Option.filter, Ident.isYield, hid]
  · rw [(hnone "Yield").1, (hnone "Yield").2]
    rfl

mutual

/-- The marks of a statement, in the order in which they are written. -/
def Stmt.marks : Stmt → List (Ident × Expr)
  | .missing => []
  | .mk _ form => form.marks

/-- The marks of a form of statement. -/
def StmtForm.marks : StmtForm → List (Ident × Expr)
  | .expr x => x.mark?.toList
  | .ret [x] => x.mark?.toList
  | .block body => stmtsMarks body
  | .ite init _ body other => init.marks ++ stmtsMarks body ++ other.marks
  | .switch init _ clauses => init.marks ++ clausesMarks clauses
  | .loop init _ _ body => init.marks ++ stmtsMarks body
  | .range _ _ _ _ body => stmtsMarks body
  | .labeled _ stmt => stmt.marks
  | _ => []

/-- The marks of statements. -/
def stmtsMarks : List Stmt → List (Ident × Expr)
  | [] => []
  | s :: ss => s.marks ++ stmtsMarks ss

/-- The marks of the clauses of a switch. -/
def clausesMarks : List Clause → List (Ident × Expr)
  | [] => []
  | c :: cs => c.marks ++ clausesMarks cs

/-- The marks of a clause of a switch. -/
def Clause.marks : Clause → List (Ident × Expr)
  | .case _ body => stmtsMarks body
  | .default body => stmtsMarks body

end

/-- Whether a statement can stand in the header of another one. -/
def Stmt.isSimple : Stmt → Bool
  | .missing => true
  | .mk _ form =>
    match form with
    | .empty | .expr _ | .send _ _ | .incDec _ _ | .assign _ _ _ => true
    | _ => false

/-- Whether a statement can stand after an else. -/
def Stmt.isElse : Stmt → Bool
  | .missing | .mk _ (.block _) | .mk _ (.ite _ _ _ _) => true
  | _ => false

/-- Whether an entry declares variables or constants. -/
def Spec.isValue : Spec → Bool
  | .value _ _ _ => true
  | _ => false

/-- Whether a mark has an argument and mentions `Yield` once. -/
def Expr.PlainMark (e : Expr) : Prop :=
  ∀ m, e.mark? = some m → m.2 ≠ .missing ∧ (ownYields e.outline).length ≤ 1

mutual

/-- Whether the parts of a statement that nothing looks into are free of `Yield`: the first
part of a loop header is not a mark, the targets of a range clause do not mention it, and
neither does what is returned to end the generator. -/
def Stmt.Placed : Stmt → Prop
  | .missing => True
  | .mk _ form => form.Placed

/-- Whether the unchecked parts of a form of statement are free of `Yield`. -/
def StmtForm.Placed : StmtForm → Prop
  | .expr x => x.PlainMark
  | .ret [x] => x.PlainMark ∧ (x.isNil = true → x.mark? = none → Silent x.outline)
  | .block body => stmtsPlaced body
  | .ite init _ body other =>
    init.Placed ∧ stmtsPlaced body ∧ other.Placed ∧ other.isElse = true
  | .switch init _ clauses => init.Placed ∧ clausesPlaced clauses
  | .loop init _ post body =>
    (init.isSimple = true ∧ init.marks = []) ∧ post.isSimple = true ∧ stmtsPlaced body
  | .range key value _ _ body => Silent key.outline ∧ Silent value.outline ∧ stmtsPlaced body
  | .labeled _ stmt => stmt.Placed
  | .decl .var specs => specs.all Spec.isValue = true
  | _ => True

/-- Whether the unchecked parts of statements are free of `Yield`. -/
def stmtsPlaced : List Stmt → Prop
  | [] => True
  | s :: ss => s.Placed ∧ stmtsPlaced ss

/-- Whether the unchecked parts of the clauses of a switch are free of `Yield`. -/
def clausesPlaced : List Clause → Prop
  | [] => True
  | c :: cs => c.Placed ∧ clausesPlaced cs

/-- Whether the unchecked parts of a clause of a switch are free of `Yield`. -/
def Clause.Placed : Clause → Prop
  | .case _ body => stmtsPlaced body
  | .default body => stmtsPlaced body

end

/-- Whether `Yield` is used in an expression at most as the mark that the expression is. -/
def Expr.CleanMark (e : Expr) : Prop :=
  match e.mark? with
  | some (id, arg) => arg ≠ .missing ∧ Silent arg.outline ∧ ownYields e.outline = [id]
  | none => Silent e.outline

mutual

/-- Whether `Yield` is used in the marks of a statement only, and it is left nowhere else. -/
def Stmt.Clean : Stmt → Prop
  | .missing => True
  | .mk _ form => form.Clean

/-- Whether `Yield` is used in the marks of a form of statement only. -/
def StmtForm.Clean : StmtForm → Prop
  | .expr x => x.CleanMark
  | .defer _ => False
  | .ret results => ∃ x, results = [x] ∧ x.CleanMark
  | .block body => stmtsClean body
  | .ite init cond body other =>
    init.Clean ∧ Silent cond.outline ∧ stmtsClean body ∧ other.Clean ∧ other.isElse = true
  | .switch init tag clauses => init.Clean ∧ Silent tag.outline ∧ clausesClean clauses
  | .typeSwitch init guard clauses =>
    outlinesExit? false [] (StmtForm.typeSwitch init guard clauses).outline = none
  | .select clauses => outlinesExit? false [] (StmtForm.select clauses).outline = none
  | .loop init cond post body =>
    (init.isSimple = true ∧ Silent init.outline) ∧ Silent cond.outline ∧
      (post.isSimple = true ∧ Silent post.outline) ∧ stmtsClean body
  | .range key value _ x body =>
    Silent key.outline ∧ Silent value.outline ∧ Silent x.outline ∧ stmtsClean body
  | .labeled _ stmt => stmt.Clean
  | form => Silent form.outline

/-- Whether `Yield` is used in the marks of statements only. -/
def stmtsClean : List Stmt → Prop
  | [] => True
  | s :: ss => s.Clean ∧ stmtsClean ss

/-- Whether `Yield` is used in the marks of the clauses of a switch only. -/
def clausesClean : List Clause → Prop
  | [] => True
  | c :: cs => c.Clean ∧ clausesClean cs

/-- Whether `Yield` is used in the marks of a clause of a switch only. -/
def Clause.Clean : Clause → Prop
  | .case values body => Silent (outlineExprs values) ∧ stmtsClean body
  | .default body => stmtsClean body

end

section Marks

mutual

/-- Parentheses do not show in an outline. -/
theorem Expr.outline_unparen (e : Expr) : e.unparen.outline = e.outline := by
  cases e with
  | missing => rfl
  | mk site form => exact form.outline_unparen site

theorem Form.outline_unparen (site : Site) (form : Form) :
    (Expr.unparenForm site form).outline = form.outline site.pos := by
  cases form with
  | paren x => exact x.outline_unparen
  | _ => rfl

end

/-- An instantiated function, without its type arguments. -/
def Expr.generic : Expr → Expr
  | .mk _ (.index x _) => x
  | e => e

/-- The identifier that a name ends in. -/
def Expr.last? : Expr → Option Ident
  | .mk _ (.ident id) => some id
  | .mk _ (.sel _ member) => some member
  | _ => none

theorem Expr.callee?_eq (fn : Expr) : fn.callee? = fn.unparen.generic.last? := rfl

theorem Expr.last?_mem {e : Expr} {id : Ident} (h : e.last? = some id) :
    id ∈ outlinesOwnIdents e.outline := by
  unfold Expr.last? at h
  split at h
  · obtain rfl := Option.some.inj h
    simp [Expr.outline, Form.outline, outlinesOwnIdents, Outline.ownIdents]
  · obtain rfl := Option.some.inj h
    simp [Expr.outline, Form.outline, outlinesOwnIdents, Outline.ownIdents]
  · cases h

theorem Expr.generic_subset (e : Expr) :
    outlinesOwnIdents e.generic.outline ⊆ outlinesOwnIdents e.outline := by
  unfold Expr.generic
  split
  · simp [Expr.outline, Form.outline]
  · exact List.Subset.refl _

theorem Expr.callee?_mem {fn : Expr} {id : Ident} (h : fn.callee? = some id) :
    id ∈ outlinesOwnIdents fn.outline := by
  rw [fn.callee?_eq] at h
  rw [← fn.outline_unparen]
  exact fn.unparen.generic_subset (Expr.last?_mem h)

/-- The identifier of a mark is one of those that denote `Yield` in it. -/
theorem Expr.mark?_mem {e : Expr} {id : Ident} {arg : Expr} (h : e.mark? = some (id, arg)) :
    id ∈ ownYields e.outline := by
  obtain ⟨site, fn, arg', spread, he⟩ | hnone := e.unparen_cases
  · rw [Expr.mark?, he] at h
    obtain ⟨id', hid', heq⟩ := Option.map_eq_some_iff.mp h
    obtain ⟨hcallee, hyield⟩ := Option.filter_eq_some_iff.mp hid'
    obtain ⟨rfl, rfl⟩ := Prod.mk.inj heq
    rw [← e.outline_unparen, he]
    refine List.mem_filter.mpr ⟨?_, hyield⟩
    simp [Expr.outline, Form.outline, Expr.callee?_mem hcallee]
  · rw [(hnone "Yield").1] at h
    cases h

/-- A mark that passes its check uses `Yield` once. -/
theorem Expr.PlainMark.clean {e : Expr} (h : e.PlainMark)
    (harg : ∀ id arg, e.mark? = some (id, arg) → Silent arg.outline)
    (hnone : e.mark? = none → Silent e.outline) : e.CleanMark := by
  unfold Expr.CleanMark
  cases hm : e.mark? with
  | none => exact hnone hm
  | some m =>
      obtain ⟨id, arg⟩ := m
      obtain ⟨hwritten, honce⟩ := h _ hm
      refine ⟨hwritten, harg id arg hm, ?_⟩
      have hmem := Expr.mark?_mem hm
      match hyields : ownYields e.outline with
      | [] => simp [hyields] at hmem
      | [id'] => simpa [hyields, eq_comm] using hmem
      | _ :: _ :: _ => simp [hyields] at honce

end Marks

section Problems

variable {ctx : Context}

@[simp]
theorem value_yieldValue? (e : Expr) :
    (ctx.yieldValue? e).value = e.mark?.map fun m => m.2.erase := by
  unfold Context.yieldValue?
  rw [e.runtimeArg?_yield]
  cases e.mark? <;> rfl

theorem problems_yieldValue? {e : Expr} (h : (ctx.yieldValue? e).problems = []) :
    ∀ id arg, e.mark? = some (id, arg) → Silent arg.outline := by
  intro id arg hm
  unfold Context.yieldValue? at h
  rw [e.runtimeArg?_yield, hm] at h
  simpa using h

@[simp]
theorem problems_keep (form : StmtForm) :
    (ctx.keep form).problems = [] ↔ Silent form.outline := by
  simp [Context.keep]

theorem problems_bind_eq_nil {α β : Type} {x : Noted α} {f : α → Noted β} :
    (x >>= f).problems = [] ↔ x.problems = [] ∧ (f x.value).problems = [] := by
  rw [Noted.problems_bind, List.append_eq_nil_iff]

theorem varSpecs_silent {specs : List Spec} (h : (ctx.varSpecs specs).problems = [])
    (hvalues : specs.all Spec.isValue = true) : Silent (outlineSpecs specs) := by
  induction specs with
  | nil => rfl
  | cons spec specs ih =>
      obtain ⟨hspec, hrest⟩ := Bool.and_eq_true_iff.mp hvalues
      cases spec with
      | value names ty values =>
          simp only [Context.varSpecs, problems_bind_eq_nil, problems_check] at h
          refine silent_append.mpr ⟨h.1, ih ?_ hrest⟩
          cases ty with
          | missing => exact (problems_bind_eq_nil.mp (problems_bind_eq_nil.mp h.2).2).1
          | mk site form => exact (problems_bind_eq_nil.mp (problems_bind_eq_nil.mp h.2).2).1
      | _ => cases hspec

/-- The first part of a loop header, if it is no mark. -/
theorem Stmt.silent_of_convert {s : Stmt} (h : (s.convert ctx).problems = [])
    (hsimple : s.isSimple = true) (hmarks : s.marks = []) : Silent s.outline := by
  cases s with
  | missing => rfl
  | mk pos form =>
      change (form.convert ctx pos).problems = [] at h
      cases form with
      | empty => rfl
      | expr x =>
          have hm : x.mark? = none := by simpa [Stmt.marks, StmtForm.marks] using hmarks
          have hkept := (problems_bind_eq_nil.mp h).2
          simp only [value_yieldValue?, hm, Option.map_none, problems_keep] at hkept
          exact hkept
      | send channel value => exact (problems_keep _).mp h
      | incDec increment x => exact (problems_keep _).mp h
      | assign kind lhs rhs =>
          cases kind with
          | define => exact (problems_check _ _).mp (problems_bind_eq_nil.mp h).1
          | _ => exact (problems_keep _).mp h
      | _ => cases hsimple

theorem Stmt.isWritten_eq_false {s : Stmt} : s.isWritten = false ↔ s = .missing := by
  cases s <;> simp [Stmt.isWritten]

/-- The statements of a clause are converted as a list, up to a last one that falls through. -/
theorem convertArm_cons (ctx : Context) (s : Stmt) (ss : List Stmt) :
    (∃ pos label, s = .mk pos (.branch .fallthrough label) ∧ ss = []) ∨
      convertArm ctx (s :: ss) = do
        let fs ← s.convert ctx
        let rest ← convertArm ctx ss
        return fs ++ rest := by
  by_cases hlast : ∃ pos label, s = .mk pos (.branch .fallthrough label) ∧ ss = []
  · exact .inl hlast
  · right
    rw [convertArm]
    intro pos label hs hss
    exact hlast ⟨pos, label, hs, hss⟩

theorem StmtForm.clean_keepWhole {pos : Pos} {form : StmtForm}
    (h : (keepWhole pos form).problems = []) : outlinesExit? false [] form.outline = none := by
  cases hexit : outlinesExit? false [] form.outline with
  | none => rfl
  | some e => simp [keepWhole, hexit, note] at h

/-- A range statement that is accepted has an iterator. -/
theorem exists_iteration_of_clean {key value x : Expr} {kind : RangeKind} {body : List Stmt}
    {pos : Pos} (h : ((StmtForm.range key value kind x body).convert ctx pos).problems = []) :
    ∃ it, ctx.iteration x = .ok it := by
  have hwalk := (problems_bind_eq_nil.mp (problems_bind_eq_nil.mp h).2).2
  cases hit : ctx.iteration x with
  | ok it => exact ⟨it, rfl⟩
  | error reason => simp [hit, note] at hwalk

theorem value_convert_range {key value x : Expr} {kind : RangeKind} {body : List Stmt}
    {it : Iteration} (pos : Pos) (h : ctx.iteration x = .ok it) :
    ((StmtForm.range key value kind x body).convert ctx pos).value =
      [.walk ⟨key.erase, value.erase, kind == .define, (ctx.spell it.key).value,
        (ctx.spell it.value).value, it.adapter⟩ (convertStmts ctx body).value] := by
  simp only [StmtForm.convert, Noted.value_bind, h]
  rfl

theorem StmtForm.convert_decl {pos : Pos} {kind : DeclKind} (hkind : kind ≠ .var)
    (specs : List Spec) :
    (StmtForm.decl kind specs).convert ctx pos = do
      if ctx.generic then
        note pos (.localDecl kind)
        return []
      ctx.check (StmtForm.decl kind specs).outline
      return [.lift ⟨kind, eraseSpecs specs⟩] := by
  cases kind with
  | var => exact absurd rfl hkind
  | _ => rfl

/-- A local declaration of constants or types is lifted out of a generator without type
parameters. -/
theorem StmtForm.value_convert_decl {pos : Pos} {kind : DeclKind} (hkind : kind ≠ .var)
    (specs : List Spec) :
    ((StmtForm.decl kind specs).convert ctx pos).value =
      if ctx.generic then [] else [.lift ⟨kind, eraseSpecs specs⟩] := by
  rw [StmtForm.convert_decl hkind]
  split <;> rfl

theorem StmtForm.problems_convert_decl {pos : Pos} {kind : DeclKind} {specs : List Spec}
    (h : ((StmtForm.decl kind specs).convert ctx pos).problems = []) (hkind : kind ≠ .var) :
    ctx.generic = false ∧ Silent (outlineSpecs specs) := by
  rw [StmtForm.convert_decl hkind] at h
  cases hgeneric : ctx.generic with
  | true =>
      rw [if_pos hgeneric] at h
      cases h
  | false =>
      rw [hgeneric, if_neg Bool.false_ne_true] at h
      exact ⟨rfl, (problems_check _ _).mp (problems_bind_eq_nil.mp h).1⟩

/-- The header of a loop that is converted without problems uses no `Yield`. -/
theorem Stmt.silent_header {init post : Stmt} {cond : Expr} {body : List Stmt} {pos : Pos}
    (h : ((StmtForm.loop init cond post body).convert ctx pos).problems = [])
    (hsimple : init.isSimple = true) (hmarks : init.marks = []) :
    Silent init.outline ∧ Silent post.outline := by
  have hrest := (problems_bind_eq_nil.mp (problems_bind_eq_nil.mp h).2).2
  by_cases hbare : (!init.isWritten && !post.isWritten) = true
  · simp only [Bool.and_eq_true, Bool.not_eq_true', Stmt.isWritten_eq_false] at hbare
    rw [hbare.1, hbare.2]
    exact ⟨rfl, rfl⟩
  · rw [if_neg hbare] at hrest
    obtain ⟨hinit, hcheck, -⟩ := by simpa only [problems_bind_eq_nil] using hrest
    exact ⟨init.silent_of_convert hinit hsimple hmarks, (problems_check _ _).mp hcheck⟩

theorem Context.clean_ret {pos : Pos} {results : List Expr}
    (h : (ctx.ret pos results).problems = []) (hplaced : (StmtForm.ret results).Placed) :
    (StmtForm.ret results).Clean := by
  have hrefuse : ∀ {α : Type} (a : α) (reason : Reason),
      (do note pos reason; return a : Noted α).problems ≠ [] := by
    intro α a reason hnil
    cases hnil
  unfold Context.ret at h
  match results with
  | [] => exact absurd h (hrefuse _ _)
  | _ :: _ :: _ => exact absurd h (hrefuse _ _)
  | [x] =>
      obtain ⟨hyield, hrest⟩ := problems_bind_eq_nil.mp h
      refine ⟨x, rfl, hplaced.1.clean (problems_yieldValue? hyield) fun hm => ?_⟩
      simp only [value_yieldValue?, hm, Option.map_none] at hrest
      by_cases hnil : x.isNil = true
      · exact hplaced.2 hnil hm
      · rw [if_neg hnil] at hrest
        exact absurd hrest (hrefuse _ _)

mutual

/-- A statement that converts without problems uses `Yield` in its marks only, where the parts
that are not checked do so. -/
theorem Stmt.clean_of_convert (s : Stmt) (h : (s.convert ctx).problems = []) (hplaced : s.Placed) :
    s.Clean := by
  cases s with
  | missing => trivial
  | mk pos form => exact form.clean_of_convert h hplaced

theorem StmtForm.clean_of_convert {pos : Pos} (form : StmtForm)
    (h : (form.convert ctx pos).problems = []) (hplaced : form.Placed) : form.Clean := by
  cases form with
  | empty => rfl
  | expr x =>
      obtain ⟨hyield, hrest⟩ := problems_bind_eq_nil.mp h
      refine Expr.PlainMark.clean hplaced (problems_yieldValue? hyield) fun hm => ?_
      simp only [value_yieldValue?, hm, Option.map_none] at hrest
      exact (problems_keep (.expr x)).mp hrest
  | send channel value => exact (problems_keep _).mp h
  | incDec increment x => exact (problems_keep _).mp h
  | assign kind lhs rhs =>
      cases kind with
      | define => exact (problems_check _ _).mp (problems_bind_eq_nil.mp h).1
      | _ => exact (problems_keep _).mp h
  | go call => exact (problems_keep _).mp h
  | defer call => cases h
  | ret results => exact Context.clean_ret h hplaced
  | branch kind label => rfl
  | block body => exact stmtsClean_of_convert body (problems_bind_eq_nil.mp h).1 hplaced
  | ite init cond body other =>
      obtain ⟨hinit, hbody, hother, helse⟩ := hplaced
      simp only [StmtForm.convert, problems_bind_eq_nil, problems_check] at h
      exact ⟨init.clean_of_convert h.2.2.2.1 hinit, h.1, stmtsClean_of_convert body h.2.1 hbody,
        other.clean_of_convert h.2.2.1 hother, helse⟩
  | switch init tag clauses =>
      simp only [StmtForm.convert, problems_bind_eq_nil, problems_check] at h
      exact ⟨init.clean_of_convert h.2.2.1 hplaced.1, h.1,
        clausesClean_of_convert clauses h.2.1 hplaced.2⟩
  | typeSwitch init guard clauses => exact StmtForm.clean_keepWhole h
  | select clauses => exact StmtForm.clean_keepWhole h
  | loop init cond post body =>
      obtain ⟨⟨hsimple, hmarks⟩, hpost, hbody⟩ := hplaced
      obtain ⟨hinit, hsilent⟩ := Stmt.silent_header h hsimple hmarks
      simp only [StmtForm.convert, problems_bind_eq_nil, problems_check] at h
      exact ⟨⟨hsimple, hinit⟩, h.1, ⟨hpost, hsilent⟩, stmtsClean_of_convert body h.2.1 hbody⟩
  | range key value kind x body =>
      simp only [StmtForm.convert, problems_bind_eq_nil, problems_check] at h
      exact ⟨hplaced.1, hplaced.2.1, h.1, stmtsClean_of_convert body h.2.1 hplaced.2.2⟩
  | labeled label stmt => exact stmt.clean_of_convert (problems_bind_eq_nil.mp h).1 hplaced
  | decl kind specs =>
      cases kind with
      | var => exact varSpecs_silent h hplaced
      | _ => exact (StmtForm.problems_convert_decl h nofun).2

theorem stmtsClean_of_convert (ss : List Stmt) (h : (convertStmts ctx ss).problems = [])
    (hplaced : stmtsPlaced ss) : stmtsClean ss := by
  cases ss with
  | nil => trivial
  | cons s ss =>
      simp only [convertStmts, problems_bind_eq_nil] at h
      exact ⟨s.clean_of_convert h.1 hplaced.1, stmtsClean_of_convert ss h.2.1 hplaced.2⟩

theorem clausesClean_of_convert (cs : List Clause) (h : (convertClauses ctx cs).problems = [])
    (hplaced : clausesPlaced cs) : clausesClean cs := by
  cases cs with
  | nil => trivial
  | cons c cs =>
      simp only [convertClauses, problems_bind_eq_nil] at h
      exact ⟨c.clean_of_convert h.1 hplaced.1, clausesClean_of_convert cs h.2.1 hplaced.2⟩

theorem Clause.clean_of_convert (c : Clause) (h : (c.convert ctx).problems = [])
    (hplaced : c.Placed) : c.Clean := by
  cases c with
  | case values body =>
      simp only [Clause.convert, problems_bind_eq_nil, problems_check] at h
      exact ⟨h.1, armClean_of_convert body h.2.1 hplaced⟩
  | default body => exact armClean_of_convert body (problems_bind_eq_nil.mp h).1 hplaced

theorem armClean_of_convert (ss : List Stmt) (h : (convertArm ctx ss).problems = [])
    (hplaced : stmtsPlaced ss) : stmtsClean ss := by
  cases ss with
  | nil => trivial
  | cons s ss =>
      obtain ⟨pos, label, rfl, rfl⟩ | hcons := convertArm_cons ctx s ss
      · exact ⟨rfl, trivial⟩
      · simp only [hcons, problems_bind_eq_nil] at h
        exact ⟨s.clean_of_convert h.1 hplaced.1, armClean_of_convert ss h.2.1 hplaced.2⟩

end

end Problems

mutual

/-- A statement that is kept whole uses `Yield` nowhere. -/
theorem Outline.silent_of_exit? {looped : Bool} {labels : List String} (o : Outline)
    (h : o.exit? looped labels = none) : Silent [o] := by
  cases o with
  | ident id =>
      by_cases hid : id.isYield = true
      · simp [Outline.exit?, hid] at h
      · simp [Silent, ownYields, outlinesOwnIdents, Outline.ownIdents, hid]
  | literal pos signature body => rfl
  | loop parts => simpa [Silent] using silent_of_exit? parts h
  | whole parts => simpa [Silent] using silent_of_exit? parts h
  | labeled label parts => simpa [Silent] using silent_of_exit? parts h
  | branch kind label => rfl
  | ret parts => cases h
  | address target parts =>
      have hparts := silent_of_exit? parts h
      simpa [Silent, ownYields, outlinesOwnIdents, Outline.ownIdents] using hparts

theorem silent_of_exit? {looped : Bool} {labels : List String} (os : List Outline)
    (h : outlinesExit? looped labels os = none) : Silent os := by
  cases os with
  | nil => rfl
  | cons o os =>
      obtain ⟨ho, hos⟩ := Option.or_eq_none_iff.mp h
      have hsilent : Silent ([o] ++ os) :=
        silent_append.mpr ⟨o.silent_of_exit? ho, silent_of_exit? os hos⟩
      exact hsilent

end

theorem Expr.CleanMark.marked {e : Expr} (h : e.CleanMark) :
    ownYields e.outline = e.mark?.toList.map Prod.fst := by
  unfold Expr.CleanMark at h
  cases hm : e.mark? with
  | none =>
      rw [hm] at h
      exact h
  | some m =>
      rw [hm] at h
      exact h.2.2

theorem Stmt.marks_of_isSimple {s : Stmt} (h : s.isSimple = true)
    (hsilent : Silent s.outline) : s.marks = [] := by
  cases s with
  | missing => rfl
  | mk pos form =>
      cases form with
      | expr x =>
          cases hm : x.mark? with
          | none => simp [Stmt.marks, StmtForm.marks, hm]
          | some m =>
              have hmem := Expr.mark?_mem hm
              rw [show ownYields x.outline = [] from hsilent] at hmem
              cases hmem
      | empty | send | incDec | assign => rfl
      | _ => cases h

mutual

/-- The identifiers that denote `Yield` in a clean statement are those of its marks. -/
theorem Stmt.marked_of_clean (s : Stmt) (h : s.Clean) :
    ownYields s.outline = s.marks.map Prod.fst := by
  cases s with
  | missing => rfl
  | mk pos form => exact form.marked_of_clean h

theorem StmtForm.marked_of_clean (form : StmtForm) (h : form.Clean) :
    ownYields form.outline = form.marks.map Prod.fst := by
  cases form with
  | expr x => exact h.marked
  | defer call => exact h.elim
  | ret results =>
      obtain ⟨x, rfl, hx⟩ := h
      simpa [StmtForm.outline, StmtForm.marks, outlineExprs] using hx.marked
  | block body => exact stmtsMarked_of_clean body h
  | ite init cond body other =>
      obtain ⟨hinit, hcond, hbody, hother, -⟩ := h
      simp only [StmtForm.outline, StmtForm.marks, ownYields_append, List.map_append,
        init.marked_of_clean hinit, show ownYields cond.outline = [] from hcond,
        stmtsMarked_of_clean body hbody, other.marked_of_clean hother, List.append_nil]
  | switch init tag clauses =>
      obtain ⟨hinit, htag, hclauses⟩ := h
      simp only [StmtForm.outline, StmtForm.marks, ownYields_append, List.map_append,
        init.marked_of_clean hinit, show ownYields tag.outline = [] from htag,
        clausesMarked_of_clean clauses hclauses, List.append_nil]
  | typeSwitch init guard clauses => exact silent_of_exit? _ h
  | select clauses => exact silent_of_exit? _ h
  | loop init cond post body =>
      obtain ⟨⟨hsimple, hinit⟩, hcond, ⟨-, hpost⟩, hbody⟩ := h
      simp only [StmtForm.outline, StmtForm.marks, ownYields_loop, ownYields_append,
        show ownYields init.outline = [] from hinit, show ownYields cond.outline = [] from hcond,
        show ownYields post.outline = [] from hpost, stmtsMarked_of_clean body hbody,
        Stmt.marks_of_isSimple hsimple hinit, List.nil_append]
  | range key value kind x body =>
      obtain ⟨hkey, hvalue, hx, hbody⟩ := h
      simp only [StmtForm.outline, StmtForm.marks, ownYields_loop, ownYields_append,
        show ownYields key.outline = [] from hkey, show ownYields value.outline = [] from hvalue,
        show ownYields x.outline = [] from hx, stmtsMarked_of_clean body hbody, List.nil_append]
  | labeled label stmt => simpa [StmtForm.outline, StmtForm.marks] using stmt.marked_of_clean h
  | _ => exact h

theorem stmtsMarked_of_clean (ss : List Stmt) (h : stmtsClean ss) :
    ownYields (outlineStmts ss) = (stmtsMarks ss).map Prod.fst := by
  cases ss with
  | nil => rfl
  | cons s ss =>
      simp only [outlineStmts, stmtsMarks, ownYields_append, List.map_append,
        s.marked_of_clean h.1, stmtsMarked_of_clean ss h.2]

theorem clausesMarked_of_clean (cs : List Clause) (h : clausesClean cs) :
    ownYields (outlineClauses cs) = (clausesMarks cs).map Prod.fst := by
  cases cs with
  | nil => rfl
  | cons c cs =>
      simp only [outlineClauses, clausesMarks, ownYields_append, List.map_append,
        c.marked_of_clean h.1, clausesMarked_of_clean cs h.2]

theorem Clause.marked_of_clean (c : Clause) (h : c.Clean) :
    ownYields c.outline = c.marks.map Prod.fst := by
  cases c with
  | case values body =>
      simp only [Clause.outline, Clause.marks, ownYields_append,
        show ownYields (outlineExprs values) = [] from h.1, stmtsMarked_of_clean body h.2,
        List.nil_append]
  | default body => exact stmtsMarked_of_clean body h

end

end YieldMachine.Source
