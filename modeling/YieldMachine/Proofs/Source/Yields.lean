import Mathlib
import YieldMachine.Proofs.Source.Respelled
import YieldMachine.Source.Scan

/-!
# Every mark is lowered

The yields of a converted body are its marks, and its simple statements do not return.  So
each mark becomes one jump with a value in the table, and nothing else of the marks is left
there.
-/

namespace YieldMachine.Source

section Returns

theorem outlinesExit?_append {looped : Bool} {labels : List String} (os ps : List Outline) :
    outlinesExit? looped labels (os ++ ps) =
      (outlinesExit? looped labels os).or (outlinesExit? looped labels ps) := by
  induction os with
  | nil => rfl
  | cons o os ih => rw [List.cons_append, outlinesExit?, ih, outlinesExit?, Option.or_assoc]

theorem outlinesExit?_append_eq_none {looped : Bool} {labels : List String} {os ps : List Outline} :
    outlinesExit? looped labels (os ++ ps) = none ↔
      outlinesExit? looped labels os = none ∧ outlinesExit? looped labels ps = none := by
  rw [outlinesExit?_append, Option.or_eq_none_iff]

theorem outlinesExit?_singleton {looped : Bool} {labels : List String} (o : Outline) :
    outlinesExit? looped labels [o] = o.exit? looped labels := by
  rw [outlinesExit?, outlinesExit?, Option.or_none]

mutual

/-- A statement that is not left other than at its end does not return. -/
theorem Stmt.returns_erase {looped : Bool} {labels : List String} (s : Stmt)
    (h : outlinesExit? looped labels s.outline = none) : s.erase.returns = false := by
  cases s with
  | missing => rfl
  | mk pos form => exact form.returns_erase h

theorem StmtForm.returns_erase {looped : Bool} {labels : List String} (form : StmtForm)
    (h : outlinesExit? looped labels form.outline = none) : form.erase.returns = false := by
  cases form with
  | ret results => cases h
  | block body => exact returns_eraseStmts body h
  | ite init cond body other =>
      simp only [StmtForm.outline, outlinesExit?_append_eq_none] at h
      obtain ⟨⟨⟨hinit, -⟩, hbody⟩, hother⟩ := h
      simp only [StmtForm.erase, YieldMachine.Stmt.returns, init.returns_erase hinit,
        returns_eraseStmts body hbody, other.returns_erase hother, Bool.or_false]
  | switch init tag clauses =>
      simp only [StmtForm.outline, outlinesExit?_append_eq_none] at h
      obtain ⟨⟨hinit, -⟩, hclauses⟩ := h
      simp only [StmtForm.erase, YieldMachine.Stmt.returns, init.returns_erase hinit,
        returns_eraseClauses clauses hclauses, Bool.or_false]
  | typeSwitch init guard clauses =>
      simp only [StmtForm.outline, outlinesExit?_singleton, Outline.exit?,
        outlinesExit?_append_eq_none] at h
      obtain ⟨⟨hinit, -⟩, hclauses⟩ := h
      simp only [StmtForm.erase, YieldMachine.Stmt.returns, init.returns_erase hinit,
        returns_eraseClauses clauses hclauses, Bool.or_false]
  | select clauses =>
      simp only [StmtForm.outline, outlinesExit?_singleton, Outline.exit?] at h
      exact returns_eraseComms clauses h
  | loop init cond post body =>
      simp only [StmtForm.outline, outlinesExit?_singleton, Outline.exit?,
        outlinesExit?_append_eq_none] at h
      obtain ⟨⟨⟨hinit, -⟩, hpost⟩, hbody⟩ := h
      simp only [StmtForm.erase, YieldMachine.Stmt.returns, init.returns_erase hinit,
        post.returns_erase hpost, returns_eraseStmts body hbody, Bool.or_false]
  | range key value kind x body =>
      simp only [StmtForm.outline, outlinesExit?_singleton, Outline.exit?,
        outlinesExit?_append_eq_none] at h
      exact returns_eraseStmts body h.2
  | labeled label stmt =>
      simp only [StmtForm.outline, outlinesExit?_singleton, Outline.exit?] at h
      exact stmt.returns_erase h
  | _ => rfl

theorem returns_eraseStmts {looped : Bool} {labels : List String} (ss : List Stmt)
    (h : outlinesExit? looped labels (outlineStmts ss) = none) :
    stmtsReturn (eraseStmts ss) = false := by
  cases ss with
  | nil => rfl
  | cons s ss =>
      obtain ⟨hs, hss⟩ := outlinesExit?_append_eq_none.mp h
      simp only [eraseStmts, stmtsReturn, s.returns_erase hs, returns_eraseStmts ss hss,
        Bool.or_false]

theorem returns_eraseClauses {looped : Bool} {labels : List String} (cs : List Clause)
    (h : outlinesExit? looped labels (outlineClauses cs) = none) :
    clausesReturn (eraseClauses cs) = false := by
  cases cs with
  | nil => rfl
  | cons c cs =>
      obtain ⟨hc, hcs⟩ := outlinesExit?_append_eq_none.mp h
      simp only [eraseClauses, clausesReturn, c.returns_erase hc, returns_eraseClauses cs hcs,
        Bool.or_false]

theorem Clause.returns_erase {looped : Bool} {labels : List String} (c : Clause)
    (h : outlinesExit? looped labels c.outline = none) : c.erase.returns = false := by
  cases c with
  | case values body => exact returns_eraseStmts body (outlinesExit?_append_eq_none.mp h).2
  | default body => exact returns_eraseStmts body h

theorem returns_eraseComms {looped : Bool} {labels : List String} (cs : List CommClause)
    (h : outlinesExit? looped labels (outlineComms cs) = none) :
    commsReturn (eraseComms cs) = false := by
  cases cs with
  | nil => rfl
  | cons c cs =>
      obtain ⟨hc, hcs⟩ := outlinesExit?_append_eq_none.mp h
      simp only [eraseComms, commsReturn, c.returns_erase hc, returns_eraseComms cs hcs,
        Bool.or_false]

theorem CommClause.returns_erase {looped : Bool} {labels : List String} (c : CommClause)
    (h : outlinesExit? looped labels c.outline = none) : c.erase.returns = false := by
  obtain ⟨comm, body⟩ := c
  exact returns_eraseStmts body (outlinesExit?_append_eq_none.mp h).2

end

/-- A part of a header does not return. -/
theorem Stmt.returns_of_isSimple {s : Stmt} (h : s.isSimple = true) : s.erase.returns = false := by
  cases s with
  | missing => rfl
  | mk pos form =>
      cases form with
      | empty | expr | send | incDec | assign => rfl
      | _ => cases h

end Returns

/-- Whether the yields of statements are the marks, and the simple ones do not return. -/
structure Faithful (fs : List Flow) (marks : List (Ident × Expr)) : Prop where
  yields : flowsYields fs = marks.map fun m => m.2.erase
  quiet : flowsQuiet fs

namespace Faithful

variable {fs gs : List Flow} {ms ns : List (Ident × Expr)}

theorem nil : Faithful [] [] := ⟨rfl, trivial⟩

theorem append (h : Faithful fs ms) (h' : Faithful gs ns) : Faithful (fs ++ gs) (ms ++ ns) :=
  ⟨by rw [flowsYields_append, List.map_append, h.yields, h'.yields],
    flowsQuiet_append.mpr ⟨h.quiet, h'.quiet⟩⟩

theorem singleton {s : Flow} (hyields : s.yields = ms.map fun m => m.2.erase) (hquiet : s.Quiet) :
    Faithful [s] ms :=
  ⟨by rw [flowsYields, flowsYields, List.append_nil, hyields], hquiet, trivial⟩

theorem single {s : Flow} (h : Faithful [s] ms) :
    s.yields = (ms.map fun m => m.2.erase) ∧ s.Quiet := by
  have hyields := h.yields
  rw [flowsYields, flowsYields, List.append_nil] at hyields
  exact ⟨hyields, h.quiet.1⟩

theorem simple {stmt : YieldMachine.Stmt} (h : stmt.returns = false) : Faithful [.simple stmt] [] :=
  singleton rfl h

theorem block (h : Faithful fs ms) : Faithful [.block fs] ms := singleton h.yields h.quiet

/-- What stands for statements where a single one is needed. -/
theorem orBlock : Faithful fs ms → Faithful [match fs with | [s] => s | _ => .block fs] ms := by
  intro h
  split
  · exact h
  · exact h.block

theorem loop {start next : Flow} {cond : YieldMachine.Expr} (hstart : start.QuietPart)
    (hnext : next.QuietPart) (h : Faithful fs ms) : Faithful [.loop start cond next fs] ms := by
  refine singleton ?_ ⟨hstart, hnext, h.quiet⟩
  rw [Flow.yields, hstart.yields, hnext.yields, List.nil_append, List.append_nil, h.yields]

theorem labeled {s : Flow} (h : Faithful [s] ms) (label : String) :
    Faithful [.labeled label s] ms :=
  singleton h.single.1 h.single.2

theorem aroundInit {s : Flow} {written : Bool} (hinit : Faithful fs ms)
    (hbare : written = false → ms = []) (h : Faithful [s] ns) :
    Faithful [aroundInit written fs s] (ms ++ ns) := by
  unfold Source.aroundInit
  cases written with
  | true => exact (hinit.append h).block
  | false =>
      rw [hbare rfl]
      exact h

end Faithful

section Conversion

variable {ctx : Context}

theorem Expr.erase_eq_missing {e : Expr} : e.erase = .missing ↔ e = .missing := by
  refine ⟨fun h => ?_, fun h => by rw [h]; rfl⟩
  cases e with
  | missing => rfl
  | mk site form => cases form <;> cases h

theorem faithful_mark {id : Ident} {arg : Expr} (h : arg ≠ .missing) :
    Faithful [.yield arg.erase] [(id, arg)] :=
  .singleton (Expr.given_of_ne (mt Expr.erase_eq_missing.mp h)) trivial

theorem value_keepWhole (pos : Pos) (form : StmtForm) :
    (keepWhole pos form).value = [.simple form.erase] := by
  unfold keepWhole
  split <;> rfl

/-- Declarations hold no marks. -/
theorem faithful_varSpecs (specs : List Spec) : Faithful (ctx.varSpecs specs).value [] := by
  induction specs with
  | nil => exact .nil
  | cons spec specs ih =>
      cases spec with
      | value names ty values =>
          have hdeclare : ∀ d, Faithful [.declare d] [] := fun d => .singleton rfl trivial
          cases ty <;> exact (hdeclare _).append ih
      | _ => exact ih

theorem Stmt.marks_of_isWritten {s : Stmt} (h : s.isWritten = false) : s.marks = [] := by
  rw [Stmt.isWritten_eq_false.mp h]
  rfl

/-- The else part of a conditional is one statement, if it is written. -/
theorem Faithful.headD {s : Stmt} (helse : s.isElse = true)
    (h : Faithful (s.convert ctx).value s.marks) :
    Faithful [(s.convert ctx).value.headD .missing] s.marks := by
  cases s with
  | missing => exact .singleton rfl trivial
  | mk pos form =>
      cases form with
      | block | ite => exact h
      | _ => cases helse

/-- The first part of a loop header is copied or declared. -/
theorem Stmt.quietPart_of_isSimple (ctx : Context) {s : Stmt} (h : s.isSimple = true)
    (hmarks : s.marks = []) :
    Flow.QuietPart (match (s.convert ctx).value with | [s] => s | _ => .missing) := by
  cases s with
  | missing => trivial
  | mk pos form =>
      cases form with
      | expr x =>
          have hm : x.mark? = none := by simpa [Stmt.marks, StmtForm.marks] using hmarks
          rw [Stmt.convert, value_convert_expr, hm]
          rfl
      | empty | send | incDec => rfl
      | assign kind lhs rhs => cases kind <;> first | rfl | trivial
      | _ => cases h

theorem Faithful.ite {fs : List Flow} {ms ns : List (Ident × Expr)} {other : Flow}
    (hbody : Faithful fs ms) (cond : YieldMachine.Expr) (hother : Faithful [other] ns) :
    Faithful [.ite cond fs other] (ms ++ ns) := by
  obtain ⟨hyields, hquiet⟩ := hother.single
  refine .singleton ?_ ⟨hbody.quiet, hquiet⟩
  rw [Flow.yields, hbody.yields, hyields, List.map_append]

theorem faithful_expr (pos : Pos) {x : Expr} (h : (StmtForm.expr x).Clean) :
    Faithful ((StmtForm.expr x).convert ctx pos).value (StmtForm.expr x).marks := by
  rw [value_convert_expr]
  simp only [StmtForm.Clean, Expr.CleanMark] at h
  cases hm : x.mark? with
  | none =>
      simp only [StmtForm.marks, hm]
      exact .simple rfl
  | some m =>
      simp only [StmtForm.marks, hm] at h ⊢
      exact faithful_mark h.1

theorem faithful_ret (pos : Pos) {results : List Expr} (h : (StmtForm.ret results).Clean) :
    Faithful ((StmtForm.ret results).convert ctx pos).value (StmtForm.ret results).marks := by
  obtain ⟨x, rfl, hx⟩ := h
  rw [value_convert_ret]
  unfold Expr.CleanMark at hx
  cases hm : x.mark? with
  | none =>
      simp only [StmtForm.marks, hm]
      split
      · exact .singleton rfl trivial
      · exact .nil
  | some m =>
      simp only [StmtForm.marks, hm] at hx ⊢
      exact faithful_mark hx.1

theorem faithful_loop (pos : Pos) {init post : Stmt} {cond : Expr} {body : List Stmt}
    (h : (StmtForm.loop init cond post body).Clean)
    (hbody : Faithful (convertStmts ctx body).value (stmtsMarks body)) :
    Faithful ((StmtForm.loop init cond post body).convert ctx pos).value
      (StmtForm.loop init cond post body).marks := by
  obtain ⟨⟨hsimple, hinit⟩, -, ⟨hpost, -⟩, -⟩ := h
  have hmarks := Stmt.marks_of_isSimple hsimple hinit
  simp only [StmtForm.convert, StmtForm.marks, Noted.value_bind, hmarks, List.nil_append]
  split
  · exact .singleton hbody.yields hbody.quiet
  · have hstart := Stmt.quietPart_of_isSimple ctx hsimple hmarks
    have hnext : Flow.QuietPart (if post.isWritten then .simple post.erase else .missing) := by
      split
      · exact Stmt.returns_of_isSimple hpost
      · trivial
    exact hbody.loop hstart hnext

theorem faithful_decl (pos : Pos) (kind : DeclKind) (specs : List Spec) :
    Faithful ((StmtForm.decl kind specs).convert ctx pos).value [] := by
  have hlift (hkind : kind ≠ .var) :
      Faithful ((StmtForm.decl kind specs).convert ctx pos).value [] := by
    rw [StmtForm.value_convert_decl hkind]
    split
    · exact .nil
    · exact .singleton rfl trivial
  cases kind with
  | var => exact faithful_varSpecs specs
  | _ => exact hlift (by decide)

mutual

/-- The yields of a converted statement are its marks. -/
theorem Stmt.faithful_convert (s : Stmt) (h : s.Clean) :
    Faithful (s.convert ctx).value s.marks := by
  cases s with
  | missing => exact .nil
  | mk pos form => exact form.faithful_convert pos h

theorem StmtForm.faithful_convert (form : StmtForm) (pos : Pos) (h : form.Clean) :
    Faithful (form.convert ctx pos).value form.marks := by
  cases form with
  | empty | send | incDec | go => exact .simple rfl
  | expr x => exact faithful_expr pos h
  | assign kind lhs rhs =>
      cases kind with
      | define => exact .singleton rfl trivial
      | _ => exact .simple rfl
  | defer call => exact h.elim
  | ret results => exact faithful_ret pos h
  | branch kind label =>
      cases kind with
      | brk | cont => exact .singleton rfl trivial
      | _ => exact .nil
  | block body => exact (faithful_convertStmts body h).block
  | ite init cond body other =>
      obtain ⟨hinit, -, hbody, hother, helse⟩ := h
      have hrest := (faithful_convertStmts body hbody).ite cond.erase
        ((other.faithful_convert hother).headD helse)
      rw [StmtForm.marks, List.append_assoc]
      exact (init.faithful_convert hinit).aroundInit Stmt.marks_of_isWritten hrest
  | switch init tag clauses =>
      obtain ⟨hinit, -, hclauses⟩ := h
      obtain ⟨hyields, hquiet⟩ := faithful_convertClauses clauses hclauses
      exact (init.faithful_convert hinit).aroundInit Stmt.marks_of_isWritten
        (.singleton hyields hquiet)
  | typeSwitch init guard clauses =>
      rw [StmtForm.convert, value_keepWhole]
      exact .simple (StmtForm.returns_erase _ h)
  | select clauses =>
      rw [StmtForm.convert, value_keepWhole]
      exact .simple (StmtForm.returns_erase _ h)
  | loop init cond post body =>
      exact faithful_loop pos h (faithful_convertStmts body h.2.2.2)
  | range key value kind x body =>
      obtain ⟨-, -, -, hbody⟩ := h
      have hbody' := faithful_convertStmts body hbody
      simp only [StmtForm.convert, Noted.value_bind]
      split
      · exact hbody'.block
      · exact .singleton hbody'.yields hbody'.quiet
  | labeled label stmt =>
      have hstmt := (stmt.faithful_convert h).orBlock
      exact hstmt.labeled label.name
  | decl kind specs => exact faithful_decl pos kind specs

theorem faithful_convertStmts (ss : List Stmt) (h : stmtsClean ss) :
    Faithful (convertStmts ctx ss).value (stmtsMarks ss) := by
  cases ss with
  | nil => exact .nil
  | cons s ss => exact (s.faithful_convert h.1).append (faithful_convertStmts ss h.2)

theorem faithful_convertClauses (cs : List Clause) (h : clausesClean cs) :
    casesYields (convertClauses ctx cs).value = (clausesMarks cs).map (fun m => m.2.erase) ∧
      casesQuiet (convertClauses ctx cs).value := by
  cases cs with
  | nil => exact ⟨rfl, trivial⟩
  | cons c cs =>
      obtain ⟨hyields, hquiet⟩ := c.faithful_convert h.1
      obtain ⟨hyields', hquiet'⟩ := faithful_convertClauses cs h.2
      simp only [convertClauses, Noted.value_bind, Noted.value_pure, casesYields, clausesMarks,
        List.map_append, hyields, hyields', true_and]
      exact ⟨hquiet, hquiet'⟩

theorem Clause.faithful_convert (c : Clause) (h : c.Clean) :
    (c.convert ctx).value.yields = c.marks.map (fun m => m.2.erase) ∧
      (c.convert ctx).value.Quiet := by
  cases c with
  | case values body =>
      have hbody := faithful_convertArm body h.2
      exact ⟨hbody.yields, hbody.quiet⟩
  | default body =>
      have hbody := faithful_convertArm body h
      exact ⟨hbody.yields, hbody.quiet⟩

theorem faithful_convertArm (ss : List Stmt) (h : stmtsClean ss) :
    Faithful (convertArm ctx ss).value (stmtsMarks ss) := by
  cases ss with
  | nil => exact .singleton rfl trivial
  | cons s ss =>
      obtain ⟨pos, label, rfl, rfl⟩ | hcons := convertArm_cons ctx s ss
      · exact .nil
      · rw [hcons]
        exact (s.faithful_convert h.1).append (faithful_convertArm ss h.2)

end

end Conversion

section Generators

/-- A generator of a file is one of its functions, which produces elements. -/
theorem scanFuncs_mem {own : String} {scope : List String} {name : String} {imports : List Import}
    {fs : List (Func × Pos)} {holders : List String} {g : Generator}
    (hg : g ∈ (scanFuncs own scope name imports holders fs).generators) :
    (g.func, g.pos) ∈ fs ∧ g.func.yields = true := by
  induction fs generalizing holders with
  | nil => cases hg
  | cons f fs ih =>
      obtain ⟨f, pos⟩ := f
      have hrest : ∀ {holders},
          g ∈ (scanFuncs own scope name imports holders fs).generators →
          (g.func, g.pos) ∈ (f, pos) :: fs ∧ g.func.yields = true :=
        fun hg => ⟨.tail _ (ih hg).1, (ih hg).2⟩
      unfold scanFuncs at hg
      split at hg
      · rename_i hyields
        cases hconvert : f.convert pos own scope imports holders with
        | mk result taken =>
            rw [hconvert] at hg
            cases result <;> obtain rfl | hg := List.mem_cons.mp hg
            · exact ⟨.head _, hyields⟩
            · exact hrest hg
            · exact ⟨.head _, hyields⟩
            · exact hrest hg
      · exact hrest hg

/-- How a generator of a file was converted. -/
theorem scanFuncs_convert {own : String} {scope : List String} {name : String}
    {imports : List Import} {fs : List (Func × Pos)} {holders : List String} {g : Generator}
    (hg : g ∈ (scanFuncs own scope name imports holders fs).generators) {fn : Routine}
    (hfn : g.routine = some fn) :
    ∃ taken, (g.func.convert g.pos own scope imports taken).1 = .ok (fn, g.imports) := by
  induction fs generalizing holders with
  | nil => cases hg
  | cons f fs ih =>
      obtain ⟨f, pos⟩ := f
      unfold scanFuncs at hg
      split at hg
      · cases hconvert : f.convert pos own scope imports holders with
        | mk result taken =>
            rw [hconvert] at hg
            cases result with
            | error problems =>
                obtain rfl | hg := List.mem_cons.mp hg
                · cases hfn
                · exact ih hg
            | ok converted =>
                obtain ⟨routine, extra⟩ := converted
                obtain rfl | hg := List.mem_cons.mp hg
                · obtain rfl := Option.some.inj hfn
                  exact ⟨holders, by rw [hconvert]⟩
                · exact ih hg
      · exact ih hg

/-- What an accepted function was converted from. -/
theorem Func.convert_ok {f : Func} {pos : Pos} {own : String} {scope : List String}
    {imports : List Import} {taken : List String} {fn : Routine} {extra : List (String × String)}
    (h : (f.convert pos own scope imports taken).1 = .ok (fn, extra)) {body : List Stmt}
    (hbody : f.body = some body) :
    ∃ runtime holder element,
      (f.routine runtime (qualifier own imports) holder element body).problems = [] ∧
        (f.routine runtime (qualifier own imports) holder element body).value = fn := by
  unfold Func.convert at h
  rw [hbody] at h
  split at h
  · rename_i element result body' _ _ heq
    obtain rfl := Option.some.inj heq
    split at h
    · cases h
    · rename_i runtime _
      split at h
      · cases h
      · split at h
        · cases h
        · simp only at h
          split at h
          · rename_i hproblems
            refine ⟨_, _, _, List.isEmpty_iff.mp hproblems, ?_⟩
            exact (Prod.mk.inj (Except.ok.inj h)).1
          · cases h
  · cases h

/-- The type parameters of a generator, which a method takes from its receiver. -/
def Func.genericParams (f : Func) (ctx : Context) : Noted YieldMachine.Fields :=
  match f.receiver? with
  | some _ => do
    let params ← ctx.receiverParams f.recvTypeParams
    pure (if params.isEmpty then .absent else YieldMachine.Fields.list params)
  | none => pure f.signature.typeParams.erase

/-- What the conversion of the body of a generator depends on. -/
def Func.bodyContext (f : Func) (runtime : String) (qualify : PackageRef → String) : Context :=
  ⟨runtime, qualify, !(f.genericParams ⟨runtime, qualify, false⟩).value.toList.isEmpty⟩

section Routine

variable (f : Func) (runtime : String) (qualify : PackageRef → String) (holder : String)
  (element : Ty)

/-- The body of a routine is the converted one, and nothing else depends on it. -/
theorem Func.value_routine (body body' : List Stmt) :
    (f.routine runtime qualify holder element body).value =
      { (f.routine runtime qualify holder element body').value with
        body := (convertStmts (f.bodyContext runtime qualify) body).value } := by
  unfold Func.routine Func.bodyContext Func.genericParams
  cases f.receiver? <;> rfl

theorem Func.problems_routine {body : List Stmt}
    (h : (f.routine runtime qualify holder element body).problems = []) :
    (convertStmts (f.bodyContext runtime qualify) body).problems = [] := by
  unfold Func.routine at h
  unfold Func.bodyContext Func.genericParams
  cases hrecv : f.receiver? with
  | none =>
      simp only [hrecv, problems_bind_eq_nil, convertBody] at h
      exact h.2.2.1.2
  | some field =>
      simp only [hrecv, problems_bind_eq_nil, convertBody] at h
      exact h.2.2.2.1.2

end Routine

/-- Every mark of an accepted generator becomes one jump with a value of its table, and
`Yield` is used nowhere else: the table is the same however it is spelled, and holds no
statement that returns. -/
theorem File.scan_lowers_marks {file : File} {pkg : Package} {holders : List String}
    {g : Generator} (hg : g ∈ (file.scan pkg holders).generators) {fn : Routine}
    (hfn : g.routine = some fn) {h : Holder} (hlower : fn.lower = .ok h) {body : List Stmt}
    (hbody : g.func.body = some body) (hplaced : stmtsPlaced body) :
    (∃ runtime qualify holder element,
      (g.func.routine runtime qualify holder element body).value = fn ∧
        ∀ y, (g.func.routine runtime qualify holder element
          (mapOwnStmts (Ident.respell y) body)).value.lower = .ok h) ∧
      (∀ op ∈ tableOps h.states, op.Stays) ∧
      ownYields (outlineStmts body) = (stmtsMarks body).map Prod.fst ∧
      ∃ values, List.Perm ((tableOps h.states).flatMap Op.carried) values ∧
        List.Forall₂ (fun value m => value.Renamed m.2.erase) values (stmtsMarks body) := by
  obtain ⟨taken, hconvert⟩ := scanFuncs_convert hg hfn
  obtain ⟨runtime, holder, element, hproblems, rfl⟩ := Func.convert_ok hconvert hbody
  generalize qualifier pkg.path file.imports = qualify at hproblems hlower ⊢
  have hclean := stmtsClean_of_convert body (Func.problems_routine _ _ _ _ _ hproblems) hplaced
  have hroutine := g.func.value_routine runtime qualify holder element body body
  have hconverted : (g.func.routine runtime qualify holder element body).value.body =
      (convertStmts (g.func.bodyContext runtime qualify) body).value := by rw [hroutine]
  have hfaithful : Faithful (g.func.routine runtime qualify holder element body).value.body
      (stmtsMarks body) := hconverted ▸ faithful_convertStmts body hclean
  obtain ⟨hyields, hquiet⟩ := hfaithful
  obtain ⟨hexecutes, values, hperm, hrenamed⟩ := Routine.lower_carries .of_returns hquiet
    (fun s hs => (flows_parts_quiet _ hquiet s hs).copies) hlower
  refine ⟨⟨runtime, qualify, holder, element, rfl, fun y => ?_⟩,
    fun op hop => Op.stays_of_executes (hexecutes op hop), stmtsMarked_of_clean body hclean,
    values, hperm, ?_⟩
  · rw [g.func.value_routine runtime qualify holder element _ body,
      convertStmts_respell body hclean, ← hroutine]
    exact hlower
  · rw [hyields, List.forall₂_map_right_iff] at hrenamed
    exact hrenamed

/-- A node about which nothing is known. -/
def untyped (form : Form) : Expr := .mk ⟨⟨6, 2⟩, none, false⟩ form

/-- A call of `yieldgen.Yield`. -/
def yieldOf (arg : Expr) : Expr :=
  untyped (.call
    (untyped (.sel (untyped (.ident ⟨"yieldgen", ⟨6, 2⟩, none⟩))
      ⟨"Yield", ⟨6, 11⟩, some ⟨0, false, "Yield", runtimePath, none⟩⟩))
    [arg] false)

/-- The call `yieldgen.Yield(1)`. -/
def yieldOne : Expr := yieldOf (untyped (.lit .int "1"))

/-- What the body of a generator is converted with that is not generic, in a file that imports
packages under their own names. -/
def sampleContext : Context := ⟨"yieldgen", PackageRef.name, false⟩

/-- A function `F` that returns a `yieldgen.Generator[int]`. -/
def produced (body : List Stmt) : Func where
  name := ⟨"F", ⟨5, 6⟩, none⟩
  recv := .absent
  signature := .mk .absent .absent (.list [.mk []
    (.mk ⟨⟨5, 10⟩,
      some ⟨.named (some ⟨runtimePath, "yieldgen"⟩) "Generator" [.basic "int"], .other⟩,
        false⟩
      (.index (untyped (.sel (untyped (.ident ⟨"yieldgen", ⟨5, 10⟩, none⟩))
        ⟨"Generator", ⟨5, 19⟩, none⟩)) (untyped (.ident ⟨"int", ⟨5, 29⟩, none⟩)))) none])
  body := some body
  recvTypeParams := []

/-- The import of the runtime. -/
def runtimeImport : Import := ⟨none, "\"github.com/tmr232/yieldgen\"", some "yieldgen"⟩

theorem runtimeName?_runtimeImport : runtimeName? [runtimeImport] = some "yieldgen" := by
  decide +kernel

/-- A file with this function. -/
def producing (body : List Stmt) : File where
  name := "sample.go"
  pkg := "sample"
  pkgPos := ⟨1, 1⟩
  doc := []
  imports := [runtimeImport]
  comments := []
  stop := ⟨9, 2⟩
  decls := [⟨.func (produced body), ⟨5, 1⟩, ⟨9, 2⟩, none, false⟩]

/-- The package of this file. -/
def producingPackage (body : List Stmt) : Package := ⟨"example.com/sample", [producing body], ["F"]⟩

/-- A file with other imports and this function. -/
def importing (imports : List Import) (body : List Stmt) : File := { producing body with imports }

/-- The package of this file. -/
def importingPackage (imports : List Import) (body : List Stmt) : Package :=
  ⟨"example.com/sample", [importing imports body], ["F"]⟩

/-- A body without problems is accepted in every file that imports the runtime under its name. -/
theorem scan_importing {imports : List Import} (hruntime : runtimeName? imports = some "yieldgen")
    (body : List Stmt) (hyields : usesYield (outlineStmts body) = true)
    (hproblems : ∀ qualify holder,
      ((produced body).routine "yieldgen" qualify holder (.basic "int") body).problems = []) :
    ∃ g ∈ ((importing imports body).scan (importingPackage imports body) []).generators,
      g.func = produced body ∧ ∃ qualify holder, g.routine =
        some ((produced body).routine "yieldgen" qualify holder (.basic "int") body).value := by
  have hfound : (produced body).yields = true := hyields
  have hconvert : ∃ qualify holder extra,
      (produced body).convert ⟨5, 1⟩ "example.com/sample" ["F"] imports [] =
        (.ok (((produced body).routine "yieldgen" qualify holder (.basic "int") body).value, extra),
          [holder]) := by
    have hempty : ∀ qualify holder, ((produced body).routine "yieldgen" qualify holder
        (.basic "int") body).problems.isEmpty = true :=
      fun qualify holder => List.isEmpty_iff.mpr (hproblems qualify holder)
    have helement : (produced body).element? = some (.basic "int") := rfl
    let qualify := qualifier "example.com/sample" imports
    let holder := freeName ["F"] (produced body).holderBase
    let routine := (produced body).routine "yieldgen" qualify holder (.basic "int") body
    refine ⟨qualify, holder, missingImports "example.com/sample" imports routine.types, ?_⟩
    unfold Func.convert
    rw [helement, hruntime]
    show (if _ then _ else _, _) = _
    rw [if_pos (hempty _ _)]
    rfl
  obtain ⟨qualify, holder, extra, hconvert⟩ := hconvert
  refine ⟨⟨produced body, ⟨5, 1⟩, some _, extra⟩, ?_, rfl, qualify, holder, rfl⟩
  show _ ∈ (scanFuncs "example.com/sample" ["F"] "sample.go" imports []
    [(produced body, ⟨5, 1⟩)]).generators
  unfold scanFuncs
  rw [if_pos hfound, hconvert]
  exact List.mem_cons_self

theorem scan_producing (body : List Stmt) (hyields : usesYield (outlineStmts body) = true)
    (hproblems : ∀ qualify holder,
      ((produced body).routine "yieldgen" qualify holder (.basic "int") body).problems = []) :
    ∃ g ∈ ((producing body).scan (producingPackage body) []).generators,
      g.func.body = some body ∧ ∃ qualify holder, g.routine =
        some ((produced body).routine "yieldgen" qualify holder (.basic "int") body).value := by
  obtain ⟨g, hg, hfunc, hroutine⟩ :=
    scan_importing runtimeName?_runtimeImport body hyields hproblems
  exact ⟨g, hg, by rw [hfunc]; rfl, hroutine⟩

/-- The statement `return nil`. -/
def returnNil : Stmt :=
  .mk ⟨8, 2⟩ (.ret [.mk ⟨⟨8, 9⟩, none, true⟩ (.ident ⟨"nil", ⟨8, 9⟩, none⟩)])

/-- The body `yieldgen.Yield(1); return nil`. -/
def yieldsOne : List Stmt := [.mk ⟨6, 2⟩ (.expr yieldOne), returnNil]

theorem yieldsOne_lowers_marks :
    stmtsPlaced yieldsOne ∧
      ∃ g ∈ ((producing yieldsOne).scan (producingPackage yieldsOne) []).generators,
        ∃ fn h, g.routine = some fn ∧ fn.lower = .ok h ∧ g.func.body = some yieldsOne ∧
          ∃ values, List.Perm ((tableOps h.states).flatMap Op.carried) values ∧
            List.Forall₂ (fun value m => value.Renamed m.2.erase) values
              (stmtsMarks yieldsOne) := by
  have hplaced : stmtsPlaced yieldsOne := by
    refine ⟨?_, ⟨?_, fun _ _ => rfl⟩, trivial⟩
    · intro m hm
      obtain rfl := Option.some.inj hm
      exact ⟨nofun, by decide⟩
    · intro m hm
      cases hm
  obtain ⟨g, hg, hbody, qualify, holder, hfn⟩ := scan_producing yieldsOne (by decide)
    fun _ _ => rfl
  obtain ⟨h, hlower⟩ : ∃ h, ((produced yieldsOne).routine "yieldgen" qualify holder (.basic "int")
      yieldsOne).value.lower = .ok h := ⟨_, by cbv⟩
  exact ⟨hplaced, g, hg, _, h, hfn, hlower, hbody,
    (File.scan_lowers_marks hg hfn hlower hbody hplaced).2.2.2⟩

/-- The body `for yieldgen.Yield(1); false; {}; return nil`. -/
def yieldsInHeader : List Stmt :=
  [.mk ⟨6, 2⟩ (.loop (.mk ⟨6, 6⟩ (.expr yieldOne)) (untyped (.ident ⟨"false", ⟨6, 25⟩, none⟩))
    .missing []), returnNil]

/-- A mark in a loop header is accepted, and the loop is copied with a statement that returns in
its header: none of the jumps carries the value. -/
theorem yieldsInHeader_returns :
    (ownYields (outlineStmts yieldsInHeader)).length = 1 ∧
      ∃ g ∈ ((producing yieldsInHeader).scan (producingPackage yieldsInHeader) []).generators,
        ∃ fn h, g.func.body = some yieldsInHeader ∧ g.routine = some fn ∧ fn.lower = .ok h ∧
          (∃ op ∈ tableOps h.states, ¬ op.Stays) ∧
          (tableOps h.states).flatMap Op.carried = [] := by
  obtain ⟨g, hg, hbody, qualify, holder, hfn⟩ := scan_producing yieldsInHeader
    (by decide) fun _ _ => rfl
  have hlower : ∃ h, ((produced yieldsInHeader).routine "yieldgen" qualify holder (.basic "int")
      yieldsInHeader).value.lower = .ok h ∧
      .exec (.loop (.ret [.call (.name "Yield") [.lit .int "1"] false]) (.name "false") .missing [])
        ∈ tableOps h.states ∧ (tableOps h.states).flatMap Op.carried = [] := by
    refine ⟨_, by cbv, ?_, ?_⟩
    · simp [tableOps, opsParts, Op.parts, Expr.name]
    · rfl
  obtain ⟨h, hlower, hreturn, hcarried⟩ := hlower
  exact ⟨by decide, g, hg, _, h, hbody, hfn, hlower, ⟨_, hreturn, by rintro ⟨⟩⟩, hcarried⟩

end Generators

end YieldMachine.Source
