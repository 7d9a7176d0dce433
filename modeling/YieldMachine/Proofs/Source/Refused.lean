import YieldMachine.Proofs.Source.Yields

/-!
# Statements that are refused

Two traversals look for statements that a generator must not have: the conversion of a body, and
the search for exits of the selects and type switches that are kept whole.  `parts` lists the
statements of a body with what tells the two apart.  A body that converts without problems has no
goto among them, and no defer that the conversion gets to.
-/

namespace YieldMachine.Source

/-- A statement that stands in another one, and whether a select or a type switch around it is
kept whole. -/
structure Part where
  kept : Bool
  form : StmtForm

/-- Whether a part passes: there is no goto, and a defer only where statements are kept. -/
def Part.Passes : Part → Prop
  | ⟨kept, .defer _⟩ => kept = true
  | ⟨_, .branch .goto _⟩ => False
  | _ => True

mutual

/-- The statements that stand in a statement, itself included.  Function literals are not looked
into, and headers hold no statements that have others in them. -/
def Stmt.parts (kept : Bool) : Stmt → List Part
  | .missing => []
  | .mk _ form => ⟨kept, form⟩ :: form.parts kept

/-- The statements inside a form of statement. -/
def StmtForm.parts (kept : Bool) : StmtForm → List Part
  | .block body => stmtsParts kept body
  | .ite _ _ body other => stmtsParts kept body ++ other.parts kept
  | .switch _ _ clauses => clausesParts kept clauses
  | .typeSwitch _ _ clauses => clausesParts true clauses
  | .select clauses => commsParts true clauses
  | .loop _ _ _ body => stmtsParts kept body
  | .range _ _ _ _ body => stmtsParts kept body
  | .labeled _ stmt => stmt.parts kept
  | _ => []

/-- The statements that stand in statements. -/
def stmtsParts (kept : Bool) : List Stmt → List Part
  | [] => []
  | s :: ss => s.parts kept ++ stmtsParts kept ss

/-- The statements that stand in the clauses of a switch. -/
def clausesParts (kept : Bool) : List Clause → List Part
  | [] => []
  | c :: cs => c.parts kept ++ clausesParts kept cs

/-- The statements that stand in a clause of a switch. -/
def Clause.parts (kept : Bool) : Clause → List Part
  | .case _ body => stmtsParts kept body
  | .default body => stmtsParts kept body

/-- The statements that stand in the clauses of a select. -/
def commsParts (kept : Bool) : List CommClause → List Part
  | [] => []
  | c :: cs => c.parts kept ++ commsParts kept cs

/-- The statements that stand in a clause of a select. -/
def CommClause.parts (kept : Bool) : CommClause → List Part
  | .mk _ body => stmtsParts kept body

end

/-- Whether all parts pass. -/
def AllPass (parts : List Part) : Prop := ∀ part ∈ parts, part.Passes

namespace AllPass

theorem nil : AllPass [] := nofun

theorem append {ps qs : List Part} (h : AllPass ps) (h' : AllPass qs) : AllPass (ps ++ qs) :=
  List.forall_mem_append.mpr ⟨h, h'⟩

theorem cons {p : Part} {ps : List Part} (h : p.Passes) (h' : AllPass ps) : AllPass (p :: ps) :=
  List.forall_mem_cons.mpr ⟨h, h'⟩

end AllPass

section Kept

mutual

/-- A statement that is not left other than at its end has no goto in it. -/
theorem Stmt.allPass_of_exit? {looped : Bool} {labels : List String} (s : Stmt)
    (h : outlinesExit? looped labels s.outline = none) : AllPass (s.parts true) := by
  cases s with
  | missing => exact .nil
  | mk pos form =>
      refine .cons ?_ (form.allPass_of_exit? h)
      cases form with
      | branch kind label =>
          cases kind with
          | goto => cases label <;> cases h
          | _ => trivial
      | defer call => rfl
      | _ => trivial

theorem StmtForm.allPass_of_exit? {looped : Bool} {labels : List String} (form : StmtForm)
    (h : outlinesExit? looped labels form.outline = none) : AllPass (form.parts true) := by
  cases form with
  | block body => exact allPass_of_exit? body h
  | ite init cond body other =>
      simp only [StmtForm.outline, outlinesExit?_append_eq_none] at h
      obtain ⟨⟨-, hbody⟩, hother⟩ := h
      exact (allPass_of_exit? body hbody).append (other.allPass_of_exit? hother)
  | switch init tag clauses =>
      exact clausesPass_of_exit? clauses (outlinesExit?_append_eq_none.mp h).2
  | typeSwitch init guard clauses =>
      simp only [StmtForm.outline, outlinesExit?_singleton, Outline.exit?,
        outlinesExit?_append_eq_none] at h
      exact clausesPass_of_exit? clauses h.2
  | select clauses =>
      simp only [StmtForm.outline, outlinesExit?_singleton, Outline.exit?] at h
      exact commsPass_of_exit? clauses h
  | loop init cond post body =>
      simp only [StmtForm.outline, outlinesExit?_singleton, Outline.exit?,
        outlinesExit?_append_eq_none] at h
      exact allPass_of_exit? body h.2
  | range key value kind x body =>
      simp only [StmtForm.outline, outlinesExit?_singleton, Outline.exit?,
        outlinesExit?_append_eq_none] at h
      exact allPass_of_exit? body h.2
  | labeled label stmt =>
      simp only [StmtForm.outline, outlinesExit?_singleton, Outline.exit?] at h
      exact stmt.allPass_of_exit? h
  | _ => exact .nil

theorem allPass_of_exit? {looped : Bool} {labels : List String} (ss : List Stmt)
    (h : outlinesExit? looped labels (outlineStmts ss) = none) : AllPass (stmtsParts true ss) := by
  cases ss with
  | nil => exact .nil
  | cons s ss =>
      obtain ⟨hs, hss⟩ := outlinesExit?_append_eq_none.mp h
      exact (s.allPass_of_exit? hs).append (allPass_of_exit? ss hss)

theorem clausesPass_of_exit? {looped : Bool} {labels : List String} (cs : List Clause)
    (h : outlinesExit? looped labels (outlineClauses cs) = none) :
    AllPass (clausesParts true cs) := by
  cases cs with
  | nil => exact .nil
  | cons c cs =>
      obtain ⟨hc, hcs⟩ := outlinesExit?_append_eq_none.mp h
      exact (c.allPass_of_exit? hc).append (clausesPass_of_exit? cs hcs)

theorem Clause.allPass_of_exit? {looped : Bool} {labels : List String} (c : Clause)
    (h : outlinesExit? looped labels c.outline = none) : AllPass (c.parts true) := by
  cases c with
  | case values body => exact Source.allPass_of_exit? body (outlinesExit?_append_eq_none.mp h).2
  | default body => exact Source.allPass_of_exit? body h

theorem commsPass_of_exit? {looped : Bool} {labels : List String} (cs : List CommClause)
    (h : outlinesExit? looped labels (outlineComms cs) = none) : AllPass (commsParts true cs) := by
  cases cs with
  | nil => exact .nil
  | cons c cs =>
      obtain ⟨hc, hcs⟩ := outlinesExit?_append_eq_none.mp h
      exact (c.allPass_of_exit? hc).append (commsPass_of_exit? cs hcs)

theorem CommClause.allPass_of_exit? {looped : Bool} {labels : List String} (c : CommClause)
    (h : outlinesExit? looped labels c.outline = none) : AllPass (c.parts true) := by
  obtain ⟨comm, body⟩ := c
  exact Source.allPass_of_exit? body (outlinesExit?_append_eq_none.mp h).2

end

end Kept

section Conversion

variable {ctx : Context}

mutual

/-- A statement that converts without problems has no goto in it, and no defer other than in a
select or a type switch. -/
theorem Stmt.allPass_of_convert (s : Stmt) (h : (s.convert ctx).problems = []) :
    AllPass (s.parts false) := by
  cases s with
  | missing => exact .nil
  | mk pos form =>
      refine .cons ?_ (form.allPass_of_convert pos h)
      cases form with
      | branch kind label =>
          cases kind with
          | goto => cases h
          | _ => trivial
      | defer call => cases h
      | _ => trivial

theorem StmtForm.allPass_of_convert (form : StmtForm) (pos : Pos)
    (h : (form.convert ctx pos).problems = []) : AllPass (form.parts false) := by
  cases form with
  | block body => exact allPass_of_convert body (problems_bind_eq_nil.mp h).1
  | ite init cond body other =>
      simp only [StmtForm.convert, problems_bind_eq_nil] at h
      obtain ⟨-, hbody, hother, -⟩ := h
      exact (allPass_of_convert body hbody).append (other.allPass_of_convert hother)
  | switch init tag clauses =>
      simp only [StmtForm.convert, problems_bind_eq_nil] at h
      exact clausesPass_of_convert clauses h.2.1
  | typeSwitch init guard clauses =>
      exact StmtForm.allPass_of_exit? _ (StmtForm.clean_keepWhole h)
  | select clauses => exact StmtForm.allPass_of_exit? _ (StmtForm.clean_keepWhole h)
  | loop init cond post body =>
      simp only [StmtForm.convert, problems_bind_eq_nil] at h
      exact allPass_of_convert body h.2.1
  | range key value kind x body =>
      simp only [StmtForm.convert, problems_bind_eq_nil] at h
      exact allPass_of_convert body h.2.1
  | labeled label stmt => exact stmt.allPass_of_convert (problems_bind_eq_nil.mp h).1
  | _ => exact .nil

theorem allPass_of_convert (ss : List Stmt) (h : (convertStmts ctx ss).problems = []) :
    AllPass (stmtsParts false ss) := by
  cases ss with
  | nil => exact .nil
  | cons s ss =>
      simp only [convertStmts, problems_bind_eq_nil] at h
      exact (s.allPass_of_convert h.1).append (allPass_of_convert ss h.2.1)

theorem clausesPass_of_convert (cs : List Clause) (h : (convertClauses ctx cs).problems = []) :
    AllPass (clausesParts false cs) := by
  cases cs with
  | nil => exact .nil
  | cons c cs =>
      simp only [convertClauses, problems_bind_eq_nil] at h
      exact (c.allPass_of_convert h.1).append (clausesPass_of_convert cs h.2.1)

theorem Clause.allPass_of_convert (c : Clause) (h : (c.convert ctx).problems = []) :
    AllPass (c.parts false) := by
  cases c with
  | case values body =>
      simp only [Clause.convert, problems_bind_eq_nil] at h
      exact armPass_of_convert body h.2.1
  | default body => exact armPass_of_convert body (problems_bind_eq_nil.mp h).1

theorem armPass_of_convert (ss : List Stmt) (h : (convertArm ctx ss).problems = []) :
    AllPass (stmtsParts false ss) := by
  cases ss with
  | nil => exact .nil
  | cons s ss =>
      obtain ⟨pos, label, rfl, rfl⟩ | hcons := convertArm_cons ctx s ss
      · exact .cons trivial .nil
      · simp only [hcons, problems_bind_eq_nil] at h
        exact (s.allPass_of_convert h.1).append (armPass_of_convert ss h.2.1)

end

end Conversion

section Generators

/-- A function that is not converted is refused for a reason. -/
theorem Func.convert_error {f : Func} {pos : Pos} {own : String} {scope : List String}
    {imports : List Import} {taken : List String} {problems : List Problem}
    (h : (f.convert pos own scope imports taken).1 = .error problems) : problems ≠ [] := by
  unfold Func.convert at h
  split at h
  · split at h
    · cases h
      nofun
    · split at h
      · cases h
        nofun
      · split at h
        · cases h
          nofun
        · simp only at h
          split at h
          · cases h
          · rename_i hproblems
            cases h
            exact fun hnil => hproblems (List.isEmpty_iff.mpr hnil)
  · cases h
    nofun

/-- A function that produces elements and is never converted is found without a routine, and
each reason is reported with its name. -/
theorem scanFuncs_refuses {own : String} {scope : List String} {name : String}
    {imports : List Import} {fs : List (Func × Pos)} {f : Func} {pos : Pos} (hf : (f, pos) ∈ fs)
    (hyields : f.yields = true)
    (hrefused : ∀ taken converted, (f.convert pos own scope imports taken).1 ≠ .ok converted)
    (holders : List String) :
    ⟨f, pos, none, []⟩ ∈ (scanFuncs own scope name imports holders fs).generators ∧
      ∃ p, ⟨name, f.name.name, p⟩ ∈ (scanFuncs own scope name imports holders fs).diagnostics := by
  induction fs generalizing holders with
  | nil => cases hf
  | cons first fs ih =>
      obtain rfl | hrest := List.mem_cons.mp hf
      · unfold scanFuncs
        rw [if_pos hyields]
        cases hconvert : f.convert pos own scope imports holders with
        | mk result taken =>
            cases result with
            | ok converted => exact absurd (by rw [hconvert]) (hrefused holders converted)
            | error problems =>
                have hreported : problems ≠ [] := Func.convert_error (by rw [hconvert])
                obtain ⟨p, rest, rfl⟩ := List.exists_cons_of_ne_nil hreported
                exact ⟨.head _, p, .head _⟩
      · obtain ⟨g, pos'⟩ := first
        unfold scanFuncs
        split
        · cases g.convert pos' own scope imports holders with
          | mk result taken =>
              obtain ⟨hgenerator, p, hp⟩ := ih hrest taken
              cases result with
              | ok converted => exact ⟨.tail _ hgenerator, p, hp⟩
              | error problems =>
                  exact ⟨.tail _ hgenerator, p, List.mem_append.mpr (.inr hp)⟩
        · exact ih hrest holders

/-- A generator with a goto, or with a defer other than in a select or a type switch, is found
without a routine, and a reason is reported with its name. -/
theorem File.scan_refuses {file : File} (pkg : Package) (holders : List String) {f : Func}
    {pos : Pos} (hf : (f, pos) ∈ funcs file.decls) (hyields : f.yields = true) {body : List Stmt}
    (hbody : f.body = some body)
    (hparts : (∃ kept label, ⟨kept, .branch .goto label⟩ ∈ stmtsParts false body) ∨
      ∃ call, ⟨false, .defer call⟩ ∈ stmtsParts false body) :
    ⟨f, pos, none, []⟩ ∈ (file.scan pkg holders).generators ∧
      (∀ g ∈ (file.scan pkg holders).generators, g.func = f → g.routine = none) ∧
      ∃ p, ⟨file.name, f.name.name, p⟩ ∈ (file.scan pkg holders).diagnostics := by
  have hfails : ¬ AllPass (stmtsParts false body) := by
    obtain ⟨kept, label, hmem⟩ | ⟨call, hmem⟩ := hparts
    · exact fun hpass => hpass _ hmem
    · exact fun hpass => Bool.false_ne_true (hpass _ hmem)
  have hrefused : ∀ pos own scope imports taken converted,
      (f.convert pos own scope imports taken).1 ≠ .ok converted := by
    intro pos own scope imports taken converted hconvert
    obtain ⟨runtime, holder, element, hproblems, -⟩ := Func.convert_ok hconvert hbody
    exact hfails (allPass_of_convert body
      (f.problems_routine runtime _ holder element hproblems))
  obtain ⟨hgenerator, hreported⟩ := scanFuncs_refuses hf hyields (hrefused pos pkg.path pkg.scope
    file.imports) holders
  refine ⟨hgenerator, fun g hg hfunc => ?_, hreported⟩
  cases hroutine : g.routine with
  | none => rfl
  | some fn =>
      subst hfunc
      obtain ⟨taken, hconvert⟩ := scanFuncs_convert hg hroutine
      exact absurd hconvert (hrefused _ _ _ _ _ _)

/-- The body `Yield(1); select { default: goto done }; done: return nil`. -/
def jumpsOut : List Stmt :=
  [.mk ⟨6, 2⟩ (.expr yieldOne),
    .mk ⟨7, 2⟩ (.select [.mk .missing
      [.mk ⟨7, 20⟩ (.branch .goto (some ⟨"done", ⟨7, 25⟩, none⟩))]]),
    .mk ⟨8, 1⟩ (.labeled ⟨"done", ⟨8, 1⟩, none⟩ returnNil)]

theorem jumpsOut_refused :
    ⟨produced jumpsOut, ⟨5, 1⟩, none, []⟩ ∈
        ((producing jumpsOut).scan (producingPackage jumpsOut) []).generators ∧
      (∀ g ∈ ((producing jumpsOut).scan (producingPackage jumpsOut) []).generators,
        g.func = produced jumpsOut → g.routine = none) ∧
      ∃ p, ⟨"sample.go", "F", p⟩ ∈
        ((producing jumpsOut).scan (producingPackage jumpsOut) []).diagnostics := by
  have hgoto : ⟨true, .branch .goto (some ⟨"done", ⟨7, 25⟩, none⟩)⟩ ∈
      stmtsParts false jumpsOut := by
    simp [jumpsOut, stmtsParts, Stmt.parts, StmtForm.parts, commsParts, CommClause.parts]
  exact File.scan_refuses (producingPackage jumpsOut) [] (.head _) (by decide) rfl
    (.inl ⟨true, _, hgoto⟩)

/-- The call `f()`, deferred. -/
def deferCall : StmtForm :=
  .defer (untyped (.call (untyped (.ident ⟨"f", ⟨6, 18⟩, none⟩)) [] false))

/-- The body `select { default: defer f() }; Yield(1); return nil`. -/
def defersInSelect : List Stmt :=
  [.mk ⟨6, 2⟩ (.select [.mk .missing [.mk ⟨6, 18⟩ deferCall]]), .mk ⟨7, 2⟩ (.expr yieldOne),
    returnNil]

/-- The search for exits passes over a defer, so that one in a select is accepted. -/
theorem defersInSelect_accepted :
    (produced defersInSelect).isGenerator = true ∧
      ⟨true, deferCall⟩ ∈ stmtsParts false defersInSelect ∧
      ∃ g ∈ ((producing defersInSelect).scan (producingPackage defersInSelect) []).generators,
        ∃ fn, g.func.body = some defersInSelect ∧ g.routine = some fn := by
  obtain ⟨g, hg, hbody, qualify, holder, hfn⟩ := scan_producing defersInSelect (by decide)
    fun _ _ => rfl
  refine ⟨by decide, ?_, g, hg, _, hbody, hfn⟩
  simp [defersInSelect, stmtsParts, Stmt.parts, StmtForm.parts, commsParts, CommClause.parts]

end Generators

end YieldMachine.Source
