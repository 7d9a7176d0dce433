import YieldMachine.Proofs.Lowering.Written

/-!
# Statements without a return

A statement that is copied into a state must not return, since that would leave the state.
A body is quiet where none of its simple statements does, so that what is copied of it
returns nowhere outside of function literals.
-/

namespace YieldMachine

mutual

/-- Whether a statement holds a return of the function around it. -/
def Stmt.returns : Stmt → Bool
  | .ret _ => true
  | .block body => stmtsReturn body
  | .ite init _ body other => init.returns || stmtsReturn body || other.returns
  | .switch init _ clauses => init.returns || clausesReturn clauses
  | .typeSwitch init _ clauses => init.returns || clausesReturn clauses
  | .select clauses => commsReturn clauses
  | .loop init _ post body => init.returns || post.returns || stmtsReturn body
  | .range _ _ _ _ body => stmtsReturn body
  | .labeled _ stmt => stmt.returns
  | _ => false

/-- Whether one of some statements holds a return. -/
def stmtsReturn : List Stmt → Bool
  | [] => false
  | stmt :: stmts => stmt.returns || stmtsReturn stmts

/-- Whether one of some clauses holds a return. -/
def clausesReturn : List Clause → Bool
  | [] => false
  | clause :: clauses => clause.returns || clausesReturn clauses

/-- Whether a clause holds a return. -/
def Clause.returns : Clause → Bool
  | .case _ body => stmtsReturn body
  | .default body => stmtsReturn body

/-- Whether one of the clauses of a select holds a return. -/
def commsReturn : List CommClause → Bool
  | [] => false
  | clause :: clauses => clause.returns || commsReturn clauses

/-- Whether a clause of a select holds a return. -/
def CommClause.returns : CommClause → Bool
  | .mk _ body => stmtsReturn body

end

section Renaming

variable (recv : String)

mutual

/-- Renaming adds and drops no returns. -/
theorem Stmt.returns_rename (s : Stmt) (r : Renames) :
    (s.rename recv r).1.returns = s.returns := by
  cases s with
  | assign kind lhs rhs => cases kind <;> rfl
  | block body => exact stmtsReturn_rename body r
  | ite init cond body other =>
      simp only [Stmt.rename, Stmt.returns, init.returns_rename, stmtsReturn_rename body,
        other.returns_rename]
  | switch init tag clauses =>
      simp only [Stmt.rename, Stmt.returns, init.returns_rename, clausesReturn_rename clauses]
  | typeSwitch init guard clauses =>
      cases guard <;>
        simp only [Stmt.rename, Stmt.returns, init.returns_rename, clausesReturn_rename clauses]
  | select clauses => exact commsReturn_rename clauses r
  | loop init cond post body =>
      simp only [Stmt.rename, Stmt.returns, init.returns_rename, post.returns_rename,
        stmtsReturn_rename body]
  | range key value kind x body =>
      cases kind <;> simp only [Stmt.rename, Stmt.returns, stmtsReturn_rename body]
  | labeled label stmt => exact stmt.returns_rename r
  | _ => rfl

theorem stmtsReturn_rename (ss : List Stmt) (r : Renames) :
    stmtsReturn (renameStmts recv r ss) = stmtsReturn ss := by
  cases ss with
  | nil => rfl
  | cons s ss =>
      simp only [renameStmts, stmtsReturn, s.returns_rename, stmtsReturn_rename ss]

theorem clausesReturn_rename (cs : List Clause) (r : Renames) :
    clausesReturn (renameClauses recv r cs) = clausesReturn cs := by
  cases cs with
  | nil => rfl
  | cons c cs =>
      simp only [renameClauses, clausesReturn, c.returns_rename, clausesReturn_rename cs]

theorem Clause.returns_rename (c : Clause) (r : Renames) :
    (c.rename recv r).returns = c.returns := by
  cases c with
  | case values body => exact stmtsReturn_rename body r
  | default body => exact stmtsReturn_rename body r

theorem commsReturn_rename (cs : List CommClause) (r : Renames) :
    commsReturn (renameComms recv r cs) = commsReturn cs := by
  cases cs with
  | nil => rfl
  | cons c cs =>
      simp only [renameComms, commsReturn, c.returns_rename, commsReturn_rename cs]

theorem CommClause.returns_rename (c : CommClause) (r : Renames) :
    (c.rename recv r).returns = c.returns := by
  obtain ⟨comm, body⟩ := c
  simp only [CommClause.rename, CommClause.returns, stmtsReturn_rename body]

end

end Renaming

/-- Whether a part of a loop header is missing, a declaration or a simple statement that does
not return. -/
def Flow.QuietPart : Flow → Prop
  | .missing | .declare _ => True
  | .simple stmt => stmt.returns = false
  | _ => False

mutual

/-- Whether the simple statements in a statement do not return. -/
def Flow.Quiet : Flow → Prop
  | .block body => flowsQuiet body
  | .ite _ body other => flowsQuiet body ∧ other.Quiet
  | .while _ body => flowsQuiet body
  | .doWhile body _ => flowsQuiet body
  | .loop init _ post body => init.QuietPart ∧ post.QuietPart ∧ flowsQuiet body
  | .walk _ body => flowsQuiet body
  | .switch _ cases => casesQuiet cases
  | .labeled _ stmt => stmt.Quiet
  | .simple stmt => stmt.returns = false
  | _ => True

/-- Whether the simple statements of a list do not return. -/
def flowsQuiet : List Flow → Prop
  | [] => True
  | s :: ss => s.Quiet ∧ flowsQuiet ss

/-- Whether the simple statements of the cases of a switch do not return. -/
def casesQuiet : List FlowCase → Prop
  | [] => True
  | c :: cs => c.Quiet ∧ casesQuiet cs

/-- Whether the simple statements of a case do not return. -/
def FlowCase.Quiet : FlowCase → Prop
  | .case _ body => flowsQuiet body
  | .default body => flowsQuiet body

end

/-- The parts of a loop header are quiet statements. -/
theorem Flow.QuietPart.parts_quiet {part : Flow} (h : part.QuietPart) :
    ∀ s ∈ if part.isMissing then [] else part.parts, s.Quiet := by
  cases part with
  | missing => simp [Flow.isMissing]
  | declare d => exact List.forall_mem_singleton.mpr trivial
  | simple stmt => exact List.forall_mem_singleton.mpr h
  | _ => exact h.elim

mutual

/-- Every part of a quiet statement is quiet. -/
theorem Flow.Quiet.parts_quiet (flow : Flow) (h : flow.Quiet) : ∀ s ∈ flow.parts, s.Quiet := by
  cases flow with
  | block body => exact List.forall_mem_cons.mpr ⟨h, flows_parts_quiet body h⟩
  | «while» cond body => exact List.forall_mem_cons.mpr ⟨h, flows_parts_quiet body h⟩
  | doWhile body cond => exact List.forall_mem_cons.mpr ⟨h, flows_parts_quiet body h⟩
  | walk header body => exact List.forall_mem_cons.mpr ⟨h, flows_parts_quiet body h⟩
  | switch tag cases => exact List.forall_mem_cons.mpr ⟨h, cases_parts_quiet cases h⟩
  | labeled label stmt => exact List.forall_mem_cons.mpr ⟨h, Flow.Quiet.parts_quiet stmt h⟩
  | ite cond body other =>
      refine List.forall_mem_cons.mpr ⟨h, List.forall_mem_append.mpr ⟨?_, ?_⟩⟩
      · exact flows_parts_quiet body h.1
      · by_cases hm : other.isMissing = true
        · simp [hm]
        · rw [if_neg hm]
          exact Flow.Quiet.parts_quiet other h.2
  | loop init cond post body =>
      refine List.forall_mem_cons.mpr ⟨h, List.forall_mem_append.mpr ⟨?_, ?_⟩⟩
      · exact List.forall_mem_append.mpr ⟨h.1.parts_quiet, h.2.1.parts_quiet⟩
      · exact flows_parts_quiet body h.2.2
  | _ => exact List.forall_mem_singleton.mpr h

theorem flows_parts_quiet (fs : List Flow) (h : flowsQuiet fs) : ∀ s ∈ flowsParts fs, s.Quiet := by
  cases fs with
  | nil => simp [flowsParts]
  | cons f fs =>
      exact List.forall_mem_append.mpr ⟨Flow.Quiet.parts_quiet f h.1, flows_parts_quiet fs h.2⟩

theorem cases_parts_quiet (cases' : List FlowCase) (h : casesQuiet cases') :
    ∀ s ∈ casesParts cases', s.Quiet := by
  cases cases' with
  | nil => simp [casesParts]
  | cons c cs => exact List.forall_mem_append.mpr ⟨c.parts_quiet h.1, cases_parts_quiet cs h.2⟩

theorem FlowCase.parts_quiet (c : FlowCase) (h : c.Quiet) : ∀ s ∈ c.parts, s.Quiet := by
  cases c with
  | case values body => exact flows_parts_quiet body h
  | default body => exact flows_parts_quiet body h

end

theorem stmtsReturn_iff (ss : List Stmt) :
    stmtsReturn ss = false ↔ ∀ s ∈ ss, s.returns = false := by
  induction ss with
  | nil => simp [stmtsReturn]
  | cons s ss ih => simp [stmtsReturn, ih]

theorem VarDecl.returns_toStmt (d : VarDecl) : d.toStmt.returns = false := by
  unfold VarDecl.toStmt
  split <;> rfl

/-- Closing a case adds and keeps no return. -/
theorem closeCase_returns (body : List Flow) {stmts : List Stmt} (last : Bool)
    (h : stmtsReturn stmts = false) : stmtsReturn (closeCase body stmts last) = false := by
  rw [stmtsReturn_iff] at h ⊢
  unfold closeCase
  split
  · exact fun s hs => h s (List.dropLast_subset stmts hs)
  · split
    · exact h
    · intro s hs
      obtain hs | hs := List.mem_append.mp hs
      · exact h s hs
      · obtain rfl := List.mem_singleton.mp hs
        rfl

theorem Flow.QuietPart.returns {part : Flow} (h : part.QuietPart) {stmt : Stmt}
    (hstmt : part.part? = some stmt) : stmt.returns = false := by
  cases part with
  | missing =>
      obtain rfl := Option.some.inj hstmt
      rfl
  | declare d =>
      obtain rfl := Option.some.inj hstmt
      exact d.returns_toStmt
  | simple s =>
      obtain rfl := Option.some.inj hstmt
      exact h
  | _ => exact h.elim

mutual

/-- The tree of a quiet statement that does not leave itself has no return. -/
theorem Flow.returns_toStmt {inside : Bound} (flow : Flow) (hquiet : flow.Quiet)
    (hesc : flow.escapes inside = false) {stmt : Stmt} (hstmt : flow.toStmt? = some stmt) :
    stmt.returns = false := by
  cases flow.hasTree hstmt with
  | yield => cases hesc
  | finish => cases hesc
  | @declare d => exact d.returns_toStmt
  | brk => rfl
  | cont => rfl
  | lift => rfl
  | simple => exact hquiet
  | @block body stmts hbody | @«while» cond body stmts hbody | @doWhile cond body stmts hbody =>
      exact flows_returns_toStmts body hquiet hesc hbody
  | @walk header body stmts hbody =>
      have hreturns : stmtsReturn stmts = false := flows_returns_toStmts body hquiet hesc hbody
      exact hreturns
  | @switch tag cases clauses hclauses =>
      exact cases_returns_toClauses cases hquiet hesc hclauses
  | @labeled label s stmt' hs =>
      have hreturns : stmt'.returns = false := s.returns_toStmt hquiet hesc hs
      exact hreturns
  | @ite cond body other stmts other' hbody hother =>
      simp only [Flow.escapes, Bool.or_eq_false_iff] at hesc
      have hreturns : other'.returns = false := by
        obtain hmissing | hpart := other.part?_missing_or
        · obtain rfl := Option.some.inj (hmissing.symm.trans hother)
          rfl
        · exact other.returns_toStmt hquiet.2 hesc.2 (hpart.symm.trans hother)
      simp only [Stmt.returns, Bool.or_eq_false_iff]
      exact ⟨⟨trivial, flows_returns_toStmts body hquiet.1 hesc.1 hbody⟩, hreturns⟩
  | @loop init post cond body init' post' stmts hinit hpost hbody =>
      simp only [Stmt.returns, Bool.or_eq_false_iff]
      exact ⟨⟨hquiet.1.returns hinit, hquiet.2.1.returns hpost⟩,
        flows_returns_toStmts body hquiet.2.2 hesc hbody⟩

theorem flows_returns_toStmts {inside : Bound} (fs : List Flow) (hquiet : flowsQuiet fs)
    (hesc : anyEscapes inside fs = false) {stmts : List Stmt} (hstmts : toStmts? fs = some stmts) :
    stmtsReturn stmts = false := by
  cases fs with
  | nil =>
      obtain rfl := Option.some.inj hstmts
      rfl
  | cons f fs =>
      simp only [anyEscapes, Bool.or_eq_false_iff] at hesc
      obtain ⟨stmt, rest, hf, hfs, rfl⟩ := return_eq_some₂.mp hstmts
      simp only [stmtsReturn, Bool.or_eq_false_iff]
      exact ⟨f.returns_toStmt hquiet.1 hesc.1 hf, flows_returns_toStmts fs hquiet.2 hesc.2 hfs⟩

theorem cases_returns_toClauses {inside : Bound} (cases' : List FlowCase)
    (hquiet : casesQuiet cases') (hesc : anyCaseEscapes inside cases' = false)
    {clauses : List Clause} (hclauses : toClauses? cases' = some clauses) :
    clausesReturn clauses = false := by
  cases cases' with
  | nil =>
      obtain rfl := Option.some.inj hclauses
      rfl
  | cons c cs =>
      simp only [anyCaseEscapes, Bool.or_eq_false_iff] at hesc
      obtain ⟨clause, rest, hc, hcs, rfl⟩ := return_eq_some₂.mp hclauses
      simp only [clausesReturn, Bool.or_eq_false_iff]
      exact ⟨c.returns_toClause _ hquiet.1 hesc.1 hc,
        cases_returns_toClauses cs hquiet.2 hesc.2 hcs⟩

theorem FlowCase.returns_toClause {inside : Bound} (c : FlowCase) (last : Bool)
    (hquiet : c.Quiet) (hesc : c.escapes inside = false) {clause : Clause}
    (hclause : c.toClause? last = some clause) : clause.returns = false := by
  cases c with
  | case values body =>
      obtain ⟨stmts, hbody, rfl⟩ := return_eq_some.mp hclause
      exact closeCase_returns body last (flows_returns_toStmts body hquiet hesc hbody)
  | default body =>
      obtain ⟨stmts, hbody, rfl⟩ := return_eq_some.mp hclause
      exact closeCase_returns body last (flows_returns_toStmts body hquiet hesc hbody)

end

end YieldMachine
