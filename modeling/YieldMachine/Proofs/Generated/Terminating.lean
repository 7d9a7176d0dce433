import YieldMachine.Proofs.Generated.Methods
import YieldMachine.Proofs.Lowering.Tables

/-!
# Methods end in a return

A function with a result must end in a terminating statement.  These are given by rules on the
form of statements; the method of every state keeps to them, because its operations end in a
transfer on every path.
-/

namespace YieldMachine

/-- Whether nothing but a semicolon is written. -/
def Stmt.isEmpty : Stmt → Bool
  | .empty => true
  | _ => false

/-- Whether the clause is for all values that no other clause lists. -/
def Clause.isDefault : Clause → Bool
  | .case _ _ => false
  | .default _ => true

mutual

/-- Whether a break in a statement leaves the statement around it: a break with its label, or
one without a label that is not `nested` in a statement that it leaves first. -/
def Stmt.breaks (label : Option String) (nested : Bool) : Stmt → Bool
  | .branch .brk none => !nested
  | .branch .brk (some l) => label == some l
  | .block body => stmtsBreak label nested body
  | .ite _ _ body other => stmtsBreak label nested body || other.breaks label nested
  | .labeled _ stmt => stmt.breaks label nested
  | .switch _ _ clauses => clausesBreak label true clauses
  | .typeSwitch _ _ clauses => clausesBreak label true clauses
  | .select clauses => commsBreak label true clauses
  | .loop _ _ _ body => stmtsBreak label true body
  | .range _ _ _ _ body => stmtsBreak label true body
  | _ => false

/-- Whether a break in some statements leaves the statement around them. -/
def stmtsBreak (label : Option String) (nested : Bool) : List Stmt → Bool
  | [] => false
  | stmt :: stmts => stmt.breaks label nested || stmtsBreak label nested stmts

/-- Whether a break in some clauses leaves the statement around them. -/
def clausesBreak (label : Option String) (nested : Bool) : List Clause → Bool
  | [] => false
  | clause :: clauses => clause.breaks label nested || clausesBreak label nested clauses

/-- Whether a break in a clause leaves the statement around it. -/
def Clause.breaks (label : Option String) (nested : Bool) : Clause → Bool
  | .case _ body => stmtsBreak label nested body
  | .default body => stmtsBreak label nested body

/-- Whether a break in some clauses of a select leaves the statement around them. -/
def commsBreak (label : Option String) (nested : Bool) : List CommClause → Bool
  | [] => false
  | clause :: clauses => clause.breaks label nested || commsBreak label nested clauses

/-- Whether a break in a clause of a select leaves the statement around it. -/
def CommClause.breaks (label : Option String) (nested : Bool) : CommClause → Bool
  | .mk _ body => stmtsBreak label nested body

end

/-- Whether a statement goes on with the next clause. -/
def Stmt.fallsThrough : Stmt → Bool
  | .branch .fallthrough _ => true
  | .labeled _ stmt => stmt.fallsThrough
  | _ => false

/-- Whether a statement list ends by going on with the next clause. -/
def stmtsFall : List Stmt → Bool
  | [] => false
  | stmt :: stmts => stmtsFall stmts || (stmts.all Stmt.isEmpty && stmt.fallsThrough)

mutual

/-- Whether a statement with a label, or with none, is terminating: nothing that follows it in
its list is ever executed. -/
def Stmt.terminating (label : Option String) : Stmt → Bool
  | .ret _ => true
  | .branch .goto _ => true
  | .expr (.call (.ident "panic" _) _ _) => true
  | .block body => stmtsTerminate body
  | .ite _ _ body other => stmtsTerminate body && other.terminating none
  | .loop _ cond _ body => cond.isMissing && !stmtsBreak label false body
  | .switch _ _ clauses =>
    clauses.any Clause.isDefault && clausesTerminate clauses && !clausesBreak label false clauses
  | .typeSwitch _ _ clauses =>
    clauses.any Clause.isDefault && clausesTerminate clauses && !clausesBreak label false clauses
  | .select clauses => commsTerminate clauses && !commsBreak label false clauses
  | .labeled label stmt => stmt.terminating (some label)
  | _ => false

/-- Whether the last statement of a list that is not empty is terminating. -/
def stmtsTerminate : List Stmt → Bool
  | [] => false
  | stmt :: stmts => stmtsTerminate stmts || (stmts.all Stmt.isEmpty && stmt.terminating none)

/-- Whether every clause of a switch ends in a terminating statement or falls through. -/
def clausesTerminate : List Clause → Bool
  | [] => true
  | clause :: clauses => clause.terminating && clausesTerminate clauses

/-- Whether a clause of a switch ends in a terminating statement or falls through. -/
def Clause.terminating : Clause → Bool
  | .case _ body => stmtsTerminate body || stmtsFall body
  | .default body => stmtsTerminate body || stmtsFall body

/-- Whether every clause of a select ends in a terminating statement. -/
def commsTerminate : List CommClause → Bool
  | [] => true
  | clause :: clauses => clause.terminating && commsTerminate clauses

/-- Whether a clause of a select ends in a terminating statement. -/
def CommClause.terminating : CommClause → Bool
  | .mk _ body => stmtsTerminate body

end

mutual

/-- Nested in a statement that takes them, breaks without a label leave nothing else. -/
theorem Stmt.breaks_nested (stmt : Stmt) : stmt.breaks none true = false := by
  match stmt with
  | .branch .brk none => rfl
  | .branch .brk (some l) => rfl
  | .block body => exact stmtsBreak_nested body
  | .ite init cond body other =>
      simp only [Stmt.breaks, stmtsBreak_nested body, other.breaks_nested, Bool.or_false]
  | .labeled label stmt => exact stmt.breaks_nested
  | .switch init tag clauses => exact clausesBreak_nested clauses
  | .typeSwitch init guard clauses => exact clausesBreak_nested clauses
  | .select clauses => exact commsBreak_nested clauses
  | .loop init cond post body => exact stmtsBreak_nested body
  | .range key value kind x body => exact stmtsBreak_nested body
  | .branch .cont label => rfl
  | .branch .goto label => rfl
  | .branch .fallthrough label => rfl
  | .missing | .empty | .expr _ | .send _ _ | .incDec _ _ | .assign _ _ _ | .go _ | .defer _
  | .ret _ | .decl _ _ => rfl

theorem stmtsBreak_nested (stmts : List Stmt) : stmtsBreak none true stmts = false := by
  match stmts with
  | [] => rfl
  | stmt :: stmts =>
      simp only [stmtsBreak, stmt.breaks_nested, stmtsBreak_nested stmts, Bool.or_false]

theorem clausesBreak_nested (clauses : List Clause) : clausesBreak none true clauses = false := by
  match clauses with
  | [] => rfl
  | .case _ body :: clauses =>
      simp only [clausesBreak, Clause.breaks, stmtsBreak_nested body, clausesBreak_nested clauses,
        Bool.or_false]
  | .default body :: clauses =>
      simp only [clausesBreak, Clause.breaks, stmtsBreak_nested body, clausesBreak_nested clauses,
        Bool.or_false]

theorem commsBreak_nested (clauses : List CommClause) : commsBreak none true clauses = false := by
  match clauses with
  | [] => rfl
  | .mk _ body :: clauses =>
      simp only [commsBreak, CommClause.breaks, stmtsBreak_nested body, commsBreak_nested clauses,
        Bool.or_false]

end

mutual

/-- A statement whose branches have no target around it leaves none. -/
theorem Stmt.breaks_of_stays {r : Reach} (hr : r.brk = false) (stmt : Stmt) (h : stmt.Stays r) :
    stmt.breaks none false = false := by
  match stmt with
  | .branch .brk none =>
      simp [Stmt.Stays, Reach.Allows, hr] at h
  | .branch .brk (some l) => rfl
  | .block body => exact stmtsBreak_of_stays hr body h
  | .ite init cond body other =>
      simp only [Stmt.breaks, stmtsBreak_of_stays hr body h.1, other.breaks_of_stays hr h.2,
        Bool.or_false]
  | .labeled label stmt =>
      have hrest : stmt.Stays (r.withLabel label) →
          (Stmt.labeled label stmt).breaks none false = false :=
        stmt.breaks_of_stays (r := r.withLabel label) hr
      cases stmt with
      | loop init cond post body => exact stmtsBreak_nested body
      | _ => exact hrest h
  | .switch init tag clauses => exact clausesBreak_nested clauses
  | .typeSwitch init guard clauses => exact clausesBreak_nested clauses
  | .select clauses => exact commsBreak_nested clauses
  | .loop init cond post body => exact stmtsBreak_nested body
  | .range key value kind x body => exact stmtsBreak_nested body
  | .branch .cont label => rfl
  | .branch .goto label => rfl
  | .branch .fallthrough label => rfl
  | .missing | .empty | .expr _ | .send _ _ | .incDec _ _ | .assign _ _ _ | .go _ | .defer _
  | .ret _ | .decl _ _ => rfl

theorem stmtsBreak_of_stays {r : Reach} (hr : r.brk = false) (stmts : List Stmt)
    (h : stmtsStay r stmts) : stmtsBreak none false stmts = false := by
  match stmts with
  | [] => rfl
  | stmt :: stmts =>
      simp only [stmtsBreak, stmt.breaks_of_stays hr h.1, stmtsBreak_of_stays hr stmts h.2,
        Bool.or_false]

end

section Operations

variable {h : Holder}

mutual

/-- No break in the statement of an operation leaves it. -/
theorem Op.breaks_toStmt (op : Op) (hwhole : OpsWhole [op]) :
    (op.toStmt h).breaks none false = false := by
  cases op with
  | exec stmt =>
      exact stmt.breaks_of_stays rfl (hwhole stmt (by simp [opsParts, Op.parts])).stays
  | jump goal value =>
      simp only [Op.toStmt]
      split <;> rfl
  | finish => rfl
  | when cond ops =>
      have hops := stmtsBreak_opsToStmts ops fun stmt hmem =>
        hwhole stmt (by simp [opsParts, Op.parts, hmem])
      simp only [Op.toStmt, Stmt.breaks, hops, Bool.or_false]
  | choose cond ops others =>
      have hops := stmtsBreak_opsToStmts ops fun stmt hmem =>
        hwhole stmt (by simp [opsParts, Op.parts, hmem])
      have hothers := stmtsBreak_opsToStmts others fun stmt hmem =>
        hwhole stmt (by simp [opsParts, Op.parts, hmem])
      simp only [Op.toStmt, Stmt.breaks, hops, hothers, Bool.or_false]
  | dispatch tag arms => exact clausesBreak_nested _

theorem stmtsBreak_opsToStmts (ops : List Op) (hwhole : OpsWhole ops) :
    stmtsBreak none false (opsToStmts h ops) = false := by
  cases ops with
  | nil => rfl
  | cons op ops =>
      have hfirst := op.breaks_toStmt fun stmt hmem => hwhole stmt (by
        simp only [opsParts, List.append_nil] at hmem ⊢
        exact List.mem_append_left _ hmem)
      have hrest := stmtsBreak_opsToStmts ops fun stmt hmem =>
        hwhole stmt (by simp [opsParts, hmem])
      simp only [opsToStmts, stmtsBreak, hfirst, hrest, Bool.or_false]

end

theorem clausesBreak_armsToClauses (arms : List Arm)
    (hwhole : ∀ stmt, .exec stmt ∈ armsParts arms → stmt.Whole) :
    clausesBreak none false (armsToClauses h arms) = false := by
  induction arms with
  | nil => rfl
  | cons arm arms ih =>
      have hrest := ih fun stmt hmem => hwhole stmt (by simp [armsParts, hmem])
      have hfirst : (arm.toClause h).breaks none false = false := by
        have hops : ∀ ops, arm.parts = opsParts ops →
            stmtsBreak none false (opsToStmts h ops) = false := fun ops heq =>
          stmtsBreak_opsToStmts ops fun stmt hmem => hwhole stmt (by simp [armsParts, heq, hmem])
        cases arm with
        | case values ops => exact hops ops rfl
        | default ops => exact hops ops rfl
      simp only [armsToClauses, clausesBreak, hfirst, hrest, Bool.or_false]

theorem isDefault_armsToClauses (arms : List Arm) :
    (armsToClauses h arms).any Clause.isDefault = arms.any Arm.isDefault := by
  induction arms with
  | nil => rfl
  | cons arm arms ih =>
      rw [armsToClauses, List.any_cons, List.any_cons, ih]
      cases arm <;> rfl

mutual

/-- The statement of an operation that ends in a transfer on every path is terminating. -/
theorem Op.toStmt_terminating (op : Op) (hwhole : OpsWhole [op]) (hop : op.terminates = true) :
    (op.toStmt h).terminating none = true := by
  cases op with
  | exec stmt => cases hop
  | when cond ops => cases hop
  | jump goal value =>
      simp only [Op.toStmt]
      split <;> rfl
  | finish => rfl
  | choose cond ops others =>
      simp only [Op.terminates, Bool.and_eq_true] at hop
      have hops := opsToStmts_terminate ops
        (fun stmt hmem => hwhole stmt (by simp [opsParts, Op.parts, hmem])) hop.1
      have hothers := opsToStmts_terminate others
        (fun stmt hmem => hwhole stmt (by simp [opsParts, Op.parts, hmem])) hop.2
      simp only [Op.toStmt, Stmt.terminating, hops, hothers, Bool.and_true]
  | dispatch tag arms =>
      simp only [Op.terminates, Bool.and_eq_true] at hop
      have harms : ∀ stmt, .exec stmt ∈ armsParts arms → stmt.Whole := fun stmt hmem =>
        hwhole stmt (by simp [opsParts, Op.parts, hmem])
      simp only [Op.toStmt, Stmt.terminating, isDefault_armsToClauses, hop.1,
        armsToClauses_terminate arms harms hop.2, clausesBreak_armsToClauses arms harms,
        Bool.not_false, Bool.and_true]

theorem opsToStmts_terminate (ops : List Op) (hwhole : OpsWhole ops)
    (hops : opsTerminate ops = true) : stmtsTerminate (opsToStmts h ops) = true := by
  match ops with
  | [] => cases hops
  | [op] =>
      simp only [opsToStmts, stmtsTerminate, List.all_nil, Bool.true_and, Bool.false_or]
      exact op.toStmt_terminating hwhole hops
  | op :: next :: ops =>
      have hrest := opsToStmts_terminate (next :: ops)
        (fun stmt hmem => hwhole stmt (by
          simp only [opsParts] at hmem ⊢
          exact List.mem_append_right _ hmem)) hops
      rw [opsToStmts, stmtsTerminate, hrest, Bool.true_or]

theorem armsToClauses_terminate (arms : List Arm)
    (hwhole : ∀ stmt, .exec stmt ∈ armsParts arms → stmt.Whole)
    (harms : armsTerminate arms = true) : clausesTerminate (armsToClauses h arms) = true := by
  match arms with
  | [] => rfl
  | arm :: arms =>
      simp only [armsTerminate, Bool.and_eq_true] at harms
      have hrest := armsToClauses_terminate arms
        (fun stmt hmem => hwhole stmt (by simp [armsParts, hmem])) harms.2
      have hfirst := arm.toClause_terminating
        (fun stmt hmem => hwhole stmt (by simp [armsParts, hmem])) harms.1
      simp only [armsToClauses, clausesTerminate, hfirst, hrest, Bool.and_true]

theorem Arm.toClause_terminating (arm : Arm)
    (hwhole : ∀ stmt, .exec stmt ∈ arm.parts → stmt.Whole) (harm : arm.terminates = true) :
    (arm.toClause h).terminating = true := by
  cases arm with
  | case values ops =>
      simp only [Arm.toClause, Clause.terminating, opsToStmts_terminate ops hwhole harm,
        Bool.true_or]
  | default ops =>
      simp only [Arm.toClause, Clause.terminating, opsToStmts_terminate ops hwhole harm,
        Bool.true_or]

end

end Operations

theorem terminate_of_firstIncomplete {states : List (List Op)} {id : Nat}
    (h : firstIncomplete? id states = none) : ∀ ops ∈ states, opsTerminate ops = true := by
  induction states generalizing id with
  | nil => simp
  | cons ops states ih =>
      rw [firstIncomplete?] at h
      split at h
      · rename_i hops
        exact List.forall_mem_cons.mpr ⟨hops, ih h⟩
      · cases h

/-- Every state of a table that lowering gives ends in a transfer. -/
theorem Routine.terminate_of_lower {fn : Routine} {h : Holder} (hlower : fn.lower = .ok h) :
    ∀ ops ∈ h.states, opsTerminate ops = true := by
  unfold Routine.lower at hlower
  rw [Routine.lowerWith_eq] at hlower
  split at hlower
  · cases hlower
  · rename_i d _
    split at hlower
    · cases hlower
    · rename_i hvalid
      cases hlower
      unfold validate at hvalid
      split at hvalid
      · cases hvalid
      · rename_i hnone
        exact terminate_of_firstIncomplete hnone

/-- The method of a state does what the table does in the state.  It executes the same
statements and evaluates the same expressions in the same order, from the same fields and on the
same heap, and returns the same transfer with the continuation that it was given.  Its
statements end in a terminating statement.  That statements of the table are whole holds of
every regular generator whose simple statements do not return. -/
theorem Holder.method_enacts (fn : Routine) (h : Holder) (hlower : fn.lower = .ok h)
    (hwhole : ∀ ops ∈ h.states, OpsWhole ops) (ops : List Op) (hops : ops ∈ h.states) :
    (∀ (κ : Type) (k : κ) (s : Session) (fuel : Nat) (fields : Bindings) (heap : Heap),
      s.recv = h.recv → s.runtime = h.runtime →
      Enacted 1 (performAll s h.states.length fuel k (opsToStmts h ops) [] ⟨fields, [[]], heap⟩)
          (actOps s h.states.length fuel k ops [] ⟨fields, [], heap⟩) ∧
        forget (bounced (actOps s h.states.length fuel k ops) [] ⟨fields, [], heap⟩) =
          runOps s h.states.toArray fuel ops ⟨fields, [], heap⟩) ∧
      stmtsTerminate (opsToStmts h ops) = true := by
  refine ⟨fun κ k s fuel fields heap hrecv hruntime => ⟨?_, ?_⟩, ?_⟩
  · exact opsToStmts_enacts hrecv hruntime k ops (hwhole ops hops) 1 [] ⟨fields, [], heap⟩
      Nat.one_pos rfl
  · rw [← List.size_toArray]
    exact actOps_erases k ops (hwhole ops hops) [] ⟨fields, [], heap⟩
  · exact opsToStmts_terminate ops (hwhole ops hops) (Routine.terminate_of_lower hlower ops hops)

/-- A generator that hands over its parameter, or the number after it if it is zero. -/
def stepping : Routine where
  name := "stepping"
  recv := none
  typeParams := .absent
  params := .list [.mk ["n"] (.name "int") none]
  elem := .name "int"
  runtime := "yieldgen"
  body :=
    [.switch (.name "n")
      [.case [.lit .int "0"] [.simple (.incDec true (.name "n")), .yield (.name "n"), .brk ""],
        .default [.yield (.name "n")]]]

theorem stepping_method_enacts :
    ∃ h, stepping.lower = .ok h ∧ ∀ ops ∈ h.states,
      (∀ (κ : Type) (k : κ) (s : Session) (fuel : Nat) (fields : Bindings) (heap : Heap),
        s.recv = h.recv → s.runtime = h.runtime →
        Enacted 1 (performAll s h.states.length fuel k (opsToStmts h ops) [] ⟨fields, [[]], heap⟩)
            (actOps s h.states.length fuel k ops [] ⟨fields, [], heap⟩) ∧
          forget (bounced (actOps s h.states.length fuel k ops) [] ⟨fields, [], heap⟩) =
            runOps s h.states.toArray fuel ops ⟨fields, [], heap⟩) ∧
        stmtsTerminate (opsToStmts h ops) = true := by
  have hregular : stepping.Regular :=
    ⟨⟨⟨⟨rfl, rfl, trivial⟩, trivial, rfl, trivial⟩, ⟨trivial, trivial⟩, trivial⟩, trivial⟩
  have hquiet : flowsQuiet stepping.body :=
    ⟨⟨⟨rfl, trivial, trivial, trivial⟩, ⟨trivial, trivial⟩, trivial⟩, trivial⟩
  obtain ⟨h, hlower⟩ : ∃ h, stepping.lower = .ok h := Routine.exists_lowerWith hregular _
  exact ⟨h, hlower, Holder.method_enacts stepping h hlower
    (Routine.lower_whole hregular hquiet hlower)⟩

end YieldMachine
