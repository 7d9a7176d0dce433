import YieldMachine.Proofs.Meaning.Trees
import YieldMachine.Proofs.Scope.Nodes

/-!
# Declarations in their scopes

No scope declares a name twice: a definition has a name that is new in its scope, and of other
declarations all names are.  `Node.InOrder` says so of every scope in a tree, and `Flow.InOrder` of
the scopes that a statement of a generator body opens.  The tree of a statement has the scopes of
the statement, but for a loop over an iterator: its key and value are declared among the statements
of its body.
-/

namespace YieldMachine

/-- Whether one of the names is new in a scope that has the given names. -/
def HasNew (scope names : List String) : Prop := ∃ x ∈ names, x ≠ "_" ∧ x ∉ scope

/-- Whether all names are new in a scope that has the given names, and differ from each other. -/
def AllNew (scope names : List String) : Prop :=
  (names.filter (· != "_")).Nodup ∧ ∀ x ∈ names, x ≠ "_" → x ∉ scope

/-- Whether a statement declares nothing again in a scope that has the given names.  A definition
may assign some of them, but not only them. -/
def Stmt.DeclaresIn (scope : List String) : Stmt → Prop
  | .assign .define lhs _ => HasNew scope (lhs.filterMap Expr.name?)
  | .decl _ specs => AllNew scope (specs.flatMap Spec.names)
  | .labeled _ stmt => stmt.DeclaresIn scope
  | _ => True

/-- The names that a scope has after a statement of it. -/
def Stmt.scopeNames (s : Stmt) : List String := s.binds.filter (· != "_")

/-- Whether the statements of a list declare nothing twice in their scope, which has the given
names from the start. -/
def stmtsDeclareIn (scope : List String) : List Stmt → Prop
  | [] => True
  | s :: ss => s.DeclaresIn scope ∧ stmtsDeclareIn (s.scopeNames ++ scope) ss

/-- The scopes that a statement opens, each with the names that it has from the start. -/
def Stmt.scopes : Stmt → List (List String × List Stmt)
  | .block body | .range _ _ _ _ body => [([], body)]
  | .ite init _ body other => [([], [init]), ([], body), ([], [other])]
  | .loop init _ post body => [([], [init, post]), ([], body)]
  | .switch init _ clauses => ([], [init]) :: clauses.map fun c => ([], c.body)
  | .typeSwitch init guard clauses =>
    ([], [init]) :: clauses.map fun c => (guard.guardNames, c.body)
  | .select clauses => clauses.map fun | .mk comm body => ([], comm :: body)
  | _ => []

/-- The scopes that a node opens.  The parameters and results of a function literal belong to the
scope of its body. -/
def Node.scopes : Node → List (List String × List Stmt)
  | .stmt s => s.scopes
  | .expr (.func signature (.block body)) =>
    [(signature.results.names ++ signature.params.names, body)]
  | _ => []

/-- Whether no scope in a node declares a name twice. -/
inductive Node.InOrder : Node → Prop where
  | intro {n : Node} (own : ∀ scope ∈ n.scopes, stmtsDeclareIn scope.1 scope.2)
      (parts : ∀ p ∈ n.parts, InOrder p.2) : InOrder n

/-- Whether no scope that a statement opens itself declares a name twice. -/
def Stmt.ScopesInOrder (s : Stmt) : Prop := ∀ scope ∈ s.scopes, stmtsDeclareIn scope.1 scope.2

namespace Node

theorem inOrder_iff {n : Node} :
    n.InOrder ↔ (∀ scope ∈ n.scopes, stmtsDeclareIn scope.1 scope.2) ∧
      ∀ n' ∈ n.parts.map Prod.snd, n'.InOrder := by
  constructor
  · rintro ⟨own, parts⟩
    exact ⟨own, List.forall_mem_map.mpr parts⟩
  · rintro ⟨own, parts⟩
    exact ⟨own, List.forall_mem_map.mp parts⟩

theorem inOrder_stmt {s : Stmt} :
    (Node.stmt s).InOrder ↔ s.ScopesInOrder ∧ ∀ n ∈ s.parts.map Prod.snd, n.InOrder := inOrder_iff

/-- A node that opens no scope. -/
theorem inOrder_iff_of_scopes {n : Node} (h : n.scopes = []) :
    n.InOrder ↔ ∀ n' ∈ n.parts.map Prod.snd, n'.InOrder := by
  simp [inOrder_iff (n := n), h]

@[simp]
theorem inOrder_expr_missing : (Node.expr .missing).InOrder :=
  (inOrder_iff_of_scopes rfl).mpr (by simp [parts, Expr.parts])

@[simp]
theorem inOrder_stmt_missing : (Node.stmt .missing).InOrder :=
  (inOrder_iff_of_scopes rfl).mpr (by simp [parts, Stmt.parts])

@[simp]
theorem inOrder_name (x : String) : (Node.expr (.name x)).InOrder :=
  (inOrder_iff_of_scopes rfl).mpr (by simp [parts, Expr.name, Expr.parts])

@[simp]
theorem inOrder_branch (kind : BranchKind) (label : Option String) :
    (Node.stmt (.branch kind label)).InOrder :=
  (inOrder_iff_of_scopes rfl).mpr (by simp [parts, Stmt.parts])

@[simp]
theorem inOrder_call {f : Expr} {args : List Expr} {spread : Bool} :
    (Node.expr (.call f args spread)).InOrder ↔
      (Node.expr f).InOrder ∧ ∀ e ∈ args, (Node.expr e).InOrder := by
  rw [inOrder_iff_of_scopes rfl]
  simp [parts, Expr.parts, map_snd_exprParts]

@[simp]
theorem inOrder_method {x : Expr} {method : String} :
    (Node.expr (x.method method)).InOrder ↔ (Node.expr x).InOrder := by
  rw [Expr.method, inOrder_call, inOrder_iff_of_scopes (n := .expr (.sel x method)) rfl]
  simp [parts, Expr.parts, map_snd_exprParts]

@[simp]
theorem inOrder_orBlank {e : Expr} : (Node.expr e.orBlank).InOrder ↔ (Node.expr e).InOrder := by
  cases e <;> simp [Expr.orBlank]

theorem inOrder_assign {kind : AssignKind} {lhs rhs : List Expr} :
    (Node.stmt (.assign kind lhs rhs)).InOrder ↔
      (kind ≠ .define → ∀ e ∈ lhs, (Node.expr e).InOrder) ∧ ∀ e ∈ rhs, (Node.expr e).InOrder := by
  rw [inOrder_iff_of_scopes rfl]
  by_cases h : kind = .define <;>
    simp [parts, Stmt.parts, map_snd_exprParts, h, or_imp, forall_and]

theorem inOrder_clause {c : Clause} :
    (Node.clause c).InOrder ↔
      (∀ e ∈ c.values, (Node.expr e).InOrder) ∧ ∀ s ∈ c.body, (Node.stmt s).InOrder := by
  rw [inOrder_iff_of_scopes rfl]
  cases c <;>
    simp [parts, Clause.parts, Clause.values, Clause.body, map_snd_exprParts, map_snd_stmtParts,
      or_imp, forall_and]

end Node

/-- The names that a statement declares for those that follow it. -/
def Flow.binds : Flow → List String
  | .declare d => d.names
  | .lift d => d.specs.flatMap Spec.names
  | .labeled _ s => s.binds
  | .simple stmt => stmt.binds
  | _ => []

/-- The names that a scope has after a statement of it. -/
def Flow.scopeNames (s : Flow) : List String := s.binds.filter (· != "_")

/-- Whether a statement declares nothing again in a scope that has the given names.  A definition
may assign some of them, but not only them. -/
def Flow.DeclaresIn (scope : List String) : Flow → Prop
  | .declare d => if d.define then HasNew scope d.names else AllNew scope d.names
  | .lift d => AllNew scope (d.specs.flatMap Spec.names)
  | .labeled _ s => s.DeclaresIn scope
  | .simple stmt => stmt.DeclaresIn scope
  | _ => True

/-- Whether the statements of a list declare nothing twice in their scope, which has the given
names from the start. -/
def flowsDeclareIn (scope : List String) : List Flow → Prop
  | [] => True
  | s :: ss => s.DeclaresIn scope ∧ flowsDeclareIn (s.scopeNames ++ scope) ss

/-- The scopes that a statement opens. -/
def Flow.scopes : Flow → List (List Flow)
  | .block body | .while _ body | .doWhile body _ | .walk _ body => [body]
  | .ite _ body other => [body, [other]]
  | .loop init _ post body => [[init, post], body]
  | .switch _ cases => cases.map FlowCase.body
  | _ => []

/-- The trees in a statement that are not those of its own statements. -/
def Flow.nodes : Flow → List Node
  | .declare d => (d.sharedType :: d.values).map .expr
  | .yield e | .ite e _ _ | .while e _ | .doWhile _ e | .loop _ e _ _ => [.expr e]
  | .walk w _ => [w.key, w.value, w.x].map .expr
  | .switch tag cases => (tag :: cases.flatMap fun c => c.guard.values).map .expr
  | .lift d => d.specs.map .spec
  | .simple stmt => [.stmt stmt]
  | _ => []

/-- Whether neither the scopes that a statement opens nor those in its trees declare a name twice.
What a loop over an iterator declares are names. -/
structure Flow.InOrder (s : Flow) : Prop where
  scopes : ∀ body ∈ s.scopes, flowsDeclareIn [] body
  nodes : ∀ n ∈ s.nodes, n.InOrder
  header : ∀ w body, s = .walk w body → w.Regular

/-- Whether the body of a loop over an iterator declares nothing again where the key and value of
the loop belong to its scope. -/
def Flow.KeepsNames : Flow → Prop
  | .walk w body => flowsDeclareIn w.names body
  | _ => True

section Trees

variable {scope : List String}

theorem VarDecl.declaresIn_toStmt (d : VarDecl) :
    d.toStmt.DeclaresIn scope ↔ (Flow.declare d).DeclaresIn scope := by
  unfold VarDecl.toStmt
  split <;> rename_i hdefine
  · simp [Stmt.DeclaresIn, Flow.DeclaresIn, hdefine, List.filterMap_map, Function.comp_def,
      Expr.name, Expr.name?]
  · simp [Stmt.DeclaresIn, Flow.DeclaresIn, hdefine, Spec.names]

/-- A statement and its tree declare the same, and the one declares something again where the other
does. -/
theorem Flow.declares_toStmt (s : Flow) {stmt : Stmt} (h : s.toStmt? = some stmt) :
    stmt.binds = s.binds ∧ ∀ scope, stmt.DeclaresIn scope ↔ s.DeclaresIn scope := by
  cases Flow.hasTree h with
  | declare => exact ⟨VarDecl.binds_toStmt _, fun _ => VarDecl.declaresIn_toStmt _⟩
  | @labeled label s stmt hstmt =>
      have ih := s.declares_toStmt hstmt
      exact ⟨ih.1, ih.2⟩
  | _ => exact ⟨rfl, fun _ => .rfl⟩

theorem Flow.scopeNames_toStmt {s : Flow} {stmt : Stmt} (h : s.toStmt? = some stmt) :
    stmt.scopeNames = s.scopeNames := by
  rw [Stmt.scopeNames, Flow.scopeNames, (s.declares_toStmt h).1]

theorem Flow.declares_part {s : Flow} {stmt : Stmt} (h : s.part? = some stmt) :
    stmt.scopeNames = s.scopeNames ∧ ∀ scope, stmt.DeclaresIn scope ↔ s.DeclaresIn scope := by
  unfold Flow.part? at h
  split at h
  · rename_i hmissing
    obtain rfl := Option.some.inj h
    obtain rfl := isMissing_eq_true.mp hmissing
    exact ⟨rfl, fun _ => .rfl⟩
  · exact ⟨scopeNames_toStmt h, (s.declares_toStmt h).2⟩

/-- The trees of a list of statements declare something twice where the statements do. -/
theorem stmtsDeclareIn_toStmts {body : List Flow} {stmts : List Stmt}
    (h : toStmts? body = some stmts) : stmtsDeclareIn scope stmts ↔ flowsDeclareIn scope body := by
  induction body generalizing scope stmts with
  | nil =>
      obtain rfl := Option.some.inj h
      exact .rfl
  | cons s body ih =>
      simp only [toStmts?, Option.pure_def, Option.bind_eq_bind, Option.bind_eq_some_iff] at h
      obtain ⟨stmt, hstmt, rest, hrest, heq⟩ := h
      obtain rfl := Option.some.inj heq
      rw [stmtsDeclareIn, flowsDeclareIn, (s.declares_toStmt hstmt).2, Flow.scopeNames_toStmt hstmt,
        ih hrest]

/-- A branch at the end of a list declares nothing. -/
theorem stmtsDeclareIn_branch {stmts : List Stmt} {kind : BranchKind} {label : Option String} :
    stmtsDeclareIn scope (stmts ++ [.branch kind label]) ↔ stmtsDeclareIn scope stmts := by
  induction stmts generalizing scope with
  | nil => simp [stmtsDeclareIn, Stmt.DeclaresIn]
  | cons s stmts ih => rw [List.cons_append, stmtsDeclareIn, stmtsDeclareIn, ih]

/-- The statements of a clause are the trees of the statements of its case, up to a branch at their
end. -/
theorem closeCase_cases {body : List Flow} {stmts : List Stmt} (h : toStmts? body = some stmts)
    (last : Bool) :
    closeCase body stmts last = stmts ∨
      stmts = closeCase body stmts last ++ [.branch .brk none] ∨
      closeCase body stmts last = stmts ++ [.branch .fallthrough none] := by
  unfold closeCase
  split
  · rename_i hbreak
    exact .inr (.inl (toStmts?_endsInBreak h hbreak))
  · split
    · exact .inl rfl
    · exact .inr (.inr rfl)

theorem stmtsDeclareIn_closeCase {body : List Flow} {stmts : List Stmt}
    (h : toStmts? body = some stmts) (last : Bool) :
    stmtsDeclareIn scope (closeCase body stmts last) ↔ flowsDeclareIn scope body := by
  rw [← stmtsDeclareIn_toStmts h]
  rcases closeCase_cases h last with heq | heq | heq
  · rw [heq]
  · conv_rhs => rw [heq]
    exact stmtsDeclareIn_branch.symm
  · rw [heq]
    exact stmtsDeclareIn_branch

theorem forall_closeCase {P : Stmt → Prop} (hbranch : ∀ kind, P (.branch kind none))
    {body : List Flow} {stmts : List Stmt} (h : toStmts? body = some stmts) (last : Bool) :
    (∀ s ∈ closeCase body stmts last, P s) ↔ ∀ s ∈ stmts, P s := by
  rcases closeCase_cases h last with heq | heq | heq
  · rw [heq]
  · conv_rhs => rw [heq]
    simp [or_imp, forall_and, hbranch]
  · rw [heq]
    simp [or_imp, forall_and, hbranch]

/-- The clause of a case: its values are those of the case, and its statements their trees. -/
theorem FlowCase.clause_of_toClause {c : FlowCase} {last : Bool} {clause : Clause}
    (h : c.toClause? last = some clause) :
    clause.values = c.guard.values ∧
      ∃ stmts, toStmts? c.body = some stmts ∧ clause.body = closeCase c.body stmts last := by
  cases c with
  | case values body | default body =>
      simp only [toClause?, Option.pure_def, Option.bind_eq_bind, Option.bind_eq_some_iff] at h
      obtain ⟨stmts, hstmts, heq⟩ := h
      obtain rfl := Option.some.inj heq
      exact ⟨rfl, stmts, hstmts, rfl⟩

/-- The clauses of a switch declare something twice where its cases do. -/
theorem scopes_toClauses {cs : List FlowCase} {clauses : List Clause}
    (h : toClauses? cs = some clauses) :
    (∀ c ∈ clauses, stmtsDeclareIn scope c.body) ↔ ∀ c ∈ cs, flowsDeclareIn scope c.body := by
  induction cs generalizing clauses with
  | nil =>
      obtain rfl := Option.some.inj h
      simp
  | cons c cs ih =>
      simp only [toClauses?, Option.pure_def, Option.bind_eq_bind, Option.bind_eq_some_iff] at h
      obtain ⟨clause, hclause, rest, hrest, heq⟩ := h
      obtain rfl := Option.some.inj heq
      obtain ⟨-, stmts, hstmts, hbody⟩ := FlowCase.clause_of_toClause hclause
      rw [List.forall_mem_cons, List.forall_mem_cons, ih hrest, hbody,
        stmtsDeclareIn_closeCase hstmts]

/-- The taking of the next key and value makes variables of the names of the loop. -/
theorem Walk.scopeNames_take (w : Walk) : w.take.scopeNames = w.names := by
  have hblank (es : List Expr) : ((es.map Expr.orBlank).filterMap Expr.name?).filter (· != "_") =
      (es.filterMap Expr.name?).filter (· != "_") := by
    rw [List.filterMap_map, List.filter_filterMap, List.filter_filterMap]
    congr 1
    funext e
    cases e <;> rfl
  rw [Walk.take_eq]
  cases hbinding : w.binding with
  | false =>
      rw [Walk.names_eq_nil hbinding]
      rfl
  | true =>
      have hdefine : w.define = true := by
        rw [Walk.binding, Bool.and_eq_true] at hbinding
        exact hbinding.1
      rw [Walk.names, if_pos hdefine]
      exact hblank [w.key, w.value]

theorem Walk.declaresIn_take {w : Walk} (hreg : w.Regular) : w.take.DeclaresIn [] := by
  rw [Walk.take_eq]
  cases hbinding : w.binding with
  | false => trivial
  | true =>
      simp only [Walk.binding, Bool.and_eq_true, Bool.not_eq_true', Bool.and_eq_false_iff]
        at hbinding
      obtain ⟨hdefine, hblank⟩ := hbinding
      obtain ⟨e, he, hblank⟩ : ∃ e ∈ [w.key, w.value], e.isBlank = false := by simpa using hblank
      obtain ⟨x, kept, rfl⟩ : ∃ x kept, e = .ident x kept := by
        have hname := hreg hdefine e he
        cases e <;> simp_all [Expr.isBlank, Expr.isMissing, Expr.name?]
      refine ⟨x, List.mem_filterMap.mpr ⟨.ident x kept, ?_, rfl⟩, ?_, List.not_mem_nil⟩
      · simpa [Expr.orBlank] using List.mem_map_of_mem he (f := Expr.orBlank)
      · simpa [Expr.isBlank, Expr.isName, Expr.name?] using hblank

/-- The scopes that the tree of a statement opens. -/
theorem Flow.scopesInOrder_toStmt {s : Flow} {stmt : Stmt} (h : s.toStmt? = some stmt)
    (horder : s.InOrder) : stmt.ScopesInOrder ↔ s.KeepsNames := by
  cases Flow.hasTree h with
  | simple => exact iff_of_true (Node.inOrder_stmt.mp (horder.nodes _ (.head _))).1 trivial
  | declare =>
      refine iff_of_true ?_ trivial
      unfold VarDecl.toStmt
      split <;> simp [Stmt.ScopesInOrder, Stmt.scopes]
  | yield | finish | brk | cont | lift | labeled =>
      exact iff_of_true (by simp [Stmt.ScopesInOrder, Stmt.scopes, branchTo]) trivial
  | block hbody =>
      refine iff_of_true ?_ trivial
      simpa [Stmt.ScopesInOrder, Stmt.scopes, stmtsDeclareIn_toStmts hbody, Flow.scopes]
        using horder.scopes
  | «while» hbody | doWhile hbody =>
      refine iff_of_true ?_ trivial
      simpa [Stmt.ScopesInOrder, Stmt.scopes, stmtsDeclareIn_toStmts hbody, Flow.scopes,
        stmtsDeclareIn, Stmt.DeclaresIn, HasNew, Expr.name, Expr.name?, doName]
        using horder.scopes
  | @walk w body stmts hbody =>
      have htake := Walk.declaresIn_take (horder.header w body rfl)
      simp [Stmt.ScopesInOrder, Stmt.scopes, stmtsDeclareIn, Stmt.DeclaresIn, HasNew, Expr.name,
        Expr.name?, iteratorName, htake, Walk.scopeNames_take, stmtsDeclareIn_toStmts hbody,
        Flow.KeepsNames]
  | ite hbody hother =>
      refine iff_of_true ?_ trivial
      simpa [Stmt.ScopesInOrder, Stmt.scopes, stmtsDeclareIn_toStmts hbody, Flow.scopes,
        stmtsDeclareIn, flowsDeclareIn, Stmt.DeclaresIn, (Flow.declares_part hother).2]
        using horder.scopes
  | loop hinit hpost hbody =>
      refine iff_of_true ?_ trivial
      simpa [Stmt.ScopesInOrder, Stmt.scopes, stmtsDeclareIn_toStmts hbody, Flow.scopes,
        stmtsDeclareIn, flowsDeclareIn, (Flow.declares_part hinit).1,
        (Flow.declares_part hinit).2, (Flow.declares_part hpost).2] using horder.scopes
  | @switch tag cases clauses hclauses =>
      refine iff_of_true ?_ trivial
      have hcases : ∀ c ∈ clauses, stmtsDeclareIn [] c.body :=
        (scopes_toClauses hclauses).mpr (by simpa [Flow.scopes] using horder.scopes)
      simpa [Stmt.ScopesInOrder, Stmt.scopes, stmtsDeclareIn, Stmt.DeclaresIn] using hcases

/-- The parts of the tree of a declaration. -/
theorem VarDecl.inOrder_parts_toStmt (d : VarDecl)
    (h : (Node.expr d.sharedType).InOrder ∧ ∀ e ∈ d.values, (Node.expr e).InOrder) :
    ∀ n ∈ d.toStmt.parts.map Prod.snd, n.InOrder := by
  unfold VarDecl.toStmt
  split
  · simpa [Stmt.parts, map_snd_exprParts] using h.2
  · have hspec : (Node.spec (.value d.names d.sharedType d.values)).InOrder := by
      rw [Node.inOrder_iff_of_scopes rfl]
      simpa [Node.parts, Spec.parts, map_snd_exprParts] using h
    simpa [Stmt.parts, map_snd_specParts] using hspec

/-- An optional part of a statement whose tree is in order when its loops keep their names. -/
theorem Flow.inOrder_part {s : Flow} {stmt : Stmt} (h : s.part? = some stmt)
    (horder : ∀ t ∈ if s.isMissing then [] else s.parts, t.InOrder)
    (htree : s.toStmt? = some stmt → (∀ t ∈ s.parts, t.InOrder) →
      ((Node.stmt stmt).InOrder ↔ ∀ t ∈ s.parts, t.KeepsNames)) :
    (Node.stmt stmt).InOrder ↔ ∀ t ∈ if s.isMissing then [] else s.parts, t.KeepsNames := by
  unfold Flow.part? at h
  split at h
  · obtain rfl := Option.some.inj h
    simp [*]
  · rename_i hwritten
    rw [if_neg hwritten] at horder ⊢
    exact htree h horder

end Trees

mutual

/-- The tree of a statement whose parts are in order is in order when its loops over iterators keep
their names, and only then. -/
theorem Flow.inOrder_toStmt (s : Flow) {stmt : Stmt} (h : s.toStmt? = some stmt)
    (horder : ∀ t ∈ s.parts, t.InOrder) :
    (Node.stmt stmt).InOrder ↔ ∀ t ∈ s.parts, t.KeepsNames := by
  have hself := horder s s.mem_parts
  have hnodes := hself.nodes
  rw [Node.inOrder_stmt, Flow.scopesInOrder_toStmt h hself]
  cases Flow.hasTree h with
  | simple =>
      have hparts := (Node.inOrder_stmt.mp (hnodes _ (.head _))).2
      exact iff_of_true ⟨trivial, hparts⟩ (by simp [Flow.parts, Flow.KeepsNames])
  | @declare d =>
      have hparts := d.inOrder_parts_toStmt (by simpa [Flow.nodes] using hnodes)
      exact iff_of_true ⟨trivial, hparts⟩ (by simp [Flow.parts, Flow.KeepsNames])
  | yield | finish | brk | cont =>
      simp_all [Flow.parts, Flow.KeepsNames, Flow.nodes, Stmt.parts, branchTo, map_snd_exprParts]
  | lift =>
      simp_all [Flow.parts, Flow.KeepsNames, Flow.nodes, Stmt.parts, map_snd_specParts]
  | @labeled label s stmt hstmt =>
      simp only [Flow.parts, List.forall_mem_cons] at horder ⊢
      refine and_congr_right' ?_
      simpa [Stmt.parts] using s.inOrder_toStmt hstmt horder.2
  | @block body stmts hbody =>
      simp only [Flow.parts, List.forall_mem_cons] at horder ⊢
      refine and_congr_right' ?_
      rw [← inOrder_toStmts body hbody horder.2]
      simp [Stmt.parts, map_snd_stmtParts]
  | @«while» cond body stmts hbody =>
      simp only [Flow.parts, List.forall_mem_cons] at horder ⊢
      refine and_congr_right' ?_
      rw [← inOrder_toStmts body hbody horder.2]
      have hcond := hnodes _ (.head _)
      simp [Stmt.parts, map_snd_stmtParts, hcond]
  | @doWhile cond body stmts hbody =>
      simp only [Flow.parts, List.forall_mem_cons] at horder ⊢
      refine and_congr_right' ?_
      rw [← inOrder_toStmts body hbody horder.2]
      have hcond := hnodes _ (.head _)
      have htest : (Node.expr (if cond.isMissing then .name "true" else cond)).InOrder := by
        split
        · exact Node.inOrder_name "true"
        · exact hcond
      simp [Stmt.parts, map_snd_stmtParts, Node.inOrder_assign, htest]
  | @walk w body stmts hbody =>
      simp only [Flow.parts, List.forall_mem_cons] at horder ⊢
      refine and_congr_right' ?_
      rw [← inOrder_toStmts body hbody horder.2]
      obtain ⟨hkey, hvalue, hx⟩ : (Node.expr w.key).InOrder ∧ (Node.expr w.value).InOrder ∧
          (Node.expr w.x).InOrder := by simpa [Flow.nodes] using hnodes
      simp [Stmt.parts, map_snd_stmtParts, Walk.take_eq, Node.inOrder_assign, hkey, hvalue, hx]
  | @ite cond body other stmts other' hbody hother =>
      simp only [Flow.parts, List.forall_mem_cons, List.forall_mem_append] at horder ⊢
      refine and_congr_right' ?_
      have hcond := hnodes _ (.head _)
      rw [← inOrder_toStmts body hbody horder.2.1,
        ← Flow.inOrder_part hother horder.2.2 fun h horder => other.inOrder_toStmt h horder]
      simp [Stmt.parts, map_snd_stmtParts, hcond, and_comm]
  | @loop init post cond body init' post' stmts hinit hpost hbody =>
      simp only [Flow.parts, List.forall_mem_cons, List.forall_mem_append] at horder ⊢
      refine and_congr_right' ?_
      have hcond := hnodes _ (.head _)
      rw [← inOrder_toStmts body hbody horder.2.2,
        ← Flow.inOrder_part hinit horder.2.1.1 fun h horder => init.inOrder_toStmt h horder,
        ← Flow.inOrder_part hpost horder.2.1.2 fun h horder => post.inOrder_toStmt h horder]
      simp [Stmt.parts, map_snd_stmtParts, hcond, and_assoc]
  | @switch tag cases clauses hclauses =>
      simp only [Flow.parts, List.forall_mem_cons] at horder ⊢
      refine and_congr_right' ?_
      obtain ⟨htag, hvalues⟩ := List.forall_mem_cons.mp (List.forall_mem_map.mp hnodes)
      rw [← inOrder_toClauses cases hclauses
        (fun c hc e he => hvalues e (List.mem_flatMap.mpr ⟨c, hc, he⟩)) horder.2]
      simp [Stmt.parts, clauseParts, htag]

/-- The trees of a list of statements. -/
theorem inOrder_toStmts (body : List Flow) {stmts : List Stmt} (h : toStmts? body = some stmts)
    (horder : ∀ t ∈ flowsParts body, t.InOrder) :
    (∀ s ∈ stmts, (Node.stmt s).InOrder) ↔ ∀ t ∈ flowsParts body, t.KeepsNames := by
  cases body with
  | nil =>
      obtain rfl := Option.some.inj h
      simp [flowsParts]
  | cons s body =>
      simp only [toStmts?, Option.pure_def, Option.bind_eq_bind, Option.bind_eq_some_iff] at h
      obtain ⟨stmt, hstmt, rest, hrest, heq⟩ := h
      obtain rfl := Option.some.inj heq
      simp only [flowsParts, List.forall_mem_append] at horder ⊢
      rw [List.forall_mem_cons, s.inOrder_toStmt hstmt horder.1,
        inOrder_toStmts body hrest horder.2]

/-- The clauses of the cases of a switch. -/
theorem inOrder_toClauses (cs : List FlowCase) {clauses : List Clause}
    (h : toClauses? cs = some clauses)
    (hvalues : ∀ c ∈ cs, ∀ e ∈ c.guard.values, (Node.expr e).InOrder)
    (horder : ∀ t ∈ casesParts cs, t.InOrder) :
    (∀ c ∈ clauses, (Node.clause c).InOrder) ↔ ∀ t ∈ casesParts cs, t.KeepsNames := by
  cases cs with
  | nil =>
      obtain rfl := Option.some.inj h
      simp [casesParts]
  | cons c cs =>
      simp only [toClauses?, Option.pure_def, Option.bind_eq_bind, Option.bind_eq_some_iff] at h
      obtain ⟨clause, hclause, rest, hrest, heq⟩ := h
      obtain rfl := Option.some.inj heq
      simp only [casesParts, List.forall_mem_append, List.forall_mem_cons] at horder hvalues ⊢
      rw [c.inOrder_toClause hclause hvalues.1 horder.1,
        inOrder_toClauses cs hrest hvalues.2 horder.2]

/-- The clause of a case. -/
theorem FlowCase.inOrder_toClause (c : FlowCase) {last : Bool} {clause : Clause}
    (h : c.toClause? last = some clause)
    (hvalues : ∀ e ∈ c.guard.values, (Node.expr e).InOrder)
    (horder : ∀ t ∈ c.parts, t.InOrder) :
    (Node.clause clause).InOrder ↔ ∀ t ∈ c.parts, t.KeepsNames := by
  obtain ⟨hguard, stmts, hstmts, hbody⟩ := FlowCase.clause_of_toClause h
  rw [Node.inOrder_clause, hguard, and_iff_right hvalues, hbody,
    forall_closeCase (fun kind => Node.inOrder_branch kind none) hstmts]
  cases c with
  | case values body => exact inOrder_toStmts body hstmts horder
  | default body => exact inOrder_toStmts body hstmts horder

end

/-- A statement in which no scope declares a name twice has a tree.  The tree declares something
again in a scope where the statement does, and its own scopes declare no name twice exactly when
the bodies of the loops over iterators declare nothing again where the key and value of their loop
belong to their scopes. -/
theorem Flow.inOrder_toStmt_iff (s : Flow) (hwritten : ∀ t ∈ s.parts, t.Written)
    (horder : ∀ t ∈ s.parts, t.InOrder) :
    ∃ stmt, s.toStmt? = some stmt ∧ (∀ scope, stmt.DeclaresIn scope ↔ s.DeclaresIn scope) ∧
      ((Node.stmt stmt).InOrder ↔ ∀ t ∈ s.parts, t.KeepsNames) := by
  obtain ⟨stmt, hstmt, -⟩ := s.exists_toStmt hwritten
  exact ⟨stmt, hstmt, (s.declares_toStmt hstmt).2, s.inOrder_toStmt hstmt horder⟩

/-- A loop over `xs` with the values `x`, whose body starts with `y := x`. -/
def copying (y : String) : Flow :=
  .walk ⟨.missing, .name "x", true, .name "int", .name "int", .name "xs"⟩
    [.declare ⟨[y], [.own (.name "int")], [.name "x"], true⟩]

theorem copying_ordered {y : String} (hy : y ≠ "_") :
    (∀ t ∈ (copying y).parts, t.Written) ∧ ∀ t ∈ (copying y).parts, t.InOrder := by
  have hdeclare : flowsDeclareIn [] [.declare ⟨[y], [.own (.name "int")], [.name "x"], true⟩] :=
    ⟨⟨y, .head _, hy, List.not_mem_nil⟩, trivial⟩
  simp only [copying, Flow.parts, flowsParts, List.append_nil, List.forall_mem_cons]
  refine ⟨by simp [Flow.Written], ⟨by simpa [Flow.scopes] using hdeclare, ?_, ?_⟩, ⟨?_, ?_, ?_⟩, ?_⟩
  · simp [Flow.nodes]
  · rintro w body heq
    obtain ⟨rfl, rfl⟩ := Flow.walk.inj heq
    simp [Walk.Regular, Expr.isMissing, Expr.name, Expr.name?]
  · simp [Flow.scopes]
  · simp [Flow.nodes, VarDecl.sharedType]
  · rintro w body ⟨⟩
  · simp

theorem copying_redeclares_nothing :
    (∀ t ∈ (copying "y").parts, t.Written) ∧ (∀ t ∈ (copying "y").parts, t.InOrder) ∧
      ∃ stmt, (copying "y").toStmt? = some stmt ∧
        (∀ scope, stmt.DeclaresIn scope ↔ (copying "y").DeclaresIn scope) ∧
        (Node.stmt stmt).InOrder := by
  obtain ⟨hwritten, horder⟩ := copying_ordered (y := "y") (by decide)
  obtain ⟨stmt, hstmt, hdeclares, hiff⟩ := Flow.inOrder_toStmt_iff (copying "y") hwritten horder
  refine ⟨hwritten, horder, stmt, hstmt, hdeclares, hiff.mpr ?_⟩
  simp [copying, Flow.parts, flowsParts, Flow.KeepsNames, flowsDeclareIn, Flow.DeclaresIn, HasNew,
    Walk.names, Expr.name, Expr.name?]

/-- A body may declare a variable of its own for the variable of its loop.  The tree of the loop has
both in one list. -/
theorem copying_redeclares_variable :
    (∀ t ∈ (copying "x").parts, t.Written) ∧ (∀ t ∈ (copying "x").parts, t.InOrder) ∧
      ∃ stmt, (copying "x").toStmt? = some stmt ∧ ¬ (Node.stmt stmt).InOrder := by
  obtain ⟨hwritten, horder⟩ := copying_ordered (y := "x") (by decide)
  refine ⟨hwritten, horder, _, rfl, fun hinOrder => ?_⟩
  have hkeeps := ((copying "x").inOrder_toStmt rfl horder).mp hinOrder _ (copying "x").mem_parts
  simp [copying, Flow.KeepsNames, flowsDeclareIn, Flow.DeclaresIn, HasNew, Walk.names, Expr.name,
    Expr.name?] at hkeeps

end YieldMachine
