import YieldMachine.Table.Lowering

/-!
# Statements that are written

A body may miss statements only where a part is optional: the else part of a conditional,
and the first and last part of a loop header.  Every other statement has a tree.
-/

namespace YieldMachine

/-- The tree of an optional part of a statement. -/
def Flow.part? (part : Flow) : Option Stmt :=
  if part.isMissing then some .missing else part.toStmt?

theorem Flow.toStmt?_ite (cond : Expr) (body : List Flow) (other : Flow) :
    (Flow.ite cond body other).toStmt? =
      (do return .ite .missing cond (← toStmts? body) (← other.part?)) := by
  cases other <;> simp only [toStmt?, part?, isMissing] <;> cases toStmts? body <;> rfl

theorem Flow.isMissing_eq_true {part : Flow} : part.isMissing = true ↔ part = .missing := by
  cases part <;> simp [isMissing]

theorem Flow.part?_of_ne {part : Flow} (h : part ≠ .missing) : part.part? = part.toStmt? := by
  have : ¬ part.isMissing = true := fun hm => h (isMissing_eq_true.mp hm)
  rw [part?, if_neg this]

theorem Flow.toStmt?_loop (init : Flow) (cond : Expr) (post : Flow) (body : List Flow) :
    (Flow.loop init cond post body).toStmt? =
      (do return .loop (← init.part?) cond (← post.part?) (← toStmts? body)) := by
  by_cases hi : init = .missing
  · by_cases hp : post = .missing
    · rw [hi, hp]
      rfl
    · rw [hi, part?_of_ne hp, toStmt?]
      · rfl
      · exact hp
  · by_cases hp : post = .missing
    · rw [hp, part?_of_ne hi, toStmt?]
      · rfl
      · exact hi
    · rw [part?_of_ne hi, part?_of_ne hp, toStmt?]
      · exact fun _ => hp
      · exact hi
      · exact hp

theorem return_eq_some {α β : Type} {x : Option α} {f : α → β} {b : β} :
    (do return f (← x)) = some b ↔ ∃ a, x = some a ∧ b = f a := by
  cases x <;> simp [eq_comm]

theorem return_eq_some₂ {α β γ : Type} {x : Option α} {y : Option β} {f : α → β → γ} {c : γ} :
    (do return f (← x) (← y)) = some c ↔ ∃ a b, x = some a ∧ y = some b ∧ c = f a b := by
  cases x <;> cases y <;> simp [eq_comm]

/-- An else part that is missing has the tree of one that is. -/
theorem Flow.part?_missing_or (part : Flow) :
    part.part? = some .missing ∨ part.part? = part.toStmt? := by
  unfold Flow.part?
  split
  · exact .inl rfl
  · exact .inr rfl

/-- The shape of the tree of a statement. -/
inductive Flow.HasTree : Flow → Stmt → Prop where
  | block {body : List Flow} {stmts : List Stmt} (hbody : toStmts? body = some stmts) :
    HasTree (.block body) (.block stmts)
  | declare {d : VarDecl} : HasTree (.declare d) d.toStmt
  | yield {value : Expr} : HasTree (.yield value) (.ret [.call (.name "Yield") [value] false])
  | finish : HasTree .finish (.ret [.name "nil"])
  | ite {cond : Expr} {body : List Flow} {other : Flow} {stmts : List Stmt} {other' : Stmt}
    (hbody : toStmts? body = some stmts) (hother : other.part? = some other') :
    HasTree (.ite cond body other) (.ite .missing cond stmts other')
  | while {cond : Expr} {body : List Flow} {stmts : List Stmt}
    (hbody : toStmts? body = some stmts) :
    HasTree (.while cond body) (.loop .missing cond .missing stmts)
  | doWhile {cond : Expr} {body : List Flow} {stmts : List Stmt}
    (hbody : toStmts? body = some stmts) :
    HasTree (.doWhile body cond)
      (.loop (.assign .define [.name doName] [.name "true"]) (.name doName)
        (.assign .set [.name doName] [if cond.isMissing then .name "true" else cond]) stmts)
  | loop {init post : Flow} {cond : Expr} {body : List Flow} {init' post' : Stmt}
    {stmts : List Stmt} (hinit : init.part? = some init') (hpost : post.part? = some post')
    (hbody : toStmts? body = some stmts) :
    HasTree (.loop init cond post body) (.loop init' cond post' stmts)
  | walk {w : Walk} {body : List Flow} {stmts : List Stmt} (hbody : toStmts? body = some stmts) :
    HasTree (.walk w body)
      (.loop (.assign .define [.name iteratorName] [w.x])
        ((Expr.name iteratorName).method "HasNext") .missing (w.take :: stmts))
  | switch {tag : Expr} {cases : List FlowCase} {clauses : List Clause}
    (hclauses : toClauses? cases = some clauses) :
    HasTree (.switch tag cases) (.switch .missing tag clauses)
  | labeled {label : String} {s : Flow} {stmt : Stmt} (h : s.toStmt? = some stmt) :
    HasTree (.labeled label s) (.labeled label stmt)
  | brk {label : String} : HasTree (.brk label) (branchTo .brk label)
  | cont {label : String} : HasTree (.cont label) (branchTo .cont label)
  | lift {d : Decl} : HasTree (.lift d) (.decl d.kind d.specs)
  | simple {stmt : Stmt} : HasTree (.simple stmt) stmt

theorem Flow.hasTree {s : Flow} {stmt : Stmt} (h : s.toStmt? = some stmt) : s.HasTree stmt := by
  cases s with
  | missing => cases h
  | declare d | yield value | finish | brk label | cont label | lift d | simple stmt =>
      obtain rfl := Option.some.inj h
      constructor
  | block body | «while» cond body | doWhile body cond | walk w body | switch tag cases
  | labeled label s =>
      simp only [toStmt?, Option.pure_def, Option.bind_eq_bind, Option.bind_eq_some_iff] at h
      obtain ⟨_, htree, heq⟩ := h
      obtain rfl := Option.some.inj heq
      constructor
      exact htree
  | ite cond body other =>
      simp only [toStmt?_ite, Option.pure_def, Option.bind_eq_bind, Option.bind_eq_some_iff] at h
      obtain ⟨_, hbody, _, hother, heq⟩ := h
      obtain rfl := Option.some.inj heq
      exact .ite hbody hother
  | loop init cond post body =>
      simp only [toStmt?_loop, Option.pure_def, Option.bind_eq_bind, Option.bind_eq_some_iff] at h
      obtain ⟨_, hinit, _, hpost, _, hbody, heq⟩ := h
      obtain rfl := Option.some.inj heq
      exact .loop hinit hpost hbody

mutual

/-- The statements that a statement consists of, itself included.  Optional parts that
are missing do not count. -/
def Flow.parts : Flow → List Flow
  | .block body => .block body :: flowsParts body
  | .ite cond body other =>
    .ite cond body other :: (flowsParts body ++ if other.isMissing then [] else other.parts)
  | .while cond body => .while cond body :: flowsParts body
  | .doWhile body cond => .doWhile body cond :: flowsParts body
  | .loop init cond post body =>
    .loop init cond post body ::
      ((if init.isMissing then [] else init.parts) ++
        (if post.isMissing then [] else post.parts) ++ flowsParts body)
  | .walk header body => .walk header body :: flowsParts body
  | .switch tag cases => .switch tag cases :: casesParts cases
  | .labeled label stmt => .labeled label stmt :: stmt.parts
  | s => [s]

/-- The statements that a list of them consists of. -/
def flowsParts : List Flow → List Flow
  | [] => []
  | s :: ss => s.parts ++ flowsParts ss

/-- The statements of the cases of a switch. -/
def casesParts : List FlowCase → List Flow
  | [] => []
  | c :: cs => c.parts ++ casesParts cs

/-- The statements of a case. -/
def FlowCase.parts : FlowCase → List Flow
  | .case _ body => flowsParts body
  | .default body => flowsParts body

end

/-- Whether there is a statement, and a tree in it if it is simple. -/
def Flow.Written : Flow → Prop
  | .missing => False
  | .simple stmt => stmt.isMissing = false
  | _ => True

theorem Flow.mem_parts (flow : Flow) : flow ∈ flow.parts := by
  cases flow <;> simp [parts]

theorem VarDecl.isMissing_toStmt (d : VarDecl) : d.toStmt.isMissing = false := by
  unfold VarDecl.toStmt
  split <;> rfl

/-- An optional part has a tree if it has one when it is there. -/
theorem Flow.exists_part {part : Flow}
    (h : part.isMissing = false → ∃ stmt, part.toStmt? = some stmt ∧ stmt.isMissing = false) :
    ∃ stmt, part.part? = some stmt := by
  unfold Flow.part?
  split
  · exact ⟨.missing, rfl⟩
  · rename_i hm
    obtain ⟨stmt, hstmt, -⟩ := h (by simpa using hm)
    exact ⟨stmt, hstmt⟩

mutual

/-- A statement whose parts are written has a tree, which is written too. -/
theorem Flow.exists_toStmt (flow : Flow) (h : ∀ s ∈ flow.parts, s.Written) :
    ∃ stmt, flow.toStmt? = some stmt ∧ stmt.isMissing = false := by
  have hself := h flow flow.mem_parts
  cases flow with
  | missing => exact hself.elim
  | simple stmt => exact ⟨stmt, rfl, hself⟩
  | declare d => exact ⟨d.toStmt, rfl, d.isMissing_toStmt⟩
  | yield value => exact ⟨_, rfl, rfl⟩
  | finish => exact ⟨_, rfl, rfl⟩
  | brk label => exact ⟨_, rfl, rfl⟩
  | cont label => exact ⟨_, rfl, rfl⟩
  | lift d => exact ⟨_, rfl, rfl⟩
  | block body =>
      simp only [Flow.parts, List.forall_mem_cons] at h
      obtain ⟨stmts, hstmts⟩ := exists_toStmts body h.2
      exact ⟨.block stmts, by simp [Flow.toStmt?, hstmts], rfl⟩
  | «while» cond body =>
      simp only [Flow.parts, List.forall_mem_cons] at h
      obtain ⟨stmts, hstmts⟩ := exists_toStmts body h.2
      exact ⟨.loop .missing cond .missing stmts, by simp [Flow.toStmt?, hstmts], rfl⟩
  | doWhile body cond =>
      simp only [Flow.parts, List.forall_mem_cons] at h
      obtain ⟨stmts, hstmts⟩ := exists_toStmts body h.2
      exact ⟨_, by simp only [Flow.toStmt?, hstmts]; rfl, rfl⟩
  | walk header body =>
      simp only [Flow.parts, List.forall_mem_cons] at h
      obtain ⟨stmts, hstmts⟩ := exists_toStmts body h.2
      exact ⟨_, by simp only [Flow.toStmt?, hstmts]; rfl, rfl⟩
  | switch tag cases =>
      simp only [Flow.parts, List.forall_mem_cons] at h
      obtain ⟨clauses, hclauses⟩ := exists_toClauses cases h.2
      exact ⟨.switch .missing tag clauses, by simp [Flow.toStmt?, hclauses], rfl⟩
  | labeled label stmt =>
      simp only [Flow.parts, List.forall_mem_cons] at h
      obtain ⟨stmt', hstmt, -⟩ := stmt.exists_toStmt h.2
      exact ⟨.labeled label stmt', by simp [Flow.toStmt?, hstmt], rfl⟩
  | ite cond body other =>
      simp only [Flow.parts, List.forall_mem_cons, List.forall_mem_append] at h
      obtain ⟨stmts, hstmts⟩ := exists_toStmts body h.2.1
      obtain ⟨other', hother⟩ := Flow.exists_part fun hm =>
        other.exists_toStmt (by simpa [hm] using h.2.2)
      exact ⟨.ite .missing cond stmts other', by simp [Flow.toStmt?_ite, hstmts, hother], rfl⟩
  | loop init cond post body =>
      simp only [Flow.parts, List.forall_mem_cons, List.forall_mem_append] at h
      obtain ⟨stmts, hstmts⟩ := exists_toStmts body h.2.2
      obtain ⟨init', hinit⟩ := Flow.exists_part fun hm =>
        init.exists_toStmt (by simpa [hm] using h.2.1.1)
      obtain ⟨post', hpost⟩ := Flow.exists_part fun hm =>
        post.exists_toStmt (by simpa [hm] using h.2.1.2)
      exact ⟨.loop init' cond post' stmts, by simp [Flow.toStmt?_loop, hstmts, hinit, hpost], rfl⟩

theorem exists_toStmts (fs : List Flow) (h : ∀ s ∈ flowsParts fs, s.Written) :
    ∃ stmts, toStmts? fs = some stmts := by
  cases fs with
  | nil => exact ⟨[], rfl⟩
  | cons f fs =>
      simp only [flowsParts, List.forall_mem_append] at h
      obtain ⟨stmt, hstmt, -⟩ := f.exists_toStmt h.1
      obtain ⟨stmts, hstmts⟩ := exists_toStmts fs h.2
      exact ⟨stmt :: stmts, by simp [toStmts?, hstmt, hstmts]⟩

theorem exists_toClauses (cases' : List FlowCase) (h : ∀ s ∈ casesParts cases', s.Written) :
    ∃ clauses, toClauses? cases' = some clauses := by
  cases cases' with
  | nil => exact ⟨[], rfl⟩
  | cons c cs =>
      simp only [casesParts, List.forall_mem_append] at h
      obtain ⟨clause, hclause⟩ := c.exists_toClause cs.isEmpty h.1
      obtain ⟨clauses, hclauses⟩ := exists_toClauses cs h.2
      exact ⟨clause :: clauses, by simp [toClauses?, hclause, hclauses]⟩

theorem FlowCase.exists_toClause (c : FlowCase) (last : Bool) (h : ∀ s ∈ c.parts, s.Written) :
    ∃ clause, c.toClause? last = some clause := by
  cases c with
  | case values body =>
      obtain ⟨stmts, hstmts⟩ := exists_toStmts body h
      exact ⟨_, by simp only [FlowCase.toClause?, hstmts]; rfl⟩
  | default body =>
      obtain ⟨stmts, hstmts⟩ := exists_toStmts body h
      exact ⟨_, by simp only [FlowCase.toClause?, hstmts]; rfl⟩

end

end YieldMachine
