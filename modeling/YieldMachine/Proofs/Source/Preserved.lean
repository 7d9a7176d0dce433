import YieldMachine.Proofs.Meaning.Trees
import YieldMachine.Proofs.Source.Kept

/-!
# Conversion preserves meaning

A body that is converted without problems runs as its source does, whatever its expressions and
simple statements do: the same values are handed over, on the same stores, and the run ends in the
same way.  `RunsLike` says this of one statement; a clause of a switch and the case that it becomes
differ in how their end is written.
-/

namespace YieldMachine.Source

/-- How a converted statement ends whose source completes in a given way.  A statement that
falls through has no counterpart: it is the last one of its clause. -/
def Completion.EndsLike : Completion → Ending → Prop
  | .normal, e => e = .normal
  | .brk label, e => e = .brk label
  | .cont label, e => e = .cont label
  | .finish, e => e = .finish
  | .fall, _ => False

/-- How a converted case ends whose clause completes in a given way.  Where the clause just
stops, the case breaks; where the clause falls through, the case just stops. -/
def Completion.ClosesLike : Completion → Ending → Prop
  | .normal, e => e = .brk ""
  | .brk label, e => e = .brk label
  | .cont label, e => e = .cont label
  | .finish, e => e = .finish
  | .fall, e => e = .normal

section Completions

variable {c : Completion} {e : Ending}

theorem Completion.EndsLike.closesLike (h : c.EndsLike e) (hnormal : c ≠ .normal) :
    c.ClosesLike e := by
  cases c with
  | normal => exact absurd rfl hnormal
  | fall => exact h.elim
  | _ => exact h

theorem Completion.EndsLike.leave (h : c.EndsLike e) (label : String) :
    (c.leave label).EndsLike (e.leave label) := by
  cases c with
  | brk l =>
      obtain rfl := h
      by_cases hl : l = label <;> simp [Completion.leave, Ending.leave, hl, Completion.EndsLike]
  | fall => exact h.elim
  | _ => cases h; rfl

/-- After its body, a loop goes on or ends on both sides. -/
theorem Completion.EndsLike.afterBody (h : c.EndsLike e) (labels : List String) :
    (c.afterBody labels = none ∧ e.afterBody labels = none) ∨
      ∃ c' e', c.afterBody labels = some c' ∧ e.afterBody labels = some e' ∧ c'.EndsLike e' := by
  cases c with
  | normal =>
      obtain rfl := h
      exact .inl ⟨rfl, rfl⟩
  | brk l =>
      obtain rfl := h
      by_cases hl : l = ""
      · exact .inr ⟨.normal, .normal, by simp [Completion.afterBody, hl],
          by simp [Ending.afterBody, hl], rfl⟩
      · exact .inr ⟨.brk l, .brk l, by simp [Completion.afterBody, hl],
          by simp [Ending.afterBody, hl], rfl⟩
  | cont l =>
      obtain rfl := h
      by_cases hl : l = "" ∨ l ∈ labels
      · exact .inl ⟨by simp [Completion.afterBody, hl], by simp [Ending.afterBody, hl]⟩
      · exact .inr ⟨.cont l, .cont l, by simp [Completion.afterBody, hl],
          by simp [Ending.afterBody, hl], rfl⟩
  | fall => exact h.elim
  | finish =>
      obtain rfl := h
      exact .inr ⟨.finish, .finish, rfl, rfl, rfl⟩

end Completions

/-- Whether two statements end alike, with the same variables in scope. -/
def EndAlike {D : Domain} (a : Completion × D.Names) (b : Ending × D.Names) : Prop :=
  a.1.EndsLike b.1 ∧ a.2 = b.2

/-- Whether two statements run alike, and both leave the variables in scope as they were. -/
def RunAlike {D : Domain} (names : D.Names) (x : D.Action (Completion × D.Names))
    (y : D.Action (Ending × D.Names)) : Prop :=
  Domain.Alike (fun a b => a.1.EndsLike b.1 ∧ a.2 = names ∧ b.2 = names) x y

section Constructs

variable {L : Language} {names : L.Names} {x : L.Action (Completion × L.Names)}
  {y : L.Action (Ending × L.Names)}

theorem Normally.endAlike {a : Completion × L.Names} {b : Ending × L.Names} (h : Normally a b) :
    EndAlike a b := by
  obtain ⟨hc, he, hnames⟩ := h
  refine ⟨?_, hnames⟩
  rw [hc, he]
  rfl

theorem RunAlike.endAlike (h : RunAlike names x y) : Domain.Alike EndAlike x y :=
  Domain.Alike.mono h fun _ _ hab => ⟨hab.1, hab.2.1.trans hab.2.2.symm⟩

theorem RunAlike.ended {c : Completion} {e : Ending} (h : c.EndsLike e) :
    RunAlike names (pure (c, names)) (pure (e, names)) :=
  Domain.Alike.pure ⟨h, rfl, rfl⟩

/-- The statements of a block, a body or a branch, in a scope of their own. -/
theorem RunAlike.within (h : Domain.Alike EndAlike x y) :
    RunAlike names (.within names x) (.within names y) :=
  Domain.Alike.bind h fun _ _ hab => .pure ⟨hab.1, rfl, rfl⟩

/-- A scope of its own makes no difference to a statement that leaves its scope as it was. -/
theorem RunAlike.within_left (h : RunAlike names x y) : RunAlike names (.within names x) y := by
  rw [← Domain.Action.bind_pure y]
  exact Domain.Alike.bind h fun _ _ hab => .pure ⟨hab.1, rfl, hab.2.2⟩

theorem RunAlike.within_right (h : RunAlike names x y) : RunAlike names x (.within names y) := by
  rw [← Domain.Action.bind_pure x]
  exact Domain.Alike.bind h fun _ _ hab => .pure ⟨hab.1, hab.2.1, rfl⟩

theorem RunAlike.labeled (h : RunAlike names x y) (label : String) :
    RunAlike names
      (do
        let (c, names) ← x
        return (c.leave label, names))
      (do
        let (e, names) ← y
        return (e.leave label, names)) :=
  Domain.Alike.bind h fun _ _ hab => .pure ⟨hab.1.leave label, hab.2⟩

/-- The turns of a loop. -/
theorem RunAlike.turns {σ : Type} (labels : List String) (test : σ → L.Eff Bool)
    {body : σ → L.Action (Completion × σ)} {body' : σ → L.Action (Ending × σ)}
    (hbody : ∀ state, Domain.Alike (fun a b => a.1.EndsLike b.1 ∧ a.2 = b.2)
      (body state) (body' state))
    {post post' : σ → L.Action σ} (hpost : ∀ state, Domain.Alike Eq (post state) (post' state))
    (n : Nat) (state : σ) :
    RunAlike names
      (do
        let c ← Domain.turns .normal (Completion.afterBody labels) test body post n state
        return (c, names))
      (do
        let e ← Domain.turns .normal (Ending.afterBody labels) test body' post' n state
        return (e, names)) := by
  refine Domain.Alike.bind (Domain.Alike.turns ?_ (fun c e h => h.afterBody labels) ?_ ?_ ?_ n
    (rfl : state = state)) fun _ _ h => .pure ⟨h, rfl, rfl⟩
  · rfl
  · rintro now _ rfl
    rfl
  · rintro now _ rfl s t -
    exact hbody now t
  · rintro now _ rfl
    exact hpost now

end Constructs

section Headers

variable {ctx : Context} {L : Language} {n : Nat} {runtime : String}

/-- A statement with a first part becomes a block that starts with it. -/
theorem RunAlike.aroundInit {init : Stmt} (hsimple : init.isSimple = true)
    (hcovered : init.Covered) (hresolved : init.Resolved [])
    {x : Completion × L.Names → L.Action (Completion × L.Names)} {f : Flow}
    (hrest : ∀ labels start, RunAlike start.2 (x start) (f.perform L runtime n labels start.2))
    (labels : List String) (names : L.Names) :
    RunAlike names
      (.within names do
        let start ← init.exec L ctx.qualify n [] [] names
        x start)
      ((aroundInit init.isWritten (init.convert ctx).value f).perform L runtime n labels
        names) := by
  cases init with
  | missing => exact (hrest labels (.normal, names)).within_left
  | mk pos form =>
      refine RunAlike.within ?_
      rw [Flow.performAll_append]
      refine Domain.Alike.bind (Stmt.simple_alike hsimple hcovered hresolved names)
        fun a b hab => ?_
      obtain ⟨c, inner⟩ := a
      obtain ⟨e, inner'⟩ := b
      obtain ⟨-, he, hinner⟩ := hab
      obtain rfl : inner = inner' := hinner
      obtain rfl : e = .normal := he
      show Domain.Alike EndAlike (x (c, inner)) (Flow.performAll L runtime n [f] inner)
      rw [Flow.performAll_singleton]
      exact (hrest [] (c, inner)).endAlike

/-- The last part of a loop header, which is no mark. -/
theorem Stmt.post_alike {post : Stmt} (hsimple : post.isSimple = true) (hcovered : post.Covered)
    (hdeclares : post.declares = false) (hmarks : post.marks = []) (names : L.Names) :
    Domain.Alike (fun _ _ => True) (post.exec L ctx.qualify n [] [] names)
      (liftM ((if post.isWritten then .simple post.erase else .missing : Flow).performUpdate L
        names)) := by
  have hkept : ∀ stmt, Domain.Alike (fun _ _ => True) (do
      L.run stmt names
      return (.normal, names) : L.Action (Completion × L.Names)) (liftM (L.run stmt names)) := by
    intro stmt
    conv_rhs => rw [← Domain.Action.bind_pure (liftM (L.run stmt names))]
    refine Domain.Alike.first (L.run stmt names) fun _ => ?_
    exact Domain.Alike.pure trivial
  cases post with
  | missing => exact .pure trivial
  | mk pos form =>
      cases form with
      | empty => exact hkept .empty
      | incDec increment x => exact hkept (.incDec increment x.erase)
      | expr x =>
          have hm : x.mark? = none := by simpa [Stmt.marks, StmtForm.marks] using hmarks
          simp only [Stmt.exec, StmtForm.exec, x.runtimeArg?_yield, hm]
          exact hkept (.expr x.erase)
      | assign kind lhs rhs =>
          cases kind with
          | define => cases hdeclares
          | _ => exact hkept (.assign _ (eraseExprs lhs) (eraseExprs rhs))
      | send => exact hcovered.elim
      | _ => cases hsimple

/-- A loop with a header. -/
theorem RunAlike.loop {init post : Stmt}
    (hinit : init.isSimple = true ∧ init.Covered ∧ init.Resolved [])
    (hpost : post.isSimple = true ∧ post.Covered ∧ post.declares = false ∧ post.marks = [])
    {cond : YieldMachine.Expr} {x : L.Names → L.Action (Completion × L.Names)} {fs : List Flow}
    (hbody : ∀ inner, Domain.Alike EndAlike (x inner) (Flow.performAll L runtime n fs inner))
    (labels : List String) (names : L.Names) :
    RunAlike names
      (do
        let start ← init.exec L ctx.qualify n [] [] names
        let c ← Domain.turns .normal (Completion.afterBody labels) (L.condition cond)
          (fun now => .within now (x now))
          (fun now => do
            let now ← L.renewAll (start.2.length - names.length) now
            let _ ← post.exec L ctx.qualify n [] [] now
            return now)
          n start.2
        return (c, names))
      ((Flow.loop
        (match (init.convert ctx).value with
          | [f] => f
          | _ => .missing)
        cond (if post.isWritten then .simple post.erase else .missing) fs).perform L runtime n
          labels names) := by
  rw [Flow.perform]
  have hupdate : ∀ count now, Domain.Alike Eq
      (do
        let now ← L.renewAll count now
        let _ ← post.exec L ctx.qualify n [] [] now
        return now : L.Action L.Names)
      (do
        let now ← L.renewAll count now
        (if post.isWritten then .simple post.erase else .missing : Flow).performUpdate L now
        return now) := fun count now =>
    Domain.Alike.first _ fun now =>
      (Stmt.post_alike hpost.1 hpost.2.1 hpost.2.2.1 hpost.2.2.2 now).bind fun _ _ _ => .pure rfl
  have hstart : Domain.Alike Normally (init.exec L ctx.qualify n [] [] names)
      (Flow.performFirst L
        (match (init.convert ctx).value with
          | [f] => f
          | _ => .missing) names
        (Flow.perform L runtime n
          (match (init.convert ctx).value with
            | [f] => f
            | _ => .missing) [] names)) := by
    have hfirst : Domain.Alike Normally (init.exec L ctx.qualify n [] [] names)
        (Flow.performAll L runtime n (init.convert ctx).value names) :=
      Stmt.simple_alike hinit.1 hinit.2.1 hinit.2.2 names
    obtain rfl | ⟨f, hf, hwritten⟩ := Stmt.value_convert_simple ctx hinit.1
    · exact hfirst
    · rw [hf, Flow.performAll_singleton] at hfirst
      simpa only [hf, Flow.performFirst, hwritten, Bool.false_eq_true, if_false] using hfirst
  refine hstart.bind fun a b hab => ?_
  obtain ⟨c, inner⟩ := a
  obtain ⟨e, inner'⟩ := b
  obtain rfl : inner = inner' := hab.2.2
  exact RunAlike.turns labels (L.condition cond)
    (fun now => (RunAlike.within (hbody now)).endAlike) (hupdate _) n inner

/-- A walk over an operand. -/
theorem RunAlike.range {key value x : Expr} {kind : RangeKind} {it : Iteration}
    (hit : ctx.iteration x = .ok it) (hordered : x.isOrdered = true) {pos : Pos}
    {scope : List String} {body : List Stmt} {fs : List Flow}
    (hbody : ∀ inner, Domain.Alike EndAlike (execStmts L ctx.qualify n [] body inner)
      (Flow.performAll L ctx.runtime n fs inner))
    (labels : List String) (names : L.Names) :
    RunAlike names
      ((Stmt.mk pos (.range key value kind x body)).exec L ctx.qualify n scope labels names)
      ((Flow.walk ⟨key.erase, value.erase, kind == .define, (ctx.spell it.key).value,
        (ctx.spell it.value).value, it.adapter⟩ fs).perform L ctx.runtime n labels names) := by
  obtain ⟨r, hclause, hoperand, hkey, hvalue⟩ := ctx.iteration_ordered hit hordered
  simp only [Stmt.exec, StmtForm.exec, Flow.perform, hclause, hoperand, hkey, hvalue]
  refine Domain.Alike.first _ fun value => Domain.Alike.first _ fun walk => ?_
  refine RunAlike.turns labels L.hasNext (fun walk => ?_) (fun _ => .pure rfl) n walk
  refine Domain.Alike.first _ fun row => Domain.Alike.first _ fun inner => ?_
  exact Domain.Alike.bind (hbody inner) fun _ _ h => .pure ⟨h.1, rfl⟩

end Headers

/-- Whether a statement runs like what it was converted to, where it stands in a scope with some
variables.  A statement that a branch can go to is converted to a single one, which runs like
it under the same labels. -/
structure Stmt.RunsLike (L : Language) (ctx : Context) (n : Nat) (scope : List String) (stmt : Stmt)
    (fs : List Flow) : Prop where
  listed : ∀ names, Domain.Alike EndAlike (stmt.exec L ctx.qualify n scope [] names)
    (Flow.performAll L ctx.runtime n fs names)
  target : stmt.isTarget = true → ∃ f, fs = [f] ∧ f.isMissing = false ∧
    ∀ labels names, RunAlike names (stmt.exec L ctx.qualify n scope labels names)
      (f.perform L ctx.runtime n labels names)

namespace Stmt.RunsLike

variable {L : Language} {ctx : Context} {n : Nat} {scope : List String} {stmt : Stmt}

theorem of_target {f : Flow} (hwritten : f.isMissing = false)
    (h : ∀ labels names, RunAlike names (stmt.exec L ctx.qualify n scope labels names)
      (f.perform L ctx.runtime n labels names)) :
    stmt.RunsLike L ctx n scope [f] where
  listed names := by
    rw [Flow.performAll_singleton]
    exact (h [] names).endAlike
  target _ := ⟨f, rfl, hwritten, h⟩

theorem of_listed (htarget : stmt.isTarget = false) {fs : List Flow}
    (h : ∀ names, Domain.Alike EndAlike (stmt.exec L ctx.qualify n scope [] names)
      (Flow.performAll L ctx.runtime n fs names)) :
    stmt.RunsLike L ctx n scope fs where
  listed := h
  target htarget' := by simp [htarget] at htarget'

/-- A statement with others after it.  `P` says how lists end; a statement that does not complete
normally decides that alone. -/
theorem followed {P : Completion → Ending → Prop}
    (hP : ∀ c e, Completion.EndsLike c e → c ≠ .normal → P c e) {fs gs : List Flow}
    (h : stmt.RunsLike L ctx n scope fs) {stmts : List Stmt}
    (hrest : ∀ names, Domain.Alike (fun a b => P a.1 b.1 ∧ a.2 = b.2)
      (execStmts L ctx.qualify n (stmt.binds ++ scope) stmts names)
      (Flow.performAll L ctx.runtime n gs names)) (names : L.Names) :
    Domain.Alike (fun a b => P a.1 b.1 ∧ a.2 = b.2)
      (execStmts L ctx.qualify n scope (stmt :: stmts) names)
      (Flow.performAll L ctx.runtime n (fs ++ gs) names) := by
  rw [execStmts, Flow.performAll_append]
  refine (h.listed names).bind fun a b hab => ?_
  obtain ⟨c, inner⟩ := a
  obtain ⟨e, inner'⟩ := b
  obtain ⟨hce, rfl⟩ := hab
  have hstops : c ≠ .normal → Domain.Alike (D := L.toDomain) (fun a b => P a.1 b.1 ∧ a.2 = b.2)
      (pure (c, inner)) (pure (e, inner)) :=
    fun hc => .pure ⟨hP c e hce hc, rfl⟩
  cases c with
  | normal =>
      obtain rfl := hce
      exact hrest inner
  | fall => exact hce.elim
  | _ =>
      obtain rfl := hce
      exact hstops nofun

end Stmt.RunsLike

/-- The statements of clauses have no part in the choice between them. -/
theorem choose_guard (L : Language) (tag : YieldMachine.Expr)
    (clauses : List YieldMachine.Clause) (names : L.Names) :
    L.choose tag (clauses.map YieldMachine.Clause.guard) names = L.choose tag clauses names := by
  have hmatching : ∀ (tag : Option L.Value) i (cs : List YieldMachine.Clause),
      L.matching? tag names i (cs.map YieldMachine.Clause.guard) = L.matching? tag names i cs := by
    intro tag i cs
    induction cs generalizing i with
    | nil => rfl
    | cons c cs ih =>
        cases c <;>
          simp only [List.map_cons, YieldMachine.Clause.guard, Language.matching?, ih]
  simp only [Language.choose, hmatching, defaultClause?_guard]

/-- The guards of clauses are kept. -/
theorem guard_convertClauses (ctx : Context) (cs : List Clause) :
    (convertClauses ctx cs).value.map FlowCase.guard =
      (eraseClauses cs).map YieldMachine.Clause.guard := by
  induction cs with
  | nil => rfl
  | cons c cs ih =>
      have hguard : (c.convert ctx).value.guard = c.erase.guard := by cases c <;> rfl
      simp only [convertClauses, eraseClauses, Noted.value_bind, Noted.value_pure, List.map_cons,
        hguard, ih]

/-- A statement that is refused does not convert without problems. -/
theorem problems_note {α : Type} (pos : Pos) (reason : Reason) (a : α) :
    (do note pos reason; return a : Noted α).problems ≠ [] :=
  nofun

section Statements

variable {ctx : Context} {L : Language} {n : Nat}

/-- A return without problems is a mark or ends the generator. -/
theorem ret_alike {pos : Pos} {results : List Expr}
    (h : (ctx.ret pos results).problems = []) (hcovered : (StmtForm.ret results).Covered)
    {scope : List String} (names : L.Names) :
    Domain.Alike EndAlike ((StmtForm.ret results).exec L ctx.qualify n scope [] names)
      (Flow.performAll L ctx.runtime n ((StmtForm.ret results).convert ctx pos).value names) := by
  match results with
  | [] => exact absurd h (problems_note pos _ _)
  | _ :: _ :: _ => exact absurd h (problems_note pos _ _)
  | [x] =>
      rw [value_convert_ret]
      simp only [StmtForm.exec, x.runtimeArg?_yield]
      cases hm : x.mark? with
      | some m =>
          refine (mark_alike (hcovered x (.head _) m.2 ?_) names).mono fun _ _ => Normally.endAlike
          rw [x.runtimeArg?_yield, hm]
          rfl
      | none =>
          obtain ⟨-, hrest⟩ := problems_bind_eq_nil.mp h
          simp only [value_yieldValue?, hm, Option.map_none] at hrest
          by_cases hnil : x.isNil = true
          · simp only [hnil, if_true, Option.map_none, Flow.performAll_singleton]
            exact .pure ⟨rfl, rfl⟩
          · rw [if_neg hnil] at hrest
            exact absurd hrest (problems_note pos _ _)

/-- A branch without problems leaves what it stands in on both sides. -/
theorem branch_alike {pos : Pos} {kind : BranchKind} {label : Option Ident}
    (h : ((StmtForm.branch kind label).convert ctx pos).problems = []) {scope : List String}
    (names : L.Names) :
    Domain.Alike EndAlike ((StmtForm.branch kind label).exec L ctx.qualify n scope [] names)
      (Flow.performAll L ctx.runtime n ((StmtForm.branch kind label).convert ctx pos).value
        names) := by
  cases kind with
  | brk =>
      show Domain.Alike EndAlike _ (Flow.performAll L ctx.runtime n [.brk _] names)
      rw [Flow.performAll_singleton]
      exact .pure ⟨rfl, rfl⟩
  | cont =>
      show Domain.Alike EndAlike _ (Flow.performAll L ctx.runtime n [.cont _] names)
      rw [Flow.performAll_singleton]
      exact .pure ⟨rfl, rfl⟩
  | goto => exact absurd h (problems_note pos _ _)
  | fallthrough => exact absurd h (problems_note pos _ _)

/-- Whether statements, if they are converted without problems, run like what they become. -/
def stmtsRunLike (L : Language) (ctx : Context) (n : Nat) (scope : List String) (ss : List Stmt) :
    Prop :=
  (convertStmts ctx ss).problems = [] → ∀ names, Domain.Alike EndAlike
    (execStmts L ctx.qualify n scope ss names)
    (Flow.performAll L ctx.runtime n (convertStmts ctx ss).value names)

section Forms

variable {pos : Pos} {scope : List String} {init post other : Stmt} {body : List Stmt}
  {cond tag : Expr} {clauses : List Clause}

/-- The else part of a conditional. -/
theorem else_alike (helse : other.isElse = true)
    (h : other.RunsLike L ctx n [] (other.convert ctx).value) (inner : L.Names) :
    RunAlike inner (other.exec L ctx.qualify n [] [] inner)
      (if ((other.convert ctx).value.headD .missing).isMissing then pure (.normal, inner)
      else .within inner
        (((other.convert ctx).value.headD .missing).perform L ctx.runtime n [] inner)) := by
  cases other with
  | missing => exact .ended rfl
  | mk pos form =>
      have htarget : (Stmt.mk pos form).isTarget = true := by
        cases form with
        | block | ite => rfl
        | _ => cases helse
      obtain ⟨f, hf, hwritten, hrun⟩ := h.target htarget
      rw [hf, List.headD_cons, hwritten]
      exact (hrun [] inner).within_right

theorem ite_runsLike (h : ((StmtForm.ite init cond body other).convert ctx pos).problems = [])
    (hcovered : (StmtForm.ite init cond body other).Covered)
    (hresolved : (StmtForm.ite init cond body other).Resolved scope)
    (hbody : stmtsRunLike L ctx n [] body)
    (hother : (other.convert ctx).problems = [] →
      other.RunsLike L ctx n [] (other.convert ctx).value) :
    (Stmt.mk pos (.ite init cond body other)).RunsLike L ctx n scope
      ((StmtForm.ite init cond body other).convert ctx pos).value := by
  simp only [StmtForm.convert, problems_bind_eq_nil, problems_check] at h
  obtain ⟨-, hbodyProblems, hotherProblems, -⟩ := h
  obtain ⟨hinit, hsimple, -, -, helse⟩ := hcovered
  refine .of_target ?_ fun labels names => ?_
  · cases init <;> rfl
  · rw [Stmt.exec, StmtForm.exec]
    refine RunAlike.aroundInit hsimple hinit hresolved.1 (fun labels start => ?_) labels names
    rw [Flow.perform]
    refine Domain.Alike.first _ fun b => ?_
    cases b with
    | true => exact RunAlike.within (hbody hbodyProblems start.2)
    | false => exact else_alike helse (hother hotherProblems) start.2

theorem switch_runsLike (h : ((StmtForm.switch init tag clauses).convert ctx pos).problems = [])
    (hcovered : (StmtForm.switch init tag clauses).Covered)
    (hresolved : (StmtForm.switch init tag clauses).Resolved scope)
    (hclauses : (convertClauses ctx clauses).problems = [] → ∀ i inner,
      Domain.Alike Completion.EndsLike (execClauses L ctx.qualify n i clauses inner)
        (Flow.performCases L ctx.runtime n i (convertClauses ctx clauses).value inner)) :
    (Stmt.mk pos (.switch init tag clauses)).RunsLike L ctx n scope
      ((StmtForm.switch init tag clauses).convert ctx pos).value := by
  simp only [StmtForm.convert, problems_bind_eq_nil, problems_check] at h
  obtain ⟨hinit, hsimple, -⟩ := hcovered
  refine .of_target ?_ fun labels names => ?_
  · cases init <;> rfl
  · rw [Stmt.exec, StmtForm.exec]
    refine RunAlike.aroundInit hsimple hinit hresolved.1 (fun labels start => ?_) labels names
    rw [Flow.perform, guard_convertClauses, choose_guard]
    refine Domain.Alike.first _ fun choice => ?_
    cases choice with
    | none => exact RunAlike.ended rfl
    | some i => exact (hclauses h.2.1 i start.2).bind fun _ _ hce => .pure ⟨hce, rfl, rfl⟩

theorem loop_runsLike (h : ((StmtForm.loop init cond post body).convert ctx pos).problems = [])
    (hcovered : (StmtForm.loop init cond post body).Covered)
    (hresolved : (StmtForm.loop init cond post body).Resolved scope)
    (hbody : stmtsRunLike L ctx n [] body) :
    (Stmt.mk pos (.loop init cond post body)).RunsLike L ctx n scope
      ((StmtForm.loop init cond post body).convert ctx pos).value := by
  simp only [StmtForm.convert, problems_bind_eq_nil, problems_check] at h
  obtain ⟨-, hbodyProblems, hrest⟩ := h
  obtain ⟨hinit, hsimple, hpost, hpostSimple, hdeclares, -⟩ := hcovered
  have hrun := hbody hbodyProblems
  simp only [StmtForm.convert, Noted.value_bind]
  by_cases hbare : (!init.isWritten && !post.isWritten) = true
  · have hheader := hbare
    simp only [Bool.and_eq_true, Bool.not_eq_true', Stmt.isWritten_eq_false] at hheader
    obtain ⟨rfl, rfl⟩ := hheader
    refine .of_target rfl fun labels names => ?_
    refine RunAlike.turns labels (L.condition cond.erase)
      (fun now => (RunAlike.within (hrun now)).endAlike) (fun now => ?_) n names
    rw [Nat.sub_self]
    exact .pure rfl
  · rw [if_neg hbare] at hrest ⊢
    simp only [problems_bind_eq_nil, problems_check] at hrest
    have hmarks := Stmt.marks_of_isSimple hpostSimple hrest.2.1
    exact .of_target rfl (RunAlike.loop ⟨hsimple, hinit, hresolved.1⟩
      ⟨hpostSimple, hpost, hdeclares, hmarks⟩ hrun)

theorem range_runsLike {key value x : Expr} {kind : RangeKind}
    (h : ((StmtForm.range key value kind x body).convert ctx pos).problems = [])
    (hcovered : (StmtForm.range key value kind x body).Covered)
    (hbody : stmtsRunLike L ctx n [] body) :
    (Stmt.mk pos (.range key value kind x body)).RunsLike L ctx n scope
      ((StmtForm.range key value kind x body).convert ctx pos).value := by
  simp only [StmtForm.convert, problems_bind_eq_nil, problems_check] at h
  obtain ⟨-, hbodyProblems, hrest⟩ := h
  simp only [StmtForm.convert, Noted.value_bind]
  cases hit : ctx.iteration x with
  | error reason =>
      rw [hit] at hrest
      exact absurd hrest (problems_note x.pos _ _)
  | ok it => exact .of_target rfl (RunAlike.range hit hcovered.1 (hbody hbodyProblems))

theorem labeled_runsLike {label : Ident} {stmt : Stmt} (htarget : stmt.isTarget = true)
    (h : stmt.RunsLike L ctx n scope (stmt.convert ctx).value) :
    (Stmt.mk pos (.labeled label stmt)).RunsLike L ctx n scope
      ((StmtForm.labeled label stmt).convert ctx pos).value := by
  obtain ⟨f, hf, -, hrun⟩ := h.target htarget
  simp only [StmtForm.convert, Noted.value_bind, hf]
  refine .of_target rfl fun labels names => ?_
  rw [Flow.perform]
  exact (hrun _ names).labeled label.name

end Forms

mutual

/-- A statement that is converted without problems runs like what it becomes. -/
theorem Stmt.runsLike_convert (stmt : Stmt) (h : (stmt.convert ctx).problems = [])
    (hcovered : stmt.Covered) {scope : List String} (hresolved : stmt.Resolved scope) :
    stmt.RunsLike L ctx n scope (stmt.convert ctx).value := by
  cases stmt with
  | missing => exact .of_listed rfl fun _ => .pure ⟨rfl, rfl⟩
  | mk pos form => exact form.runsLike_convert pos h hcovered hresolved

theorem StmtForm.runsLike_convert (form : StmtForm) (pos : Pos)
    (h : (form.convert ctx pos).problems = []) (hcovered : form.Covered) {scope : List String}
    (hresolved : form.Resolved scope) :
    (Stmt.mk pos form).RunsLike L ctx n scope (form.convert ctx pos).value := by
  have hsimple : (Stmt.mk pos form).isSimple = true → (Stmt.mk pos form).isTarget = false →
      (Stmt.mk pos form).RunsLike L ctx n scope (form.convert ctx pos).value :=
    fun hsimple htarget => .of_listed htarget fun names =>
      (Stmt.simple_alike hsimple hcovered hresolved names).mono fun _ _ => Normally.endAlike
  cases form with
  | empty | expr | incDec | assign => exact hsimple rfl rfl
  | ret results => exact .of_listed rfl (ret_alike h hcovered)
  | branch kind label => exact .of_listed rfl (branch_alike h)
  | block body =>
      refine .of_target rfl fun labels names => ?_
      rw [Flow.perform]
      exact .within (stmts_runLike body hcovered hresolved (problems_bind_eq_nil.mp h).1 names)
  | ite init cond body other =>
      obtain ⟨-, -, hbody, hother, -⟩ := id hcovered
      exact ite_runsLike h hcovered hresolved (stmts_runLike body hbody hresolved.2.1)
        fun h => other.runsLike_convert h hother hresolved.2.2
  | switch init tag clauses =>
      exact switch_runsLike h hcovered hresolved fun h i =>
        clauses_alike i clauses h hcovered.2.2 hresolved.2
  | loop init cond post body =>
      obtain ⟨-, -, -, -, -, hbody⟩ := id hcovered
      exact loop_runsLike h hcovered hresolved (stmts_runLike body hbody hresolved.2)
  | range key value kind x body =>
      exact range_runsLike h hcovered (stmts_runLike body hcovered.2 hresolved)
  | labeled label stmt =>
      exact labeled_runsLike hcovered.2
        (stmt.runsLike_convert (problems_bind_eq_nil.mp h).1 hcovered.1 hresolved)
  | decl kind specs =>
      cases kind with
      | var =>
          exact .of_listed rfl fun names =>
            (execSpecs_alike hcovered hresolved names).mono fun _ _ => Normally.endAlike
      | _ => exact hcovered.elim
  | _ => exact hcovered.elim

theorem stmts_runLike (ss : List Stmt) (hcovered : stmtsCovered ss) {scope : List String}
    (hresolved : stmtsResolved scope ss) : stmtsRunLike L ctx n scope ss := by
  intro h names
  cases ss with
  | nil => exact .pure ⟨rfl, rfl⟩
  | cons stmt ss =>
      simp only [convertStmts, problems_bind_eq_nil] at h
      obtain ⟨hstmt, hrest, -⟩ := h
      simp only [convertStmts, Noted.value_bind, Noted.value_pure]
      exact (stmt.runsLike_convert hstmt hcovered.1 hresolved.1).followed
        (fun _ _ hce _ => hce) (stmts_runLike ss hcovered.2 hresolved.2 hrest) names

theorem arm_alike (ss : List Stmt) (h : (convertArm ctx ss).problems = [])
    (hcovered : stmtsCovered ss) {scope : List String} (hresolved : stmtsResolved scope ss)
    (names : L.Names) :
    Domain.Alike (fun a b => a.1.ClosesLike b.1 ∧ a.2 = b.2)
      (execStmts L ctx.qualify n scope ss names)
      (Flow.performAll L ctx.runtime n (convertArm ctx ss).value names) := by
  cases ss with
  | nil => exact .pure ⟨rfl, rfl⟩
  | cons stmt ss =>
      obtain ⟨pos, label, rfl, rfl⟩ | hcons := convertArm_cons ctx stmt ss
      · exact .pure ⟨rfl, rfl⟩
      · simp only [hcons, problems_bind_eq_nil] at h
        obtain ⟨hstmt, hrest, -⟩ := h
        simp only [hcons, Noted.value_bind, Noted.value_pure]
        exact (stmt.runsLike_convert hstmt hcovered.1 hresolved.1).followed
          (fun _ _ => Completion.EndsLike.closesLike)
          (arm_alike ss hrest hcovered.2 hresolved.2) names

theorem clauses_alike (i : Nat) (cs : List Clause) (h : (convertClauses ctx cs).problems = [])
    (hcovered : clausesCovered cs) (hresolved : clausesResolved cs) (names : L.Names) :
    Domain.Alike Completion.EndsLike (execClauses L ctx.qualify n i cs names)
      (Flow.performCases L ctx.runtime n i (convertClauses ctx cs).value names) := by
  cases cs with
  | nil => exact .pure rfl
  | cons c cs =>
      simp only [convertClauses, problems_bind_eq_nil] at h
      obtain ⟨hclause, hrest, -⟩ := h
      simp only [convertClauses, Noted.value_bind, Noted.value_pure]
      cases i with
      | succ i => exact clauses_alike i cs hrest hcovered.2 hresolved.2 names
      | zero =>
          rw [execClauses, Flow.performCases]
          refine (c.alike_convert hclause hcovered.1 hresolved.1 names).bind fun c' e hce => ?_
          cases c' with
          | fall =>
              obtain rfl := hce
              exact clauses_alike 0 cs hrest hcovered.2 hresolved.2 names
          | normal =>
              obtain rfl := hce
              exact .pure rfl
          | brk label =>
              obtain rfl := hce
              exact .pure (Completion.EndsLike.leave (c := .brk label) rfl "")
          | _ =>
              obtain rfl := hce
              exact .pure rfl

theorem Clause.alike_convert (c : Clause) (h : (c.convert ctx).problems = [])
    (hcovered : c.Covered) (hresolved : c.Resolved) (names : L.Names) :
    Domain.Alike Completion.ClosesLike (c.exec L ctx.qualify n names)
      ((c.convert ctx).value.perform L ctx.runtime n names) := by
  cases c with
  | case values body =>
      obtain ⟨-, hbody, -⟩ := by simpa only [Clause.convert, problems_bind_eq_nil] using h
      exact (arm_alike body hbody hcovered hresolved names).bind fun _ _ hab => .pure hab.1
  | default body =>
      exact (arm_alike body (problems_bind_eq_nil.mp h).1 hcovered hresolved names).bind
        fun _ _ hab => .pure hab.1

end

end Statements

section Generators

theorem eraseFields_eq_map (fs : List Field) : eraseFields fs = fs.map Field.erase := by
  induction fs with
  | nil => rfl
  | cons f fs ih => rw [eraseFields, ih, List.map_cons]

theorem Fields.toList_erase (fs : Fields) : fs.erase.toList = fs.toList.map Field.erase := by
  cases fs with
  | absent => rfl
  | list fs => exact eraseFields_eq_map fs

theorem Field.names_erase (f : Field) : f.erase.names = identNames f.names := by
  cases f
  rfl

/-- The receiver and the parameters of a routine are those of the function. -/
theorem Func.fields_routine (f : Func) (runtime : String) (qualify : PackageRef → String)
    (holder : String) (element : Ty) (body : List Stmt) :
    let fn := (f.routine runtime qualify holder element body).value
    fn.recv.toList ++ fn.params.toList =
      (f.receiver?.toList ++ f.signature.params.toList).map Field.erase := by
  have hrecv : (f.routine runtime qualify holder element body).value.recv =
      f.receiver?.map Field.erase := by
    unfold Func.routine
    cases f.receiver? <;> rfl
  have hparams : (f.routine runtime qualify holder element body).value.params =
      f.signature.params.erase := by
    unfold Func.routine
    cases f.receiver? <;> rfl
  show _ ++ _ = _
  rw [hrecv, hparams, Fields.toList_erase, List.map_append]
  cases f.receiver? <;> rfl

/-- The conversion keeps the parameters. -/
theorem Func.parameters_routine (f : Func) (runtime : String) (qualify : PackageRef → String)
    (holder : String) (element : Ty) (body : List Stmt) :
    (f.routine runtime qualify holder element body).value.parameters = f.parameters := by
  have hfields := f.fields_routine runtime qualify holder element body
  simp only at hfields
  rw [Routine.parameters, Func.parameters, hfields, List.flatMap_map, identNames,
    List.map_flatMap]
  simp only [Field.names_erase, identNames]

theorem Func.runtime_routine (f : Func) (runtime : String) (qualify : PackageRef → String)
    (holder : String) (element : Ty) (body : List Stmt) :
    (f.routine runtime qualify holder element body).value.runtime = runtime := by
  unfold Func.routine
  cases f.receiver? <;> rfl

/-- The body `for i := 0; i < 3; i++ { switch i { case 0: Yield(1); fallthrough; default: } }`,
and `return nil` after it. -/
def fallsThrough : List Stmt :=
  let i (defines : Bool) := untyped (.ident
    ⟨"i", ⟨6, 6⟩, some ⟨0, defines, "i", "example.com/sample", some (.basic "int")⟩⟩)
  [.mk ⟨6, 2⟩ (.loop
    (.mk ⟨6, 6⟩ (.assign .define [i true] [untyped (.lit .int "0")]))
    (untyped (.binary .lt (i false) (untyped (.lit .int "3"))))
    (.mk ⟨6, 20⟩ (.incDec true (i false)))
    [.mk ⟨7, 3⟩ (.switch .missing (i false)
      [.case [untyped (.lit .int "0")]
        [.mk ⟨8, 4⟩ (.expr yieldOne), .mk ⟨9, 4⟩ (.branch .fallthrough none)],
      .default []])]), returnNil]

end Generators

end YieldMachine.Source
