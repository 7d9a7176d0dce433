import YieldMachine.Proofs.Scope.Shadow
import YieldMachine.Proofs.Simulation.Positions

/-!
# What the parts of lowering mean

One statement for each part of lowering that is no recursion over a body: how the table
runs what was appended, compared with what the body does there.
-/

namespace YieldMachine

open Lowering Behaviour

variable {S : Setting} {g : Ground} {d d' : Draft} {current rounds : Nat} {env : StateEnv}
  {p : Place}

theorem inScope_pure {α : Type} (a : α) (m : Memory) :
    inScope (pure a : Eff Memory α) m = .ok a m := by
  simp only [inScope]
  rfl

/-- What copying a statement into a state appends. -/
theorem verbatim_ok {flow : Flow} (h : verbatim flow current env d = .ok ((), d')) :
    ∃ stmt, flow.toStmt? = some stmt ∧
      (stmt = .empty ∧ d' = d ∨
        d' = d.append current (.exec (stmt.rename receiverName env.renames).1)) := by
  unfold verbatim at h
  cases hstmt : flow.toStmt? with
  | none =>
      rw [hstmt] at h
      cases h
  | some stmt =>
      rw [hstmt] at h
      refine ⟨stmt, rfl, ?_⟩
      cases stmt with
      | missing => cases h
      | empty =>
          cases h
          exact .inl ⟨rfl, rfl⟩
      | _ =>
          cases h
          exact .inr rfl

/-- A statement that is copied into a state. -/
theorem verbatim_simulated (hS : S.Ready) {flow : Flow} (hreg : flow.Regular p)
    (hplain : flow.Plain S.session.runtime p.scopes) (hflow : flow.modifiesControlFlow = false)
    (hdecl : flow.isDeclare = false)
    (hr : Resolves g [] (p.scopes.visible S.session.runtime) env.renames)
    (hlow : verbatim flow current env d = .ok ((), d')) (hcurrent : current < d.size)
    (hwithin : d'.Within S.states S.fields) {K : Ending → Memory → Course Ending}
    (hnormal : ∀ m mt, Linked g [] m mt →
      S.Sim rounds (K .normal m) (S.resume current (d'.ops current).length mt))
    {m mt : Memory} (hm : Linked g [] m mt) :
    S.Sim rounds ((flow.exec S.session S.turns [] m).bind K)
      (S.resume current (d.ops current).length mt) := by
  obtain ⟨stmt, hstmt, hd⟩ := verbatim_ok hlow
  have hscope : Resolves g oneScope (p.scopes.visible S.session.runtime) env.renames :=
    hr.push rfl
  have hmirrors := (Flow.exec_mirrors (n := S.turns) hscope hS.recv hS.runtime flow hreg hplain
    hflow hstmt (by simp [hdecl])).withEnds (flow.exec_normal S.session S.turns hreg hflow)
  have htracks := Mirrors.inTable (P := fun c _ => c = .normal)
    (hmirrors.mono (fun _ _ h => h) fun c ctl m mt h => ⟨h.1, h.2.2.closes⟩) m mt hm
  have hrun : S.resume current (d.ops current).length mt =
      after (inScope ((stmt.rename receiverName env.renames).1.exec S.session S.turns))
        (fun _ => S.resume current (d'.ops current).length) mt := by
    rcases hd with ⟨rfl, rfl⟩ | rfl
    · simp only [Stmt.rename, Stmt.exec, after, inScope_pure]
    · exact Setting.resume_exec hcurrent hwithin
  rw [hrun]
  refine Course.Simulated.tracks htracks ?_
  rintro c ctl m' mt' ⟨rfl, hm'⟩
  exact hnormal m' mt' hm'

/-- The operation that resets a field. -/
def resetOp (field : Expr × Expr) : Op :=
  .exec (.assign .set [field.1] [.star (.call (.name "new") [field.2] false)])

theorem resetFields_ok {fresh : List (Expr × Expr)} (hcurrent : current < d.size)
    (h : resetFields current fresh d = .ok ((), d')) :
    d'.ops current = d.ops current ++ fresh.map resetOp ∧ d'.used = d.used ∧
      d'.fields = d.fields := by
  induction fresh generalizing d with
  | nil =>
      cases h
      simp
  | cons field fresh ih =>
      have hsize : current < (d.append current (resetOp field)).size := by simpa using hcurrent
      obtain ⟨hops, hused, hfields⟩ := ih hsize h
      rw [hops, hused, hfields, Draft.ops_append_self hcurrent]
      simp [Draft.append]

theorem running_resets {q : Nat} (fresh : List (Expr × Expr)) (ops : List Op) (m : Memory) :
    running S.session S.states S.turns q (fresh.map resetOp ++ ops) m =
      after (resetAll S.session S.turns fresh)
        (fun _ => running S.session S.states S.turns q ops) m := by
  induction fresh generalizing m with
  | nil => rfl
  | cons field fresh ih =>
      obtain ⟨field, type⟩ := field
      rw [List.map_cons, List.cons_append, resetOp, running_exec, resetAll, after_bind]
      exact after_congr _ (fun _ m => ih m) m

/-- What lowering a declaration appends. -/
theorem VarDecl.lower_ok {decl : VarDecl} {env' : StateEnv}
    (h : decl.lower current env d = .ok (env', d')) (hcurrent : current < d.size) :
    ∃ lhs fresh d₁, hoistNames decl env 0 decl.names env d = .ok ((lhs, fresh, env'), d₁) ∧
      d'.used = d₁.used ∧ d'.fields = d₁.fields ∧
      d'.ops current = d.ops current ++
        if decl.values.isEmpty then fresh.map resetOp
        else [.exec (.assign .set lhs (decl.values.map env.resolve))] := by
  unfold VarDecl.lower at h
  rw [bind_ok] at h
  obtain ⟨⟨lhs, fresh, inner⟩, d₁, hhoist, h⟩ := h
  have hstates := ((hoistNames_ensures (E := fun _ => True) (.inl trivial) env).ok hhoist).1.1
  have hsize : current < d₁.size := by
    rw [Draft.size, hstates]
    exact hcurrent
  by_cases hvalues : decl.values.isEmpty = true
  · simp only [hvalues, if_true, bind_ok] at h ⊢
    obtain ⟨⟨⟩, d₂, hreset, hpure⟩ := h
    cases hpure
    obtain ⟨hops, hused, hfields⟩ := resetFields_ok hsize hreset
    refine ⟨lhs, fresh, d₁, hhoist, hused, hfields, ?_⟩
    rw [hops, Draft.ops_of_states hstates]
  · simp only [hvalues] at h ⊢
    cases h
    refine ⟨lhs, fresh, d₁, hhoist, rfl, rfl, ?_⟩
    rw [← Draft.ops_of_states hstates]
    exact Draft.ops_append_self hsize _

/-- A declaration whose variables get fields. -/
theorem VarDecl.lower_simulated (hS : S.Ready) {decl : VarDecl} {env' : StateEnv}
    (hreg : decl.Regular p.scopes) (hplain : decl.Plain (p.scopes.visible S.session.runtime))
    (hlow : decl.lower current env d = .ok (env', d')) (hcurrent : current < d.size)
    (hwithin : d'.Within S.states S.fields)
    (hfits : g.Fits (p.scopes.visible S.session.runtime) env d) (hg : g.fields = S.fields) :
    ∃ g', g'.Fits ((p.scopes.declare decl.fresh).visible S.session.runtime) env' d' ∧
      g'.pop = g.pop ∧
      ∀ {rounds : Nat} {f : Unit → Memory → Course Ending},
        (∀ m mt, Linked g' [] m mt →
          S.Sim rounds (f () m) (S.resume current (d'.ops current).length mt)) →
        ∀ {m mt}, Linked g [] m mt →
          S.Sim rounds ((Course.ofResult (decl.run S.session m)).bind f)
            (S.resume current (d.ops current).length mt) := by
  obtain ⟨lhs, fresh, d₁, hhoist, hused, hfields, hops⟩ := VarDecl.lower_ok hlow hcurrent
  have hvars : ∀ x ∈ (p.scopes.visible S.session.runtime).vars,
      x ∈ ((p.scopes.declare decl.fresh).visible S.session.runtime).vars :=
    fun x hx => (Scopes.mem_declare p.scopes decl.fresh x).mpr (.inr hx)
  obtain ⟨g', hfits', hh⟩ := hoistNames_hoisted hS.recv S.turns hhoist hfits.resolves
    (hfits.mono rfl (List.suffix_refl _) hvars) (fun _ _ _ => rfl) hplain.1 hreg.2.1
    (fun x hx => (Scopes.mem_declare p.scopes decl.fresh x).mpr (.inl hx))
    (by rw [hg, ← hfields]; exact hwithin.fields)
  refine ⟨g', hfits'.mono rfl (by rw [hused]) fun _ hx => hx, hh.pop, ?_⟩
  intro rounds f hrest m mt hm
  unfold Setting.resume at hrest ⊢
  rw [hwithin.drop_eq hops]
  by_cases hvalues : decl.values = []
  · have hzero := hh.zeros fun j type htype uses =>
      zeroValue_resolveShared hfits.resolves (hplain.2.2 hvalues j type htype) uses
    simp only [hvalues, List.isEmpty_nil, if_true]
    rw [running_resets, VarDecl.run_of_nil _ hvalues]
    exact Course.Simulated.lift (hzero m mt hm) fun _ => hrest
  · have hempty : decl.values.isEmpty = false := by simpa using hvalues
    have hsync := hh.assign_sync hS.recv rfl hfits.resolves hplain.2.1
    rw [← bind_assoc, ← VarDecl.run_of_values _ hvalues] at hsync
    have hrun : (Course.ofResult (decl.run S.session m)).bind f =
        (Course.ofResult ((do
          decl.run S.session
          pure Control.normal : Eff Memory Control) m)).bind fun _ => f () := by
      rw [eff_bind_apply]
      cases decl.run S.session m <;> rfl
    simp only [hempty, Bool.false_eq_true, if_false, List.singleton_append]
    rw [running_exec, hrun]
    exact Course.Simulated.lift (hsync m mt hm) fun _ => hrest

/-- A jump at the end of a state. -/
theorem jump_simulated {α : Type} (hS : S.Ready) {t : Course α} {goal : Nat} {mt : Memory}
    (hcurrent : current < d.size)
    (hwithin : (d.append current (.jump goal .missing)).Within S.states S.fields)
    (h : S.Sim rounds t (S.enter goal mt)) :
    S.Sim rounds t (S.resume current (d.ops current).length mt) := by
  rw [Setting.resume_jump hS hcurrent hwithin]
  exact h

theorem condition_of_written {s : Session} {cond : Expr} (h : cond.isMissing = false) :
    condition s cond = holds s cond := by
  rw [condition_eq, if_neg (by simp [h])]
  rfl

/-- A conditional jump that another jump follows. -/
theorem resume_when {cond : Expr} {body exit : Nat} (hS : S.Ready) (hcurrent : current < d.size)
    (hwithin : ((d.append current (.when cond [.jump body .missing])).append current
      (.jump exit .missing)).Within S.states S.fields) (mt : Memory) :
    S.resume current (d.ops current).length mt =
      after (holds S.session cond) (fun b => S.enter (if b then body else exit)) mt := by
  have hsize : current < (d.append current (.when cond [.jump body .missing])).size := by
    simpa using hcurrent
  have hexit : exit < S.states.length :=
    hS.jump_lt hsize hwithin .missing (by simp [Op.parts])
  have hbody : body < S.states.length :=
    hS.jump_lt hcurrent hwithin.of_append .missing (by simp [Op.parts, opsParts])
  unfold Setting.resume
  rw [hwithin.of_append.drop_append hcurrent, hwithin.drop_append hsize, running_when]
  refine after_congr _ (fun b m => ?_) mt
  cases b with
  | false => exact running_jump hexit _ m
  | true => exact running_jump hbody _ m

/-- The condition state of a loop. -/
theorem lowerTest_resume {c : Visible} (hS : S.Ready) {cond : Expr} {state body exit : Nat}
    (hr : Resolves g [] c env.renames)
    (hlow : lowerTest state cond body exit env d = .ok ((), d')) (hstate : state < d.size)
    (hempty : d.ops state = []) (hwithin : d'.Within S.states S.fields) (mt : Memory) :
    S.resume state 0 mt =
      after (condition S.session (env.resolve cond))
        (fun b => S.enter (if b then body else exit)) mt := by
  have hposition : S.resume state 0 mt = S.resume state (d.ops state).length mt := by
    rw [hempty]
    rfl
  rw [hposition]
  cases hmissing : cond.isMissing with
  | true =>
      obtain rfl : cond = .missing := by
        cases cond <;> first | rfl | cases hmissing
      cases hlow
      rw [Setting.resume_jump hS hstate hwithin]
      rfl
  | false =>
      have hd : d' = (d.append state (.when (env.resolve cond) [.jump body .missing])).append
          state (.jump exit .missing) := by
        cases cond with
        | missing => cases hmissing
        | _ =>
            cases hlow
            rfl
      subst hd
      rw [resume_when hS hstate hwithin, condition_of_written]
      rw [← hmissing]
      exact isMissing_rename hr cond

/-- The end of a block. -/
theorem closeBlock_simulated {α : Type} (hS : S.Ready) {t : Course α} {cont : Nat}
    {mt : Memory} (hready : d.Ready current)
    (hlow : closeBlock current cont env d = .ok ((), d')) (hwithin : d'.Within S.states S.fields)
    (h : S.Sim rounds t (S.enter env.next mt)) :
    S.Sim rounds t (S.resume current (d.ops current).length mt) := by
  have hd : d' = (d.append current (.jump env.next .missing)).append cont
      (.jump env.next .missing) := by
    unfold closeBlock at hlow
    rw [bind_ok] at hlow
    obtain ⟨b, d₁, hterm, hlow⟩ := hlow
    obtain ⟨rfl, rfl⟩ : b = opsTerminate (d.states.getD current []) ∧ d₁ = d := by
      cases hterm
      exact ⟨rfl, rfl⟩
    rw [hready.terminated] at hlow
    cases hlow
    rfl
  subst hd
  exact jump_simulated hS hready.lt hwithin.of_append h

end YieldMachine
