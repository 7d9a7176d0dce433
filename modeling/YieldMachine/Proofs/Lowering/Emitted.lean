import Mathlib.Data.List.Forall2
import YieldMachine.Proofs.Lowering.Quiet
import YieldMachine.Proofs.Lowering.Total

/-!
# Operations of a table

What lowering adds to the states of a draft: one jump with a value for each yield, in any
order, assignments of its own, and copies of statements, which have every property that the
copied trees have.
-/

namespace YieldMachine

open Lowering Draft

/-- The value that an expression gives, none if it is missing. -/
def Expr.given : Expr → List Expr
  | .missing => []
  | e => [e]

theorem Expr.given_of_ne {e : Expr} (h : e ≠ .missing) : e.given = [e] := by
  cases e with
  | missing => exact absurd rfl h
  | _ => rfl

mutual

/-- The values that the yields of a statement produce. -/
def Flow.yields : Flow → List Expr
  | .yield value => value.given
  | .block body => flowsYields body
  | .ite _ body other => flowsYields body ++ other.yields
  | .while _ body => flowsYields body
  | .doWhile body _ => flowsYields body
  | .loop init _ post body => init.yields ++ flowsYields body ++ post.yields
  | .walk _ body => flowsYields body
  | .switch _ cases => casesYields cases
  | .labeled _ stmt => stmt.yields
  | _ => []

/-- The values that the yields of statements produce. -/
def flowsYields : List Flow → List Expr
  | [] => []
  | s :: ss => s.yields ++ flowsYields ss

/-- The values that the yields of the cases of a switch produce. -/
def casesYields : List FlowCase → List Expr
  | [] => []
  | c :: cs => c.yields ++ casesYields cs

/-- The values that the yields of a case produce. -/
def FlowCase.yields : FlowCase → List Expr
  | .case _ body => flowsYields body
  | .default body => flowsYields body

end

theorem flowsYields_append (fs gs : List Flow) :
    flowsYields (fs ++ gs) = flowsYields fs ++ flowsYields gs := by
  induction fs with
  | nil => rfl
  | cons f fs ih => simp [flowsYields, ih]

theorem flowsQuiet_append {fs gs : List Flow} :
    flowsQuiet (fs ++ gs) ↔ flowsQuiet fs ∧ flowsQuiet gs := by
  induction fs with
  | nil => simp [flowsQuiet]
  | cons f fs ih => simp [flowsQuiet, ih, and_assoc]

theorem Flow.QuietPart.yields {part : Flow} (h : part.QuietPart) : part.yields = [] := by
  cases part with
  | missing => rfl
  | declare d => rfl
  | simple stmt => rfl
  | _ => exact h.elim

mutual

/-- A statement that stays as it is has no yields. -/
theorem Flow.yields_of_escapes {inside : Bound} (flow : Flow) (hquiet : flow.Quiet)
    (hesc : flow.escapes inside = false) : flow.yields = [] := by
  cases flow with
  | yield value => cases hesc
  | block body => exact flowsYields_of_escapes body hquiet hesc
  | «while» cond body => exact flowsYields_of_escapes body hquiet hesc
  | doWhile body cond => exact flowsYields_of_escapes body hquiet hesc
  | walk header body => exact flowsYields_of_escapes body hquiet hesc
  | switch tag cases => exact casesYields_of_escapes cases hquiet hesc
  | labeled label stmt => exact stmt.yields_of_escapes hquiet hesc
  | ite cond body other =>
      simp only [Flow.escapes, Bool.or_eq_false_iff] at hesc
      simp only [Flow.yields, flowsYields_of_escapes body hquiet.1 hesc.1,
        other.yields_of_escapes hquiet.2 hesc.2, List.append_nil]
  | loop init cond post body =>
      simp only [Flow.yields, hquiet.1.yields, hquiet.2.1.yields,
        flowsYields_of_escapes body hquiet.2.2 hesc, List.append_nil]
  | _ => rfl

theorem flowsYields_of_escapes {inside : Bound} (fs : List Flow) (hquiet : flowsQuiet fs)
    (hesc : anyEscapes inside fs = false) : flowsYields fs = [] := by
  cases fs with
  | nil => rfl
  | cons f fs =>
      simp only [anyEscapes, Bool.or_eq_false_iff] at hesc
      simp only [flowsYields, f.yields_of_escapes hquiet.1 hesc.1,
        flowsYields_of_escapes fs hquiet.2 hesc.2, List.append_nil]

theorem casesYields_of_escapes {inside : Bound} (cases' : List FlowCase)
    (hquiet : casesQuiet cases') (hesc : anyCaseEscapes inside cases' = false) :
    casesYields cases' = [] := by
  cases cases' with
  | nil => rfl
  | cons c cs =>
      simp only [anyCaseEscapes, Bool.or_eq_false_iff] at hesc
      simp only [casesYields, c.yields_of_escapes hquiet.1 hesc.1,
        casesYields_of_escapes cs hquiet.2 hesc.2, List.append_nil]

theorem FlowCase.yields_of_escapes {inside : Bound} (c : FlowCase) (hquiet : c.Quiet)
    (hesc : c.escapes inside = false) : c.yields = [] := by
  cases c with
  | case values body => exact flowsYields_of_escapes body hquiet hesc
  | default body => exact flowsYields_of_escapes body hquiet hesc

end

/-- The value of a jump that carries one. -/
def Op.carried : Op → List Expr
  | .jump _ value => value.given
  | _ => []

/-- Whether an operation is not a statement that returns. -/
def Op.Stays : Op → Prop
  | .exec stmt => stmt.returns = false
  | _ => True

/-- Whether an operation has a property of statements, if it executes one. -/
def Op.Executes (W : Stmt → Prop) : Op → Prop
  | .exec stmt => W stmt
  | _ => True

/-- Whether a property of statements holds of the assignments that lowering makes, and stays
where names are replaced. -/
structure Lasting (W : Stmt → Prop) : Prop where
  assign (lhs rhs : List Expr) : W (.assign .set lhs rhs)
  rename {stmt : Stmt} (h : W stmt) (r : Renames) : W (stmt.rename receiverName r).1

/-- Whether the trees that lowering copies of a statement, or of the last part of its header, have
a property. -/
structure Flow.Copies (W : Stmt → Prop) (s : Flow) : Prop where
  kept : s.isDeclare = false → s.modifiesControlFlow = false →
    ∀ stmt, s.toStmt? = some stmt → W stmt
  simple : ∀ stmt, s = .simple stmt → W stmt
  post : ∀ init cond post body, s = .loop init cond post body →
    ∀ stmt, post.toStmt? = some stmt → W stmt

/-- Whether a statement does not return is kept. -/
theorem Lasting.of_returns : Lasting fun stmt => stmt.returns = false :=
  ⟨fun _ _ => rfl, fun h r => by rwa [Stmt.returns_rename]⟩

/-- What is copied of a quiet statement does not return. -/
theorem Flow.Quiet.copies {s : Flow} (h : s.Quiet) : s.Copies fun stmt => stmt.returns = false where
  kept _ hesc _ hstmt := s.returns_toStmt h hesc hstmt
  simple := by
    rintro stmt rfl
    exact h
  post := by
    rintro init cond post body rfl stmt hstmt
    obtain ⟨-, hpost, -⟩ := h
    cases post with
    | missing => cases hstmt
    | _ => exact hpost.returns hstmt

theorem Op.stays_of_executes {op : Op} (h : op.Executes fun stmt => stmt.returns = false) :
    op.Stays := by
  cases op with
  | exec stmt => exact h
  | _ => trivial

/-- The operations of a table, with those inside others. -/
def tableOps (states : List (List Op)) : List Op := states.flatMap opsParts

/-- Whether an expression is another one with some of its names replaced. -/
def Expr.Renamed (value e : Expr) : Prop := ∃ renames, value = e.rename receiverName renames

/-- Whether the statements of operations have a property, and the operations carry the values,
renamed, in any order. -/
structure Carries (W : Stmt → Prop) (ops : List Op) (values : List Expr) : Prop where
  executes : ∀ op ∈ ops, op.Executes W
  carried : ∃ vs, List.Perm (ops.flatMap Op.carried) vs ∧ List.Forall₂ Expr.Renamed vs values

namespace Carries

variable {W : Stmt → Prop}

theorem nil : Carries W [] [] := ⟨nofun, [], .nil, .nil⟩

theorem append {ops others : List Op} {ys zs : List Expr} (h : Carries W ops ys)
    (h' : Carries W others zs) : Carries W (ops ++ others) (ys ++ zs) := by
  obtain ⟨vs, hperm, hvs⟩ := h.carried
  obtain ⟨ws, hperm', hws⟩ := h'.carried
  refine ⟨fun op hop => ?_, vs ++ ws, ?_, List.rel_append hvs hws⟩
  · exact (List.mem_append.mp hop).elim (h.executes op) (h'.executes op)
  · rw [List.flatMap_append]
    exact hperm.append hperm'

theorem perm {ops others : List Op} {ys : List Expr} (h : Carries W ops ys)
    (hperm : List.Perm others ops) : Carries W others ys := by
  obtain ⟨vs, hvs, hrenamed⟩ := h.carried
  exact ⟨fun op hop => h.executes op (hperm.mem_iff.mp hop), vs,
    (hperm.flatMap_right Op.carried).trans hvs, hrenamed⟩

/-- Operations without values. -/
theorem of_executes {ops : List Op} (h : ∀ op ∈ ops, op.Executes W)
    (hnone : ∀ op ∈ ops, op.carried = []) : Carries W ops [] :=
  ⟨h, [], by rw [List.flatMap_eq_nil_iff.mpr hnone], .nil⟩

theorem exec {stmt : Stmt} (h : W stmt) : Carries W (Op.exec stmt).parts [] :=
  of_executes (by simpa [Op.parts, Op.Executes] using h) (by simp [Op.parts, Op.carried])

theorem jump (goal : Nat) : Carries W (Op.jump goal .missing).parts [] :=
  of_executes (by simp [Op.parts, Op.Executes]) (by simp [Op.parts, Op.carried, Expr.given])

theorem when (cond : Expr) {ops : List Op} (h : Carries W (opsParts ops) []) :
    Carries W (Op.when cond ops).parts [] := by
  have hself : Carries W [.when cond ops] [] :=
    of_executes (by simp [Op.Executes]) (by simp [Op.carried])
  exact hself.append h

theorem choose (cond : Expr) {ops others : List Op} (h : Carries W (opsParts ops) [])
    (h' : Carries W (opsParts others) []) : Carries W (Op.choose cond ops others).parts [] := by
  have hself : Carries W [.choose cond ops others] [] :=
    of_executes (by simp [Op.Executes]) (by simp [Op.carried])
  exact hself.append (h.append h')

theorem dispatch (tag : Expr) {arms : List Arm} (h : Carries W (armsParts arms) []) :
    Carries W (Op.dispatch tag arms).parts [] := by
  have hself : Carries W [.dispatch tag arms] [] :=
    of_executes (by simp [Op.Executes]) (by simp [Op.carried])
  exact hself.append h

theorem cons {op : Op} {ops : List Op} (h : Carries W op.parts [])
    (h' : Carries W (opsParts ops) []) :
    Carries W (opsParts (op :: ops)) [] := h.append h'

theorem jumps (goal : Nat) : Carries W (opsParts [.jump goal .missing]) [] := (jump goal).cons nil

end Carries

theorem Renames.apply_ne_missing (r : Renames) (recv x : String) : r.apply recv x ≠ .missing := by
  unfold Renames.apply Target.toExpr
  repeat' split
  all_goals nofun

/-- Replacing names leaves something of an expression that is written. -/
theorem Expr.rename_eq_missing {recv : String} {r : Renames} {e : Expr} :
    e.rename recv r = .missing ↔ e = .missing := by
  refine ⟨fun h => ?_, fun h => by rw [h]; rfl⟩
  cases e with
  | missing => rfl
  | ident name kept =>
      cases kept with
      | true => cases h
      | false => exact absurd h (r.apply_ne_missing recv name)
  | func signature body =>
      obtain ⟨typeParams, params, results⟩ := signature
      cases h
  | _ => cases h

/-- The jump of a yield carries its value. -/
theorem Carries.yield {W : Stmt → Prop} (goal : Nat) (r : Renames) (e : Expr) :
    Carries W (Op.jump goal (e.rename receiverName r)).parts e.given := by
  by_cases he : e = .missing
  · subst he
    exact jump goal
  · have hne : e.rename receiverName r ≠ .missing := by rwa [Ne, Expr.rename_eq_missing]
    refine ⟨by simp [Op.parts, Op.Executes], [e.rename receiverName r], ?_, ?_⟩
    · simp [Op.parts, Op.carried, Expr.given_of_ne hne]
    · rw [Expr.given_of_ne he]
      exact .cons ⟨r, rfl⟩ .nil

/-- An operation that is added to a state is added to the table. -/
theorem tableOps_modify {states : List (List Op)} {q : Nat} (hq : q < states.length) (op : Op) :
    List.Perm (tableOps (states.modify q (· ++ [op]))) (tableOps states ++ op.parts) := by
  induction states generalizing q with
  | nil => simp at hq
  | cons ops states ih =>
      cases q with
      | zero =>
          simp only [tableOps, List.modify_zero_cons, List.flatMap_cons, opsParts_append, opsParts,
            List.append_nil, List.append_assoc]
          exact List.perm_append_comm.append_left _
      | succ q =>
          simp only [tableOps, List.modify_succ_cons, List.flatMap_cons, List.append_assoc]
          exact (ih (Nat.lt_of_succ_lt_succ hq)).append_left _

namespace Draft

/-- Whether a draft has grown by operations that carry the values, and whose statements have a
property. -/
def Emits (W : Stmt → Prop) (ys : List Expr) (d d' : Draft) : Prop :=
  d.size ≤ d'.size ∧
    ∃ added, List.Perm (tableOps d'.states) (tableOps d.states ++ added) ∧ Carries W added ys

namespace Emits

variable {W : Stmt → Prop} {d d' d'' : Draft} {ys zs : List Expr}

theorem of_states (h : d'.states = d.states) : Emits W [] d d' :=
  ⟨by rw [size, size, h], [], by rw [h, List.append_nil], .nil⟩

theorem trans (h : Emits W ys d d') (h' : Emits W zs d' d'') : Emits W (ys ++ zs) d d'' := by
  obtain ⟨hsize, added, hperm, hadded⟩ := h
  obtain ⟨hsize', more, hperm', hmore⟩ := h'
  refine ⟨Nat.le_trans hsize hsize', added ++ more, ?_, hadded.append hmore⟩
  rw [← List.append_assoc]
  exact hperm'.trans (hperm.append_right more)

theorem reserve (d : Draft) : Emits W [] d d.reserve := by
  refine ⟨by simp, [], ?_, .nil⟩
  simp [tableOps, Draft.reserve, opsParts]

theorem append {q : Nat} (hq : q < d.size) {op : Op} (h : Carries W op.parts ys) :
    Emits W ys d (d.append q op) :=
  ⟨by simp, op.parts, tableOps_modify hq op, h⟩

end Emits

end Draft

/-- Whether a part of lowering, where it succeeds on a draft of `n` states or more, adds
operations that carry the values, and whose statements have a property; its result has another
property for the number of states then. -/
def Lowering.Emitting {α : Type} (W : Stmt → Prop) (n : Nat) (x : Lowering α) (ys : List Expr)
    (P : α → Nat → Prop) : Prop :=
  ∀ d : Draft, n ≤ d.size →
    Ensures (fun _ => True) d x fun a d' => d.Emits W ys d' ∧ P a d'.size

namespace Lowering.Emitting

variable {α β : Type} {W : Stmt → Prop} {n : Nat} {ys zs : List Expr} {P : α → Nat → Prop}
  {Q : β → Nat → Prop}

theorem bind {x : Lowering α} {f : α → Lowering β} (hx : Emitting W n x ys P)
    (hf : ∀ a m, n ≤ m → P a m → Emitting W m (f a) zs Q) :
    Emitting W n (x >>= f) (ys ++ zs) Q := by
  intro d hd
  refine (hx d hd).bind fun a d' ⟨hemits, ha⟩ => ?_
  refine (hf a d'.size (Nat.le_trans hd hemits.1) ha d' (Nat.le_refl _)).mono ?_
  exact fun b d'' ⟨hemits', hb⟩ => ⟨hemits.trans hemits', hb⟩

/-- A part without values comes first. -/
theorem after {x : Lowering α} {f : α → Lowering β} (hx : Emitting W n x [] P)
    (hf : ∀ a m, n ≤ m → P a m → Emitting W m (f a) ys Q) : Emitting W n (x >>= f) ys Q :=
  hx.bind hf

/-- A part without values comes last. -/
theorem before {x : Lowering α} {f : α → Lowering β} (hx : Emitting W n x ys P)
    (hf : ∀ a m, n ≤ m → P a m → Emitting W m (f a) [] Q) : Emitting W n (x >>= f) ys Q := by
  have h := hx.bind hf
  rwa [List.append_nil] at h

theorem pure {a : α} (h : ∀ m, n ≤ m → P a m) : Emitting W n (Pure.pure a) [] P :=
  fun _ hd => ⟨.of_states rfl, h _ hd⟩

theorem throw (e : LowerError) : Emitting W n (MonadExcept.throw e : Lowering α) ys P :=
  fun _ _ => trivial

theorem mono {P' : α → Nat → Prop} {x : Lowering α} (h : Emitting W n x ys P)
    (himp : ∀ a m, P a m → P' a m) : Emitting W n x ys P' :=
  fun d hd => (h d hd).mono fun a d' ha => ⟨ha.1, himp a d'.size ha.2⟩

theorem newState {f : Nat → Lowering β} (h : ∀ q m, n ≤ m → q < m → Emitting W m (f q) ys Q) :
    Emitting W n (Lowering.newState >>= f) ys Q := by
  intro d hd
  have hsize : d.size < d.reserve.size := by simp
  refine .newState (((h d.size d.reserve.size (by omega) hsize) d.reserve (Nat.le_refl _)).mono ?_)
  exact fun a d' ⟨hemits, ha⟩ => ⟨(Emits.reserve d).trans hemits, ha⟩

theorem emit_last {q : Nat} (hq : q < n) {op : Op} (h : Carries W op.parts ys) :
    Emitting W n (Lowering.emit q op) ys fun _ _ => True :=
  fun _ hd => ⟨.append (Nat.lt_of_lt_of_le hq hd) h, trivial⟩

theorem emit {q : Nat} (hq : q < n) {op : Op} (h : Carries W op.parts []) {f : Unit → Lowering β}
    (hf : Emitting W n (f ()) ys Q) : Emitting W n (Lowering.emit q op >>= f) ys Q :=
  (emit_last hq h).after fun _ _ hm _ d hd => hf d (Nat.le_trans hm hd)

/-- A part that leaves the states as they are. -/
theorem of_states {x : Lowering α}
    (h : ∀ d, Ensures (fun _ => True) d x fun _ d' => d'.states = d.states) :
    Emitting W n x [] fun _ _ => True :=
  fun d _ => (h d).mono fun _ _ hstates => ⟨.of_states hstates, trivial⟩

theorem discard {x : Lowering α} (h : Emitting W n x ys P) :
    Emitting W n (Functor.discard x) ys fun _ _ => True :=
  fun d hd => .discard ((h d hd).mono fun _ _ ha => ⟨ha.1, trivial⟩)

end Lowering.Emitting

section Parts

variable {W : Stmt → Prop} {plan : Plan} {flow : Flow} {current cont n : Nat} {env : StateEnv}
  {ys : List Expr}

/-- A statement that is copied has the property if its tree has it. -/
theorem verbatim_emits (hW : Lasting W) (hcurrent : current < n)
    (h : ∀ stmt, flow.toStmt? = some stmt → W stmt) :
    Emitting W n (verbatim flow current env) [] fun _ _ => True := by
  unfold verbatim
  split
  · exact .throw _
  · exact .throw _
  · exact .pure fun _ _ => trivial
  · rename_i stmt _ _ hstmt
    exact .emit_last hcurrent (.exec (hW.rename (h stmt hstmt) env.renames))

theorem resetFields_emits (hW : Lasting W) (hcurrent : current < n) (fresh : List (Expr × Expr)) :
    Emitting W n (resetFields current fresh) [] fun _ _ => True := by
  induction fresh with
  | nil => exact .pure fun _ _ => trivial
  | cons field fresh ih => exact .emit hcurrent (.exec (hW.assign _ _)) ih

theorem VarDecl.lower_emits (hW : Lasting W) (hcurrent : current < n) (decl : VarDecl) :
    Emitting W n (decl.lower current env) [] fun _ _ => True := by
  refine .after (.of_states fun d =>
    (hoistNames_ensures (.inl trivial) env).mono fun _ _ h => h.1.1) ?_
  rintro ⟨lhs, fresh, inner⟩ m hm -
  by_cases hvalues : decl.values.isEmpty = true
  · simp only [hvalues, if_true]
    exact (resetFields_emits hW (by omega) fresh).after fun _ _ _ _ => .pure fun _ _ => trivial
  · simp only [hvalues]
    exact .emit (by omega) (.exec (hW.assign _ _)) (.pure fun _ _ => trivial)

theorem liftDecl_emits (decl : Decl) :
    Emitting W n (liftDecl plan decl env) [] fun _ _ => True :=
  .of_states fun _ => (liftDecl_ensures plan decl env).mono fun _ _ h => h.1.1

theorem lowerTest_emits {state : Nat} (hstate : state < n) (cond : Expr) (body exit : Nat) :
    Emitting W n (lowerTest state cond body exit env) [] fun _ _ => True := by
  cases cond with
  | missing => exact .emit_last hstate (.jump body)
  | _ => exact .emit hstate (.when _ (.jumps body)) (.emit_last hstate (.jump exit))

theorem lowerTarget_emits (define : Bool) (target type : Expr) (inner : StateEnv) :
    Emitting W n (lowerTarget define target type env inner) [] fun _ _ => True :=
  .of_states fun _ => (lowerTarget_ensures define target type env inner).mono fun _ _ h => h.1.1

theorem Walk.lower_emits (hW : Lasting W) (hcurrent : current < n) (w : Walk) :
    Emitting W n (w.lower plan current env) [] fun result m => result.2.1 < m := by
  refine .newState fun init m hm hinit => .emit (by omega) (.jump init) ?_
  refine .after (.of_states (x := hoistIterator _) fun _ => rfl) fun it m₁ hm₁ _ => ?_
  refine .emit (by omega) (.exec (hW.assign _ _)) ((lowerTarget_emits _ _ _ env).after ?_)
  rintro ⟨key, inner⟩ m₂ hm₂ -
  refine (lowerTarget_emits _ _ _ inner).after ?_
  rintro ⟨value, inner'⟩ m₃ hm₃ -
  refine .newState fun cond m₄ hm₄ hcond => .emit (by omega) (.jump cond) ?_
  refine .newState fun body m₅ hm₅ hbody => ?_
  refine .emit (by omega) (.when _ ((Carries.exec (hW.assign _ _)).cons (.jumps body))) ?_
  exact .emit (by omega) (.jump env.next) (.pure fun _ hm => Nat.lt_of_lt_of_le hbody hm)

/-- Each case has a state of its own. -/
theorem lowerArms_emits (cases' : List FlowCase) :
    Emitting W n (lowerArms env cases') [] fun result m =>
      result.1.length = cases'.length ∧ (∀ q ∈ result.1, q < m) ∧
        Carries W (armsParts result.2) [] := by
  induction cases' generalizing n with
  | nil => exact .pure fun _ _ => ⟨rfl, nofun, .nil⟩
  | cons c cs ih =>
      refine .newState fun state m hm hstate => ih.after ?_
      rintro ⟨states, arms⟩ m₁ hm₁ ⟨hlength, hstates, harms⟩
      refine .pure fun m₂ hm₂ => ⟨congrArg (· + 1) hlength, ?_, ?_⟩
      · refine List.forall_mem_cons.mpr ⟨by omega, fun q hq => ?_⟩
        exact Nat.lt_of_lt_of_le (hstates q hq) hm₂
      · cases c with
        | case values body => exact (Carries.jumps state).append harms
        | default body => exact (Carries.jumps state).append harms

theorem closeBlock_emits (hcurrent : current < n) (hcont : cont < n) :
    Emitting W n (closeBlock current cont env) [] fun _ _ => True := by
  refine .after (.of_states (x := Lowering.terminated current) fun _ => rfl) fun ended m hm _ => ?_
  have hclose : Emitting W m (Lowering.emit cont (.jump env.next .missing)) [] fun _ _ => True :=
    .emit_last (by omega) (.jump env.next)
  cases ended with
  | true => exact hclose
  | false => exact .emit (by omega) (.jump env.next) hclose

/-- The first part of a loop header is copied or declared. -/
theorem Flow.lowerInit_emits (hW : Lasting W) (hcurrent : current < n) (h : flow.QuietPart)
    (hcopies : ∀ stmt, flow = .simple stmt → W stmt) :
    Emitting W n (flow.lowerInit current env) [] fun _ _ => True := by
  cases flow with
  | missing => exact .pure fun _ _ => trivial
  | declare d => exact d.lower_emits hW hcurrent
  | simple stmt =>
      refine (verbatim_emits hW hcurrent fun stmt' hstmt => ?_).after
        fun _ _ _ _ => .pure fun _ _ => trivial
      obtain rfl := Option.some.inj hstmt
      exact hcopies stmt rfl
  | _ => exact h.elim

theorem Flow.lowerPost_emits (hW : Lasting W) (hcurrent : current < n)
    (hcopies : ∀ stmt, flow.toStmt? = some stmt → W stmt) :
    Emitting W n (flow.lowerPost current env) [] fun _ _ => True := by
  cases flow with
  | missing => exact .pure fun _ _ => trivial
  | _ => exact verbatim_emits hW hcurrent hcopies

theorem stitch_emits (hW : Lasting W) {lower : StateEnv → Lowering Unit}
    (hplan : plan.split = fun _ s => s.modifiesControlFlow) (hcurrent : current < n)
    (hquiet : flow.Quiet) (hcopies : flow.Copies W)
    (hlower : ∀ m child, n ≤ m → Emitting W m (lower child) flow.yields fun _ _ => True) :
    Emitting W n (stitch plan flow lower current cont env) flow.yields fun _ _ => True := by
  have hsplit (hdecl : flow.isDeclare = false) : Emitting W n (do
      let child := (env.withNext cont).clearLabels
      let number ← reach
      if plan.split number flow then lower child else verbatim flow current child
      pure env) flow.yields fun _ _ => True := by
    refine .after (.of_states (x := reach) fun _ => rfl) fun number m hm _ => ?_
    rw [hplan]
    have hdone : ∀ m', Emitting W m' (pure env) [] fun _ _ => True :=
      fun _ => .pure fun _ _ => trivial
    by_cases hmod : flow.modifiesControlFlow = true
    · simp only [hmod, if_true]
      exact (hlower m _ hm).before fun _ m' _ _ => hdone m'
    · have hesc : flow.escapes .none = false := by
        simpa [Flow.modifiesControlFlow] using hmod
      simp only [hmod]
      rw [flow.yields_of_escapes hquiet hesc]
      exact (verbatim_emits hW (by omega) (hcopies.kept hdecl hesc)).before fun _ m' _ _ => hdone m'
  cases flow with
  | declare d => exact d.lower_emits hW hcurrent
  | lift d => exact liftDecl_emits d
  | _ => exact hsplit rfl

/-- What follows a statement of a block. -/
theorem terminated_emits {x : Lowering Unit} {y : Nat → Lowering Unit}
    (hx : ∀ m, n ≤ m → Emitting W m x ys fun _ _ => True)
    (hy : ∀ q m, n ≤ m → q < m → Emitting W m (y q) ys fun _ _ => True) :
    Emitting W n (do
      if ← Lowering.terminated current then
        let fresh ← newState
        y fresh
      else x) ys fun _ _ => True := by
  refine .after (.of_states (x := Lowering.terminated current) fun _ => rfl) fun ended m hm _ => ?_
  cases ended with
  | true => exact .newState fun q m' hm' hq => hy q m' (by omega) hq
  | false => exact hx m hm

theorem branch_emits {cond : Expr} {first second : Nat} (hcurrent : current < n) :
    Emitting W n (branch current cond first second) [] fun _ _ => True :=
  .emit hcurrent (.when _ (.jumps first)) (.emit_last hcurrent (.jump _))

theorem lowerSingle_emits (hW : Lasting W) {lower : StateEnv → Lowering Unit}
    (hplan : plan.split = fun _ s => s.modifiesControlFlow) (hcurrent : current < n)
    (hquiet : flow.Quiet) (hcopies : flow.Copies W)
    (hlower : ∀ m child, n ≤ m → Emitting W m (lower child) flow.yields fun _ _ => True) :
    Emitting W n (lowerSingle plan flow lower current env) flow.yields fun _ _ => True := by
  refine .newState fun cont m hm hcont => ?_
  refine (stitch_emits hW hplan (by omega) hquiet hcopies fun m' child hm' =>
    hlower m' child (by omega)).before fun _ m₁ hm₁ _ => ?_
  refine terminated_emits (fun m₂ hm₂ => closeBlock_emits (by omega) (by omega)) ?_
  exact fun fresh m₂ hm₂ hfresh => closeBlock_emits (by omega) hfresh

end Parts

section Recursion

variable {W : Stmt → Prop} {plan : Plan}

mutual

/-- Lowering a quiet statement adds a jump with a value for each of its yields. -/
theorem Flow.lower_emits (hW : Lasting W) {env : StateEnv} (flow : Flow) {current n : Nat}
    (hplan : plan.split = fun _ s => s.modifiesControlFlow) (hcurrent : current < n)
    (hquiet : flow.Quiet) (hcopies : ∀ s ∈ flow.parts, s.Copies W) :
    Emitting W n (flow.lower plan current env) flow.yields fun _ _ => True := by
  have hself := hcopies flow flow.mem_parts
  cases flow with
  | missing => exact .throw _
  | lift d => exact (liftDecl_emits d).discard
  | declare d => exact (d.lower_emits hW hcurrent).discard
  | yield value => exact .emit_last hcurrent (.yield _ _ value)
  | finish => exact .emit_last hcurrent (.jump _)
  | simple stmt =>
      refine verbatim_emits hW hcurrent fun stmt' hstmt => ?_
      obtain rfl := Option.some.inj hstmt
      exact hself.simple stmt rfl
  | brk label =>
      simp only [Flow.lower]
      split
      · exact .throw _
      · exact .emit_last hcurrent (.jump _)
  | cont label =>
      simp only [Flow.lower]
      split
      · exact .throw _
      · exact .emit_last hcurrent (.jump _)
  | labeled label stmt =>
      exact stmt.lower_emits hW hplan hcurrent hquiet (List.forall_mem_cons.mp hcopies).2
  | block body =>
      exact .newState fun cont m hm hcont =>
        lowerStmts_emits hW body hplan (by omega) hcont hquiet (List.forall_mem_cons.mp hcopies).2
  | «while» cond body =>
      refine .newState fun condState m hm hcond => .emit (by omega) (.jump condState) ?_
      refine .newState fun bodyState m₁ hm₁ hbody => ?_
      refine (lowerTest_emits (by omega) cond _ _).after fun _ m₂ hm₂ _ => ?_
      exact .newState fun cont m₃ hm₃ hcont =>
        lowerStmts_emits hW body hplan (by omega) hcont hquiet (List.forall_mem_cons.mp hcopies).2
  | doWhile body cond =>
      refine .newState fun bodyState m hm hbody => .emit (by omega) (.jump bodyState) ?_
      refine .newState fun condState m₁ hm₁ hcond => ?_
      refine (lowerTest_emits (by omega) cond _ _).after fun _ m₂ hm₂ _ => ?_
      exact .newState fun cont m₃ hm₃ hcont =>
        lowerStmts_emits hW body hplan (by omega) hcont hquiet (List.forall_mem_cons.mp hcopies).2
  | loop init cond post body =>
      obtain ⟨hinit, hpost, hbody⟩ := hquiet
      obtain ⟨hheader, hcopies⟩ := List.forall_mem_append.mp (List.forall_mem_cons.mp hcopies).2
      have hfirst : ∀ stmt, init = .simple stmt → W stmt := by
        rintro stmt rfl
        exact ((List.forall_mem_append.mp hheader).1 _ (.head _)).simple stmt rfl
      simp only [Flow.yields, hinit.yields, hpost.yields, List.nil_append, List.append_nil]
      refine .newState fun initState m hm hinitState => .emit (by omega) (.jump initState) ?_
      refine (Flow.lowerInit_emits hW hinitState hinit hfirst).after fun inner m₁ hm₁ _ => ?_
      refine .newState fun condState m₂ hm₂ hcond => .emit (by omega) (.jump condState) ?_
      refine .newState fun bodyState m₃ hm₃ hbodyState => ?_
      refine (lowerTest_emits (by omega) cond _ _).after fun _ m₄ hm₄ _ => ?_
      refine .newState fun updateState m₅ hm₅ hupdate => ?_
      refine (Flow.lowerPost_emits hW hupdate (hself.post init cond post body rfl)).after
        fun _ m₆ hm₆ _ => ?_
      refine .emit (by omega) (.jump condState) ?_
      exact .newState fun cont m₇ hm₇ hcont =>
        lowerStmts_emits hW body hplan (by omega) hcont hbody hcopies
  | walk header body =>
      refine (header.lower_emits hW hcurrent).after ?_
      rintro ⟨condState, bodyState, inner⟩ m hm hbody
      exact .newState fun cont m₁ hm₁ hcont =>
        lowerStmts_emits hW body hplan (Nat.lt_of_lt_of_le hbody hm₁) hcont hquiet
          (List.forall_mem_cons.mp hcopies).2
  | switch tag cases =>
      refine .newState fun dispatcher m hm hdispatcher => .emit (by omega) (.jump dispatcher) ?_
      refine (lowerArms_emits cases).after ?_
      rintro ⟨states, arms⟩ m₁ hm₁ ⟨hlength, hstates, harms⟩
      refine .emit (by omega) (.dispatch _ harms) ?_
      have hcases : Emitting W m₁ (lowerCases plan cases states
          ((env.withBreak "" env.next).clearLabels)) (casesYields cases) fun _ _ => True :=
        lowerCases_emits hW cases hplan hlength hstates hquiet (List.forall_mem_cons.mp hcopies).2
      by_cases hdefault : cases.any FlowCase.isDefault = true
      · simp only [hdefault, if_true]
        exact hcases
      · simp only [hdefault]
        exact .emit (by omega) (.jump env.next) hcases
  | ite cond body other =>
      obtain ⟨hbody, hother⟩ := List.forall_mem_append.mp (List.forall_mem_cons.mp hcopies).2
      have helse : ∀ {m elseState}, other.isMissing = false → elseState < m →
          Emitting W m (other.lowerElse plan elseState env.clearLabels) other.yields
            fun _ _ => True := by
        intro m elseState hmissing hm
        replace hother : ∀ s ∈ other.parts, s.Copies W := by simpa [hmissing] using hother
        cases other with
        | block otherBody =>
            exact .newState fun cont m₁ hm₁ hcont =>
              lowerStmts_emits hW otherBody hplan (by omega) hcont hquiet.2
                (List.forall_mem_cons.mp hother).2
        | _ =>
            rw [Flow.lowerElse_single rfl]
            exact lowerSingle_emits hW hplan hm hquiet.2 (hother _ (Flow.mem_parts _))
              fun m₁ child hm₁ => Flow.lower_emits hW _ hplan (by omega) hquiet.2 hother
      rw [Flow.lower_ite]
      refine .newState fun thenState m hm hthen => .newState fun cont m₁ hm₁ hcont => ?_
      refine (lowerStmts_emits hW body hplan (by omega) hcont hquiet.1 hbody).bind
        fun _ m₂ hm₂ _ => ?_
      cases hm : other.isMissing with
      | true =>
          obtain rfl := Flow.isMissing_eq_true.mp hm
          exact branch_emits (by omega)
      | false =>
          refine .newState fun elseState m₃ hm₃ helseState => ?_
          refine (helse hm helseState).before fun _ m₄ hm₄ _ => ?_
          split
          · exact branch_emits (by omega)
          · exact .emit_last (by omega) (.choose _ (.jumps thenState) (.jumps elseState))

theorem lowerStmts_emits (hW : Lasting W) {env : StateEnv} (fs : List Flow) {current cont n : Nat}
    (hplan : plan.split = fun _ s => s.modifiesControlFlow) (hcurrent : current < n)
    (hcont : cont < n) (hquiet : flowsQuiet fs) (hcopies : ∀ s ∈ flowsParts fs, s.Copies W) :
    Emitting W n (lowerStmts plan fs current cont env) (flowsYields fs) fun _ _ => True := by
  cases fs with
  | nil => exact closeBlock_emits hcurrent hcont
  | cons f fs =>
      obtain ⟨hf, hfs⟩ := List.forall_mem_append.mp hcopies
      refine (stitch_emits hW hplan hcurrent hquiet.1 (hf f f.mem_parts) fun m child hm =>
        f.lower_emits hW hplan (by omega) hquiet.1 hf).bind fun env' m hm _ => ?_
      refine terminated_emits (fun m₁ hm₁ => ?_) fun fresh m₁ hm₁ hfresh => ?_
      · exact lowerStmts_emits hW fs hplan (by omega) (by omega) hquiet.2 hfs
      · exact lowerStmts_emits hW fs hplan (by omega) hfresh hquiet.2 hfs

theorem lowerCases_emits (hW : Lasting W) {env : StateEnv} (cases' : List FlowCase)
    {states : List Nat} {n : Nat}
    (hplan : plan.split = fun _ s => s.modifiesControlFlow)
    (hlength : states.length = cases'.length) (hstates : ∀ q ∈ states, q < n)
    (hquiet : casesQuiet cases') (hcopies : ∀ s ∈ casesParts cases', s.Copies W) :
    Emitting W n (lowerCases plan cases' states env) (casesYields cases') fun _ _ => True := by
  cases cases' with
  | nil => exact .pure fun _ _ => trivial
  | cons c cs =>
      cases states with
      | nil => simp at hlength
      | cons state states =>
          obtain ⟨hstate, hrest⟩ := List.forall_mem_cons.mp hstates
          obtain ⟨hc, hcs⟩ := List.forall_mem_append.mp hcopies
          refine (c.lower_emits hW hplan hstate hquiet.1 hc).bind fun _ m hm _ => ?_
          refine lowerCases_emits hW cs hplan (Nat.succ.inj hlength) (fun q hq => ?_) hquiet.2 hcs
          exact Nat.lt_of_lt_of_le (hrest q hq) hm

theorem FlowCase.lower_emits (hW : Lasting W) {env : StateEnv} (c : FlowCase) {current n : Nat}
    (hplan : plan.split = fun _ s => s.modifiesControlFlow) (hcurrent : current < n)
    (hquiet : c.Quiet) (hcopies : ∀ s ∈ c.parts, s.Copies W) :
    Emitting W n (c.lower plan current env) c.yields fun _ _ => True := by
  cases c with
  | case values body =>
      exact .newState fun cont m hm hcont =>
        lowerStmts_emits hW body hplan (by omega) hcont hquiet hcopies
  | default body =>
      exact .newState fun cont m hm hcont =>
        lowerStmts_emits hW body hplan (by omega) hcont hquiet hcopies

end

end Recursion

/-- The table of a quiet generator: its statements have each property that is kept and that the
trees have which are copied, and its jumps with a value are those of the yields, one for each. -/
theorem Routine.lower_carries {W : Stmt → Prop} (hW : Lasting W) {fn : Routine}
    (hquiet : flowsQuiet fn.body) (hcopies : ∀ s ∈ flowsParts fn.body, s.Copies W) {h : Holder}
    (hlower : fn.lower = .ok h) : Carries W (tableOps h.states) (flowsYields fn.body) := by
  have hbody : Emitting W 2 (fn.lowerBody fun _ s => s.modifiesControlFlow) (flowsYields fn.body)
      fun _ _ => True := by
    refine .after (.of_states fun d => (lowerParams_ensures _ _).mono fun _ _ h => h.1.1) ?_
    intro env m hm _
    refine .newState fun cont m₁ hm₁ hcont => ?_
    exact lowerStmts_emits hW fn.body rfl (by simp only [entryState]; omega) hcont hquiet hcopies
  have hensures := hbody Draft.initial (by decide)
  unfold Routine.lower at hlower
  rw [fn.lowerWith_eq] at hlower
  cases hd : fn.lowerBody (fun _ s => s.modifiesControlFlow) Draft.initial with
  | error e =>
      rw [hd] at hlower
      cases hlower
  | ok result =>
      obtain ⟨⟨⟩, d⟩ := result
      obtain ⟨hemits, -⟩ := hensures.ok hd
      have hend : endState < d.size := Nat.lt_of_lt_of_le (by decide) hemits.1
      have hfinish : Carries W Op.finish.parts [] :=
        .of_executes (by simp [Op.parts, Op.Executes]) (by simp [Op.parts, Op.carried])
      obtain ⟨-, added, hperm, hcarries⟩ := hemits.trans (.append hend hfinish)
      rw [hd] at hlower
      simp only at hlower
      split at hlower
      · cases hlower
      · obtain rfl := Except.ok.inj hlower
        rw [List.append_nil] at hcarries
        have hinitial : tableOps Draft.initial.states = [] := rfl
        rw [hinitial, List.nil_append] at hperm
        exact hcarries.perm hperm

end YieldMachine
