import YieldMachine.Proofs.Simulation.Loops

/-!
# Lowered bodies

The cases of a switch, and with them every statement of a body: the table runs what was lowered
into it.  The recursion over a body follows the one that lowers it.
-/

namespace YieldMachine

open Lowering Behaviour Draft

section Cases

variable {S : Setting} {plan : Plan} {p : Place} {c : FlowCase} {cs : List FlowCase}

/-- A case that continues into what follows it, and that a plain break leaves. -/
theorem Setting.Runs.fallInto {env : StateEnv} {R : Memory → Memory → Prop} {x y : Action Ending}
    {before between : Memory → Behaviour}
    (hx : S.Runs (env.withBreak "" env.next) true R R R x before between)
    (hy : S.Runs env true R R R y between (S.enter env.next)) :
    S.Runs env true R R R (do
      match ← x with
      | .normal => y
      | c => pure (c.leave "")) before (S.enter env.next) := by
  intro rounds K hle hexits hnormal m mt hm
  have hleave := (hexits rfl).leave hnormal ""
  have hrun := hx (K := fun c m =>
      match c with
      | .normal => (y m).bind K
      | c => K (c.leave "") m) hle
    (fun _ => ⟨hleave.brk, hleave.cont, hleave.finish⟩)
    (fun m mt hm => hy hle hexits hnormal hm) hm
  refine (congrArg (S.Sim rounds · (before mt)) ?_).mp hrun
  refine Eq.trans ?_ (Course.bind_assoc _ _ _).symm
  congr 1
  funext c m
  cases c <;> rfl

/-- Whether the table runs the cases of a switch at a place as they were lowered there, each
from its own state. -/
def CasesLowered (S : Setting) (plan : Plan) (p : Place) (cs : List FlowCase) : Prop :=
  ∀ ⦃g : Ground⦄ ⦃env : StateEnv⦄ ⦃d d' : Draft⦄ ⦃states : List Nat⦄,
    d.Sound → StateEnv.Fits d.size env → g.Fits (p.scopes.visible S.session.runtime) env d →
    g.fields = S.fields → (∀ q ∈ states, d.Ready q ∧ d.ops q = []) → states.Nodup →
    states.length = cs.length →
    lowerCases plan cs states ((env.withBreak "" env.next).clearLabels) d = .ok ((), d') →
    d'.Within S.states S.fields → ∀ ⦃i goal : Nat⦄, states[i]? = some goal →
    S.Runs env true (Linked g []) (Linked g []) (Linked g [])
      (execCases S.session S.turns i cs) (S.enter goal) (S.enter env.next)

theorem FlowCase.lower_eq (c : FlowCase) (current : Nat) (env : StateEnv) :
    c.lower plan current env = (do
      let cont ← newState
      lowerStmts plan c.body current cont env) := by
  cases c <;> rw [FlowCase.lower, FlowCase.body]

theorem FlowCase.exec_eq (s : Session) (n : Nat) (c : FlowCase) :
    c.exec s n = execFlows s n c.body := by
  cases c <;> rw [FlowCase.exec, FlowCase.body]

theorem FlowCase.regular_body (h : c.Regular p) : flowsRegular p.inner c.body := by
  cases c <;> exact h

theorem cases_endsCases (hreg : casesRegular p cs) :
    EndsCases (fun _ => True) cs.length (lowerCases plan cs) :=
  lowerCases_endsCases (fun _ _ => trivial) cs (.of_parts _ (cases_regular_parts cs hreg))

theorem cases_nil_lowered : CasesLowered S plan p [] := by
  intro g env d d' states _ _ _ _ _ _ hlength _ _ i goal hgoal
  obtain rfl : states = [] := List.length_eq_zero_iff.mp hlength
  simp at hgoal

/-- A case continues into the next one, and the last case into what follows the switch. -/
theorem lowerCases_cons (state : Nat) (states : List Nat) (env : StateEnv) :
    lowerCases plan (c :: cs) (state :: states) env = (do
      c.lower plan state (env.withNext (states.headD env.next))
      lowerCases plan cs states env) := by
  cases states <;> rw [lowerCases] <;> rfl

theorem cases_cons_lowered (hreg : casesRegular p (c :: cs))
    (hbody : FlowsLowered S plan p.inner c.body) (hcs : CasesLowered S plan p cs) :
    CasesLowered S plan p (c :: cs) := by
  intro g env d d' states hsound htargets hfits hfields hstates hnodup hlength hlow hwithin i goal
    hgoal
  obtain _ | ⟨state, states⟩ := states
  · simp at hgoal
  obtain ⟨⟨hready, hempty⟩, hstates⟩ := List.forall_mem_cons.mp hstates
  obtain ⟨hfresh, hnodup⟩ := List.nodup_cons.mp hnodup
  have hlength : states.length = cs.length := by simpa using hlength
  have hnext : states.headD env.next < d.size := by
    cases states with
    | nil => exact htargets.next
    | cons next states => exact (hstates next (by simp)).1.lt
  rw [lowerCases_cons, bind_ok] at hlow
  obtain ⟨⟨⟩, d₁, hcase, hlow⟩ := hlow
  rw [FlowCase.lower_eq] at hcase
  have hinner : S.Stands g p (((env.withBreak "" env.next).clearLabels).withNext
      (states.headD env.next)) d state :=
    ⟨hsound, ((htargets.withBreak "" htargets.next).clearLabels).withNext hnext, hready,
      hfits.mono rfl (List.suffix_refl _) fun _ hx => hx, hfields⟩
  have hafter := block_after (FlowCase.regular_body hreg.1) hinner.sound hinner.targets
    hinner.ready hcase
  have htargets₁ : StateEnv.Fits d₁.size env := htargets.mono hafter.ext.size_le
  have hstates₁ : ∀ q ∈ states, d₁.Ready q ∧ d₁.ops q = [] := by
    intro q hq
    have hne : q ∉ [state] := by
      rintro hmem
      obtain rfl : q = state := by simpa using hmem
      exact hfresh hq
    obtain ⟨hready, hempty⟩ := hstates q hq
    exact ⟨hafter.ext.ready hne hready, by rw [hafter.ext.ops_kept hne hready.lt, hempty]⟩
  have hwithin₁ := hwithin.of_extends ((cases_endsCases hreg.2 hafter.sound
    ((htargets₁.withBreak "" htargets₁.next).clearLabels) (fun q hq => (hstates₁ q hq).1) hnodup
    hlength).ok hlow).2.1
  have hrest := hcs hafter.sound htargets₁ (hfits.mono rfl hafter.ext.used fun _ hx => hx) hfields
    hstates₁ hnodup hlength hlow hwithin
  cases i with
  | succ i => exact hrest (by simpa using hgoal)
  | zero =>
      obtain rfl : state = goal := by simpa using hgoal
      have hruns := hbody.enter (FlowCase.regular_body hreg.1) hinner hempty hcase hwithin₁
      rw [execCases, FlowCase.exec_eq]
      refine Setting.Runs.fallInto (hruns.congr rfl rfl) ?_
      cases states with
      | cons next states => exact hrest rfl
      | nil =>
          obtain rfl : cs = [] := List.length_eq_zero_iff.mp hlength.symm
          exact fun _ _ _ _ hnormal m mt hm => hnormal m mt hm

end Cases

section Switch

variable {S : Setting} {plan : Plan} {p : Place} {tag : Expr} {cs : List FlowCase}

theorem casesPlain_values {runtime : String} {scopes : Scopes} (h : casesPlain runtime scopes cs) :
    ∀ clause ∈ cs.map FlowCase.guard, exprsClear (scopes.visible runtime) clause.values := by
  induction cs with
  | nil => simp
  | cons c cs ih =>
      refine List.forall_mem_cons.mpr ⟨?_, ih h.2⟩
      cases c with
      | case values body => exact h.1.1
      | default body => trivial

/-- How the dispatch of a switch is closed. -/
theorem dispatch_ok {x : Lowering Unit} {arms : List Arm} {q next : Nat} {d d' : Draft}
    (h : (do
      Lowering.emit q (.dispatch tag arms)
      unless cs.any FlowCase.isDefault do
        Lowering.emit q (.jump next .missing)
      x : Lowering Unit) d = .ok ((), d')) :
    ∃ d₁, x d₁ = .ok ((), d') ∧ Extends [q] d d₁ ∧
      (cs.any FlowCase.isDefault = true ∧ d₁ = d.append q (.dispatch tag arms) ∨
        cs.any FlowCase.isDefault = false ∧
          d₁ = (d.append q (.dispatch tag arms)).append q (.jump next .missing)) := by
  rw [emit_bind] at h
  cases hdefault : cs.any FlowCase.isDefault with
  | true =>
      rw [hdefault] at h
      exact ⟨_, h, .append d q _, .inl ⟨rfl, rfl⟩⟩
  | false =>
      rw [hdefault] at h
      exact ⟨_, h, (Extends.append d q _).trans_self (.append _ q _), .inr ⟨rfl, rfl⟩⟩

theorem switch_lowered (hS : S.Ready) (hreg : (Flow.switch tag cs).Regular p)
    (hplain : (Flow.switch tag cs).Plain S.session.runtime p.scopes)
    (hcs : CasesLowered S plan p.inSwitch cs) : (Flow.switch tag cs).Lowered S plan p := by
  intro g env d d' current hstands hlow hwithin
  have hlt := hstands.ready.lt
  have hnext := hstands.targets.next
  rw [Flow.lower, newState_bind, emit_bind, bind_ok] at hlow
  obtain ⟨⟨states, arms⟩, d₂, harms, hlow⟩ := hlow
  have h₁ := (Opens.of_ready hstands.sound hstands.ready).enter (by simp)
  obtain ⟨h₂, hlead, hlength, hnodup, hnew⟩ :=
    (lowerArms_ensures (E := fun _ => True) env h₁).ok harms
  obtain ⟨hmatch, hops₂, hused₂⟩ := lowerArms_ok harms
  dsimp only at h₂ hlead hlength hnodup hnew hlow
  simp only [size_append, size_reserve] at hnew
  have hsize₂ : d.size < d₂.size := h₂.lt (by simp)
  obtain ⟨d₃, hlow, hext₃, hd₃⟩ := dispatch_ok hlow
  have hsound₃ : d₃.Sound := by
    have hdispatch := h₂.sound.append (q := d.size) (opsFit_dispatch (env.resolve tag) hlead)
    rcases hd₃ with ⟨-, rfl⟩ | ⟨-, rfl⟩
    · exact hdispatch
    · exact hdispatch.append (opsFit_jump (by simp; omega) .missing)
  have htargets₃ : StateEnv.Fits d₃.size env := hstands.targets.mono
    (Nat.le_trans h₂.ext.size_le hext₃.size_le)
  have hempty : ∀ q, d.size ≤ q → d₂.ops q = [] := by
    intro q hq
    rw [hops₂, ops_entered hlt hq]
  have hstates₃ : ∀ q ∈ states, d₃.Ready q ∧ d₃.ops q = [] := by
    intro q hq
    have hle := hnew q hq
    have hready := h₂.isReady q (List.mem_append_left _ hq)
    have hne : q ∉ [d.size] := by simp; omega
    exact ⟨hext₃.ready hne hready, by rw [hext₃.ops_kept hne hready.lt, hempty q (by omega)]⟩
  have hwithin₃ := hwithin.of_extends ((cases_endsCases hreg hsound₃
    ((htargets₃.withBreak "" htargets₃.next).clearLabels) (fun q hq => (hstates₃ q hq).1) hnodup
    hlength).ok hlow).2.1
  have hdispatch :
      (d₂.append d.size (.dispatch (env.resolve tag) arms)).Within S.states S.fields := by
    rcases hd₃ with ⟨-, rfl⟩ | ⟨-, rfl⟩
    · exact hwithin₃
    · exact hwithin₃.of_append
  have hruns := hcs (g := g) hsound₃ htargets₃
    (hstands.fits.mono rfl (h₂.ext.trans hext₃).used fun _ hx => hx) hstands.fields hstates₃ hnodup
    hlength hlow hwithin
  have hfirst := hdispatch.of_append.of_extends ((lowerArms_ensures (E := fun _ => True) env
    (Opens.start (R := []) h₁.sound (by simp))).ok harms).1.ext
  rw [← d.ops_reserve, Setting.resume_eq_enter hS (by simp; omega) hfirst, Flow.exec]
  intro rounds K hle hexits hnormal m mt hm
  refine (congrArg (S.Sim rounds · _) (Course.bind_assoc _ _ _)).mpr ?_
  refine Setting.Sim.enter (Nat.lt_of_lt_of_le hsize₂ hdispatch.of_append.size) ?_
  refine dispatch_simulated hS hstands.fits.resolves rfl hplain.1 (casesPlain_values hplain.2)
    hmatch (fun q hq => ?_) hsize₂ (hempty _ (Nat.le_refl _)) hdispatch (fun hdefault => ?_)
    (fun i goal hgoal m mt hm => ?_) (fun m mt hm => ?_) hm
  · exact Nat.lt_of_lt_of_le (hstates₃ q hq).1.lt hwithin₃.size
  · rcases hd₃ with ⟨hd, -⟩ | ⟨-, rfl⟩
    · rw [hd] at hdefault
      cases hdefault
    · exact hwithin₃
  · exact hruns hgoal (by omega) (fun _ => (hexits rfl).mono (Nat.sub_le _ _) fun _ _ h => h)
      (fun m mt hm => (hnormal m mt hm).mono (Nat.sub_le _ _)) hm
  · exact (hnormal m mt hm).mono (Nat.sub_le _ _)

end Switch

section Recursion

variable {S : Setting} {plan : Plan}

mutual

/-- The table runs every statement as it was lowered. -/
theorem Flow.lowered (hS : S.Ready)
    (hsplit : ∀ n s, s.modifiesControlFlow = true → plan.split n s = true) {p : Place} (flow : Flow)
    (hreg : flow.Regular p) (hplain : flow.Plain S.session.runtime p.scopes)
    (hdecl : flow.isDeclare = false) : flow.Lowered S plan p := by
  cases flow with
  | missing => exact hreg.elim
  | lift decl => exact hreg.elim
  | declare decl => cases hdecl
  | block body => exact block_lowered (flows_lowered hS hsplit body hreg hplain)
  | yield value => exact yield_lowered hS hplain
  | finish => exact finish_lowered hS
  | brk label => exact brk_lowered hS label
  | cont label => exact cont_lowered hS label
  | simple stmt => exact simple_lowered hS hreg hplain
  | labeled label stmt =>
      exact labeled_lowered (stmt.lowered hS hsplit hreg.2.2 hplain hreg.2.1)
  | ite cond body other =>
      exact ite_lowered hS hsplit hreg hplain (flows_lowered hS hsplit body hreg.1 hplain.2.1)
        fun hm => other.lowered hS hsplit (hreg.2 hm) hplain.2.2
  | «while» cond body =>
      exact while_lowered hS hreg hplain (flows_lowered hS hsplit body hreg hplain.2)
  | doWhile body cond =>
      exact doWhile_lowered hS hreg hplain (flows_lowered hS hsplit body hreg hplain.2)
  | loop init cond post body =>
      exact loop_lowered hS hreg hplain (flows_lowered hS hsplit body hreg.2.2 hplain.2.2.2)
  | walk header body =>
      exact walk_lowered hS hreg hplain (flows_lowered hS hsplit body hreg.2 hplain.2)
  | switch tag cs =>
      exact switch_lowered hS hreg hplain (cases_lowered hS hsplit cs hreg hplain.2)

theorem flows_lowered (hS : S.Ready)
    (hsplit : ∀ n s, s.modifiesControlFlow = true → plan.split n s = true) {p : Place}
    (fs : List Flow) (hreg : flowsRegular p fs)
    (hplain : flowsPlain S.session.runtime p.scopes fs) : FlowsLowered S plan p fs := by
  cases fs with
  | nil => exact nil_lowered hS
  | cons f fs =>
      obtain ⟨hregf, hregfs⟩ := flowsRegular_cons hreg
      obtain ⟨hplainf, hplainfs⟩ := flowsPlain_cons hplain
      exact cons_lowered hS hsplit hreg hplain (f.lowered hS hsplit hregf hplainf)
        (flows_lowered hS hsplit fs hregfs hplainfs)

theorem cases_lowered (hS : S.Ready)
    (hsplit : ∀ n s, s.modifiesControlFlow = true → plan.split n s = true) {p : Place}
    (cs : List FlowCase) (hreg : casesRegular p cs)
    (hplain : casesPlain S.session.runtime p.scopes cs) : CasesLowered S plan p cs := by
  cases cs with
  | nil => exact cases_nil_lowered
  | cons c cs =>
      exact cases_cons_lowered hreg (c.body_lowered hS hsplit hreg.1 hplain.1)
        (cases_lowered hS hsplit cs hreg.2 hplain.2)

theorem FlowCase.body_lowered (hS : S.Ready)
    (hsplit : ∀ n s, s.modifiesControlFlow = true → plan.split n s = true) {p : Place}
    (c : FlowCase) (hreg : c.Regular p) (hplain : c.Plain S.session.runtime p.scopes) :
    FlowsLowered S plan p.inner c.body := by
  cases c with
  | case values body => exact flows_lowered hS hsplit body hreg hplain.2
  | default body => exact flows_lowered hS hsplit body hreg hplain

end

end Recursion

end YieldMachine
