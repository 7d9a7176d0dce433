import YieldMachine.Proofs.Lowering.Branches
import YieldMachine.Proofs.Lowering.Total

/-!
# Branches without a target

Lowering fails at the first branch that it looks up and finds no target for, and names that
branch.  Nothing else makes it fail.  A branch in a statement that stays as it is is never
looked up, so that a continue there may name a block.
-/

namespace YieldMachine

open Lowering Draft

/-- Whether the parts of a loop header are of the kinds that they can have: the first one is
a declaration or a simple statement, the last one a simple statement. -/
def Flow.Headed : Flow → Prop
  | .loop init _ post _ =>
    (init.isMissing ∨ (∃ d, init = .declare d) ∨ ∃ stmt, init = .simple stmt) ∧
      (post.isMissing ∨ ∃ stmt, post = .simple stmt)
  | _ => True

/-- Whether a statement is written, has types for its names and a regular loop header. -/
structure Flow.Proper (s : Flow) : Prop where
  written : s.Written
  typed : s.Typed
  headed : s.Headed

/-- Whether a part of lowering fails with the first of the branches that is to be reported,
and succeeds if there is none. -/
structure Lowering.Reports {α : Type} (holder : String) (branches : List Branch)
    (x : Lowering α) (P : α → Prop) : Prop where
  total : branches.find? Branch.reported = none → Total x P
  error : ∀ b, branches.find? Branch.reported = some b →
    ∀ d, x d = .error (.unresolved holder b.kind b.label)

namespace Lowering.Reports

variable {α β : Type} {holder : String} {bs cs : List Branch} {P : α → Prop} {Q : β → Prop}

theorem of_total {x : Lowering α} (h : Total x P) (hbs : ∀ b ∈ bs, b.reported = false) :
    Reports holder bs x P := by
  have hnone : bs.find? Branch.reported = none := by simpa using hbs
  exact ⟨fun _ => h, fun b hb => by simp [hnone] at hb⟩

theorem of_nil {x : Lowering α} (h : Total x P) : Reports holder [] x P := of_total h nofun

theorem bind {x : Lowering α} {f : α → Lowering β} (hx : Reports holder bs x P)
    (hf : ∀ a, P a → Reports holder cs (f a) Q) : Reports holder (bs ++ cs) (x >>= f) Q := by
  constructor
  · intro hnone
    rw [List.find?_append, Option.or_eq_none_iff] at hnone
    exact (hx.total hnone.1).bind fun a ha => (hf a ha).total hnone.2
  · intro b hb d
    rw [List.find?_append] at hb
    rw [bind_apply]
    cases hfirst : bs.find? Branch.reported with
    | some b' =>
        obtain rfl : b' = b := by simpa [hfirst] using hb
        rw [hx.error b' hfirst d]
    | none =>
        obtain ⟨a, d', ha, hP⟩ := (hx.total hfirst).exists_ok d
        rw [hfirst, Option.none_or] at hb
        rw [ha]
        exact (hf a hP).error b hb d'

/-- A part that reports nothing comes first. -/
theorem after {x : Lowering α} {f : α → Lowering β} (hx : Total x P)
    (hf : ∀ a, P a → Reports holder bs (f a) Q) : Reports holder bs (x >>= f) Q :=
  (of_nil hx).bind hf

/-- A part that reports nothing comes last. -/
theorem before {x : Lowering α} {f : α → Lowering β} (hx : Reports holder bs x P)
    (hf : ∀ a, P a → Total (f a) Q) : Reports holder bs (x >>= f) Q := by
  have h := hx.bind fun a ha => of_nil (hf a ha)
  rwa [List.append_nil] at h

theorem newState {f : Nat → Lowering β} (h : ∀ q, Reports holder bs (f q) Q) :
    Reports holder bs (Lowering.newState >>= f) Q :=
  ⟨fun hnone => .newState fun q => (h q).total hnone,
    fun b hb d => (h d.size).error b hb d.reserve⟩

theorem emit {q : Nat} {op : Op} {f : Unit → Lowering β} (h : Reports holder bs (f ()) Q) :
    Reports holder bs (Lowering.emit q op >>= f) Q :=
  after (Total.emit q op) fun _ _ => h

end Lowering.Reports

/-- Whether a context has targets for just the branches that have one in the surroundings.
A continue to a label of a loop gets its target only in the body, and an empty label serves
a plain break. -/
structure StateEnv.Offers (env : StateEnv) (around : Enclosure) (loop : Bool) : Prop where
  brk : (env.break? "").isSome = (around.brk || around.hasLabel "")
  cont : (env.continue? "").isSome = around.cont
  breaks : ∀ l, l ≠ "" → (env.break? l).isSome = around.hasLabel l
  continues : ∀ l, l ≠ "" →
    ((env.continue? l).isSome || loop && env.labels.contains l) = around.labels.contains (l, true)

namespace StateEnv.Offers

variable {env : StateEnv} {around : Enclosure} {loop : Bool}

theorem sameTargets {env' : StateEnv} (h : env.Offers around loop)
    (hsame : env.SameTargets env') : env'.Offers around loop := by
  obtain ⟨-, hbreaks, hcontinues, hlabels⟩ := hsame
  obtain ⟨hbrk, hcont, hbrks, hconts⟩ := h
  constructor <;> simp only [Env.break?, Env.continue?, hbreaks, hcontinues, hlabels] at *
  · exact hbrk
  · exact hcont
  · exact hbrks
  · exact hconts

/-- A statement of a block has no labels attached yet. -/
theorem child (h : env.Offers around false) (cont : Nat) (loop : Bool) :
    StateEnv.Offers (env.withNext cont).clearLabels around loop where
  brk := h.brk
  cont := h.cont
  breaks := h.breaks
  continues l hl := by simpa [Env.clearLabels, Env.withNext, Env.continue?] using h.continues l hl

theorem inLoop (h : env.Offers around true) (state : Nat) :
    StateEnv.Offers (env.inLoop state) around.inLoop false where
  brk := by simp [Env.break?_inLoop, Enclosure.inLoop]
  cont := by simp [Env.continue?_inLoop, Enclosure.inLoop]
  breaks l hl := by
    rw [Env.break?_inLoop, if_neg hl]
    exact h.breaks l hl
  continues l hl := by
    have hl' := h.continues l hl
    rw [Env.continue?_inLoop]
    by_cases hmem : l ∈ env.labels
    · simpa [hl, hmem, Enclosure.inLoop] using hl'
    · simpa [hl, hmem, Enclosure.inLoop] using hl'

theorem inSwitch (h : env.Offers around false) (state : Nat) :
    StateEnv.Offers (env.withBreak "" state).clearLabels around.inSwitch false where
  brk := by simp [Env.withBreak, Env.clearLabels, Env.break?, Enclosure.inSwitch]
  cont := h.cont
  breaks l hl := by
    have hbreak := Env.break?_withBreak env "" state l
    rw [if_neg hl] at hbreak
    show (Env.break? (env.withBreak "" state) l).isSome = _
    rw [hbreak]
    exact h.breaks l hl
  continues := h.continues

theorem labeled (h : env.Offers around loop) (label : String) (state : Nat) :
    StateEnv.Offers ((env.withLabel label).withBreak label state)
      (around.withLabel label loop) loop where
  brk := by
    rw [Env.break?_withBreak, Enclosure.hasLabel_withLabel]
    by_cases hl : "" = label
    · simp [hl]
    · rw [if_neg hl, decide_eq_false hl, Bool.false_or]
      exact h.brk
  cont := h.cont
  breaks l hl := by
    rw [Env.break?_withBreak, Enclosure.hasLabel_withLabel]
    by_cases hne : l = label
    · simp [hne]
    · rw [if_neg hne, decide_eq_false hne, Bool.false_or]
      exact h.breaks l hl
  continues l hl := by
    have hlabels : ((env.withLabel label).withBreak label state).labels.contains l =
        (env.labels.contains l || decide (l = label)) := by
      simp [Env.withLabel, Env.withBreak]
    have haround : (around.withLabel label loop).labels.contains (l, true) =
        (loop && decide (l = label) || around.labels.contains (l, true)) := by
      cases loop <;> simp [Enclosure.withLabel]
    rw [hlabels, haround, ← h.continues l hl]
    show ((env.continue? l).isSome || _) = _
    cases loop <;> simp [Bool.or_comm, Bool.or_assoc]

end StateEnv.Offers

section Parts

variable {plan : Plan} {flow : Flow} {current cont : Nat} {env : StateEnv} {around : Enclosure}

theorem Flow.lowerInit_of_headed {cond : Expr} {post : Flow} {body : List Flow}
    (h : (Flow.loop flow cond post body).Headed)
    (hparts : ∀ s ∈ if flow.isMissing then [] else flow.parts, s.Proper) :
    Total (flow.lowerInit current env) env.SameTargets := by
  obtain hmissing | ⟨d, rfl⟩ | ⟨stmt, rfl⟩ := h.1
  · rw [isMissing_eq_true.mp hmissing]
    exact .pure (.refl env)
  · exact d.lower_total (hparts (.declare d) (Flow.mem_parts _)).typed
  · exact (verbatim_total fun s hs => (hparts s hs).written).andThen (.pure (.refl env))

theorem Flow.lowerPost_of_headed {init : Flow} {cond : Expr} {body : List Flow}
    (h : (Flow.loop init cond flow body).Headed)
    (hparts : ∀ s ∈ if flow.isMissing then [] else flow.parts, s.Proper) :
    Total (flow.lowerPost current env) fun _ => True := by
  obtain hmissing | ⟨stmt, rfl⟩ := h.2
  · rw [isMissing_eq_true.mp hmissing]
    exact .pure trivial
  · exact verbatim_total fun s hs => (hparts s hs).written

theorem stitch_reports {lower : StateEnv → Lowering Unit}
    (hplan : plan.split = fun _ s => s.modifiesControlFlow) (hparts : ∀ s ∈ flow.parts, s.Proper)
    (hlower : Reports plan.holder (flow.branches around)
      (lower (env.withNext cont).clearLabels) fun _ => True) :
    Reports plan.holder (flow.listed (flow.branches around))
      (stitch plan flow lower current cont env) env.SameTargets := by
  have hsplit : Reports plan.holder (flow.listed (flow.branches around)) (do
      let child := (env.withNext cont).clearLabels
      let number ← reach
      if plan.split number flow then lower child else verbatim flow current child
      pure env) env.SameTargets := by
    refine .after (P := fun _ => True) (fun _ => trivial) fun number _ => ?_
    rw [hplan]
    unfold Flow.listed
    split
    · exact hlower.before fun _ _ => .pure (.refl env)
    · refine .of_total ((verbatim_total fun s hs => (hparts s hs).written).andThen
        (.pure (.refl env))) ?_
      intro b hb
      obtain ⟨b, -, rfl⟩ := List.mem_map.mp hb
      rfl
  cases flow with
  | declare d => exact .of_total (d.lower_total (hparts _ (Flow.mem_parts _)).typed) nofun
  | lift d => exact .of_total (liftDecl_total d) nofun
  | _ => exact hsplit

/-- What follows a statement of a block. -/
theorem terminated_reports {holder : String} {bs : List Branch} {x : Lowering Unit}
    {y : Nat → Lowering Unit} (hx : Reports holder bs x fun _ => True)
    (hy : ∀ q, Reports holder bs (y q) fun _ => True) :
    Reports holder bs (do
      if ← Lowering.terminated current then
        let fresh ← newState
        y fresh
      else x) fun _ => True := by
  refine .after (P := fun _ => True) (fun _ => trivial) fun ended _ => ?_
  cases ended with
  | true => exact .newState hy
  | false => exact hx

theorem lowerSingle_reports {lower : StateEnv → Lowering Unit}
    (hplan : plan.split = fun _ s => s.modifiesControlFlow) (hparts : ∀ s ∈ flow.parts, s.Proper)
    (hlower : ∀ cont, Reports plan.holder (flow.branches around)
      (lower (env.withNext cont).clearLabels) fun _ => True) :
    Reports plan.holder (flow.listed (flow.branches around))
      (lowerSingle plan flow lower current env) fun _ => True :=
  .newState fun cont => (stitch_reports hplan hparts (hlower cont)).before fun _ _ =>
    terminated_total closeBlock_total fun _ => closeBlock_total

end Parts

section Recursion

variable {plan : Plan}

/-- Looking up the target of a branch. -/
theorem lookup_reports {b : Branch} {goal? : Option Nat} (current : Nat)
    (h : b.reported = goal?.isNone) :
    Reports plan.holder [b]
      (match goal? with
        | none => throw (.unresolved plan.holder b.kind b.label)
        | some goal => Lowering.emit current (.jump goal .missing)) fun _ => True := by
  cases goal? with
  | none =>
      refine ⟨fun hnone => ?_, fun b' hb d => ?_⟩
      · simp [h] at hnone
      · obtain rfl : b = b' := by simpa [h] using hb
        rfl
  | some goal => exact .of_total (.emit _ _) (by simpa using h)

theorem brk_reports {env : StateEnv} {around : Enclosure} {loop : Bool} (label : String)
    (current : Nat) (henv : env.Offers around loop) :
    Reports plan.holder ((Flow.brk label).branches around)
      ((Flow.brk label).lower plan current env) fun _ => True := by
  refine lookup_reports (b := ⟨.brk, label, around, false⟩) current ?_
  rw [← Option.not_isSome]
  by_cases hl : label = ""
  · subst hl
    simp [Branch.reported, Branch.hasTarget, henv.brk]
  · simp [Branch.reported, Branch.hasTarget, hl, henv.breaks label hl]

theorem cont_reports {env : StateEnv} {around : Enclosure} (label : String)
    (current : Nat) (henv : env.Offers around false) :
    Reports plan.holder ((Flow.cont label).branches around)
      ((Flow.cont label).lower plan current env) fun _ => True := by
  refine lookup_reports (b := ⟨.cont, label, around, false⟩) current ?_
  rw [← Option.not_isSome]
  by_cases hl : label = ""
  · subst hl
    simp [Branch.reported, Branch.hasTarget, henv.cont]
  · have hlabel := henv.continues label hl
    rw [Bool.false_and, Bool.or_false] at hlabel
    simp [Branch.reported, Branch.hasTarget, hl, hlabel]

theorem lowerArms_states {env : StateEnv} (cases' : List FlowCase) :
    Total (lowerArms env cases') fun result => result.1.length = cases'.length := by
  induction cases' with
  | nil => exact .pure rfl
  | cons c cs ih =>
      refine .newState fun state => ih.bind ?_
      rintro ⟨states, arms⟩ hstates
      exact .pure (by simpa using hstates)

mutual

/-- Lowering a statement reports the first of its branches that has no target. -/
theorem Flow.lower_reports {env : StateEnv} {around : Enclosure} (flow : Flow) (current : Nat)
    (hplan : plan.split = fun _ s => s.modifiesControlFlow)
    (hparts : ∀ s ∈ flow.parts, s.Proper) (henv : env.Offers around flow.onLoop) :
    Reports plan.holder (flow.branches around) (flow.lower plan current env) fun _ => True := by
  have hself := hparts flow flow.mem_parts
  cases flow with
  | missing => exact hself.written.elim
  | lift d =>
      exact .of_nil fun draft =>
        Ensures.discard ((liftDecl_total d draft).mono fun _ _ _ => trivial)
  | declare d =>
      exact .of_nil fun draft =>
        Ensures.discard ((d.lower_total hself.typed draft).mono fun _ _ _ => trivial)
  | yield value => exact .of_nil (.emit _ _)
  | finish => exact .of_nil (.emit _ _)
  | simple stmt => exact .of_nil (verbatim_total fun s hs => (hparts s hs).written)
  | brk label => exact brk_reports label current henv
  | cont label => exact cont_reports label current henv
  | labeled label stmt =>
      have hstmt := (List.forall_mem_cons.mp hparts).2
      exact stmt.lower_reports current hplan hstmt (henv.labeled label env.next)
  | block body =>
      have hbody := (List.forall_mem_cons.mp hparts).2
      exact .newState fun cont => lowerStmts_reports body current cont hplan hbody henv
  | «while» cond body =>
      have hbody := (List.forall_mem_cons.mp hparts).2
      exact .newState fun condState => .emit (.newState fun bodyState =>
        .after (lowerTest_total _ _ _ _) fun _ _ => .newState fun cont =>
          lowerStmts_reports body bodyState cont hplan hbody (henv.inLoop condState))
  | doWhile body cond =>
      have hbody := (List.forall_mem_cons.mp hparts).2
      exact .newState fun bodyState => .emit (.newState fun condState =>
        .after (lowerTest_total _ _ _ _) fun _ _ => .newState fun cont =>
          lowerStmts_reports body bodyState cont hplan hbody (henv.inLoop condState))
  | loop init cond post body =>
      obtain ⟨hheader, hbody⟩ := List.forall_mem_append.mp (List.forall_mem_cons.mp hparts).2
      obtain ⟨hinit, hpost⟩ := List.forall_mem_append.mp hheader
      refine .newState fun initState => .emit ?_
      refine .after (Flow.lowerInit_of_headed hself.headed hinit) fun inner hsame => ?_
      refine .newState fun condState => .emit (.newState fun bodyState => ?_)
      refine .after (lowerTest_total _ _ _ _) fun _ _ => .newState fun updateState => ?_
      refine .after (Flow.lowerPost_of_headed hself.headed hpost) fun _ _ => .emit ?_
      exact .newState fun cont => lowerStmts_reports body bodyState cont hplan hbody
        ((henv.sameTargets hsame).inLoop updateState)
  | walk header body =>
      have hbody := (List.forall_mem_cons.mp hparts).2
      refine .after header.lower_total ?_
      rintro ⟨condState, bodyState, inner⟩ hsame
      exact .newState fun cont => lowerStmts_reports body bodyState cont hplan hbody
        ((henv.sameTargets hsame).inLoop condState)
  | switch tag cases =>
      have hcases := (List.forall_mem_cons.mp hparts).2
      refine .newState fun dispatcher => .emit ?_
      refine .after (lowerArms_states cases) ?_
      rintro ⟨states, arms⟩ hstates
      refine .emit ?_
      have hlower := lowerCases_reports cases states hplan hstates hcases (henv.inSwitch env.next)
      by_cases hdefault : cases.any FlowCase.isDefault = true
      · simp only [hdefault, if_true]
        exact hlower
      · simp only [hdefault]
        exact .emit hlower
  | ite cond body other =>
      obtain ⟨hbody, hother⟩ := List.forall_mem_append.mp (List.forall_mem_cons.mp hparts).2
      have hchild : ∀ loop, StateEnv.Offers env.clearLabels around loop :=
        fun loop => henv.child env.next loop
      have helse : ∀ elseState, other.isMissing = false →
          Reports plan.holder (other.listed (other.branches around))
            (other.lowerElse plan elseState env.clearLabels) fun _ => True := by
        intro elseState hm
        replace hother : ∀ s ∈ other.parts, s.Proper := by simpa [hm] using hother
        cases other with
        | block otherBody =>
            rw [Flow.branches, Flow.listed_block]
            exact .newState fun cont => lowerStmts_reports otherBody elseState cont hplan
              (List.forall_mem_cons.mp hother).2 (hchild _)
        | _ =>
            rw [Flow.lowerElse_single rfl]
            exact lowerSingle_reports hplan hother fun cont =>
              Flow.lower_reports _ elseState hplan hother ((hchild false).child cont _)
      rw [Flow.lower_ite]
      refine .newState fun thenState => .newState fun cont => ?_
      refine (lowerStmts_reports body thenState cont hplan hbody (hchild _)).bind fun _ _ => ?_
      cases hm : other.isMissing with
      | true =>
          obtain rfl := Flow.isMissing_eq_true.mp hm
          exact .of_total branch_total (by simp [Flow.listed, Flow.branches])
      | false =>
          refine .newState fun elseState => (helse elseState hm).before fun _ _ => ?_
          split
          · exact branch_total
          · exact .emit _ _

theorem lowerStmts_reports {env : StateEnv} {around : Enclosure} (fs : List Flow)
    (current cont : Nat) (hplan : plan.split = fun _ s => s.modifiesControlFlow)
    (hparts : ∀ s ∈ flowsParts fs, s.Proper) (henv : env.Offers around false) :
    Reports plan.holder (flowsBranches around fs) (lowerStmts plan fs current cont env)
      fun _ => True := by
  cases fs with
  | nil => exact .of_nil closeBlock_total
  | cons f fs =>
      obtain ⟨hf, hfs⟩ := List.forall_mem_append.mp hparts
      refine (stitch_reports hplan hf
        (f.lower_reports current hplan hf (henv.child cont _))).bind ?_
      intro env' hsame
      have henv' := henv.sameTargets hsame
      exact terminated_reports (lowerStmts_reports fs current cont hplan hfs henv')
        fun fresh => lowerStmts_reports fs cont fresh hplan hfs henv'

theorem lowerCases_reports {env : StateEnv} {around : Enclosure} (cases' : List FlowCase)
    (states : List Nat) (hplan : plan.split = fun _ s => s.modifiesControlFlow)
    (hlen : states.length = cases'.length) (hparts : ∀ s ∈ casesParts cases', s.Proper)
    (henv : env.Offers around false) :
    Reports plan.holder (casesBranches around cases') (lowerCases plan cases' states env)
      fun _ => True := by
  match cases', states, hlen with
  | [], [], _ => exact .of_nil (.pure trivial)
  | c :: cs, state :: states, hlen =>
      obtain ⟨hc, hcs⟩ := List.forall_mem_append.mp hparts
      refine (c.lower_reports state hplan hc ?_).bind fun _ _ =>
        lowerCases_reports cs states hplan (Nat.succ.inj hlen) hcs henv
      cases states with
      | nil => exact henv
      | cons next states => exact ⟨henv.brk, henv.cont, henv.breaks, henv.continues⟩

theorem FlowCase.lower_reports {env : StateEnv} {around : Enclosure} (c : FlowCase)
    (current : Nat) (hplan : plan.split = fun _ s => s.modifiesControlFlow)
    (hparts : ∀ s ∈ c.parts, s.Proper) (henv : env.Offers around false) :
    Reports plan.holder (c.branches around) (c.lower plan current env) fun _ => True := by
  cases c with
  | case values body =>
      exact .newState fun cont => lowerStmts_reports body current cont hplan hparts henv
  | default body =>
      exact .newState fun cont => lowerStmts_reports body current cont hplan hparts henv

end

end Recursion

theorem Enclosure.none_offered {env : StateEnv}
    (h : StateEnv.SameTargets (Env.start endState) env) : env.Offers .none false :=
  StateEnv.Offers.sameTargets ⟨rfl, rfl, fun _ _ => rfl, fun _ _ => rfl⟩ h

theorem Routine.lowerBody_reports (fn : Routine) (hparts : ∀ s ∈ flowsParts fn.body, s.Proper) :
    Reports fn.name fn.branches (fn.lowerBody fun _ s => s.modifiesControlFlow) fun _ => True := by
  have hparams : Total (lowerParams (fn.recv.toList ++ fn.params.toList) (Env.start endState))
      (StateEnv.SameTargets (Env.start endState)) :=
    fun d => (lowerParams_ensures _ _).mono fun _ _ h => h.2
  let plan : Plan := ⟨fn.name, fn.runtime, fun _ s => s.modifiesControlFlow⟩
  refine .after hparams fun env hsame => .newState fun cont => ?_
  have hbody : Reports plan.holder (flowsBranches .none fn.body)
      (lowerStmts plan fn.body entryState cont env) fun _ => True :=
    lowerStmts_reports fn.body entryState cont rfl hparts (Enclosure.none_offered hsame)
  exact hbody

/-- Lowering fails exactly at the first branch to report, and says which one it is. -/
theorem Routine.lower_eq_error_iff (fn : Routine) (hparts : ∀ s ∈ flowsParts fn.body, s.Proper)
    (e : LowerError) :
    fn.lower = .error e ↔
      ∃ b, fn.branches.find? Branch.reported = some b ∧ e = .unresolved fn.name b.kind b.label := by
  have hreports := fn.lowerBody_reports hparts
  unfold Routine.lower
  cases hfirst : fn.branches.find? Branch.reported with
  | some b =>
      rw [fn.lowerWith_eq, hreports.error b hfirst]
      simp [eq_comm]
  | none =>
      obtain ⟨⟨⟩, d, hd, -⟩ := (hreports.total hfirst).exists_ok Draft.initial
      obtain ⟨holder, hholder⟩ := Routine.exists_lowerWith_of_body
        (fun s hs => ⟨(hparts s hs).written, (hparts s hs).typed⟩) hd
      rw [hholder]
      simp

/-- Whether a branch without a target goes unnoticed: a continue to a label that stands on
no loop, in a statement that stays as it is, or a plain break under an empty label. -/
def Branch.overlooked (b : Branch) : Bool :=
  b.copied && b.kind = .cont && b.label ≠ "" && b.around.labels.contains (b.label, false) ||
    b.kind = .brk && b.label = "" && b.around.hasLabel ""

/-- A branch is reported unless it has a target or goes unnoticed. -/
theorem Branch.reported_iff {fn : Routine} {b : Branch} (hb : b ∈ fn.branches) :
    b.reported = true ↔ b.hasTarget = false ∧ b.overlooked = false := by
  cases hcopied : b.copied with
  | false => simp [Branch.reported, Branch.overlooked, hcopied, or_iff_not_imp_left]
  | true =>
      obtain htarget | ⟨hcont, hlabel, hmem⟩ := flows_copied_bound fn.body b hb hcopied
      · simp [Branch.reported, htarget]
      · simp [Branch.reported, Branch.overlooked, hcopied, hcont, hlabel, hmem]

/-- Lowering fails exactly if a branch has no target and does not go unnoticed, and it
names such a branch. -/
theorem Routine.lower_unresolved_iff (fn : Routine)
    (hparts : ∀ s ∈ flowsParts fn.body, s.Proper) :
    ((∃ kind label, fn.lower = .error (.unresolved fn.name kind label)) ↔
        ∃ b ∈ fn.branches, b.hasTarget = false ∧ b.overlooked = false) ∧
      ∀ e, fn.lower = .error e →
        ∃ b ∈ fn.branches, b.hasTarget = false ∧ e = .unresolved fn.name b.kind b.label := by
  have hreported : ∀ e, fn.lower = .error e → ∃ b ∈ fn.branches,
      (b.hasTarget = false ∧ b.overlooked = false) ∧ e = .unresolved fn.name b.kind b.label := by
    intro e he
    obtain ⟨b, hfirst, rfl⟩ := (fn.lower_eq_error_iff hparts e).mp he
    have hb := List.mem_of_find?_eq_some hfirst
    exact ⟨b, hb, (Branch.reported_iff hb).mp (List.find?_some hfirst), rfl⟩
  refine ⟨⟨?_, ?_⟩, ?_⟩
  · rintro ⟨kind, label, he⟩
    obtain ⟨b, hb, hlost, -⟩ := hreported _ he
    exact ⟨b, hb, hlost⟩
  · rintro ⟨b, hb, hlost⟩
    obtain ⟨first, hfirst⟩ := Option.isSome_iff_exists.mp
      (List.find?_isSome.mpr ⟨b, hb, (Branch.reported_iff hb).mpr hlost⟩)
    exact ⟨_, _, (fn.lower_eq_error_iff hparts _).mpr ⟨first, hfirst, rfl⟩⟩
  · intro e he
    obtain ⟨b, hb, hlost, rfl⟩ := hreported e he
    exact ⟨b, hb, hlost.1, rfl⟩

/-- A generator that breaks out of two loops at once, but continues where there is none. -/
def astray : Routine where
  name := "astray"
  recv := none
  typeParams := .absent
  params := .absent
  elem := .name "int"
  runtime := "yieldgen"
  body := [
    .labeled "outer" (.while .missing [
      .labeled "inner" (.loop .missing (.name "more") .missing [
        .yield (.lit .int "1"), .brk "outer", .cont "inner"])]),
    .labeled "all" (.block [.yield (.lit .int "2"), .cont "all"])]

theorem astray_unresolved :
    (∀ s ∈ flowsParts astray.body, s.Proper) ∧
      (∃ b ∈ astray.branches, b.hasTarget = false ∧ b.overlooked = false) ∧
      ∃ kind label, astray.lower = .error (.unresolved "astray" kind label) := by
  have hparts : ∀ s ∈ flowsParts astray.body, s.Proper := by
    intro s hs
    constructor
    · revert s
      simp [astray, flowsParts, Flow.parts, Flow.isMissing, Flow.Written]
    · revert s
      simp [astray, flowsParts, Flow.parts, Flow.isMissing, Flow.Typed]
    · revert s
      simp [astray, flowsParts, Flow.parts, Flow.isMissing, Flow.Headed]
  have hlost : ∃ b ∈ astray.branches, b.hasTarget = false ∧ b.overlooked = false := by decide
  exact ⟨hparts, hlost, (astray.lower_unresolved_iff hparts).1.mpr hlost⟩

/-- A generator that continues with a block, and hands over nothing. -/
def restless : Routine :=
  { astray with name := "restless", body := [.labeled "all" (.block [.cont "all"])] }

/-- The continue of a block that stays as it is has no target, and is not reported. -/
theorem restless_lowered : (∀ s ∈ flowsParts restless.body, s.Proper) ∧
    (∃ b ∈ restless.branches, b.hasTarget = false) ∧ ∃ holder, restless.lower = .ok holder := by
  refine ⟨fun s hs => ⟨?_, ?_, ?_⟩, by decide, _, rfl⟩
  · revert s
    simp [restless, flowsParts, Flow.parts, Flow.Written]
  · revert s
    simp [restless, flowsParts, Flow.parts, Flow.Typed]
  · revert s
    simp [restless, flowsParts, Flow.parts, Flow.Headed]

end YieldMachine
