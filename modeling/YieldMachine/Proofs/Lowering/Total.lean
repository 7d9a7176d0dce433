import YieldMachine.Proofs.Lowering.Tables
import YieldMachine.Proofs.Meaning.WellFormed

/-!
# Regular bodies can be lowered

The branches of a regular body have targets, and its declarations have types, so lowering
it does not fail.  Whether lowering fails does not depend on the draft it starts with.
-/

namespace YieldMachine

open Lowering Draft

/-- Whether a declaration has a type for every name. -/
def Flow.Typed : Flow → Prop
  | .declare d => d.names.length ≤ d.types.length
  | _ => True

/-- A regular statement is written, and typed if it is a declaration. -/
theorem Flow.Regular.written_typed {p : Place} {s : Flow} (h : s.Regular p) :
    s.Written ∧ s.Typed := by
  cases s with
  | missing => exact h.elim
  | declare d => exact ⟨trivial, Nat.le_of_eq h.1.symm⟩
  | simple stmt => exact ⟨h.1, trivial⟩
  | _ => exact ⟨trivial, trivial⟩

/-- The first part of a regular loop header is regular where it is written. -/
theorem Flow.RegularInit.parts_regular {scopes : Scopes} {part : Flow}
    (h : part.RegularInit scopes) :
    ∀ s ∈ if part.isMissing then [] else part.parts, ∃ q, s.Regular q := by
  cases part with
  | missing => simp [Flow.isMissing]
  | declare d =>
      intro s hs
      obtain rfl := List.mem_singleton.mp hs
      exact ⟨⟨scopes, false, false, []⟩, h⟩
  | simple stmt =>
      intro s hs
      obtain rfl := List.mem_singleton.mp hs
      exact ⟨⟨scopes, false, false, []⟩, h⟩
  | _ => exact h.elim

theorem Flow.RegularPost.regularInit {part : Flow} (h : part.RegularPost) (scopes : Scopes) :
    part.RegularInit scopes := by
  cases part with
  | missing => trivial
  | simple stmt => exact h
  | _ => exact h.elim

mutual

/-- Every part of a regular statement is regular where it stands. -/
theorem Flow.parts_regular {p : Place} (flow : Flow) (h : flow.Regular p) :
    ∀ s ∈ flow.parts, ∃ q, s.Regular q := by
  have hself : ∃ q, flow.Regular q := ⟨p, h⟩
  cases flow with
  | block body => exact List.forall_mem_cons.mpr ⟨hself, flows_parts_regular body h⟩
  | «while» cond body => exact List.forall_mem_cons.mpr ⟨hself, flows_parts_regular body h⟩
  | doWhile body cond => exact List.forall_mem_cons.mpr ⟨hself, flows_parts_regular body h⟩
  | walk header body => exact List.forall_mem_cons.mpr ⟨hself, flows_parts_regular body h.2⟩
  | switch tag cases => exact List.forall_mem_cons.mpr ⟨hself, cases_parts_regular cases h⟩
  | labeled label stmt => exact List.forall_mem_cons.mpr ⟨hself, stmt.parts_regular h.2.2⟩
  | ite cond body other =>
      refine List.forall_mem_cons.mpr ⟨hself, List.forall_mem_append.mpr ⟨?_, ?_⟩⟩
      · exact flows_parts_regular body h.1
      · by_cases hm : other.isMissing = true
        · simp [hm]
        · rw [if_neg hm]
          exact other.parts_regular (h.2 (by simpa using hm))
  | loop init cond post body =>
      refine List.forall_mem_cons.mpr ⟨hself, List.forall_mem_append.mpr ⟨?_, ?_⟩⟩
      · exact List.forall_mem_append.mpr
          ⟨h.1.parts_regular, (h.2.1.regularInit p.scopes).parts_regular⟩
      · exact flows_parts_regular body h.2.2
  | _ => exact List.forall_mem_singleton.mpr hself

theorem flows_parts_regular {p : Place} (fs : List Flow) (h : flowsRegular p fs) :
    ∀ s ∈ flowsParts fs, ∃ q, s.Regular q := by
  cases fs with
  | nil => simp [flowsParts]
  | cons f fs =>
      refine List.forall_mem_append.mpr ?_
      cases f with
      | declare d =>
          exact ⟨Flow.parts_regular (p := p) (.declare d) h.1, flows_parts_regular fs h.2⟩
      | _ => exact ⟨Flow.parts_regular _ h.1, flows_parts_regular fs h.2⟩

theorem cases_parts_regular {p : Place} (cases' : List FlowCase) (h : casesRegular p cases') :
    ∀ s ∈ casesParts cases', ∃ q, s.Regular q := by
  cases cases' with
  | nil => simp [casesParts]
  | cons c cs =>
      exact List.forall_mem_append.mpr ⟨c.parts_regular h.1, cases_parts_regular cs h.2⟩

theorem FlowCase.parts_regular {p : Place} (c : FlowCase) (h : c.Regular p) :
    ∀ s ∈ c.parts, ∃ q, s.Regular q := by
  cases c with
  | case values body => exact flows_parts_regular body h
  | default body => exact flows_parts_regular body h

end

/-- All parts of a regular statement are written, and its declarations are typed. -/
theorem Flow.regular_parts {p : Place} (flow : Flow) (h : flow.Regular p) :
    ∀ s ∈ flow.parts, s.Written ∧ s.Typed := fun s hs =>
  (flow.parts_regular h s hs).elim fun _ hq => hq.written_typed

theorem flows_regular_parts {p : Place} (fs : List Flow) (h : flowsRegular p fs) :
    ∀ s ∈ flowsParts fs, s.Written ∧ s.Typed := fun s hs =>
  (flows_parts_regular fs h s hs).elim fun _ hq => hq.written_typed

theorem cases_regular_parts {p : Place} (cases' : List FlowCase) (h : casesRegular p cases') :
    ∀ s ∈ casesParts cases', s.Written ∧ s.Typed := fun s hs =>
  (cases_parts_regular cases' h s hs).elim fun _ hq => hq.written_typed

theorem Lowerable.of_parts (E : LowerError → Prop) {parts : List Flow}
    (h : ∀ s ∈ parts, s.Written ∧ s.Typed) : Lowerable E parts where
  written s hs := (h s hs).1
  typed := .inr fun _ hd => (h _ hd).2

/-- Whether a context has a target for every branch that the place allows.  A continue to
a label of a loop gets its target only in the body. -/
structure StateEnv.Serves (env : StateEnv) (p : Place) (loop : Bool) : Prop where
  brk : p.brk = true → (env.break? "").isSome = true
  cont : p.cont = true → (env.continue? "").isSome = true
  breaks : ∀ l, l ≠ "" → (p.labels.lookup l).isSome = true → (env.break? l).isSome = true
  continues : ∀ l, l ≠ "" → p.labels.lookup l = some true →
    (env.continue? l).isSome = true ∨ loop = true ∧ l ∈ env.labels

section Contexts

variable {env : StateEnv} {p : Place} {loop : Bool}

theorem Env.continue?_foldl (labels : List String) (env : StateEnv) (state : Nat) (l : String) :
    Env.continue? (labels.foldl (fun env label => env.withContinue label state) env) l =
      if l ∈ labels then some state else env.continue? l := by
  induction labels generalizing env with
  | nil => simp
  | cons label labels ih =>
      rw [List.foldl_cons, ih]
      by_cases hmem : l ∈ labels
      · simp [hmem]
      · by_cases hl : l = label
        · simp [hl, Env.withContinue, Env.continue?]
        · have hne : (l == label) = false := by simpa using hl
          simp [hmem, hl, Env.withContinue, Env.continue?, List.lookup_cons, hne]

theorem Env.continue?_inLoop (env : StateEnv) (state : Nat) (l : String) :
    (env.inLoop state).continue? l =
      if l = "" ∨ l ∈ env.labels then some state else env.continue? l := by
  show Env.continue? (env.labels.foldl (fun env label => env.withContinue label state)
    ((env.withBreak "" env.next).withContinue "" state)) l = _
  rw [Env.continue?_foldl]
  by_cases hmem : l ∈ env.labels
  · simp [hmem]
  · by_cases hl : l = ""
    · simp [hl, Env.withContinue, Env.continue?]
    · have hne : (l == "") = false := by simpa using hl
      simp [hmem, hl, Env.withContinue, Env.withBreak, Env.continue?, List.lookup_cons, hne]

theorem Env.breaks_foldl (labels : List String) (env : StateEnv) (state : Nat) :
    (labels.foldl (fun env label => Env.withContinue env label state) env).breaks =
      env.breaks := by
  induction labels generalizing env with
  | nil => rfl
  | cons label labels ih => exact ih (env.withContinue label state)

theorem Env.break?_inLoop (env : StateEnv) (state : Nat) (l : String) :
    (env.inLoop state).break? l = if l = "" then some env.next else env.break? l := by
  show List.lookup l (env.labels.foldl (fun env label => Env.withContinue env label state)
    ((env.withBreak "" env.next).withContinue "" state)).breaks = _
  rw [Env.breaks_foldl]
  by_cases hl : l = ""
  · simp [hl, Env.withContinue, Env.withBreak]
  · have hne : (l == "") = false := by simpa using hl
    simp [hl, Env.withContinue, Env.withBreak, Env.break?, List.lookup_cons, hne]

theorem Env.break?_withBreak (env : StateEnv) (label : String) (state : Nat) (l : String) :
    (env.withBreak label state).break? l = if l = label then some state else env.break? l := by
  by_cases hl : l = label
  · simp [hl, Env.withBreak, Env.break?]
  · have hne : (l == label) = false := by simpa using hl
    simp [hl, Env.withBreak, Env.break?, List.lookup_cons, hne]

namespace StateEnv.Serves

theorem sameTargets {env' : StateEnv} (h : env.Serves p loop) (hsame : env.SameTargets env') :
    env'.Serves p loop := by
  obtain ⟨-, hbreaks, hcontinues, hlabels⟩ := hsame
  obtain ⟨hbrk, hcont, hbrks, hconts⟩ := h
  constructor <;> simp only [Env.break?, Env.continue?, hbreaks, hcontinues, hlabels] at *
  · exact hbrk
  · exact hcont
  · exact hbrks
  · exact hconts

/-- A statement of a block has no labels attached yet. -/
theorem child (h : env.Serves p false) (cont : Nat) (loop : Bool) :
    StateEnv.Serves (env.withNext cont).clearLabels p loop where
  brk := h.brk
  cont := h.cont
  breaks := h.breaks
  continues l hl hp := .inl ((h.continues l hl hp).resolve_right (by simp))

theorem scopes (h : env.Serves p loop) (scopes : Scopes) :
    env.Serves { p with scopes := scopes } loop := ⟨h.brk, h.cont, h.breaks, h.continues⟩

theorem inLoop (h : env.Serves p loop) (state : Nat) (scopes : Scopes) :
    StateEnv.Serves (env.inLoop state) { p.inLoop with scopes := scopes } false where
  brk _ := by simp [Env.break?_inLoop]
  cont _ := by simp [Env.continue?_inLoop]
  breaks l hl hp := by simpa [Env.break?_inLoop, hl] using h.breaks l hl hp
  continues l hl hp := by
    left
    rw [Env.continue?_inLoop]
    split
    · rfl
    · rename_i hnot
      exact (h.continues l hl hp).resolve_right fun hmem => hnot (.inr hmem.2)

theorem inSwitch (h : env.Serves p false) (state : Nat) :
    StateEnv.Serves (env.withBreak "" state).clearLabels p.inSwitch false where
  brk _ := by simp [Env.withBreak, Env.clearLabels, Env.break?]
  cont := h.cont
  breaks l hl hp := by
    have hbreak := Env.break?_withBreak env "" state l
    rw [if_neg hl] at hbreak
    show (Env.break? (env.withBreak "" state) l).isSome = true
    rw [hbreak]
    exact h.breaks l hl hp
  continues l hl hp := .inl ((h.continues l hl hp).resolve_right (by simp))

theorem labeled (h : env.Serves p false) {label : String} (hlabel : label ≠ "") (state : Nat) :
    StateEnv.Serves ((env.withLabel label).withBreak label state) (p.withLabel label loop)
      loop where
  brk hb := by
    rw [Env.break?_withBreak, if_neg (Ne.symm hlabel)]
    exact h.brk hb
  cont := h.cont
  breaks l hl hp := by
    rw [Env.break?_withBreak]
    split
    · rfl
    · rename_i hne
      refine h.breaks l hl ?_
      have : (l == label) = false := by simpa using hne
      simpa [Place.withLabel, List.lookup_cons, this] using hp
  continues l hl hp := by
    by_cases hne : l = label
    · right
      subst hne
      exact ⟨by simpa [Place.withLabel] using hp, by simp [Env.withBreak, Env.withLabel]⟩
    · left
      have : (l == label) = false := by simpa using hne
      rw [Place.withLabel, List.lookup_cons, this] at hp
      exact (h.continues l hl hp).resolve_right (by simp)

end StateEnv.Serves

end Contexts

/-- Whether a part of lowering succeeds with any draft, and its result has the property. -/
def Lowering.Total {α : Type} (x : Lowering α) (P : α → Prop) : Prop :=
  ∀ d, Ensures (fun _ => False) d x fun a _ => P a

namespace Lowering.Total

variable {α β : Type} {P : α → Prop} {Q : β → Prop}

theorem pure {a : α} (h : P a) : Total (Pure.pure a) P := fun _ => h

theorem bind {x : Lowering α} {f : α → Lowering β} (hx : Total x P)
    (hf : ∀ a, P a → Total (f a) Q) : Total (x >>= f) Q :=
  fun d => (hx d).bind fun a d' ha => hf a ha d'

theorem mono {P' : α → Prop} {x : Lowering α} (h : Total x P) (himp : ∀ a, P a → P' a) :
    Total x P' :=
  fun d => (h d).mono fun a _ => himp a

theorem newState {f : Nat → Lowering β} (h : ∀ q, Total (f q) Q) :
    Total (Lowering.newState >>= f) Q :=
  fun d => .newState (h d.size d.reserve)

theorem emit (q : Nat) (op : Op) : Total (Lowering.emit q op) fun _ => True := fun _ => trivial

/-- A part of lowering that is followed by another one. -/
theorem andThen {x : Lowering Unit} {y : Unit → Lowering β} (hx : Total x fun _ => True)
    (hy : Total (y ()) Q) : Total (x >>= y) Q :=
  hx.bind fun _ _ => hy

/-- What a successful part of lowering gives. -/
theorem exists_ok {x : Lowering α} (h : Total x P) (d : Draft) :
    ∃ a d', x d = .ok (a, d') ∧ P a := by
  have hd := h d
  unfold Ensures at hd
  cases hx : x d with
  | error e =>
      rw [hx] at hd
      exact hd.elim
  | ok p =>
      rw [hx] at hd
      exact ⟨p.1, p.2, rfl, hd⟩

end Lowering.Total

section Parts

variable {plan : Plan} {flow : Flow} {current cont : Nat} {env : StateEnv}

theorem verbatim_total (h : ∀ s ∈ flow.parts, s.Written) :
    Total (verbatim flow current env) fun _ => True := by
  obtain ⟨stmt, hstmt, hwritten⟩ := flow.exists_toStmt h
  unfold verbatim
  rw [hstmt]
  cases stmt with
  | missing => cases hwritten
  | empty => exact .pure trivial
  | _ => exact .emit _ _

theorem resetFields_total (fresh : List (Expr × Expr)) :
    Total (resetFields current fresh) fun _ => True := by
  induction fresh with
  | nil => exact .pure trivial
  | cons field fresh ih => exact (Total.emit _ _).andThen ih

theorem VarDecl.lower_total {decl : VarDecl} (h : decl.names.length ≤ decl.types.length) :
    Total (decl.lower current env) env.SameTargets := by
  intro d
  refine (hoistNames_ensures (.inr (by simpa using h)) env).bind ?_
  rintro ⟨lhs, fresh, inner⟩ d₁ ⟨-, hsame⟩
  by_cases hvalues : decl.values.isEmpty = true
  · simp only [hvalues, if_true]
    exact Total.andThen (Q := env.SameTargets) (resetFields_total fresh) (.pure hsame) d₁
  · simp only [hvalues]
    exact .emit (.pure hsame)

theorem liftDecl_total (decl : Decl) : Total (liftDecl plan decl env) env.SameTargets :=
  fun _ => (liftDecl_ensures plan decl env).mono fun _ _ h => h.2

theorem lowerTest_total (state : Nat) (cond : Expr) (body exit : Nat) :
    Total (lowerTest state cond body exit env) fun _ => True := by
  cases cond with
  | missing => exact .emit _ _
  | _ => exact (Total.emit _ _).andThen (.emit _ _)

theorem lowerTarget_total (define : Bool) (target type : Expr) (inner : StateEnv) :
    Total (lowerTarget define target type env inner) fun result => inner.SameTargets result.2 :=
  fun _ => (lowerTarget_ensures define target type env inner).mono fun _ _ h => h.2

theorem Walk.lower_total (w : Walk) :
    Total (w.lower plan current env) fun result => env.SameTargets result.2.2 := by
  refine .newState fun init => (Total.emit _ _).andThen ?_
  refine Total.bind (P := fun _ => True) (fun _ => trivial) fun it _ => ?_
  refine (Total.emit _ _).andThen ((lowerTarget_total _ _ _ env).bind ?_)
  rintro ⟨key, inner⟩ hsame
  refine (lowerTarget_total _ _ _ inner).bind ?_
  rintro ⟨value, inner'⟩ hsame'
  refine .newState fun cond => (Total.emit _ _).andThen (.newState fun body => ?_)
  exact (Total.emit _ _).andThen ((Total.emit _ _).andThen (.pure (hsame.trans hsame')))

theorem lowerArms_total (cases' : List FlowCase) :
    Total (lowerArms env cases') fun _ => True := by
  induction cases' with
  | nil => exact .pure trivial
  | cons c cs ih => exact .newState fun state => ih.bind fun _ _ => .pure trivial

theorem closeBlock_total : Total (closeBlock current cont env) fun _ => True := by
  intro d
  refine .terminated ?_
  split
  · trivial
  · trivial

theorem Flow.lowerInit_total {scopes : Scopes} (h : flow.RegularInit scopes) :
    Total (flow.lowerInit current env) env.SameTargets := by
  cases flow with
  | missing => exact .pure (.refl env)
  | declare d => exact d.lower_total (Nat.le_of_eq h.1.symm)
  | simple stmt =>
      refine (verbatim_total ?_).andThen (.pure (.refl env))
      simpa [Flow.parts, Flow.Written] using h.1
  | _ => exact h.elim

theorem Flow.lowerPost_total (h : flow.RegularPost) :
    Total (flow.lowerPost current env) fun _ => True := by
  cases flow with
  | missing => exact .pure trivial
  | simple stmt =>
      refine verbatim_total ?_
      simpa [Flow.parts, Flow.Written] using h.1
  | _ => exact h.elim

theorem stitch_total {p : Place} {lower : StateEnv → Lowering Unit} (h : flow.Regular p)
    (hlower : Total (lower (env.withNext cont).clearLabels) fun _ => True) :
    Total (stitch plan flow lower current cont env) env.SameTargets := by
  have hsplit : Total (do
      let child := (env.withNext cont).clearLabels
      let number ← reach
      if plan.split number flow then lower child else verbatim flow current child
      pure env) env.SameTargets := by
    refine fun d => .reach ?_
    dsimp only
    split
    · exact Total.andThen (Q := env.SameTargets) hlower (.pure (.refl env)) _
    · exact Total.andThen (Q := env.SameTargets)
        (verbatim_total fun s hs => (flow.regular_parts h s hs).1) (.pure (.refl env)) _
  cases flow with
  | declare d => exact d.lower_total (Nat.le_of_eq h.1.symm)
  | lift d => exact h.elim
  | _ => exact hsplit

/-- What follows a statement of a block. -/
theorem terminated_total {x : Lowering Unit} {y : Nat → Lowering Unit}
    (hx : Total x fun _ => True) (hy : ∀ q, Total (y q) fun _ => True) :
    Total (do
      if ← Lowering.terminated current then
        let fresh ← newState
        y fresh
      else x) fun _ => True := by
  intro d
  refine .terminated ?_
  split
  · exact .newState (hy d.size d.reserve)
  · exact hx d

theorem branch_total {cond : Expr} {first second : Nat} :
    Total (branch current cond first second) fun _ => True :=
  (Total.emit _ _).andThen (.emit _ _)

theorem lowerSingle_total {p : Place} {lower : StateEnv → Lowering Unit} (h : flow.Regular p)
    (hlower : ∀ cont, Total (lower (env.withNext cont).clearLabels) fun _ => True) :
    Total (lowerSingle plan flow lower current env) fun _ => True :=
  .newState fun cont => (stitch_total h (hlower cont)).bind fun _ _ =>
    terminated_total closeBlock_total fun _ => closeBlock_total

end Parts

section Recursion

variable {plan : Plan}

mutual

/-- A regular statement can be lowered where its branches have targets. -/
theorem Flow.lower_total {p : Place} {env : StateEnv} (flow : Flow) (current : Nat)
    (h : flow.Regular p) (henv : env.Serves p flow.isLoop) :
    Total (flow.lower plan current env) fun _ => True := by
  cases flow with
  | missing => exact h.elim
  | lift d => exact h.elim
  | declare d =>
      intro draft
      exact Ensures.discard ((VarDecl.lower_total (Nat.le_of_eq h.1.symm) draft).mono
        fun _ _ _ => trivial)
  | yield value => exact .emit _ _
  | finish => exact .emit _ _
  | simple stmt =>
      refine verbatim_total ?_
      simpa [Flow.parts, Flow.Written] using h.1
  | brk label =>
      have hgoal : (env.break? label).isSome = true := by
        by_cases hl : label = ""
        · subst hl
          exact henv.brk h
        · refine henv.breaks label hl ?_
          simpa [Flow.Regular, hl] using h
      obtain ⟨goal, hgoal⟩ := Option.isSome_iff_exists.mp hgoal
      simp only [Flow.lower, hgoal]
      exact .emit _ _
  | cont label =>
      have hgoal : (env.continue? label).isSome = true := by
        by_cases hl : label = ""
        · subst hl
          exact henv.cont h
        · refine (henv.continues label hl ?_).resolve_right (by simp [Flow.isLoop])
          simpa [Flow.Regular, hl] using h
      obtain ⟨goal, hgoal⟩ := Option.isSome_iff_exists.mp hgoal
      simp only [Flow.lower, hgoal]
      exact .emit _ _
  | labeled label stmt =>
      exact stmt.lower_total current h.2.2 (henv.labeled h.1 env.next)
  | block body =>
      exact .newState fun cont => lowerStmts_total body current cont h (henv.scopes _)
  | «while» cond body =>
      exact .newState fun condState => (Total.emit _ _).andThen (.newState fun bodyState =>
        (lowerTest_total _ _ _ _).andThen (.newState fun cont =>
          lowerStmts_total body bodyState cont h (henv.inLoop condState _)))
  | doWhile body cond =>
      exact .newState fun bodyState => (Total.emit _ _).andThen (.newState fun condState =>
        (lowerTest_total _ _ _ _).andThen (.newState fun cont =>
          lowerStmts_total body bodyState cont h (henv.inLoop condState _)))
  | loop init cond post body =>
      refine .newState fun initState => (Total.emit _ _).andThen ?_
      refine (Flow.lowerInit_total h.1).bind fun inner hsame => ?_
      refine .newState fun condState => (Total.emit _ _).andThen (.newState fun bodyState => ?_)
      refine (lowerTest_total _ _ _ _).andThen (.newState fun updateState => ?_)
      refine (Flow.lowerPost_total h.2.1).andThen ((Total.emit _ _).andThen ?_)
      exact .newState fun cont => lowerStmts_total body bodyState cont h.2.2
        ((henv.sameTargets hsame).inLoop updateState _)
  | walk header body =>
      refine header.lower_total.bind ?_
      rintro ⟨condState, bodyState, inner⟩ hsame
      exact .newState fun cont => lowerStmts_total body bodyState cont h.2
        ((henv.sameTargets hsame).inLoop condState _)
  | switch tag cases =>
      refine .newState fun dispatcher => (Total.emit _ _).andThen ?_
      refine (lowerArms_total cases).bind ?_
      rintro ⟨states, arms⟩ -
      refine (Total.emit _ _).andThen ?_
      have hcases := lowerCases_total cases states h (henv.inSwitch env.next)
      by_cases hdefault : cases.any FlowCase.isDefault = true
      · simp only [hdefault, if_true]
        exact hcases
      · simp only [hdefault]
        exact (Total.emit _ _).andThen hcases
  | ite cond body other =>
      have hchild : ∀ (scopes : Scopes) (loop : Bool),
          StateEnv.Serves env.clearLabels { p with scopes := scopes } loop :=
        fun scopes loop => (henv.child env.next loop).scopes scopes
      have helse : ∀ elseState, other.isMissing = false →
          Total (other.lowerElse plan elseState env.clearLabels) fun _ => True := by
        intro elseState hm
        cases other with
        | block otherBody =>
            exact .newState fun cont =>
              lowerStmts_total otherBody elseState cont (h.2 hm) (hchild _ _)
        | _ =>
            rw [Flow.lowerElse_single rfl]
            exact lowerSingle_total (h.2 hm) fun cont =>
              Flow.lower_total _ elseState (h.2 hm) ((hchild _ false).child cont _)
      rw [Flow.lower_ite]
      refine .newState fun thenState => .newState fun cont => ?_
      refine (lowerStmts_total body thenState cont h.1 (hchild _ _)).andThen ?_
      cases hm : other.isMissing with
      | true => exact branch_total
      | false =>
          refine .newState fun elseState => (helse elseState hm).andThen ?_
          split
          · exact branch_total
          · exact .emit _ _

theorem lowerStmts_total {p : Place} {env : StateEnv} (fs : List Flow) (current cont : Nat)
    (h : flowsRegular p fs) (henv : env.Serves p false) :
    Total (lowerStmts plan fs current cont env) fun _ => True := by
  cases fs with
  | nil => exact closeBlock_total
  | cons f fs =>
      have hrest : ∃ p' : Place, flowsRegular p' fs ∧
          ∀ env', env.SameTargets env' → env'.Serves p' false := by
        cases f with
        | declare d => exact ⟨_, h.2, fun env' hsame => (henv.sameTargets hsame).scopes _⟩
        | _ => exact ⟨p, h.2, fun env' hsame => henv.sameTargets hsame⟩
      obtain ⟨p', hfs, hserves⟩ := hrest
      have hf : f.Regular p := by
        cases f <;> exact h.1
      refine (stitch_total hf (f.lower_total current hf (henv.child cont _))).bind ?_
      intro env' hsame
      exact terminated_total (lowerStmts_total fs current cont hfs (hserves env' hsame))
        fun fresh => lowerStmts_total fs cont fresh hfs (hserves env' hsame)

theorem lowerCases_total {p : Place} {env : StateEnv} (cases' : List FlowCase)
    (states : List Nat) (h : casesRegular p cases') (henv : env.Serves p false) :
    Total (lowerCases plan cases' states env) fun _ => True := by
  cases cases' with
  | nil => exact .pure trivial
  | cons c cs =>
      cases states with
      | nil => exact .pure trivial
      | cons state states =>
          cases states with
          | nil => exact (c.lower_total state h.1 henv).andThen (lowerCases_total cs [] h.2 henv)
          | cons next states =>
              refine (c.lower_total state h.1 ?_).andThen
                (lowerCases_total cs (next :: states) h.2 henv)
              exact ⟨henv.brk, henv.cont, henv.breaks, henv.continues⟩

theorem FlowCase.lower_total {p : Place} {env : StateEnv} (c : FlowCase) (current : Nat)
    (h : c.Regular p) (henv : env.Serves p false) :
    Total (c.lower plan current env) fun _ => True := by
  cases c with
  | case values body =>
      exact .newState fun cont => lowerStmts_total body current cont h (henv.scopes _)
  | default body =>
      exact .newState fun cont => lowerStmts_total body current cont h (henv.scopes _)

end

end Recursion

/-- Where the statements can be lowered, the table is complete and the generator can be. -/
theorem Routine.exists_lowerWith_of_body {fn : Routine} {split : Nat → Flow → Bool} {d : Draft}
    (hparts : ∀ s ∈ flowsParts fn.body, s.Written ∧ s.Typed)
    (hd : fn.lowerBody split Draft.initial = .ok ((), d)) :
    ∃ holder, fn.lowerWith split = .ok holder := by
  have hlowerable : Lowerable (fun e => ∃ kind label, e = .unresolved fn.name kind label)
      (flowsParts fn.body) := .of_parts _ hparts
  have hcomplete := Routine.lowerWith_complete split
    (fun kind label => ⟨kind, label, rfl⟩) hlowerable
  rw [fn.lowerWith_eq, hd] at hcomplete ⊢
  simp only at hcomplete ⊢
  cases hvalid : validate fn.name (d.append endState .finish).states with
  | ok _ => exact ⟨_, rfl⟩
  | error e =>
      rw [hvalid] at hcomplete
      obtain ⟨kind, label, rfl⟩ := hcomplete.2 e rfl
      unfold validate at hvalid
      split at hvalid <;> cases hvalid

/-- A regular generator can be lowered, whichever statements are split. -/
theorem Routine.exists_lowerWith {fn : Routine} (h : fn.Regular) (split : Nat → Flow → Bool) :
    ∃ holder, fn.lowerWith split = .ok holder := by
  have hbody : Total (fn.lowerBody split) fun _ => True := by
    refine Total.bind (fun d => (lowerParams_ensures _ _).mono fun _ _ h => h.2) ?_
    intro env hsame
    refine .newState fun cont => lowerStmts_total fn.body entryState cont h ?_
    refine StateEnv.Serves.sameTargets ⟨?_, ?_, ?_, ?_⟩ hsame
    · simp
    · simp
    · simp
    · simp
  obtain ⟨⟨⟩, d, hd, -⟩ := hbody.exists_ok Draft.initial
  exact Routine.exists_lowerWith_of_body (flows_regular_parts fn.body h) hd

end YieldMachine
