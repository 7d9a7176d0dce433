import YieldMachine.Proofs.Meaning.WellFormed

/-!
# How the statements of a generator body end

A regular statement ends normally, ends the generator, or ends in a branch that has a
target around it.  A statement that does not change the control flow of its generator
ends normally.
-/

namespace YieldMachine

variable {α β : Type}

/-- Whether every result that a course ends with has the property. -/
def Course.Ends (P : α → Prop) : Course α → Prop
  | .done a _ => P a
  | .fault _ _ => True
  | .emit _ _ resume => ∀ h, (resume h).Ends P

namespace Course

variable {P P' : α → Prop} {Q : β → Prop}

theorem Ends.mono {t : Course α} (h : t.Ends P) (himp : ∀ a, P a → P' a) : t.Ends P' := by
  induction t with
  | done a m => exact himp a h
  | fault e heap => trivial
  | emit value heap resume ih => exact fun heap' => ih heap' (h heap')

theorem Ends.bind {t : Course α} (h : t.Ends P) {f : α → Memory → Course β}
    (hf : ∀ a m, P a → (f a m).Ends Q) : (t.bind f).Ends Q := by
  induction t with
  | done a m => exact hf a m h
  | fault e heap => trivial
  | emit value heap resume ih => exact fun heap' => ih heap' (h heap')

theorem ends_any (t : Course α) : t.Ends fun _ => True := by
  induction t with
  | done a m => trivial
  | fault e heap => trivial
  | emit value heap resume ih => exact ih

end Course

/-- Whether every result of a computation has the property. -/
def Action.Ends (P : α → Prop) (x : Action α) : Prop := ∀ m, (x m).Ends P

namespace Action

variable {P P' : α → Prop} {Q : β → Prop}

theorem Ends.pure {a : α} (h : P a) : Action.Ends P (Pure.pure a) := fun _ => h

theorem Ends.bind {x : Action α} (h : x.Ends P) {f : α → Action β}
    (hf : ∀ a, P a → (f a).Ends Q) : Action.Ends Q (x >>= f) :=
  fun m => (h m).bind fun a m ha => hf a ha m

theorem Ends.mono {x : Action α} (h : x.Ends P) (himp : ∀ a, P a → P' a) : x.Ends P' :=
  fun m => (h m).mono himp

theorem ends_any (x : Action α) : x.Ends fun _ => True := fun m => (x m).ends_any

theorem Ends.inScope {x : Action α} (h : x.Ends P) : (inScope x).Ends P :=
  fun _ => (h _).bind fun _ _ ha => ha

theorem ends_stop (e : Fault) : Action.Ends P (stop e) := fun _ => trivial

end Action

/-- Whether a way to end has a target at the place. -/
def Place.Allows (p : Place) : Ending → Prop
  | .normal | .finish => True
  | .brk l => if l = "" then p.brk = true else (p.labels.lookup l).isSome = true
  | .cont l => if l = "" then p.cont = true else p.labels.lookup l = some true

/-- Whether a way to end stays among the targets. -/
def Bound.Covers (b : Bound) : Ending → Prop
  | .normal => True
  | .finish => False
  | .brk l => if l = "" then b.brk = true else l ∈ b.labels
  | .cont l => if l = "" then b.cont = true else l ∈ b.labels

/-- How a statement may end: its branches have a target at the place, and stay among the
given targets if it does not escape from these. -/
def EndsAt (p : Place) (b : Bound) (escapes : Bool) (c : Ending) : Prop :=
  p.Allows c ∧ (escapes = false → b.Covers c)

theorem EndsAt.normal (p : Place) (b : Bound) (escapes : Bool) : EndsAt p b escapes .normal :=
  ⟨trivial, fun _ => trivial⟩

/-- How a loop may end, given how its body does. -/
theorem rounds_ends {β : Type} {p : Place} {b : Bound} {escapes : Bool} {labels : List String}
    {test : β → Eff Memory Bool} {body : Action Ending} {post : Eff Memory β}
    (hbody : body.Ends (EndsAt p.inLoop b.inLoop escapes)) (n : Nat) (state : β) :
    (rounds labels test body post n state).Ends fun c =>
      EndsAt p b escapes c ∧ ∀ l ∈ labels, c ≠ .cont l := by
  induction n generalizing state with
  | zero => exact Action.ends_stop _
  | succ n ih =>
      refine (Action.ends_any _).bind fun more _ => ?_
      cases more with
      | false => exact .pure ⟨.normal p b escapes, by simp⟩
      | true =>
          refine hbody.bind fun c hc => ?_
          cases c with
          | normal => exact (Action.ends_any _).bind fun state' _ => ih state'
          | finish => exact .pure ⟨hc, by simp⟩
          | brk l =>
              by_cases hl : l = ""
              · simp only [Ending.afterBody, hl, if_true]
                exact .pure ⟨.normal p b escapes, by simp⟩
              · simp only [Ending.afterBody, hl, if_false]
                refine .pure ⟨⟨?_, fun he => ?_⟩, by simp⟩
                · simpa [Place.Allows, Place.inLoop, hl] using hc.1
                · simpa [Bound.Covers, Bound.inLoop, hl] using hc.2 he
          | cont l =>
              by_cases hl : l = "" ∨ l ∈ labels
              · simp only [Ending.afterBody, hl, if_true]
                exact (Action.ends_any _).bind fun state' _ => ih state'
              · simp only [Ending.afterBody, hl, if_false]
                rw [not_or] at hl
                refine .pure ⟨⟨?_, fun he => ?_⟩, ?_⟩
                · simpa [Place.Allows, Place.inLoop, hl.1] using hc.1
                · simpa [Bound.Covers, Bound.inLoop, hl.1] using hc.2 he
                · rintro l' hl' heq
                  cases heq
                  exact hl.2 hl'

/-- How a labelled statement may end, given how the statement does. -/
theorem EndsAt.leave {p : Place} {b : Bound} {escapes loop : Bool} {label : String} {c : Ending}
    (hlabel : label ≠ "") (h : EndsAt (p.withLabel label loop) (b.withLabel label) escapes c)
    (hloop : loop = true → c ≠ .cont label) : EndsAt p b escapes (c.leave label) := by
  cases c with
  | normal => exact .normal p b escapes
  | finish => exact h
  | brk l =>
      by_cases hl : l = label
      · simp only [Ending.leave, hl, if_true]
        exact .normal p b escapes
      · have hne : (l == label) = false := by simpa using hl
        simp only [Ending.leave, hl, if_false]
        refine ⟨?_, fun he => ?_⟩
        · simpa [Place.Allows, Place.withLabel, List.lookup_cons, hne] using h.1
        · simpa [Bound.Covers, Bound.withLabel, hl] using h.2 he
  | cont l =>
      have hl : l ≠ label := by
        rintro rfl
        have hallow := h.1
        simp only [Place.Allows, hlabel, if_false, Place.withLabel, List.lookup_cons,
          beq_self_eq_true, Option.some.injEq] at hallow
        exact hloop hallow rfl
      have hne : (l == label) = false := by simpa using hl
      simp only [Ending.leave]
      refine ⟨?_, fun he => ?_⟩
      · simpa [Place.Allows, Place.withLabel, List.lookup_cons, hne] using h.1
      · simpa [Bound.Covers, Bound.withLabel, hl] using h.2 he

/-- How a switch may end, given how its cases do. -/
theorem EndsAt.leaveSwitch {p : Place} {b : Bound} {escapes : Bool} {c : Ending}
    (h : EndsAt p.inSwitch b.inSwitch escapes c) : EndsAt p b escapes (c.leave "") := by
  cases c with
  | normal => exact .normal p b escapes
  | finish => exact h
  | cont l => exact h
  | brk l =>
      by_cases hl : l = ""
      · simp only [Ending.leave, hl, if_true]
        exact .normal p b escapes
      · simp only [Ending.leave, hl, if_false]
        refine ⟨?_, fun he => ?_⟩
        · simpa [Place.Allows, Place.inSwitch, hl] using h.1
        · simpa [Bound.Covers, Bound.inSwitch, hl] using h.2 he

theorem EndsAt.mono {p : Place} {b : Bound} {escapes escapes' : Bool} {c : Ending}
    (h : EndsAt p b escapes c) (himp : escapes' = false → escapes = false) :
    EndsAt p b escapes' c :=
  ⟨h.1, fun he => h.2 (himp he)⟩

section

variable (s : Session) (n : Nat)

section Forms

variable {p : Place} {b : Bound} {flow : Flow} {labels : List String}

/-- Only a loop has to say which continues it does not end in. -/
theorem Flow.ends_of_not_loop (hloop : flow.isLoop = false) {x : Action Ending}
    (h : x.Ends (EndsAt p b (flow.escapes b))) :
    x.Ends fun c =>
      EndsAt p b (flow.escapes b) c ∧ (flow.isLoop = true → ∀ l ∈ labels, c ≠ .cont l) :=
  h.mono fun _ hc => ⟨hc, fun htrue => by simp [hloop] at htrue⟩

theorem yield_ends (value : Expr) :
    ((Flow.yield value).exec s n labels).Ends (EndsAt p b ((Flow.yield value).escapes b)) := by
  cases value with
  | missing => exact .pure (.normal ..)
  | _ =>
      exact (Action.ends_any _).bind fun _ _ => (Action.ends_any _).bind fun _ _ =>
        .pure (.normal ..)

theorem ite_ends {cond : Expr} {body : List Flow} {other : Flow}
    (hbody : (execFlows s n body).Ends (EndsAt p.inner b (anyEscapes b body)))
    (hother : other.isMissing = false →
      (other.exec s n []).Ends (EndsAt p.inner b (other.escapes b))) :
    ((Flow.ite cond body other).exec s n labels).Ends
      (EndsAt p b ((Flow.ite cond body other).escapes b)) := by
  simp only [Flow.exec]
  refine (Action.ends_any _).bind fun holds _ => ?_
  cases holds with
  | true =>
      refine hbody.inScope.mono fun c hc => EndsAt.mono hc ?_
      simp only [Flow.escapes, Bool.or_eq_false_iff]
      exact fun he => he.1
  | false =>
      cases hm : other.isMissing with
      | true => exact .pure (.normal ..)
      | false =>
          refine (hother hm).inScope.mono fun c hc => EndsAt.mono hc ?_
          simp only [Flow.escapes, Bool.or_eq_false_iff]
          exact fun he => he.2

theorem Bound.covers_brk {label : String} (h : (Flow.brk label).escapes b = false) :
    b.Covers (.brk label) := by
  simp only [Flow.escapes] at h
  simp only [Bound.Covers]
  split at h
  · rw [if_pos ‹_›]
    simpa using h
  · rw [if_neg ‹_›]
    simpa using h

theorem Bound.covers_cont {label : String} (h : (Flow.cont label).escapes b = false) :
    b.Covers (.cont label) := by
  simp only [Flow.escapes] at h
  simp only [Bound.Covers]
  split at h
  · rw [if_pos ‹_›]
    simpa using h
  · rw [if_neg ‹_›]
    simpa using h

end Forms

mutual

/-- How a regular statement ends.  A loop does not end in a continue to its labels. -/
theorem Flow.exec_ends {p : Place} (b : Bound) (labels : List String) (flow : Flow)
    (h : flow.Regular p) :
    (flow.exec s n labels).Ends fun c =>
      EndsAt p b (flow.escapes b) c ∧ (flow.isLoop = true → ∀ l ∈ labels, c ≠ .cont l) := by
  cases flow with
  | missing | lift => exact h.elim
  | block body =>
      refine Flow.ends_of_not_loop rfl ?_
      simp only [Flow.exec]
      exact (execFlows_ends b body h).inScope
  | declare d =>
      refine Flow.ends_of_not_loop rfl ?_
      simp only [Flow.exec]
      exact (Action.ends_any _).bind fun _ _ => .pure (.normal ..)
  | yield value => exact Flow.ends_of_not_loop rfl (yield_ends s n value)
  | finish => exact Flow.ends_of_not_loop rfl (.pure ⟨trivial, nofun⟩)
  | ite cond body other =>
      exact Flow.ends_of_not_loop rfl (ite_ends s n (execFlows_ends b body h.1) fun hm =>
        (Flow.exec_ends b [] other (h.2 hm)).mono fun _ hc => hc.1)
  | «while» cond body =>
      simp only [Flow.exec]
      exact (rounds_ends (p := p) (execFlows_ends b.inLoop body h).inScope n ()).mono
        fun c hc => ⟨hc.1, fun _ => hc.2⟩
  | doWhile body cond =>
      simp only [Flow.exec]
      exact (rounds_ends (p := p) (execFlows_ends b.inLoop body h).inScope n _).mono
        fun c hc => ⟨hc.1, fun _ => hc.2⟩
  | loop init cond post body =>
      simp only [Flow.exec]
      refine Action.Ends.inScope ((Action.ends_any _).bind fun _ _ => ?_)
      exact (rounds_ends (p := p) (execFlows_ends b.inLoop body h.2.2).inScope n ()).mono
        fun c hc => ⟨hc.1, fun _ => hc.2⟩
  | walk header body =>
      simp only [Flow.exec]
      refine (Action.ends_any _).bind fun it _ => ?_
      exact (rounds_ends (p := p) (Action.Ends.inScope ((Action.ends_any _).bind fun _ _ =>
        (execFlows_ends b.inLoop body h.2).inScope)) n ()).mono
          fun c hc => ⟨hc.1, fun _ => hc.2⟩
  | switch tag cases =>
      refine Flow.ends_of_not_loop rfl ?_
      simp only [Flow.exec]
      refine (Action.ends_any _).bind fun choice _ => ?_
      cases choice with
      | none => exact .pure (.normal ..)
      | some i => exact execCases_ends b i cases h
  | labeled label stmt =>
      refine Flow.ends_of_not_loop rfl ?_
      simp only [Flow.exec]
      refine (stmt.exec_ends (b.withLabel label) (labels ++ [label]) h.2.2).bind fun c hc => ?_
      exact .pure (hc.1.leave h.1 fun hloop => hc.2 hloop label (by simp))
  | brk label => exact Flow.ends_of_not_loop rfl (.pure ⟨h, Bound.covers_brk⟩)
  | cont label => exact Flow.ends_of_not_loop rfl (.pure ⟨h, Bound.covers_cont⟩)
  | simple stmt =>
      refine Flow.ends_of_not_loop rfl ?_
      simp only [Flow.exec]
      exact (Action.ends_any _).bind fun _ _ => .pure (.normal ..)

theorem execFlows_ends {p : Place} (b : Bound) (fs : List Flow) (h : flowsRegular p fs) :
    (execFlows s n fs).Ends (EndsAt p b (anyEscapes b fs)) := by
  cases fs with
  | nil => exact .pure (.normal ..)
  | cons f fs =>
      have hcons : ∃ p' : Place, f.Regular p ∧ flowsRegular p' fs ∧
          (∀ c, p'.Allows c ↔ p.Allows c) := by
        cases f with
        | declare d => exact ⟨_, h.1, h.2, fun c => by cases c <;> exact Iff.rfl⟩
        | _ => exact ⟨p, h.1, h.2, fun c => Iff.rfl⟩
      obtain ⟨p', hf, hfs, hp⟩ := hcons
      simp only [execFlows]
      refine (f.exec_ends b [] hf).bind fun c hc => ?_
      have hthis : EndsAt p b (anyEscapes b (f :: fs)) c := by
        refine hc.1.mono ?_
        simp only [anyEscapes, Bool.or_eq_false_iff]
        exact fun he => he.1
      cases c with
      | normal =>
          refine (execFlows_ends b fs hfs).mono fun c hc => ⟨(hp c).mp hc.1, ?_⟩
          simp only [anyEscapes, Bool.or_eq_false_iff]
          exact fun he => hc.2 he.2
      | _ => exact .pure hthis

theorem execCases_ends {p : Place} (b : Bound) (i : Nat) (cases' : List FlowCase)
    (h : casesRegular p.inSwitch cases') :
    (execCases s n i cases').Ends (EndsAt p b (anyCaseEscapes b.inSwitch cases')) := by
  cases cases' with
  | nil => exact fun _ => .normal ..
  | cons c cs =>
      have hrest : ∀ j, (execCases s n j cs).Ends
          (EndsAt p b (anyCaseEscapes b.inSwitch (c :: cs))) := by
        intro j
        refine (execCases_ends b j cs h.2).mono fun e he => he.mono ?_
        simp only [anyCaseEscapes, Bool.or_eq_false_iff]
        exact fun he => he.2
      cases i with
      | succ i =>
          simp only [execCases]
          exact hrest i
      | zero =>
          simp only [execCases]
          refine (c.exec_ends b.inSwitch h.1).inScope.bind fun e he => ?_
          have hleave : EndsAt p b (anyCaseEscapes b.inSwitch (c :: cs)) (e.leave "") := by
            refine he.leaveSwitch.mono ?_
            simp only [anyCaseEscapes, Bool.or_eq_false_iff]
            exact fun he => he.1
          cases e with
          | normal => exact hrest 0
          | _ => exact .pure hleave

theorem FlowCase.exec_ends {p : Place} (b : Bound) (c : FlowCase) (h : c.Regular p) :
    (c.exec s n).Ends (EndsAt p b (c.escapes b)) := by
  cases c with
  | case values body => exact execFlows_ends (p := p.inner) b body h
  | default body => exact execFlows_ends (p := p.inner) b body h

end

end

/-- A statement that does not change the control flow of its generator ends normally. -/
theorem Flow.exec_normal (s : Session) (n : Nat) {p : Place} {flow : Flow}
    (h : flow.Regular p) (hflow : flow.modifiesControlFlow = false) :
    (flow.exec s n []).Ends fun c => c = .normal := by
  refine (flow.exec_ends s n .none [] h).mono fun c hc => ?_
  have hcovers := hc.1.2 hflow
  cases c with
  | normal => rfl
  | finish => exact hcovers.elim
  | brk l => simp [Bound.Covers, Bound.none] at hcovers
  | cont l => simp [Bound.Covers, Bound.none] at hcovers

end YieldMachine
