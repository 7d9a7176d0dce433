import YieldMachine.Machine.Consumer
import YieldMachine.Proofs.Interp.Bounded

/-!
# What a sequence delivers

`PlainRun` enters the states of a machine one after the other, without a consumer.  A sequence
hands over the elements of such a run in their order, and whatever its consumer asks, it has
entered the states up to the element after the last one it handed over, and no others.
-/

namespace YieldMachine

variable {σ τ α : Type}

/-- A state that was entered, and the bounce that it returned. -/
structure Visit (τ α : Type) where
  entered : τ
  bounce : Bounce τ α

/-- The element of a visit: a value counts only if the machine goes on. -/
def Visit.element? (v : Visit τ α) : Option α := v.bounce.next.bind fun _ => v.bounce.value

/-- The elements of some visits, in their order. -/
def elements (vs : List (Visit τ α)) : List α := vs.filterMap Visit.element?

/-- The visits up to and including the one with element number `k`, counted from 0, or all of
them if there are not as many elements. -/
def upTo : Nat → List (Visit τ α) → List (Visit τ α)
  | _, [] => []
  | k, v :: vs =>
    match v.element?, k with
    | none, k => v :: upTo k vs
    | some _, 0 => [v]
    | some _, k + 1 => v :: upTo k vs

/-- Runs of a machine, step by step, from where it is to go on to where it goes on after the
visits; it goes on nowhere once a bounce has no next step. -/
inductive PlainRun (step : τ → Eff σ (Bounce τ α)) :
    Option τ → σ → List (Visit τ α) → Option τ → σ → Prop
  | stay (o : Option τ) (m : σ) : PlainRun step o m [] o m
  | visit {t : τ} {b : Bounce τ α} {vs : List (Visit τ α)} {o : Option τ} {m m₁ m₂ : σ} :
      step t m = .ok b m₁ → PlainRun step b.next m₁ vs o m₂ →
      PlainRun step (some t) m (⟨t, b⟩ :: vs) o m₂

/-- The step of a machine that also writes down which state it enters. -/
def recorded (step : τ → Eff σ (Bounce τ α)) (t : τ) : Eff (σ × List τ) (Bounce τ α) := fun m =>
  match step t m.1 with
  | .ok b m' => .ok b (m', m.2 ++ [t])
  | .error e m' => .error e (m', m.2 ++ [t])

/-- A call that a consumer makes. -/
inductive Call where
  | hasNext
  | next
  deriving DecidableEq, Repr

/-- How many elements some calls take. -/
def nexts (calls : List Call) : Nat := calls.count .next

/-- What a list of elements answers to some calls. -/
def answers (zero : α) : List α → List Call → List (Reply α)
  | _, [] => []
  | es, .hasNext :: calls => .flag (!es.isEmpty) :: answers zero es calls
  | [], .next :: calls => .element zero :: answers zero [] calls
  | e :: es, .next :: calls => .element e :: answers zero es calls

namespace Sequence

/-- What a sequence answers to some calls. -/
def consume (step : τ → Eff σ (Bounce τ α)) (fuel : Nat) (zero : α) :
    Sequence τ α → List Call → Eff σ (List (Reply α))
  | _, [] => pure []
  | s, .hasNext :: calls => do
    let replies ← consume step fuel zero s calls
    return .flag s.hasNext :: replies
  | s, .next :: calls => do
    let (value, s) ← s.next step fuel zero
    let replies ← consume step fuel zero s calls
    return .element value :: replies

/-- What a machine answers to some calls once it is started. -/
def session (step : τ → Eff σ (Bounce τ α)) (fuel : Nat) (zero : α) (entry : τ)
    (calls : List Call) : Eff σ (List (Reply α)) := do
  let s ← start step fuel entry
  s.consume step fuel zero calls

/-- Where a sequence goes on. -/
def held (s : Sequence τ α) : Option τ := s.ahead.map Prod.snd

/-- The element that a sequence holds, if there is one. -/
def buffer (s : Sequence τ α) : List α := (s.ahead.map Prod.fst).toList

end Sequence

section Visits

variable {t u : τ} {value : α}

@[simp]
theorem elements_nil : elements ([] : List (Visit τ α)) = [] := rfl

@[simp]
theorem elements_append (us vs : List (Visit τ α)) :
    elements (us ++ vs) = elements us ++ elements vs := List.filterMap_append

@[simp]
theorem elements_silent (vs : List (Visit τ α)) :
    elements (⟨t, ⟨some u, none⟩⟩ :: vs) = elements vs := rfl

@[simp]
theorem elements_emit (vs : List (Visit τ α)) :
    elements (⟨t, ⟨some u, some value⟩⟩ :: vs) = value :: elements vs := rfl

@[simp]
theorem elements_last (value : Option α) (vs : List (Visit τ α)) :
    elements (⟨t, ⟨none, value⟩⟩ :: vs) = elements vs := rfl

@[simp]
theorem upTo_nil (k : Nat) : upTo k ([] : List (Visit τ α)) = [] := by
  cases k <;> rfl

end Visits

namespace PlainRun

variable {step : τ → Eff σ (Bounce τ α)} {o o₁ o₂ : Option τ} {m m₁ m₂ : σ}
  {us vs : List (Visit τ α)}

/-- A machine at its end enters no state. -/
theorem of_none (h : PlainRun step none m vs o m₁) : vs = [] ∧ o = none ∧ m₁ = m := by
  cases h
  exact ⟨rfl, rfl, rfl⟩

theorem append (h₁ : PlainRun step o m us o₁ m₁) (h₂ : PlainRun step o₁ m₁ vs o₂ m₂) :
    PlainRun step o m (us ++ vs) o₂ m₂ := by
  induction h₁ with
  | stay => exact h₂
  | visit hstep _ ih => exact .visit hstep (ih h₂)

/-- Recording changes nothing but the record, which gets the states that are entered. -/
theorem recorded_iff {log log' : List τ} :
    PlainRun (recorded step) o (m, log) vs o₁ (m₁, log') ↔
      PlainRun step o m vs o₁ m₁ ∧ log' = log ++ vs.map Visit.entered := by
  induction vs generalizing o m log with
  | nil =>
      constructor
      · intro h
        cases h
        exact ⟨.stay _ _, by simp⟩
      · rintro ⟨h, rfl⟩
        cases h
        simpa using PlainRun.stay _ _
  | cons v vs ih =>
      constructor
      · intro h
        cases h with
        | visit hstep hrest =>
            rename_i t b m'
            unfold recorded at hstep
            split at hstep
            · rename_i b' m'' hok
              cases hstep
              obtain ⟨hrun, hlog⟩ := ih.mp hrest
              exact ⟨.visit hok hrun, by simpa using hlog⟩
            · cases hstep
      · rintro ⟨h, rfl⟩
        cases h with
        | visit hstep hrest =>
            rename_i t b m'
            have hrecorded : recorded step t (m, log) = .ok b (m', log ++ [t]) := by
              simp [recorded, hstep]
            exact .visit hrecorded (ih.mpr ⟨hrest, by simp⟩)

end PlainRun

/-- Runs of a machine from a state to its next element or its end, with the sequence that
stands there. -/
inductive Leg (step : τ → Eff σ (Bounce τ α)) :
    τ → σ → List (Visit τ α) → Sequence τ α → σ → Prop
  | silent {t u : τ} {vs : List (Visit τ α)} {s : Sequence τ α} {m m₁ m₂ : σ} :
      step t m = .ok ⟨some u, none⟩ m₁ → Leg step u m₁ vs s m₂ →
      Leg step t m (⟨t, ⟨some u, none⟩⟩ :: vs) s m₂
  | emits {t u : τ} {value : α} {m m₁ : σ} :
      step t m = .ok ⟨some u, some value⟩ m₁ →
      Leg step t m [⟨t, ⟨some u, some value⟩⟩] ⟨some (value, u)⟩ m₁
  | ends {t : τ} {value : Option α} {m m₁ : σ} :
      step t m = .ok ⟨none, value⟩ m₁ → Leg step t m [⟨t, ⟨none, value⟩⟩] ⟨none⟩ m₁

namespace Leg

variable {step : τ → Eff σ (Bounce τ α)} {t : τ} {m m₁ m₂ : σ} {us ws : List (Visit τ α)}
  {s : Sequence τ α} {o : Option τ}

theorem plainRun (h : Leg step t m us s m₁) : PlainRun step (some t) m us s.held m₁ := by
  induction h with
  | silent hstep _ ih => exact .visit hstep ih
  | emits hstep => exact .visit hstep (.stay _ _)
  | ends hstep => exact .visit hstep (.stay _ _)

theorem length_pos (h : Leg step t m us s m₁) : 0 < us.length := by
  cases h <;> simp

theorem elements_eq (h : Leg step t m us s m₁) : elements us = s.buffer := by
  induction h with
  | silent _ _ ih => exact ih
  | emits => rfl
  | ends => rfl

/-- A leg is the part of a run that leads to its first element. -/
theorem upTo_zero (h : Leg step t m us s m₁) (hrest : PlainRun step s.held m₁ ws o m₂) :
    upTo 0 (us ++ ws) = us := by
  induction h with
  | silent _ _ ih => exact congrArg _ (ih hrest)
  | emits => rfl
  | ends =>
      obtain ⟨rfl, -⟩ := hrest.of_none
      rfl

theorem upTo_succ (h : Leg step t m us s m₁) (hrest : PlainRun step s.held m₁ ws o m₂) (k : Nat) :
    upTo (k + 1) (us ++ ws) = us ++ upTo k ws := by
  induction h with
  | silent _ _ ih => exact congrArg _ (ih hrest)
  | emits => rfl
  | ends =>
      obtain ⟨rfl, -⟩ := hrest.of_none
      simp [upTo, Visit.element?]

/-- Starting a machine makes it run a leg, if the bound allows it. -/
theorem start_eq (h : Leg step t m us s m₁) {fuel : Nat} (hfuel : us.length ≤ fuel) :
    Sequence.start step fuel t m = .ok s m₁ := by
  induction h generalizing fuel with
  | silent hstep _ ih =>
      obtain ⟨fuel, rfl⟩ : ∃ n, fuel = n + 1 := ⟨fuel - 1, by simp at hfuel; omega⟩
      have hrest := ih (by simpa using hfuel)
      simp only [Sequence.start, Bounce.trampoline, eff_bind_apply, hstep] at hrest ⊢
      exact hrest
  | emits hstep =>
      obtain ⟨fuel, rfl⟩ : ∃ n, fuel = n + 1 := ⟨fuel - 1, by simp at hfuel; omega⟩
      simp [Sequence.start, Bounce.trampoline, eff_bind_apply, hstep]
  | ends hstep =>
      obtain ⟨fuel, rfl⟩ : ∃ n, fuel = n + 1 := ⟨fuel - 1, by simp at hfuel; omega⟩
      simp [Sequence.start, Bounce.trampoline, eff_bind_apply, hstep]

/-- A machine that could be started has run a leg. -/
theorem of_start {fuel : Nat} (h : Sequence.start step fuel t m = .ok s m₁) :
    ∃ us, Leg step t m us s m₁ := by
  induction fuel generalizing t m with
  | zero => simp [Sequence.start, Bounce.trampoline, eff_bind_apply] at h
  | succ fuel ih =>
      cases hstep : step t m with
      | error e m' => simp [Sequence.start, Bounce.trampoline, eff_bind_apply, hstep] at h
      | ok b m' =>
          obtain ⟨next, value⟩ := b
          cases next with
          | none =>
              simp [Sequence.start, Bounce.trampoline, eff_bind_apply, hstep] at h
              obtain ⟨rfl, rfl⟩ := h
              exact ⟨_, .ends hstep⟩
          | some u =>
              cases value with
              | none =>
                  simp only [Sequence.start, Bounce.trampoline, eff_bind_apply, hstep] at h ih
                  obtain ⟨us, hleg⟩ := ih h
                  exact ⟨_, .silent hstep hleg⟩
              | some value =>
                  simp [Sequence.start, Bounce.trampoline, eff_bind_apply, hstep] at h
                  obtain ⟨rfl, rfl⟩ := h
                  exact ⟨_, .emits hstep⟩

end Leg

/-- A plain run that meets an element or ends starts with a leg. -/
theorem PlainRun.leg {step : τ → Eff σ (Bounce τ α)} {t : τ} {m m' : σ} {vs : List (Visit τ α)}
    {o : Option τ} (h : PlainRun step (some t) m vs o m')
    (hfar : 0 < (elements vs).length ∨ o = none) :
    ∃ us rest s m₁,
      vs = us ++ rest ∧ Leg step t m us s m₁ ∧ PlainRun step s.held m₁ rest o m' := by
  induction vs generalizing t m with
  | nil =>
      cases h
      simp at hfar
  | cons v vs ih =>
      cases h with
      | visit hstep hrest =>
          rename_i b m₁
          obtain ⟨next, value⟩ := b
          cases next with
          | none => exact ⟨[_], vs, ⟨none⟩, m₁, rfl, .ends hstep, hrest⟩
          | some u =>
              cases value with
              | some value => exact ⟨[_], vs, ⟨some (value, u)⟩, m₁, rfl, .emits hstep, hrest⟩
              | none =>
                  obtain ⟨us, rest, s, m₂, rfl, hleg, hrun⟩ := ih hrest hfar
                  exact ⟨_ :: us, rest, s, m₂, rfl, .silent hstep hleg, hrun⟩

/-- The visits that `k` calls for an element make a sequence run, out of those ahead of it. -/
def used : Nat → List (Visit τ α) → List (Visit τ α)
  | 0, _ => []
  | k + 1, vs => upTo k vs

theorem Leg.upTo_eq_used {step : τ → Eff σ (Bounce τ α)} {t : τ} {m m₁ m₂ : σ}
    {us ws : List (Visit τ α)} {s : Sequence τ α} {o : Option τ} (h : Leg step t m us s m₁)
    (hrest : PlainRun step s.held m₁ ws o m₂) (k : Nat) :
    upTo k (us ++ ws) = us ++ used k ws := by
  cases k with
  | zero => rw [h.upTo_zero hrest, used, List.append_nil]
  | succ k => exact h.upTo_succ hrest k

namespace Sequence

variable {step : τ → Eff σ (Bounce τ α)} {s : Sequence τ α} {m m' : σ} {o : Option τ}
  {rest : List (Visit τ α)} {fuel : Nat}

theorem hasNext_eq (h : PlainRun step s.held m rest o m') :
    s.hasNext = !(s.buffer ++ elements rest).isEmpty := by
  obtain ⟨ahead⟩ := s
  cases ahead with
  | some p => rfl
  | none =>
      obtain ⟨rfl, -⟩ := h.of_none
      rfl

/-- A sequence in front of a plain run gives the elements of the run after its own one. -/
theorem consume_of_plainRun (zero : α) (calls : List Call)
    (h : PlainRun step s.held m rest o m')
    (hfar : nexts calls < (s.buffer ++ elements rest).length ∨ o = none) :
    ∃ o₁ m₁, PlainRun step s.held m (used (nexts calls) rest) o₁ m₁ ∧
      ∀ fuel, rest.length ≤ fuel → s.consume step fuel zero calls m =
        .ok (answers zero (s.buffer ++ elements rest) calls) m₁ := by
  induction calls generalizing s m rest with
  | nil => exact ⟨_, _, .stay _ _, fun _ _ => rfl⟩
  | cons call calls ih =>
      cases call with
      | hasNext =>
          obtain ⟨o₁, m₁, hrun, hok⟩ := ih h hfar
          refine ⟨o₁, m₁, hrun, fun fuel hfuel => ?_⟩
          simp [consume, answers, eff_bind_apply, hok fuel hfuel, hasNext_eq h]
      | next =>
          obtain ⟨ahead⟩ := s
          cases ahead with
          | none =>
              -- the run is over, so that `rest` is empty and no call runs anything
              obtain ⟨rfl, rfl, rfl⟩ := h.of_none
              obtain ⟨o₁, m₁, hrun, hok⟩ := ih h (.inr rfl)
              obtain ⟨-, rfl, rfl⟩ := hrun.of_none
              refine ⟨none, m₁, by simpa [nexts, used] using h, fun fuel hfuel => ?_⟩
              simp only [consume, next, eff_bind_apply, eff_pure_apply, hok fuel hfuel]
              rfl
          | some p =>
              obtain ⟨value, t⟩ := p
              have hlen : nexts (.next :: calls) = nexts calls + 1 := by simp [nexts]
              have hfar' : 0 < (elements rest).length ∨ o = none := by
                rcases hfar with hfar | hfar
                · left
                  simp [buffer, hlen] at hfar
                  omega
                · exact .inr hfar
              obtain ⟨us, rest, s, m₁, rfl, hleg, hrest⟩ := h.leg hfar'
              have hbuffer : elements (us ++ rest) = s.buffer ++ elements rest := by
                rw [elements_append, hleg.elements_eq]
              have hmore : nexts calls < (s.buffer ++ elements rest).length ∨ o = none := by
                rcases hfar with hfar | hfar
                · left
                  rw [hbuffer, hlen] at hfar
                  simpa [buffer, Nat.add_comm] using hfar
                · exact .inr hfar
              obtain ⟨o₂, m₂, hrun, hok⟩ := ih hrest hmore
              refine ⟨o₂, m₂, ?_, fun fuel hfuel => ?_⟩
              · rw [hlen, used, hleg.upTo_eq_used hrest]
                exact hleg.plainRun.append hrun
              · rw [List.length_append] at hfuel
                have hstart : start step fuel t m = .ok s m₁ := hleg.start_eq (by omega)
                have hok := hok fuel (by omega)
                rw [hbuffer]
                simp only [consume, next, eff_bind_apply, hstart, eff_pure_apply, hok]
                rfl

/-- Whatever a sequence answers, it answers on a plain run. -/
theorem plainRun_of_consume (zero : α) (calls : List Call) {replies : List (Reply α)}
    (h : s.consume step fuel zero calls m = .ok replies m') :
    ∃ rest o, PlainRun step s.held m rest o m' ∧ used (nexts calls) rest = rest ∧
      (nexts calls < (s.buffer ++ elements rest).length ∨ o = none) ∧
      replies = answers zero (s.buffer ++ elements rest) calls := by
  induction calls generalizing s m replies with
  | nil =>
      cases h
      refine ⟨[], s.held, .stay _ _, rfl, ?_, rfl⟩
      obtain ⟨ahead⟩ := s
      cases ahead with
      | none => exact .inr rfl
      | some p => exact .inl (by simp [nexts, buffer])
  | cons call calls ih =>
      cases call with
      | hasNext =>
          simp only [consume, eff_bind_apply] at h
          cases hrest : s.consume step fuel zero calls m with
          | error e m₁ => simp [hrest] at h
          | ok tail m₁ =>
              simp [hrest] at h
              obtain ⟨rfl, rfl⟩ := h
              obtain ⟨rest, o, hrun, hused, hfar, rfl⟩ := ih hrest
              refine ⟨rest, o, hrun, hused, hfar, ?_⟩
              rw [hasNext_eq hrun, answers]
      | next =>
          have hlen : nexts (.next :: calls) = nexts calls + 1 := by simp [nexts]
          obtain ⟨ahead⟩ := s
          cases ahead with
          | none =>
              simp only [consume, next, eff_bind_apply, eff_pure_apply] at h
              cases hrest : consume step fuel zero ⟨none⟩ calls m with
              | error e m₁ => simp [hrest] at h
              | ok tail m₁ =>
                  simp [hrest] at h
                  obtain ⟨rfl, rfl⟩ := h
                  obtain ⟨rest, o, hrun, -, -, rfl⟩ := ih hrest
                  obtain ⟨rfl, rfl, rfl⟩ := hrun.of_none
                  exact ⟨[], none, hrun, by simp [hlen, used], .inr rfl, rfl⟩
          | some p =>
              obtain ⟨value, t⟩ := p
              simp only [consume, next, eff_bind_apply] at h
              cases hstart : start step fuel t m with
              | error e m₁ => simp [hstart] at h
              | ok s m₁ =>
                  simp only [hstart, eff_pure_apply] at h
                  cases hrest : s.consume step fuel zero calls m₁ with
                  | error e m₂ => simp [hrest] at h
                  | ok tail m₂ =>
                      simp [hrest] at h
                      obtain ⟨rfl, rfl⟩ := h
                      obtain ⟨us, hleg⟩ := Leg.of_start hstart
                      obtain ⟨rest, o, hrun, hused, hfar, rfl⟩ := ih hrest
                      have hbuffer : elements (us ++ rest) = s.buffer ++ elements rest := by
                        rw [elements_append, hleg.elements_eq]
                      refine ⟨us ++ rest, o, hleg.plainRun.append hrun, ?_, ?_, ?_⟩
                      · rw [hlen, used, hleg.upTo_eq_used hrun, hused]
                      · refine hfar.imp (fun hfar => ?_) id
                        rw [hbuffer, hlen]
                        simpa [buffer, Nat.add_comm] using hfar
                      · rw [hbuffer]
                        rfl

/-- A sequence delivers the elements of the plain run in their order and one element ahead.
Wherever a plain run goes far enough for some calls, these get its elements, and the states
that are entered are those up to the element after the last one that was taken, each once per
visit.  Calls are only ever answered on such a run. -/
theorem session_delivers (step : τ → Eff σ (Bounce τ α)) (zero : α) (entry : τ)
    (calls : List Call) (m : σ) :
    (∀ vs o m', PlainRun step (some entry) m vs o m' →
      nexts calls < (elements vs).length ∨ o = none →
      ∃ o₁ m₁, PlainRun step (some entry) m (upTo (nexts calls) vs) o₁ m₁ ∧
        ∀ fuel, vs.length ≤ fuel →
          session (recorded step) fuel zero entry calls (m, []) =
            .ok (answers zero (elements vs) calls)
              (m₁, (upTo (nexts calls) vs).map Visit.entered)) ∧
    (∀ fuel replies m₁ log,
      session (recorded step) fuel zero entry calls (m, []) = .ok replies (m₁, log) →
      ∃ vs o, PlainRun step (some entry) m vs o m₁ ∧ upTo (nexts calls) vs = vs ∧
        (nexts calls < (elements vs).length ∨ o = none) ∧
        replies = answers zero (elements vs) calls ∧ log = vs.map Visit.entered) := by
  constructor
  · intro vs o m' hrun hfar
    have hrecorded : PlainRun (recorded step) (some entry) (m, []) vs o
        (m', [] ++ vs.map Visit.entered) := PlainRun.recorded_iff.mpr ⟨hrun, rfl⟩
    have hzero : 0 < (elements vs).length ∨ o = none := hfar.imp (by omega) id
    obtain ⟨us, rest, s, m₁, rfl, hleg, hrest⟩ := hrecorded.leg hzero
    have helements : elements (us ++ rest) = s.buffer ++ elements rest := by
      rw [elements_append, hleg.elements_eq]
    rw [helements] at hfar
    obtain ⟨o₁, ⟨m₂, log⟩, hused, hok⟩ := consume_of_plainRun zero calls hrest hfar
    have hall := hleg.plainRun.append hused
    rw [← hleg.upTo_eq_used hrest] at hall
    obtain ⟨hplain, rfl⟩ := PlainRun.recorded_iff.mp hall
    refine ⟨o₁, m₂, hplain, fun fuel hfuel => ?_⟩
    rw [List.length_append] at hfuel
    have hstart : start (recorded step) fuel entry (m, []) = .ok s m₁ := hleg.start_eq (by omega)
    have hok := hok fuel (by omega)
    simp only [session, eff_bind_apply, hstart, hok, helements, List.nil_append]
  · intro fuel replies m₁ log h
    simp only [session, eff_bind_apply] at h
    cases hstart : start (recorded step) fuel entry (m, []) with
    | error e m₂ => simp [hstart] at h
    | ok s m₂ =>
        simp only [hstart] at h
        obtain ⟨us, hleg⟩ := Leg.of_start hstart
        obtain ⟨rest, o, hrun, hused, hfar, rfl⟩ := plainRun_of_consume zero calls h
        obtain ⟨hplain, hlog⟩ := PlainRun.recorded_iff.mp (hleg.plainRun.append hrun)
        have helements : elements (us ++ rest) = s.buffer ++ elements rest := by
          rw [elements_append, hleg.elements_eq]
        refine ⟨us ++ rest, o, hplain, ?_, ?_, ?_, hlog⟩
        · rw [hleg.upTo_eq_used hrun, hused]
        · rwa [helements]
        · rw [helements]

end Sequence

end YieldMachine
