import YieldMachine.Proofs.Interp.Executed
import YieldMachine.Proofs.Interp.Stays
import YieldMachine.Proofs.Meaning.Endings

/-!
# Courses that hand over nothing

`Mirrors` compares a computation of a generator body that hands over nothing with one that
a table runs inside a single state.  Both end in the same way, in linked memories.  The
table may have more scopes than the body, and they may stand for several scopes each.
-/

namespace YieldMachine

variable {α β γ δ : Type}

/-- Whether a course that hands over nothing ends as the computation did. -/
def Tracks (R : α → β → Memory → Memory → Prop) :
    Course α → EStateM.Result Fault Memory β → Prop
  | .done a m, .ok b mt => R a b m mt
  | .fault e h, .error e' mt => (e = .exhausted ↔ e' = .exhausted) ∧ mt.heap = h
  | _, _ => False

/-- Whether two computations end in the same way when they start in related memories. -/
def Mirrors (R : Memory → Memory → Prop) (R' : α → β → Memory → Memory → Prop)
    (x : Action α) (y : Eff Memory β) : Prop :=
  ∀ m mt, R m mt → Tracks R' (x m) (y mt)

theorem Tracks.mono {R R' : α → β → Memory → Memory → Prop} {t : Course α}
    {r : EStateM.Result Fault Memory β} (h : Tracks R t r)
    (himp : ∀ a b m mt, R a b m mt → R' a b m mt) : Tracks R' t r := by
  cases t <;> cases r <;> simp only [Tracks] at h ⊢
  · exact himp _ _ _ _ h
  · exact h

namespace Mirrors

variable {R S : Memory → Memory → Prop} {R' : α → β → Memory → Memory → Prop}
  {R'' : γ → δ → Memory → Memory → Prop}

theorem pure {a : α} {b : β} (h : ∀ m mt, R m mt → R' a b m mt) :
    Mirrors R R' (Pure.pure a) (Pure.pure b) :=
  fun m mt hR => h m mt hR

theorem stop {e : Fault} (hheap : ∀ m mt, R m mt → mt.heap = m.heap) :
    Mirrors R R' (Action.stop e) (throw e) :=
  fun m mt hR => ⟨Iff.rfl, hheap m mt hR⟩

theorem bind {x : Action α} {y : Eff Memory β} {f : α → Action γ} {k : β → Eff Memory δ}
    (hxy : Mirrors R R' x y) (hfk : ∀ a b, Mirrors (R' a b) R'' (f a) (k b)) :
    Mirrors R R'' (x >>= f) (y >>= k) := by
  intro m mt hR
  have h := hxy m mt hR
  rw [Action.bind_apply, eff_bind_apply]
  cases hx : x m <;> cases hy : y mt <;> rw [hx, hy] at h <;> simp only [Tracks] at h
  · exact hfk _ _ _ _ h
  · exact h

theorem mono {R₂ : α → β → Memory → Memory → Prop} {x : Action α} {y : Eff Memory β}
    (h : Mirrors R R' x y) (hpre : ∀ m mt, S m mt → R m mt)
    (hpost : ∀ a b m mt, R' a b m mt → R₂ a b m mt) : Mirrors S R₂ x y :=
  fun m mt hS => (h m mt (hpre m mt hS)).mono hpost

/-- Computations without hand-overs on both sides. -/
theorem lift {P : α → Memory → Memory → Prop} {x y : Eff Memory α} (h : Sync R P x y) :
    Mirrors R (fun a b m mt => b = a ∧ P a m mt) (liftM x) y := by
  intro m mt hR
  have hm := h m mt hR
  show Tracks _ (Course.ofResult (x m)) (y mt)
  cases hx : x m <;> cases hy : y mt <;> rw [hx, hy] at hm <;> exact hm

/-- A step that only the table takes. -/
theorem stepTable {x : Action γ} {y : Eff Memory β} {k : β → Eff Memory δ} {b : β}
    (hy : ∀ m mt, R m mt → ∃ mt', y mt = .ok b mt' ∧ S m mt') (hk : Mirrors S R'' x (k b)) :
    Mirrors R R'' x (y >>= k) := by
  intro m mt hR
  obtain ⟨mt', hy, hS⟩ := hy m mt hR
  rw [eff_bind_apply, hy]
  exact hk m mt' hS

/-- What is known of the way to end. -/
theorem withEnds {P : α → Prop} {x : Action α} {y : Eff Memory β} (h : Mirrors R R' x y)
    (hends : x.Ends P) : Mirrors R (fun a b m mt => P a ∧ R' a b m mt) x y := by
  intro m mt hR
  have htracks := h m mt hR
  have hend := hends m
  cases hx : x m <;> cases hy : y mt <;> rw [hx, hy] at htracks <;>
    simp only [Tracks] at htracks ⊢
  · rw [hx] at hend
    exact ⟨hend, htracks⟩
  · exact htracks

end Mirrors

section Scopes

variable {g : Ground} {shape : Nesting} {l : Local} {P : α → β → Prop} {x : Action α}
  {y : Eff Memory β}

/-- What is left when a scope of the table ends together with `k` scopes. -/
def Closes (g : Ground) (shape : Nesting) (k : Nat) (m mt : Memory) : Prop :=
  Linked g shape { m with frames := m.frames.drop k } { mt with frames := mt.frames.tail }

theorem Linked.closes {m mt : Memory} (h : Linked g (l :: shape) m mt) :
    Closes g shape l.rows m mt := h.pop

/-- A new scope on both sides. -/
theorem Mirrors.inScope
    (h : Mirrors (Linked g (⟨1, [], []⟩ :: shape))
      (fun a b m mt => P a b ∧ Closes g shape 1 m mt) x y) :
    Mirrors (Linked g shape) (fun a b m mt => P a b ∧ Linked g shape m mt)
      (Action.inScope x) (YieldMachine.inScope y) := by
  intro m mt hm
  have htracks := h _ _ hm.push
  simp only [Action.inScope, YieldMachine.inScope]
  rw [eff_bind_apply]
  show Tracks _ _ ((y >>= _) { mt with frames := [] :: mt.frames })
  rw [eff_bind_apply]
  cases hx : x { m with frames := [] :: m.frames } <;>
    cases hy : y { mt with frames := [] :: mt.frames } <;>
    rw [hx, hy] at htracks <;> simp only [Tracks] at htracks
  · exact ⟨htracks.1, by simpa [Closes] using htracks.2⟩
  · exact htracks

/-- A new scope of the table only. -/
theorem Mirrors.inTable
    (h : Mirrors (Linked g (⟨0, [], []⟩ :: shape))
      (fun a b m mt => P a b ∧ Closes g shape 0 m mt) x y) :
    Mirrors (Linked g shape) (fun a b m mt => P a b ∧ Linked g shape m mt) x
      (YieldMachine.inScope y) := by
  intro m mt hm
  have htracks := h _ _ hm.pushTable
  simp only [YieldMachine.inScope]
  rw [eff_bind_apply]
  show Tracks _ _ ((y >>= _) { mt with frames := [] :: mt.frames })
  rw [eff_bind_apply]
  cases hx : x m <;> cases hy : y { mt with frames := [] :: mt.frames } <;>
    rw [hx, hy] at htracks <;> simp only [Tracks] at htracks
  · exact ⟨htracks.1, htracks.2⟩
  · exact htracks

/-- A new scope that the innermost scope of the table stands for as well. -/
theorem Mirrors.inRow {k : Nat} (hk : l.rows = k)
    (h : Mirrors (Linked g ({ l with rows := k + 1 } :: shape))
      (fun a b m mt => P a b ∧ Closes g shape (k + 1) m mt) x y) :
    Mirrors (Linked g (l :: shape)) (fun a b m mt => P a b ∧ Closes g shape k m mt)
      (Action.inScope x) y := by
  intro m mt hm
  have hrow := hm.addRow
  rw [hk] at hrow
  have htracks := h _ _ hrow
  simp only [Action.inScope]
  cases hx : x { m with frames := [] :: m.frames } <;> cases hy : y mt <;>
    rw [hx, hy] at htracks <;> simp only [Tracks] at htracks
  · refine ⟨htracks.1, ?_⟩
    have hclose := htracks.2
    unfold Closes at hclose ⊢
    simpa [List.drop_drop, Nat.add_comm] using hclose
  · exact htracks

end Scopes

/-- The control of a table that stands for a way to end. -/
def Ending.control? : Ending → Option Control
  | .normal => some .normal
  | .brk l => some (.brk l)
  | .cont l => some (.cont l)
  | .finish => none

/-- The rounds of a loop and the turns of its tree.  The state that the rounds carry is
part of the relation. -/
theorem rounds_mirrors {labels : List String} {label : String} {Q : Ending → Prop}
    {R : β → Memory → Memory → Prop} {test : β → Eff Memory Bool} {test' : Eff Memory Bool}
    {body : Action Ending} {body' : Eff Memory Control} {post : Eff Memory β}
    {post' : Eff Memory Unit} (hheap : ∀ b m mt, R b m mt → mt.heap = m.heap)
    (htest : ∀ b, Sync (R b) (fun _ => R b) (test b) test')
    (hbody : ∀ b, Mirrors (R b)
      (fun c ctl m mt => Q c ∧ c.control? = some ctl ∧ R b m mt) body body')
    (hpost : ∀ b, Mirrors (R b) (fun b' _ m mt => R b' m mt) (liftM post) post')
    (hlabels : ∀ l, l ≠ "" → Q (.cont l) → (l ∈ labels ↔ l = label)) (n : Nat) (b : β) :
    Mirrors (R b)
      (fun c ctl m mt => (c ≠ .brk "" ∧ (c.leave label).control? = some ctl) ∧
        ∃ b', R b' m mt)
      (rounds labels test body post n b) (turns label test' body' post' n) := by
  induction n generalizing b with
  | zero => exact Mirrors.stop (hheap b)
  | succ n ih =>
      refine (Mirrors.lift (htest b)).bind fun more more' => ?_
      rintro m mt ⟨rfl, hR⟩
      revert m mt
      cases more' with
      | false => exact Mirrors.pure fun m mt hR => ⟨⟨by simp, rfl⟩, b, hR⟩
      | true =>
          have hnext := (hpost b).bind fun b' _ => ih b'
          refine Mirrors.bind (hbody b) fun c ctl => ?_
          rintro m mt ⟨hQ, hctl, hR⟩
          cases c with
          | normal =>
              obtain rfl : Control.normal = ctl := Option.some.inj hctl
              exact hnext m mt hR
          | finish => cases hctl
          | brk l =>
              obtain rfl : Control.brk l = ctl := Option.some.inj hctl
              by_cases hl : l = ""
              · simp only [Ending.afterBody, Control.afterBody, hl, if_true, true_or]
                exact ⟨⟨by simp, rfl⟩, b, hR⟩
              · simp only [Ending.afterBody, Control.afterBody, hl, if_false, false_or]
                by_cases hlabel : l = label
                · simp only [hlabel, if_true]
                  exact ⟨⟨by simpa [hlabel] using hl, by simp [Ending.leave, Ending.control?]⟩,
                    b, hR⟩
                · simp only [hlabel, if_false]
                  exact ⟨⟨by simpa using hl, by simp [Ending.leave, Ending.control?, hlabel]⟩,
                    b, hR⟩
          | cont l =>
              obtain rfl : Control.cont l = ctl := Option.some.inj hctl
              by_cases hl : l = ""
              · simp only [Ending.afterBody, Control.afterBody, hl, if_true, true_or]
                exact hnext m mt hR
              · simp only [Ending.afterBody, Control.afterBody, hl, false_or,
                  hlabels l hl hQ]
                by_cases hlabel : l = label
                · simp only [hlabel, if_true]
                  exact hnext m mt hR
                · simp only [hlabel, if_false]
                  exact ⟨⟨by simp, rfl⟩, b, hR⟩

end YieldMachine
