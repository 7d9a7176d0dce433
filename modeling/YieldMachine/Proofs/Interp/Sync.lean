import YieldMachine.Proofs.Interp.Linked

/-!
# Computations over linked memories

`Sync R R'` relates two computations that start in memories related by `R`: they end in the
same way, with the same result and in memories related by `R'`, or both fail with the same
heap.  Only whether the bound on the number of steps is used up is compared of two faults.
-/

namespace YieldMachine

variable {α β : Type}

/-- Whether two computations ended in the same way. -/
def Matches (R : α → Memory → Memory → Prop) :
    EStateM.Result Fault Memory α → EStateM.Result Fault Memory α → Prop
  | .ok a m, .ok b mt => b = a ∧ R a m mt
  | .error e m, .error e' mt => (e = .exhausted ↔ e' = .exhausted) ∧ mt.heap = m.heap
  | _, _ => False

/-- Whether two computations end in the same way when they start in related memories. -/
def Sync (R : Memory → Memory → Prop) (R' : α → Memory → Memory → Prop)
    (x y : Eff Memory α) : Prop :=
  ∀ m mt, R m mt → Matches R' (x m) (y mt)

theorem Matches.mono {R R' : α → Memory → Memory → Prop}
    {r r' : EStateM.Result Fault Memory α} (h : Matches R r r')
    (himp : ∀ a m mt, R a m mt → R' a m mt) : Matches R' r r' := by
  cases r <;> cases r' <;> simp only [Matches] at h ⊢
  · exact ⟨h.1, himp _ _ _ h.2⟩
  · exact h

/-- Whether two results over the heap are equal, or both faults that are no used up
bounds, with the same heap. -/
def Alike {σ : Type} (r r' : EStateM.Result Fault σ α) : Prop :=
  r' = r ∨ ∃ e e' h, r = .error e h ∧ r' = .error e' h ∧ e ≠ .exhausted ∧ e' ≠ .exhausted

namespace Sync

variable {R S : Memory → Memory → Prop} {R' : α → Memory → Memory → Prop}
  {R'' : β → Memory → Memory → Prop}

theorem pure {a : α} (h : ∀ m mt, R m mt → R' a m mt) :
    Sync R R' (Pure.pure a) (Pure.pure a) :=
  fun m mt hR => ⟨rfl, h m mt hR⟩

theorem throw {e e' : Fault} (hheap : ∀ m mt, R m mt → mt.heap = m.heap)
    (he : e = .exhausted ↔ e' = .exhausted) :
    Sync R R' (throw e) (throw e') :=
  fun m mt hR => ⟨he, hheap m mt hR⟩

theorem bind {x y : Eff Memory α} {f k : α → Eff Memory β}
    (hxy : Sync R R' x y) (hfk : ∀ a, Sync (R' a) R'' (f a) (k a)) :
    Sync R R'' (x >>= f) (y >>= k) := by
  intro m mt hR
  have h := hxy m mt hR
  rw [eff_bind_apply, eff_bind_apply]
  cases hx : x m <;> cases hy : y mt <;> rw [hx, hy] at h <;> simp only [Matches] at h
  · obtain ⟨rfl, hR'⟩ := h
    exact hfk _ _ _ hR'
  · exact h

theorem mono {R₂ : α → Memory → Memory → Prop} {x y : Eff Memory α} (h : Sync R R' x y)
    (hpre : ∀ m mt, S m mt → R m mt) (hpost : ∀ a m mt, R' a m mt → R₂ a m mt) :
    Sync S R₂ x y :=
  fun m mt hS => (h m mt (hpre m mt hS)).mono hpost

theorem discard {P : Memory → Memory → Prop} {x y : Eff Memory α}
    (h : Sync R (fun _ => P) x y) :
    Sync R (fun _ => P) (discard x) (discard y) := by
  intro m mt hR
  have hm := h m mt hR
  show Matches _ (EStateM.map _ x m) (EStateM.map _ y mt)
  unfold EStateM.map
  cases hx : x m <;> cases hy : y mt <;> rw [hx, hy] at hm <;> simp only [Matches] at hm ⊢
  · exact ⟨trivial, hm.2⟩
  · exact hm

end Sync

namespace Linked

variable {g : Ground} {shape : Nesting} {l : Local} {m mt : Memory}

theorem withHeap (h : Linked g shape m mt) (heap : Heap) :
    Linked g shape { m with heap := heap } { mt with heap := heap } :=
  ⟨h.fields, rfl, h.frames⟩

/-- A new scope of the table that stands for no scope on the other side. -/
theorem pushTable (h : Linked g shape m mt) :
    Linked g (⟨0, [], []⟩ :: shape) m { mt with frames := [] :: mt.frames } := by
  refine ⟨h.fields, h.heap, [], m.frames, [], mt.frames, rfl, rfl, ?_, h.frames⟩
  exact ⟨rfl, fun _ _ => rfl, fun _ _ => by simp, fun _ _ => rfl⟩

/-- A new scope that the innermost scope of the table stands for as well. -/
theorem addRow (h : Linked g (l :: shape) m mt) :
    Linked g ({ l with rows := l.rows + 1 } :: shape) { m with frames := [] :: m.frames } mt := by
  obtain ⟨hfields, hheap, rows, rest, frame, others, hframes, hlocals, hholds, hover⟩ := h
  refine ⟨hfields, hheap, [] :: rows, rest, frame, others, by simp [hframes], hlocals, ?_, hover⟩
  refine ⟨by simp [hholds.length], ?_, ?_, hholds.hidden⟩
  · intro x hx
    simpa using hholds.agree x hx
  · intro x hx
    simpa using hholds.names x hx

/-- A new scope on both sides. -/
theorem push (h : Linked g shape m mt) :
    Linked g (⟨1, [], []⟩ :: shape) { m with frames := [] :: m.frames }
      { mt with frames := [] :: mt.frames } :=
  h.pushTable.addRow

/-- The end of the innermost scope of the table. -/
theorem pop (h : Linked g (l :: shape) m mt) :
    Linked g shape { m with frames := m.frames.drop l.rows }
      { mt with frames := mt.frames.tail } := by
  obtain ⟨hfields, hheap, rows, rest, frame, others, hframes, hlocals, hholds, hover⟩ := h
  refine ⟨hfields, hheap, ?_⟩
  simp only [hframes, hlocals, ← hholds.length, List.drop_left, List.tail_cons]
  exact hover

/-- Declaring a variable in the innermost scope. -/
theorem declareHead (h : Linked g (l :: shape) m mt) (hl : 0 < l.rows) {x : String}
    (hx : x ∉ hiddenNames) (v : Value) :
    Matches (fun _ => Linked g ({ l with names := x :: l.names } :: shape))
      (bindLocal x v m) (bindLocal x v mt) := by
  obtain ⟨hfields, hheap, rows, rest, frame, others, hframes, hlocals, hholds, hover⟩ := h
  cases rows with
  | nil =>
      have := hholds.length
      simp only [List.length_nil] at this
      omega
  | cons row rows =>
      obtain ⟨mf, mframes, mheap⟩ := m
      obtain ⟨tf, tframes, theap⟩ := mt
      simp only at hframes hlocals hfields hheap
      subst hframes hlocals
      exact ⟨rfl, hfields, hheap, row.put x v :: rows, rest, frame.put x v, others, rfl, rfl,
        hholds.bind hx v, hover⟩

end Linked

section Scopes

variable {g : Ground} {shape : Nesting}

/-- Running in a new scope on both sides. -/
theorem Sync.inScope {x y : Eff Memory α}
    (h : Sync (Linked g (⟨1, [], []⟩ :: shape))
      (fun _ m mt => ∃ names, Linked g (⟨1, names, []⟩ :: shape) m mt) x y) :
    Sync (Linked g shape) (fun _ => Linked g shape) (inScope x) (inScope y) := by
  have hpush : Sync (Linked g shape) (fun _ => Linked g (⟨1, [], []⟩ :: shape))
      (modify fun m => { m with frames := [] :: m.frames })
      (modify fun m => { m with frames := [] :: m.frames }) :=
    fun m mt hm => ⟨rfl, hm.push⟩
  have hpop : Sync (fun m mt => ∃ names, Linked g (⟨1, names, []⟩ :: shape) m mt)
      (fun _ => Linked g shape)
      (modify fun m => { m with frames := m.frames.tail })
      (modify fun m => { m with frames := m.frames.tail }) := by
    rintro m mt ⟨names, hm⟩
    exact ⟨rfl, by simpa using hm.pop⟩
  exact hpush.bind fun _ => h.bind fun a => hpop.bind fun _ => Sync.pure fun _ _ h => h

/-- Reading the variables and changing the heap. -/
theorem Sync.onHeap {f k : View → Eff Heap α}
    (h : ∀ m mt, Linked g shape m mt → ∀ heap, Alike (f m.view heap) (k mt.view heap)) :
    Sync (Linked g shape) (fun _ => Linked g shape) (onHeap f) (onHeap k) := by
  intro m mt hm
  unfold YieldMachine.onHeap
  rw [hm.heap]
  rcases h m mt hm m.heap with heq | ⟨e, e', heap, hf, hk, he, he'⟩
  · rw [heq]
    cases f m.view m.heap with
    | ok a heap => exact ⟨rfl, hm.withHeap heap⟩
    | error e heap => exact ⟨Iff.rfl, rfl⟩
  · rw [hf, hk]
    exact ⟨by simp [he, he'], rfl⟩

/-- Reading the same from the variables on both sides. -/
theorem Sync.onHeap_eq {f k : View → Eff Heap α}
    (h : ∀ m mt, Linked g shape m mt → k mt.view = f m.view) :
    Sync (Linked g shape) (fun _ => Linked g shape) (YieldMachine.onHeap f)
      (YieldMachine.onHeap k) :=
  Sync.onHeap fun m mt hm heap => .inl (by rw [h m mt hm])

end Scopes

end YieldMachine
