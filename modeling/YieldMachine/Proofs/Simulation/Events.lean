import YieldMachine.Proofs.Simulation.Behaviour

/-!
# The events of a simulated course

A table that simulates a course has the same events, once its bounds are large enough.  In
the other direction, a table that has events within a bound leaves the course enough rounds
to have events as well.
-/

namespace YieldMachine

open Behaviour

section Bounds

variable (s : Session) (states : Array (List Op)) {n k : Nat}

mutual

/-- A larger bound on the turns of loops keeps what an operation does. -/
theorem Op.run_approximates (hnk : n ≤ k) (op : Op) :
    Approximates (op.run s states n) (op.run s states k) := by
  cases op with
  | exec stmt =>
      simp only [Op.run]
      exact .bind (stmt.exec_approximates s hnk).inScope fun _ => .refl _
  | jump goal value =>
      simp only [Op.run]
      exact .refl _
  | finish => exact .refl _
  | «when» cond ops =>
      simp only [Op.run]
      refine .bind (.refl _) fun holds => ?_
      cases holds with
      | true => exact runOps_approximates hnk ops
      | false => exact .refl _
  | choose cond ops others =>
      simp only [Op.run]
      refine .bind (.refl _) fun holds => ?_
      cases holds with
      | true => exact runOps_approximates hnk ops
      | false => exact runOps_approximates hnk others
  | dispatch tag arms =>
      simp only [Op.run]
      refine .bind (.refl _) fun choice => ?_
      cases choice with
      | some i => exact runArm_approximates hnk i arms
      | none => exact .refl _

theorem runOps_approximates (hnk : n ≤ k) (ops : List Op) :
    Approximates (runOps s states n ops) (runOps s states k ops) := by
  cases ops with
  | nil => exact .refl _
  | cons op ops =>
      simp only [runOps]
      refine .bind (op.run_approximates hnk) fun b => ?_
      cases b with
      | some b => exact .refl _
      | none => exact runOps_approximates hnk ops

theorem runArm_approximates (hnk : n ≤ k) (i : Nat) (arms : List Arm) :
    Approximates (runArm s states n i arms) (runArm s states k i arms) := by
  cases arms with
  | nil =>
      cases i <;> exact .refl _
  | cons arm arms =>
      cases i with
      | zero => exact arm.run_approximates hnk
      | succ i => exact runArm_approximates hnk i arms

theorem Arm.run_approximates (hnk : n ≤ k) (arm : Arm) :
    Approximates (arm.run s states n) (arm.run s states k) := by
  cases arm with
  | case values ops => exact runOps_approximates hnk ops
  | default ops => exact runOps_approximates hnk ops

end

theorem tableStep_approximates (hnk : n ≤ k) (t : TableStep) :
    Approximates (tableStep s states n t) (tableStep s states k t) := by
  cases t with
  | stop => exact .refl _
  | enter q =>
      simp only [tableStep]
      cases states[q]? with
      | none => exact .refl _
      | some ops => exact .bind (runOps_approximates s states hnk ops) fun b => .refl _

theorem trampoline_approximates (hnk : n ≤ k) {bound bound' : Nat} (hbound : bound ≤ bound')
    (t : TableStep) :
    Approximates (Bounce.trampoline (tableStep s states n) bound t)
      (Bounce.trampoline (tableStep s states k) bound' t) := by
  induction bound generalizing bound' t with
  | zero => exact fun m => .inl ⟨m, rfl⟩
  | succ bound ih =>
      obtain ⟨bound', rfl⟩ : ∃ j, bound' = j + 1 := ⟨bound' - 1, by omega⟩
      refine .bind (tableStep_approximates s states hnk t) fun b => ?_
      rcases b with ⟨_ | next, _ | value⟩
      · exact .refl _
      · exact .refl _
      · exact ih (by omega) next
      · exact .refl _

end Bounds

/-- The events of a table that has come to its next element or to its end.  `n` bounds the
turns of loops inside a state, and `bound` the number of states between two elements. -/
def bounceEvents (s : Session) (states : List (List Op)) (n bound : Nat) :
    EStateM.Result Fault Memory (Bounce TableStep Value) → List (Heap → Heap) →
      Option (List Event)
  | .error e m, _ => if e = .exhausted then none else some [.stopped m.heap]
  | .ok ⟨some _, some value⟩ m, [] => some [.element value m.heap]
  | .ok ⟨some t, some value⟩ m, change :: changes =>
    (bounceEvents s states n bound
      (Bounce.trampoline (tableStep s states.toArray n) bound t
        ⟨m.fields, [], change m.heap⟩) changes).map (.element value m.heap :: ·)
  | .ok _ m, _ => some [.finished m.heap]

section Events

variable {s : Session} {states : List (List Op)} {n bound : Nat}

theorem bounceEvents_of_exhausts {r : EStateM.Result Fault Memory (Bounce TableStep Value)}
    (h : Exhausts r) (changes : List (Heap → Heap)) :
    bounceEvents s states n bound r changes = none := by
  obtain ⟨m, rfl⟩ := h
  simp [bounceEvents]

theorem tableEvents_eq (fields : Bindings) (t : TableStep) (heap : Heap)
    (changes : List (Heap → Heap)) :
    tableEvents s states.toArray n
        (withFields fields (Sequence.start (tableStep s states.toArray n) n t) heap) changes =
      bounceEvents s states n n
        (Bounce.trampoline (tableStep s states.toArray n) n t ⟨fields, [], heap⟩) changes := by
  induction changes generalizing fields t heap with
  | nil =>
      simp only [withFields, Sequence.start, eff_bind_apply]
      cases Bounce.trampoline (tableStep s states.toArray n) n t ⟨fields, [], heap⟩ with
      | error e m => rfl
      | ok b m => rcases b with ⟨_ | next, _ | value⟩ <;> rfl
  | cons change changes ih =>
      rw [withFields, Sequence.start, eff_bind_apply]
      cases Bounce.trampoline (tableStep s states.toArray n) n t ⟨fields, [], heap⟩ with
      | error e m => rfl
      | ok b m =>
          rcases b with ⟨_ | next, _ | value⟩
          · rfl
          · rfl
          · rfl
          · simp only [eff_pure_apply, tableEvents, bounceEvents, ih]

/-- Larger bounds keep the events of a table. -/
theorem bounceEvents_mono {k bound' : Nat} (hnk : n ≤ k) (hbound : bound ≤ bound')
    {r r' : EStateM.Result Fault Memory (Bounce TableStep Value)} (hr : Exhausts r ∨ r = r')
    {changes : List (Heap → Heap)} {events : List Event}
    (h : bounceEvents s states n bound r changes = some events) :
    bounceEvents s states k bound' r' changes = some events := by
  rcases hr with hr | rfl
  · rw [bounceEvents_of_exhausts hr] at h
    cases h
  · induction changes generalizing r events with
    | nil =>
        rcases r with ⟨⟨_ | next, _ | value⟩, m⟩ | ⟨e, m⟩ <;> exact h
    | cons change changes ih =>
        rcases r with ⟨⟨_ | next, _ | value⟩, m⟩ | ⟨e, m⟩
        · exact h
        · exact h
        · exact h
        · simp only [bounceEvents, Option.map_eq_some_iff] at h ⊢
          obtain ⟨rest, hrest, rfl⟩ := h
          refine ⟨rest, ?_, rfl⟩
          rcases trampoline_approximates s states.toArray hnk hbound next
            ⟨m.fields, [], change m.heap⟩ with hexhausts | heq
          · rw [bounceEvents_of_exhausts hexhausts] at hrest
            cases hrest
          · rw [← heq]
            exact ih hrest
        · exact h

variable {α : Type}

/-- The events of a course are those of a table that simulates it. -/
theorem Course.Simulated.events {t : Course α} {rounds : Nat} {b : Behaviour}
    (h : t.Simulated s states n rounds b) {changes : List (Heap → Heap)} {events : List Event}
    (hevents : t.events changes = some events) :
    ∃ least, ∀ bound, least ≤ bound →
      bounceEvents s states n bound (b bound) changes = some events := by
  induction t generalizing rounds b changes events with
  | done a m =>
      obtain ⟨count, mt, hreaches, hheap⟩ := h
      refine ⟨count, fun bound hbound => ?_⟩
      rw [hreaches.2 bound hbound]
      simpa [bounceEvents, Bounce.done, Course.events, hheap] using hevents
  | fault e heap =>
      simp only [Course.events] at hevents
      split at hevents
      · cases hevents
      · rename_i he
        simp only [Simulated, if_neg he] at h
        obtain ⟨count, e', mt, hreaches, he', hheap⟩ := h
        refine ⟨count, fun bound hbound => ?_⟩
        rw [hreaches.2 bound hbound]
        simpa [bounceEvents, he', hheap] using hevents
  | emit value heap resume ih =>
      obtain ⟨count, q, mt, hreaches, hframes, hheap, hresume⟩ := h
      cases changes with
      | nil =>
          refine ⟨count, fun bound hbound => ?_⟩
          rw [hreaches.2 bound hbound]
          simpa [bounceEvents, Bounce.emit, Course.events, hheap] using hevents
      | cons change changes =>
          simp only [Course.events, Option.map_eq_some_iff] at hevents
          obtain ⟨rest, hrest, rfl⟩ := hevents
          obtain ⟨least, hleast⟩ := ih (change heap) (hresume (change heap)) hrest
          refine ⟨max count least, fun bound hbound => ?_⟩
          rw [hreaches.2 bound (by omega)]
          have hnext := hleast bound (by omega)
          simp only [entering, hframes] at hnext
          simp only [bounceEvents, Bounce.emit, hheap, hnext, Option.map_some]

/-- A course has events if a table that simulates it has some within a bound, and the
course may take more rounds than the table enters states. -/
theorem Course.Simulated.exists_events {t : Course α} {rounds : Nat} {b : Behaviour}
    (h : t.Simulated s states n rounds b) {changes : List (Heap → Heap)}
    (hrounds : (changes.length + 1) * bound < rounds)
    (hsome : (bounceEvents s states n bound (b bound) changes).isSome = true) :
    ∃ events, t.events changes = some events := by
  induction t generalizing rounds b changes with
  | done a m => exact ⟨_, rfl⟩
  | fault e heap =>
      by_cases he : e = .exhausted
      · exfalso
        simp only [Simulated, if_pos he] at h
        have hle : bound ≤ (changes.length + 1) * bound := Nat.le_mul_of_pos_left _ (by omega)
        rw [bounceEvents_of_exhausts (h bound (by omega))] at hsome
        cases hsome
      · exact ⟨[.stopped heap], by simp [Course.events, he]⟩
  | emit value heap resume ih =>
      obtain ⟨count, q, mt, hreaches, hframes, hheap, hresume⟩ := h
      cases changes with
      | nil => exact ⟨_, rfl⟩
      | cons change changes =>
          have hcount : count ≤ bound := by
            by_contra hlt
            rw [bounceEvents_of_exhausts (hreaches.1 bound (by omega))] at hsome
            cases hsome
          rw [hreaches.2 bound hcount] at hsome
          simp only [bounceEvents, Bounce.emit, Option.isSome_map, hheap] at hsome
          have hmul : (changes.length + 1 + 1) * bound = (changes.length + 1) * bound + bound :=
            Nat.succ_mul _ _
          rw [List.length_cons] at hrounds
          have hfewer : (changes.length + 1) * bound < rounds - count := by omega
          obtain ⟨events, hevents⟩ := ih (change heap) (hresume (change heap)) hfewer
            (by simpa [entering, hframes] using hsome)
          exact ⟨.element value heap :: events, by simp [Course.events, hevents]⟩

/-- A course that is simulated under every bound on the rounds of its loops settles to the
same events as the table. -/
theorem settles_iff {course : Nat → Course α} {fields : Bindings} {heap : Heap} {q : Nat}
    (h : ∀ n, (course n).Simulated s states n n (entering s states n q ⟨fields, [], heap⟩))
    (changes : List (Heap → Heap)) (events : List Event) :
    Settles (fun n => (course n).events changes) events ↔
      Settles (fun n => tableEvents s states.toArray n
        (withFields fields (Sequence.start (tableStep s states.toArray n) n (.enter q)) heap)
        changes) events := by
  have hforward : ∀ {events : List Event} {k : Nat}, (course k).events changes = some events →
      Settles (fun n => tableEvents s states.toArray n
        (withFields fields (Sequence.start (tableStep s states.toArray n) n (.enter q)) heap)
        changes) events := by
    intro events k hevents
    obtain ⟨least, hleast⟩ := (h k).events hevents
    refine ⟨max k least, fun n hn => ?_⟩
    simp only [tableEvents_eq]
    refine bounceEvents_mono (by omega : k ≤ n) (Nat.le_refl n) ?_
      (hleast n (by omega))
    exact trampoline_approximates s states.toArray (by omega) (Nat.le_refl n) _ _
  constructor
  · rintro ⟨bound, hbound⟩
    exact hforward (hbound bound (Nat.le_refl bound))
  · rintro ⟨bound, hbound⟩
    refine ⟨max bound ((changes.length + 1) * bound + 1), fun n hn => ?_⟩
    have htable := hbound bound (Nat.le_refl bound)
    simp only [tableEvents_eq] at htable
    have hlarger : bounceEvents s states n bound
        (entering s states n q ⟨fields, [], heap⟩ bound) changes = some events :=
      bounceEvents_mono (by omega) (Nat.le_refl bound)
        (trampoline_approximates s states.toArray (by omega) (Nat.le_refl bound) _ _) htable
    obtain ⟨events', hevents'⟩ := (h n).exists_events
      (by omega : (changes.length + 1) * bound < n) (by rw [hlarger]; rfl)
    obtain ⟨bound', hbound'⟩ := hforward hevents'
    have hsame := (hbound (max bound bound') (Nat.le_max_left _ _)).symm.trans
      (hbound' (max bound bound') (Nat.le_max_right _ _))
    rw [Option.some.inj hsame]
    exact hevents'

end Events

end YieldMachine
