import Mathlib.Data.List.Infix
import YieldMachine.Table.Lowering

/-!
# How lowering extends a draft

Lowering reserves states and appends operations to them, and never takes anything back.
`Draft.Extends` says which states a part of lowering may have left open: every other state
is as it was before, or is new and closed.  `Lowering.Ensures` is the logic in which the
steps of lowering are put together.
-/

namespace YieldMachine

/-- Whether no operation of a state ends in a transfer yet. -/
def IsOpen (ops : List Op) : Prop := ∀ op ∈ ops, op.terminates = false

/-- Whether the last operation of a state, and no other one, ends in a transfer. -/
def IsClosed (ops : List Op) : Prop :=
  ∃ before last, ops = before ++ [last] ∧ IsOpen before ∧ last.terminates = true

theorem opsTerminate_append (ops : List Op) (op : Op) :
    opsTerminate (ops ++ [op]) = op.terminates := by
  induction ops with
  | nil => rfl
  | cons first ops ih =>
      cases ops with
      | nil => rfl
      | cons second ops => exact ih

theorem IsOpen.terminate {ops : List Op} (h : IsOpen ops) : opsTerminate ops = false := by
  rcases List.eq_nil_or_concat ops with rfl | ⟨before, last, rfl⟩
  · rfl
  · rw [List.concat_eq_append] at h ⊢
    rw [opsTerminate_append]
    exact h last (by simp)

theorem IsClosed.terminate {ops : List Op} (h : IsClosed ops) : opsTerminate ops = true := by
  obtain ⟨before, last, rfl, -, hlast⟩ := h
  rw [opsTerminate_append, hlast]

/-- Nothing before the last operation of a closed state ends in a transfer. -/
theorem IsClosed.prefix_open {ops pre : List Op} (h : IsClosed ops) (hpre : pre <+: ops)
    (hne : pre ≠ ops) : opsTerminate pre = false := by
  obtain ⟨before, last, rfl, hbefore, -⟩ := h
  have hmem : pre <+: before := by
    rcases List.prefix_concat_iff.mp hpre with heq | hpre
    · exact absurd heq hne
    · exact hpre
  have hopen : IsOpen pre := fun op hop => hbefore op (hmem.subset hop)
  exact hopen.terminate

theorem isOpen_nil : IsOpen [] := by simp [IsOpen]

theorem IsOpen.append {ops : List Op} (h : IsOpen ops) {op : Op} (hop : op.terminates = false) :
    IsOpen (ops ++ [op]) := by
  intro op' hmem
  rcases List.mem_append.mp hmem with hmem | hmem
  · exact h op' hmem
  · obtain rfl : op' = op := by simpa using hmem
    exact hop

theorem IsOpen.close {ops : List Op} (h : IsOpen ops) {op : Op} (hop : op.terminates = true) :
    IsClosed (ops ++ [op]) :=
  ⟨ops, op, rfl, h, hop⟩

mutual

/-- The operations that an operation consists of, itself included. -/
def Op.parts : Op → List Op
  | .exec stmt => [.exec stmt]
  | .jump goal value => [.jump goal value]
  | .finish => [.finish]
  | .when cond ops => .when cond ops :: opsParts ops
  | .choose cond ops others => .choose cond ops others :: (opsParts ops ++ opsParts others)
  | .dispatch tag arms => .dispatch tag arms :: armsParts arms

/-- The operations that a list of them consists of. -/
def opsParts : List Op → List Op
  | [] => []
  | op :: ops => op.parts ++ opsParts ops

/-- The operations of the arms of a dispatch. -/
def armsParts : List Arm → List Op
  | [] => []
  | arm :: arms => arm.parts ++ armsParts arms

/-- The operations of an arm. -/
def Arm.parts : Arm → List Op
  | .case _ ops => opsParts ops
  | .default ops => opsParts ops

end

theorem opsParts_append (ops others : List Op) :
    opsParts (ops ++ others) = opsParts ops ++ opsParts others := by
  induction ops with
  | nil => rfl
  | cons op ops ih => simp [opsParts, ih]

/-- Whether an operation is none that ends the generator, and jumps to one of `size`
states if it is a jump. -/
def Op.Fits (size : Nat) : Op → Prop
  | .jump goal _ => goal < size
  | .finish => False
  | _ => True

theorem Op.Fits.mono {size size' : Nat} (hsize : size ≤ size') {op : Op} (h : op.Fits size) :
    op.Fits size' := by
  cases op with
  | jump goal value => exact Nat.lt_of_lt_of_le h hsize
  | finish => exact h
  | _ => trivial

/-- Whether everything in a list of operations fits a table of the given size. -/
def OpsFit (size : Nat) (ops : List Op) : Prop := ∀ op ∈ opsParts ops, op.Fits size

namespace Draft

/-- The number of states. -/
abbrev size (d : Draft) : Nat := d.states.length

/-- With one more state, which has no operations. -/
def reserve (d : Draft) : Draft := { d with states := d.states ++ [[]] }

/-- With one more operation in a state. -/
def append (d : Draft) (q : Nat) (op : Op) : Draft :=
  { d with states := d.states.modify q (· ++ [op]) }

/-- Whether a state takes further operations. -/
def Ready (d : Draft) (q : Nat) : Prop := ∃ ops, d.states[q]? = some ops ∧ IsOpen ops

/-- Whether a state is finished. -/
def Done (d : Draft) (q : Nat) : Prop := ∃ ops, d.states[q]? = some ops ∧ IsClosed ops

/-- Whether the state that finishes a generator is there, and everything fits the states
there are. -/
def Sound (d : Draft) : Prop := endState < d.size ∧ ∀ ops ∈ d.states, OpsFit d.size ops

@[simp]
theorem size_reserve (d : Draft) : d.reserve.size = d.size + 1 := by
  simp [size, reserve]

@[simp]
theorem size_append (d : Draft) (q : Nat) (op : Op) : (d.append q op).size = d.size := by
  simp [size, append]

theorem getElem?_reserve (d : Draft) {q : Nat} (hq : q < d.size) :
    d.reserve.states[q]? = d.states[q]? := by
  simp [reserve, List.getElem?_append_left hq]

theorem getElem?_reserve_self (d : Draft) : d.reserve.states[d.size]? = some [] := by
  simp [reserve]

theorem getElem?_append_self {d : Draft} {q : Nat} {ops : List Op}
    (h : d.states[q]? = some ops) (op : Op) :
    (d.append q op).states[q]? = some (ops ++ [op]) := by
  simp [append, h]

theorem getElem?_append_of_ne (d : Draft) {q q' : Nat} (h : q' ≠ q) (op : Op) :
    (d.append q op).states[q']? = d.states[q']? := by
  simp [append, Ne.symm h]

theorem Ready.lt {d : Draft} {q : Nat} (h : d.Ready q) : q < d.size := by
  obtain ⟨ops, hops, -⟩ := h
  exact (List.getElem?_eq_some_iff.mp hops).1

theorem Done.lt {d : Draft} {q : Nat} (h : d.Done q) : q < d.size := by
  obtain ⟨ops, hops, -⟩ := h
  exact (List.getElem?_eq_some_iff.mp hops).1

theorem ready_reserve (d : Draft) : d.reserve.Ready d.size :=
  ⟨[], d.getElem?_reserve_self, isOpen_nil⟩

theorem Ready.append {d : Draft} {q : Nat} (h : d.Ready q) {op : Op}
    (hop : op.terminates = false) : (d.append q op).Ready q := by
  obtain ⟨ops, hops, hopen⟩ := h
  exact ⟨_, getElem?_append_self hops op, hopen.append hop⟩

theorem Ready.close {d : Draft} {q : Nat} (h : d.Ready q) {op : Op}
    (hop : op.terminates = true) : (d.append q op).Done q := by
  obtain ⟨ops, hops, hopen⟩ := h
  exact ⟨_, getElem?_append_self hops op, hopen.close hop⟩

theorem Ready.terminated {d : Draft} {q : Nat} (h : d.Ready q) :
    opsTerminate (d.states.getD q []) = false := by
  obtain ⟨ops, hops, hopen⟩ := h
  simp [hops, hopen.terminate]

theorem Done.terminated {d : Draft} {q : Nat} (h : d.Done q) :
    opsTerminate (d.states.getD q []) = true := by
  obtain ⟨ops, hops, hclosed⟩ := h
  simp [hops, hclosed.terminate]

theorem Sound.reserve {d : Draft} (h : d.Sound) : d.reserve.Sound := by
  refine ⟨by simpa using Nat.lt_succ_of_lt h.1, fun ops hops op hop => ?_⟩
  simp only [Draft.reserve, List.mem_append, List.mem_singleton] at hops
  rcases hops with hops | rfl
  · exact (h.2 ops hops op hop).mono (by simp)
  · simp [opsParts] at hop

theorem Sound.append {d : Draft} (h : d.Sound) {q : Nat} {op : Op} (hop : OpsFit d.size [op]) :
    (d.append q op).Sound := by
  refine ⟨by simpa using h.1, fun ops hops part hpart => ?_⟩
  rw [size_append]
  obtain ⟨i, hi⟩ := List.getElem?_of_mem hops
  by_cases hiq : i = q
  · subst hiq
    cases hold : d.states[i]? with
    | none => simp [Draft.append, hold] at hi
    | some old =>
        rw [getElem?_append_self hold] at hi
        obtain rfl := Option.some.inj hi
        rw [opsParts_append] at hpart
        rcases List.mem_append.mp hpart with hpart | hpart
        · exact h.2 old (List.mem_of_getElem? hold) part hpart
        · exact hop part hpart
  · rw [d.getElem?_append_of_ne hiq] at hi
    exact h.2 ops (List.mem_of_getElem? hi) part hpart

/-- Whether a draft extends another one.  Operations are only appended, and only to the
states of `touched`; all other new states are finished.  Fields and used names are only
added. -/
structure Extends (touched : List Nat) (d d' : Draft) : Prop where
  size_le : d.size ≤ d'.size
  grown : ∀ (q : Nat) (ops : List Op), d.states[q]? = some ops →
    ∃ more, d'.states[q]? = some (ops ++ more)
  kept : ∀ q : Nat, q ∉ touched → q < d.size → d'.states[q]? = d.states[q]?
  finished : ∀ q : Nat, q ∉ touched → d.size ≤ q → q < d'.size → d'.Done q
  fields : d.fields <+: d'.fields
  used : d.used <:+ d'.used

namespace Extends

variable {A B : List Nat} {d d' d'' : Draft}

theorem refl (d : Draft) : Extends [] d d where
  size_le := Nat.le_refl _
  grown q ops h := ⟨[], by simpa using h⟩
  kept q _ _ := rfl
  finished q _ h h' := absurd h' (by omega)
  fields := List.prefix_refl _
  used := List.suffix_refl _

theorem reserve (d : Draft) : Extends [d.size] d d.reserve where
  size_le := by simp
  grown q ops h := ⟨[], by
    rw [d.getElem?_reserve (List.getElem?_eq_some_iff.mp h).1, List.append_nil, h]⟩
  kept q _ hq := d.getElem?_reserve hq
  finished q hq h h' := by
    simp only [List.mem_singleton] at hq
    simp only [size_reserve] at h'
    omega
  fields := List.prefix_refl _
  used := List.suffix_refl _

theorem append (d : Draft) (q : Nat) (op : Op) : Extends [q] d (d.append q op) where
  size_le := by simp
  grown q' ops h := by
    by_cases hq : q' = q
    · subst hq
      exact ⟨[op], getElem?_append_self h op⟩
    · exact ⟨[], by rw [d.getElem?_append_of_ne hq, h, List.append_nil]⟩
  kept q' hq' _ := d.getElem?_append_of_ne (by simpa using hq') op
  finished q' _ h h' := by
    simp only [size_append] at h'
    omega
  fields := List.prefix_refl _
  used := List.suffix_refl _

/-- A draft with the same states. -/
theorem of_states (h : d'.states = d.states) (hfields : d.fields <+: d'.fields)
    (hused : d.used <:+ d'.used) : Extends [] d d' where
  size_le := by simp [size, h]
  grown q ops hops := ⟨[], by rw [h, List.append_nil, hops]⟩
  kept q _ _ := by rw [h]
  finished q _ hq hq' := by
    simp only [size, h] at hq hq'
    omega
  fields := hfields
  used := hused

theorem ready (h : Extends A d d') {q : Nat} (hq : q ∉ A) (hready : d.Ready q) :
    d'.Ready q := by
  obtain ⟨ops, hops, hopen⟩ := id hready
  exact ⟨ops, by rw [h.kept q hq hready.lt, hops], hopen⟩

theorem done (h : Extends A d d') {q : Nat} (hq : q ∉ A) (hdone : d.Done q) : d'.Done q := by
  obtain ⟨ops, hops, hclosed⟩ := id hdone
  exact ⟨ops, by rw [h.kept q hq hdone.lt, hops], hclosed⟩

theorem trans (h : Extends A d d') (h' : Extends B d' d'') : Extends (A ++ B) d d'' where
  size_le := Nat.le_trans h.size_le h'.size_le
  grown q ops hops := by
    obtain ⟨more, hmore⟩ := h.grown q ops hops
    obtain ⟨rest, hrest⟩ := h'.grown q _ hmore
    exact ⟨more ++ rest, by rw [hrest, List.append_assoc]⟩
  kept q hq hlt := by
    rw [List.mem_append, not_or] at hq
    rw [h'.kept q hq.2 (Nat.lt_of_lt_of_le hlt h.size_le), h.kept q hq.1 hlt]
  finished q hq hle hlt := by
    rw [List.mem_append, not_or] at hq
    by_cases hmid : q < d'.size
    · exact h'.done hq.2 (h.finished q hq.1 hle hmid)
    · exact h'.finished q hq.2 (Nat.le_of_not_lt hmid) hlt
  fields := h.fields.trans h'.fields
  used := h.used.trans h'.used

/-- New states that are finished by now need not be listed. -/
theorem shrink (h : Extends A d d')
    (hA : ∀ q ∈ A, q ∈ B ∨ d.size ≤ q ∧ (q < d'.size → d'.Done q)) : Extends B d d' where
  size_le := h.size_le
  grown := h.grown
  kept q hq hlt := by
    refine h.kept q (fun hmem => ?_) hlt
    rcases hA q hmem with hB | ⟨hle, -⟩
    · exact hq hB
    · omega
  finished q hq hle hlt := by
    by_cases hmem : q ∈ A
    · rcases hA q hmem with hB | ⟨-, hdone⟩
      · exact absurd hB hq
      · exact hdone hlt
    · exact h.finished q hmem hle hlt
  fields := h.fields
  used := h.used

end Extends

theorem Ready.not_done {d : Draft} {q : Nat} (h : d.Ready q) : ¬ d.Done q := by
  intro hdone
  have := h.terminated
  rw [hdone.terminated] at this
  cases this

theorem Sound.of_states {d d' : Draft} (h : d.Sound) (hstates : d'.states = d.states) :
    d'.Sound := by
  unfold Draft.Sound Draft.size at h ⊢
  rwa [hstates]

/-- What a part of lowering that started with `d` has come to: it has touched the states
of two lists only, those of the first can be extended now, and those of the second are
finished. -/
structure Opens (ready done : List Nat) (d d' : Draft) : Prop where
  sound : d'.Sound
  ext : Extends (ready ++ done) d d'
  isReady : ∀ q ∈ ready, d'.Ready q
  isDone : ∀ q ∈ done, d'.Done q

namespace Opens

variable {R D : List Nat} {d d' d'' : Draft} {q : Nat}

theorem start (hsound : d.Sound) (hready : ∀ q ∈ R, d.Ready q) : Opens R [] d d where
  sound := hsound
  ext := (Extends.refl d).shrink (by simp)
  isReady := hready
  isDone := by simp

theorem lt (h : Opens R D d d') (hq : q ∈ R ++ D) : q < d'.size := by
  rcases List.mem_append.mp hq with hq | hq
  · exact (h.isReady q hq).lt
  · exact (h.isDone q hq).lt

theorem reserve (h : Opens R D d d') : Opens (d'.size :: R) D d d'.reserve where
  sound := h.sound.reserve
  ext := (h.ext.trans (Extends.reserve d')).shrink fun q hq => .inl (by
    simp only [List.mem_append, List.mem_cons, List.not_mem_nil, or_false] at hq ⊢
    tauto)
  isReady := by
    refine List.forall_mem_cons.mpr ⟨d'.ready_reserve, fun q hq => ?_⟩
    have := h.lt (List.mem_append_left D hq)
    exact (Extends.reserve d').ready (by simp; omega) (h.isReady q hq)
  isDone q hq := by
    have := h.lt (List.mem_append_right R hq)
    exact (Extends.reserve d').done (by simp; omega) (h.isDone q hq)

/-- A step that leaves the states of `T` open or closes them. -/
theorem step {T R' D' : List Nat} (h : Opens R D d d') (hsound : d''.Sound)
    (hext : Extends T d' d'') (hT : ∀ q ∈ T, q ∈ R)
    (hready : ∀ q ∈ R', d''.Ready q ∨ q ∈ R ∧ q ∉ T) (hdone : ∀ q ∈ D', d''.Done q ∨ q ∈ D)
    (hall : ∀ q ∈ R ++ D, q ∈ R' ++ D') : Opens R' D' d d'' where
  sound := hsound
  ext := (h.ext.trans hext).shrink fun q hq => .inl (by
    rcases List.mem_append.mp hq with hq | hq
    · exact hall q hq
    · exact hall q (List.mem_append_left D (hT q hq)))
  isReady q hq := by
    rcases hready q hq with hq | ⟨hq, hqT⟩
    · exact hq
    · exact hext.ready hqT (h.isReady q hq)
  isDone q hq := by
    rcases hdone q hq with hq | hq
    · exact hq
    · refine hext.done (fun hqT => ?_) (h.isDone q hq)
      exact (h.isReady q (hT q hqT)).not_done (h.isDone q hq)

theorem of_states (h : Opens R D d d') (hstates : d''.states = d'.states)
    (hext : Extends [] d' d'') : Opens R D d d'' :=
  h.step (h.sound.of_states hstates) hext (by simp) (fun _ hq => .inr ⟨hq, by simp⟩)
    (fun _ hq => .inr hq) fun _ hq => hq

/-- A step that leaves a state open. -/
theorem keep (h : Opens R D d d') (hq : q ∈ R) (hsound : d''.Sound) (hext : Extends [q] d' d'')
    (hready : d''.Ready q) : Opens R D d d'' := by
  refine h.step hsound hext (by simpa using hq) (fun x hx => ?_) (fun _ hx => .inr hx)
    fun _ hx => hx
  by_cases hxq : x = q
  · exact .inl (hxq ▸ hready)
  · exact .inr ⟨hx, by simpa using hxq⟩

/-- A step that closes the first of the open states. -/
theorem run (h : Opens (q :: R) D d d') (hq : q ∉ R) (hsound : d''.Sound)
    (hext : Extends [q] d' d'') (hdone : d''.Done q) : Opens R (q :: D) d d'' := by
  refine h.step hsound hext (by simp) (fun x hx => ?_) (fun x hx => ?_) fun x hx => ?_
  · refine .inr ⟨List.mem_cons_of_mem q hx, fun hmem => hq ?_⟩
    rwa [List.mem_singleton.mp hmem] at hx
  · exact (List.mem_cons.mp hx).imp_left (by rintro rfl; exact hdone)
  · simp only [List.mem_append, List.mem_cons] at hx ⊢
    tauto

/-- A step that closes the first two of the open states. -/
theorem runPair {c : Nat} (h : Opens (q :: c :: R) D d d') (hq : q ∉ R) (hc : c ∉ R)
    (hsound : d''.Sound) (hext : Extends [q, c] d' d'') (hdone : d''.Done q)
    (hdone' : d''.Done c) : Opens R (q :: c :: D) d d'' := by
  refine h.step hsound hext (by simp) (fun x hx => ?_) (fun x hx => ?_) fun x hx => ?_
  · refine .inr ⟨List.mem_cons_of_mem q (List.mem_cons_of_mem c hx), fun hmem => ?_⟩
    rcases List.mem_pair.mp hmem with rfl | rfl
    · exact hq hx
    · exact hc hx
  · simp only [List.mem_cons] at hx
    rcases hx with rfl | rfl | hx
    · exact .inl hdone
    · exact .inl hdone'
    · exact .inr hx
  · simp only [List.mem_append, List.mem_cons] at hx ⊢
    tauto

/-- A step that closes all open states. -/
theorem runAll (h : Opens R D d d') (hsound : d''.Sound) (hext : Extends R d' d'')
    (hdone : ∀ q ∈ R, d''.Done q) : Opens [] (R ++ D) d d'' :=
  h.step hsound hext (fun _ hq => hq) (by simp)
    (fun x hx => (List.mem_append.mp hx).imp_left (hdone x)) (fun _ hx => hx)

theorem append (h : Opens R D d d') (q : Nat) (op : Op) (hq : q ∈ R) (hop : op.terminates = false)
    (hfit : OpsFit d'.size [op]) : Opens R D d (d'.append q op) :=
  h.keep hq (h.sound.append hfit) (Extends.append d' q op) ((h.isReady q hq).append hop)

theorem close (h : Opens (q :: R) D d d') (hq : q ∉ R) (op : Op) (hop : op.terminates = true)
    (hfit : OpsFit d'.size [op]) : Opens R (q :: D) d (d'.append q op) :=
  h.run hq (h.sound.append hfit) (Extends.append d' q op)
    ((h.isReady q List.mem_cons_self).close hop)

theorem congr {R' : List Nat} (h : Opens R D d d') (hR : ∀ q, q ∈ R ↔ q ∈ R') :
    Opens R' D d d' :=
  h.step (T := []) h.sound (Extends.refl _) (by simp)
    (fun q hq => .inr ⟨(hR q).mpr hq, by simp⟩) (fun _ hq => .inr hq) fun q hq => by
      simpa [hR] using hq

theorem swap {c : Nat} (h : Opens (q :: c :: R) D d d') : Opens (c :: q :: R) D d d' :=
  h.congr fun x => by simp only [List.mem_cons, or_left_comm]

/-- What is left to say once the new states are finished. -/
theorem finish {B : List Nat} (h : Opens R D d d') (hR : ∀ q ∈ R, q ∈ B)
    (hD : ∀ q ∈ D, q ∈ B ∨ d.size ≤ q) : Extends B d d' := by
  refine h.ext.shrink fun q hq => ?_
  rcases List.mem_append.mp hq with hq | hq
  · exact .inl (hR q hq)
  · exact (hD q hq).imp_right fun hle => ⟨hle, fun _ => h.isDone q hq⟩

end Opens

end Draft

namespace Lowering

variable {α β : Type} {E : LowerError → Prop} {d : Draft}

/-- Whether a part of lowering that starts with `d` fails with an error in `E`, or else
gives a result and a draft for which `Q` holds. -/
def Ensures (E : LowerError → Prop) (d : Draft) (x : Lowering α) (Q : α → Draft → Prop) : Prop :=
  match x d with
  | .ok (a, d') => Q a d'
  | .error e => E e

theorem bind_apply (x : Lowering α) (f : α → Lowering β) (d : Draft) :
    (x >>= f) d =
      match x d with
      | .ok (a, d') => f a d'
      | .error e => .error e := by
  show (x d >>= fun p => f p.1 p.2) = _
  cases x d <;> rfl

/-- What a successful part of lowering consists of. -/
theorem bind_ok {x : Lowering α} {f : α → Lowering β} {b : β} {d' : Draft} :
    (x >>= f) d = .ok (b, d') ↔ ∃ a d₁, x d = .ok (a, d₁) ∧ f a d₁ = .ok (b, d') := by
  rw [bind_apply]
  cases hx : x d with
  | error e => simp
  | ok p =>
      obtain ⟨a, d₁⟩ := p
      simp

theorem newState_bind (f : Nat → Lowering β) (d : Draft) :
    (newState >>= f) d = f d.size d.reserve := rfl

theorem emit_bind (q : Nat) (op : Op) (f : Unit → Lowering β) (d : Draft) :
    (emit q op >>= f) d = f () (d.append q op) := rfl

theorem pure_ok {a b : α} {d' : Draft} :
    (pure a : Lowering α) d = .ok (b, d') ↔ a = b ∧ d = d' := by
  show Except.ok (a, d) = _ ↔ _
  simp

theorem discard_apply (x : Lowering α) (d : Draft) :
    (discard x : Lowering Unit) d =
      match x d with
      | .ok (_, d') => .ok ((), d')
      | .error e => .error e := by
  show StateT.map _ x d = _
  unfold StateT.map
  cases x d <;> rfl

namespace Ensures

theorem pure {a : α} {Q : α → Draft → Prop} (h : Q a d) : Ensures E d (Pure.pure a) Q := h

theorem throw {e : LowerError} {Q : α → Draft → Prop} (h : E e) :
    Ensures E d (MonadExcept.throw e) Q := h

theorem bind {x : Lowering α} {f : α → Lowering β} {P : α → Draft → Prop} {Q : β → Draft → Prop}
    (hx : Ensures E d x P) (hf : ∀ a d', P a d' → Ensures E d' (f a) Q) :
    Ensures E d (x >>= f) Q := by
  unfold Ensures at hx ⊢
  rw [bind_apply]
  cases hres : x d with
  | error e =>
      rw [hres] at hx
      exact hx
  | ok p =>
      rw [hres] at hx
      exact hf p.1 p.2 hx

theorem mono {x : Lowering α} {P Q : α → Draft → Prop} (h : Ensures E d x P)
    (himp : ∀ a d', P a d' → Q a d') : Ensures E d x Q := by
  unfold Ensures at h ⊢
  cases hres : x d with
  | error e =>
      rw [hres] at h
      exact h
  | ok p =>
      rw [hres] at h
      exact himp p.1 p.2 h

theorem discard {x : Lowering α} {Q : Unit → Draft → Prop}
    (h : Ensures E d x fun _ => Q ()) : Ensures E d (discard x) Q := by
  unfold Ensures at h ⊢
  rw [discard_apply]
  cases hres : x d with
  | error e =>
      rw [hres] at h
      exact h
  | ok p =>
      rw [hres] at h
      exact h

theorem newState {f : Nat → Lowering β} {Q : β → Draft → Prop}
    (h : Ensures E d.reserve (f d.size) Q) : Ensures E d (Lowering.newState >>= f) Q := h

theorem emit {q : Nat} {op : Op} {f : Unit → Lowering β} {Q : β → Draft → Prop}
    (h : Ensures E (d.append q op) (f ()) Q) : Ensures E d (Lowering.emit q op >>= f) Q := h

theorem emit_last {q : Nat} {op : Op} {Q : Unit → Draft → Prop} (h : Q () (d.append q op)) :
    Ensures E d (Lowering.emit q op) Q := h

theorem reach {f : Nat → Lowering β} {Q : β → Draft → Prop}
    (h : Ensures E { d with reached := d.reached + 1 } (f d.reached) Q) :
    Ensures E d (Lowering.reach >>= f) Q := h

theorem terminated {q : Nat} {f : Bool → Lowering β} {Q : β → Draft → Prop}
    (h : Ensures E d (f (opsTerminate (d.states.getD q []))) Q) :
    Ensures E d (Lowering.terminated q >>= f) Q := h

end Ensures

/-- What holds of a successful part of lowering. -/
theorem Ensures.ok {x : Lowering α} {Q : α → Draft → Prop} (h : Ensures E d x Q) {a : α}
    {d' : Draft} (hx : x d = .ok (a, d')) : Q a d' := by
  unfold Ensures at h
  rw [hx] at h
  exact h

end Lowering

/-- Whether the targets of a context are among `size` states. -/
structure StateEnv.Fits (size : Nat) (env : StateEnv) : Prop where
  next : env.next < size
  breaks : ∀ target ∈ env.breaks, target.2 < size
  continues : ∀ target ∈ env.continues, target.2 < size

namespace StateEnv.Fits

variable {size size' : Nat} {env : StateEnv}

theorem mono (h : env.Fits size) (hsize : size ≤ size') : env.Fits size' where
  next := Nat.lt_of_lt_of_le h.next hsize
  breaks target ht := Nat.lt_of_lt_of_le (h.breaks target ht) hsize
  continues target ht := Nat.lt_of_lt_of_le (h.continues target ht) hsize

theorem withNext (h : env.Fits size) {state : Nat} (hs : state < size) :
    StateEnv.Fits size (env.withNext state) :=
  ⟨hs, h.breaks, h.continues⟩

theorem clearLabels (h : env.Fits size) : StateEnv.Fits size env.clearLabels :=
  ⟨h.next, h.breaks, h.continues⟩

theorem withLabel (h : env.Fits size) (label : String) :
    StateEnv.Fits size (env.withLabel label) :=
  ⟨h.next, h.breaks, h.continues⟩

theorem withRename (h : env.Fits size) (name : String) (target : Target) :
    StateEnv.Fits size (env.withRename name target) :=
  ⟨h.next, h.breaks, h.continues⟩

theorem withBreak (h : env.Fits size) (label : String) {state : Nat} (hs : state < size) :
    StateEnv.Fits size (env.withBreak label state) where
  next := h.next
  breaks := List.forall_mem_cons.mpr ⟨hs, h.breaks⟩
  continues := h.continues

theorem withContinue (h : env.Fits size) (label : String) {state : Nat} (hs : state < size) :
    StateEnv.Fits size (env.withContinue label state) where
  next := h.next
  breaks := h.breaks
  continues := List.forall_mem_cons.mpr ⟨hs, h.continues⟩

theorem withContinues (labels : List String) (h : env.Fits size) {state : Nat}
    (hs : state < size) :
    StateEnv.Fits size (labels.foldl (fun env label => env.withContinue label state) env) := by
  induction labels generalizing env with
  | nil => exact h
  | cons label labels ih => exact ih (h.withContinue label hs)

theorem inLoop (h : env.Fits size) {state : Nat} (hs : state < size) :
    StateEnv.Fits size (env.inLoop state) :=
  ((withContinues env.labels ((h.withBreak "" h.next).withContinue "" hs) hs).withNext
    hs).clearLabels

theorem break? (h : env.Fits size) {label : String} {goal : Nat}
    (hgoal : env.break? label = some goal) : goal < size := by
  obtain ⟨before, after, hlist, -⟩ := List.lookup_eq_some_iff.mp hgoal
  exact h.breaks (label, goal) (by simp [hlist])

theorem continue? (h : env.Fits size) {label : String} {goal : Nat}
    (hgoal : env.continue? label = some goal) : goal < size := by
  obtain ⟨before, after, hlist, -⟩ := List.lookup_eq_some_iff.mp hgoal
  exact h.continues (label, goal) (by simp [hlist])

end StateEnv.Fits

section Conditionals

open Lowering

variable {plan : Plan} {other : Flow} {current : Nat}

/-- Whether a statement is a block. -/
def Flow.isBlock : Flow → Bool
  | .block _ => true
  | _ => false

theorem lowerSingle_eq (env : StateEnv) :
    lowerSingle plan other (fun child => other.lower plan current child) current env = (do
      let cont ← newState
      lowerStmts plan [other] current cont env) := by
  simp only [lowerSingle, lowerStmts]

/-- How the else part of a conditional is lowered: as a block if it is one, and as a single
statement otherwise. -/
def Flow.lowerElse (plan : Plan) (other : Flow) (state : Nat) (env : StateEnv) : Lowering Unit :=
  match other with
  | .block body => do
    let cont ← newState
    lowerStmts plan body state cont env
  | other => do
    let cont ← newState
    lowerStmts plan [other] state cont env

theorem Flow.lowerElse_single (h : other.isBlock = false) (env : StateEnv) :
    other.lowerElse plan current env =
      lowerSingle plan other (fun child => other.lower plan current child) current env := by
  rw [lowerSingle_eq]
  cases other with
  | block body => cases h
  | _ => rfl

/-- The operations of a conditional of which one branch always runs. -/
def Lowering.branch (current : Nat) (cond : Expr) (first second : Nat) : Lowering Unit := do
  emit current (.when cond [.jump first .missing])
  emit current (.jump second .missing)

/-- A conditional is lowered branch by branch, and then leads to them. -/
theorem Flow.lower_ite (cond : Expr) (body : List Flow) (env : StateEnv) :
    (Flow.ite cond body other).lower plan current env = (do
      let thenState ← newState
      let cont ← newState
      lowerStmts plan body thenState cont env.clearLabels
      if other.isMissing then
        branch current (env.resolve cond) thenState env.next
      else
        let elseState ← newState
        other.lowerElse plan elseState env.clearLabels
        if other.isTotalElse then
          branch current (env.resolve cond) thenState elseState
        else
          emit current (.choose (env.resolve cond) [.jump thenState .missing]
            [.jump elseState .missing])) := by
  rw [Flow.lower]
  refine bind_congr fun thenState => bind_congr fun cont => bind_congr fun _ => ?_
  cases other with
  | missing => rfl
  | block otherBody =>
      simp only [isMissing, Bool.false_eq_true, if_false, lowerElse, bind_assoc, isTotalElse,
        if_true]
      rfl
  | _ =>
      simp only [lowerSingle_eq]
      rfl

end Conditionals

end YieldMachine
