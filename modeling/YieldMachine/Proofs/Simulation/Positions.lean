import YieldMachine.Proofs.Lowering.Total
import YieldMachine.Proofs.Meaning.Verbatim
import YieldMachine.Proofs.Simulation.Fields

/-!
# Positions in a table

While a body is lowered, the next operation of a state goes to a position that is known:
the finished table goes on from there with what is appended.  `Exits` says what the table
does where a statement ends.
-/

namespace YieldMachine

open Lowering Behaviour

/-- The operations of a state; there are none yet in a state that is not reserved. -/
def Draft.ops (d : Draft) (q : Nat) : List Op := d.states.getD q []

/-- Whether a draft is a part of a table with the given fields. -/
structure Draft.Within (d : Draft) (states : List (List Op)) (fields : List String) : Prop where
  ops : ∀ q, d.ops q <+: states.getD q []
  size : d.size ≤ states.length
  fields : ∀ f ∈ d.fields.map Prod.fst, f ∈ fields

namespace Draft

variable {d d' : Draft} {q : Nat}

@[simp]
theorem ops_reserve (d : Draft) (q : Nat) : d.reserve.ops q = d.ops q := by
  by_cases hq : q < d.size
  · simp only [ops, List.getD_eq_getElem?_getD, d.getElem?_reserve hq]
  · have hnone : d.states[q]? = none := List.getElem?_eq_none (by simpa using hq)
    by_cases hqe : q = d.size
    · subst hqe
      simp only [ops, List.getD_eq_getElem?_getD, d.getElem?_reserve_self, hnone]
      rfl
    · have hnone' : d.reserve.states[q]? = none := by
        refine List.getElem?_eq_none ?_
        show d.reserve.size ≤ q
        rw [size_reserve]
        omega
      simp [ops, List.getD_eq_getElem?_getD, hnone, hnone']

theorem ops_append_self (hq : q < d.size) (op : Op) : (d.append q op).ops q = d.ops q ++ [op] := by
  obtain ⟨ops', hops⟩ : ∃ ops', d.states[q]? = some ops' := ⟨_, List.getElem?_eq_getElem hq⟩
  simp [ops, List.getD_eq_getElem?_getD, getElem?_append_self hops, hops]

theorem ops_append_of_ne (d : Draft) {q' : Nat} (h : q' ≠ q) (op : Op) :
    (d.append q op).ops q' = d.ops q' := by
  simp [ops, List.getD_eq_getElem?_getD, d.getElem?_append_of_ne h]

theorem ops_of_size_le (h : d.size ≤ q) : d.ops q = [] := by
  simp [ops, List.getD_eq_getElem?_getD, List.getElem?_eq_none h]

/-- A new state is empty. -/
theorem ops_new (d : Draft) : d.reserve.ops d.size = [] := by
  rw [ops_reserve, ops_of_size_le (Nat.le_refl _)]

/-- The states after those of a draft are empty, also when the draft jumps to the first of them. -/
theorem ops_entered {current : Nat} (hcurrent : current < d.size) (hq : d.size ≤ q) (op : Op) :
    (d.reserve.append current op).ops q = [] := by
  rw [ops_append_of_ne _ (by omega), ops_reserve, ops_of_size_le hq]

theorem ops_of_states (h : d'.states = d.states) (q : Nat) : d'.ops q = d.ops q := by
  rw [ops, h, ops]

theorem Extends.ops_kept {A : List Nat} (h : Extends A d d') (hq : q ∉ A) (hlt : q < d.size) :
    d'.ops q = d.ops q := by
  simp only [ops, List.getD_eq_getElem?_getD, h.kept q hq hlt]

theorem Extends.ops_grown {A : List Nat} (h : Extends A d d') (q : Nat) :
    d.ops q <+: d'.ops q := by
  cases hq : d.states[q]? with
  | none => simp [ops, List.getD_eq_getElem?_getD, hq]
  | some ops' =>
      obtain ⟨more, hmore⟩ := h.grown q ops' hq
      simp [ops, List.getD_eq_getElem?_getD, hq, hmore]

namespace Within

variable {states : List (List Op)} {fields : List String}

theorem of_extends {A : List Nat} (h : d'.Within states fields) (hext : Extends A d d') :
    d.Within states fields where
  ops q := (hext.ops_grown q).trans (h.ops q)
  size := Nat.le_trans hext.size_le h.size
  fields f hf := h.fields f ((hext.fields.map Prod.fst).subset hf)

theorem of_reserve (h : d.reserve.Within states fields) : d.Within states fields :=
  h.of_extends (Extends.reserve d)

theorem of_append {op : Op} (h : (d.append q op).Within states fields) :
    d.Within states fields :=
  h.of_extends (Extends.append d q op)

/-- What the table runs from a position on. -/
theorem drop_eq (h : d'.Within states fields) {ops : List Op}
    (hops : d'.ops q = d.ops q ++ ops) :
    (states.getD q []).drop (d.ops q).length =
      ops ++ (states.getD q []).drop (d'.ops q).length := by
  obtain ⟨rest, hrest⟩ := h.ops q
  rw [← hrest, hops]
  simp

theorem drop_append {op : Op} (h : (d.append q op).Within states fields) (hq : q < d.size) :
    (states.getD q []).drop (d.ops q).length =
      op :: (states.getD q []).drop ((d.append q op).ops q).length :=
  h.drop_eq (ops_append_self hq op)

end Within

end Draft

/-- A table in which a body is lowered, and how it is run. -/
structure Setting where
  session : Session
  states : List (List Op)
  fields : List String
  /-- the bound on the turns of loops -/
  turns : Nat

namespace Setting

variable (S : Setting)

/-- What the table does from a position of a state on. -/
def resume (q i : Nat) (m : Memory) : Behaviour :=
  running S.session S.states S.turns q ((S.states.getD q []).drop i) m

/-- What the table does when it enters a state. -/
def enter (q : Nat) (m : Memory) : Behaviour := entering S.session S.states S.turns q m

/-- What the table does after a statement that was lowered into a state: it enters the
next state, or goes on in the same one. -/
def proceed (ended : Bool) (d : Draft) (current next : Nat) (m : Memory) : Behaviour :=
  if ended then S.enter next m else S.resume current (d.ops current).length m

/-- Whether the table behaves as a course. -/
def Sim {α : Type} (rounds : Nat) (t : Course α) (b : Behaviour) : Prop :=
  t.Simulated S.session S.states S.turns rounds b

/-- Whether the table can run what is lowered into it: the session is that of a holder, no
hidden name stands for the runtime, and all jumps lead to states. -/
structure Ready : Prop where
  recv : S.session.recv = receiverName
  runtime : S.session.runtime ≠ iteratorName
  jumps : ∀ q goal value, .jump goal value ∈ opsParts (S.states.getD q []) →
    goal < S.states.length

/-- What the table does where a statement ends in a branch or ends the generator.  `R`
relates the memories at that moment. -/
structure Exits (env : StateEnv) (R : Memory → Memory → Prop) (rounds : Nat)
    (K : Ending → Memory → Course Ending) : Prop where
  brk : ∀ l goal m mt, env.break? l = some goal → R m mt →
    S.Sim rounds (K (.brk l) m) (S.enter goal mt)
  cont : ∀ l goal m mt, env.continue? l = some goal → R m mt →
    S.Sim rounds (K (.cont l) m) (S.enter goal mt)
  finish : ∀ m mt, R m mt → S.Sim rounds (K .finish m) (S.enter endState mt)

end Setting

section Transfers

variable {S : Setting} {α : Type} {d : Draft} {rounds q goal : Nat} {t : Course α}
  {m mt : Memory} {op : Op}

theorem opsParts_subset {ops others : List Op} (h : others <+: ops) :
    ∀ op ∈ opsParts others, op ∈ opsParts ops := by
  obtain ⟨rest, rfl⟩ := h
  intro op hop
  rw [opsParts_append]
  exact List.mem_append_left _ hop

/-- A state of the table and the position at its start. -/
theorem Setting.Sim.enter (hq : q < S.states.length)
    (h : S.Sim (rounds - 1) t (S.resume q 0 mt)) : S.Sim rounds t (S.enter q mt) := by
  refine Course.Simulated.enter (List.getElem?_eq_getElem hq) ?_
  have hops : S.states.getD q [] = S.states[q] := by
    simp [List.getD_eq_getElem?_getD, List.getElem?_eq_getElem hq]
  unfold Setting.Sim Setting.resume at h
  rwa [hops] at h

theorem Setting.Sim.mono {b : Behaviour} (h : S.Sim rounds t b) {fewer : Nat}
    (hle : fewer ≤ rounds) : S.Sim fewer t b :=
  Course.Simulated.mono h hle

/-- The goal of a jump that was appended. -/
theorem Setting.Ready.jump_lt (hS : S.Ready) (hq : q < d.size)
    (hwithin : (d.append q op).Within S.states S.fields)
    (value : Expr) (hop : .jump goal value ∈ op.parts) : goal < S.states.length := by
  refine hS.jumps q goal value (opsParts_subset (hwithin.ops q) _ ?_)
  rw [Draft.ops_append_self hq, opsParts_append]
  exact List.mem_append_right _ (by simpa [opsParts] using hop)

/-- A jump. -/
theorem Setting.resume_jump (hS : S.Ready) (hq : q < d.size)
    (hwithin : (d.append q (.jump goal .missing)).Within S.states S.fields) :
    S.resume q (d.ops q).length mt = S.enter goal mt := by
  have hgoal : goal < S.states.length := hS.jump_lt hq hwithin .missing (by simp [Op.parts])
  unfold Setting.resume Setting.enter
  rw [hwithin.drop_append hq, running_jump hgoal]

/-- A statement that is executed in a state. -/
theorem Setting.resume_exec {stmt : Stmt} (hq : q < d.size)
    (hwithin : (d.append q (.exec stmt)).Within S.states S.fields) :
    S.resume q (d.ops q).length mt =
      after (inScope (stmt.exec S.session S.turns))
        (fun _ => S.resume q ((d.append q (.exec stmt)).ops q).length) mt := by
  unfold Setting.resume
  rw [hwithin.drop_append hq, running_exec]

end Transfers

namespace Setting.Exits

variable {S : Setting} {env env' : StateEnv} {R R' : Memory → Memory → Prop} {rounds : Nat}
  {K : Ending → Memory → Course Ending}

theorem mono (h : S.Exits env R rounds K) {fewer : Nat} (hle : fewer ≤ rounds)
    (hR : ∀ m mt, R' m mt → R m mt) : S.Exits env R' fewer K where
  brk l goal m mt hgoal hm := (h.brk l goal m mt hgoal (hR m mt hm)).mono hle
  cont l goal m mt hgoal hm := (h.cont l goal m mt hgoal (hR m mt hm)).mono hle
  finish m mt hm := (h.finish m mt (hR m mt hm)).mono hle

/-- Contexts with the same targets. -/
theorem congr (h : S.Exits env R rounds K) (hbreaks : env'.breaks = env.breaks)
    (hcontinues : env'.continues = env.continues) : S.Exits env' R rounds K where
  brk l goal m mt hgoal := h.brk l goal m mt (by rwa [Env.break?, hbreaks] at hgoal)
  cont l goal m mt hgoal := h.cont l goal m mt (by rwa [Env.continue?, hcontinues] at hgoal)
  finish := h.finish

/-- Where the scope of a statement ends with it. -/
theorem comap (f : Memory → Memory) (h : S.Exits env R rounds K)
    (hR : ∀ m mt, R' m mt → R (f m) mt) : S.Exits env R' rounds fun c m => K c (f m) where
  brk l goal m mt hgoal hm := h.brk l goal (f m) mt hgoal (hR m mt hm)
  cont l goal m mt hgoal hm := h.cont l goal (f m) mt hgoal (hR m mt hm)
  finish m mt hm := h.finish (f m) mt (hR m mt hm)

/-- In the body of a loop. -/
theorem inLoop (h : S.Exits env R rounds K)
    (hnormal : ∀ m mt, R m mt → S.Sim rounds (K .normal m) (S.enter env.next mt))
    {again : Memory → Course Ending} {target : Nat}
    (hagain : ∀ m mt, R m mt → S.Sim rounds (again m) (S.enter target mt)) :
    S.Exits (env.inLoop target) R rounds fun c m =>
      match c.afterBody env.labels with
      | some c => K c m
      | none => again m where
  brk l goal m mt hgoal hm := by
    rw [Env.break?_inLoop] at hgoal
    by_cases hl : l = ""
    · simp only [hl, if_true, Option.some.injEq, Ending.afterBody] at hgoal ⊢
      exact hgoal ▸ hnormal m mt hm
    · simp only [hl, if_false, Ending.afterBody] at hgoal ⊢
      exact h.brk l goal m mt hgoal hm
  cont l goal m mt hgoal hm := by
    rw [Env.continue?_inLoop] at hgoal
    by_cases hl : l = "" ∨ l ∈ env.labels
    · simp only [hl, if_true, Option.some.injEq, Ending.afterBody] at hgoal ⊢
      exact hgoal ▸ hagain m mt hm
    · simp only [hl, if_false, Ending.afterBody] at hgoal ⊢
      exact h.cont l goal m mt hgoal hm
  finish m mt hm := h.finish m mt hm

/-- In a statement that ends a break to `label`. -/
theorem leave (h : S.Exits env R rounds K)
    (hnormal : ∀ m mt, R m mt → S.Sim rounds (K .normal m) (S.enter env.next mt))
    (label : String) :
    S.Exits (env.withBreak label env.next) R rounds fun c m => K (c.leave label) m where
  brk l goal m mt hgoal hm := by
    rw [Env.break?_withBreak] at hgoal
    by_cases hl : l = label
    · simp only [hl, if_true, Option.some.injEq, Ending.leave] at hgoal ⊢
      exact hgoal ▸ hnormal m mt hm
    · simp only [hl, if_false, Ending.leave] at hgoal ⊢
      exact h.brk l goal m mt hgoal hm
  cont l goal m mt hgoal hm := h.cont l goal m mt hgoal hm
  finish m mt hm := h.finish m mt hm

end Setting.Exits

end YieldMachine
