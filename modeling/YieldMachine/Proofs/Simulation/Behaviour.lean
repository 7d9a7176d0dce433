import YieldMachine.Proofs.Meaning.Flow
import YieldMachine.Proofs.Meaning.Mirrors

/-!
# Tables that behave as a course

A running table is looked at between two elements, and as a function of the number of
states that it may still enter.  `Course.Simulated` compares such a behaviour with a course:
the table hands over the same values, ends in the same way, and takes enough states to run
out of its bound where the course runs out of rounds.
-/

namespace YieldMachine

/-- What a table does up to its next element, for each bound on the number of states that
it enters on the way. -/
abbrev Behaviour := Nat → EStateM.Result Fault Memory (Bounce TableStep Value)

namespace Behaviour

variable {α : Type}

/-- Enters one state before it goes on. -/
def delay (m : Memory) (β : Behaviour) : Behaviour
  | 0 => .error .exhausted m
  | bound + 1 => β bound

/-- Goes on after a computation. -/
def after (x : Eff Memory α) (k : α → Memory → Behaviour) (m : Memory) : Behaviour :=
  match x m with
  | .ok a m => k a m
  | .error e m => fun _ => .error e m

/-- Whether a behaviour gives the result as soon as it may enter `count` states. -/
def Reaches (β : Behaviour) (count : Nat)
    (r : EStateM.Result Fault Memory (Bounce TableStep Value)) : Prop :=
  (∀ bound < count, Exhausts (β bound)) ∧ ∀ bound, count ≤ bound → β bound = r

theorem reaches_now (r : EStateM.Result Fault Memory (Bounce TableStep Value)) :
    Reaches (fun _ => r) 0 r :=
  ⟨fun _ h => absurd h (Nat.not_lt_zero _), fun _ _ => rfl⟩

theorem Reaches.delay {β : Behaviour} {count : Nat}
    {r : EStateM.Result Fault Memory (Bounce TableStep Value)} (h : Reaches β count r)
    (m : Memory) : Reaches (delay m β) (count + 1) r := by
  constructor
  · intro bound hbound
    cases bound with
    | zero => exact ⟨m, rfl⟩
    | succ bound => exact h.1 bound (by omega)
  · intro bound hbound
    cases bound with
    | zero => omega
    | succ bound => exact h.2 bound (by omega)

theorem after_bind {β : Type} (x : Eff Memory α) (f : α → Eff Memory β)
    (k : β → Memory → Behaviour) (m : Memory) :
    after (x >>= f) k m = after x (fun a => after (f a) k) m := by
  unfold after
  rw [eff_bind_apply]
  cases x m <;> rfl

theorem after_congr (x : Eff Memory α) {k k' : α → Memory → Behaviour}
    (h : ∀ a m, k a m = k' a m) (m : Memory) : after x k m = after x k' m := by
  unfold after
  cases x m with
  | ok a m' => exact h a m'
  | error e m' => rfl

end Behaviour

open Behaviour

section Running

variable (s : Session) (states : List (List Op)) (n : Nat)

/-- What a table does when it enters a state. -/
def entering (q : Nat) (m : Memory) : Behaviour := fun bound =>
  Bounce.trampoline (tableStep s states.toArray n) bound (.enter q) m

/-- What a table does with the transfer that a state ends in. -/
def following (q : Nat) : Option (Bounce TableStep Value) → Memory → Behaviour
  | none, m => fun _ => .error (.fellThrough q) m
  | some ⟨some next, none⟩, m => fun bound =>
    Bounce.trampoline (tableStep s states.toArray n) bound next m
  | some b, m => fun _ => .ok b m

/-- What a table does when it runs operations of a state. -/
def running (q : Nat) (ops : List Op) (m : Memory) : Behaviour :=
  after (runOps s states.toArray n ops) (following s states n q) m

variable {s states n} {q : Nat}

theorem entering_eq {ops : List Op} (h : states[q]? = some ops) (m : Memory) :
    entering s states n q m = delay m (running s states n q ops m) := by
  funext bound
  cases bound with
  | zero => rfl
  | succ bound =>
      show Bounce.trampoline _ (bound + 1) _ m = _
      rw [Bounce.trampoline, eff_bind_apply]
      simp only [tableStep, List.getElem?_toArray, h]
      rw [eff_bind_apply]
      simp only [delay, running, after]
      cases runOps s states.toArray n ops m with
      | error e m' => rfl
      | ok b m' =>
          rcases b with _ | ⟨_ | next, _ | value⟩ <;> rfl

theorem runOps_append (ops others : List Op) :
    runOps s states.toArray n (ops ++ others) = (do
      match ← runOps s states.toArray n ops with
      | some b => pure (some b)
      | none => runOps s states.toArray n others) := by
  induction ops with
  | nil =>
      funext m
      rw [eff_bind_apply]
      rfl
  | cons op ops ih =>
      funext m
      simp only [List.cons_append, runOps, ih, bind_assoc]
      rw [eff_bind_apply, eff_bind_apply]
      cases op.run s states.toArray n m with
      | error e m' => rfl
      | ok b m' => cases b <;> rfl

/-- What is left to run after the first operations. -/
theorem running_append (ops others : List Op) (m : Memory) :
    running s states n q (ops ++ others) m =
      after (runOps s states.toArray n ops)
        (fun
          | none => running s states n q others
          | some b => following s states n q (some b)) m := by
  unfold running
  rw [runOps_append, after_bind]
  unfold after
  cases runOps s states.toArray n ops m with
  | error e m' => rfl
  | ok b m' => cases b <;> rfl

theorem running_cons (op : Op) (ops : List Op) (m : Memory) :
    running s states n q (op :: ops) m =
      after (op.run s states.toArray n)
        (fun
          | none => running s states n q ops
          | some b => following s states n q (some b)) m := by
  unfold running
  rw [runOps, after_bind]
  unfold after
  cases op.run s states.toArray n m with
  | error e m' => rfl
  | ok b m' => cases b <;> rfl

theorem running_exec (stmt : Stmt) (ops : List Op) (m : Memory) :
    running s states n q (.exec stmt :: ops) m =
      after (inScope (stmt.exec s n)) (fun _ => running s states n q ops) m := by
  rw [running_cons, Op.run, after_bind]
  rfl

theorem running_jump {goal : Nat} (h : goal < states.length) (ops : List Op) (m : Memory) :
    running s states n q (.jump goal .missing :: ops) m = entering s states n goal m := by
  rw [running_cons, Op.run, jumpTo, if_pos (by simpa using h)]
  rfl

theorem running_emit {goal : Nat} (h : goal < states.length) {value : Expr}
    (hvalue : value.isMissing = false) (ops : List Op) (m : Memory) :
    running s states n q (.jump goal value :: ops) m =
      after (evaluate s value) (fun v m _ => .ok (.emit (.enter goal) v) m) m := by
  have hrun : (Op.jump goal value).run s states.toArray n = (do
      let v ← evaluate s value
      pure (some (.emit (.enter goal) v))) := by
    rw [Op.run]
    unfold jumpTo
    rw [if_pos (by simpa using h)]
    cases value with
    | missing => cases hvalue
    | _ => simp only [bind_assoc, pure_bind, evaluate]
  rw [running_cons, hrun, after_bind]
  rfl

theorem running_finish (ops : List Op) (m : Memory) :
    running s states n q (.finish :: ops) m = delay m fun _ => .ok .done m := by
  rw [running_cons, Op.run]
  funext bound
  cases bound <;> rfl

theorem running_when (cond : Expr) (ops others : List Op) (m : Memory) :
    running s states n q (.when cond ops :: others) m =
      after (holds s cond)
        (fun b => running s states n q (if b then ops ++ others else others)) m := by
  have hrun : (Op.when cond ops).run s states.toArray n = (do
      if ← holds s cond then runOps s states.toArray n ops else pure none) := rfl
  rw [running_cons, hrun, after_bind]
  refine after_congr _ (fun b m => ?_) m
  cases b with
  | false => rfl
  | true => exact (running_append ops others m).symm

theorem running_choose (cond : Expr) (ops others rest : List Op) (m : Memory) :
    running s states n q (.choose cond ops others :: rest) m =
      after (holds s cond)
        (fun b => running s states n q ((if b then ops else others) ++ rest)) m := by
  have hrun : (Op.choose cond ops others).run s states.toArray n = (do
      if ← holds s cond then runOps s states.toArray n ops
      else runOps s states.toArray n others) := rfl
  rw [running_cons, hrun, after_bind]
  refine after_congr _ (fun b m => ?_) m
  cases b with
  | false => exact (running_append others rest m).symm
  | true => exact (running_append ops rest m).symm

theorem runArm_eq (i : Nat) (arms : List Arm) :
    runArm s states.toArray n i arms =
      runOps s states.toArray n ((arms[i]?.map Arm.ops).getD []) := by
  induction arms generalizing i with
  | nil => cases i <;> rfl
  | cons arm arms ih =>
      cases i with
      | zero => cases arm <;> rfl
      | succ i => exact ih i

/-- The operations that a dispatch runs, given the position of an arm. -/
def armOps (arms : List Arm) : Option Nat → List Op
  | some i => (arms[i]?.map Arm.ops).getD []
  | none => []

theorem running_dispatch (tag : Expr) (arms : List Arm) (rest : List Op) (m : Memory) :
    running s states n q (.dispatch tag arms :: rest) m =
      after (chooseArm s tag arms)
        (fun choice => running s states n q (armOps arms choice ++ rest)) m := by
  rw [running_cons, Op.run, after_bind]
  refine after_congr _ (fun choice m => ?_) m
  cases choice with
  | none => rfl
  | some i =>
      simp only [runArm_eq]
      exact (running_append _ rest m).symm

end Running

namespace Course

variable {α β : Type}

/-- Whether a table behaves as a course that may take `rounds` more rounds of a loop: the
same values are handed over, and the end is the same.  Where the course uses up its bound
the table enters at least `rounds` states. -/
def Simulated (s : Session) (states : List (List Op)) (n : Nat) :
    Course α → Nat → Behaviour → Prop
  | .done _ m, _, β => ∃ count mt, Reaches β count (.ok .done mt) ∧ mt.heap = m.heap
  | .fault e h, rounds, β =>
    if e = .exhausted then ∀ bound < rounds, Exhausts (β bound)
    else ∃ count e' mt, Reaches β count (.error e' mt) ∧ e' ≠ .exhausted ∧ mt.heap = h
  | .emit value h resume, rounds, β =>
    ∃ count q mt, Reaches β count (.ok (.emit (.enter q) value) mt) ∧ mt.frames = [] ∧
      mt.heap = h ∧ ∀ h', (resume h').Simulated s states n (rounds - count)
        (entering s states n q { mt with heap := h' })

variable {s : Session} {states : List (List Op)} {n rounds : Nat}

theorem Simulated.mono {t : Course α} {b : Behaviour} (h : t.Simulated s states n rounds b)
    {fewer : Nat} (hle : fewer ≤ rounds) : t.Simulated s states n fewer b := by
  induction t generalizing rounds fewer b with
  | done a m => exact h
  | fault e heap =>
      simp only [Simulated] at h ⊢
      split
      · rename_i he
        rw [if_pos he] at h
        exact fun bound hbound => h bound (by omega)
      · rename_i he
        rwa [if_neg he] at h
  | emit value heap resume ih =>
      obtain ⟨count, q, mt, hreaches, hframes, hheap, hresume⟩ := h
      exact ⟨count, q, mt, hreaches, hframes, hheap, fun h' => ih h' (hresume h') (by omega)⟩

/-- A state that is entered allows one more round. -/
theorem Simulated.delay {t : Course α} {b : Behaviour} (h : t.Simulated s states n rounds b)
    (m : Memory) : t.Simulated s states n (rounds + 1) (Behaviour.delay m b) := by
  cases t with
  | done a m' =>
      obtain ⟨count, mt, hreaches, hheap⟩ := h
      exact ⟨count + 1, mt, hreaches.delay m, hheap⟩
  | fault e heap =>
      simp only [Simulated] at h ⊢
      split
      · rename_i he
        rw [if_pos he] at h
        intro bound hbound
        cases bound with
        | zero => exact ⟨m, rfl⟩
        | succ bound => exact h bound (by omega)
      · rename_i he
        rw [if_neg he] at h
        obtain ⟨count, e', mt, hreaches, hrest⟩ := h
        exact ⟨count + 1, e', mt, hreaches.delay m, hrest⟩
  | emit value heap resume =>
      obtain ⟨count, q, mt, hreaches, hframes, hheap, hresume⟩ := h
      refine ⟨count + 1, q, mt, hreaches.delay m, hframes, hheap, fun h' => ?_⟩
      exact (hresume h').mono (by omega)

/-- Entering a state. -/
theorem Simulated.enter {t : Course α} {q : Nat} {ops : List Op} {m : Memory}
    (hops : states[q]? = some ops)
    (h : t.Simulated s states n (rounds - 1) (running s states n q ops m)) :
    t.Simulated s states n rounds (entering s states n q m) := by
  rw [entering_eq hops]
  exact (h.delay m).mono (by omega)

/-- A fault on both sides. -/
theorem simulated_fault {e e' : Fault} {mt : Memory} {heap : Heap}
    (he : e = .exhausted ↔ e' = .exhausted) (hheap : mt.heap = heap) :
    (fault e heap : Course α).Simulated s states n rounds (fun _ => .error e' mt) := by
  simp only [Simulated]
  split
  · rename_i h
    exact fun _ _ => ⟨mt, by rw [he.mp h]⟩
  · rename_i h
    exact ⟨0, e', mt, reaches_now _, fun h' => h (he.mpr h'), hheap⟩

/-- A computation of the table that hands over nothing, and a course that it tracks. -/
theorem Simulated.tracks {γ : Type} {R : α → γ → Memory → Memory → Prop} {t : Course α}
    {y : Eff Memory γ} {mt : Memory} {f : α → Memory → Course β}
    {k : γ → Memory → Behaviour} (h : Tracks R t (y mt))
    (hrest : ∀ a c m' mt', R a c m' mt' → (f a m').Simulated s states n rounds (k c mt')) :
    (t.bind f).Simulated s states n rounds (after y k mt) := by
  unfold after
  cases t with
  | done a m =>
      cases hy : y mt with
      | ok c mt' =>
          rw [hy] at h
          exact hrest a c m mt' h
      | error e mt' =>
          rw [hy] at h
          exact h.elim
  | fault e heap =>
      cases hy : y mt with
      | ok c mt' =>
          rw [hy] at h
          exact h.elim
      | error e' mt' =>
          rw [hy] at h
          exact simulated_fault h.1 h.2
  | emit value heap resume =>
      cases hy : y mt <;> rw [hy] at h <;> exact h.elim

/-- Computations of both sides that match. -/
theorem Simulated.lift {R : α → Memory → Memory → Prop} {x y : Eff Memory α} {m mt : Memory}
    {f : α → Memory → Course β} {k : α → Memory → Behaviour} (h : Matches R (x m) (y mt))
    (hrest : ∀ a m' mt', R a m' mt' → (f a m').Simulated s states n rounds (k a mt')) :
    ((ofResult (x m)).bind f).Simulated s states n rounds (after y k mt) := by
  refine Simulated.tracks (R := fun a c m mt => c = a ∧ R a m mt) ?_ ?_
  · cases hx : x m <;> cases hy : y mt <;> rw [hx, hy] at h <;> exact h
  · rintro a c m' mt' ⟨rfl, hR⟩
    exact hrest c m' mt' hR

end Course

end YieldMachine
