import YieldMachine.Proofs.Simulation.Iterators

/-!
# Statements that a table runs

`Setting.Runs` says that a table runs a computation of a body: wherever the table does what
follows the computation, it does the computation with what follows it.  Scopes and loops keep
this, so that it can be shown statement by statement.
-/

namespace YieldMachine

open Lowering Behaviour

/-- Whether a table that does `before` runs `x` and then does `after`.  `start`, `normal` and
`exit` relate the memories before `x`, after a normal end and after another one; only a
computation that may `leave` has to end in other ways. -/
def Setting.Runs (S : Setting) (env : StateEnv) (leave : Bool)
    (start normal exit : Memory → Memory → Prop) (x : Action Ending)
    (before after : Memory → Behaviour) : Prop :=
  ∀ ⦃rounds : Nat⦄ ⦃K : Ending → Memory → Course Ending⦄, rounds ≤ S.turns →
    (leave = true → S.Exits env exit rounds K) →
    (∀ m mt, normal m mt → S.Sim rounds (K .normal m) (after mt)) →
    ∀ ⦃m mt : Memory⦄, start m mt → S.Sim rounds ((x m).bind K) (before mt)

/-- What is left of linked memories when the innermost scope ends. -/
def Ground.Left (g : Ground) (m mt : Memory) : Prop :=
  Linked g.pop [] { m with frames := m.frames.tail } mt

theorem Linked.left {g : Ground} {m mt : Memory} (h : Linked g [] m mt) : g.Left m mt :=
  h.popGround

/-- What is left of a scope does not depend on the variables that it has declared. -/
theorem Ground.left_congr {g g' : Ground} (h : g'.pop = g.pop) : g'.Left = g.Left := by
  unfold Ground.Left
  rw [h]

namespace Setting.Runs

variable {S : Setting} {env env' : StateEnv} {leave : Bool} {g : Ground}
  {start normal exit : Memory → Memory → Prop} {x : Action Ending}
  {before after : Memory → Behaviour}

/-- Contexts with the same targets of branches. -/
theorem congr (h : S.Runs env leave start normal exit x before after)
    (hbreaks : env'.breaks = env.breaks) (hcontinues : env'.continues = env.continues) :
    S.Runs env' leave start normal exit x before after :=
  fun _ _ hle hexits hnormal _ _ hm =>
    h hle (fun hl => (hexits hl).congr hbreaks.symm hcontinues.symm) hnormal hm

/-- A computation in a scope of its own. -/
theorem inScope (h : S.Runs env leave (Linked g.push []) g.push.Left g.push.Left x before after) :
    S.Runs env leave (Linked g []) (Linked g []) (Linked g []) (Action.inScope x) before after := by
  intro rounds K hle hexits hnormal m mt hm
  have hpop : ∀ m mt, g.push.Left m mt → Linked g [] { m with frames := m.frames.tail } mt :=
    fun _ _ h => h
  have hrun := h (K := fun c m => K c { m with frames := m.frames.tail }) hle
    (fun hl => (hexits hl).comap (fun m => { m with frames := m.frames.tail }) hpop)
    (fun m mt hm => hnormal _ _ (hpop m mt hm)) hm.pushGround
  rw [Action.inScope, Course.bind_assoc]
  exact hrun

/-- Weaker relations at the end. -/
theorem mono {normal' exit' : Memory → Memory → Prop}
    (h : S.Runs env leave start normal exit x before after)
    (hnormal : ∀ m mt, normal m mt → normal' m mt) (hexit : ∀ m mt, exit m mt → exit' m mt) :
    S.Runs env leave start normal' exit' x before after :=
  fun _ _ hle hexits hafter _ _ hm =>
    h hle (fun hl => (hexits hl).mono (Nat.le_refl _) hexit)
      (fun m mt hm => hafter m mt (hnormal m mt hm)) hm

/-- A computation at the start of a state. -/
theorem enter {q : Nat} (hq : q < S.states.length)
    (h : S.Runs env leave start normal exit x (S.resume q 0) after) :
    S.Runs env leave start normal exit x (S.enter q) after :=
  fun _ _ hle hexits hafter _ _ hm =>
    Setting.Sim.enter hq (h (by omega) (fun hl => (hexits hl).mono (Nat.sub_le _ _) fun _ _ h => h)
      (fun m mt hm => (hafter m mt hm).mono (Nat.sub_le _ _)) hm)

/-- A computation that goes on with another one after a normal end. -/
theorem seq {R : Memory → Memory → Prop} {y : Action Ending} {between : Memory → Behaviour}
    (hx : S.Runs env true start R exit x before between)
    (hy : S.Runs env true R normal exit y between after) :
    S.Runs env true start normal exit (do
      match ← x with
      | .normal => y
      | c => pure c) before after := by
  intro rounds K hle hexits hafter m mt hm
  have hexits := hexits rfl
  have hrun := hx (K := fun c m =>
      match c with
      | .normal => (y m).bind K
      | c => K c m) hle
    (fun _ => ⟨hexits.brk, hexits.cont, hexits.finish⟩)
    (fun m mt hm => hy hle (fun _ => hexits) hafter hm) hm
  refine (congrArg (S.Sim rounds · (before mt)) ?_).mp hrun
  refine Eq.trans ?_ (Course.bind_assoc _ _ _).symm
  congr 1
  funext c m
  cases c <;> rfl

end Setting.Runs

/-- One round of a loop, and what follows. -/
theorem rounds_bind {β : Type} (labels : List String) (test : β → Eff Memory Bool)
    (body : Action Ending) (post : Eff Memory β) (n : Nat) (b : β) (m : Memory)
    (K : Ending → Memory → Course Ending) :
    (rounds labels test body post (n + 1) b m).bind K =
      (Course.ofResult (test b m)).bind fun more m =>
        if more then
          (body m).bind fun c m =>
            match c.afterBody labels with
            | some c => K c m
            | none =>
              (Course.ofResult (post m)).bind fun b m =>
                (rounds labels test body post n b m).bind K
        else K .normal m := by
  refine (Course.bind_assoc _ _ _).trans ?_
  congr 1
  funext more m
  cases more with
  | false => rfl
  | true =>
      refine (Course.bind_assoc _ _ _).trans ?_
      simp only [if_true]
      congr 1
      funext c m
      cases c.afterBody labels with
      | some c => rfl
      | none => exact Course.bind_assoc _ _ _

theorem Course.ofResult_bind {α β γ : Type} (x : Eff Memory α) (f : α → Eff Memory β) (m : Memory)
    (k : β → Memory → Course γ) :
    (ofResult ((x >>= f) m)).bind k =
      (ofResult (x m)).bind fun a m => (ofResult (f a m)).bind k := by
  rw [eff_bind_apply]
  cases x m <;> rfl

/-- Where no round is left to take, a used up bound is simulated by anything. -/
theorem Setting.sim_exhausted {α : Type} (S : Setting) (heap : Heap) (b : Behaviour) :
    S.Sim 0 (Course.fault (α := α) .exhausted heap) b :=
  fun bound hbound => absurd hbound (Nat.not_lt_zero bound)

section Loops

variable {S : Setting} {env : StateEnv} {R : Memory → Memory → Prop} {condState target : Nat}

/-- A loop that tests before each round.  The table tests in `condState`, and goes to
`target` after the body. -/
theorem rounds_runs {test test' : Eff Memory Bool} {body : Action Ending} (post : Eff Memory Unit)
    (enterBody : Memory → Behaviour) (hcond : condState < S.states.length)
    (hresume : ∀ mt, S.resume condState 0 mt =
      Behaviour.after test' (fun b => if b then enterBody else S.enter env.next) mt)
    (htest : Sync R (fun _ => R) test test')
    (hbody : S.Runs (env.inLoop target) true R R R body enterBody (S.enter target))
    (hpost : ∀ {rounds : Nat} {f : Memory → Course Ending},
      (∀ m mt, R m mt → S.Sim rounds (f m) (S.enter condState mt)) →
      ∀ {m mt}, R m mt →
        S.Sim rounds ((Course.ofResult (post m)).bind fun _ => f) (S.enter target mt))
    (n : Nat) (hn : n ≤ S.turns) {rounds : Nat} {K : Ending → Memory → Course Ending}
    (hle : rounds ≤ n) (hexits : S.Exits env R rounds K)
    (hnormal : ∀ m mt, R m mt → S.Sim rounds (K .normal m) (S.enter env.next mt))
    {m mt : Memory} (hm : R m mt) :
    S.Sim rounds
      ((YieldMachine.rounds env.labels (fun () => test) body post n () m).bind K)
      (S.enter condState mt) := by
  induction n generalizing rounds m mt with
  | zero =>
      obtain rfl := Nat.le_zero.mp hle
      exact S.sim_exhausted m.heap _
  | succ n ih =>
      have hfewer : rounds - 1 ≤ rounds := Nat.sub_le _ _
      refine Setting.Sim.enter hcond ?_
      rw [hresume]
      rw [rounds_bind]
      refine Course.Simulated.lift (htest m mt hm) fun more m' mt' hm' => ?_
      cases more with
      | false => exact (hnormal m' mt' hm').mono hfewer
      | true =>
          have hagain : ∀ m mt, R m mt → S.Sim (rounds - 1)
              ((Course.ofResult (post m)).bind fun _ m =>
                (YieldMachine.rounds env.labels (fun () => test) body post n () m).bind K)
              (S.enter target mt) := fun m mt hm =>
            hpost (fun m mt hm => ih (by omega) (by omega) (hexits.mono hfewer fun _ _ h => h)
              (fun m mt hm => (hnormal m mt hm).mono hfewer) hm) hm
          exact hbody (by omega)
            (fun _ => (hexits.mono hfewer fun _ _ h => h).inLoop
              (fun m mt hm => (hnormal m mt hm).mono hfewer) hagain)
            (fun m mt hm => hagain m mt hm) hm'

variable {cond : Eff Memory Value} {cond' : Eff Memory Bool} {body : Action Ending}
  {bodyState : Nat} {K : Ending → Memory → Course Ending}

/-- The condition state of a loop that tests after each round.  The value of the condition is
tested when the next round begins; the table does both in `condState`. -/
theorem rounds_runs_again (hcond : condState < S.states.length)
    (hresume : ∀ mt, S.resume condState 0 mt =
      Behaviour.after cond' (fun b => S.enter (if b then bodyState else env.next)) mt)
    (htest : Sync R (fun _ => R) (do
      let value ← cond
      onHeap fun _ => value.asBool) cond')
    (hbody : S.Runs (env.inLoop condState) true R R R body (S.enter bodyState)
      (S.enter condState))
    (n : Nat) (hn : n ≤ S.turns) {rounds : Nat} (hle : rounds ≤ n + 1)
    (hexits : S.Exits env R rounds K)
    (hnormal : ∀ m mt, R m mt → S.Sim rounds (K .normal m) (S.enter env.next mt))
    {m mt : Memory} (hm : R m mt) :
    S.Sim rounds
      ((Course.ofResult (cond m)).bind fun value m =>
        (YieldMachine.rounds env.labels (fun value => onHeap fun _ => Value.asBool value) body cond
          n value m).bind K)
      (S.enter condState mt) := by
  induction n generalizing rounds m mt with
  | zero =>
      refine Setting.Sim.enter hcond ?_
      rw [hresume, Nat.sub_eq_zero_of_le hle]
      have hmatch := htest m mt hm
      rw [eff_bind_apply] at hmatch
      cases hx : cond m with
      | ok value m' => exact S.sim_exhausted m'.heap _
      | error e m' =>
          rw [hx] at hmatch
          cases hy : cond' mt with
          | ok b mt' =>
              rw [hy] at hmatch
              exact hmatch.elim
          | error e' mt' =>
              rw [hy] at hmatch
              unfold Behaviour.after
              rw [hy]
              exact Course.simulated_fault hmatch.1 hmatch.2
  | succ n ih =>
      have hfewer : rounds - 1 ≤ rounds := Nat.sub_le _ _
      have hexits' := hexits.mono hfewer fun _ _ h => h
      have hnormal' := fun m mt hm => (hnormal m mt hm).mono hfewer
      refine Setting.Sim.enter hcond ?_
      simp only [hresume, rounds_bind]
      rw [← Course.ofResult_bind cond fun value => onHeap fun _ => value.asBool]
      refine Course.Simulated.lift (htest m mt hm) fun more m' mt' hm' => ?_
      cases more with
      | false => exact hnormal' m' mt' hm'
      | true =>
          have hagain : ∀ m mt, R m mt → S.Sim (rounds - 1)
              ((Course.ofResult (cond m)).bind fun value m =>
                (YieldMachine.rounds env.labels (fun value => onHeap fun _ => Value.asBool value)
                  body cond n value m).bind K)
              (S.enter condState mt) :=
            fun m mt hm => ih (by omega) (by omega) hexits' hnormal' hm
          exact hbody (by omega) (fun _ => hexits'.inLoop hnormal' hagain) hagain hm'

/-- A loop that tests after each round. -/
theorem rounds_runs_last (hcond : condState < S.states.length)
    (hresume : ∀ mt, S.resume condState 0 mt =
      Behaviour.after cond' (fun b => S.enter (if b then bodyState else env.next)) mt)
    (htest : Sync R (fun _ => R) (do
      let value ← cond
      onHeap fun _ => value.asBool) cond')
    (hbody : S.Runs (env.inLoop condState) true R R R body (S.enter bodyState)
      (S.enter condState))
    (n : Nat) (hn : n ≤ S.turns) {rounds : Nat} (hle : rounds ≤ n)
    (hexits : S.Exits env R rounds K)
    (hnormal : ∀ m mt, R m mt → S.Sim rounds (K .normal m) (S.enter env.next mt))
    {m mt : Memory} (hm : R m mt) :
    S.Sim rounds
      ((YieldMachine.rounds env.labels (fun value => onHeap fun _ => Value.asBool value) body cond
        n (.bool true) m).bind K)
      (S.enter bodyState mt) := by
  cases n with
  | zero =>
      obtain rfl := Nat.le_zero.mp hle
      exact S.sim_exhausted m.heap _
  | succ n =>
      rw [rounds_bind]
      have hagain : ∀ m mt, R m mt → S.Sim rounds
          ((Course.ofResult (cond m)).bind fun value m =>
            (YieldMachine.rounds env.labels (fun value => onHeap fun _ => Value.asBool value) body
              cond n value m).bind K)
          (S.enter condState mt) :=
        fun m mt hm =>
          rounds_runs_again hcond hresume htest hbody n (by omega) hle hexits hnormal hm
      exact hbody (by omega) (fun _ => hexits.inLoop hnormal hagain) hagain hm

end Loops

end YieldMachine
