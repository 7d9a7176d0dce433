import YieldMachine.Proofs.Generated.Performed
import YieldMachine.Proofs.Generated.Whole
import YieldMachine.Proofs.Lowering.Draft
import YieldMachine.Proofs.Scope.Fresh

/-!
# Methods do what the table does

The method of a state performs the operations of the state: it executes the same statements and
evaluates the same expressions in the same order, and it returns the same transfer.
-/

namespace YieldMachine

variable {α β κ : Type}

section Erasure

variable {s : Session} {states : Array (List Op)} {fuel : Nat}

/-- The bounce of what a table does, if it is a transfer. -/
def bounced (x : Acting (Option (Transfer κ))) : Acting (Option (Bounce TableStep Value)) :=
  Option.map Transfer.bounce <$> x

theorem bounced_bind (x : Acting α) (f : α → Acting (Option (Transfer κ))) :
    bounced (x >>= f) = x >>= fun a => bounced (f a) := by
  simp [bounced]

mutual

/-- What a table does is what it writes down. -/
theorem Op.act_erases (k : κ) (op : Op) (h : OpsWhole [op]) :
    Erases (bounced (op.act s states.size fuel k)) (op.run s states fuel) := by
  cases op with
  | exec stmt =>
      have hwhole := h stmt (by simp [opsParts, Op.parts])
      simp only [Op.act, Op.run]
      rw [bounced_bind]
      refine ((perform_erases k stmt hwhole.returns).inScope.bind fun _ => .pure none).congr ?_
      rw [← ending_inScope]
      simp [ending]
  | jump goal value =>
      have heq : (Op.jump goal value).run s states fuel =
          if goal < states.size then
            if value.isMissing then pure (some (.goto (.enter goal)))
            else do
              let v ← onHeap fun v => value.eval s v
              pure (some (.emit (.enter goal) v))
          else throw .invalid := by
        simp only [Op.run, jumpTo]
        split
        · cases value <;> simp [Expr.isMissing]
        · rfl
      rw [heq]
      simp only [Op.act]
      split
      · split
        · exact .pure _
        · rw [bounced_bind]
          exact (value_erases value).bind fun _ => .pure _
      · exact .throw _
  | finish => exact .pure _
  | when cond ops =>
      simp only [Op.act, Op.run]
      rw [bounced_bind]
      refine (truth_erases cond).bind fun holds => ?_
      cases holds with
      | true =>
          exact actOps_erases k ops fun stmt hmem => h stmt (by simp [opsParts, Op.parts, hmem])
      | false => exact .pure none
  | choose cond ops others =>
      simp only [Op.act, Op.run]
      rw [bounced_bind]
      refine (truth_erases cond).bind fun holds => ?_
      cases holds with
      | true =>
          exact actOps_erases k ops fun stmt hmem => h stmt (by simp [opsParts, Op.parts, hmem])
      | false =>
          exact actOps_erases k others fun stmt hmem => h stmt (by simp [opsParts, Op.parts, hmem])
  | dispatch tag arms =>
      simp only [Op.act, Op.run]
      rw [bounced_bind]
      refine (chooseArm_erases tag arms).bind fun choice => ?_
      cases choice with
      | none => exact .pure none
      | some i =>
          exact actArm_erases k i arms fun stmt hmem => h stmt (by simp [opsParts, Op.parts, hmem])

theorem actOps_erases (k : κ) (ops : List Op) (h : OpsWhole ops) :
    Erases (bounced (actOps s states.size fuel k ops)) (runOps s states fuel ops) := by
  cases ops with
  | nil => exact .pure none
  | cons op ops =>
      have hsplit : bounced (actOps s states.size fuel k (op :: ops)) =
          bounced (op.act s states.size fuel k) >>= fun
            | some b => pure (some b)
            | none => bounced (actOps s states.size fuel k ops) := by
        simp only [actOps, bounced, map_bind, bind_map_left]
        congr 1
        funext t
        cases t <;> simp
      rw [hsplit, runOps]
      refine (op.act_erases k fun stmt hmem => h stmt ?_).bind fun b => ?_
      · simp only [opsParts, List.append_nil] at hmem ⊢
        exact List.mem_append_left _ hmem
      · cases b with
        | some b => exact .pure _
        | none => exact actOps_erases k ops fun stmt hmem => h stmt (by simp [opsParts, hmem])

theorem actArm_erases (k : κ) (i : Nat) (arms : List Arm)
    (h : ∀ stmt, .exec stmt ∈ armsParts arms → stmt.Whole) :
    Erases (bounced (actArm s states.size fuel k i arms)) (runArm s states fuel i arms) := by
  cases arms with
  | nil =>
      simp only [actArm, runArm]
      exact .pure none
  | cons arm arms =>
      cases i with
      | zero =>
          simp only [actArm, runArm]
          exact arm.act_erases k fun stmt hmem => h stmt (by simp [armsParts, hmem])
      | succ i =>
          simp only [actArm, runArm]
          exact actArm_erases k i arms fun stmt hmem => h stmt (by simp [armsParts, hmem])

theorem Arm.act_erases (k : κ) (arm : Arm)
    (h : ∀ stmt, .exec stmt ∈ arm.parts → stmt.Whole) :
    Erases (bounced (arm.act s states.size fuel k)) (arm.run s states fuel) := by
  cases arm with
  | case values ops => exact actOps_erases k ops h
  | default ops => exact actOps_erases k ops h

end

end Erasure

/-- How a method ends when its table makes a transfer, or none. -/
def MethodExit.ofTransfer : Option (Transfer κ) → MethodExit κ
  | some t => .returned t
  | none => .ended .normal

/-- Whether a method has done what its table did.  The method has `depth` empty scopes around
it, the table has none; of a fault the scopes do not matter. -/
def Enacted (depth : Nat) : EStateM.Result Fault Memory (MethodExit κ × List Act) →
    EStateM.Result Fault Memory (Option (Transfer κ) × List Act) → Prop
  | .ok (exit, acts) m, .ok (t, acts') m' =>
    exit = .ofTransfer t ∧ acts = acts' ∧ m = m'.over (List.replicate depth []) ∧ m'.frames = []
  | .error e m, .error e' m' => e = e' ∧ m.fields = m'.fields ∧ m.heap = m'.heap
  | _, _ => False

/-- Whether a method does what its table does. -/
def Enacts (x : Acting (MethodExit κ)) (y : Acting (Option (Transfer κ))) : Prop :=
  ∀ (depth : Nat) (acts : List Act) (m : Memory), 0 < depth → m.frames = [] →
    Enacted depth (x acts (m.over (List.replicate depth []))) (y acts m)

theorem Keeps.frames_eq_nil {m m' : Memory} (h : Keeps false m m') (hm : m.frames = []) :
    m'.frames = [] := by
  have houtline : m'.outline = m.outline := h
  simpa [Memory.outline, hm] using houtline

namespace Enacts

variable {x : Acting (MethodExit κ)} {y : Acting (Option (Transfer κ))}

theorem pure (t : Option (Transfer κ)) : Enacts (Pure.pure (.ofTransfer t)) (Pure.pure t) :=
  fun _ _ _ _ hm => ⟨rfl, rfl, rfl, hm⟩

theorem throw (e : Fault) : Enacts (κ := κ) (throw e) (throw e) :=
  fun _ _ _ _ _ => ⟨rfl, rfl, rfl⟩

/-- Both do the same first, which adds no variables. -/
theorem bind {p : Acting α} {f : α → Acting (MethodExit κ)} {g : α → Acting (Option (Transfer κ))}
    (hp : ∀ fs, (∀ f ∈ fs, f = []) → p.Framed fs false) (hfg : ∀ a, Enacts (f a) (g a)) :
    Enacts (p >>= f) (p >>= g) := by
  intro depth acts m hdepth hm
  have hframed := hp (List.replicate depth []) (fun f hf => List.eq_of_mem_replicate hf) acts
  show Enacted depth ((p acts >>= fun r => f r.1 r.2) (m.over (List.replicate depth [])))
    ((p acts >>= fun r => g r.1 r.2) m)
  rw [eff_bind_apply, eff_bind_apply, hframed.lifts m (hasScope_false m)]
  cases hres : p acts m with
  | error e m' => exact ⟨rfl, rfl, rfl⟩
  | ok r m' =>
      have hm' := (hframed.keeps m r m' (hasScope_false m) hres).frames_eq_nil hm
      exact hfg r.1 depth r.2 m' hdepth hm'

/-- The method opens a scope of its own. -/
theorem inScope (h : Enacts x y) : Enacts (Acting.inScope x) y := by
  intro depth acts m hdepth hm
  have hin := h (depth + 1) acts m (Nat.succ_pos _) hm
  have hpush : ({ m.over (List.replicate depth []) with
      frames := [] :: (m.over (List.replicate depth [])).frames } : Memory) =
      m.over (List.replicate (depth + 1) []) := by
    simp [Memory.over, hm, List.replicate_succ]
  simp only [Acting.inScope]
  rw [inScope_apply, hpush]
  cases hx : x acts (m.over (List.replicate (depth + 1) [])) <;> cases hy : y acts m <;>
    rw [hx, hy] at hin <;> simp only [Enacted] at hin ⊢
  · obtain ⟨hexit, hacts, rfl, hm'⟩ := hin
    refine ⟨hexit, hacts, ?_, hm'⟩
    simp [Memory.over, hm', List.replicate_succ]
  · exact hin

/-- What follows does not change how the method ends. -/
theorem followed (h : Enacts x y) {f : MethodExit κ → Acting (MethodExit κ)}
    (hf : ∀ t, f (.ofTransfer t) = Pure.pure (.ofTransfer t)) : Enacts (x >>= f) y := by
  intro depth acts m hdepth hm
  have hfirst := h depth acts m hdepth hm
  show Enacted depth ((x acts >>= fun r => f r.1 r.2) (m.over (List.replicate depth []))) _
  rw [eff_bind_apply]
  cases hx : x acts (m.over (List.replicate depth [])) <;> cases hy : y acts m <;>
    rw [hx, hy] at hfirst <;> simp only [Enacted] at hfirst ⊢
  · rename_i r m₁ r' m₂
    obtain ⟨hexit, hacts, hm₁, hm₂⟩ := hfirst
    rw [hexit, hf]
    exact ⟨rfl, hacts, hm₁, hm₂⟩
  · exact hfirst

/-- Both go on with what follows unless there was a transfer. -/
theorem seq {xs : Acting (MethodExit κ)} {ys : Acting (Option (Transfer κ))} (h : Enacts x y)
    (hs : Enacts xs ys) :
    Enacts (do
      match ← x with
      | .ended .normal => xs
      | exit => Pure.pure exit) (do
      match ← y with
      | some t => Pure.pure (some t)
      | none => ys) := by
  intro depth acts m hdepth hm
  have hfirst := h depth acts m hdepth hm
  show Enacted depth ((x acts >>= _) (m.over (List.replicate depth []))) ((y acts >>= _) m)
  rw [eff_bind_apply, eff_bind_apply]
  cases hx : x acts (m.over (List.replicate depth [])) <;> cases hy : y acts m <;>
    rw [hx, hy] at hfirst <;> simp only [Enacted] at hfirst ⊢
  · rename_i r m₁ r' m₂
    obtain ⟨exit, acts₁⟩ := r
    obtain ⟨t, acts₂⟩ := r'
    obtain ⟨hexit, hacts, rfl, hm₂⟩ := hfirst
    dsimp only at hexit hacts
    subst hexit hacts
    cases t with
    | some t => exact ⟨rfl, rfl, rfl, hm₂⟩
    | none => exact hs depth _ m₂ hdepth hm₂
  · exact hfirst

end Enacts

section Operations

variable {s : Session} {size fuel : Nat} {h : Holder}

theorem stateMethod_injective {p q : Nat} (h : stateMethod p = stateMethod q) : p = q :=
  toString_nat_injective ((String.append_right_inj statePrefix).mp h)

theorem find_stateMethod (size goal : Nat) :
    ((List.range size).find? fun (q : Nat) => stateMethod q == stateMethod goal) =
      if goal < size then some goal else none := by
  split
  · rename_i hlt
    rw [List.find?_range_eq_some]
    refine ⟨by simp, by simpa using hlt, fun q hq => ?_⟩
    simp only [Bool.not_eq_true', beq_eq_false_iff_ne, ne_eq]
    intro heq
    exact absurd (stateMethod_injective heq) (by omega)
  · rename_i hge
    rw [List.find?_range_eq_none]
    intro q hq
    simp only [Bool.not_eq_true', beq_eq_false_iff_ne, ne_eq]
    intro heq
    exact absurd (stateMethod_injective heq) (by omega)

theorem methodState_stateRef (hrecv : s.recv = h.recv) (goal : Nat) :
    methodState s size (h.stateRef goal) =
      if goal < size then pure goal else throw .invalid := by
  have hname : (Expr.name h.recv).isName s.recv = true := by
    simp [Expr.isName, Expr.name, Expr.name?, hrecv]
  simp only [Holder.stateRef, methodState, hname, if_true, find_stateMethod]
  by_cases hgoal : goal < size
  · simp only [hgoal, if_true]
  · simp only [hgoal, if_false]

/-- A statement that stands in a method as it is. -/
theorem exec_enacts (k : κ) {stmt : Stmt} (hwhole : stmt.Whole) :
    Enacts (perform s size fuel k stmt) ((Op.exec stmt).act s size fuel k) := by
  intro depth acts m hdepth hm
  obtain ⟨depth, rfl⟩ : ∃ d, depth = d + 1 := ⟨depth - 1, by omega⟩
  -- the table executes it in a scope of its own, the method in the innermost one of its own
  have hstart : m.over (List.replicate (depth + 1) []) =
      Memory.over (List.replicate depth []) { m with frames := [] :: m.frames } := by
    simp [Memory.over, hm, List.replicate_succ]
  have hframed : Framed (List.replicate depth []) (!stmt.bound.isEmpty)
      (perform s size fuel k stmt acts) :=
    perform_framed (fun f hf => List.eq_of_mem_replicate hf) k stmt acts
  rw [Stmt.bound_eq_nil hwhole.binds] at hframed
  have herases : forget (perform s size fuel k stmt acts { m with frames := [] :: m.frames }) =
      ending (stmt.exec s fuel) { m with frames := [] :: m.frames } :=
    perform_erases k stmt hwhole.returns acts _
  have htable : (Op.exec stmt).act s size fuel k acts m =
      (inScope (perform s size fuel k stmt acts) >>= fun r => pure (none, r.2)) m := rfl
  rw [htable, eff_bind_apply, inScope_apply, hstart, hframed.lifts _ (hasScope_false _)]
  cases hres : perform s size fuel k stmt acts { m with frames := [] :: m.frames } with
  | error e m' => exact ⟨rfl, rfl, rfl⟩
  | ok r m' =>
      obtain ⟨exit, acts'⟩ := r
      rw [hres] at herases
      obtain rfl : exit = .ended .normal := by
        simp only [ending, eff_bind_apply, forget] at herases
        cases hexec : stmt.exec s fuel { m with frames := [] :: m.frames } with
        | error e m₁ =>
            rw [hexec] at herases
            cases herases
        | ok c m₁ =>
            rw [hexec] at herases
            cases herases
            rw [Stmt.exec_normal hwhole.stays hexec]
      have houtline : m'.outline = [[]] := by
        have hkeeps := hframed.keeps _ _ m' (hasScope_false _) hres
        have heq : m'.outline = Memory.outline { m with frames := [] :: m.frames } := hkeeps
        simpa [Memory.outline, hm] using heq
      have hframes : m'.frames = [[]] := by
        obtain ⟨frame, hframes, hframe⟩ := List.map_eq_singleton_iff.mp houtline
        rw [hframes, List.map_eq_nil_iff.mp hframe]
      refine ⟨rfl, rfl, ?_, by simp [hframes]⟩
      simp [Memory.over, hframes, List.replicate_succ]

/-- A transfer is a call of the runtime with the continuation. -/
theorem isName_runtime (hruntime : s.runtime = h.runtime) :
    ((Expr.name h.runtime).isName s.runtime && continuation.isName continuationName) = true := by
  simp [Expr.isName, Expr.name, Expr.name?, continuation, hruntime]

theorem transferOf_goto (hrecv : s.recv = h.recv) (hruntime : s.runtime = h.runtime) (k : κ)
    (goal : Nat) :
    transferOf s size k (.call (h.runtimeOf "Goto") [continuation, h.stateRef goal] false) =
      if goal < size then pure (.goto k goal) else throw .invalid := by
  simp only [Holder.runtimeOf, transferOf, isName_runtime hruntime, if_true,
    methodState_stateRef hrecv]
  split <;> rfl

theorem transferOf_emit (hrecv : s.recv = h.recv) (hruntime : s.runtime = h.runtime) (k : κ)
    (goal : Nat) (e : Expr) :
    transferOf s size k (.call (h.runtimeOf "Emit") [continuation, h.stateRef goal, e] false) =
      if goal < size then do
        let value ← Acting.value s e
        pure (.emit k goal value)
      else throw .invalid := by
  simp only [Holder.runtimeOf, transferOf, isName_runtime hruntime, if_true,
    methodState_stateRef hrecv]
  split <;> rfl

theorem transferOf_finish (hruntime : s.runtime = h.runtime) (k : κ) :
    transferOf s size k (.call (h.runtimeOf "Finish") [continuation] false) =
      pure (.finish k) := by
  simp only [Holder.runtimeOf, transferOf, isName_runtime hruntime, if_true]

theorem values_armsToClauses (arms : List Arm) :
    (armsToClauses h arms).map Clause.values? = arms.map Arm.values? := by
  induction arms with
  | nil => rfl
  | cons arm arms ih =>
      rw [armsToClauses, List.map_cons, List.map_cons, ih]
      cases arm <;> rfl

mutual

/-- The statement of an operation does what the operation does. -/
theorem Op.toStmt_enacts (hrecv : s.recv = h.recv) (hruntime : s.runtime = h.runtime) (k : κ)
    (op : Op) (hwhole : OpsWhole [op]) :
    Enacts (perform s size fuel k (op.toStmt h)) (op.act s size fuel k) := by
  cases op with
  | exec stmt => exact exec_enacts k (hwhole stmt (by simp [opsParts, Op.parts]))
  | jump goal value =>
      simp only [Op.toStmt, Op.act]
      by_cases hmissing : value.isMissing
      · simp only [hmissing, if_true, Holder.returnOf, perform, transferOf_goto hrecv hruntime]
        split
        · exact .pure (some (.goto k goal))
        · exact .throw _
      · simp only [hmissing, Bool.false_eq_true, if_false, Holder.returnOf, perform,
          transferOf_emit hrecv hruntime]
        split
        · simp only [bind_assoc, pure_bind]
          exact .bind (fun fs hfs => value_framed hfs value) fun v => .pure (some (.emit k goal v))
        · exact .throw _
  | finish =>
      simp only [Op.toStmt, Op.act, Holder.returnOf, perform, transferOf_finish hruntime]
      exact .pure (some (.finish k))
  | when cond ops =>
      simp only [Op.toStmt, perform, Op.act, Acting.header, Stmt.isMissing, if_true, pure_bind]
      refine Enacts.inScope (.bind (fun fs hfs => truth_framed hfs cond) fun holds => ?_)
      cases holds with
      | true =>
          exact (opsToStmts_enacts hrecv hruntime k ops fun stmt hmem =>
            hwhole stmt (by simp [opsParts, Op.parts, hmem])).inScope
      | false => exact .pure none
  | choose cond ops others =>
      simp only [Op.toStmt, perform, Op.act, Acting.header, Stmt.isMissing, if_true, pure_bind]
      refine Enacts.inScope (.bind (fun fs hfs => truth_framed hfs cond) fun holds => ?_)
      cases holds with
      | true =>
          exact (opsToStmts_enacts hrecv hruntime k ops fun stmt hmem =>
            hwhole stmt (by simp [opsParts, Op.parts, hmem])).inScope
      | false =>
          exact (opsToStmts_enacts hrecv hruntime k others fun stmt hmem =>
            hwhole stmt (by simp [opsParts, Op.parts, hmem])).inScope
  | dispatch tag arms =>
      simp only [Op.toStmt, perform, Op.act, Acting.header, Stmt.isMissing, if_true, pure_bind,
        values_armsToClauses]
      refine Enacts.inScope (.bind (fun fs hfs => choose_framed hfs tag _) fun choice => ?_)
      cases choice with
      | none => exact .pure none
      | some i =>
          exact armsToClauses_enacts hrecv hruntime k i arms fun stmt hmem =>
            hwhole stmt (by simp [opsParts, Op.parts, hmem])

theorem opsToStmts_enacts (hrecv : s.recv = h.recv) (hruntime : s.runtime = h.runtime) (k : κ)
    (ops : List Op) (hwhole : OpsWhole ops) :
    Enacts (performAll s size fuel k (opsToStmts h ops)) (actOps s size fuel k ops) := by
  cases ops with
  | nil => exact .pure none
  | cons op ops =>
      simp only [opsToStmts, performAll, actOps]
      refine (op.toStmt_enacts hrecv hruntime k fun stmt hmem => hwhole stmt ?_).seq
        (opsToStmts_enacts hrecv hruntime k ops fun stmt hmem => hwhole stmt ?_)
      · simp only [opsParts, List.append_nil] at hmem ⊢
        exact List.mem_append_left _ hmem
      · simp [opsParts, hmem]

theorem armsToClauses_enacts (hrecv : s.recv = h.recv) (hruntime : s.runtime = h.runtime) (k : κ)
    (i : Nat) (arms : List Arm) (hwhole : ∀ stmt, .exec stmt ∈ armsParts arms → stmt.Whole) :
    Enacts (performFrom s size fuel k i (armsToClauses h arms)) (actArm s size fuel k i arms) := by
  cases arms with
  | nil =>
      simp only [armsToClauses, performFrom, actArm]
      exact .pure none
  | cons arm arms =>
      cases i with
      | succ i =>
          simp only [armsToClauses, performFrom, actArm]
          exact armsToClauses_enacts hrecv hruntime k i arms fun stmt hmem =>
            hwhole stmt (by simp [armsParts, hmem])
      | zero =>
          simp only [armsToClauses, performFrom, actArm]
          refine (arm.toClause_enacts hrecv hruntime k fun stmt hmem => hwhole stmt
            (by simp [armsParts, hmem])).inScope.followed fun t => ?_
          cases t <;> rfl

theorem Arm.toClause_enacts (hrecv : s.recv = h.recv) (hruntime : s.runtime = h.runtime) (k : κ)
    (arm : Arm) (hwhole : ∀ stmt, .exec stmt ∈ arm.parts → stmt.Whole) :
    Enacts ((arm.toClause h).perform s size fuel k) (arm.act s size fuel k) := by
  cases arm with
  | case values ops => exact opsToStmts_enacts hrecv hruntime k ops hwhole
  | default ops => exact opsToStmts_enacts hrecv hruntime k ops hwhole

end

end Operations

end YieldMachine
