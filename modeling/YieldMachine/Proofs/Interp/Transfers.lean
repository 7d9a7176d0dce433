import YieldMachine.Proofs.Simulation.Switches

/-!
# Operations that come to their end

`OpsPass` says that control may come to the end of a list of operations, whatever their conditions
give and whichever arm their dispatches choose.  It cannot where the last operation ends in a
transfer on every path, and running operations gives no transfer only where it can.
-/

namespace YieldMachine

/-- Whether control may come to the end of the operations.  Every condition may hold or not; a
dispatch may run each of its arms, and none of them unless one is for all other values. -/
inductive OpsPass : List Op → Prop where
  | nil : OpsPass []
  | exec {stmt : Stmt} {rest : List Op} (hrest : OpsPass rest) : OpsPass (.exec stmt :: rest)
  | refused {cond : Expr} {ops rest : List Op} (hrest : OpsPass rest) :
      OpsPass (.when cond ops :: rest)
  | accepted {cond : Expr} {ops rest : List Op} (hops : OpsPass ops) (hrest : OpsPass rest) :
      OpsPass (.when cond ops :: rest)
  | first {cond : Expr} {ops others rest : List Op} (hops : OpsPass ops)
      (hrest : OpsPass rest) : OpsPass (.choose cond ops others :: rest)
  | second {cond : Expr} {ops others rest : List Op} (hothers : OpsPass others)
      (hrest : OpsPass rest) : OpsPass (.choose cond ops others :: rest)
  | matched {tag : Expr} {arms : List Arm} {arm : Arm} {rest : List Op} (harm : arm ∈ arms)
      (hops : OpsPass arm.ops) (hrest : OpsPass rest) : OpsPass (.dispatch tag arms :: rest)
  | unmatched {tag : Expr} {arms : List Arm} {rest : List Op}
      (hdefault : arms.any Arm.isDefault = false) (hrest : OpsPass rest) :
      OpsPass (.dispatch tag arms :: rest)

theorem opsTerminate_cons (op : Op) (ops : List Op) :
    opsTerminate (op :: ops) = if ops = [] then op.terminates else opsTerminate ops := by
  cases ops <;> rfl

theorem armsTerminate_of_mem {arms : List Arm} (h : armsTerminate arms = true) {arm : Arm}
    (harm : arm ∈ arms) : opsTerminate arm.ops = true := by
  induction arms with
  | nil => cases harm
  | cons first arms ih =>
      rw [armsTerminate, Bool.and_eq_true] at h
      rcases List.mem_cons.mp harm with rfl | harm
      · cases arm <;> exact h.1
      · exact ih h.2 harm

/-- What follows an operation that does not end in a transfer does not either. -/
theorem opsTerminate_cons_eq_false {op : Op} {rest : List Op} (hop : op.terminates = false)
    (hrest : opsTerminate rest = false) : opsTerminate (op :: rest) = false := by
  rw [opsTerminate_cons]
  split
  · exact hop
  · exact hrest

/-- Control does not come to the end of operations that end in a transfer on every path. -/
theorem OpsPass.terminate_eq_false {ops : List Op} (h : OpsPass ops) :
    opsTerminate ops = false := by
  induction h with
  | nil => rfl
  | exec _ ih => exact opsTerminate_cons_eq_false rfl ih
  | refused _ ih => exact opsTerminate_cons_eq_false rfl ih
  | accepted _ _ _ ih => exact opsTerminate_cons_eq_false rfl ih
  | first _ _ ihops ih =>
      exact opsTerminate_cons_eq_false (by rw [Op.terminates, ihops, Bool.false_and]) ih
  | second _ _ ihothers ih =>
      exact opsTerminate_cons_eq_false (by rw [Op.terminates, ihothers, Bool.and_false]) ih
  | @matched tag arms arm rest harm _ _ ihops ih =>
      refine opsTerminate_cons_eq_false ?_ ih
      by_contra hterm
      rw [Bool.not_eq_false, Op.terminates, Bool.and_eq_true] at hterm
      rw [armsTerminate_of_mem hterm.2 harm] at ihops
      cases ihops
  | unmatched hdefault _ ih =>
      exact opsTerminate_cons_eq_false (by rw [Op.terminates, hdefault, Bool.false_and]) ih

section Running

variable {s : Session} {states : Array (List Op)} {n : Nat}

theorem any_isDefault_of_defaultArm? {i : Nat} {arms : List Arm}
    (h : defaultArm? i arms = none) : arms.any Arm.isDefault = false := by
  induction arms generalizing i with
  | nil => rfl
  | cons arm arms ih =>
      rw [defaultArm?] at h
      cases hrest : defaultArm? (i + 1) arms with
      | some j => simp [hrest] at h
      | none =>
          rw [hrest] at h
          have harm : arm.isDefault = false := by simpa using h
          rw [List.any_cons, harm, ih hrest, Bool.false_or]

/-- A dispatch chooses one of its arms, or none where no arm is for all other values. -/
theorem chooseArm_fits {tag : Expr} {arms : List Arm} {m m' : Memory} {choice : Option Nat}
    (h : chooseArm s tag arms m = .ok choice m') :
    match choice with
    | some i => i < arms.length
    | none => arms.any Arm.isDefault = false := by
  rw [chooseArm_eq] at h
  have hfits := chooseClause_fits h
  cases choice with
  | some i => simpa [ChoiceFits] using hfits
  | none => exact any_isDefault_of_defaultArm? ((defaultArm?_eq 0 arms).trans hfits)

mutual

/-- An operation that gives no transfer hands control to what follows it. -/
theorem Op.pass_of_run (op : Op) {rest : List Op} {m m' : Memory}
    (h : op.run s states n m = .ok none m') (hrest : OpsPass rest) : OpsPass (op :: rest) := by
  cases op with
  | exec stmt => exact .exec hrest
  | finish => cases h
  | jump goal value =>
      rw [Op.run, eff_bind_apply] at h
      split at h <;> cases h
  | when cond ops =>
      rw [Op.run, eff_bind_apply] at h
      split at h
      · rename_i holds m₁ _
        cases holds with
        | true => exact .accepted (OpsPass.of_runOps ops h) hrest
        | false => exact .refused hrest
      · cases h
  | choose cond ops others =>
      rw [Op.run, eff_bind_apply] at h
      split at h
      · rename_i holds m₁ _
        cases holds with
        | true => exact .first (OpsPass.of_runOps ops h) hrest
        | false => exact .second (OpsPass.of_runOps others h) hrest
      · cases h
  | dispatch tag arms =>
      rw [Op.run, eff_bind_apply] at h
      split at h
      · rename_i choice m₁ hchoice
        have hfits := chooseArm_fits hchoice
        cases choice with
        | none => exact .unmatched hfits hrest
        | some i =>
            obtain ⟨arm, harm, hops⟩ := armPass_of_runArm arms hfits h
            exact .matched harm hops hrest
      · cases h

/-- Operations that give no transfer come to their end. -/
theorem OpsPass.of_runOps (ops : List Op) {m m' : Memory}
    (h : runOps s states n ops m = .ok none m') : OpsPass ops := by
  cases ops with
  | nil => exact .nil
  | cons op ops =>
      rw [runOps, eff_bind_apply] at h
      split at h
      · rename_i result m₁ hop
        cases result with
        | some b => cases h
        | none => exact op.pass_of_run hop (OpsPass.of_runOps ops h)
      · cases h

/-- Where the chosen arm gives no transfer, control comes to the end of an arm. -/
theorem armPass_of_runArm (arms : List Arm) {i : Nat} {m m' : Memory} (hi : i < arms.length)
    (h : runArm s states n i arms m = .ok none m') : ∃ arm ∈ arms, OpsPass arm.ops := by
  cases arms with
  | nil => simp at hi
  | cons arm arms =>
      cases i with
      | succ i =>
          obtain ⟨arm', harm, hops⟩ := armPass_of_runArm arms (by simpa using hi) h
          exact ⟨arm', List.mem_cons_of_mem arm harm, hops⟩
      | zero => exact ⟨arm, List.mem_cons_self, arm.pass_of_run h⟩

/-- An arm that gives no transfer comes to its end. -/
theorem Arm.pass_of_run (arm : Arm) {m m' : Memory}
    (h : arm.run s states n m = .ok none m') : OpsPass arm.ops := by
  cases arm with
  | case values ops => exact OpsPass.of_runOps ops h
  | default ops => exact OpsPass.of_runOps ops h

end

/-- Operations that end in a transfer on every path give one, if they give anything. -/
theorem runOps_isSome {ops : List Op} (hterm : opsTerminate ops = true) {m m' : Memory}
    {result : Option (Bounce TableStep Value)} (h : runOps s states n ops m = .ok result m') :
    result.isSome = true := by
  cases result with
  | some b => rfl
  | none =>
      have hpass := (OpsPass.of_runOps ops h).terminate_eq_false
      rw [hterm] at hpass
      cases hpass

end Running

end YieldMachine
