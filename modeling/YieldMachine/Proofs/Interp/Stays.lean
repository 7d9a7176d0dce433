import YieldMachine.Proofs.Interp.Bounded
import YieldMachine.Proofs.Meaning.WellFormed

/-!
# Statements that do not leave themselves

When every branch of a statement has its target inside the statement or around it,
executing the statement ends normally or in a branch to a target around it.  A statement
whose branches all stay inside ends normally.
-/

namespace YieldMachine

variable {α β : Type}

/-- Whether every result of a computation has the property. -/
def Gives (P : α → Prop) (x : Eff Memory α) : Prop := ∀ m a m', x m = .ok a m' → P a

namespace Gives

variable {P : α → Prop} {Q : β → Prop}

theorem pure {a : α} (h : P a) : Gives P (Pure.pure a) := by
  rintro m b m' hm
  cases hm
  exact h

theorem throw (e : Fault) : Gives P (throw e) := by
  rintro m a m' hm
  cases hm

theorem bind {x : Eff Memory α} {f : α → Eff Memory β} (hx : Gives P x)
    (hf : ∀ a, P a → Gives Q (f a)) : Gives Q (x >>= f) := by
  intro m b m' hm
  rw [eff_bind_apply] at hm
  cases hres : x m with
  | error e m₁ =>
      rw [hres] at hm
      cases hm
  | ok a m₁ =>
      rw [hres] at hm
      exact hf a (hx m a m₁ hres) m₁ b m' hm

theorem mono {P' : α → Prop} {x : Eff Memory α} (h : Gives P x) (himp : ∀ a, P a → P' a) :
    Gives P' x :=
  fun m a m' hm => himp a (h m a m' hm)

/-- Only the results that there can be matter for what follows. -/
theorem bind_congr {x : Eff Memory α} {f k : α → Eff Memory β} (hx : Gives P x)
    (hfk : ∀ a, P a → f a = k a) : x >>= f = x >>= k := by
  funext m
  rw [eff_bind_apply, eff_bind_apply]
  cases hm : x m with
  | error e m' => rfl
  | ok a m' =>
      show f a m' = k a m'
      rw [hfk a (hx m a m' hm)]

theorem any (x : Eff Memory α) : Gives (fun _ => True) x := fun _ _ _ _ => trivial

theorem inScope {x : Eff Memory α} (h : Gives P x) : Gives P (inScope x) :=
  (any _).bind fun _ _ => h.bind fun _ ha => (any _).bind fun _ _ => pure ha

end Gives

/-- How a loop ends, given how its body does. -/
theorem turns_gives {r : Reach} {label : String} {labels : List String}
    (hlabels : ∀ l ∈ labels, l = label) {test : Eff Memory Bool} {body : Eff Memory Control}
    {post : Eff Memory Unit} (hbody : Gives (r.inLoop labels).Allows body) (n : Nat) :
    Gives r.Allows (turns label test body post n) := by
  induction n with
  | zero => exact Gives.throw _
  | succ n ih =>
      refine (Gives.any _).bind fun more _ => ?_
      cases more with
      | false => exact Gives.pure trivial
      | true =>
          refine hbody.bind fun ctl hctl => ?_
          cases hafter : ctl.afterBody label with
          | none => exact (Gives.any _).bind fun _ _ => ih
          | some ctl' =>
              refine Gives.pure ?_
              cases ctl with
              | normal => cases hafter
              | fall => cases hafter
              | brk l =>
                  simp only [Control.afterBody] at hafter
                  split at hafter
                  · cases hafter
                    trivial
                  · rename_i hne
                    rw [not_or] at hne
                    cases hafter
                    simp only [Reach.Allows, hne.1, if_false, Reach.inLoop, List.mem_append]
                      at hctl ⊢
                    exact hctl.resolve_left fun hl => hne.2 (hlabels l hl)
              | cont l =>
                  simp only [Control.afterBody] at hafter
                  split at hafter
                  · cases hafter
                  · rename_i hne
                    rw [not_or] at hne
                    cases hafter
                    simp only [Reach.Allows, hne.1, if_false, Reach.inLoop, List.mem_append]
                      at hctl ⊢
                    exact hctl.resolve_left fun hl => hne.2 (hlabels l hl)

mutual

/-- A statement ends normally or in a branch to a target around it. -/
theorem Stmt.exec_gives (s : Session) (n : Nat) {r : Reach} (stmt : Stmt) (h : stmt.Stays r) :
    Gives r.Allows (stmt.exec s n) := by
  cases stmt with
  | expr x => exact (Gives.any _).bind fun _ _ => Gives.pure trivial
  | assign kind lhs rhs => exact (Gives.any _).bind fun _ _ => Gives.pure trivial
  | incDec increment x =>
      exact (Gives.any _).bind fun _ _ => (Gives.any _).bind fun _ _ => Gives.pure trivial
  | decl kind specs => exact (Gives.any _).bind fun _ _ => Gives.pure trivial
  | block body =>
      simp only [Stmt.exec]
      exact (execAll_gives s n body h).inScope
  | ite init cond body other =>
      simp only [Stmt.exec]
      refine Gives.inScope ((Gives.any _).bind fun _ _ => (Gives.any _).bind fun holds _ => ?_)
      cases holds with
      | true => exact (execAll_gives s n body h.1).inScope
      | false =>
          simp only [Bool.false_eq_true, if_false]
          rw [otherwise_eq]
          split
          · exact Gives.pure trivial
          · exact other.exec_gives s n h.2
  | loop init cond post body =>
      simp only [Stmt.exec]
      refine Gives.inScope ((Gives.any _).bind fun _ _ => ?_)
      exact turns_gives (by simp) (execAll_gives s n body h).inScope n
  | labeled label stmt =>
      have hrest : stmt.isLoop = false → stmt.Stays (r.withLabel label) →
          Gives r.Allows ((Stmt.labeled label stmt).exec s n) := by
        intro hloop hstays
        rw [Stmt.exec_labeled s n label hloop]
        refine (stmt.exec_gives s n hstays).bind fun ctl hctl => ?_
        cases ctl with
        | brk l =>
            refine Gives.pure ?_
            by_cases hl : l = label
            · simp [hl, Reach.Allows]
            · simpa [hl, Reach.Allows, Reach.withLabel] using hctl
        | normal => exact Gives.pure trivial
        | cont l => exact Gives.pure hctl
        | fall => exact Gives.pure hctl
      cases stmt with
      | loop init cond post body =>
          simp only [Stmt.exec]
          refine Gives.inScope ((Gives.any _).bind fun _ _ => ?_)
          exact turns_gives (by simp) (execAll_gives s n body h).inScope n
      | _ => exact hrest rfl h
  | switch init tag clauses =>
      simp only [Stmt.exec]
      refine Gives.inScope ((Gives.any _).bind fun _ _ => (Gives.any _).bind fun choice _ => ?_)
      cases choice with
      | none => exact Gives.pure trivial
      | some i => exact execFrom_gives s n i clauses h
  | branch kind label =>
      cases kind with
      | goto => exact Gives.pure trivial
      | _ => exact Gives.pure h
  | empty => exact Gives.pure trivial
  | _ => exact Gives.throw _

theorem execAll_gives (s : Session) (n : Nat) {r : Reach} (stmts : List Stmt)
    (h : stmtsStay r stmts) : Gives r.Allows (execAll s n stmts) := by
  cases stmts with
  | nil => exact Gives.pure trivial
  | cons stmt stmts =>
      simp only [execAll]
      refine (stmt.exec_gives s n h.1).bind fun ctl hctl => ?_
      cases ctl with
      | normal => exact execAll_gives s n stmts h.2
      | _ => exact Gives.pure hctl

theorem execFrom_gives (s : Session) (n i : Nat) {r : Reach} (clauses : List Clause)
    (h : clausesStay r.inSwitch clauses) : Gives r.Allows (execFrom s n i clauses) := by
  cases clauses with
  | nil =>
      simp only [execFrom]
      exact Gives.pure trivial
  | cons clause clauses =>
      cases i with
      | succ i =>
          simp only [execFrom]
          exact execFrom_gives s n i clauses h.2
      | zero =>
          simp only [execFrom]
          refine (clause.exec_gives s n h.1).inScope.bind fun ctl hctl => ?_
          cases ctl with
          | fall => exact execFrom_gives s n 0 clauses h.2
          | normal => exact Gives.pure trivial
          | cont l => exact Gives.pure hctl
          | brk l =>
              refine Gives.pure ?_
              by_cases hl : l = ""
              · simp [hl, Reach.Allows]
              · simpa [hl, Reach.Allows, Reach.inSwitch] using hctl

theorem Clause.exec_gives (s : Session) (n : Nat) {r : Reach} (clause : Clause)
    (h : clause.Stays r) : Gives r.Allows (clause.exec s n) := by
  cases clause with
  | case values body => exact execAll_gives s n body h
  | default body => exact execAll_gives s n body h

end

/-- A statement that does not leave itself ends normally. -/
theorem Stmt.exec_normal {s : Session} {n : Nat} {stmt : Stmt} (h : stmt.Stays .none)
    {m m' : Memory} {ctl : Control} (hexec : stmt.exec s n m = .ok ctl m') : ctl = .normal := by
  have hallowed := stmt.exec_gives s n h m ctl m' hexec
  cases ctl with
  | normal => rfl
  | brk l => simp [Reach.Allows, Reach.none] at hallowed
  | cont l => simp [Reach.Allows, Reach.none] at hallowed
  | fall => simp [Reach.Allows, Reach.none] at hallowed

end YieldMachine
