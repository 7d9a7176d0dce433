import YieldMachine.Interp.Run

/-!
# Bounds on the number of turns

Executing a statement under a larger bound changes nothing, unless the smaller bound was
used up.  `Approximates` says this of two computations, and is closed under everything
that statements are made of.
-/

namespace YieldMachine

section Effects

variable {σ α β : Type}

theorem eff_bind_apply (x : Eff σ α) (f : α → Eff σ β) (m : σ) :
    (x >>= f) m =
      match x m with
      | .ok a m => f a m
      | .error e m => .error e m := by
  show EStateM.bind x f m = _
  unfold EStateM.bind
  cases x m <;> rfl

theorem eff_bind_eq_ok {x : Eff σ α} {f : α → Eff σ β} {m m' : σ} {b : β} :
    (x >>= f) m = .ok b m' ↔ ∃ a m₁, x m = .ok a m₁ ∧ f a m₁ = .ok b m' := by
  rw [eff_bind_apply]
  cases x m with
  | ok a m₁ => grind
  | error e m₁ => simp

theorem eff_bind_eq_error {x : Eff σ α} {f : α → Eff σ β} {m m' : σ} {e : Fault} :
    (x >>= f) m = .error e m' ↔
      x m = .error e m' ∨ ∃ a m₁, x m = .ok a m₁ ∧ f a m₁ = .error e m' := by
  rw [eff_bind_apply]
  cases x m with
  | ok a m₁ => grind
  | error e m₁ => simp

@[simp]
theorem eff_pure_apply (a : α) (m : σ) : (pure a : Eff σ α) m = .ok a m := rfl

@[simp]
theorem eff_throw_apply (e : Fault) (m : σ) : (throw e : Eff σ α) m = .error e m := rfl

theorem eff_get_bind (f : σ → Eff σ α) (m : σ) : (get >>= f) m = f m m := rfl

/-- Whether a computation was stopped because its bound is used up. -/
def Exhausts (r : EStateM.Result Fault σ α) : Prop := ∃ m, r = .error .exhausted m

/-- Whether two computations agree wherever the first one is not stopped by its bound. -/
def Approximates (x y : Eff σ α) : Prop := ∀ m, Exhausts (x m) ∨ x m = y m

namespace Approximates

theorem refl (x : Eff σ α) : Approximates x x := fun _ => .inr rfl

theorem bind
    {x y : Eff σ α} {f g : α → Eff σ β}
    (hxy : Approximates x y) (hfg : ∀ a, Approximates (f a) (g a)) :
    Approximates (x >>= f) (y >>= g) := by
  intro m
  rcases hxy m with ⟨m', hx⟩ | hx
  · left
    exact ⟨m', by rw [eff_bind_apply, hx]⟩
  · rw [eff_bind_apply, eff_bind_apply, ← hx]
    cases x m with
    | ok a m' => exact hfg a m'
    | error e m' => exact .inr rfl

theorem inScope {x y : Eff Memory α} (h : Approximates x y) :
    Approximates (inScope x) (inScope y) :=
  .bind (.refl _) fun _ => .bind h fun _ => .refl _

theorem discard {x y : Eff σ α} (h : Approximates x y) :
    Approximates (discard x) (discard y) := by
  intro m
  rcases h m with ⟨m', hx⟩ | hx
  · left
    exact ⟨m', by simp [Functor.discard, Functor.mapConst, EStateM.map, hx]⟩
  · right
    simp [Functor.discard, Functor.mapConst, EStateM.map, hx]

end Approximates

end Effects

theorem optional_eq (stmt : Stmt) (x : Eff Memory Control) :
    optional stmt x = if stmt.isMissing then pure () else discard x := by
  cases stmt <;> rfl

theorem otherwise_eq (stmt : Stmt) (x : Eff Memory Control) :
    otherwise stmt x = if stmt.isMissing then pure .normal else x := by
  cases stmt <;> rfl

theorem optional_approximates
    (stmt : Stmt) {x y : Eff Memory Control} (h : Approximates x y) :
    Approximates (optional stmt x) (optional stmt y) := by
  rw [optional_eq, optional_eq]
  split
  · exact .refl _
  · exact h.discard

theorem otherwise_approximates
    (stmt : Stmt) {x y : Eff Memory Control} (h : Approximates x y) :
    Approximates (otherwise stmt x) (otherwise stmt y) := by
  rw [otherwise_eq, otherwise_eq]
  split
  · exact .refl _
  · exact h

theorem turns_approximates
    (label : String) (test : Eff Memory Bool)
    {body body' : Eff Memory Control} {post post' : Eff Memory Unit}
    (hbody : Approximates body body') (hpost : Approximates post post')
    {n k : Nat} (hnk : n ≤ k) :
    Approximates (turns label test body post n) (turns label test body' post' k) := by
  induction n generalizing k with
  | zero =>
      intro m
      exact .inl ⟨m, rfl⟩
  | succ n ih =>
      obtain ⟨k, rfl⟩ : ∃ j, k = j + 1 := ⟨k - 1, by omega⟩
      refine .bind (.refl _) fun more => ?_
      cases more with
      | false => exact .refl _
      | true =>
          refine .bind hbody fun c => ?_
          cases c.afterBody label with
          | some c => exact .refl _
          | none => exact .bind hpost fun _ => ih (by omega)

/-- Whether the statement is a loop. -/
def Stmt.isLoop : Stmt → Bool
  | .loop _ _ _ _ => true
  | _ => false

/-- A label on anything but a loop only ends breaks to it. -/
theorem Stmt.exec_labeled
    (s : Session) (n : Nat) (label : String) {stmt : Stmt} (h : stmt.isLoop = false) :
    (Stmt.labeled label stmt).exec s n = (do
      match ← stmt.exec s n with
      | .brk l => pure (if l = label then .normal else .brk l)
      | c => pure c) := by
  cases stmt with
  | loop init cond post body => cases h
  | _ => rfl

mutual

/-- A larger bound on the turns of loops keeps what a statement does. -/
theorem Stmt.exec_approximates
    (s : Session) {n k : Nat} (hnk : n ≤ k) (stmt : Stmt) :
    Approximates (stmt.exec s n) (stmt.exec s k) := by
  cases stmt with
  | block body =>
      simp only [Stmt.exec]
      exact (execAll_approximates s hnk body).inScope
  | ite init cond body other =>
      simp only [Stmt.exec]
      refine .inScope (.bind (optional_approximates _ (init.exec_approximates s hnk)) ?_)
      refine fun _ => .bind (.refl _) fun holds => ?_
      cases holds with
      | true => exact (execAll_approximates s hnk body).inScope
      | false => exact otherwise_approximates _ (other.exec_approximates s hnk)
  | loop init cond post body =>
      simp only [Stmt.exec]
      refine .inScope (.bind (optional_approximates _ (init.exec_approximates s hnk)) ?_)
      exact fun _ => turns_approximates _ _ (execAll_approximates s hnk body).inScope
        (optional_approximates _ (post.exec_approximates s hnk)) hnk
  | labeled label stmt =>
      have hrest : stmt.isLoop = false →
          Approximates ((Stmt.labeled label stmt).exec s n)
            ((Stmt.labeled label stmt).exec s k) := by
        intro h
        rw [Stmt.exec_labeled s n label h, Stmt.exec_labeled s k label h]
        exact .bind (stmt.exec_approximates s hnk) fun _ => .refl _
      cases stmt with
      | loop init cond post body =>
          simp only [Stmt.exec]
          refine .inScope (.bind (optional_approximates _ (init.exec_approximates s hnk)) ?_)
          exact fun _ => turns_approximates _ _ (execAll_approximates s hnk body).inScope
            (optional_approximates _ (post.exec_approximates s hnk)) hnk
      | _ => exact hrest rfl
  | switch init tag clauses =>
      simp only [Stmt.exec]
      refine .inScope (.bind (optional_approximates _ (init.exec_approximates s hnk)) ?_)
      refine fun _ => .bind (.refl _) fun choice => ?_
      cases choice with
      | none => exact .refl _
      | some i => exact execFrom_approximates s hnk i clauses
  | branch kind label =>
      cases kind <;> exact .refl _
  | _ =>
      simp only [Stmt.exec]
      exact .refl _

theorem execAll_approximates
    (s : Session) {n k : Nat} (hnk : n ≤ k) (stmts : List Stmt) :
    Approximates (execAll s n stmts) (execAll s k stmts) := by
  cases stmts with
  | nil => exact .refl _
  | cons stmt stmts =>
      simp only [execAll]
      refine .bind (stmt.exec_approximates s hnk) fun c => ?_
      cases c with
      | normal => exact execAll_approximates s hnk stmts
      | _ => exact .refl _

theorem execFrom_approximates
    (s : Session) {n k : Nat} (hnk : n ≤ k) (i : Nat) (clauses : List Clause) :
    Approximates (execFrom s n i clauses) (execFrom s k i clauses) := by
  cases clauses with
  | nil => simp only [execFrom]; exact .refl _
  | cons clause clauses =>
      cases i with
      | succ i =>
          simp only [execFrom]
          exact execFrom_approximates s hnk i clauses
      | zero =>
          simp only [execFrom]
          refine .bind (clause.exec_approximates s hnk).inScope fun c => ?_
          cases c with
          | fall => exact execFrom_approximates s hnk 0 clauses
          | _ => exact .refl _

theorem Clause.exec_approximates
    (s : Session) {n k : Nat} (hnk : n ≤ k) (clause : Clause) :
    Approximates (clause.exec s n) (clause.exec s k) := by
  cases clause with
  | case values body => exact execAll_approximates s hnk body
  | default body => exact execAll_approximates s hnk body

end

end YieldMachine
