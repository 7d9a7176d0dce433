import YieldMachine.Proofs.Lowering.Draft
import YieldMachine.Proofs.Lowering.Written

/-!
# What the parts of lowering do to a draft

One statement for each part of lowering that is no recursion over a body: which errors it
can end in, which states it touches, and which of them are finished afterwards.
-/

namespace YieldMachine

open Lowering Draft

variable {E : LowerError → Prop} {d : Draft}

/-- Whether two contexts lead to the same states, and have the same labels. -/
def StateEnv.SameTargets (env env' : StateEnv) : Prop :=
  env'.next = env.next ∧ env'.breaks = env.breaks ∧ env'.continues = env.continues ∧
    env'.labels = env.labels

theorem StateEnv.SameTargets.refl (env : StateEnv) : env.SameTargets env := ⟨rfl, rfl, rfl, rfl⟩

theorem StateEnv.SameTargets.trans {env env' env'' : StateEnv} (h : env.SameTargets env')
    (h' : env'.SameTargets env'') : env.SameTargets env'' :=
  ⟨h'.1.trans h.1, h'.2.1.trans h.2.1, h'.2.2.1.trans h.2.2.1, h'.2.2.2.trans h.2.2.2⟩

theorem StateEnv.SameTargets.fits {env env' : StateEnv} (h : env.SameTargets env') {size : Nat}
    (hfits : env.Fits size) : env'.Fits size where
  next := h.1 ▸ hfits.next
  breaks := h.2.1 ▸ hfits.breaks
  continues := h.2.2.1 ▸ hfits.continues

theorem Draft.Extends.trans_self {A : List Nat} {d d' d'' : Draft} (h : Extends A d d')
    (h' : Extends A d' d'') : Extends A d d'' :=
  (h.trans h').shrink fun q hq => .inl (by simpa using hq)

theorem Draft.Extends.of_nil {A : List Nat} {d d' : Draft} (h : Extends [] d d') :
    Extends A d d' :=
  h.shrink (by simp)

theorem Env.renames_foldl (labels : List String) (env : StateEnv) (state : Nat) :
    (labels.foldl (fun env label => env.withContinue label state) env).renames = env.renames := by
  induction labels generalizing env with
  | nil => rfl
  | cons label labels ih => exact ih (env.withContinue label state)

theorem Env.renames_inLoop (env : StateEnv) (state : Nat) :
    (env.inLoop state).renames = env.renames :=
  Env.renames_foldl env.labels _ state

theorem opsFit_exec (size : Nat) (stmt : Stmt) : OpsFit size [.exec stmt] := by
  simp [OpsFit, opsParts, Op.parts, Op.Fits]

theorem opsFit_jump {size goal : Nat} (h : goal < size) (value : Expr) :
    OpsFit size [.jump goal value] := by
  simpa [OpsFit, opsParts, Op.parts, Op.Fits] using h

theorem opsFit_when {size : Nat} (cond : Expr) {ops : List Op} (h : OpsFit size ops) :
    OpsFit size [.when cond ops] := by
  simpa [OpsFit, opsParts, Op.parts, Op.Fits] using h

theorem opsFit_choose {size : Nat} (cond : Expr) {ops others : List Op} (h : OpsFit size ops)
    (h' : OpsFit size others) : OpsFit size [.choose cond ops others] := by
  simp only [OpsFit, opsParts, Op.parts, List.append_nil, List.forall_mem_cons,
    List.forall_mem_append]
  exact ⟨trivial, h, h'⟩

/-- A jump that ends a state. -/
theorem Draft.Ready.jump {q : Nat} (h : d.Ready q) (goal : Nat) (value : Expr) :
    (d.append q (.jump goal value)).Done q :=
  h.close rfl

/-- A jump that ends the first of the open states. -/
theorem Draft.Opens.jump {R D : List Nat} {d₀ : Draft} {q : Nat} (h : Opens (q :: R) D d₀ d)
    (goal : Nat) (hq : q ∉ R) (hgoal : goal < d.size) (value : Expr) :
    Opens R (q :: D) d₀ (d.append q (.jump goal value)) :=
  h.close hq _ rfl (opsFit_jump hgoal value)

/-- A state that is reserved, and to which a jump from the first of the open states leads. -/
theorem Draft.Opens.enter {R D : List Nat} {d₀ : Draft} {q : Nat} (h : Opens (q :: R) D d₀ d)
    (hq : q ∉ R) :
    Opens (d.size :: R) (q :: D) d₀ (d.reserve.append q (.jump d.size .missing)) := by
  have hlt := h.lt List.mem_cons_self
  refine h.reserve.swap.jump d.size (fun hmem => ?_) (by simp) .missing
  rcases List.mem_cons.mp hmem with heq | hmem
  · omega
  · exact hq hmem

/-- A state that is open from the start. -/
theorem Draft.Opens.of_ready {q : Nat} (hsound : d.Sound) (hready : d.Ready q) :
    Opens [q] [] d d :=
  .start hsound (by simpa using hready)

/-- A statement that is copied into a state. -/
theorem verbatim_ensures {flow : Flow} (hflow : ∀ s ∈ flow.parts, s.Written) {current : Nat}
    {env : StateEnv} (hsound : d.Sound) (hready : d.Ready current) :
    Ensures E d (verbatim flow current env) fun _ d' =>
      d'.Sound ∧ Extends [current] d d' ∧ d'.Ready current := by
  obtain ⟨stmt, hstmt, hwritten⟩ := flow.exists_toStmt hflow
  have hnothing : d.Sound ∧ Extends [current] d d ∧ d.Ready current :=
    ⟨hsound, (Extends.refl d).of_nil, hready⟩
  have hexec : ∀ stmt : Stmt,
      (d.append current (.exec stmt)).Sound ∧ Extends [current] d (d.append current (.exec stmt)) ∧
        (d.append current (.exec stmt)).Ready current :=
    fun stmt => ⟨hsound.append (opsFit_exec _ _), Extends.append d current _, hready.append rfl⟩
  unfold verbatim
  rw [hstmt]
  cases stmt with
  | missing => cases hwritten
  | empty => exact .pure hnothing
  | _ => exact Ensures.emit_last (hexec _)

/-- Fields for the names of a declaration. -/
theorem hoistNames_ensures {decl : VarDecl} {env : StateEnv} {i : Nat} {names : List String}
    (hdecl : E .malformed ∨ i + names.length ≤ decl.types.length) (inner : StateEnv) :
    Ensures E d (hoistNames decl env i names inner) fun result d' =>
      (d'.states = d.states ∧ Extends [] d d') ∧ inner.SameTargets result.2.2 := by
  induction names generalizing i inner d with
  | nil => exact .pure ⟨⟨rfl, .refl d⟩, .refl inner⟩
  | cons name names ih =>
      have hrest : E .malformed ∨ i + 1 + names.length ≤ decl.types.length := by
        refine hdecl.imp_right fun h => ?_
        rw [List.length_cons] at h
        omega
      simp only [hoistNames]
      split
      · exact (ih hrest inner).bind fun result d' h => .pure h
      · split
        · rename_i htype
          refine .throw (hdecl.resolve_right fun h => ?_)
          rw [VarDecl.typeAt?, Option.map_eq_none_iff, List.getElem?_eq_none_iff] at htype
          rw [List.length_cons] at h
          omega
        · exact (ih hrest inner).bind fun result d' h => .pure h
        · rename_i type _ _
          refine Ensures.bind (P := fun _ d' => d'.states = d.states ∧ Extends [] d d')
            ⟨rfl, .of_states rfl (List.prefix_append ..) (List.suffix_cons ..)⟩ ?_
          rintro field d₁ ⟨hstates, hext⟩
          refine (ih hrest (inner.withRename name ⟨field, true⟩)).bind ?_
          rintro result d' ⟨⟨hstates', hext'⟩, hsame⟩
          exact .pure ⟨⟨hstates'.trans hstates, hext.trans_self hext'⟩, hsame⟩

theorem Draft.Ready.of_states {d d' : Draft} {q : Nat} (h : d.Ready q)
    (hstates : d'.states = d.states) : d'.Ready q := by
  unfold Draft.Ready at h ⊢
  rwa [hstates]

theorem resetFields_ensures {current : Nat} (fresh : List (Expr × Expr)) (hsound : d.Sound)
    (hready : d.Ready current) :
    Ensures E d (resetFields current fresh) fun _ d' =>
      d'.Sound ∧ Extends [current] d d' ∧ d'.Ready current := by
  induction fresh generalizing d with
  | nil => exact .pure ⟨hsound, (Extends.refl d).of_nil, hready⟩
  | cons field fresh ih =>
      obtain ⟨field, type⟩ := field
      refine .emit ?_
      refine (ih (hsound.append (opsFit_exec _ _)) (hready.append rfl)).mono ?_
      rintro _ d' ⟨hsound', hext, hready'⟩
      exact ⟨hsound', (Extends.append d current _).trans_self hext, hready'⟩

/-- A declaration. -/
theorem VarDecl.lower_ensures {decl : VarDecl}
    (hdecl : E .malformed ∨ decl.names.length ≤ decl.types.length) {current : Nat}
    {env : StateEnv} (hsound : d.Sound) (hready : d.Ready current) :
    Ensures E d (decl.lower current env) fun env' d' =>
      (d'.Sound ∧ Extends [current] d d' ∧ d'.Ready current) ∧ env.SameTargets env' := by
  refine (hoistNames_ensures (by simpa using hdecl) env).bind ?_
  rintro ⟨lhs, fresh, inner⟩ d₁ ⟨⟨hstates, hext⟩, hsame⟩
  have hsound₁ := hsound.of_states hstates
  have hready₁ := hready.of_states hstates
  by_cases hvalues : decl.values.isEmpty = true
  · simp only [hvalues, if_true]
    refine (resetFields_ensures fresh hsound₁ hready₁).bind ?_
    rintro _ d' ⟨hsound', hext', hready'⟩
    exact .pure ⟨⟨hsound', hext.of_nil.trans_self hext', hready'⟩, hsame⟩
  · simp only [hvalues]
    refine .emit (.pure ⟨⟨?_, ?_, ?_⟩, hsame⟩)
    · exact hsound₁.append (opsFit_exec _ _)
    · exact hext.of_nil.trans_self (Extends.append d₁ current _)
    · exact hready₁.append rfl

theorem liftNames_ensures (plan : Plan) (names : List String) (env : StateEnv) :
    Ensures E d (liftNames plan names env) fun env' d' =>
      (d'.states = d.states ∧ Extends [] d d') ∧ env.SameTargets env' := by
  induction names generalizing env d with
  | nil => exact .pure ⟨⟨rfl, .refl d⟩, .refl env⟩
  | cons name names ih =>
      simp only [liftNames]
      split
      · exact ih env
      · refine Ensures.bind (P := fun _ d' => d'.states = d.states ∧ Extends [] d d')
          ⟨rfl, .of_states rfl (List.prefix_refl _) (List.suffix_cons ..)⟩ ?_
        rintro lifted d₁ ⟨hstates, hext⟩
        refine (ih (env.withRename name ⟨lifted, false⟩)).mono ?_
        rintro env' d' ⟨⟨hstates', hext'⟩, hsame⟩
        exact ⟨⟨hstates'.trans hstates, hext.trans_self hext'⟩, hsame⟩

/-- A local declaration that is lifted. -/
theorem liftDecl_ensures (plan : Plan) (decl : Decl) (env : StateEnv) :
    Ensures E d (liftDecl plan decl env) fun env' d' =>
      (d'.states = d.states ∧ Extends [] d d') ∧ env.SameTargets env' := by
  refine (liftNames_ensures plan _ env).bind ?_
  rintro env' d₁ ⟨⟨hstates, hext⟩, hsame⟩
  exact ⟨⟨hstates, hext.trans_self (.of_states rfl (List.prefix_refl _) (List.suffix_refl _))⟩,
    hsame⟩

/-- The condition state of a loop. -/
theorem lowerTest_ensures {state body exit : Nat} (cond : Expr) (env : StateEnv)
    (hsound : d.Sound) (hready : d.Ready state) (hbody : body < d.size) (hexit : exit < d.size) :
    Ensures E d (lowerTest state cond body exit env) fun _ d' =>
      d'.Sound ∧ Extends [state] d d' ∧ d'.Done state := by
  have hwhen : ∀ cond, OpsFit d.size [.when cond [.jump body .missing]] :=
    fun cond => opsFit_when cond (opsFit_jump hbody .missing)
  have htest : ∀ cond, Ensures E d (do
      Lowering.emit state (.when (env.resolve cond) [.jump body .missing])
      Lowering.emit state (.jump exit .missing)) fun _ d' =>
        d'.Sound ∧ Extends [state] d d' ∧ d'.Done state := by
    intro cond
    refine .emit (.emit_last ⟨?_, ?_, ?_⟩)
    · exact (hsound.append (hwhen _)).append (opsFit_jump (by simpa using hexit) .missing)
    · exact (Extends.append d state _).trans_self (Extends.append _ state _)
    · exact (hready.append rfl).jump exit .missing
  cases cond with
  | missing =>
      exact .emit_last ⟨hsound.append (opsFit_jump hbody .missing), .append d state _,
        hready.jump body .missing⟩
  | _ => exact htest _

/-- A key or value of a loop over an iterator. -/
theorem lowerTarget_ensures (define : Bool) (target type : Expr) (env inner : StateEnv) :
    Ensures E d (lowerTarget define target type env inner) fun result d' =>
      (d'.states = d.states ∧ Extends [] d d') ∧ inner.SameTargets result.2 := by
  have hsame : (d.states = d.states ∧ Extends [] d d) ∧ inner.SameTargets inner :=
    ⟨⟨rfl, .refl d⟩, .refl inner⟩
  cases target with
  | missing => exact .pure hsame
  | ident name kept =>
      simp only [lowerTarget]
      split
      · exact .pure hsame
      · split
        · exact ⟨⟨rfl, .of_states rfl (List.prefix_append ..) (List.suffix_cons ..)⟩,
            ⟨rfl, rfl, rfl, rfl⟩⟩
        · exact .pure hsame
  | _ => exact .pure hsame

theorem hoistIterator_ensures (type : Expr) :
    Ensures E d (hoistIterator type) fun _ d' => d'.states = d.states ∧ Extends [] d d' :=
  ⟨rfl, .of_states rfl (List.prefix_append ..) (List.suffix_cons ..)⟩

/-- The header of a loop over an iterator: only the state of the body is left open. -/
theorem Walk.lower_ensures (w : Walk) (plan : Plan) {current : Nat} {env : StateEnv}
    (hsound : d.Sound) (henv : env.Fits d.size) (hready : d.Ready current) :
    Ensures E d (w.lower plan current env) fun result d' =>
      d'.Sound ∧ Extends [current, result.2.1] d d' ∧ d'.Done current ∧ d'.Ready result.2.1 ∧
        result.1 < d'.size ∧ d.size ≤ result.2.1 ∧ env.SameTargets result.2.2 := by
  have hnext := henv.next
  have h₁ := (Opens.of_ready hsound hready).enter (by simp)
  refine .newState (.emit ((hoistIterator_ensures _).bind ?_))
  rintro it d₂ ⟨hstates₂, hext₂⟩
  have h₂ := (h₁.of_states hstates₂ hext₂).append d.size
    (.exec (.assign .set [fieldExpr it] [env.resolve w.x])) (by simp) rfl (opsFit_exec _ _)
  refine .emit ((lowerTarget_ensures w.define w.key w.keyType env env).bind ?_)
  rintro ⟨key, inner⟩ d₃ ⟨⟨hstates₃, hext₃⟩, hsame₃⟩
  refine (lowerTarget_ensures w.define w.value w.valueType env inner).bind ?_
  rintro ⟨value, inner'⟩ d₄ ⟨⟨hstates₄, hext₄⟩, hsame₄⟩
  have h₄ := (h₂.of_states hstates₃ hext₃).of_states hstates₄ hext₄
  have hsize : d.size + 1 ≤ d₄.size := h₄.lt (by simp)
  have h₅ := (h₄.enter (by simp)).reserve
  have hfit : OpsFit (d₄.size + 2) [.when ((fieldExpr it).method "HasNext")
      [.exec (.assign .set [key, value] [(fieldExpr it).method "Next"]),
        .jump (d₄.size + 1) .missing]] :=
    opsFit_when _ (by simp [OpsFit, opsParts, Op.parts, Op.Fits])
  have h₆ := (h₅.append d₄.size _ (by simp) rfl (by simpa using hfit)).swap.jump
    env.next (by simp) (by simp; omega) .missing
  simp only [size_append, size_reserve] at h₆
  refine .newState (.emit (.newState (.emit (.emit (.pure ?_)))))
  simp only [size_append, size_reserve]
  refine ⟨h₆.sound, h₆.finish (by simp) (by simp; omega), h₆.isDone current (by simp),
    h₆.isReady _ (by simp), by omega, by omega, hsame₃.trans hsame₄⟩

/-- What leads into the states of the cases of a switch. -/
structure ArmsLead (size : Nat) (cases' : List FlowCase) (arms : List Arm) : Prop where
  fits : ∀ op ∈ armsParts arms, op.Fits size
  default : arms.any Arm.isDefault = cases'.any FlowCase.isDefault
  terminate : armsTerminate arms = true

/-- A state for each case of a switch, and the arms that lead there. -/
theorem lowerArms_ensures (env : StateEnv) {cases' : List FlowCase} {R D : List Nat} {d₀ : Draft}
    (h : Opens R D d₀ d) :
    Ensures E d (lowerArms env cases') fun result d' =>
      Opens (result.1 ++ R) D d₀ d' ∧ ArmsLead d'.size cases' result.2 ∧
        result.1.length = cases'.length ∧ result.1.Nodup ∧ ∀ q ∈ result.1, d.size ≤ q := by
  induction cases' generalizing R d with
  | nil => exact .pure ⟨h, ⟨by simp [armsParts], rfl, rfl⟩, rfl, .nil, by simp⟩
  | cons c cs ih =>
      refine .newState ((ih h.reserve).bind ?_)
      rintro ⟨states, arms⟩ d' ⟨hopens, harms, hlength, hnodup, hstates⟩
      have hstate : d.size < d'.size := hopens.lt (by simp)
      simp only [size_reserve] at hstates
      refine .pure ⟨hopens.congr (by simp [or_left_comm]), ⟨?_, ?_, ?_⟩, by simp [hlength], ?_, ?_⟩
      · intro op hop
        cases c <;> simp only [armsParts, Arm.parts, opsParts, Op.parts, List.append_nil,
          List.singleton_append, List.mem_cons] at hop <;> rcases hop with rfl | hop
        · exact hstate
        · exact harms.fits op hop
        · exact hstate
        · exact harms.fits op hop
      · cases c <;> simp [Arm.isDefault, FlowCase.isDefault, harms.default]
      · cases c <;> simp [armsTerminate, Arm.terminates, opsTerminate, Op.terminates,
          harms.terminate]
      · refine List.nodup_cons.mpr ⟨fun hmem => ?_, hnodup⟩
        have := hstates _ hmem
        omega
      · refine List.forall_mem_cons.mpr ⟨Nat.le_refl _, fun q hq => ?_⟩
        have := hstates q hq
        omega

theorem opsFit_dispatch {size : Nat} {cases' : List FlowCase} (tag : Expr) {arms : List Arm}
    (h : ArmsLead size cases' arms) : OpsFit size [.dispatch tag arms] := by
  simp only [OpsFit, opsParts, Op.parts, List.append_nil, List.forall_mem_cons]
  exact ⟨trivial, h.fits⟩

/-- The end of a block. -/
theorem closeBlock_ensures {current cont : Nat} {env : StateEnv} (hsound : d.Sound)
    (hcurrent : d.Ready current) (hcont : d.Ready cont) (hne : current ≠ cont)
    (hnext : env.next < d.size) :
    Ensures E d (closeBlock current cont env) fun _ d' =>
      d'.Sound ∧ Extends [current, cont] d d' ∧ d'.Done current ∧ d'.Done cont := by
  have h := ((Opens.start (R := [current, cont]) hsound (by simpa using ⟨hcurrent, hcont⟩)).jump
    env.next (by simpa using hne) hnext .missing).jump env.next (by simp) (by simpa using hnext)
    .missing
  refine .terminated ?_
  rw [hcurrent.terminated]
  refine .emit (.emit_last ⟨h.sound, h.finish (by simp) (by simp), ?_, ?_⟩)
  · exact h.isDone current (by simp)
  · exact h.isDone cont (by simp)

end YieldMachine
