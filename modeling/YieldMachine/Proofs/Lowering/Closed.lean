import YieldMachine.Proofs.Lowering.Steps

/-!
# Every state of a table is closed

Lowering a statement either ends the state that it is lowered into, or leaves it open for
the next statement; all states that it reserves are ended.  So every table that lowering
gives is well formed, and lowering fails only where a branch has no target.
-/

namespace YieldMachine

open Lowering Draft

/-- Whether lowering the statement ends the state that it is lowered into. -/
def Flow.transfers : Flow → Bool
  | .missing | .declare _ | .lift _ | .simple _ => false
  | .labeled _ stmt => stmt.transfers
  | _ => true

/-- What lowering into the state `current` has done: nothing else is left open, and the
state itself is ended or open. -/
structure Draft.After (ended : Bool) (current : Nat) (d d' : Draft) : Prop where
  sound : d'.Sound
  ext : Extends [current] d d'
  state : if ended then d'.Done current else d'.Ready current

/-- What the statements of a block have in common for lowering: all of them are written,
and each declaration has a type for every name unless an error is expected. -/
structure Lowerable (E : LowerError → Prop) (parts : List Flow) : Prop where
  written : ∀ s ∈ parts, s.Written
  typed : E .malformed ∨ ∀ decl, Flow.declare decl ∈ parts → decl.names.length ≤ decl.types.length

theorem Lowerable.mono {E : LowerError → Prop} {parts parts' : List Flow}
    (h : Lowerable E parts) (hsub : ∀ s ∈ parts', s ∈ parts) : Lowerable E parts' where
  written s hs := h.written s (hsub s hs)
  typed := h.typed.imp_right fun ht decl hd => ht decl (hsub _ hd)

section Blocks

variable {E : LowerError → Prop} {d : Draft} {plan : Plan} {flow : Flow} {current : Nat}
  {lower : StateEnv → Lowering Unit}

/-- The first part of a loop header. -/
theorem Flow.lowerInit_ensures {env : StateEnv}
    (hflow : flow.isMissing = false → Lowerable E flow.parts) (hsound : d.Sound)
    (hready : d.Ready current) :
    Ensures E d (flow.lowerInit current env) fun env' d' =>
      Draft.After false current d d' ∧ env.SameTargets env' := by
  have hverbatim : flow.isMissing = false → Ensures E d (do
      verbatim flow current env
      pure env) fun env' d' => Draft.After false current d d' ∧ env.SameTargets env' := fun hm =>
    (verbatim_ensures (hflow hm).written hsound hready).bind fun _ d' h =>
      .pure ⟨⟨h.1, h.2.1, h.2.2⟩, .refl env⟩
  cases flow with
  | missing => exact .pure ⟨⟨hsound, (Extends.refl d).of_nil, hready⟩, .refl env⟩
  | declare decl =>
      have htyped : E .malformed ∨ decl.names.length ≤ decl.types.length :=
        (hflow rfl).typed.imp_right fun h => h decl (by simp [Flow.parts])
      exact (decl.lower_ensures htyped hsound hready).mono fun env' d' h =>
        ⟨⟨h.1.1, h.1.2.1, h.1.2.2⟩, h.2⟩
  | _ => exact hverbatim rfl

/-- The last part of a loop header. -/
theorem Flow.lowerPost_ensures {env : StateEnv}
    (hflow : flow.isMissing = false → Lowerable E flow.parts) (hsound : d.Sound)
    (hready : d.Ready current) :
    Ensures E d (flow.lowerPost current env) fun _ d' => Draft.After false current d d' := by
  have hverbatim : flow.isMissing = false → Ensures E d (verbatim flow current env)
      fun _ d' => Draft.After false current d d' := fun hm =>
    (verbatim_ensures (hflow hm).written hsound hready).mono fun _ d' h => ⟨h.1, h.2.1, h.2.2⟩
  cases flow with
  | missing => exact .pure ⟨hsound, (Extends.refl d).of_nil, hready⟩
  | _ => exact hverbatim rfl

/-- What lowering a statement into a given state does. -/
def LowersInto (E : LowerError → Prop) (current : Nat) (ended : Bool)
    (lower : StateEnv → Lowering Unit) : Prop :=
  ∀ {d : Draft} {env : StateEnv}, d.Sound → env.Fits d.size → d.Ready current →
    Ensures E d (lower env) fun _ d' => Draft.After ended current d d'

/-- One statement of a block. -/
theorem stitch_ensures {cont : Nat} {env : StateEnv} (hflow : Lowerable E flow.parts)
    (hlower : LowersInto E current flow.transfers lower)
    (hsound : d.Sound) (henv : env.Fits d.size) (hready : d.Ready current) (hcont : cont < d.size) :
    Ensures E d (stitch plan flow lower current cont env) fun env' d' =>
      (∃ ended, Draft.After ended current d d') ∧ env.SameTargets env' := by
  have hsplit : Ensures E d (do
      let child := (env.withNext cont).clearLabels
      let number ← reach
      if plan.split number flow then lower child else verbatim flow current child
      pure env) fun env' d' =>
        (∃ ended, Draft.After ended current d d') ∧ env.SameTargets env' := by
    refine Ensures.reach ?_
    have hext : Extends [] d { d with reached := d.reached + 1 } :=
      .of_states rfl (List.prefix_refl _) (List.suffix_refl _)
    have hsound' : Draft.Sound { d with reached := d.reached + 1 } := hsound
    dsimp only
    split
    · refine (hlower hsound' (henv.withNext hcont).clearLabels hready).bind fun _ d' h => ?_
      exact .pure ⟨⟨_, h.sound, hext.of_nil.trans_self h.ext, h.state⟩, .refl env⟩
    · refine (verbatim_ensures hflow.written hsound' hready).bind fun _ d' h => ?_
      exact .pure ⟨⟨false, h.1, hext.of_nil.trans_self h.2.1, h.2.2⟩, .refl env⟩
  cases flow with
  | declare decl =>
      have htyped : E .malformed ∨ decl.names.length ≤ decl.types.length :=
        hflow.typed.imp_right fun h => h decl (by simp [Flow.parts])
      exact (decl.lower_ensures htyped hsound hready).mono fun env' d' h =>
        ⟨⟨false, h.1.1, h.1.2.1, h.1.2.2⟩, h.2⟩
  | lift decl =>
      refine (liftDecl_ensures plan decl env).mono fun env' d' h => ⟨⟨false, ?_, ?_, ?_⟩, h.2⟩
      · exact hsound.of_states h.1.1
      · exact h.1.2.of_nil
      · exact hready.of_states h.1.1
  | _ => exact hsplit

/-- The two ways to go on after a statement: in the state that was reserved for it, with a
new one in reserve, or in the same state. -/
theorem terminated_ensures {Q : Unit → Draft → Prop} {x : Lowering Unit}
    {y : Nat → Lowering Unit} {ended : Bool}
    (hstate : if ended then d.Done current else d.Ready current)
    (hended : ended = true → Ensures E d.reserve (y d.size) Q)
    (hopen : ended = false → Ensures E d x Q) :
    Ensures E d (do
      if ← Lowering.terminated current then
        let fresh ← newState
        y fresh
      else x) Q := by
  refine .terminated ?_
  cases ended with
  | true =>
      rw [show opsTerminate (d.states.getD current []) = true from hstate.terminated]
      exact .newState (hended rfl)
  | false =>
      rw [show opsTerminate (d.states.getD current []) = false from hstate.terminated]
      exact hopen rfl

/-- What lowering the statements of a block does, in the state `current` and with `cont` in
reserve: both are ended. -/
def EndsBlock (E : LowerError → Prop) (lower : Nat → Nat → StateEnv → Lowering Unit) : Prop :=
  ∀ {d : Draft} {current cont : Nat} {env : StateEnv}, d.Sound → env.Fits d.size →
    d.Ready current → d.Ready cont → current ≠ cont →
      Ensures E d (lower current cont env) fun _ d' =>
        d'.Sound ∧ Extends [current, cont] d d' ∧ d'.Done current ∧ d'.Done cont

theorem Draft.Opens.after {D : List Nat} {d d' : Draft} (h : Opens [] D d d')
    (hcurrent : current ∈ D) (hnew : ∀ q ∈ D, q = current ∨ d.size ≤ q) :
    Draft.After true current d d' :=
  ⟨h.sound, h.finish (by simp) (by simpa using hnew), h.isDone current hcurrent⟩

/-- Statements that end the first two of the open states. -/
theorem Draft.Opens.runBody {R D : List Nat} {d₀ : Draft} {start cont : Nat} {env : StateEnv}
    {body : Nat → Nat → StateEnv → Lowering Unit} (h : Opens (start :: cont :: R) D d₀ d)
    (hbody : EndsBlock E body) (henv : env.Fits d.size) (hne : start ≠ cont) (hstart : start ∉ R)
    (hcont : cont ∉ R) :
    Ensures E d (body start cont env) fun _ d' =>
      Opens R (start :: cont :: D) d₀ d' ∧ d.size ≤ d'.size := by
  refine (hbody h.sound henv (h.isReady start (by simp)) (h.isReady cont (by simp)) hne).mono ?_
  rintro _ d' ⟨hsound, hext, hdone, hdone'⟩
  exact ⟨h.runPair hstart hcont hsound hext hdone hdone', hext.size_le⟩

/-- Statements that end the only two open states end the lowering of a statement. -/
theorem Draft.Opens.body {D : List Nat} {d₀ : Draft} {start cont : Nat} {env : StateEnv}
    {body : Nat → Nat → StateEnv → Lowering Unit} (h : Opens [start, cont] D d₀ d)
    (hbody : EndsBlock E body) (henv : env.Fits d.size) (hne : start ≠ cont)
    (hcurrent : current ∈ start :: cont :: D)
    (hnew : ∀ q ∈ start :: cont :: D, q = current ∨ d₀.size ≤ q) :
    Ensures E d (body start cont env) fun _ d' => Draft.After true current d₀ d' :=
  (h.runBody hbody henv hne (by simp) (by simp)).mono fun _ _ h' => h'.1.after hcurrent hnew

theorem closeBlock_endsBlock : EndsBlock E closeBlock :=
  fun hsound henv hready hcont hne => closeBlock_ensures hsound hready hcont hne henv.next

/-- A single statement that is lowered as a block. -/
theorem lowerSingle_ensures {env : StateEnv} (hflow : Lowerable E flow.parts)
    (hlower : LowersInto E current flow.transfers lower) (hsound : d.Sound)
    (henv : env.Fits d.size) (hready : d.Ready current) :
    Ensures E d (lowerSingle plan flow lower current env) fun _ d' =>
      Draft.After true current d d' := by
  have hcurrent := hready.lt
  have h₁ := (Opens.of_ready hsound hready).reserve
  refine .newState ((stitch_ensures hflow hlower h₁.sound (henv.mono (by simp))
    (h₁.isReady current (by simp)) (by simp)).bind ?_)
  rintro env' d₂ ⟨⟨ended, hsound₂, hext₂, hstate₂⟩, hsame⟩
  have hsize : d.size + 1 ≤ d₂.size := by simpa using hext₂.size_le
  have henv' : env'.Fits d₂.size := hsame.fits (henv.mono (by omega))
  refine terminated_ensures hstate₂ ?_ ?_
  · rintro rfl
    have h₂ := (h₁.swap.run (by simp; omega) hsound₂ hext₂ hstate₂).reserve.swap
    exact h₂.body closeBlock_endsBlock (henv'.mono (by simp)) (by omega) (by simp)
      (by simp; omega)
  · rintro rfl
    have h₂ := (h₁.keep (by simp) hsound₂ hext₂ hstate₂).swap
    exact h₂.body closeBlock_endsBlock henv' (by omega) (by simp) (by simp)

/-- A statement list that is lowered as a block. -/
theorem lowerBlock_ensures {body : Nat → Nat → StateEnv → Lowering Unit} {env : StateEnv}
    (hbody : EndsBlock E body) (hsound : d.Sound) (henv : env.Fits d.size)
    (hready : d.Ready current) :
    Ensures E d (do
      let cont ← newState
      body current cont env) fun _ d' => Draft.After true current d d' := by
  have hcurrent := hready.lt
  have h := (Opens.of_ready hsound hready).reserve.swap
  exact .newState (h.body hbody (henv.mono (by simp)) (by omega) (by simp) (by simp))

end Blocks

section Statements

variable {E : LowerError → Prop} {d : Draft} {plan : Plan} {current : Nat} {env : StateEnv}
  {cond : Expr} {body : List Flow}

/-- A statement that is a single jump. -/
theorem jump_ensures {goal : Nat} (hsound : d.Sound) (hready : d.Ready current)
    (hgoal : goal < d.size) (value : Expr) :
    Ensures E d (Lowering.emit current (.jump goal value)) fun _ d' =>
      Draft.After true current d d' :=
  .emit_last (((Opens.of_ready hsound hready).jump goal (by simp) hgoal value).after (by simp)
    (by simp))

/-- A loop without a header of its own. -/
theorem lowerWhile_ensures (hbody : EndsBlock E (lowerStmts plan body)) (hsound : d.Sound)
    (henv : env.Fits d.size) (hready : d.Ready current) :
    Ensures E d ((Flow.while cond body).lower plan current env) fun _ d' =>
      Draft.After true current d d' := by
  have hnext := henv.next
  have h₂ := ((Opens.of_ready hsound hready).enter (by simp)).reserve
  refine .newState (.emit (.newState ((lowerTest_ensures cond env h₂.sound
    (h₂.isReady d.size (by simp)) (by simp) (by simp; omega)).bind ?_)))
  rintro _ d₃ ⟨hsound₃, hext₃, hdone₃⟩
  have hsize₃ : d.size + 2 ≤ d₃.size := by
    simpa only [size_append, size_reserve] using hext₃.size_le
  have h₃ := (h₂.swap.run (by simp) hsound₃ hext₃ hdone₃).reserve.swap
  refine .newState ?_
  simp only [size_append, size_reserve] at h₃ ⊢
  exact h₃.body hbody ((henv.mono (by simp; omega)).inLoop (by simp; omega)) (by omega) (by simp)
    (by simp; omega)

/-- A loop that tests after its body. -/
theorem lowerDoWhile_ensures (hbody : EndsBlock E (lowerStmts plan body)) (hsound : d.Sound)
    (henv : env.Fits d.size) (hready : d.Ready current) :
    Ensures E d ((Flow.doWhile body cond).lower plan current env) fun _ d' =>
      Draft.After true current d d' := by
  have hnext := henv.next
  have h₂ := ((Opens.of_ready hsound hready).enter (by simp)).reserve
  refine .newState (.emit (.newState ?_))
  simp only [size_append, size_reserve] at h₂ ⊢
  refine (lowerTest_ensures cond env h₂.sound (h₂.isReady _ (by simp))
    (by simp only [size_append, size_reserve]; omega)
    (by simp only [size_append, size_reserve]; omega)).bind ?_
  rintro _ d₃ ⟨hsound₃, hext₃, hdone₃⟩
  have hsize₃ : d.size + 2 ≤ d₃.size := by
    simpa only [size_append, size_reserve] using hext₃.size_le
  have h₃ := (h₂.run (by simp) hsound₃ hext₃ hdone₃).reserve.swap
  exact .newState (h₃.body hbody ((henv.mono (by simp; omega)).inLoop (by simp; omega))
    (by omega) (by simp) (by simp; omega))

/-- What lowering a loop with a header does after its first part. -/
def lowerRounds (plan : Plan) (cond : Expr) (post : Flow) (body : List Flow)
    (current exit : Nat) (env : StateEnv) : Lowering Unit := do
  let condState ← newState
  emit current (.jump condState .missing)
  let bodyState ← newState
  lowerTest condState cond bodyState exit env
  let updateState ← newState
  post.lowerPost updateState env
  emit updateState (.jump condState .missing)
  let cont ← newState
  lowerStmts plan body bodyState cont (env.inLoop updateState)

theorem Flow.lower_loop (init post : Flow) :
    (Flow.loop init cond post body).lower plan current env = (do
      let initState ← newState
      emit current (.jump initState .missing)
      let inner ← init.lowerInit initState env
      lowerRounds plan cond post body initState env.next inner) := by
  rw [Flow.lower]
  rfl

theorem lowerRounds_ensures {post : Flow} {exit : Nat}
    (hpost : post.isMissing = false → Lowerable E post.parts)
    (hbody : EndsBlock E (lowerStmts plan body)) (hsound : d.Sound) (henv : env.Fits d.size)
    (hexit : exit ≤ d.size) (hready : d.Ready current) :
    Ensures E d (lowerRounds plan cond post body current exit env) fun _ d' =>
      Draft.After true current d d' := by
  have h₁ := ((Opens.of_ready hsound hready).enter (by simp)).reserve
  refine .newState (.emit (.newState ((lowerTest_ensures cond env h₁.sound
    (h₁.isReady d.size (by simp)) (by simp) (by simp; omega)).bind ?_)))
  rintro _ d₂ ⟨hsound₂, hext₂, hdone₂⟩
  have hsize₂ : d.size + 2 ≤ d₂.size := by
    simpa only [size_append, size_reserve] using hext₂.size_le
  have h₂ := (h₁.swap.run (by simp) hsound₂ hext₂ hdone₂).reserve
  simp only [size_append, size_reserve] at h₂
  refine .newState ((Flow.lowerPost_ensures hpost h₂.sound (h₂.isReady d₂.size (by simp))).bind ?_)
  rintro _ d₃ ⟨hsound₃, hext₃, hready₃⟩
  have hsize₃ : d₂.size + 1 ≤ d₃.size := by simpa using hext₃.size_le
  have h₃ := (((h₂.keep (by simp) hsound₃ hext₃ hready₃).jump d.size (by simp; omega)
    (by omega) .missing).reserve).swap
  refine .emit (.newState ?_)
  simp only [size_append, size_reserve] at h₃ ⊢
  exact h₃.body hbody ((henv.mono (by simp; omega)).inLoop (by simp; omega)) (by omega) (by simp)
    (by simp; omega)

/-- A loop with a header. -/
theorem lowerLoop_ensures {init post : Flow}
    (hinit : init.isMissing = false → Lowerable E init.parts)
    (hpost : post.isMissing = false → Lowerable E post.parts)
    (hbody : EndsBlock E (lowerStmts plan body)) (hsound : d.Sound) (henv : env.Fits d.size)
    (hready : d.Ready current) :
    Ensures E d ((Flow.loop init cond post body).lower plan current env) fun _ d' =>
      Draft.After true current d d' := by
  have hlt := hready.lt
  have h₁ := (Opens.of_ready hsound hready).enter (by simp)
  rw [Flow.lower_loop]
  refine .newState (.emit ((Flow.lowerInit_ensures hinit h₁.sound
    (h₁.isReady d.size (by simp))).bind ?_))
  rintro inner d₂ ⟨⟨hsound₂, hext₂, hready₂⟩, hsame⟩
  have hsize₂ : d.size + 1 ≤ d₂.size := by simpa using hext₂.size_le
  have h₂ := h₁.keep (by simp) hsound₂ hext₂ hready₂
  have hnext := henv.next
  refine (lowerRounds_ensures hpost hbody hsound₂ (hsame.fits (henv.mono (by omega))) (by omega)
    hready₂).mono fun _ _ hafter => ?_
  exact (h₂.run (by simp) hafter.sound hafter.ext hafter.state).after (by simp) (by simp)

/-- A loop over an iterator. -/
theorem lowerWalk_ensures {header : Walk} (hbody : EndsBlock E (lowerStmts plan body))
    (hsound : d.Sound) (henv : env.Fits d.size) (hready : d.Ready current) :
    Ensures E d ((Flow.walk header body).lower plan current env) fun _ d' =>
      Draft.After true current d d' := by
  refine (header.lower_ensures plan hsound henv hready).bind ?_
  rintro ⟨condState, bodyState, inner⟩ d₁ ⟨hsound₁, hext₁, hdone₁, hready₁, hcond, hnew, hsame⟩
  have hlt := hready₁.lt
  have hsize := hext₁.size_le
  dsimp only at hcond hnew hsame hlt ⊢
  have h₁ : Opens [bodyState] [current] d d₁ := ⟨hsound₁,
    hext₁.shrink fun q hq => .inl (by simpa [or_comm] using hq), by simpa using hready₁,
    by simpa using hdone₁⟩
  exact .newState (h₁.reserve.swap.body hbody
    ((hsame.fits (henv.mono (by simp; omega))).inLoop (by simp; omega)) (by omega) (by simp)
    (by simp; omega))

/-- What lowering the cases of a switch does, in the states that are reserved for them. -/
def EndsCases (E : LowerError → Prop) (count : Nat)
    (lower : List Nat → StateEnv → Lowering Unit) : Prop :=
  ∀ {d : Draft} {states : List Nat} {env : StateEnv}, d.Sound → env.Fits d.size →
    (∀ q ∈ states, d.Ready q) → states.Nodup → states.length = count →
      Ensures E d (lower states env) fun _ d' =>
        d'.Sound ∧ Extends states d d' ∧ ∀ q ∈ states, d'.Done q

/-- The end of a dispatching state: by the dispatch itself if one of the cases is the default,
and by a jump otherwise. -/
theorem dispatch_ensures {x : Lowering Unit} {Q : Unit → Draft → Prop} {cs : List FlowCase}
    {arms : List Arm} {tag : Expr} {q next : Nat} (hsound : d.Sound) (hready : d.Ready q)
    (harms : ArmsLead d.size cs arms) (hnext : next < d.size)
    (h : ∀ d', d'.Sound → Extends [q] d d' → d'.Done q → Ensures E d' x Q) :
    Ensures E d (do
      Lowering.emit q (.dispatch tag arms)
      unless cs.any FlowCase.isDefault do
        Lowering.emit q (.jump next .missing)
      x) Q := by
  have hfit := opsFit_dispatch tag harms
  refine .emit ?_
  cases hdefault : cs.any FlowCase.isDefault with
  | true =>
      have hterm : (Op.dispatch tag arms).terminates = true := by
        simp only [Op.terminates, harms.default, hdefault, harms.terminate, Bool.and_self]
      exact h _ (hsound.append hfit) (.append d q _) (hready.close hterm)
  | false =>
      have hterm : (Op.dispatch tag arms).terminates = false := by
        simp only [Op.terminates, harms.default, hdefault, Bool.false_and]
      refine .emit (h _ ?_ ?_ ((hready.append hterm).jump _ _))
      · exact (hsound.append hfit).append (opsFit_jump (by simpa using hnext) .missing)
      · exact (Extends.append d q _).trans_self (.append _ q _)

theorem lowerSwitch_ensures {tag : Expr} {cs : List FlowCase}
    (hcases : EndsCases E cs.length (lowerCases plan cs)) (hsound : d.Sound)
    (henv : env.Fits d.size) (hready : d.Ready current) :
    Ensures E d ((Flow.switch tag cs).lower plan current env) fun _ d' =>
      Draft.After true current d d' := by
  have hcurrent := hready.lt
  have hnext := henv.next
  have h₁ := (Opens.of_ready hsound hready).enter (by simp)
  refine .newState (.emit ((lowerArms_ensures env h₁).bind ?_))
  rintro ⟨states, arms⟩ d₂ ⟨h₂, harms, hlength, hnodup, hstates⟩
  simp only [size_append, size_reserve] at hstates
  have hsize₂ : d.size < d₂.size := h₂.lt (by simp)
  refine dispatch_ensures h₂.sound (h₂.isReady d.size (by simp)) harms (by omega) ?_
  intro d₃ hsound₃ hext₃ hdone₃
  have hmem : d.size ∉ states := fun hmem => by
    have := hstates _ hmem
    omega
  have h₂' : Opens (d.size :: states) [current] d d₂ := h₂.congr (by simp [or_comm])
  have h₃ : Opens states [d.size, current] d d₃ := h₂'.run hmem hsound₃ hext₃ hdone₃
  refine (hcases hsound₃ ((henv.mono h₃.ext.size_le).withBreak "" ?_).clearLabels h₃.isReady
    hnodup hlength).mono ?_
  · exact Nat.lt_of_lt_of_le hnext h₃.ext.size_le
  rintro _ d' ⟨hsound', hext', hdone'⟩
  refine (h₃.runAll hsound' hext' hdone').after (by simp) fun q hq => ?_
  rcases List.mem_append.mp hq with hq | hq
  · have := hstates q hq
    omega
  · simp only [List.mem_cons, List.not_mem_nil, or_false] at hq
    omega

/-- The last operations of a conditional, which lead to both branches. -/
theorem branch_ensures {D : List Nat} {d₀ : Draft} {first second : Nat}
    (h : Opens [current] D d₀ d) (hnew : ∀ q ∈ D, d₀.size ≤ q) (hfirst : first < d.size)
    (hsecond : second < d.size) :
    Ensures E d (branch current cond first second) fun _ d' =>
      Draft.After true current d₀ d' := by
  have h' := (h.append current (.when cond [.jump first .missing]) (by simp) rfl
    (opsFit_when _ (opsFit_jump hfirst .missing))).jump second (by simp)
    (by simpa using hsecond) .missing
  exact .emit (.emit_last (h'.after (by simp) (by simpa using fun q hq => .inr (hnew q hq))))

theorem lowerIte_ensures {other : Flow} (hbody : EndsBlock E (lowerStmts plan body))
    (hother : other.isMissing = false →
      ∀ state, LowersInto E state true (other.lowerElse plan state))
    (hsound : d.Sound) (henv : env.Fits d.size) (hready : d.Ready current) :
    Ensures E d ((Flow.ite cond body other).lower plan current env) fun _ d' =>
      Draft.After true current d d' := by
  have hcurrent := hready.lt
  have hnext := henv.next
  have h₁ := (Opens.of_ready hsound hready).reserve.reserve.swap
  rw [Flow.lower_ite]
  refine .newState (.newState ?_)
  simp only [size_reserve] at h₁ ⊢
  refine (h₁.runBody hbody (henv.mono (by simp; omega)).clearLabels (by omega) (by simp; omega)
    (by simp; omega)).bind ?_
  rintro _ d₂ ⟨h₂, hsize₂⟩
  simp only [size_reserve] at hsize₂
  cases hm : other.isMissing with
  | true => exact branch_ensures h₂ (by simp) (by omega) (by omega)
  | false =>
      have h₃ := h₂.reserve
      refine .newState ((hother hm d₂.size h₃.sound (henv.mono (by simp; omega)).clearLabels
        (h₃.isReady d₂.size (by simp))).bind ?_)
      rintro _ d₄ ⟨hsound₄, hext₄, hdone₄⟩
      have hsize₄ : d₂.size + 1 ≤ d₄.size := by simpa using hext₄.size_le
      have h₄ := h₃.run (by simp; omega) hsound₄ hext₄ hdone₄
      split
      · exact branch_ensures h₄ (by simp; omega) (by omega) (by omega)
      · have h := h₄.close (by simp) (.choose (env.resolve cond) [.jump d.size .missing]
          [.jump d₂.size .missing]) rfl (opsFit_choose _ (opsFit_jump (by omega) .missing)
          (opsFit_jump (by omega) .missing))
        exact .emit_last (h.after (by simp) (by simp; omega))

end Statements

section Recursion

variable {E : LowerError → Prop} {plan : Plan}

mutual

/-- Lowering a statement leaves nothing open but the state it is lowered into. -/
theorem Flow.lower_ensures {d : Draft} {current : Nat} {env : StateEnv}
    (hE : ∀ kind label, E (.unresolved plan.holder kind label)) (flow : Flow)
    (hflow : Lowerable E flow.parts) (hsound : d.Sound) (henv : env.Fits d.size)
    (hready : d.Ready current) :
    Ensures E d (flow.lower plan current env) fun _ d' =>
      Draft.After flow.transfers current d d' := by
  cases flow with
  | missing => exact (hflow.written _ (Flow.mem_parts _)).elim
  | declare decl =>
      have htyped : E .malformed ∨ decl.names.length ≤ decl.types.length :=
        hflow.typed.imp_right fun h => h decl (by simp [Flow.parts])
      exact Ensures.discard ((decl.lower_ensures htyped hsound hready).mono fun env' d' h =>
        ⟨h.1.1, h.1.2.1, h.1.2.2⟩)
  | lift decl =>
      refine Ensures.discard ((liftDecl_ensures plan decl env).mono fun env' d' h => ?_)
      exact ⟨hsound.of_states h.1.1, h.1.2.of_nil, hready.of_states h.1.1⟩
  | simple stmt =>
      exact (verbatim_ensures hflow.written hsound hready).mono fun _ d' h => ⟨h.1, h.2.1, h.2.2⟩
  | yield value => exact jump_ensures hsound hready henv.next _
  | finish => exact jump_ensures hsound hready hsound.1 _
  | brk label =>
      simp only [Flow.lower]
      split
      · exact .throw (hE _ _)
      · rename_i goal hgoal
        exact jump_ensures hsound hready (henv.break? hgoal) _
  | cont label =>
      simp only [Flow.lower]
      split
      · exact .throw (hE _ _)
      · rename_i goal hgoal
        exact jump_ensures hsound hready (henv.continue? hgoal) _
  | labeled label stmt =>
      refine stmt.lower_ensures hE (hflow.mono ?_) hsound
        ((henv.withLabel label).withBreak label henv.next) hready
      exact fun s hs => by simp [Flow.parts, hs]
  | block body =>
      have hbody : EndsBlock E (lowerStmts plan body) :=
        lowerStmts_endsBlock hE body (hflow.mono fun s hs => by simp [Flow.parts, hs])
      exact lowerBlock_ensures hbody hsound henv hready
  | «while» cond body =>
      have hbody : EndsBlock E (lowerStmts plan body) :=
        lowerStmts_endsBlock hE body (hflow.mono fun s hs => by simp [Flow.parts, hs])
      exact lowerWhile_ensures hbody hsound henv hready
  | doWhile body cond =>
      have hbody : EndsBlock E (lowerStmts plan body) :=
        lowerStmts_endsBlock hE body (hflow.mono fun s hs => by simp [Flow.parts, hs])
      exact lowerDoWhile_ensures hbody hsound henv hready
  | loop init cond post body =>
      have hbody : EndsBlock E (lowerStmts plan body) :=
        lowerStmts_endsBlock hE body (hflow.mono fun s hs => by simp [Flow.parts, hs])
      refine lowerLoop_ensures (fun hm => hflow.mono fun s hs => ?_)
        (fun hm => hflow.mono fun s hs => ?_) hbody hsound henv hready
      · simp [Flow.parts, hm, hs]
      · simp [Flow.parts, hm, hs]
  | walk header body =>
      have hbody : EndsBlock E (lowerStmts plan body) :=
        lowerStmts_endsBlock hE body (hflow.mono fun s hs => by simp [Flow.parts, hs])
      exact lowerWalk_ensures hbody hsound henv hready
  | switch tag cases =>
      exact lowerSwitch_ensures (lowerCases_endsCases hE cases (hflow.mono fun s hs => by
        simp [Flow.parts, hs])) hsound henv hready
  | ite cond body other =>
      have hbody : EndsBlock E (lowerStmts plan body) :=
        lowerStmts_endsBlock hE body (hflow.mono fun s hs => by simp [Flow.parts, hs])
      have hother : other.isMissing = false → Lowerable E other.parts := fun hm =>
        hflow.mono fun s hs => by simp [Flow.parts, hm, hs]
      refine lowerIte_ensures hbody (fun hm state _ _ hsound henv hready => ?_) hsound henv hready
      cases other with
      | missing => cases hm
      | block otherBody =>
          have hotherBody : EndsBlock E (lowerStmts plan otherBody) :=
            lowerStmts_endsBlock hE otherBody ((hother hm).mono fun s hs => by
              simp [Flow.parts, hs])
          exact lowerBlock_ensures hotherBody hsound henv hready
      | _ =>
          rw [Flow.lowerElse_single rfl]
          exact lowerSingle_ensures (hother hm)
            (fun hsound => Flow.lower_ensures hE _ (hother hm) hsound) hsound henv hready

theorem lowerStmts_endsBlock (hE : ∀ kind label, E (.unresolved plan.holder kind label))
    (fs : List Flow) (hflow : Lowerable E (flowsParts fs)) :
    EndsBlock E (lowerStmts plan fs) := by
  intro d current cont env hsound henv hready hcont hne
  cases fs with
  | nil => exact closeBlock_endsBlock hsound henv hready hcont hne
  | cons f fs =>
      have hlt' := hcont.lt
      have hhead : Lowerable E f.parts := hflow.mono fun s hs => by simp [flowsParts, hs]
      have htail : EndsBlock E (lowerStmts plan fs) :=
        lowerStmts_endsBlock hE fs (hflow.mono fun s hs => by simp [flowsParts, hs])
      have h₁ := Opens.start (R := [current, cont]) hsound (by simpa using ⟨hready, hcont⟩)
      refine (stitch_ensures hhead (fun hsound => f.lower_ensures hE hhead hsound) hsound henv
        hready hcont.lt).bind ?_
      rintro env' d₂ ⟨⟨ended, hsound₂, hext₂, hstate₂⟩, hsame⟩
      have hsize := hext₂.size_le
      have henv₂ := hsame.fits (henv.mono hsize)
      refine terminated_ensures hstate₂ ?_ ?_
      · rintro rfl
        have h₂ := (h₁.run (by simpa using hne) hsound₂ hext₂ hstate₂).reserve.swap
        refine (h₂.runBody htail (henv₂.mono (by simp)) (by omega) (by simp) (by simp)).mono ?_
        rintro _ d' ⟨h, -⟩
        exact ⟨h.sound, h.finish (by simp) (by simp; omega), h.isDone current (by simp),
          h.isDone cont (by simp)⟩
      · rintro rfl
        have h₂ := h₁.keep (by simp) hsound₂ hext₂ hstate₂
        refine (h₂.runBody htail henv₂ hne (by simp) (by simp)).mono ?_
        rintro _ d' ⟨h, -⟩
        exact ⟨h.sound, h.finish (by simp) (by simp), h.isDone current (by simp),
          h.isDone cont (by simp)⟩

theorem lowerCases_endsCases (hE : ∀ kind label, E (.unresolved plan.holder kind label))
    (cases' : List FlowCase) (hflow : Lowerable E (casesParts cases')) :
    EndsCases E cases'.length (lowerCases plan cases') := by
  intro d states env hsound henv hready hnodup hlength
  cases cases' with
  | nil =>
      obtain rfl : states = [] := List.length_eq_zero_iff.mp hlength
      exact .pure ⟨hsound, .refl d, by simp⟩
  | cons c cs =>
      cases states with
      | nil => simp at hlength
      | cons state states =>
          have hhead : Lowerable E c.parts := hflow.mono fun s hs => by simp [casesParts, hs]
          have htail : Lowerable E (casesParts cs) :=
            hflow.mono fun s hs => by simp [casesParts, hs]
          obtain ⟨hstate, hstates⟩ := List.forall_mem_cons.mp hready
          obtain ⟨hfresh, hnodup⟩ := List.nodup_cons.mp hnodup
          have hstep : ∀ env', StateEnv.Fits d.size env' → Ensures E d (do
              c.lower plan state env'
              lowerCases plan cs states env) fun _ d' =>
                d'.Sound ∧ Extends (state :: states) d d' ∧ ∀ q ∈ state :: states, d'.Done q := by
            intro env' henv'
            refine (c.lower_ensures hE hhead hsound henv' hstate).bind ?_
            rintro _ d₁ ⟨hsound₁, hext₁, hdone₁⟩
            refine (lowerCases_endsCases hE cs htail hsound₁ (henv.mono hext₁.size_le)
              (fun q hq => hext₁.ready ?_ (hstates q hq)) hnodup (by simpa using hlength)).mono ?_
            · rintro hmem
              obtain rfl : q = state := by simpa using hmem
              exact hfresh hq
            · rintro _ d' ⟨hsound', hext', hdone'⟩
              exact ⟨hsound', hext₁.trans hext', List.forall_mem_cons.mpr
                ⟨hext'.done hfresh hdone₁, hdone'⟩⟩
          cases states with
          | nil => exact hstep env henv
          | cons next states =>
              exact hstep (env.withNext next) (henv.withNext (hstates next (by simp)).lt)

theorem FlowCase.lower_ensures {d : Draft} {current : Nat} {env : StateEnv}
    (hE : ∀ kind label, E (.unresolved plan.holder kind label)) (c : FlowCase)
    (hflow : Lowerable E c.parts) (hsound : d.Sound) (henv : env.Fits d.size)
    (hready : d.Ready current) :
    Ensures E d (c.lower plan current env) fun _ d' => Draft.After true current d d' := by
  cases c with
  | case values body =>
      have hbody : EndsBlock E (lowerStmts plan body) := lowerStmts_endsBlock hE body hflow
      exact lowerBlock_ensures hbody hsound henv hready
  | default body =>
      have hbody : EndsBlock E (lowerStmts plan body) := lowerStmts_endsBlock hE body hflow
      exact lowerBlock_ensures hbody hsound henv hready

end

end Recursion

end YieldMachine
