import YieldMachine.Proofs.Simulation.Switches

/-!
# Blocks in a table

Statements of a block are lowered one after the other.  A statement that ends its state goes on
in the state that was reserved for what follows; any other one goes on in the same state.
-/

namespace YieldMachine

open Lowering Behaviour

/-- Where the lowering of a statement stands: `current` takes further operations, the targets
of the context are states, and the variables in scope have their fields. -/
structure Setting.Stands (S : Setting) (g : Ground) (p : Place) (env : StateEnv) (d : Draft)
    (current : Nat) : Prop where
  sound : d.Sound
  targets : StateEnv.Fits d.size env
  ready : d.Ready current
  fits : g.Fits (p.scopes.visible S.session.runtime) env d
  fields : g.fields = S.fields

namespace Setting.Stands

variable {S : Setting} {g : Ground} {p : Place} {env env' : StateEnv} {d d' : Draft}
  {current : Nat}

/-- In a new scope. -/
theorem push (h : S.Stands g p env d current) : S.Stands g.push p.inner env d current where
  sound := h.sound
  targets := h.targets
  ready := h.ready
  fits := h.fits.push.mono rfl (List.suffix_refl _) fun _ hx => hx
  fields := h.fields

/-- With one more state. -/
theorem reserve (h : S.Stands g p env d current) : S.Stands g p env d.reserve current where
  sound := h.sound.reserve
  targets := h.targets.mono (by simp)
  ready := (Draft.Extends.reserve d).ready (by simpa using Nat.ne_of_lt h.ready.lt) h.ready
  fits := h.fits.mono rfl (List.suffix_refl _) fun _ hx => hx
  fields := h.fields

/-- In the state that is reserved last. -/
theorem inNew (h : S.Stands g p env d current) : S.Stands g p env d.reserve d.size where
  sound := h.sound.reserve
  targets := h.targets.mono (by simp)
  ready := d.ready_reserve
  fits := h.fits.mono rfl (List.suffix_refl _) fun _ hx => hx
  fields := h.fields

/-- In a context with other targets. -/
theorem withTargets (h : S.Stands g p env d current) (htargets : StateEnv.Fits d.size env')
    (hrenames : env'.renames = env.renames) : S.Stands g p env' d current where
  sound := h.sound
  targets := htargets
  ready := h.ready
  fits := h.fits.mono hrenames (List.suffix_refl _) fun _ hx => hx
  fields := h.fields

theorem clearLabels (h : S.Stands g p env d current) : S.Stands g p env.clearLabels d current :=
  h.withTargets h.targets.clearLabels rfl

/-- At a place with the same scopes. -/
theorem withScopes {p' : Place} (h : S.Stands g p env d current) (hp : p'.scopes = p.scopes) :
    S.Stands g p' env d current where
  sound := h.sound
  targets := h.targets
  ready := h.ready
  fits := by
    rw [hp]
    exact h.fits
  fields := h.fields

/-- After something else was lowered. -/
theorem of_extends {A : List Nat} {q : Nat} (h : S.Stands g p env d current) (hsound : d'.Sound)
    (hext : Draft.Extends A d d') (hready : d'.Ready q) : S.Stands g p env d' q where
  sound := hsound
  targets := h.targets.mono hext.size_le
  ready := hready
  fits := h.fits.mono rfl hext.used fun _ hx => hx
  fields := h.fields

end Setting.Stands

/-- In the body of a loop. -/
theorem Setting.Stands.inLoop {S : Setting} {g : Ground} {p : Place} {env : StateEnv} {d : Draft}
    {current target : Nat} (h : S.Stands g p env d current) (htarget : target < d.size) :
    S.Stands g p.inLoop (env.inLoop target) d current :=
  (h.withTargets (h.targets.inLoop htarget) (env.renames_inLoop target)).withScopes rfl

/-- Where the statements after a statement of a block stand. -/
def Place.following (p : Place) : Flow → Place
  | .declare d => p.declare d.fresh
  | _ => p

theorem flowsRegular_cons {p : Place} {f : Flow} {fs : List Flow} (h : flowsRegular p (f :: fs)) :
    f.Regular p ∧ flowsRegular (p.following f) fs := by
  cases f <;> exact h

theorem flowsPlain_cons {runtime : String} {p : Place} {f : Flow} {fs : List Flow}
    (h : flowsPlain runtime p.scopes (f :: fs)) :
    f.Plain runtime p.scopes ∧ flowsPlain runtime (p.following f).scopes fs := by
  cases f <;> exact h

section Statements

variable {S : Setting} {plan : Plan} {g : Ground} {p : Place} {env env' : StateEnv} {d d' : Draft}
  {current cont : Nat} {flow : Flow}

/-- Whether the table runs a statement at a place as it was lowered there, wherever that is. -/
def Flow.Lowered (S : Setting) (plan : Plan) (p : Place) (flow : Flow) : Prop :=
  ∀ ⦃g : Ground⦄ ⦃env : StateEnv⦄ ⦃d d' : Draft⦄ ⦃current : Nat⦄, S.Stands g p env d current →
    flow.lower plan current env d = .ok ((), d') → d'.Within S.states S.fields →
    S.Runs env flow.transfers (Linked g []) (Linked g []) (Linked g [])
      (flow.exec S.session S.turns env.labels) (S.resume current (d.ops current).length)
      (S.proceed flow.transfers d' current env.next)

/-- What lowering a regular statement has done to the draft. -/
theorem Flow.lower_after (hreg : flow.Regular p) (hstands : S.Stands g p env d current)
    (hlow : flow.lower plan current env d = .ok ((), d')) :
    Draft.After flow.transfers current d d' :=
  (flow.lower_ensures (E := fun _ => True) (fun _ _ => trivial)
    (.of_parts _ (flow.regular_parts hreg)) hstands.sound hstands.targets hstands.ready).ok hlow

/-- A statement that is copied into a state. -/
theorem verbatim_runs (hS : S.Ready) (hreg : flow.Regular p)
    (hplain : flow.Plain S.session.runtime p.scopes) (hflow : flow.modifiesControlFlow = false)
    (hdecl : flow.isDeclare = false) (hstands : S.Stands g p env d current)
    (hlow : verbatim flow current env d = .ok ((), d')) (hwithin : d'.Within S.states S.fields)
    (leave : Bool) {exit : Memory → Memory → Prop} :
    S.Runs env leave (Linked g []) (Linked g []) exit (flow.exec S.session S.turns [])
      (S.resume current (d.ops current).length) (S.resume current (d'.ops current).length) :=
  fun _ _ _ _ hnormal _ _ hm => verbatim_simulated hS hreg hplain hflow hdecl hstands.fits.resolves
    hlow hstands.ready.lt hwithin hnormal hm

/-- What one statement of a block does to the draft, and what the table does for it. -/
structure Stitched (S : Setting) (g : Ground) (p : Place) (flow : Flow) (env env' : StateEnv)
    (d d' : Draft) (current cont : Nat) (g' : Ground) (ended : Bool) : Prop where
  after : Draft.After ended current d d'
  same : env.SameTargets env'
  fits : g'.Fits ((p.following flow).scopes.visible S.session.runtime) env' d'
  pop : g'.pop = g.pop
  runs : S.Runs env true (Linked g []) (Linked g' []) g.Left (flow.exec S.session S.turns [])
    (S.resume current (d.ops current).length) (S.proceed ended d' current cont)

/-- A statement of a block that is no declaration. -/
theorem stitch_statement (hdecl : flow.isDeclare = false) (hreg : flow.Regular p) :
    stitch plan flow (fun child => flow.lower plan current child) current cont env = (do
      let number ← reach
      if plan.split number flow then flow.lower plan current (env.withNext cont).clearLabels
        else verbatim flow current (env.withNext cont).clearLabels
      pure env) := by
  cases flow with
  | declare decl => cases hdecl
  | lift decl => exact hreg.elim
  | _ => rfl

/-- One statement of a block. -/
theorem stitch_runs (hS : S.Ready)
    (hsplit : ∀ n s, s.modifiesControlFlow = true → plan.split n s = true)
    (hreg : flow.Regular p) (hplain : flow.Plain S.session.runtime p.scopes)
    (hlowered : flow.isDeclare = false → flow.Lowered S plan p)
    (hstands : S.Stands g p env d current) (hcont : cont < d.size)
    (hlow : stitch plan flow (fun child => flow.lower plan current child) current cont env d =
      .ok (env', d')) (hwithin : d'.Within S.states S.fields) :
    ∃ g' ended, Stitched S g p flow env env' d d' current cont g' ended := by
  cases hdecl : flow.isDeclare with
  | true =>
      obtain ⟨decl, rfl⟩ : ∃ decl, flow = .declare decl := by
        cases flow <;> first | exact ⟨_, rfl⟩ | cases hdecl
      have hafter := ((decl.lower_ensures (E := fun _ => True) (.inl trivial) hstands.sound
        hstands.ready).ok hlow)
      obtain ⟨g', hfits', hpop, hrun⟩ := decl.lower_simulated hS hreg hplain hlow
        hstands.ready.lt hwithin hstands.fits hstands.fields
      refine ⟨g', false, ⟨hafter.1.1, hafter.1.2.1, hafter.1.2.2⟩, hafter.2, hfits', hpop, ?_⟩
      intro rounds K hle hexits hnormal m mt hm
      have hrun := hrun (f := fun _ m => K .normal m) hnormal hm
      rw [Flow.exec]
      refine (congrArg (S.Sim rounds · _) ?_).mp hrun
      show _ = (Course.bind (Course.ofResult (decl.run S.session m)) _).bind K
      cases decl.run S.session m <;> rfl
  | false =>
      rw [stitch_statement hdecl hreg, bind_ok] at hlow
      obtain ⟨number, d₁, hreach, hlow⟩ := hlow
      obtain ⟨rfl, rfl⟩ : d.reached = number ∧ { d with reached := d.reached + 1 } = d₁ := by
        cases hreach
        exact ⟨rfl, rfl⟩
      have hext : Draft.Extends [] d { d with reached := d.reached + 1 } :=
        .of_states rfl (List.prefix_refl _) (List.suffix_refl _)
      have hreached : S.Stands g p env { d with reached := d.reached + 1 } current :=
        hstands.of_extends (hstands.sound.of_states rfl) hext (hstands.ready.of_states rfl)
      have hchild := hreached.withTargets (hstands.targets.withNext hcont).clearLabels rfl
      have hplace : p.following flow = p := by
        cases flow <;> first | rfl | cases hdecl
      have hfits : ∀ {d₂ ended},
          Draft.After ended current { d with reached := d.reached + 1 } d₂ →
          g.Fits ((p.following flow).scopes.visible S.session.runtime) env d₂ := by
        intro d₂ ended hafter
        rw [hplace]
        exact hstands.fits.mono rfl hafter.ext.used fun _ hx => hx
      split at hlow <;> rw [bind_ok] at hlow <;> obtain ⟨⟨⟩, d₂, hlow, hpure⟩ := hlow <;>
        obtain ⟨rfl, rfl⟩ := pure_ok.mp hpure
      · have hafter := Flow.lower_after hreg hchild hlow
        refine ⟨g, flow.transfers, ⟨hafter.sound, hext.of_nil.trans_self hafter.ext,
          hafter.state⟩, .refl env, hfits hafter, rfl, ?_⟩
        intro rounds K hle hexits hnormal m mt hm
        exact hlowered hdecl hchild hlow hwithin hle
          (fun _ => ((hexits rfl).mono (Nat.le_refl _) fun _ _ h => h.left).congr rfl rfl)
          hnormal hm
      · rename_i hverbatim
        have hflow : flow.modifiesControlFlow = false := by
          by_contra hmod
          exact hverbatim (hsplit _ _ (by simpa using hmod))
        have hafter : Draft.After false current { d with reached := d.reached + 1 } d₂ := by
          have h := (verbatim_ensures (E := fun _ => True)
            (fun s hs => (flow.regular_parts hreg s hs).1) hchild.sound hchild.ready).ok hlow
          exact ⟨h.1, h.2.1, h.2.2⟩
        refine ⟨g, false, ⟨hafter.sound, hext.of_nil.trans_self hafter.ext, hafter.state⟩,
          .refl env, hfits hafter, rfl, ?_⟩
        exact (verbatim_runs hS hreg hplain hflow hdecl hchild hlow hwithin true).congr rfl rfl

/-- How lowering goes on after a statement of a block. -/
theorem terminated_ok {x : Lowering Unit} {y : Nat → Lowering Unit} {ended : Bool}
    (hstate : if ended then d.Done current else d.Ready current)
    (h : (do
      if ← Lowering.terminated current then
        let fresh ← newState
        y fresh
      else x : Lowering Unit) d = .ok ((), d')) :
    if ended then y d.size d.reserve = .ok ((), d') else x d = .ok ((), d') := by
  rw [bind_ok] at h
  obtain ⟨b, d₁, hterm, h⟩ := h
  obtain ⟨rfl, rfl⟩ : opsTerminate (d.states.getD current []) = b ∧ d = d₁ := by
    cases hterm
    exact ⟨rfl, rfl⟩
  cases ended with
  | true =>
      rw [show opsTerminate (d.states.getD current []) = true from hstate.terminated] at h
      exact h
  | false =>
      rw [show opsTerminate (d.states.getD current []) = false from hstate.terminated] at h
      exact h

end Statements

section Lists

variable {S : Setting} {plan : Plan} {g : Ground} {p : Place} {env : StateEnv} {d d' : Draft}
  {current : Nat} {f : Flow} {fs : List Flow}

/-- Whether the table runs a statement list at a place as it was lowered there. -/
def FlowsLowered (S : Setting) (plan : Plan) (p : Place) (fs : List Flow) : Prop :=
  ∀ ⦃g : Ground⦄ ⦃env : StateEnv⦄ ⦃d d' : Draft⦄ ⦃current cont : Nat⦄,
    S.Stands g p env d current → d.Ready cont → current ≠ cont → d.ops cont = [] →
    lowerStmts plan fs current cont env d = .ok ((), d') → d'.Within S.states S.fields →
    S.Runs env true (Linked g []) g.Left g.Left (execFlows S.session S.turns fs)
      (S.resume current (d.ops current).length) (S.enter env.next)

theorem nil_lowered (hS : S.Ready) : FlowsLowered S plan p [] := by
  intro g env d d' current cont hstands _ _ _ hlow hwithin rounds K hle hexits hnormal m mt hm
  rw [lowerStmts] at hlow
  exact closeBlock_simulated hS hstands.ready hlow hwithin (hnormal m mt hm.left)

theorem flows_endsBlock (hreg : flowsRegular p fs) :
    EndsBlock (fun _ => True) (lowerStmts plan fs) :=
  lowerStmts_endsBlock (fun _ _ => trivial) fs (.of_parts _ (flows_regular_parts fs hreg))

/-- What a successful lowering of statements has done to the draft. -/
theorem lowerStmts_after {cont : Nat} (hreg : flowsRegular p fs) (hsound : d.Sound)
    (htargets : StateEnv.Fits d.size env) (hready : d.Ready current) (hcont : d.Ready cont)
    (hne : current ≠ cont) (hlow : lowerStmts plan fs current cont env d = .ok ((), d')) :
    d'.Sound ∧ Draft.Extends [current, cont] d d' ∧ d'.Done current ∧ d'.Done cont :=
  (flows_endsBlock hreg hsound htargets hready hcont hne).ok hlow

/-- Where lowering goes on after a statement of a block. -/
theorem following_within {cont : Nat} {env' : StateEnv} {d₁ : Draft} {ended : Bool}
    (hreg : flowsRegular p fs) (hafter : Draft.After ended current d d₁)
    (hsame : env.SameTargets env') (htargets : StateEnv.Fits d.size env) (hcont : d.Ready cont)
    (hne : current ≠ cont)
    (hlow : if ended then lowerStmts plan fs cont d₁.size env' d₁.reserve = .ok ((), d')
      else lowerStmts plan fs current cont env' d₁ = .ok ((), d'))
    (hwithin : d'.Within S.states S.fields) : d₁.Within S.states S.fields := by
  have htargets₁ : StateEnv.Fits d₁.size env' :=
    hsame.fits (htargets.mono hafter.ext.size_le)
  have hcont₁ : d₁.Ready cont := hafter.ext.ready (by simpa using Ne.symm hne) hcont
  cases ended with
  | false =>
      exact hwithin.of_extends
        (lowerStmts_after hreg hafter.sound htargets₁ hafter.state hcont₁ hne hlow).2.1
  | true =>
      have hready : d₁.reserve.Ready cont := (Draft.Extends.reserve d₁).ready
        (by simpa using Nat.ne_of_lt hcont₁.lt) hcont₁
      exact (hwithin.of_extends (lowerStmts_after hreg hafter.sound.reserve
        (htargets₁.mono (by simp)) hready d₁.ready_reserve (Nat.ne_of_lt hcont₁.lt)
        hlow).2.1).of_reserve

theorem cons_lowered (hS : S.Ready)
    (hsplit : ∀ n s, s.modifiesControlFlow = true → plan.split n s = true)
    (hreg : flowsRegular p (f :: fs)) (hplain : flowsPlain S.session.runtime p.scopes (f :: fs))
    (hf : f.isDeclare = false → f.Lowered S plan p)
    (hfs : FlowsLowered S plan (p.following f) fs) : FlowsLowered S plan p (f :: fs) := by
  intro g env d d' current cont hstands hcont hne hempty hlow hwithin
  obtain ⟨hregf, hregfs⟩ := flowsRegular_cons hreg
  rw [lowerStmts, bind_ok] at hlow
  obtain ⟨env', d₁, hstitch, hlow⟩ := hlow
  have hwithin₁ : d₁.Within S.states S.fields := by
    obtain ⟨⟨ended, hafter⟩, hsame⟩ := (stitch_ensures (E := fun _ => True)
      (.of_parts _ (f.regular_parts hregf))
      (fun hsound => f.lower_ensures (fun _ _ => trivial) (.of_parts _ (f.regular_parts hregf))
        hsound)
      hstands.sound hstands.targets hstands.ready hcont.lt).ok hstitch
    exact following_within hregfs hafter hsame hstands.targets hcont hne
      (terminated_ok hafter.state hlow) hwithin
  obtain ⟨g', ended, hst⟩ := stitch_runs hS hsplit hregf (flowsPlain_cons hplain).1 hf hstands
    hcont.lt hstitch hwithin₁
  have hlow := terminated_ok hst.after.state hlow
  have hcont₁ : d₁.Ready cont := hst.after.ext.ready (by simpa using Ne.symm hne) hcont
  have hops₁ : d₁.ops cont = [] := by
    rw [hst.after.ext.ops_kept (by simpa using Ne.symm hne) hcont.lt, hempty]
  have hfields : g'.fields = S.fields := (Ground.fields_of_pop hst.pop).trans hstands.fields
  have hleft : g'.Left = g.Left := Ground.left_congr hst.pop
  have htargets : StateEnv.Fits d₁.size env' :=
    hst.same.fits (hstands.targets.mono hst.after.ext.size_le)
  -- the statements that follow, in the state where lowering goes on
  have hrest : S.Runs env true (Linked g' []) g.Left g.Left (execFlows S.session S.turns fs)
      (S.proceed ended d₁ current cont) (S.enter env.next) := by
    cases ended with
    | false =>
        have hruns := hfs ⟨hst.after.sound, htargets, hst.after.state, hst.fits, hfields⟩ hcont₁
          hne hops₁ hlow hwithin
        rw [hleft, hst.same.1] at hruns
        exact hruns.congr hst.same.2.1.symm hst.same.2.2.1.symm
    | true =>
        have hstands₁ : S.Stands g' (p.following f) env' d₁ cont :=
          ⟨hst.after.sound, htargets, hcont₁, hst.fits, hfields⟩
        have hruns := hfs hstands₁.reserve d₁.ready_reserve (Nat.ne_of_lt hcont₁.lt)
          (Draft.ops_new _) hlow hwithin
        rw [hleft, hst.same.1, Draft.ops_reserve, hops₁] at hruns
        exact (hruns.congr hst.same.2.1.symm hst.same.2.2.1.symm).enter
          (Nat.lt_of_lt_of_le hcont₁.lt hwithin₁.size)
  rw [execFlows]
  exact hst.runs.seq hrest

/-- What lowering a block has done to the draft. -/
theorem block_after (hreg : flowsRegular p fs) (hsound : d.Sound)
    (htargets : StateEnv.Fits d.size env) (hready : d.Ready current)
    (hlow : (do
      let cont ← newState
      lowerStmts plan fs current cont env : Lowering Unit) d = .ok ((), d')) :
    Draft.After true current d d' :=
  (lowerBlock_ensures (flows_endsBlock hreg) hsound htargets hready).ok hlow

/-- A statement list in a scope of its own. -/
theorem FlowsLowered.block (h : FlowsLowered S plan p.inner fs)
    (hstands : S.Stands g p env d current)
    (hlow : (do
      let cont ← newState
      lowerStmts plan fs current cont env : Lowering Unit) d = .ok ((), d'))
    (hwithin : d'.Within S.states S.fields) :
    S.Runs env true (Linked g []) (Linked g []) (Linked g [])
      (Action.inScope (execFlows S.session S.turns fs))
      (S.resume current (d.ops current).length) (S.enter env.next) := by
  have hruns := h hstands.push.reserve d.ready_reserve (Nat.ne_of_lt hstands.ready.lt)
    (Draft.ops_new _) hlow hwithin
  rw [Draft.ops_reserve] at hruns
  exact hruns.inScope

/-- A statement list in a scope and a state of its own. -/
theorem FlowsLowered.enter {q : Nat} (h : FlowsLowered S plan p.inner fs)
    (hreg : flowsRegular p.inner fs) (hstands : S.Stands g p env d q) (hempty : d.ops q = [])
    (hlow : (do
      let cont ← newState
      lowerStmts plan fs q cont env : Lowering Unit) d = .ok ((), d'))
    (hwithin : d'.Within S.states S.fields) :
    S.Runs env true (Linked g []) (Linked g []) (Linked g [])
      (Action.inScope (execFlows S.session S.turns fs)) (S.enter q) (S.enter env.next) := by
  have hruns := h.block hstands hlow hwithin
  rw [hempty] at hruns
  have hsize := (block_after hreg hstands.sound hstands.targets hstands.ready hlow).ext.size_le
  exact hruns.enter (Nat.lt_of_lt_of_le hstands.ready.lt (hsize.trans hwithin.size))

end Lists

end YieldMachine
