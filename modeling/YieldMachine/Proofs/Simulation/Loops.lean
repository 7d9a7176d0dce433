import YieldMachine.Proofs.Simulation.Branches

/-!
# Loops in a table

The table runs the four kinds of loops as they were lowered, provided that it runs their
bodies.  Each loop has a condition state, to which the body leads back.
-/

namespace YieldMachine

open Lowering Behaviour Draft

section Loops

variable {S : Setting} {plan : Plan} {p : Place} {cond : Expr} {body : List Flow}

theorem Setting.resume_eq_enter (hS : S.Ready) {d : Draft} {q goal : Nat} (hq : q < d.size)
    (hwithin : (d.append q (.jump goal .missing)).Within S.states S.fields) :
    S.resume q (d.ops q).length = S.enter goal :=
  funext fun _ => Setting.resume_jump hS hq hwithin

/-- A loop without a header of its own. -/
theorem while_lowered (hS : S.Ready) (hreg : (Flow.while cond body).Regular p)
    (hplain : (Flow.while cond body).Plain S.session.runtime p.scopes)
    (hbody : FlowsLowered S plan p.inLoop.inner body) :
    (Flow.while cond body).Lowered S plan p := by
  intro g env d d' current hstands hlow hwithin
  have hlt := hstands.ready.lt
  have hnext := hstands.targets.next
  rw [Flow.lower, newState_bind, emit_bind, newState_bind, bind_ok] at hlow
  obtain ⟨⟨⟩, d₃, htest, hlow⟩ := hlow
  have h₂ := ((Opens.of_ready hstands.sound hstands.ready).enter (by simp)).reserve
  obtain ⟨hsound₃, hext₃, hdone₃⟩ := (lowerTest_ensures (E := fun _ => True) cond env h₂.sound
    (h₂.isReady d.size (by simp)) (by simp) (by simp; omega)).ok htest
  have h₃ := h₂.swap.run (by simp) hsound₃ hext₃ hdone₃
  simp only [size_append, size_reserve] at h₃ hlow htest
  have hsize₃ := hext₃.size_le
  simp only [size_append, size_reserve] at hsize₃
  have hstands₃ : S.Stands g p env d₃ (d.size + 1) :=
    hstands.of_extends h₃.sound h₃.ext (h₃.isReady _ (by simp))
  have hinner := hstands₃.inLoop (by omega : d.size < d₃.size)
  have hwithin₃ := hwithin.of_extends (block_after hreg hinner.sound hinner.targets
    hinner.ready hlow).ext
  have hops₂ : ∀ q, d.size ≤ q →
      (d.reserve.append current (.jump d.size .missing)).reserve.ops q = [] := by
    intro q hq
    rw [ops_reserve, ops_entered hlt hq]
  have hempty : d₃.ops (d.size + 1) = [] := by
    rw [hext₃.ops_kept (by simp) (by simp), hops₂ _ (by omega)]
  have hruns := hbody.enter hreg hinner hempty hlow hwithin
  rw [← d.ops_reserve, Setting.resume_eq_enter hS (by simp; omega)
    (hwithin₃.of_extends hext₃).of_reserve, Flow.exec]
  intro rounds K hle hexits hnormal m mt hm
  refine rounds_runs (pure ()) (S.enter (d.size + 1))
    (Nat.lt_of_lt_of_le (by omega) hwithin₃.size) (fun mt => ?_)
    (condition_sync hstands.fits.resolves hS.recv rfl hplain.1) hruns
    (fun h _ _ hm => h _ _ hm) S.turns (Nat.le_refl _) hle (hexits rfl) hnormal hm
  rw [lowerTest_resume hS hstands.fits.resolves htest
    (by simp only [size_append, size_reserve]; omega)
    (hops₂ _ (Nat.le_refl _)) hwithin₃]
  exact after_congr _ (fun b m => by cases b <;> rfl) mt

theorem condition_eq_asBool (s : Session) (cond : Expr) :
    ((if cond.isMissing then pure (Value.bool true) else evaluate s cond) >>= fun value =>
      onHeap fun _ => value.asBool) = condition s cond := by
  rw [condition_eq]
  cases cond.isMissing with
  | true => rfl
  | false =>
      funext m
      simp only [Bool.false_eq_true, if_false, evaluate, eff_bind_apply, onHeap]
      cases cond.eval s m.view m.heap <;> rfl

/-- A loop that tests after its body. -/
theorem doWhile_lowered (hS : S.Ready) (hreg : (Flow.doWhile body cond).Regular p)
    (hplain : (Flow.doWhile body cond).Plain S.session.runtime p.scopes)
    (hbody : FlowsLowered S plan p.inLoop.inner body) :
    (Flow.doWhile body cond).Lowered S plan p := by
  intro g env d d' current hstands hlow hwithin
  have hlt := hstands.ready.lt
  have hnext := hstands.targets.next
  rw [Flow.lower, newState_bind, emit_bind, newState_bind, bind_ok] at hlow
  obtain ⟨⟨⟩, d₃, htest, hlow⟩ := hlow
  have h₂ := ((Opens.of_ready hstands.sound hstands.ready).enter (by simp)).reserve
  simp only [size_append, size_reserve] at h₂ hlow htest
  obtain ⟨hsound₃, hext₃, hdone₃⟩ := (lowerTest_ensures (E := fun _ => True) cond env h₂.sound
    (h₂.isReady (d.size + 1) (by simp)) (by simp only [size_append, size_reserve]; omega)
    (by simp only [size_append, size_reserve]; omega)).ok htest
  have h₃ := h₂.run (by simp) hsound₃ hext₃ hdone₃
  have hsize₃ := hext₃.size_le
  simp only [size_append, size_reserve] at hsize₃
  have hstands₃ : S.Stands g p env d₃ d.size :=
    hstands.of_extends h₃.sound h₃.ext (h₃.isReady _ (by simp))
  have hinner := hstands₃.inLoop (by omega : d.size + 1 < d₃.size)
  have hwithin₃ := hwithin.of_extends (block_after hreg hinner.sound hinner.targets
    hinner.ready hlow).ext
  have hops₂ : ∀ q, d.size ≤ q →
      (d.reserve.append current (.jump d.size .missing)).reserve.ops q = [] := by
    intro q hq
    rw [ops_reserve, ops_entered hlt hq]
  have hempty : d₃.ops d.size = [] := by
    rw [hext₃.ops_kept (by simp) (by simp only [size_append, size_reserve]; omega),
      hops₂ _ (by omega)]
  have hruns := hbody.enter hreg hinner hempty hlow hwithin
  rw [← d.ops_reserve, Setting.resume_eq_enter hS (by simp; omega)
    (hwithin₃.of_extends hext₃).of_reserve, Flow.exec]
  intro rounds K hle hexits hnormal m mt hm
  refine rounds_runs_last (Nat.lt_of_lt_of_le (by omega) hwithin₃.size)
    (lowerTest_resume hS hstands.fits.resolves htest (by simp) (hops₂ _ (by omega)) hwithin₃)
    ?_ hruns S.turns (Nat.le_refl _) hle (hexits rfl) hnormal hm
  rw [condition_eq_asBool]
  exact condition_sync hstands.fits.resolves hS.recv rfl hplain.1

/-- The first part of a loop header. -/
theorem Flow.lowerInit_simulated (hS : S.Ready) {init : Flow} {g : Ground} {env env' : StateEnv}
    {d d' : Draft} {current : Nat} (hreg : init.RegularInit p.scopes)
    (hplain : init.PlainPart (p.scopes.visible S.session.runtime))
    (hstands : S.Stands g p env d current)
    (hlow : init.lowerInit current env d = .ok (env', d')) (hwithin : d'.Within S.states S.fields) :
    ∃ g', g'.Fits ((p.scopes.declare init.fresh).visible S.session.runtime) env' d' ∧
      g'.pop = g.pop ∧
      ∀ {rounds : Nat} {f : Unit → Memory → Course Ending},
        (∀ m mt, Linked g' [] m mt →
          S.Sim rounds (f () m) (S.resume current (d'.ops current).length mt)) →
        ∀ {m mt}, Linked g [] m mt →
          S.Sim rounds ((init.begin (init.exec S.session S.turns []) m).bind f)
            (S.resume current (d.ops current).length mt) := by
  have hvars : ∀ x ∈ (p.scopes.visible S.session.runtime).vars,
      x ∈ ((p.scopes.declare init.fresh).visible S.session.runtime).vars :=
    fun x hx => (Scopes.mem_declare p.scopes init.fresh x).mpr (.inr hx)
  cases init with
  | missing =>
      cases hlow
      exact ⟨g, hstands.fits.mono rfl (List.suffix_refl _) hvars, rfl, fun h _ _ hm => h _ _ hm⟩
  | declare decl =>
      obtain ⟨g', hfits, hpop, hrun⟩ := decl.lower_simulated hS hreg hplain hlow hstands.ready.lt
        hwithin hstands.fits hstands.fields
      refine ⟨g', hfits, hpop, fun {rounds f} hrest {m mt} hm => ?_⟩
      refine (congrArg (S.Sim rounds · _) ?_).mp (hrun hrest hm)
      rw [Flow.begin, Flow.exec]
      show _ = ((((Course.ofResult (decl.run S.session m)).bind _).bind _).bind f)
      cases decl.run S.session m <;> rfl
  | simple stmt =>
      obtain ⟨⟨⟩, d₁, hverbatim, hlow⟩ := bind_ok.mp hlow
      obtain ⟨rfl, rfl⟩ := pure_ok.mp hlow
      have hafter := (verbatim_ensures (E := fun _ => True)
        (fun s hs => ((Flow.simple stmt).regular_parts (p := p) hreg s hs).1) hstands.sound
        hstands.ready).ok hverbatim
      refine ⟨g, hstands.fits.mono rfl hafter.2.1.used hvars, rfl, ?_⟩
      intro rounds f hrest m mt hm
      have hregular : (Flow.simple stmt).Regular p := hreg
      have hrun := verbatim_simulated (K := fun _ m => f () m) hS hregular hplain rfl rfl
        hstands.fits.resolves hverbatim hstands.ready.lt hwithin hrest hm
      refine (congrArg (S.Sim rounds · _) ?_).mp hrun
      refine Eq.trans ?_ (Course.bind_assoc _ _ _).symm
      rfl
  | _ => exact hreg.elim

/-- The last part of a loop header. -/
theorem Flow.lowerPost_simulated (hS : S.Ready) {post : Flow} {g : Ground} {env : StateEnv}
    {d d' : Draft} {current : Nat} (hreg : post.RegularPost)
    (hplain : post.PlainPart (p.scopes.visible S.session.runtime))
    (hstands : S.Stands g p env d current)
    (hlow : post.lowerPost current env d = .ok ((), d')) (hwithin : d'.Within S.states S.fields)
    {rounds : Nat} {f : Memory → Course Ending}
    (hrest : ∀ m mt, Linked g [] m mt →
      S.Sim rounds (f m) (S.resume current (d'.ops current).length mt))
    {m mt : Memory} (hm : Linked g [] m mt) :
    S.Sim rounds ((Course.ofResult (post.update S.session S.turns m)).bind fun _ => f)
      (S.resume current (d.ops current).length mt) := by
  cases post with
  | missing =>
      cases hlow
      exact hrest m mt hm
  | simple stmt =>
      have hregular : (Flow.simple stmt).Regular p := hreg
      have hrun := verbatim_simulated (K := fun _ m => f m) hS hregular hplain rfl rfl
        hstands.fits.resolves hlow hstands.ready.lt hwithin hrest hm
      refine (congrArg (S.Sim rounds · _) ?_).mp hrun
      rw [Flow.exec, Flow.update]
      show ((Course.ofResult (stmt.exec S.session S.turns m)).bind _).bind _ = _
      rw [discard_eq, eff_bind_apply]
      cases stmt.exec S.session S.turns m <;> rfl
  | _ => exact hreg.elim

/-- The last part of a loop header in a state of its own, from which the loop goes on. -/
theorem Flow.lowerPost_enter (hS : S.Ready) {post : Flow} {g : Ground} {env : StateEnv}
    {d d' : Draft} {current goal : Nat} (hreg : post.RegularPost)
    (hplain : post.PlainPart (p.scopes.visible S.session.runtime))
    (hstands : S.Stands g p env d current) (hempty : d.ops current = [])
    (hlow : post.lowerPost current env d = .ok ((), d')) (hcurrent : current < d'.size)
    (hwithin : (d'.append current (.jump goal .missing)).Within S.states S.fields)
    {rounds : Nat} {f : Memory → Course Ending}
    (hrest : ∀ m mt, Linked g [] m mt → S.Sim rounds (f m) (S.enter goal mt))
    {m mt : Memory} (hm : Linked g [] m mt) :
    S.Sim rounds ((Course.ofResult (post.update S.session S.turns m)).bind fun _ => f)
      (S.enter current mt) := by
  have hposition : S.resume current 0 mt = S.resume current (d.ops current).length mt := by
    rw [hempty]
    rfl
  refine Setting.Sim.enter (Nat.lt_of_lt_of_le hcurrent hwithin.of_append.size) ?_
  rw [hposition]
  exact Flow.lowerPost_simulated hS hreg hplain hstands hlow hwithin.of_append
    (fun m mt hm => jump_simulated hS hcurrent hwithin ((hrest m mt hm).mono (Nat.sub_le _ _))) hm

theorem Flow.regularPost_lowerable {post : Flow} (p : Place) (h : post.RegularPost)
    (hm : post.isMissing = false) : Lowerable (fun _ => True) post.parts := by
  cases post with
  | missing => cases hm
  | simple stmt =>
      have hregular : (Flow.simple stmt).Regular p := h
      exact Lowerable.of_parts _ ((Flow.simple stmt).regular_parts hregular)
  | _ => exact h.elim

/-- The rounds of a loop with a header. -/
theorem lowerRounds_runs (hS : S.Ready) {post : Flow} {g : Ground} {env : StateEnv}
    {d d' : Draft} {current : Nat} (hregPost : post.RegularPost)
    (hregBody : flowsRegular p.inLoop.inner body)
    (hplainCond : cond.Clear (p.scopes.visible S.session.runtime))
    (hplainPost : post.PlainPart (p.scopes.visible S.session.runtime))
    (hbody : FlowsLowered S plan p.inLoop.inner body) (hstands : S.Stands g p env d current)
    (hlow : lowerRounds plan cond post body current env.next env d = .ok ((), d'))
    (hwithin : d'.Within S.states S.fields) :
    S.Runs env true (Linked g []) (Linked g []) (Linked g [])
      (rounds env.labels (fun () => condition S.session cond)
        (.inScope (execFlows S.session S.turns body)) (post.update S.session S.turns) S.turns ())
      (S.resume current (d.ops current).length) (S.enter env.next) := by
  have hlt := hstands.ready.lt
  have hnext := hstands.targets.next
  rw [lowerRounds, newState_bind, emit_bind, newState_bind, bind_ok] at hlow
  obtain ⟨⟨⟩, d₂, htest, hlow⟩ := hlow
  rw [newState_bind, bind_ok] at hlow
  obtain ⟨⟨⟩, d₃, hupdate, hlow⟩ := hlow
  rw [emit_bind] at hlow
  simp only [size_append, size_reserve] at htest hlow hupdate
  -- the drafts with the jump to the condition, with the test, and with the last part
  have h₁ := ((Opens.of_ready hstands.sound hstands.ready).enter (by simp)).reserve
  simp only [size_append, size_reserve] at h₁
  obtain ⟨hsound₂, hext₂, hdone₂⟩ := (lowerTest_ensures (E := fun _ => True) cond env h₁.sound
    (h₁.isReady d.size (by simp)) (by simp) (by simp; omega)).ok htest
  have hsize₂ : d.size + 2 ≤ d₂.size := by
    simpa only [size_append, size_reserve] using hext₂.size_le
  have h₂ := (h₁.swap.run (by simp) hsound₂ hext₂ hdone₂).reserve
  obtain ⟨hsound₃, hext₃, hready₃⟩ := (Flow.lowerPost_ensures (E := fun _ => True)
    (Flow.regularPost_lowerable p hregPost) h₂.sound
    (h₂.isReady d₂.size (by simp))).ok hupdate
  have hsize₃ : d₂.size + 1 ≤ d₃.size := by simpa using hext₃.size_le
  have h₃ := (h₂.keep (by simp) hsound₃ hext₃ hready₃).jump d.size (by simp; omega)
    (by omega) .missing
  have hstands₂ := hstands.of_extends h₂.sound h₂.ext (h₂.isReady d₂.size (by simp))
  have hloop := (hstands.of_extends h₃.sound h₃.ext (h₃.isReady (d.size + 1) (by simp))).inLoop
    (by simp; omega : d₂.size < (d₃.append d₂.size (.jump d.size .missing)).size)
  -- the table has them all
  have hwithin₃ := hwithin.of_extends (block_after hregBody hloop.sound hloop.targets hloop.ready
    hlow).ext
  have hwithin₂ := (hwithin₃.of_append.of_extends hext₃).of_reserve
  have hwithin₁ := (hwithin₂.of_extends hext₂).of_reserve
  have hops₁ : ∀ q, d.size ≤ q →
      (d.reserve.append current (.jump d.size .missing)).reserve.ops q = [] := by
    intro q hq
    rw [ops_reserve, ops_entered hlt hq]
  have hempty : (d₃.append d₂.size (.jump d.size .missing)).ops (d.size + 1) = [] := by
    rw [ops_append_of_ne _ (by omega), hext₃.ops_kept (by simp; omega) (by simp; omega),
      ops_reserve, hext₂.ops_kept (by simp) (by simp), hops₁ _ (by omega)]
  have hruns := hbody.enter hregBody hloop hempty hlow hwithin
  rw [← d.ops_reserve, Setting.resume_eq_enter hS (by simp; omega) hwithin₁]
  intro rounds K hle hexits hnormal m mt hm
  refine rounds_runs (post.update S.session S.turns) (S.enter (d.size + 1))
    (Nat.lt_of_lt_of_le (by omega) hwithin₂.size) (fun mt => ?_)
    (condition_sync hstands.fits.resolves hS.recv rfl hplainCond) hruns
    (fun hrest _ _ hm => ?_) S.turns (Nat.le_refl _) hle (hexits rfl) hnormal hm
  · rw [lowerTest_resume hS hstands.fits.resolves htest
      (by simp only [size_append, size_reserve]; omega) (hops₁ _ (Nat.le_refl _)) hwithin₂]
    exact after_congr _ (fun b m => by cases b <;> rfl) mt
  · refine Flow.lowerPost_enter hS hregPost hplainPost hstands₂ ?_ hupdate (by omega) hwithin₃
      hrest hm
    exact ops_new _

/-- A loop with a header. -/
theorem loop_lowered (hS : S.Ready) {init post : Flow}
    (hreg : (Flow.loop init cond post body).Regular p)
    (hplain : (Flow.loop init cond post body).Plain S.session.runtime p.scopes)
    (hbody : FlowsLowered S plan (p.inner.declare init.fresh).inLoop.inner body) :
    (Flow.loop init cond post body).Lowered S plan p := by
  intro g env d d' current hstands hlow hwithin
  obtain ⟨hregInit, hregPost, hregBody⟩ := id hreg
  obtain ⟨hplainInit, hplainCond, hplainPost, hplainBody⟩ := hplain
  have hlt := hstands.ready.lt
  have hinitParts : init.isMissing = false → Lowerable (fun _ => True) init.parts := fun hm =>
    (Lowerable.of_parts _ (Flow.regular_parts _ hreg)).mono fun s hs => by
      simp [Flow.parts, hm, hs]
  rw [Flow.lower_loop, newState_bind, emit_bind, bind_ok] at hlow
  obtain ⟨inner, d₂, hinit, hrounds⟩ := hlow
  have h₁ := (Opens.of_ready hstands.sound hstands.ready).enter (by simp)
  obtain ⟨⟨hsound₂, hext₂, hready₂⟩, hsame⟩ := (Flow.lowerInit_ensures (E := fun _ => True)
    hinitParts h₁.sound (h₁.isReady d.size (by simp))).ok hinit
  have hsize₂ : d.size + 1 ≤ d₂.size := by simpa using hext₂.size_le
  have hstart : S.Stands g.push p.inner env (d.reserve.append current (.jump d.size .missing))
      d.size :=
    hstands.push.of_extends h₁.sound h₁.ext (h₁.isReady _ (by simp))
  have htargets : StateEnv.Fits d₂.size inner := hsame.fits (hstands.targets.mono (by omega))
  rw [← hsame.1] at hrounds
  have hwithin₂ := hwithin.of_extends ((lowerRounds_ensures (E := fun _ => True)
    (Flow.regularPost_lowerable p hregPost) (flows_endsBlock hregBody) hsound₂ htargets
    htargets.next.le hready₂).ok hrounds).ext
  obtain ⟨g', hfits, hpop, hrun⟩ := Flow.lowerInit_simulated hS (p := p.inner) hregInit hplainInit
    hstart hinit hwithin₂
  have hinner : S.Stands g' (p.inner.declare init.fresh) inner d₂ d.size :=
    ⟨hsound₂, htargets, hready₂, hfits, (Ground.fields_of_pop hpop).trans hstands.fields⟩
  have hruns := lowerRounds_runs hS hregPost hregBody hplainCond hplainPost hbody hinner hrounds
    hwithin
  rw [← d.ops_reserve, Setting.resume_eq_enter hS (by simp; omega)
    (hwithin₂.of_extends hext₂), Flow.exec]
  refine Setting.Runs.inScope (.enter (Nat.lt_of_lt_of_le (by omega) hwithin₂.size) ?_)
  intro rounds K hle hexits hnormal m mt hm
  have hleft : ∀ m mt, Linked g' [] m mt → g.push.Left m mt :=
    fun _ _ hm => Ground.left_congr hpop ▸ hm.left
  refine (congrArg (S.Sim rounds · _) (Course.bind_assoc _ _ _)).mpr ?_
  have hstate := ops_entered hlt (Nat.le_refl _) (.jump d.size .missing)
  rw [hstate] at hrun
  refine hrun (fun m mt hm => ?_) hm
  rw [← hsame.2.2.2]
  refine hruns hle (fun _ => ((hexits rfl).mono (Nat.le_refl _) hleft).congr hsame.2.1 hsame.2.2.1)
    (fun m mt hm => ?_) hm
  rw [hsame.1]
  exact hnormal m mt (hleft m mt hm)

/-- A round of a loop over an iterator: the next element is taken in a new scope, in which the
body has a scope of its own. -/
theorem Walk.round_runs {w : Walk} {v : Value} {take : Stmt} {env : StateEnv} {g g' : Ground}
    {bodyState : Nat} {x : Action Ending} {after : Memory → Behaviour}
    (hpop : g'.pop = g.push.pop)
    (hadvance : Sync (Linked g.push []) (fun _ => Linked g' []) (do
        w.advance S.session v
        pure Control.normal)
      (inScope (take.exec S.session S.turns)))
    (hx : S.Runs env true (Linked g' []) (Linked g' []) (Linked g' []) x (S.enter bodyState)
      after) :
    S.Runs env true (Linked g []) (Linked g []) (Linked g []) (.inScope do
        w.advance S.session v
        x)
      (Behaviour.after (inScope (take.exec S.session S.turns)) fun _ => S.enter bodyState)
      after := by
  refine Setting.Runs.inScope ?_
  intro rounds K hle hexits hnormal m mt hm
  have hleft : ∀ m mt, Linked g' [] m mt → g.push.Left m mt :=
    fun _ _ hm => Ground.left_congr hpop ▸ hm.left
  have hrun : S.Sim rounds _ _ := Course.Simulated.lift (hadvance m mt hm)
    (f := fun _ m => (x m).bind K) fun _ m mt hm =>
    hx hle (fun _ => (hexits rfl).mono (Nat.le_refl _) hleft)
      (fun m mt hm => hnormal m mt (hleft m mt hm)) hm
  refine (congrArg (S.Sim rounds · _) ?_).mp hrun
  rw [Course.ofResult_bind]
  refine Eq.trans ?_ (Course.bind_assoc _ _ _).symm
  rfl

/-- A loop over an iterator. -/
theorem walk_lowered (hS : S.Ready) {header : Walk}
    (hreg : (Flow.walk header body).Regular p)
    (hplain : (Flow.walk header body).Plain S.session.runtime p.scopes)
    (hbody : FlowsLowered S plan (p.inner.declare header.names).inLoop.inner body) :
    (Flow.walk header body).Lowered S plan p := by
  intro g env d d' current hstands hlow hwithin
  rw [Flow.lower, bind_ok] at hlow
  obtain ⟨⟨condState, bodyState, inner⟩, d₁, hheader, hlow⟩ := hlow
  obtain ⟨hsound₁, hext₁, hdone₁, hready₁, hcond, hnew, hsame⟩ := (header.lower_ensures
    (E := fun _ => True) plan hstands.sound hstands.targets hstands.ready).ok hheader
  dsimp only at hready₁ hcond hnew hsame hlow
  have htargets : StateEnv.Fits d₁.size (inner.inLoop condState) :=
    (hsame.fits (hstands.targets.mono hext₁.size_le)).inLoop hcond
  have hwithin₁ := hwithin.of_extends (block_after hreg.2 hsound₁ htargets hready₁ hlow).ext
  obtain ⟨it, take, hhead⟩ := Walk.lower_simulated hS hreg.1 hplain.1 hheader hstands.ready.lt
    hwithin₁ hstands.fits hstands.fields
  rw [Flow.exec]
  intro rounds K hle hexits hnormal m mt hm
  refine (congrArg (S.Sim rounds · _) (Course.bind_assoc _ _ _)).mpr (hhead.capture ?_ hm)
  intro v m mt hm
  obtain ⟨g', hfits, hpop, hadvance⟩ := hhead.advance v
  have hunpin : ∀ m mt, Linked (g.pin it v) [] m mt → Linked g [] m mt := fun _ _ hm => hm.unpin
  have hinner : S.Stands g' (p.inner.declare header.names).inLoop (inner.inLoop condState) d₁
      bodyState := by
    refine ⟨hsound₁, htargets, hready₁, hfits.mono (Env.renames_inLoop _ _) (List.suffix_refl _)
      fun _ hx => hx, ?_⟩
    exact (Ground.fields_of_pop (g := (g.pin it v).push) hpop).trans hstands.fields
  have hruns := hbody.enter hreg.2 hinner hhead.body.1 hlow hwithin
  rw [← hsame.2.2.2]
  refine rounds_runs (pure ()) _ hhead.test.1 (fun mt => ?_)
    (hasNext_field_sync hS.recv (.head _)) (Walk.round_runs hpop hadvance hruns)
    (fun h _ _ hm => h _ _ hm) S.turns (Nat.le_refl _) hle
    (((hexits rfl).mono (Nat.le_refl _) hunpin).congr hsame.2.1 hsame.2.2.1)
    (fun m mt hm => ?_) hm
  · rw [hhead.test.2, hsame.1]
  · rw [hsame.1]
    exact hnormal m mt (hunpin m mt hm)

end Loops

end YieldMachine
