import YieldMachine.Proofs.Simulation.Blocks

/-!
# Branches and conditionals in a table

The table runs statements without parts, labelled statements and conditionals as they were
lowered, provided that it runs their parts.
-/

namespace YieldMachine

open Lowering Behaviour

section Leaves

variable {S : Setting} {plan : Plan} {p : Place}

theorem block_lowered {body : List Flow} (h : FlowsLowered S plan p.inner body) :
    (Flow.block body).Lowered S plan p := by
  intro g env d d' current hstands hlow hwithin
  rw [Flow.lower] at hlow
  have hruns := h.block hstands hlow hwithin
  rw [Flow.exec]
  exact hruns

theorem finish_lowered (hS : S.Ready) : Flow.finish.Lowered S plan p := by
  intro g env d d' current hstands hlow hwithin rounds K hle hexits hnormal m mt hm
  cases hlow
  exact jump_simulated hS hstands.ready.lt hwithin ((hexits rfl).finish m mt hm)

theorem brk_lowered (hS : S.Ready) (label : String) : (Flow.brk label).Lowered S plan p := by
  intro g env d d' current hstands hlow hwithin rounds K hle hexits hnormal m mt hm
  rw [Flow.lower] at hlow
  cases hgoal : env.break? label with
  | none =>
      rw [hgoal] at hlow
      cases hlow
  | some goal =>
      rw [hgoal] at hlow
      cases hlow
      exact jump_simulated hS hstands.ready.lt hwithin ((hexits rfl).brk label goal m mt hgoal hm)

theorem cont_lowered (hS : S.Ready) (label : String) : (Flow.cont label).Lowered S plan p := by
  intro g env d d' current hstands hlow hwithin rounds K hle hexits hnormal m mt hm
  rw [Flow.lower] at hlow
  cases hgoal : env.continue? label with
  | none =>
      rw [hgoal] at hlow
      cases hlow
  | some goal =>
      rw [hgoal] at hlow
      cases hlow
      exact jump_simulated hS hstands.ready.lt hwithin ((hexits rfl).cont label goal m mt hgoal hm)

theorem simple_lowered (hS : S.Ready) {stmt : Stmt} (hreg : stmt.Regular)
    (hplain : stmt.Clear (p.scopes.visible S.session.runtime)) :
    (Flow.simple stmt).Lowered S plan p := by
  intro g env d d' current hstands hlow hwithin
  rw [Flow.lower] at hlow
  have hregular : (Flow.simple stmt).Regular p := hreg
  exact verbatim_runs hS hregular hplain rfl rfl hstands hlow hwithin _

theorem evaluate_sync {g : Ground} {c : Visible} {env : StateEnv} {s : Session}
    (hr : Resolves g [] c env.renames) (hs : s.recv = receiverName) (hrun : c.runtime = s.runtime)
    {e : Expr} (he : e.Clear c) :
    Sync (Linked g []) (fun _ => Linked g []) (evaluate s e) (evaluate s (env.resolve e)) :=
  Sync.onHeap_eq fun _ _ hm => hm.eval_rename hr hs hrun e he

/-- A yield hands over its value, and goes on in the next state once it is resumed. -/
theorem yield_lowered (hS : S.Ready) {value : Expr}
    (hplain : value.Clear (p.scopes.visible S.session.runtime)) :
    (Flow.yield value).Lowered S plan p := by
  intro g env d d' current hstands hlow hwithin rounds K hle hexits hnormal m mt hm
  cases hlow
  have hlt := hstands.ready.lt
  cases hmissing : value.isMissing with
  | true =>
      obtain rfl : value = .missing := by
        cases value <;> first | rfl | cases hmissing
      exact jump_simulated hS hlt hwithin (hnormal m mt hm)
  | false =>
      have hnext : env.next < S.states.length :=
        hS.jump_lt hlt hwithin (env.resolve value) (by simp [Op.parts])
      have hvalue : (env.resolve value).isMissing = false :=
        (isMissing_rename hstands.fits.resolves value).trans hmissing
      have hexec : (Flow.exec S.session S.turns (.yield value) env.labels m).bind K =
          (Course.ofResult (evaluate S.session value m)).bind fun v m =>
            .emit v m.heap fun h => K .normal { m with heap := h } := by
        cases value with
        | missing => cases hmissing
        | _ => exact Course.bind_assoc _ _ _
      rw [hexec]
      unfold Setting.resume
      rw [hwithin.drop_append hlt, running_emit hnext hvalue]
      refine Course.Simulated.lift (evaluate_sync hstands.fits.resolves hS.recv rfl hplain m mt hm)
        fun v m' mt' hm' => ?_
      refine ⟨0, env.next, mt', reaches_now _, hm'.stored.1, hm'.heap, fun h' => ?_⟩
      exact hnormal _ _ (hm'.withHeap h')

/-- A labelled statement. -/
theorem labeled_lowered {label : String} {stmt : Flow}
    (h : stmt.Lowered S plan (p.withLabel label stmt.isLoop)) :
    (Flow.labeled label stmt).Lowered S plan p := by
  intro g env d d' current hstands hlow hwithin rounds K hle hexits hnormal m mt hm
  have hinner : S.Stands g (p.withLabel label stmt.isLoop)
      ((env.withLabel label).withBreak label env.next) d current :=
    ⟨hstands.sound, (hstands.targets.withLabel label).withBreak label hstands.targets.next,
      hstands.ready, hstands.fits.mono rfl (List.suffix_refl _) fun _ hx => hx, hstands.fields⟩
  have hrun := h hinner hlow hwithin hle (K := fun c m => K (c.leave label) m) (fun htransfers => by
    have henter : ∀ m mt, Linked g [] m mt → S.Sim rounds (K .normal m) (S.enter env.next mt) := by
      intro m mt hm
      have := hnormal m mt hm
      rw [show (Flow.labeled label stmt).transfers = true from htransfers] at this
      exact this
    exact ((hexits htransfers).leave henter label).congr rfl rfl) hnormal hm
  refine (congrArg (S.Sim rounds · _) ?_).mp hrun
  rw [Flow.exec]
  refine Eq.trans ?_ (Course.bind_assoc _ _ _).symm
  rfl

end Leaves

section Conditionals

variable {S : Setting} {plan : Plan} {g : Ground} {p : Place} {env : StateEnv} {d d' : Draft}
  {current : Nat} {cond : Expr} {body : List Flow} {other : Flow}

theorem holds_sync {c : Visible} {s : Session} (hr : Resolves g [] c env.renames)
    (hs : s.recv = receiverName) (hrun : c.runtime = s.runtime) (hcond : cond.Clear c) :
    Sync (Linked g []) (fun _ => Linked g []) (holds s cond) (holds s (env.resolve cond)) := by
  refine Sync.onHeap_eq fun m mt hm => ?_
  show (do (← (cond.rename receiverName env.renames).eval s mt.view).asBool : Eff Heap Bool) = _
  rw [hm.eval_rename hr hs hrun cond hcond]

/-- A conditional whose branches the table runs. -/
theorem branch_runs (hS : S.Ready) {c : Visible} (hr : Resolves g [] c env.renames)
    (hrun : c.runtime = S.session.runtime) (hcond : cond.Clear c) {x y : Action Ending}
    {before : Memory → Behaviour} {a b : Nat}
    (hbefore : ∀ mt, before mt = Behaviour.after (holds S.session (env.resolve cond))
      (fun holds => S.enter (if holds then a else b)) mt)
    (hx : S.Runs env true (Linked g []) (Linked g []) (Linked g []) x (S.enter a)
      (S.enter env.next))
    (hy : S.Runs env true (Linked g []) (Linked g []) (Linked g []) y (S.enter b)
      (S.enter env.next)) :
    S.Runs env true (Linked g []) (Linked g []) (Linked g []) (do
      if ← holds S.session cond then x else y) before (S.enter env.next) := by
  intro rounds K hle hexits hnormal m mt hm
  rw [hbefore]
  refine (congrArg (S.Sim rounds · _) (Course.bind_assoc _ _ _)).mpr ?_
  refine Course.Simulated.lift (holds_sync hr hS.recv hrun hcond m mt hm) fun holds m' mt' hm' => ?_
  cases holds with
  | true => exact hx hle hexits hnormal hm'
  | false => exact hy hle hexits hnormal hm'

/-- An operation that chooses between two jumps. -/
theorem resume_choose {first second : Nat} (hS : S.Ready) (hcurrent : current < d.size)
    (hwithin : (d.append current (.choose cond [.jump first .missing]
      [.jump second .missing])).Within S.states S.fields) (mt : Memory) :
    S.resume current (d.ops current).length mt =
      Behaviour.after (holds S.session cond)
        (fun b => S.enter (if b then first else second)) mt := by
  have hfirst : first < S.states.length :=
    hS.jump_lt hcurrent hwithin .missing (by simp [Op.parts, opsParts])
  have hsecond : second < S.states.length :=
    hS.jump_lt hcurrent hwithin .missing (by simp [Op.parts, opsParts])
  unfold Setting.resume
  rw [hwithin.drop_append hcurrent, running_choose]
  refine after_congr _ (fun b m => ?_) mt
  cases b with
  | false => exact running_jump hsecond _ m
  | true => exact running_jump hfirst _ m

/-- What lowering a conditional consists of. -/
theorem ite_lower_ok
    (hlow : Flow.lower plan (.ite cond body other) current env d = .ok ((), d')) :
    ∃ d₁, (do
      let cont ← newState
      lowerStmts plan body d.size cont env.clearLabels : Lowering Unit) d.reserve = .ok ((), d₁) ∧
    (other = .missing ∧
        d' = (d₁.append current (.when (env.resolve cond) [.jump d.size .missing])).append current
          (.jump env.next .missing) ∨
      other.isMissing = false ∧ ∃ d₂,
        other.lowerElse plan d₁.size env.clearLabels d₁.reserve = .ok ((), d₂) ∧
        (d' = (d₂.append current (.when (env.resolve cond) [.jump d.size .missing])).append current
            (.jump d₁.size .missing) ∨
          d' = d₂.append current (.choose (env.resolve cond) [.jump d.size .missing]
            [.jump d₁.size .missing]))) := by
  rw [Flow.lower_ite, newState_bind, newState_bind, bind_ok] at hlow
  obtain ⟨⟨⟩, d₁, hbody, hlow⟩ := hlow
  refine ⟨d₁, hbody, ?_⟩
  cases hm : other.isMissing with
  | true =>
      rw [hm] at hlow
      cases hlow
      exact .inl ⟨Flow.isMissing_eq_true.mp hm, rfl⟩
  | false =>
      rw [hm, if_neg Bool.false_ne_true, newState_bind, bind_ok] at hlow
      obtain ⟨⟨⟩, d₂, helse, hlow⟩ := hlow
      refine .inr ⟨rfl, d₂, helse, ?_⟩
      split at hlow
      · cases hlow
        exact .inl rfl
      · cases hlow
        exact .inr rfl

/-- The else part of a conditional. -/
theorem lowerElse_runs (hS : S.Ready)
    (hsplit : ∀ n s, s.modifiesControlFlow = true → plan.split n s = true)
    (hreg : other.Regular p.inner) (hplain : other.Plain S.session.runtime p.inner.scopes)
    (hother : other.isDeclare = false → other.Lowered S plan p.inner)
    (hstands : S.Stands g p env d current) (hempty : d.ops current = [])
    (hlow : other.lowerElse plan current env d = .ok ((), d')) (hlabels : env.labels = [])
    (hwithin : d'.Within S.states S.fields) :
    Draft.After true current d d' ∧
      S.Runs env true (Linked g []) (Linked g []) (Linked g [])
        (Action.inScope (other.exec S.session S.turns [])) (S.enter current)
        (S.enter env.next) := by
  have hsingle : (do
      let cont ← newState
      lowerStmts plan [other] current cont env : Lowering Unit) d = .ok ((), d') →
      Draft.After true current d d' ∧
      S.Runs env true (Linked g []) (Linked g []) (Linked g [])
        (Action.inScope (other.exec S.session S.turns [])) (S.enter current)
        (S.enter env.next) := by
    intro hlow
    have hregs : flowsRegular p.inner [other] := by
      cases other <;> exact ⟨hreg, trivial⟩
    have hplains : flowsPlain S.session.runtime p.inner.scopes [other] := by
      cases other <;> exact ⟨hplain, trivial⟩
    have hlowered := cons_lowered hS hsplit hregs hplains hother (nil_lowered hS)
    refine ⟨block_after hregs hstands.sound hstands.targets hstands.ready hlow, ?_⟩
    rw [← execFlows_singleton]
    exact hlowered.enter hregs hstands hempty hlow hwithin
  cases other with
  | block body =>
      have hafter := block_after (p := p.inner.inner) hreg hstands.sound hstands.targets
        hstands.ready hlow
      refine ⟨hafter, ?_⟩
      have hruns := hother rfl hstands.push (by rw [Flow.lower]; exact hlow) hwithin
      rw [hempty, hlabels] at hruns
      have hlt := Nat.lt_of_lt_of_le hstands.ready.lt (hafter.ext.size_le.trans hwithin.size)
      exact ((hruns.mono (fun _ _ h => h.left) fun _ _ h => h.left).inScope).enter hlt
  | _ => exact hsingle hlow

theorem ite_lowered (hS : S.Ready)
    (hsplit : ∀ n s, s.modifiesControlFlow = true → plan.split n s = true)
    (hreg : (Flow.ite cond body other).Regular p)
    (hplain : (Flow.ite cond body other).Plain S.session.runtime p.scopes)
    (hbody : FlowsLowered S plan p.inner body)
    (hother : other.isMissing = false → other.isDeclare = false → other.Lowered S plan p.inner) :
    (Flow.ite cond body other).Lowered S plan p := by
  intro g env d d' current hstands hlow hwithin
  obtain ⟨d₁, hthen, hlow⟩ := ite_lower_ok hlow
  have hlt := hstands.ready.lt
  have hnew := d.ops_new
  have hnewStands := hstands.inNew.clearLabels
  have hafter₁ := block_after hreg.1 hnewStands.sound hnewStands.targets hnewStands.ready hthen
  have hne : current ∉ [d.size] := by simpa using Nat.ne_of_lt hlt
  have hops₁ : d₁.ops current = d.ops current := by
    rw [hafter₁.ext.ops_kept hne (by simp; omega), Draft.ops_reserve]
  have hsize₁ : d.size < d₁.size := by
    have := hafter₁.ext.size_le
    simp only [Draft.size_reserve] at this
    omega
  have hstands₁ : S.Stands g p env d₁ current :=
    hstands.of_extends hafter₁.sound ((Draft.Extends.reserve d).trans hafter₁.ext)
      (hafter₁.ext.ready hne hstands.reserve.ready)
  rw [Flow.exec]
  rcases hlow with ⟨rfl, rfl⟩ | ⟨hm, d₂, helse, hd⟩
  · have hthenRuns := hbody.enter hreg.1 hstands.inNew.clearLabels hnew hthen
      hwithin.of_append.of_append
    refine branch_runs hS hstands.fits.resolves rfl hplain.1 (b := env.next) (fun mt => ?_)
      (hthenRuns.congr rfl rfl) ?_
    · rw [← hops₁]
      exact resume_when hS (by omega) hwithin mt
    · intro rounds K hle hexits hnormal m mt hm
      exact hnormal m mt hm
  · have hwithin₂ : d₂.Within S.states S.fields := by
      rcases hd with rfl | rfl
      · exact hwithin.of_append.of_append
      · exact hwithin.of_append
    obtain ⟨hafter₂, helseRuns⟩ := lowerElse_runs hS hsplit (hreg.2 hm) hplain.2.2 (hother hm)
      hstands₁.inNew.clearLabels
      (Draft.ops_new _) helse rfl hwithin₂
    have hthenRuns := hbody.enter hreg.1 hstands.inNew.clearLabels hnew hthen
      (hwithin₂.of_extends hafter₂.ext).of_reserve
    have hops₂ : d₂.ops current = d.ops current := by
      rw [hafter₂.ext.ops_kept (by simp; omega) (by simp; omega), Draft.ops_reserve, hops₁]
    have hsize₂ : current < d₂.size := by
      have := hafter₂.ext.size_le
      simp only [Draft.size_reserve] at this
      omega
    simp only [hm]
    refine branch_runs hS hstands.fits.resolves rfl hplain.1 (b := d₁.size) (fun mt => ?_)
      (hthenRuns.congr rfl rfl) (helseRuns.congr rfl rfl)
    rw [← hops₂]
    rcases hd with rfl | rfl
    · exact resume_when hS hsize₂ hwithin mt
    · exact resume_choose hS hsize₂ hwithin mt

end Conditionals

end YieldMachine
