import YieldMachine.Proofs.Simulation.Steps

/-!
# Loops over iterators in a table

The header of a loop over an iterator keeps the iterator in a field, asks it for the next
element in the condition state, and gives the key and the value fields of their own.
-/

namespace YieldMachine

open Lowering Behaviour

section Targets

variable {g : Ground} {c : Visible} {s : Session} {d d' : Draft} {env inner inner' : StateEnv}

/-- What lowering a key or a value means for the elements that it takes: `e` takes them in the
table, where the fields have grown to those of `g'`. -/
structure Held (s : Session) (g g' : Ground) (c : Visible) (define : Bool) (target : Expr)
    (inner inner' : StateEnv) (d' : Draft) (e : Expr) : Prop where
  fits : g'.Fits c inner' d'
  pop : g'.pop = g.pop
  same : define = false → g' = g ∧ inner'.renames = inner.renames
  store : ∀ v, Sync (Linked g oneScope) (fun _ => Linked g' oneScope)
    (store s define target.orBlank v) (store s false e v)

theorem Held.blank {define kept : Bool} {target : Expr} (hfits : g.Fits c inner d)
    (htarget : ∃ kept, target.orBlank = .ident "_" kept) :
    Held s g g c define target inner inner d (.ident "_" kept) where
  fits := hfits
  pop := rfl
  same _ := ⟨rfl, rfl⟩
  store v := by
    obtain ⟨kept', horBlank⟩ := htarget
    rw [horBlank, store_blank, store_blank]
    exact Sync.pure fun _ _ h => h

theorem Held.assigned {target : Expr} (hs : s.recv = receiverName) (hrun : c.runtime = s.runtime)
    (hfits : g.Fits c inner d) (hclear : target.TargetClear c)
    (hr : Resolves g [] c env.renames) (horBlank : target.orBlank = target) :
    Held s g g c false target inner inner d (env.resolve target) where
  fits := hfits
  pop := rfl
  same _ := ⟨rfl, rfl⟩
  store v := by
    rw [horBlank]
    exact store_rename_sync (hr.push rfl) hs hrun hclear v

theorem Held.declared (hs : s.recv = receiverName) (hfits : g.Fits c inner d) {x : String}
    {kept : Bool} (hx : x ≠ "_") (hreserved : x ∉ reservedNames) (hvar : x ∈ c.vars)
    (hused : d'.used = freeField d.used x :: d.used) (hfield : freeField d.used x ∈ g.fields) :
    Held s g (g.declare x (freeField d.used x)) c true (.ident x kept) inner
      (inner.withRename x ⟨freeField d.used x, true⟩) d' (fieldExpr (freeField d.used x)) where
  fits := hfits.declare hreserved hx hvar hused
  pop := Ground.pop_declare ..
  same := nofun
  store v := by
    rw [show (Expr.ident x kept).orBlank = .ident x kept from rfl, store_name true hx]
    refine declareField_sync hs hfield (fun hmem => ?_) hfits.room v
    exact freeField_not_mem d.used x (hfits.used _ hmem)

/-- A key or value that gets a field, or is assigned. -/
theorem lowerTarget_hoisted (hs : s.recv = receiverName) (hrun : c.runtime = s.runtime)
    {define : Bool} {target type e : Expr}
    (hres : lowerTarget define target type env inner d = .ok ((e, inner'), d'))
    (hdefine : define = true → (target.isMissing = true ∨ target.name?.isSome = true) ∧
      ∀ x, target.name? = some x → x ≠ "_" → x ∉ reservedNames ∧ x ∈ c.vars)
    (hassign : define = false → target.TargetClear c ∧ Resolves g [] c env.renames)
    (hfits : g.Fits c inner d) (hfields : ∀ f ∈ d'.fields.map Prod.fst, f ∈ g.fields) :
    ∃ g', Held s g g' c define target inner inner' d' e := by
  cases target with
  | missing =>
      cases hres
      exact ⟨g, .blank hfits ⟨_, rfl⟩⟩
  | ident x kept =>
      by_cases hx : x = "_"
      · subst hx
        cases hres
        exact ⟨g, .blank hfits ⟨_, rfl⟩⟩
      · have hne : (x == "_") = false := by simpa using hx
        cases hd : define with
        | true =>
            subst hd
            simp only [lowerTarget, hne, Bool.false_eq_true, if_false, if_true] at hres
            cases hres
            obtain ⟨hreserved, hvar⟩ := (hdefine rfl).2 x rfl hx
            exact ⟨_, .declared hs hfits hx hreserved hvar rfl (hfields _ (by simp))⟩
        | false =>
            subst hd
            simp only [lowerTarget, hne, Bool.false_eq_true, if_false] at hres
            cases hres
            obtain ⟨hclear, hr⟩ := hassign rfl
            exact ⟨g, .assigned hs hrun hfits hclear hr rfl⟩
  | _ =>
      have hd : define = false := by
        by_contra hd
        have := (hdefine (by simpa using hd)).1
        simp [Expr.isMissing, Expr.name?] at this
      subst hd
      cases hres
      obtain ⟨hclear, hr⟩ := hassign rfl
      exact ⟨g, .assigned hs hrun hfits hclear hr rfl⟩

/-- A table whose fields keep values finds them in every scope. -/
theorem Overlap.pinned {fields : Bindings} {shape : Nesting} {frames locals : List Bindings}
    (h : Overlap g fields shape frames locals) {f : String} {v : Value} (hf : (f, v) ∈ g.pins) :
    fields.lookup f = some v := by
  induction shape generalizing frames locals with
  | nil => exact h.2.pinned (f, v) hf
  | cons l shape ih =>
      obtain ⟨_, _, _, _, -, -, -, hrest⟩ := h
      exact ih hrest

end Targets

section Fields

variable {s : Session} {v : View} {f : String} {it : Value}

theorem eval_hasNext_field (hs : s.recv = receiverName) (h : v.fields.lookup f = some it) :
    ((fieldExpr f).method "HasNext").eval s v =
      (do return .bool (← cursorHasNext s (← it.asCursor))) := by
  have heval := eval_fieldExpr hs h
  have hname : (fieldExpr f).isName s.runtime = false := by
    simp [Expr.isName, fieldExpr, Expr.name?]
  simp only [Expr.method, Expr.eval, hname, heval]
  rfl

theorem evalMulti_next_field (hs : s.recv = receiverName) (h : v.fields.lookup f = some it) :
    ((fieldExpr f).method "Next").evalMulti s v = nextValues s it := by
  have heval := eval_fieldExpr hs h
  simp only [Expr.method, Expr.evalMulti, heval, nextValues]
  rfl

/-- Asking the iterator in a field whether it has another element. -/
theorem hasNext_field_sync {g : Ground} (hs : s.recv = receiverName) (hf : (f, it) ∈ g.pins) :
    Sync (Linked g []) (fun _ => Linked g []) (iteratorHasNext s it)
      (holds s ((fieldExpr f).method "HasNext")) := by
  refine Sync.onHeap_eq fun m mt hm => ?_
  rw [eval_hasNext_field hs (hm.frames.pinned hf)]
  simp [Value.asBool]

end Fields

section Headers

variable {S : Setting} {g : Ground} {c : Visible} {s : Session} {d d' : Draft}
  {env inner : StateEnv} {w : Walk}

/-- The statement of a condition state that takes the next element. -/
def takeField (it : String) (key value : Expr) : Stmt :=
  .assign .set [key, value] [(fieldExpr it).method "Next"]

theorem Ground.Fits.pin (h : g.Fits c env d) {it : String} (v : Value) {d' : Draft}
    (hused : d'.used = it :: d.used) : (g.pin it v).Fits c env d' where
  resolves := ⟨h.resolves.plain, h.resolves.field, h.resolves.stored, h.resolves.blank⟩
  used f hf := by
    rw [hused]
    simp only [Ground.taken, Ground.pin, List.map_cons, List.mem_append, List.mem_cons] at hf
    rcases hf with hf | rfl | hf
    · exact .tail _ (h.used f (List.mem_append_left _ hf))
    · exact .head _
    · exact .tail _ (h.used f (List.mem_append_right _ hf))
  room := h.room

/-- Keeping the value of an expression in a free field. -/
theorem pin_tracks (hs : s.recv = receiverName) (hrun : c.runtime = s.runtime)
    (hr : Resolves g [] c env.renames) {e : Expr} (he : e.Clear c) {it : String}
    (hit : it ∈ g.fields) (hfree : it ∉ g.taken) (n : Nat) {m mt : Memory}
    (hm : Linked g [] m mt) :
    Tracks (fun v _ m mt => Linked (g.pin it v) [] m mt) (.ofResult (evaluate s e m))
      (inScope ((Stmt.assign .set [fieldExpr it] [env.resolve e]).exec s n) mt) := by
  have hscope : Resolves g oneScope c env.renames := hr.push rfl
  have heval : Sync (Linked g oneScope) (fun _ => Linked g oneScope) (evaluate s e)
      (evaluate s (env.resolve e)) :=
    Sync.onHeap_eq fun m mt hm => hm.eval_rename hscope hs hrun e he
  have hmatch := heval _ _ hm.pushTable
  have hexec : (Stmt.assign .set [fieldExpr it] [env.resolve e]).exec s n = (do
      let v ← evaluate s (env.resolve e)
      store s false (fieldExpr it) v
      pure Control.normal) := by
    rw [Stmt.exec, execAssign_single rfl, bind_assoc]
    rfl
  rw [hexec]
  simp only [inScope]
  rw [eff_bind_apply]
  show Tracks _ _ ((_ >>= _ : Eff Memory Control) { mt with frames := [] :: mt.frames })
  rw [eff_bind_apply, eff_bind_apply]
  cases hx : evaluate s e m with
  | error e' m' =>
      cases hy : evaluate s (env.resolve e) { mt with frames := [] :: mt.frames } with
      | error e'' mt' =>
          rw [hx, hy] at hmatch
          exact hmatch
      | ok v mt' =>
          rw [hx, hy] at hmatch
          exact hmatch.elim
  | ok v m' =>
      cases hy : evaluate s (env.resolve e) { mt with frames := [] :: mt.frames } with
      | error e'' mt' =>
          rw [hx, hy] at hmatch
          exact hmatch.elim
      | ok v' mt' =>
          rw [hx, hy] at hmatch
          obtain ⟨rfl, hm'⟩ := hmatch
          have hm'' : Linked g [] m' { mt' with frames := mt'.frames.tail } := hm'.pop
          obtain ⟨hframes, hstored⟩ := hm''.stored
          obtain ⟨old, hold⟩ := Option.isSome_iff_exists.mp (hstored.present it hit)
          simp only [store_fieldExpr]
          rw [eff_bind_apply, assignField_apply hs it v' mt' hold]
          exact ⟨hm'.fields, hm'.heap, hframes, hstored.pin hit hfree v'⟩

/-- Taking the next element from the iterator in a field. -/
theorem takeField_sync (hs : s.recv = receiverName) {g' : Ground} {it : String} {v : Value}
    (hit : (it, v) ∈ g.pins) {key value : Expr} (n : Nat)
    (hkeep : ∀ values, Sync (Linked g oneScope) (fun _ => Linked g' oneScope)
      (storeAll s w.define [w.key.orBlank, w.value.orBlank] values)
      (storeAll s false [key, value] values)) :
    Sync (Linked g []) (fun _ => Linked g' []) (do
        w.advance s v
        pure Control.normal)
      (inScope ((takeField it key value).exec s n)) := by
  refine Sync.inTable ?_
  rw [w.advance_eq, takeField, Stmt.exec, execAssign_eq]
  have hvalues : Sync (Linked g oneScope) (fun _ => Linked g oneScope)
      (onHeap fun _ => nextValues s v)
      (onHeap (rightValues s 2 [(fieldExpr it).method "Next"])) := by
    refine Sync.onHeap_eq fun m mt hm => ?_
    have hit' : mt.view.fields.lookup it = some v := hm.frames.pinned hit
    rw [← evalMulti_next_field hs hit']
    simp only [rightValues, Nat.le_refl, if_true]
  exact (hvalues.bind fun values => hkeep values).bind fun _ => Sync.pure fun _ _ h => h

/-- The key and the value of a loop over an iterator. -/
theorem lowerTargets_hoisted (hs : s.recv = receiverName) (hrun : c.runtime = s.runtime)
    {inner₁ : StateEnv} {d₂ : Draft} {key value : Expr}
    (hkey : lowerTarget w.define w.key w.keyType env env d = .ok ((key, inner₁), d₂))
    (hvalue : lowerTarget w.define w.value w.valueType env inner₁ d₂ = .ok ((value, inner), d'))
    (hreg : w.Regular) (hnames : ∀ x ∈ w.names, x ∉ reservedNames ∧ x ∈ c.vars)
    (hassign : w.define = false → w.key.TargetClear c ∧ w.value.TargetClear c)
    (hfits : g.Fits c env d) (hfields : ∀ f ∈ d'.fields.map Prod.fst, f ∈ g.fields) :
    ∃ g', g'.Fits c inner d' ∧ g'.pop = g.pop ∧
      ∀ values, Sync (Linked g oneScope) (fun _ => Linked g' oneScope)
        (storeAll s w.define [w.key.orBlank, w.value.orBlank] values)
        (storeAll s false [key, value] values) := by
  have hdefine : ∀ e ∈ [w.key, w.value], w.define = true →
      (e.isMissing = true ∨ e.name?.isSome = true) ∧
        ∀ x, e.name? = some x → x ≠ "_" → x ∉ reservedNames ∧ x ∈ c.vars := by
    intro e he hd
    refine ⟨hreg hd e he, fun x hx hblank => hnames x ?_⟩
    simp only [Walk.names, hd, if_true, List.mem_filter, List.mem_filterMap]
    exact ⟨⟨e, he, hx⟩, by simpa using hblank⟩
  have hext : d₂.fields <+: d'.fields :=
    ((lowerTarget_ensures (E := fun _ => True) _ _ _ _ _).ok hvalue).1.2.fields
  obtain ⟨g₁, hheld₁⟩ := lowerTarget_hoisted hs hrun hkey
    (hdefine _ (by simp)) (fun hd => ⟨(hassign hd).1, hfits.resolves⟩) hfits
    fun f hf => hfields f ((hext.map Prod.fst).subset hf)
  obtain ⟨g₂, hheld₂⟩ := lowerTarget_hoisted hs hrun hvalue
    (hdefine _ (by simp)) (fun hd => ⟨(hassign hd).2, by
      rw [(hheld₁.same hd).1]
      exact hfits.resolves⟩) hheld₁.fits (by
      rw [Ground.fields_of_pop hheld₁.pop]
      exact hfields)
  refine ⟨g₂, hheld₂.fits, hheld₂.pop.trans hheld₁.pop, fun values => ?_⟩
  rcases values with _ | ⟨a, _ | ⟨b, values⟩⟩
  · exact Sync.throw (fun _ _ h => h.heap) Iff.rfl
  · exact (hheld₁.store a).bind fun _ => Sync.throw (fun _ _ h => h.heap) Iff.rfl
  · exact (hheld₁.store a).bind fun _ => (hheld₂.store b).bind fun _ => Sync.pure fun _ _ h => h

/-- What lowering the header of a loop over an iterator consists of. -/
theorem Walk.lower_ok {plan : Plan} {current condState bodyState : Nat}
    (h : w.lower plan current env d = .ok ((condState, bodyState, inner), d')) :
    ∃ it key value inner₁ d₁ d₂ d₃,
      hoistIterator (w.iteratorType plan env)
        (d.reserve.append current (.jump d.size .missing)) = .ok (it, d₁) ∧
      lowerTarget w.define w.key w.keyType env env
        (d₁.append d.size (.exec (.assign .set [fieldExpr it] [env.resolve w.x]))) =
          .ok ((key, inner₁), d₂) ∧
      lowerTarget w.define w.value w.valueType env inner₁ d₂ = .ok ((value, inner), d₃) ∧
      condState = d₃.size ∧ bodyState = d₃.size + 1 ∧
      d' = ((d₃.reserve.append d.size (.jump d₃.size .missing)).reserve.append d₃.size
        (.when ((fieldExpr it).method "HasNext")
          [.exec (takeField it key value), .jump (d₃.size + 1) .missing])).append d₃.size
        (.jump env.next .missing) := by
  unfold Walk.lower at h
  rw [newState_bind, emit_bind, bind_ok] at h
  obtain ⟨it, d₁, hit, h⟩ := h
  rw [emit_bind, bind_ok] at h
  obtain ⟨⟨key, inner₁⟩, d₂, hkey, h⟩ := h
  rw [bind_ok] at h
  obtain ⟨⟨value, inner₂⟩, d₃, hvalue, h⟩ := h
  have hsize : (d₃.reserve.append d.size (.jump d₃.size .missing)).size = d₃.size + 1 := by
    rw [Draft.size_append, Draft.size_reserve]
  dsimp only at h
  rw [newState_bind, emit_bind, newState_bind, emit_bind, emit_bind, pure_ok, hsize] at h
  obtain ⟨hpair, hd⟩ := h
  obtain ⟨rfl, rfl, rfl⟩ : d₃.size = condState ∧ d₃.size + 1 = bodyState ∧ inner₂ = inner := by
    simpa using hpair
  exact ⟨it, key, value, inner₁, d₁, d₂, d₃, hit, hkey, hvalue, rfl, rfl, hd.symm⟩

/-- What the table does for the header of a loop over an iterator.  The field `it` keeps
the iterator; the condition state asks it, and takes the next key and value on the way into
the body, where they have fields of their own. -/
structure Walk.Headed (S : Setting) (w : Walk) (g : Ground) (c : Visible) (it : String)
    (take : Stmt) (current start condState bodyState : Nat) (env inner : StateEnv) (d' : Draft) :
    Prop where
  capture : ∀ {rounds : Nat} {f : Value → Memory → Course Ending},
    (∀ v m mt, Linked (g.pin it v) [] m mt → S.Sim rounds (f v m) (S.enter condState mt)) →
    ∀ {m mt}, Linked g [] m mt →
      S.Sim rounds ((Course.ofResult (evaluate S.session w.x m)).bind f)
        (S.resume current start mt)
  test : condState < S.states.length ∧ ∀ mt, S.resume condState 0 mt =
    after (holds S.session ((fieldExpr it).method "HasNext"))
      (fun b => if b then
          after (inScope (take.exec S.session S.turns)) (fun _ => S.enter bodyState)
        else S.enter env.next) mt
  body : d'.ops bodyState = [] ∧ bodyState < S.states.length
  advance : ∀ v, ∃ g', g'.Fits c inner d' ∧ g'.pop = g.pin it v ∧
    Sync (Linked (g.pin it v).push []) (fun _ => Linked g' []) (do
        w.advance S.session v
        pure Control.normal)
      (inScope (take.exec S.session S.turns))

/-- The condition state of a loop over an iterator. -/
theorem resume_takeField (hS : S.Ready) {it : String} {key value : Expr} {q body exit : Nat}
    (hq : q < d.size) (hops : d.ops q = [])
    (hwithin : ((d.append q (.when ((fieldExpr it).method "HasNext")
      [.exec (takeField it key value), .jump body .missing])).append q
      (.jump exit .missing)).Within S.states S.fields) (mt : Memory) :
    S.resume q 0 mt =
      after (holds S.session ((fieldExpr it).method "HasNext"))
        (fun b => if b then
            after (inScope ((takeField it key value).exec S.session S.turns))
              (fun _ => S.enter body)
          else S.enter exit) mt := by
  have hexit : exit < S.states.length :=
    hS.jump_lt (by simpa using hq) hwithin .missing (by simp [Op.parts])
  have hbody : body < S.states.length :=
    hS.jump_lt hq hwithin.of_append .missing (by simp [Op.parts, opsParts])
  have hposition : S.resume q 0 mt = S.resume q (d.ops q).length mt := by
    rw [hops]
    rfl
  rw [hposition]
  unfold Setting.resume
  rw [hwithin.of_append.drop_append hq, hwithin.drop_append (by simpa using hq), running_when]
  refine after_congr _ (fun b m => ?_) mt
  cases b with
  | false => exact running_jump hexit _ m
  | true =>
      simp only [if_true, List.cons_append]
      rw [running_exec]
      exact after_congr _ (fun _ m => running_jump hbody _ m) m

/-- The first two states of a loop over an iterator: the iterator goes into its field. -/
theorem Walk.capture_simulated (hS : S.Ready) {current : Nat} {it : String} {d₁ d₃ : Draft}
    (hstates₁ : d₁.states = (d.reserve.append current (.jump d.size .missing)).states)
    (hstates₃ : d₃.states =
      (d₁.append d.size (.exec (.assign .set [fieldExpr it] [env.resolve w.x]))).states)
    (hcurrent : current < d.size)
    (hfirst : (d.reserve.append current (.jump d.size .missing)).Within S.states S.fields)
    (hexec : (d₁.append d.size (.exec (.assign .set [fieldExpr it]
      [env.resolve w.x]))).Within S.states S.fields)
    (hjump : (d₃.reserve.append d.size (.jump d₃.size .missing)).Within S.states S.fields)
    (hrun : c.runtime = S.session.runtime) (hr : Resolves g [] c env.renames)
    (hclear : w.x.Clear c) (hpin : it ∈ g.fields) (hfree : it ∉ g.taken) {rounds : Nat}
    {f : Value → Memory → Course Ending}
    (hrest : ∀ v m mt, Linked (g.pin it v) [] m mt → S.Sim rounds (f v m) (S.enter d₃.size mt))
    {m mt : Memory} (hm : Linked g [] m mt) :
    S.Sim rounds ((Course.ofResult (evaluate S.session w.x m)).bind f)
      (S.resume current (d.ops current).length mt) := by
  have hsize₁ : d₁.size = d.size + 1 := by
    rw [Draft.size, hstates₁, ← Draft.size, Draft.size_append, Draft.size_reserve]
  have hsize₃ : d₃.size = d.size + 1 := by
    rw [Draft.size, hstates₃, ← Draft.size, Draft.size_append, hsize₁]
  have hstart : S.resume current (d.ops current).length mt = S.enter d.size mt := by
    rw [← d.ops_reserve]
    exact Setting.resume_jump hS (by simp; omega) hfirst
  have hops : d₁.ops d.size = [] := by
    rw [Draft.ops_of_states hstates₁, Draft.ops_entered hcurrent (Nat.le_refl _)]
  have hzero : S.resume d.size 0 mt = after (inScope
      ((Stmt.assign .set [fieldExpr it] [env.resolve w.x]).exec S.session S.turns))
      (fun _ => S.enter d₃.size) mt := by
    have hrun : S.resume d.size (d₁.ops d.size).length mt = _ :=
      Setting.resume_exec (by omega) hexec
    rw [hops, List.length_nil] at hrun
    rw [hrun]
    refine after_congr _ (fun _ m => ?_) mt
    rw [← Draft.ops_of_states hstates₃, ← d₃.ops_reserve]
    exact Setting.resume_jump hS (by simp; omega) hjump
  have hsize := hfirst.size
  simp only [Draft.size_append, Draft.size_reserve] at hsize
  rw [hstart]
  refine Setting.Sim.enter (by omega) ?_
  rw [hzero]
  refine Course.Simulated.tracks (pin_tracks hS.recv hrun hr hclear hpin hfree S.turns hm)
    fun v _ m' mt' hm' => ?_
  exact (hrest v m' mt' hm').mono (Nat.sub_le _ _)

/-- The key and the value of the next element, in a scope around the body. -/
theorem Walk.advance_simulated (hS : S.Ready) {p : Place} (hreg : w.Regular)
    (hplain : w.Plain (p.scopes.visible S.session.runtime))
    (hfits : g.Fits (p.scopes.visible S.session.runtime) env d) {it : String} {d₁ d₂ : Draft}
    (hused : d₁.used = it :: d.used) {inner₁ : StateEnv} {key value : Expr}
    (hkey : lowerTarget w.define w.key w.keyType env env d₁ = .ok ((key, inner₁), d₂))
    (hvalue : lowerTarget w.define w.value w.valueType env inner₁ d₂ = .ok ((value, inner), d'))
    (hfields : ∀ f ∈ d'.fields.map Prod.fst, f ∈ g.fields) (v : Value) :
    ∃ g', g'.Fits ((Scopes.declare ([] :: p.scopes) w.names).visible S.session.runtime) inner d' ∧
      g'.pop = g.pin it v ∧
      Sync (Linked (g.pin it v).push []) (fun _ => Linked g' []) (do
          w.advance S.session v
          pure Control.normal)
        (inScope ((takeField it key value).exec S.session S.turns)) := by
  have hnames : ∀ x ∈ w.names, x ∉ reservedNames := by
    intro x hx
    cases hd : w.define with
    | false => simp [Walk.names, hd] at hx
    | true =>
        have hplain := hplain.2
        rw [if_pos hd] at hplain
        exact hplain x hx
  have hassign : w.define = false →
      w.key.TargetClear ((Scopes.declare ([] :: p.scopes) w.names).visible S.session.runtime) ∧
      w.value.TargetClear
        ((Scopes.declare ([] :: p.scopes) w.names).visible S.session.runtime) := by
    intro hd
    have hclear := hplain.2
    rw [if_neg (by simp [hd])] at hclear
    simpa [Walk.names, hd, Scopes.declare, Scopes.visible] using hclear
  have hvars : ∀ x ∈ (p.scopes.visible S.session.runtime).vars,
      x ∈ ((Scopes.declare ([] :: p.scopes) w.names).visible S.session.runtime).vars :=
    fun x hx => (Scopes.mem_declare ([] :: p.scopes) w.names x).mpr (.inr hx)
  have hinner : (g.pin it v).push.Fits
      ((Scopes.declare ([] :: p.scopes) w.names).visible S.session.runtime) env d₁ :=
    (hfits.pin v hused).push.mono rfl (List.suffix_refl _) hvars
  obtain ⟨g', hfits', hpop, hsync⟩ := lowerTargets_hoisted hS.recv rfl hkey hvalue hreg
    (fun x hx => ⟨hnames x hx, (Scopes.mem_declare _ _ x).mpr (.inl hx)⟩) hassign hinner hfields
  exact ⟨g', hfits', hpop, takeField_sync hS.recv (.head _) S.turns hsync⟩

theorem Walk.lower_simulated (hS : S.Ready) {p : Place} {plan : Plan}
    {current condState bodyState : Nat} (hreg : w.Regular)
    (hplain : w.Plain (p.scopes.visible S.session.runtime))
    (hlow : w.lower plan current env d = .ok ((condState, bodyState, inner), d'))
    (hcurrent : current < d.size) (hwithin : d'.Within S.states S.fields)
    (hfits : g.Fits (p.scopes.visible S.session.runtime) env d) (hg : g.fields = S.fields) :
    ∃ it take, w.Headed S g
      ((Scopes.declare ([] :: p.scopes) w.names).visible S.session.runtime) it take current
      (d.ops current).length condState bodyState env inner d' := by
  obtain ⟨it, key, value, inner₁, d₁, d₂, d₃, hit, hkey, hvalue, rfl, rfl, rfl⟩ :=
    Walk.lower_ok hlow
  obtain ⟨hnew, hused₁, hfield₁, hstates₁⟩ : it ∉ d.used ∧ d₁.used = it :: d.used ∧
      it ∈ d₁.fields.map Prod.fst ∧
      d₁.states = (d.reserve.append current (.jump d.size .missing)).states := by
    cases hit
    exact ⟨freeField_not_mem _ _, rfl, by simp, rfl⟩
  obtain ⟨⟨hstates₂, hext₂⟩, -⟩ := (lowerTarget_ensures (E := fun _ => True) _ _ _ _ _).ok hkey
  obtain ⟨⟨hstates₃, hext₃⟩, -⟩ := (lowerTarget_ensures (E := fun _ => True) _ _ _ _ _).ok hvalue
  have hstates := hstates₃.trans hstates₂
  have hsize₃ : d₃.size = d.size + 1 := by
    rw [Draft.size, hstates, ← Draft.size, Draft.size_append, Draft.size, hstates₁, ← Draft.size,
      Draft.size_append, Draft.size_reserve]
  -- the parts of the table, from the last one back to the first
  have hjump := hwithin.of_append.of_append.of_reserve
  have hwithin₃ := hjump.of_append.of_reserve
  have hexec := hwithin₃.of_extends (hext₂.trans hext₃)
  have hfirst : (d.reserve.append current (.jump d.size .missing)).Within S.states S.fields :=
    hexec.of_append.of_extends ((hoistIterator_ensures (E := fun _ => True) _).ok hit).2
  have hlength : d.size + 3 ≤ S.states.length := by
    have := hwithin.size
    simp only [Draft.size_append, Draft.size_reserve, hsize₃] at this
    exact this
  have hbelow : ∀ f ∈ d₃.fields.map Prod.fst, f ∈ g.fields := by
    rw [hg]
    exact hwithin₃.fields
  have hpin : it ∈ g.fields :=
    hbelow it ((((hext₂.trans hext₃).fields).map Prod.fst).subset hfield₁)
  have hfree : it ∉ g.taken := fun hmem => hnew (hfits.used it hmem)
  refine ⟨it, takeField it key value, fun hrest _ _ hm => ?_, ⟨by omega, fun mt => ?_⟩,
    ⟨?_, by omega⟩, fun v => ?_⟩
  · exact Walk.capture_simulated hS hstates₁ hstates hcurrent hfirst hexec hjump rfl
      hfits.resolves hplain.1 hpin hfree hrest hm
  · refine resume_takeField hS (by simp only [Draft.size_append, Draft.size_reserve]; omega) ?_
      hwithin mt
    rw [Draft.ops_reserve, Draft.ops_entered (by omega) (Nat.le_refl _)]
  · rw [Draft.ops_append_of_ne _ (by omega), Draft.ops_append_of_ne _ (by omega),
      Draft.ops_reserve, Draft.ops_entered (by omega) (by omega)]
  · obtain ⟨g', hfits', hpop, hsync⟩ := Walk.advance_simulated hS hreg hplain hfits
      (show (d₁.append d.size (.exec (.assign .set [fieldExpr it] [env.resolve w.x]))).used = _
        from hused₁) hkey hvalue hbelow v
    exact ⟨g', hfits'.mono rfl (List.suffix_refl _) fun _ hx => hx, hpop, hsync⟩

end Headers

end YieldMachine
