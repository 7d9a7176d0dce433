import YieldMachine.Proofs.Meaning.Mirrors

/-!
# Declarations and iterators inside one state

A declaration and its tree bind the same variables, and so do the header of a loop over an
iterator and the statement that takes the next element from the hidden iterator.
-/

namespace YieldMachine

section Declarations

variable {g : Ground} {shape : Nesting} {l : Local} {c : Visible} {r : Renames} {s : Session}
  {d : VarDecl}

theorem VarDecl.run_of_values (s : Session) (h : d.values ≠ []) :
    d.run s = (do
      let values ← onHeap (rightValues s d.names.length d.values)
      d.bindNames 0 d.names values) := by
  have hempty : d.values.isEmpty = false := by simpa using h
  simp only [VarDecl.run, hempty, Bool.false_eq_true, if_false]
  congr 2
  funext v
  rcases d.names with _ | ⟨a, _ | ⟨b, names⟩⟩ <;>
    rcases d.values with _ | ⟨e, _ | ⟨f, es⟩⟩ <;> simp [rightValues]

theorem VarDecl.run_of_nil (s : Session) (h : d.values = []) :
    d.run s = d.bindZeros 0 d.names := by
  simp [VarDecl.run, h]

/-- Assigning a variable of the innermost scope is binding it again. -/
theorem Linked.assignHead {m mt : Memory} (h : Linked g (l :: shape) m mt) {x : String}
    (hx : x ∉ unreadNames) (hmem : x ∈ l.names) (v : Value) :
    Matches (fun _ => Linked g (l :: shape)) (assignLocal x v m) (bindLocal x v mt) := by
  obtain ⟨hfields, hheap, rows, rest, frame, others, hframes, hlocals, hholds, hover⟩ := h
  have hbound : (findLocal rows x).isSome = true := (hholds.names x hx).mpr hmem
  obtain ⟨rows', hrows⟩ : ∃ rows', assignFrames x v rows = some rows' := by
    cases ha : assignFrames x v rows with
    | some rows' => exact ⟨rows', rfl⟩
    | none =>
        rw [assignFrames_eq_none.mp ha] at hbound
        cases hbound
  have hput : frame.put x v = frame.update x v := by
    unfold Bindings.put
    rw [hholds.agree x hx, if_pos hbound]
  rw [assignLocal_apply, hframes, assignFrames_append, hrows]
  obtain ⟨tf, tframes, theap⟩ := mt
  simp only at hlocals hheap hover
  subst hlocals
  refine ⟨rfl, hfields, hheap, rows', rest, frame.put x v, others, rfl, rfl, ?_, hover⟩
  rw [hput]
  exact hholds.assign hx hrows

/-- Binding the names of a definition. -/
theorem bindNames_sync (hl : 0 < l.rows) {i : Nat} {names : List String}
    (hnames : ∀ x ∈ names, x ∉ reservedNames)
    (hreused : ∀ x ∈ d.reusedFrom i names, x ∈ l.names) (values : List Value) :
    Sync (Linked g (l :: shape))
      (fun _ => Linked g (Nesting.bind (l :: shape) (d.freshFrom i names)))
      (d.bindNames i names values) (storeAll s true (names.map .name) values) := by
  induction names generalizing i values l with
  | nil => exact Sync.pure fun _ _ hm => by simpa [VarDecl.freshFrom] using hm
  | cons x names ih =>
      cases values with
      | nil => exact Sync.throw (fun _ _ hm => hm.heap) Iff.rfl
      | cons v values =>
          have hrest := fun y hy => hnames y (.tail _ hy)
          have hx := hnames x (.head _)
          simp only [VarDecl.bindNames, List.map_cons, storeAll, VarDecl.bindName]
          by_cases hblank : x = "_"
          · subst hblank
            simp only [VarDecl.reusedFrom, VarDecl.freshFrom, ne_eq, not_true, false_and,
              true_or, if_true, if_false] at hreused ⊢
            rw [Expr.name, store_blank]
            exact ih hl hrest hreused values
          · have hunread : x ∉ unreadNames := by
              intro hmem
              rcases List.mem_cons.mp hmem with heq | hmem
              · exact hblank heq
              · exact hx (mem_reservedNames_of_hidden hmem)
            rw [Expr.name, store_name true hblank]
            cases htype : d.reuses i with
            | true =>
                simp only [VarDecl.reusedFrom, VarDecl.freshFrom, ne_eq, hblank, htype,
                  not_false_eq_true, and_self, or_true, if_true, if_false] at hreused ⊢
                have hassign : Sync (Linked g (l :: shape)) (fun _ => Linked g (l :: shape))
                    (assignLocal x v) (bindLocal x v) :=
                  fun m mt hm => hm.assignHead hunread (hreused x (.head _)) v
                exact hassign.bind fun _ =>
                  ih hl hrest (fun y hy => hreused y (.tail _ hy)) values
            | false =>
                simp only [VarDecl.reusedFrom, VarDecl.freshFrom, hblank, htype, or_false,
                  Bool.false_eq_true, and_false, if_true, if_false] at hreused ⊢
                refine (bindLocal_sync hl hx v).bind fun _ => ?_
                refine Sync.mono (ih (l := { l with names := x :: l.names }) hl hrest
                  (fun y hy => .tail _ (hreused y hy)) values) (fun _ _ hm => hm)
                  fun _ m mt hm => hm.congr_names fun y hy => ?_
                simp [or_left_comm]

/-- Binding the blank name on the side of the table. -/
theorem bindBlank_sync (v : Value) :
    Sync (Linked g (l :: shape)) (fun _ => Linked g (l :: shape)) (pure ()) (bindLocal "_" v) := by
  intro m mt h
  obtain ⟨hfields, hheap, rows, rest, frame, others, hframes, hlocals, hholds, hover⟩ := h
  obtain ⟨tf, tframes, theap⟩ := mt
  simp only at hlocals
  subst hlocals
  exact ⟨rfl, hfields, hheap, rows, rest, frame.put "_" v, others, hframes, rfl,
    hholds.bindBlank v, hover⟩

/-- A shared type is that of every name. -/
theorem typeAt?_of_shared (h : d.sharedType.isMissing = false) {i : Nat}
    (hi : i < d.types.length) : d.typeAt? i = some d.sharedType := by
  have htypes : ∃ ty rest, d.types = .own ty :: rest ∧ d.sharedType = ty ∧
      ∀ t ∈ rest, t = .asFirst := by
    unfold VarDecl.sharedType at h ⊢
    split at h
    · cases h
    · cases h
    · rename_i first rest _ htypes
      split at h
      · rename_i hall
        cases first with
        | own ty =>
            refine ⟨ty, rest, htypes, by simp [hall], fun t ht => ?_⟩
            have := List.all_eq_true.mp hall t ht
            cases t <;> simp at this ⊢
        | _ => cases h
      · cases h
  obtain ⟨ty, rest, htypes, hshared, hrest⟩ := htypes
  have hfirst : d.firstType = ty := by simp [VarDecl.firstType, htypes]
  unfold VarDecl.typeAt?
  rw [hshared]
  cases i with
  | zero => simp [htypes]
  | succ i =>
      rw [htypes] at hi ⊢
      simp only [List.length_cons, Nat.add_lt_add_iff_right] at hi
      simp [hi, hrest _ (List.getElem_mem hi), hfirst]

/-- Binding names to the zero value of the type they share. -/
theorem bindZeros_sync (hl : 0 < l.rows) {ty ty' : Expr} (hty : ty.isMissing = false)
    (hzero : zeroValue ty' = zeroValue ty) {i : Nat} {names : List String}
    (htypes : ∀ j < names.length, d.typeAt? (i + j) = some ty)
    (hnames : ∀ x ∈ names, x ∉ reservedNames) :
    Sync (Linked g (l :: shape))
      (fun _ => Linked g (Nesting.bind (l :: shape) (d.freshFrom i names)))
      (d.bindZeros i names) (declareNames s ty' names []) := by
  induction names generalizing i l with
  | nil => exact Sync.pure fun _ _ hm => by simpa [VarDecl.freshFrom] using hm
  | cons x names ih =>
      have htype : d.typeAt? i = some ty := htypes 0 (by simp)
      have hreuses : d.reuses i = false := by simp [VarDecl.reuses, htype, hty]
      have hrest : ∀ j < names.length, d.typeAt? (i + 1 + j) = some ty := by
        intro j hj
        rw [Nat.add_assoc, Nat.add_comm 1 j]
        exact htypes (j + 1) (by simpa using hj)
      simp only [VarDecl.bindZeros, declareNames, hreuses, htype, VarDecl.bindName,
        VarDecl.freshFrom, Bool.false_eq_true, or_false, if_false, Option.getD_some, hzero]
      by_cases hblank : x = "_"
      · simp only [hblank, if_true]
        exact (bindBlank_sync _).bind fun _ => ih hl hrest fun y hy => hnames y (.tail _ hy)
      · simp only [hblank, if_false]
        refine (bindLocal_sync hl (hnames x (.head _)) _).bind fun _ => ?_
        refine Sync.mono (ih (l := { l with names := x :: l.names }) hl hrest
          fun y hy => hnames y (.tail _ hy)) (fun _ _ hm => hm)
          fun _ m mt hm => hm.congr_names fun y hy => ?_
        simp [or_left_comm]

theorem onHeap_evalAll_singleton (e : Expr) :
    (onHeap fun v => evalAll s v [e]) = (do
      let value ← onHeap fun v => e.eval s v
      pure [value]) := by
  funext m
  rw [eff_bind_apply]
  simp only [onHeap, evalAll, eff_bind_apply]
  cases e.eval s m.view m.heap <;> rfl

/-- A declaration without values gives its names the zero value of the type that they share. -/
theorem declareZeros_sync (hl : 0 < l.rows) (hr : Resolves g (l :: shape) c r)
    (htypes : d.types.length = d.names.length)
    (hshared : d.names = [] ∨ d.sharedType.isMissing = false)
    (hzeros : ∀ i type, d.typeAt? i = some type → type.TypeClear c)
    (hnames : ∀ x ∈ d.names, x ∉ reservedNames) :
    Sync (Linked g (l :: shape)) (fun _ => Linked g (Nesting.bind (l :: shape) d.fresh))
      (d.bindZeros 0 d.names)
      (declareNames s (d.sharedType.rename receiverName r) d.names []) := by
  by_cases hempty : d.names = []
  · rw [VarDecl.fresh, hempty]
    exact Sync.pure fun _ _ hm => by simpa [VarDecl.freshFrom] using hm
  · have hshared := hshared.resolve_left hempty
    have htype : ∀ j < d.names.length, d.typeAt? (0 + j) = some d.sharedType := by
      intro j hj
      rw [Nat.zero_add]
      exact typeAt?_of_shared hshared (htypes ▸ hj)
    have hpos : 0 < d.names.length := List.length_pos_iff.mpr hempty
    have hzero := zeroValue_rename hr (hzeros 0 _ (htype 0 hpos))
    exact bindZeros_sync hl hshared hzero htype hnames

/-- A declaration of one name with one value. -/
theorem declareOne_sync (hl : 0 < l.rows) (hr : Resolves g (l :: shape) c r)
    (hs : s.recv = receiverName) (hrun : c.runtime = s.runtime) {x : String} {e type : Expr}
    (hx : d.names = [x]) (he : d.values = [e]) (hclear : e.Clear c)
    (hreused : d.reusedFrom 0 [x] = []) (hname : x ∉ reservedNames) :
    Sync (Linked g (l :: shape)) (fun _ => Linked g (Nesting.bind (l :: shape) d.fresh))
      (d.run s) (declareNames s type [x] [e.rename receiverName r]) := by
  have hright : onHeap (rightValues s d.names.length d.values) = (do
      let value ← onHeap fun v => e.eval s v
      pure [value]) := by
    rw [← onHeap_evalAll_singleton, hx, he]
    rfl
  have heval : Sync (Linked g (l :: shape)) (fun _ => Linked g (l :: shape))
      (onHeap fun v => e.eval s v)
      (onHeap fun v => (e.rename receiverName r).eval s v) :=
    Sync.onHeap_eq fun m mt hm => hm.eval_rename hr hs hrun e hclear
  rw [d.run_of_values s (by simp [he]), hright, bind_assoc, VarDecl.fresh, hx]
  simp only [declareNames, pure_bind]
  refine heval.bind fun value => ?_
  simp only [VarDecl.bindNames, VarDecl.bindName, VarDecl.freshFrom]
  rw [bind_pure_unit, bind_pure_unit]
  by_cases hblank : x = "_"
  · simp only [hblank, if_true, true_or, Nesting.bind_nil]
    exact bindBlank_sync value
  · have hreuses : d.reuses 0 = false := by
      cases hr0 : d.reuses 0 with
      | false => rfl
      | true => simp [VarDecl.reusedFrom, hblank, hr0] at hreused
    simp only [hblank, hreuses, Bool.false_eq_true, or_false, if_false]
    exact bindLocal_sync hl hname value

/-- A declaration and its tree. -/
theorem declare_sync {scopes : Scopes} (hl : 0 < l.rows) (hr : Resolves g (l :: shape) c r)
    (hs : s.recv = receiverName) (hrun : c.runtime = s.runtime) (hreg : d.Regular scopes)
    (hplain : d.Plain c) (hscope : ∀ x ∈ scopes.headD [], x ∈ l.names) (n : Nat) :
    Sync (Linked g (l :: shape)) (fun _ => Linked g (Nesting.bind (l :: shape) d.fresh))
      (do
        d.run s
        pure Control.normal)
      ((d.toStmt.rename receiverName r).1.exec s n) := by
  obtain ⟨htypes, -, hshape⟩ := hreg
  obtain ⟨hnames, hvalues, hzeros⟩ := hplain
  cases hdefine : d.define with
  | true =>
      simp only [hdefine, if_true] at hshape
      have hstmt : d.toStmt = .assign .define (d.names.map .name) d.values := by
        simp [VarDecl.toStmt, hdefine]
      rw [hstmt, d.run_of_values s hshape.1]
      simp only [Stmt.rename, Stmt.exec]
      rw [execAssign_eq, List.length_map]
      refine Sync.bind ((rightValues_sync hr hs hrun _ hvalues).bind fun values => ?_)
        fun _ => Sync.pure fun _ _ hm => hm
      exact bindNames_sync hl hnames (fun x hx => hscope x (hshape.2 x hx)) values
  | false =>
      simp only [hdefine, Bool.false_eq_true, if_false] at hshape
      have hstmt : d.toStmt = .decl .var [.value d.names d.sharedType d.values] := by
        simp [VarDecl.toStmt, hdefine]
      rw [hstmt]
      simp only [Stmt.rename, renameSpecs, Spec.rename, Stmt.exec, declareSpecs]
      rw [bind_pure_unit]
      refine Sync.bind ?_ fun _ => Sync.pure fun _ _ hm => hm
      obtain ⟨hreused, ⟨hnone, hshared⟩ | ⟨hone, hvalue⟩⟩ := hshape
      · rw [d.run_of_nil s hnone, hnone]
        exact declareZeros_sync hl hr htypes hshared (hzeros hnone) hnames
      · obtain ⟨x, hx⟩ := List.length_eq_one_iff.mp hone
        obtain ⟨e, he⟩ := List.length_eq_one_iff.mp hvalue
        rw [he] at hvalues
        rw [hx] at hreused hnames ⊢
        rw [he]
        exact declareOne_sync hl hr hs hrun hx he hvalues.1 hreused (hnames x (.head _))

theorem VarDecl.mem_names (i : Nat) (names : List String) (x : String) (hx : x ≠ "_") :
    x ∈ names ↔ x ∈ d.freshFrom i names ∨ x ∈ d.reusedFrom i names := by
  induction names generalizing i with
  | nil => simp [freshFrom, reusedFrom]
  | cons y names ih =>
      simp only [freshFrom, reusedFrom, List.mem_cons, ih (i + 1)]
      by_cases hy : y = "_"
      · subst hy
        simp [hx]
      · cases d.reuses i <;> simp [hy, or_assoc, or_left_comm]

theorem VarDecl.binds_toStmt (d : VarDecl) : d.toStmt.binds = d.names := by
  unfold VarDecl.toStmt
  split
  · simp [Stmt.binds, List.filterMap_map, Function.comp_def, Expr.name, Expr.name?]
  · simp [Stmt.binds, Spec.names]

theorem Scopes.mem_declare (scopes : Scopes) (names : List String) (x : String) :
    x ∈ (scopes.declare names).flatten ↔ x ∈ names ∨ x ∈ scopes.flatten := by
  cases scopes with
  | nil => simp [Scopes.declare]
  | cons scope outer => simp [Scopes.declare]

/-- The bindings after the tree of a declaration. -/
theorem Resolves.after_declare {runtime : String} {scopes : Scopes}
    (hr : Resolves g (l :: shape) (scopes.visible runtime) r)
    (hreused : ∀ x ∈ d.reusedFrom 0 d.names, x ∈ l.names) :
    Resolves g (Nesting.bind (l :: shape) d.fresh) ((scopes.declare d.fresh).visible runtime)
      (d.toStmt.rename receiverName r).2 := by
  rw [Stmt.rename_snd, VarDecl.binds_toStmt]
  refine ((hr.shadowAll d.names).congr_shape fun x hx => ?_).mono fun x hx => ?_
  · rw [Nesting.binds_bind, Nesting.binds_bind, VarDecl.mem_names (d := d) 0 d.names x hx]
    constructor
    · rintro ((hfresh | hmem) | hb)
      · exact .inl hfresh
      · exact .inr ⟨l, .head _, hreused x hmem⟩
      · exact .inr hb
    · rintro (hfresh | hb)
      · exact .inl (.inl hfresh)
      · exact .inr hb
  · rw [Visible.mem_without] at hx
    exact (Scopes.mem_declare scopes d.fresh x).mpr (.inr hx.1)

end Declarations

section Iterators

variable {g : Ground} {shape : Nesting} {l : Local} {c : Visible} {r : Renames} {s : Session}

/-- A name that a scope of the table holds for itself. -/
theorem View.name_iterator {v : View} {s : Session} {it : Value}
    (h : v.local? iteratorName = some it) :
    v.name s iteratorName = pure it :=
  View.name_of_local (by decide) h

theorem eval_hasNext {v : View} {it : Value} (hruntime : s.runtime ≠ iteratorName)
    (h : v.local? iteratorName = some it) :
    ((Expr.name iteratorName).method "HasNext").eval s v =
      (do return .bool (← cursorHasNext s (← it.asCursor))) := by
  have hname : (Expr.name iteratorName).isName s.runtime = false := by
    simp [Expr.isName, Expr.name, Expr.name?, Ne.symm hruntime]
  have heval : (Expr.name iteratorName).eval s v = pure it := View.name_iterator h
  simp only [Expr.method, Expr.eval, hname, heval]
  rfl

theorem evalMulti_next {v : View} {it : Value} (h : v.local? iteratorName = some it) :
    ((Expr.name iteratorName).method "Next").evalMulti s v = (do
      let (key, value) ← cursorNext s (← it.asCursor)
      pure [key, value]) := by
  have heval : (Expr.name iteratorName).eval s v = pure it := View.name_iterator h
  simp only [Expr.method, Expr.evalMulti, heval]
  rfl

/-- A hidden variable, seen from its scope and from an inner one. -/
theorem Linked.local_hidden {m mt : Memory} {x : String} {v : Value} (hx : x ∈ hiddenNames)
    (hl : l.pins.lookup x = some v) (h : Linked g (l :: shape) m mt) :
    mt.view.local? x = some v := by
  obtain ⟨-, -, rows, rest, frame, others, -, hlocals, hholds, -⟩ := h
  show findLocal mt.frames x = some v
  rw [hlocals, findLocal_cons, hholds.hidden x hx, hl]
  rfl

theorem Linked.local_hidden_inner {m mt : Memory} {k : Local} {x : String} {v : Value}
    (hx : x ∈ hiddenNames) (hk : k.pins.lookup x = none) (hl : l.pins.lookup x = some v)
    (h : Linked g (k :: l :: shape) m mt) : mt.view.local? x = some v := by
  obtain ⟨-, -, rows, rest, frame, others, -, hlocals, hholds, hover⟩ := h
  obtain ⟨rows', rest', frame', others', -, hlocals', hholds', -⟩ := hover
  show findLocal mt.frames x = some v
  rw [hlocals, hlocals', findLocal_cons, findLocal_cons, hholds.hidden x hx, hk,
    hholds'.hidden x hx, hl]
  rfl

/-- An assignment of one value to one target. -/
theorem execAssign_single {kind : AssignKind} (hkind : kind.operator? = none) (target e : Expr) :
    execAssign s kind [target] [e] = (do
      let value ← onHeap fun v => e.eval s v
      store s (kind == .define) target value) := by
  have hright : onHeap (rightValues s [target].length [e]) = (do
      let value ← onHeap fun v => e.eval s v
      pure [value]) := by
    rw [← onHeap_evalAll_singleton]
    rfl
  rw [execAssign_eq, hright, bind_assoc]
  simp only [pure_bind, updatedValues, hkind, storeAll]
  congr 1
  funext value
  exact bind_pure_unit

/-- A hidden variable that the table declares for itself. -/
theorem Linked.bindHidden {m mt : Memory} {x : String} (hx : x ∈ hiddenNames) (v : Value)
    (h : Linked g (⟨0, [], []⟩ :: shape) m mt) :
    ∃ mt', bindLocal x v mt = .ok () mt' ∧ Linked g (⟨0, [], [(x, v)]⟩ :: shape) m mt' := by
  obtain ⟨hfields, hheap, rows, rest, frame, others, hframes, hlocals, hholds, hover⟩ := h
  obtain ⟨tf, tframes, theap⟩ := mt
  simp only at hlocals
  subst hlocals
  exact ⟨_, rfl, hfields, hheap, rows, rest, frame.put x v, others, hframes, rfl,
    hholds.bindHidden hx v (fun _ _ => rfl), hover⟩

/-- A hidden variable that the table assigns for itself. -/
theorem Linked.assignHidden {m mt : Memory} {x : String} (hx : x ∈ hiddenNames) {w : Value}
    (v : Value) (h : Linked g (⟨0, [], [(x, w)]⟩ :: shape) m mt) :
    ∃ mt', assignLocal x v mt = .ok () mt' ∧ Linked g (⟨0, [], [(x, v)]⟩ :: shape) m mt' := by
  obtain ⟨hfields, hheap, rows, rest, frame, others, hframes, hlocals, hholds, hover⟩ := h
  have hbound : frame.lookup x = some w := by
    rw [hholds.hidden x hx]
    simp
  have hput : frame.update x v = frame.put x v := by
    unfold Bindings.put
    rw [hbound]
    rfl
  have hassign : assignFrames x v mt.frames = some (frame.put x v :: others) := by
    rw [hlocals, assignFrames, hbound, hput]
    rfl
  refine ⟨{ mt with frames := frame.put x v :: others }, by rw [assignLocal_apply, hassign],
    hfields, hheap, rows, rest, frame.put x v, others, hframes, rfl,
    hholds.bindHidden hx v fun y hy => ?_, hover⟩
  have hne : (y == x) = false := by simpa using hy
  simp [List.lookup_cons, hne]

/-- Asking the hidden iterator whether it has another element. -/
theorem hasNext_sync (hr : Resolves g shape c r) (hruntime : s.runtime ≠ iteratorName)
    (it : Value) :
    Sync (Linked g (⟨0, [], [(iteratorName, it)]⟩ :: shape))
      (fun _ => Linked g (⟨0, [], [(iteratorName, it)]⟩ :: shape)) (iteratorHasNext s it)
      (condition s (((Expr.name iteratorName).method "HasNext").rename receiverName r)) := by
  have hname : ((Expr.name iteratorName).method "HasNext").rename receiverName r =
      (Expr.name iteratorName).method "HasNext" := by
    simp only [Expr.method, Expr.rename, Expr.name, renameExprs]
    rw [hr.apply_of_reserved (by decide)]
    rfl
  have hcond : condition s ((Expr.name iteratorName).method "HasNext") =
      (onHeap fun v => do (← ((Expr.name iteratorName).method "HasNext").eval s v).asBool) := rfl
  rw [hname, hcond]
  refine Sync.onHeap_eq fun m mt hm => ?_
  rw [eval_hasNext hruntime (hm.local_hidden (by decide) rfl)]
  simp [Value.asBool]

/-- The key and the value that an iterator gives, as a list. -/
def nextValues (s : Session) (it : Value) : Eff Heap (List Value) := do
  let (key, value) ← cursorNext s (← it.asCursor)
  pure [key, value]

theorem Walk.advance_eq (w : Walk) (it : Value) :
    w.advance s it = (do
      let values ← onHeap fun _ => nextValues s it
      storeAll s w.define [w.key.orBlank, w.value.orBlank] values) := by
  have hnext : (onHeap fun _ => nextValues s it) = (do
      let (key, value) ← onHeap fun _ => do cursorNext s (← it.asCursor)
      pure [key, value]) := by
    funext m
    rw [eff_bind_apply]
    simp only [onHeap, nextValues, eff_bind_apply]
    cases it.asCursor m.heap with
    | error e h => rfl
    | ok id h => cases hc : cursorNext s id h <;> simp [hc]
  rw [hnext, bind_assoc]
  unfold Walk.advance
  congr 1
  funext pair
  simp only [pure_bind, storeAll, bind_pure_unit]

theorem Walk.mem_names (w : Walk) (hdefine : w.define = true) (x : String) (hx : x ≠ "_") :
    x ∈ [w.key.orBlank, w.value.orBlank].filterMap Expr.name? ↔ x ∈ w.names := by
  have horBlank : ∀ e : Expr, e.orBlank.name? = some x ↔ e.name? = some x := by
    intro e
    cases e with
    | missing => simp [Expr.orBlank, Expr.name, Expr.name?, Ne.symm hx]
    | _ => exact Iff.rfl
  simp [Walk.names, hdefine, hx, horBlank]

theorem Expr.orBlank_clear {e : Expr} (h : e.TargetClear c) : e.orBlank.TargetClear c := by
  cases e with
  | missing => exact .inl rfl
  | _ => exact h

theorem Expr.orBlank_orBlank (e : Expr) : e.orBlank.orBlank = e.orBlank := by
  cases e <;> rfl

theorem Expr.isBlank_orBlank (e : Expr) : e.orBlank.isBlank = e.isBlank := by
  cases e <;> rfl

theorem Expr.orBlank_eq_ident {e : Expr} (h : e.isMissing = true ∨ e.name?.isSome = true) :
    ∃ x kept, e.orBlank = .ident x kept := by
  cases e with
  | missing => exact ⟨"_", false, rfl⟩
  | ident x kept => exact ⟨x, kept, rfl⟩
  | _ => rcases h with h | h <;> cases h

theorem Expr.name_of_isBlank {e : Expr} (h : e.isBlank = true) {x : String}
    (hx : e.name? = some x) : x = "_" := by
  cases e with
  | ident y kept =>
      obtain rfl : y = x := Option.some.inj hx
      simpa [isBlank, isName, name?] using h
  | _ => cases hx

/-- Defining blank targets is assigning them. -/
theorem storeAll_blank {lhs : List Expr} (h : ∀ e ∈ lhs, e.orBlank = e ∧ e.isBlank = true)
    (values : List Value) : storeAll s true lhs values = storeAll s false lhs values := by
  induction lhs generalizing values with
  | nil => rfl
  | cons e lhs ih =>
      obtain ⟨hor, hblank⟩ := h e (.head _)
      obtain ⟨kept, rfl⟩ : ∃ kept, e = .ident "_" kept := by
        cases e with
        | ident x kept =>
            have hx : x = "_" := by simpa [Expr.isBlank, Expr.isName, Expr.name?] using hblank
            exact ⟨kept, by rw [hx]⟩
        | missing => cases hor
        | _ => cases hblank
      cases values with
      | nil => rfl
      | cons v values =>
          simp only [storeAll, store_blank]
          rw [ih fun e he => h e (.tail _ he)]

/-- Whether an iterator loop declares anything: it defines its targets, and one of them is
not discarded. -/
def Walk.binding (w : Walk) : Bool := w.define && !(w.key.isBlank && w.value.isBlank)

theorem Walk.take_eq (w : Walk) :
    w.take = .assign (if w.binding then .define else .set) [w.key.orBlank, w.value.orBlank]
      [(Expr.name iteratorName).method "Next"] := rfl

/-- A loop that declares nothing has no names. -/
theorem Walk.names_eq_nil {w : Walk} (h : w.binding = false) : w.names = [] := by
  cases hdefine : w.define with
  | false => simp [Walk.names, hdefine]
  | true =>
      rw [Walk.binding, hdefine, Bool.true_and, Bool.not_eq_false', Bool.and_eq_true_iff] at h
      rw [Walk.names, if_pos hdefine, List.filter_eq_nil_iff]
      intro x hx
      obtain ⟨e, he, hex⟩ := List.mem_filterMap.mp hx
      simp only [List.mem_cons, List.not_mem_nil, or_false] at he
      rcases he with rfl | rfl
      · simp [Expr.name_of_isBlank h.1 hex]
      · simp [Expr.name_of_isBlank h.2 hex]

/-- The targets of a loop that declares its key or value. -/
theorem Walk.targets_ident {w : Walk} (hreg : w.Regular) (hdefine : w.define = true)
    (hnames : ∀ x ∈ w.names, x ∉ reservedNames) :
    ∀ e ∈ [w.key.orBlank, w.value.orBlank],
      ∃ x kept, e = .ident x kept ∧ x ∉ reservedNames := by
  intro e he
  obtain ⟨x, kept, rfl⟩ : ∃ x kept, e = .ident x kept := by
    obtain ⟨e', he', rfl⟩ : ∃ e' ∈ [w.key, w.value], e = e'.orBlank := by simpa using he
    exact Expr.orBlank_eq_ident (hreg hdefine e' he')
  refine ⟨x, kept, rfl, ?_⟩
  by_cases hx : x = "_"
  · rw [hx]
    decide
  · refine hnames x ((w.mem_names hdefine x hx).mp ?_)
    exact List.mem_filterMap.mpr ⟨_, he, rfl⟩

/-- The targets of a loop that declares nothing: they are plain, and nothing depends on
whether they are defined or assigned. -/
theorem Walk.targets_clear {w : Walk} (h : w.binding = false) (hplain : w.Plain c) :
    (∀ e ∈ [w.key.orBlank, w.value.orBlank], e.TargetClear c) ∧
      ∀ values, storeAll s w.define [w.key.orBlank, w.value.orBlank] values =
        storeAll s false [w.key.orBlank, w.value.orBlank] values := by
  obtain ⟨-, htargets⟩ := hplain
  cases hdefine : w.define with
  | false =>
      simp only [hdefine, Bool.false_eq_true, if_false] at htargets
      refine ⟨?_, fun _ => rfl⟩
      simp only [List.mem_cons, List.not_mem_nil, or_false]
      rintro e (rfl | rfl)
      · exact Expr.orBlank_clear htargets.1
      · exact Expr.orBlank_clear htargets.2
  | true =>
      rw [Walk.binding, hdefine, Bool.true_and, Bool.not_eq_false', Bool.and_eq_true_iff] at h
      have hblank : ∀ e ∈ [w.key.orBlank, w.value.orBlank],
          e.orBlank = e ∧ e.isBlank = true := by
        simp only [List.mem_cons, List.not_mem_nil, or_false]
        rintro e (rfl | rfl)
        · exact ⟨w.key.orBlank_orBlank, by rw [w.key.isBlank_orBlank, h.1]⟩
        · exact ⟨w.value.orBlank_orBlank, by rw [w.value.isBlank_orBlank, h.2]⟩
      exact ⟨fun e he => .inl (hblank e he).2, storeAll_blank hblank⟩

/-- Taking the next key and value on both sides. -/
theorem take_sync {w : Walk} {it : Value}
    (hr : Resolves g (⟨1, [], []⟩ :: ⟨0, [], [(iteratorName, it)]⟩ :: shape) c r)
    (hs : s.recv = receiverName) (hrun : c.runtime = s.runtime) (hreg : w.Regular)
    (hplain : w.Plain c) (n : Nat) :
    Sync (Linked g (⟨1, [], []⟩ :: ⟨0, [], [(iteratorName, it)]⟩ :: shape))
      (fun _ => Linked g (⟨1, w.names, []⟩ :: ⟨0, [], [(iteratorName, it)]⟩ :: shape))
      (do
        w.advance s it
        pure Control.normal)
      ((w.take.rename receiverName r).1.exec s n) := by
  have hnext : ∀ e : Expr, e = (Expr.name iteratorName).method "Next" →
      e.rename receiverName r = e := by
    rintro e rfl
    simp only [Expr.method, Expr.rename, Expr.name, renameExprs]
    rw [hr.apply_of_reserved (by decide)]
    rfl
  have hvalues : Sync (Linked g (⟨1, [], []⟩ :: ⟨0, [], [(iteratorName, it)]⟩ :: shape))
      (fun _ => Linked g (⟨1, [], []⟩ :: ⟨0, [], [(iteratorName, it)]⟩ :: shape))
      (onHeap fun _ => nextValues s it)
      (onHeap (rightValues s 2 [(Expr.name iteratorName).method "Next"])) := by
    refine Sync.onHeap_eq fun m mt hm => ?_
    exact evalMulti_next (hm.local_hidden_inner (by decide) rfl rfl)
  rw [w.advance_eq]
  cases hkind : w.binding with
  | true =>
      obtain ⟨hdefine, -⟩ := Bool.and_eq_true_iff.mp hkind
      have hnames : ∀ x ∈ w.names, x ∉ reservedNames := by
        simpa [Walk.Plain, hdefine] using hplain.2
      have hstmt : (w.take.rename receiverName r).1 =
          .assign .define [w.key.orBlank, w.value.orBlank]
            [(Expr.name iteratorName).method "Next"] := by
        rw [w.take_eq, hkind]
        simp only [if_true, Stmt.rename, renameExprs, hnext _ rfl]
      rw [hstmt, hdefine]
      simp only [Stmt.exec]
      rw [execAssign_eq]
      refine Sync.bind (hvalues.bind fun values => ?_) fun _ => Sync.pure fun _ _ hm => hm
      refine Sync.mono (storeAll_define_sync Nat.one_pos
        (Walk.targets_ident hreg hdefine hnames) values) (fun _ _ hm => hm)
        fun _ m mt hm => hm.congr_names fun x hx => ?_
      have hblank : x ≠ "_" := fun heq => hx (by simp [heq, unreadNames])
      rw [List.append_nil]
      exact w.mem_names hdefine x hblank
  | false =>
      obtain ⟨hclear, hstore⟩ := Walk.targets_clear (s := s) hkind hplain
      have hstmt : (w.take.rename receiverName r).1 =
          .assign .set (renameExprs receiverName r [w.key.orBlank, w.value.orBlank])
            [(Expr.name iteratorName).method "Next"] := by
        rw [w.take_eq, hkind]
        simp only [Bool.false_eq_true, if_false, Stmt.rename, renameExprs, hnext _ rfl]
      rw [hstmt, Walk.names_eq_nil hkind]
      simp only [Stmt.exec]
      rw [execAssign_eq, length_renameExprs]
      refine Sync.bind (hvalues.bind fun values => ?_) fun _ => Sync.pure fun _ _ hm => hm
      rw [hstore]
      exact storeAll_rename_sync hr hs hrun hclear values

/-- The bindings after the next key and value were taken. -/
theorem Resolves.after_take {runtime : String} (scopes : Scopes) {w : Walk} {rows : Nat}
    (hr : Resolves g (l :: shape) (scopes.visible runtime) r) (hl : l.names = []) :
    Resolves g (⟨rows, w.names, []⟩ :: shape) ((scopes.declare w.names).visible runtime)
      (w.take.rename receiverName r).2 := by
  rw [Stmt.rename_snd]
  refine ((hr.shadowAll w.take.binds).congr_shape fun x hx => ?_).mono fun x hx => ?_
  · have hbinds : x ∈ w.take.binds ↔ x ∈ w.names := by
      rw [w.take_eq]
      cases hkind : w.binding with
      | true =>
          obtain ⟨hdefine, -⟩ := Bool.and_eq_true_iff.mp hkind
          exact w.mem_names hdefine x hx
      | false =>
          rw [Walk.names_eq_nil hkind]
          rfl
    rw [Nesting.binds_bind, hbinds]
    simp [Nesting.Binds, hl]
  · rw [Visible.mem_without] at hx
    exact (Scopes.mem_declare scopes w.names x).mpr (.inr hx.1)

end Iterators

end YieldMachine
