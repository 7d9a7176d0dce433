import YieldMachine.Proofs.Interp.Renamed
import YieldMachine.Proofs.Scope.Shadow

/-!
# Executing renamed statements

In linked memories, a statement with plain names does the same before and after renaming.
What it declares in its own scopes hides the variables that fields hold, and renaming
leaves these names alone from there on.
-/

namespace YieldMachine

/-- The names that an entry of a declaration binds when it is executed. -/
def Spec.bound : Spec → List String
  | .value names _ _ => names
  | _ => []

/-- The names that a statement binds when it is executed. -/
def Stmt.bound : Stmt → List String
  | .assign .define lhs _ => lhs.filterMap Expr.name?
  | .decl _ specs => specs.flatMap Spec.bound
  | .labeled _ stmt => stmt.bound
  | _ => []

theorem Spec.bound_subset (spec : Spec) : ∀ x ∈ spec.bound, x ∈ spec.names := by
  cases spec <;> simp [bound, names]

theorem Stmt.bound_subset (stmt : Stmt) : ∀ x ∈ stmt.bound, x ∈ stmt.binds := by
  match stmt with
  | .assign .define lhs rhs => exact fun x hx => hx
  | .decl kind specs =>
      intro x hx
      obtain ⟨spec, hspec, hmem⟩ := List.mem_flatMap.mp hx
      exact List.mem_flatMap.mpr ⟨spec, hspec, spec.bound_subset x hmem⟩
  | .labeled label stmt => exact stmt.bound_subset
  | .assign .set _ _ | .assign (.update _) _ _
  | .missing | .empty | .expr _ | .send _ _ | .incDec _ _ | .go _ | .defer _ | .ret _
  | .branch _ _ | .block _ | .ite _ _ _ _ | .switch _ _ _ | .typeSwitch _ _ _ | .select _
  | .loop _ _ _ _ | .range _ _ _ _ _ =>
      intro x hx
      simp [bound] at hx

theorem Stmt.bound_eq_nil {stmt : Stmt} (h : stmt.binds = []) : stmt.bound = [] := by
  rw [List.eq_nil_iff_forall_not_mem]
  intro x hx
  have := stmt.bound_subset x hx
  simp [h] at this

@[simp]
theorem Nesting.bind_nil (shape : Nesting) : shape.bind [] = shape := by
  cases shape <;> rfl

@[simp]
theorem Visible.without_nil (c : Visible) : c.without [] = c := by
  simp [Visible.without]

@[simp]
theorem Visible.mem_without (c : Visible) (names : List String) (x : String) :
    x ∈ (c.without names).vars ↔ x ∈ c.vars ∧ x ∉ names := by
  simp [Visible.without]

theorem Nesting.binds_bind (l : Local) (shape : Nesting) (names : List String) (x : String) :
    Nesting.Binds (Nesting.bind (l :: shape) names) x ↔
      x ∈ names ∨ Nesting.Binds (l :: shape) x := by
  simp [Nesting.Binds, Nesting.bind, or_assoc]

namespace Resolves

variable {g : Ground} {shape : Nesting} {l : Local} {c : Visible} {r : Renames}

theorem mono (h : Resolves g shape c r) {c' : Visible} (hvars : ∀ x ∈ c.vars, x ∈ c'.vars) :
    Resolves g shape c' r where
  plain := h.plain
  field x t ht hfield :=
    have ⟨hvar, hrest⟩ := h.field x t ht hfield
    ⟨hvars x hvar, hrest⟩
  stored := h.stored
  blank := h.blank

/-- Only which variables the scopes have matters, and the blank name is none. -/
theorem congr_shape (h : Resolves g shape c r) {shape' : Nesting}
    (hshape : ∀ x, x ≠ "_" → (shape.Binds x ↔ shape'.Binds x)) : Resolves g shape' c r where
  plain := h.plain
  field x t ht hfield := by
    obtain ⟨hvar, hres, hblank, hb, hf⟩ := h.field x t ht hfield
    exact ⟨hvar, hres, hblank, by rwa [← hshape x hblank], hf⟩
  stored x f hf hb := by
    have hblank : x ≠ "_" := by
      rintro rfl
      rw [h.blank] at hf
      cases hf
    exact h.stored x f hf (by rwa [hshape x hblank])
  blank := h.blank

/-- After names were declared in the innermost scope. -/
theorem shadowAll (h : Resolves g (l :: shape) c r) (xs : List String) :
    Resolves g (Nesting.bind (l :: shape) xs) (c.without xs) (r.shadowAll xs) where
  plain x t ht hfield := by
    obtain ⟨-, rfl⟩ | ⟨-, ht⟩ := Renames.cases_of_find?_shadowAll ht
    · rfl
    · exact h.plain x t ht hfield
  field x t ht hfield := by
    obtain ⟨-, rfl⟩ | ⟨hmem, ht⟩ := Renames.cases_of_find?_shadowAll ht
    · cases hfield
    · obtain ⟨hvar, hres, hblank, hb, hf⟩ := h.field x t ht hfield
      refine ⟨by simp [hvar, hmem], hres, hblank, ?_, hf⟩
      rw [Nesting.binds_bind]
      simp [hmem, hb]
  stored x f hf hb := by
    rw [Nesting.binds_bind, not_or] at hb
    rw [Renames.find?_shadowAll, if_neg hb.1]
    exact h.stored x f hf hb.2
  blank := h.blank

/-- After names were declared that stand for no field. -/
theorem shadowAll_of_plain (h : Resolves g shape c r) {xs : List String}
    (hxs : ∀ x ∈ xs, ∀ f, r.find? x ≠ some ⟨f, true⟩) :
    Resolves g shape (c.without xs) (r.shadowAll xs) where
  plain x t ht hfield := by
    obtain ⟨-, rfl⟩ | ⟨-, ht⟩ := Renames.cases_of_find?_shadowAll ht
    · rfl
    · exact h.plain x t ht hfield
  field x t ht hfield := by
    obtain ⟨-, rfl⟩ | ⟨hmem, ht⟩ := Renames.cases_of_find?_shadowAll ht
    · cases hfield
    · obtain ⟨hvar, hrest⟩ := h.field x t ht hfield
      exact ⟨by simp [hvar, hmem], hrest⟩
  stored x f hf hb := by
    have hfind := h.stored x f hf hb
    rw [Renames.find?_shadowAll, if_neg fun hx => hxs x hx f hfind]
    exact hfind
  blank := h.blank

/-- After names were declared that are no variables. -/
theorem shadowAll_of_not_mem (h : Resolves g shape c r) {xs : List String}
    (hxs : ∀ x ∈ xs, x ∉ c.vars) : Resolves g shape (c.without xs) (r.shadowAll xs) :=
  h.shadowAll_of_plain fun x hx _ hfind => hxs x hx (h.field x _ hfind rfl).1

/-- In a new innermost scope without variables. -/
theorem push (h : Resolves g shape c r) {l : Local} (hl : l.names = []) :
    Resolves g (l :: shape) c r where
  plain := h.plain
  field x t ht hfield := by
    obtain ⟨hvar, hres, hblank, hb, hf⟩ := h.field x t ht hfield
    refine ⟨hvar, hres, hblank, ?_, hf⟩
    simpa [Nesting.Binds, hl] using hb
  stored x f hf hb := h.stored x f hf (by simpa [Nesting.Binds, hl] using hb)
  blank := h.blank

/-- After an entry of a declaration. -/
theorem after_spec (h : Resolves g (l :: shape) c r) {spec : Spec} (hc : spec.Clear c) :
    Resolves g (Nesting.bind (l :: shape) spec.bound) (c.without spec.names)
      (r.shadowAll spec.names) := by
  cases spec with
  | value names ty values => exact h.shadowAll names
  | type name typeParams isAlias ty =>
      have hname : ∀ x ∈ [name], x ∉ c.vars := by simpa [Spec.Clear] using hc
      simpa [Spec.bound, Spec.names] using h.shadowAll_of_not_mem hname
  | imported name path =>
      have hnone : ∀ x ∈ ([] : List String), x ∉ c.vars := by simp
      simpa [Spec.bound, Spec.names] using h.shadowAll_of_not_mem hnone

end Resolves

/-- Only which names a scope has matters, not how they are listed. -/
theorem Linked.congr_names {g : Ground} {shape : Nesting} {l : Local} {m mt : Memory}
    (h : Linked g (l :: shape) m mt) {names : List String}
    (hnames : ∀ x ∉ unreadNames, x ∈ l.names ↔ x ∈ names) :
    Linked g ({ l with names := names } :: shape) m mt := by
  obtain ⟨hfields, hheap, rows, rest, frame, others, hframes, hlocals, hholds, hover⟩ := h
  refine ⟨hfields, hheap, rows, rest, frame, others, hframes, hlocals, ?_, hover⟩
  refine ⟨hholds.length, hholds.agree, ?_, hholds.hidden⟩
  intro x hx
  rw [hholds.names x hx, hnames x hx]

section Stores

variable {g : Ground} {shape : Nesting} {l : Local} {c : Visible} {r : Renames} {s : Session}

theorem assignLocal_apply (x : String) (v : Value) (m : Memory) :
    assignLocal x v m =
      match assignFrames x v m.frames with
      | some frames => .ok () { m with frames := frames }
      | none => .error (.unknownTarget x) m := by
  unfold assignLocal
  rw [eff_get_bind]
  cases assignFrames x v m.frames <;> rfl

theorem assignField_eq (x : Expr) (member : String) (value : Value) (m : Memory) :
    assignField s x member value m =
      match m.view.fieldName s x member with
      | .ok name => .ok () { m with fields := m.fields.update name value }
      | .error e => .error e m := by
  unfold assignField
  rw [eff_get_bind]
  cases m.view.fieldName s x member <;> rfl

theorem assignField_apply (hs : s.recv = receiverName) (f : String) (v : Value) (m : Memory)
    {old : Value} (hf : m.fields.lookup f = some old) :
    assignField s (.name receiverName) f v m =
      .ok () { m with fields := m.fields.update f v } := by
  have hname : m.view.fieldName s (.name receiverName) f = .ok f := by
    simp [View.fieldName, Memory.view, Expr.isName, Expr.name?, Expr.name, hs, hf]
  rw [assignField_eq, hname]

/-- Assigning a name that renaming leaves alone. -/
theorem assignLocal_sync {x : String} (hx : x ∉ unreadNames)
    (hkept : shape.Binds x ∨ g.layout.field? x = none) (v : Value) :
    Sync (Linked g shape) (fun _ => Linked g shape) (assignLocal x v) (assignLocal x v) := by
  intro m mt hl
  rw [assignLocal_apply, assignLocal_apply]
  by_cases hb : shape.Binds x
  · obtain ⟨frames', locals', hframes, hlocals, hover'⟩ := hl.frames.assign_of_binds hx hb v
    rw [hframes, hlocals]
    exact ⟨rfl, hl.fields, hl.heap, hover'⟩
  · obtain ⟨hnone, hfield⟩ := hl.frames.findLocal_of_not_binds hx hb
    rcases hkept with hb' | hf
    · exact absurd hb' hb
    · rw [hf] at hfield
      rw [assignFrames_eq_none.mpr hfield, assignFrames_eq_none.mpr hnone]
      exact ⟨by simp, hl.heap⟩

/-- Assigning a variable is changing its field. -/
theorem assignField_sync {x f : String} (hs : s.recv = receiverName) (hx : x ∉ unreadNames)
    (hb : ¬ shape.Binds x) (hf : g.layout.field? x = some f) (v : Value) :
    Sync (Linked g shape) (fun _ => Linked g shape) (assignLocal x v)
      (assignField s (.name receiverName) f v) := by
  intro m mt hl
  obtain ⟨value, hvalue, -⟩ := hl.field_eq hx hb hf
  obtain ⟨frames', hframes, hover'⟩ := hl.frames.assign_of_field hx hb hf v
  rw [assignLocal_apply, assignField_apply hs f v mt hvalue, hframes]
  exact ⟨rfl, hl.fields, hl.heap, hover'⟩

/-- Assigning to a name and to what it becomes. -/
theorem store_apply_sync (hr : Resolves g shape c r) (hs : s.recv = receiverName) {x : String}
    (hx : x ∉ unreadNames) (v : Value) :
    Sync (Linked g shape) (fun _ => Linked g shape) (assignLocal x v)
      (store s false (r.apply receiverName x) v) := by
  have hblank : x ≠ "_" := fun h => hx (by simp [h, unreadNames])
  rcases hr.apply_cases x with ⟨f, happly, hf, hb, -⟩ | ⟨happly, hkept⟩
  · rw [happly]
    exact assignField_sync hs hx hb hf v
  · rw [happly]
    have hstore : store s false (.name x) v = assignLocal x v := by
      unfold store Expr.name
      split
      · simp_all
      · simp_all
      all_goals simp_all
    rw [hstore]
    exact assignLocal_sync hx hkept v

theorem store_name (define : Bool) {x : String} {kept : Bool} (hx : x ≠ "_") (v : Value) :
    store s define (.ident x kept) v =
      if define then bindLocal x v else assignLocal x v := by
  unfold store
  split <;> simp_all

theorem store_blank (define kept : Bool) (v : Value) :
    store s define (.ident "_" kept) v = pure () := by
  unfold store
  split <;> simp_all

/-- Assigning to a target before and after renaming. -/
theorem store_rename_sync (hr : Resolves g shape c r) (hs : s.recv = receiverName)
    (hrun : c.runtime = s.runtime) {e : Expr} (h : e.TargetClear c) (v : Value) :
    Sync (Linked g shape) (fun _ => Linked g shape) (store s false e v)
      (store s false (e.rename receiverName r) v) := by
  have hheap : ∀ m mt, Linked g shape m mt → mt.heap = m.heap := fun _ _ hl => hl.heap
  cases e with
  | ident x kept =>
      by_cases hblank : x = "_"
      · subst hblank
        have hname : (Expr.ident "_" kept).rename receiverName r = .ident "_" kept := by
          cases kept with
          | true => rfl
          | false => exact hr.apply_blank
        rw [hname, store_blank]
        exact Sync.pure fun _ _ hl => hl
      · obtain ⟨hx, hkept⟩ : x ∉ unreadNames ∧ (kept = true → x ∉ c.vars) := by
          rcases h with hb | hclear
          · simp [Expr.isBlank, Expr.isName, Expr.name?, hblank] at hb
          · exact hclear
        rw [store_name false hblank]
        cases kept with
        | false => exact store_apply_sync hr hs hx v
        | true =>
            rw [show (Expr.ident x true).rename receiverName r = .ident x true from rfl,
              store_name false hblank]
            rcases hr.apply_cases x with ⟨f, -, -, -, hvar, -⟩ | ⟨-, hstays⟩
            · exact absurd hvar (hkept rfl)
            · exact assignLocal_sync hx hstays v
  | sel x member =>
      have hbefore : x.isName receiverName = false := by
        rcases h with hb | hclear
        · simp [Expr.isBlank, Expr.isName, Expr.name?] at hb
        · exact hclear
      have hafter := isName_rename hr x hbefore
      have hfail : ∀ (e : Expr) (m : Memory), e.isName receiverName = false →
          store s false (.sel e member) v m = .error .badSelector m := by
        intro e m he
        have hname : m.view.fieldName s e member = .error .badSelector := by
          simp [View.fieldName, hs, he]
        show assignField s e member v m = _
        rw [assignField_eq, hname]
      intro m mt hl
      rw [Expr.rename, hfail x m hbefore, hfail _ mt hafter]
      exact ⟨Iff.rfl, hl.heap⟩
  | index x i =>
      obtain ⟨hx, hi⟩ : x.Clear c ∧ i.Clear c := by
        rcases h with hb | hclear
        · simp [Expr.isBlank, Expr.isName, Expr.name?] at hb
        · exact hclear
      simp only [Expr.rename, store]
      refine Sync.onHeap_eq fun m mt hl => ?_
      rw [hl.eval_rename hr hs hrun x hx, hl.eval_rename hr hs hrun i hi]
  | func signature body =>
      cases signature
      exact Sync.throw hheap (by simp)
  | _ => exact Sync.throw hheap (by simp)

/-- Assigning values to targets before and after renaming. -/
theorem storeAll_rename_sync (hr : Resolves g shape c r) (hs : s.recv = receiverName)
    (hrun : c.runtime = s.runtime) {lhs : List Expr} (h : ∀ e ∈ lhs, e.TargetClear c)
    (values : List Value) :
    Sync (Linked g shape) (fun _ => Linked g shape) (storeAll s false lhs values)
      (storeAll s false (renameExprs receiverName r lhs) values) := by
  induction lhs generalizing values with
  | nil => exact Sync.pure fun _ _ hl => hl
  | cons e lhs ih =>
      cases values with
      | nil => exact Sync.throw (fun _ _ hl => hl.heap) Iff.rfl
      | cons v values =>
          exact (store_rename_sync hr hs hrun (h e (.head _)) v).bind fun _ =>
            ih (fun e he => h e (.tail _ he)) values

/-- Declaring a name on both sides. -/
theorem bindLocal_sync (hl : 0 < l.rows) {x : String} (hx : x ∉ reservedNames) (v : Value) :
    Sync (Linked g (l :: shape)) (fun _ => Linked g (Nesting.bind (l :: shape) [x]))
      (bindLocal x v) (bindLocal x v) :=
  fun _ _ h => h.declareHead hl (fun hmem => hx (mem_reservedNames_of_hidden hmem)) v

/-- Defining names on both sides. -/
theorem storeAll_define_sync (hl : 0 < l.rows) {lhs : List Expr}
    (h : ∀ e ∈ lhs, ∃ x kept, e = .ident x kept ∧ x ∉ reservedNames) (values : List Value) :
    Sync (Linked g (l :: shape))
      (fun _ => Linked g (Nesting.bind (l :: shape) (lhs.filterMap Expr.name?)))
      (storeAll s true lhs values) (storeAll s true lhs values) := by
  induction lhs generalizing values l with
  | nil => exact Sync.pure fun _ _ hl => by simpa using hl
  | cons e lhs ih =>
      cases values with
      | nil => exact Sync.throw (fun _ _ hl => hl.heap) Iff.rfl
      | cons v values =>
          obtain ⟨x, kept, rfl, hx⟩ := h e (.head _)
          have hrest := fun e he => h e (.tail _ he)
          simp only [storeAll]
          by_cases hblank : x = "_"
          · subst hblank
            rw [store_blank]
            refine Sync.mono (ih hl hrest values) (fun _ _ hm => hm) fun _ m mt hm => ?_
            refine hm.congr_names fun y hy => ?_
            have hne : y ≠ "_" := fun hyb => hy (by simp [hyb, unreadNames])
            simp [Expr.name?, hne]
          · rw [store_name true hblank]
            refine (bindLocal_sync hl hx v).bind fun _ => ?_
            refine Sync.mono (ih (l := { l with names := x :: l.names }) hl hrest values)
              (fun _ _ hm => hm) fun _ m mt hm => ?_
            refine hm.congr_names fun y hy => ?_
            simp [Expr.name?, or_left_comm]

/-- A call with several results has the same ones before and after renaming. -/
theorem Linked.evalMulti_rename {m mt : Memory} (hl : Linked g shape m mt)
    (hr : Resolves g shape c r) (hs : s.recv = receiverName) (hrun : c.runtime = s.runtime)
    {e : Expr} (h : e.Clear c) (heap : Heap) :
    Alike (e.evalMulti s m.view heap) ((e.rename receiverName r).evalMulti s mt.view heap) := by
  have hbad : ∀ e : Expr, (∀ x args spread, e ≠ .call (.sel x "Next") args spread) →
      ∀ v, e.evalMulti s v = throw (.badMulti e.kind) := by
    intro e he v
    rw [Expr.evalMulti]
    intro x args spread heq
    exact he x args spread heq
  by_cases hnext : ∃ x args spread, e = .call (.sel x "Next") args spread
  · obtain ⟨x, args, spread, rfl⟩ := hnext
    left
    simp only [Expr.rename, Expr.evalMulti]
    rw [hl.eval_rename hr hs hrun x h.1]
  · right
    simp only [not_exists] at hnext
    have hafter : ∀ x args spread, e.rename receiverName r ≠ .call (.sel x "Next") args spread := by
      intro x args spread heq
      cases e with
      | ident y kept =>
          cases kept with
          | true => cases heq
          | false =>
              simp only [Expr.rename] at heq
              rcases hr.apply_cases y with ⟨f, happly, -⟩ | ⟨happly, -⟩ <;>
                rw [happly] at heq <;> cases heq
      | func signature body =>
          cases signature
          cases heq
      | call fn args spread =>
          cases fn with
          | sel y member =>
              simp only [Expr.rename, Expr.call.injEq, Expr.sel.injEq] at heq
              exact hnext y args spread (by rw [heq.1.2])
          | ident y kept =>
              cases kept with
              | true => simp [Expr.rename] at heq
              | false =>
                  obtain ⟨-, hvar, -⟩ := h
                  simp only [Expr.rename] at heq
                  rw [hr.apply_of_not_mem hvar] at heq
                  cases heq
          | func signature body =>
              cases signature
              cases heq
          | _ => cases heq
      | _ => cases heq
    rw [hbad e hnext, hbad _ hafter]
    exact ⟨_, _, heap, rfl, rfl, by simp, by simp⟩

/-- The values of the right side of an assignment to so many targets. -/
def rightValues (s : Session) (targets : Nat) (rhs : List Expr) (v : View) :
    Eff Heap (List Value) :=
  match rhs with
  | [e] => if 2 ≤ targets then e.evalMulti s v else evalAll s v [e]
  | rhs => evalAll s v rhs

/-- The values that an assignment stores, given those of its right side. -/
def updatedValues (s : Session) (kind : AssignKind) (lhs : List Expr) (values : List Value) :
    Eff Memory (List Value) :=
  match kind.operator? with
  | none => pure values
  | some op =>
    onHeap fun v =>
      match lhs, values with
      | target :: _, value :: rest => do
        return (← applyOperator op (← target.eval s v) value) :: rest
      | _, _ => throw .invalid

theorem execAssign_eq (kind : AssignKind) (lhs rhs : List Expr) :
    execAssign s kind lhs rhs = (do
      let values ← onHeap (rightValues s lhs.length rhs)
      let values ← updatedValues s kind lhs values
      storeAll s (kind == .define) lhs values) := by
  unfold execAssign updatedValues
  congr 1
  · congr 1
    funext v
    rcases lhs with _ | ⟨a, _ | ⟨b, lhs⟩⟩ <;> rcases rhs with _ | ⟨e, _ | ⟨f, rhs⟩⟩ <;>
      simp [rightValues]
  · funext values
    cases kind.operator? <;> rfl

theorem length_renameExprs (r : Renames) (es : List Expr) :
    (renameExprs receiverName r es).length = es.length := by
  induction es with
  | nil => rfl
  | cons e es ih => simp [renameExprs, ih]

/-- The right side of an assignment before and after renaming. -/
theorem rightValues_sync (hr : Resolves g shape c r) (hs : s.recv = receiverName)
    (hrun : c.runtime = s.runtime) (targets : Nat) {rhs : List Expr} (h : exprsClear c rhs) :
    Sync (Linked g shape) (fun _ => Linked g shape) (onHeap (rightValues s targets rhs))
      (onHeap (rightValues s targets (renameExprs receiverName r rhs))) := by
  refine Sync.onHeap fun m mt hl heap => ?_
  have hall := hl.evalAll_rename hr hs hrun rhs h
  match rhs with
  | [] => exact .inl rfl
  | [e] =>
      simp only [rightValues, renameExprs]
      split
      · exact hl.evalMulti_rename hr hs hrun h.1 heap
      · left
        simp only [renameExprs] at hall
        rw [hall]
  | e :: e' :: rhs =>
      left
      simp only [renameExprs] at hall
      simp only [rightValues, renameExprs]
      rw [hall]

/-- Executing an assignment to targets before and after renaming. -/
theorem execAssign_rename_sync (hr : Resolves g shape c r) (hs : s.recv = receiverName)
    (hrun : c.runtime = s.runtime) {kind : AssignKind} {lhs rhs : List Expr}
    (hkind : kind ≠ .define) (h : AssignClear c lhs rhs kind) :
    Sync (Linked g shape) (fun _ => Linked g shape) (execAssign s kind lhs rhs)
      (execAssign s kind (renameExprs receiverName r lhs) (renameExprs receiverName r rhs)) := by
  have hdefine : (kind == AssignKind.define) = false := by simpa using hkind
  have hparts : exprsClear c rhs ∧ (∀ e ∈ lhs, e.TargetClear c) ∧
      (kind.operator? ≠ none → exprsClear c lhs) := by
    cases kind with
    | define => exact absurd rfl hkind
    | set => exact ⟨h.2, h.1, fun hop => absurd rfl hop⟩
    | update op =>
        refine ⟨h.2, ?_, fun _ => h.1⟩
        have hl := h.1
        clear h hdefine hkind
        induction lhs with
        | nil => simp
        | cons e lhs ih =>
            intro e' he'
            rcases List.mem_cons.mp he' with rfl | he'
            · exact .inr hl.1
            · exact ih hl.2 e' he'
  obtain ⟨hrhs, htargets, hop⟩ := hparts
  rw [execAssign_eq, execAssign_eq, length_renameExprs, hdefine]
  refine (rightValues_sync hr hs hrun _ hrhs).bind fun values => ?_
  refine Sync.bind ?_ fun values => storeAll_rename_sync hr hs hrun htargets values
  unfold updatedValues
  cases hkop : kind.operator? with
  | none => exact Sync.pure fun _ _ hl => hl
  | some op =>
      refine Sync.onHeap_eq fun m mt hl => ?_
      have hlhs := hop (by simp [hkop])
      cases lhs with
      | nil => rfl
      | cons target lhs =>
          cases values with
          | nil => rfl
          | cons value values =>
              simp only [renameExprs]
              rw [hl.eval_rename hr hs hrun target hlhs.1]

/-- Executing a definition before and after renaming. -/
theorem execAssign_define_sync (hl : 0 < l.rows) (hr : Resolves g (l :: shape) c r)
    (hs : s.recv = receiverName) (hrun : c.runtime = s.runtime) {lhs rhs : List Expr}
    (h : AssignClear c lhs rhs .define) :
    Sync (Linked g (l :: shape))
      (fun _ => Linked g (Nesting.bind (l :: shape) (lhs.filterMap Expr.name?)))
      (execAssign s .define lhs rhs)
      (execAssign s .define lhs (renameExprs receiverName r rhs)) := by
  rw [execAssign_eq, execAssign_eq]
  refine (rightValues_sync hr hs hrun _ h.2).bind fun values => ?_
  exact storeAll_define_sync hl h.1 values

end Stores

section Declarations

variable {g : Ground} {shape : Nesting} {l : Local} {c : Visible} {r : Renames} {s : Session}

/-- Binding names to zero values on both sides. -/
theorem declareNames_zero_sync (hl : 0 < l.rows) {ty ty' : Expr}
    (hty : zeroValue ty' = zeroValue ty) {names : List String}
    (h : ∀ x ∈ names, x ∉ reservedNames) :
    Sync (Linked g (l :: shape)) (fun _ => Linked g (Nesting.bind (l :: shape) names))
      (declareNames s ty names []) (declareNames s ty' names []) := by
  induction names generalizing l with
  | nil => exact Sync.pure fun _ _ hl => by simpa using hl
  | cons x names ih =>
      simp only [declareNames]
      rw [hty]
      refine (bindLocal_sync hl (h x (.head _)) _).bind fun _ => ?_
      refine Sync.mono (ih (l := { l with names := x :: l.names }) hl fun y hy => h y (.tail _ hy))
        (fun _ _ hm => hm) fun _ m mt hm => ?_
      refine hm.congr_names fun y hy => ?_
      simp [or_left_comm]

/-- Executing one entry of a declaration before and after renaming. -/
theorem declareSpec_sync (hl : 0 < l.rows) (hr : Resolves g (l :: shape) c r)
    (hs : s.recv = receiverName) (hrun : c.runtime = s.runtime) {names : List String}
    {ty : Expr} {values : List Expr} (h : (Spec.value names ty values).Clear c) :
    Sync (Linked g (l :: shape)) (fun _ => Linked g (Nesting.bind (l :: shape) names))
      (declareNames s ty names values)
      (declareNames s (ty.rename receiverName r) names (renameExprs receiverName r values)) := by
  obtain ⟨hnames, hshape, hty, hvalues⟩ := h
  have hzero := zeroValue_rename hr hty
  cases values with
  | nil => exact declareNames_zero_sync hl hzero hnames
  | cons e es =>
      match names with
      | [] => exact Sync.pure fun _ _ hl => by simpa using hl
      | [x] =>
          simp only [declareNames, renameExprs]
          have heval : Sync (Linked g (l :: shape)) (fun _ => Linked g (l :: shape))
              (onHeap fun v => e.eval s v)
              (onHeap fun v => (e.rename receiverName r).eval s v) :=
            Sync.onHeap_eq fun m mt hm => hm.eval_rename hr hs hrun e hvalues.1
          refine heval.bind fun value => ?_
          refine (bindLocal_sync hl (hnames x (.head _)) value).bind fun _ => ?_
          exact Sync.pure fun _ _ hm => hm
      | x :: y :: names => simp at hshape

/-- Executing the entries of a declaration before and after renaming. -/
theorem declareSpecs_sync (hl : 0 < l.rows) (hr : Resolves g (l :: shape) c r)
    (hs : s.recv = receiverName) (hrun : c.runtime = s.runtime) {specs : List Spec}
    (h : specsClear c specs) :
    Sync (Linked g (l :: shape))
      (fun _ => Linked g (Nesting.bind (l :: shape) (specs.flatMap Spec.bound)))
      (declareSpecs s specs) (declareSpecs s (renameSpecs receiverName r specs).1) := by
  induction specs generalizing l c r with
  | nil => exact Sync.pure fun _ _ hl => by simpa using hl
  | cons spec specs ih =>
      obtain ⟨hspec, hspecs⟩ := h
      have hafter := hr.after_spec hspec
      cases spec with
      | value names ty values =>
          refine (declareSpec_sync hl hr hs hrun hspec).bind fun _ => ?_
          refine Sync.mono (ih (l := { l with names := names ++ l.names }) hl hafter hrun hspecs)
            (fun _ _ hm => hm) fun _ m mt hm => ?_
          refine hm.congr_names fun y hy => ?_
          simp [Spec.bound, or_left_comm]
      | type name typeParams isAlias ty =>
          simp only [Spec.bound, Spec.names, Nesting.bind_nil] at hafter
          exact ih hl hafter hrun hspecs
      | imported name path =>
          simp only [Spec.bound, Spec.names, Nesting.bind_nil] at hafter
          exact ih hl hafter hrun hspecs

/-- After the entries of a declaration. -/
theorem Resolves.after_specs (hr : Resolves g (l :: shape) c r) {specs : List Spec}
    (h : specsClear c specs) :
    Resolves g (Nesting.bind (l :: shape) (specs.flatMap Spec.bound))
      (c.without (specs.flatMap Spec.names)) (r.shadowAll (specs.flatMap Spec.names)) := by
  induction specs generalizing l c r with
  | nil => simpa using hr.shadowAll []
  | cons spec specs ih =>
      obtain ⟨hspec, hspecs⟩ := h
      have hafter := ih (hr.after_spec hspec) hspecs
      rw [List.flatMap_cons, List.flatMap_cons, Renames.shadowAll_append]
      refine ⟨hafter.plain, fun x t ht hfield => ?_, fun x f hf hb => ?_, hafter.blank⟩
      · obtain ⟨hvar, hres, hblank, hb, hf⟩ := hafter.field x t ht hfield
        refine ⟨?_, hres, hblank, ?_, hf⟩
        · simpa [and_assoc] using hvar
        · simpa [Nesting.Binds, Nesting.bind, or_assoc, or_left_comm] using hb
      · refine hafter.stored x f hf ?_
        simpa [Nesting.Binds, Nesting.bind, or_assoc, or_left_comm] using hb

/-- After a statement. -/
theorem Resolves.after_stmt (hr : Resolves g (l :: shape) c r) {stmt : Stmt}
    (h : stmt.Clear c) :
    Resolves g (Nesting.bind (l :: shape) stmt.bound) (c.without stmt.binds)
      (stmt.rename receiverName r).2 := by
  rw [stmt.rename_snd]
  match stmt with
  | .assign .define lhs rhs => exact hr.shadowAll _
  | .decl kind specs => exact hr.after_specs h
  | .labeled label stmt =>
      have := Resolves.after_stmt hr (show stmt.Clear c from h)
      rwa [stmt.rename_snd] at this
  | .assign .set _ _ | .assign (.update _) _ _
  | .missing | .empty | .expr _ | .send _ _ | .incDec _ _ | .go _ | .defer _ | .ret _
  | .branch _ _ | .block _ | .ite _ _ _ _ | .switch _ _ _ | .typeSwitch _ _ _ | .select _
  | .loop _ _ _ _ | .range _ _ _ _ _ =>
      simpa [Stmt.bound, Stmt.binds] using hr.shadowAll []

end Declarations

section Clauses

variable {g : Ground} {shape : Nesting} {c : Visible} {r : Renames} {s : Session} {m mt : Memory}

theorem Linked.matchesAny_rename (hl : Linked g shape m mt) (hr : Resolves g shape c r)
    (hs : s.recv = receiverName) (hrun : c.runtime = s.runtime) (tag : Value)
    {es : List Expr} (h : exprsClear c es) :
    matchesAny s mt.view tag (renameExprs receiverName r es) = matchesAny s m.view tag es := by
  induction es with
  | nil => rfl
  | cons e es ih =>
      simp only [renameExprs, matchesAny]
      rw [hl.eval_rename hr hs hrun e h.1, ih h.2]

/-- The values that a clause lists. -/
def Clause.values : Clause → List Expr
  | .case values _ => values
  | .default _ => []

theorem values_clear {clauses : List Clause} (h : clausesClear c clauses) :
    ∀ clause ∈ clauses, exprsClear c clause.values := by
  induction clauses with
  | nil => simp
  | cons clause clauses ih =>
      intro clause' hmem
      rcases List.mem_cons.mp hmem with rfl | hmem
      · cases clause' with
        | case values body => exact h.1.1
        | default body => exact trivial
      · exact ih h.2 clause' hmem

theorem Linked.matchingClause_rename (hl : Linked g shape m mt) (hr : Resolves g shape c r)
    (hs : s.recv = receiverName) (hrun : c.runtime = s.runtime) (tag : Value) (i : Nat)
    {clauses : List Clause} (h : ∀ clause ∈ clauses, exprsClear c clause.values) :
    matchingClause? s mt.view tag i (renameClauses receiverName r clauses) =
      matchingClause? s m.view tag i clauses := by
  induction clauses generalizing i with
  | nil => rfl
  | cons clause clauses ih =>
      have hrest := fun clause hmem => h clause (.tail _ hmem)
      cases clause with
      | default body => exact ih (i + 1) hrest
      | case values body =>
          have hvalues : exprsClear c values := h _ (.head _)
          simp only [renameClauses, Clause.rename, matchingClause?]
          rw [hl.matchesAny_rename hr hs hrun tag hvalues, ih (i + 1) hrest]

theorem defaultClause_rename (r : Renames) (i : Nat) (clauses : List Clause) :
    defaultClause? i (renameClauses receiverName r clauses) = defaultClause? i clauses := by
  induction clauses generalizing i with
  | nil => rfl
  | cons clause clauses ih =>
      cases clause <;> simp only [renameClauses, Clause.rename, defaultClause?, ih] <;>
        cases defaultClause? (i + 1) clauses <;> rfl

theorem isMissing_rename (hr : Resolves g shape c r) (e : Expr) :
    (e.rename receiverName r).isMissing = e.isMissing := by
  cases e with
  | ident x kept =>
      cases kept with
      | true => rfl
      | false =>
          simp only [Expr.rename]
          rcases hr.apply_cases x with ⟨f, happly, -⟩ | ⟨happly, -⟩ <;> rw [happly] <;> rfl
  | func signature body =>
      cases signature
      rfl
  | _ => rfl

/-- The value that the cases of a switch are compared with. -/
def tagValue (s : Session) (tag : Expr) (v : View) : Eff Heap Value :=
  if tag.isMissing then pure (.bool true) else tag.eval s v

theorem chooseClause_eq (s : Session) (tag : Expr) (clauses : List Clause) :
    chooseClause s tag clauses =
      (onHeap fun v => do
        let value ← tagValue s tag v
        match ← matchingClause? s v value 0 clauses with
        | some i => pure (some i)
        | none => pure (defaultClause? 0 clauses)) := by
  cases tag <;> rfl

theorem Linked.tagValue_rename (hl : Linked g shape m mt) (hr : Resolves g shape c r)
    (hs : s.recv = receiverName) (hrun : c.runtime = s.runtime) {tag : Expr}
    (h : tag.Clear c) :
    tagValue s (tag.rename receiverName r) mt.view = tagValue s tag m.view := by
  unfold tagValue
  rw [isMissing_rename hr, hl.eval_rename hr hs hrun tag h]

/-- A switch starts at the same clause before and after renaming. -/
theorem chooseClause_sync (hr : Resolves g shape c r) (hs : s.recv = receiverName)
    (hrun : c.runtime = s.runtime) {tag : Expr} {clauses : List Clause} (htag : tag.Clear c)
    (h : ∀ clause ∈ clauses, exprsClear c clause.values) :
    Sync (Linked g shape) (fun _ => Linked g shape) (chooseClause s tag clauses)
      (chooseClause s (tag.rename receiverName r) (renameClauses receiverName r clauses)) := by
  rw [chooseClause_eq, chooseClause_eq]
  refine Sync.onHeap_eq fun m mt hl => ?_
  rw [hl.tagValue_rename hr hs hrun htag]
  congr 1
  funext value
  rw [hl.matchingClause_rename hr hs hrun value 0 h, defaultClause_rename]

theorem condition_eq (s : Session) (cond : Expr) :
    condition s cond =
      if cond.isMissing then pure true
      else (onHeap fun v => do (← cond.eval s v).asBool) := by
  cases cond <;> rfl

/-- A condition before and after renaming. -/
theorem condition_sync (hr : Resolves g shape c r) (hs : s.recv = receiverName)
    (hrun : c.runtime = s.runtime) {cond : Expr} (h : cond.Clear c) :
    Sync (Linked g shape) (fun _ => Linked g shape) (condition s cond)
      (condition s (cond.rename receiverName r)) := by
  rw [condition_eq, condition_eq, isMissing_rename hr]
  split
  · exact Sync.pure fun _ _ hl => hl
  · refine Sync.onHeap_eq fun m mt hl => ?_
    rw [hl.eval_rename hr hs hrun cond h]

end Clauses

section Statements

variable {g : Ground} {shape : Nesting} {r : Renames} {s : Session}

/-- Taking the turns of a loop on both sides. -/
theorem turns_sync (label : String) {R : Memory → Memory → Prop} {test test' : Eff Memory Bool}
    {body body' : Eff Memory Control} {post post' : Eff Memory Unit}
    (hheap : ∀ m mt, R m mt → mt.heap = m.heap)
    (htest : Sync R (fun _ => R) test test') (hbody : Sync R (fun _ => R) body body')
    (hpost : Sync R (fun _ => R) post post') (n : Nat) :
    Sync R (fun _ => R) (turns label test body post n) (turns label test' body' post' n) := by
  induction n with
  | zero => exact Sync.throw hheap Iff.rfl
  | succ n ih =>
      refine htest.bind fun more => ?_
      cases more with
      | false => exact Sync.pure fun _ _ h => h
      | true =>
          refine hbody.bind fun ctl => ?_
          cases ctl.afterBody label with
          | some ctl => exact Sync.pure fun _ _ h => h
          | none => exact hpost.bind fun _ => ih

theorem Stmt.isMissing_rename (r : Renames) (stmt : Stmt) :
    (stmt.rename receiverName r).1.isMissing = stmt.isMissing := by
  match stmt with
  | .assign kind lhs rhs => cases kind <;> rfl
  | .typeSwitch init guard clauses => cases guard <;> rfl
  | .range key value kind x body => cases kind <;> rfl
  | .missing | .empty | .expr _ | .send _ _ | .incDec _ _ | .go _ | .defer _ | .ret _
  | .branch _ _ | .block _ | .ite _ _ _ _ | .switch _ _ _ | .select _ | .loop _ _ _ _
  | .labeled _ _ | .decl _ _ => rfl

/-- The first part of a header on both sides. -/
theorem optional_sync {R : Memory → Memory → Prop} {S : Memory → Memory → Prop}
    (stmt : Stmt) {x x' : Eff Memory Control} (hmissing : stmt.isMissing = true →
      ∀ m mt, R m mt → S m mt) (h : Sync R (fun _ => S) x x') :
    Sync R (fun _ => S) (optional stmt x) (optional (stmt.rename receiverName r).1 x') := by
  rw [optional_eq, optional_eq, stmt.isMissing_rename]
  split
  · rename_i hm
    exact Sync.pure fun m mt hR => hmissing hm m mt hR
  · exact h.discard

theorem Stmt.isLoop_rename (r : Renames) (stmt : Stmt) :
    (stmt.rename receiverName r).1.isLoop = stmt.isLoop := by
  match stmt with
  | .assign kind lhs rhs => cases kind <;> rfl
  | .typeSwitch init guard clauses => cases guard <;> rfl
  | .range key value kind x body => cases kind <;> rfl
  | .missing | .empty | .expr _ | .send _ _ | .incDec _ _ | .go _ | .defer _ | .ret _
  | .branch _ _ | .block _ | .ite _ _ _ _ | .switch _ _ _ | .select _ | .loop _ _ _ _
  | .labeled _ _ | .decl _ _ => rfl

/-- A loop with a label, or with none. -/
def execLoop (s : Session) (n : Nat) (label : String) (init : Stmt) (cond : Expr) (post : Stmt)
    (body : List Stmt) : Eff Memory Control :=
  inScope do
    optional init (init.exec s n)
    turns label (condition s cond) (inScope (execAll s n body))
      (optional post (post.exec s n)) n

/-- Entries that bind nothing do nothing. -/
theorem declareSpecs_of_bound_nil {specs : List Spec} (h : specs.flatMap Spec.bound = []) :
    declareSpecs s specs = pure () := by
  induction specs with
  | nil => rfl
  | cons spec specs ih =>
      rw [List.flatMap_cons, List.append_eq_nil_iff] at h
      cases spec with
      | value names ty values =>
          obtain rfl : names = [] := h.1
          exact ih h.2
      | type name typeParams isAlias ty => exact ih h.2
      | imported name path => exact ih h.2

theorem bound_renameSpecs (r : Renames) (specs : List Spec) :
    (renameSpecs receiverName r specs).1.flatMap Spec.bound = specs.flatMap Spec.bound := by
  induction specs generalizing r with
  | nil => rfl
  | cons spec specs ih =>
      simp only [renameSpecs, List.flatMap_cons]
      rw [ih]
      cases spec <;> rfl

/-- What is left of a scope: it stands for one scope, with any variables. -/
abbrev Opened (g : Ground) (shape : Nesting) (m mt : Memory) : Prop :=
  ∃ names, Linked g (⟨1, names, []⟩ :: shape) m mt

theorem Opened.of_bind {names : List String} {m mt : Memory}
    (h : Linked g (Nesting.bind (⟨1, [], []⟩ :: shape) names) m mt) : Opened g shape m mt :=
  ⟨_, h⟩

/-- Whether a statement does the same before and after renaming, where there is a scope for what
it declares. -/
def Stmt.RunsRenamed (s : Session) (n : Nat) (c : Visible) (stmt : Stmt) : Prop :=
  ∀ ⦃g : Ground⦄ ⦃shape : Nesting⦄ ⦃r : Renames⦄, Resolves g shape c r →
    (stmt.binds = [] ∨ ∃ l rest, shape = l :: rest ∧ 0 < l.rows) →
    Sync (Linked g shape) (fun _ => Linked g (shape.bind stmt.bound)) (stmt.exec s n)
      ((stmt.rename receiverName r).1.exec s n)

/-- Whether the statements of a scope do the same before and after renaming. -/
def StmtsRunRenamed (s : Session) (n : Nat) (c : Visible) (stmts : List Stmt) : Prop :=
  ∀ ⦃g : Ground⦄ ⦃shape : Nesting⦄ ⦃l : Local⦄ ⦃r : Renames⦄, Resolves g (l :: shape) c r →
    0 < l.rows →
    Sync (Linked g (l :: shape))
      (fun _ m mt => ∃ names, Linked g ({ l with names := names } :: shape) m mt)
      (execAll s n stmts) (execAll s n (renameStmts receiverName r stmts))

/-- Whether the clauses of a switch, from any of them on, do the same before and after
renaming. -/
def ClausesRunRenamed (s : Session) (n : Nat) (c : Visible) (clauses : List Clause) : Prop :=
  ∀ ⦃g : Ground⦄ ⦃shape : Nesting⦄ ⦃r : Renames⦄ (i : Nat), Resolves g shape c r →
    Sync (Linked g shape) (fun _ => Linked g shape) (execFrom s n i clauses)
      (execFrom s n i (renameClauses receiverName r clauses))

/-- The statements of a clause. -/
def Clause.body : Clause → List Stmt
  | .case _ body => body
  | .default body => body

section Forms

variable {n : Nat} {c : Visible} {init post other : Stmt} {cond : Expr} {body : List Stmt}

theorem StmtsRunRenamed.inScope (h : StmtsRunRenamed s n c body) (hr : Resolves g shape c r) :
    Sync (Linked g shape) (fun _ => Linked g shape) (inScope (execAll s n body))
      (YieldMachine.inScope (execAll s n (renameStmts receiverName r body))) :=
  Sync.inScope (h (hr.push rfl) Nat.one_pos)

/-- The first part of a header, in the scope of the header. -/
theorem header_sync (hinit : init.RunsRenamed s n c) (hr : Resolves g shape c r) :
    Sync (Linked g (⟨1, [], []⟩ :: shape))
      (fun _ => Linked g (Nesting.bind (⟨1, [], []⟩ :: shape) init.bound))
      (optional init (init.exec s n))
      (optional (init.rename receiverName r).1 ((init.rename receiverName r).1.exec s n)) := by
  refine optional_sync init ?_ (hinit (hr.push rfl) (.inr ⟨_, _, rfl, Nat.one_pos⟩))
  intro hm m mt hl
  cases init <;> simp_all [Stmt.isMissing, Stmt.bound]

theorem expr_runsRenamed (hs : s.recv = receiverName) (hrun : c.runtime = s.runtime) {x : Expr}
    (h : x.Clear c) : (Stmt.expr x).RunsRenamed s n c := by
  intro g shape r hr _
  have heval : Sync (Linked g shape) (fun _ => Linked g shape) (onHeap fun v => x.eval s v)
      (onHeap fun v => (x.rename receiverName r).eval s v) :=
    Sync.onHeap_eq fun m mt hl => hl.eval_rename hr hs hrun x h
  exact heval.bind fun _ => Sync.pure fun _ _ hl => by simpa [Stmt.bound] using hl

theorem incDec_runsRenamed (hs : s.recv = receiverName) (hrun : c.runtime = s.runtime)
    {increment : Bool} {x : Expr} (h : x.Clear c) :
    (Stmt.incDec increment x).RunsRenamed s n c := by
  intro g shape r hr _
  have heval : Sync (Linked g shape) (fun _ => Linked g shape)
      (onHeap fun v => do (← x.eval s v).asInt)
      (onHeap fun v => do (← (x.rename receiverName r).eval s v).asInt) :=
    Sync.onHeap_eq fun m mt hl => by rw [hl.eval_rename hr hs hrun x h]
  refine heval.bind fun value => ?_
  refine (store_rename_sync hr hs hrun (.inr h) _).bind fun _ => ?_
  exact Sync.pure fun _ _ hl => by simpa [Stmt.bound] using hl

/-- A definition without variables, for which no scope is needed. -/
theorem define_nil_sync (hs : s.recv = receiverName) (hrun : c.runtime = s.runtime)
    (hr : Resolves g shape c r) {rhs : List Expr} (h : exprsClear c rhs) :
    Sync (Linked g shape) (fun _ => Linked g shape) ((Stmt.assign .define [] rhs).exec s n)
      (((Stmt.assign .define [] rhs).rename receiverName r).1.exec s n) := by
  simp only [Stmt.rename, Stmt.exec]
  rw [execAssign_eq, execAssign_eq]
  refine Sync.bind ((rightValues_sync hr hs hrun _ h).bind fun values => ?_) fun _ =>
    Sync.pure fun _ _ hl => hl
  exact Sync.pure fun _ _ hl => hl

theorem assign_runsRenamed (hs : s.recv = receiverName) (hrun : c.runtime = s.runtime)
    {kind : AssignKind} {lhs rhs : List Expr} (h : (Stmt.assign kind lhs rhs).Clear c) :
    (Stmt.assign kind lhs rhs).RunsRenamed s n c := by
  intro g shape r hr hroom
  by_cases hkind : kind = .define
  · subst hkind
    rcases hroom with hnone | ⟨l, rest, rfl, hl⟩
    · have hlhs : lhs = [] := by
        rcases lhs with _ | ⟨e, lhs⟩
        · rfl
        · obtain ⟨x, kept, rfl, -⟩ := h.1 e (.head _)
          simp [Stmt.binds, Expr.name?] at hnone
      subst hlhs
      rw [show (Stmt.assign .define [] rhs).bound = [] from rfl, Nesting.bind_nil]
      exact define_nil_sync hs hrun hr h.2
    · exact (execAssign_define_sync hl hr hs hrun h).bind fun _ => Sync.pure fun _ _ hl => hl
  · have hrename : ((Stmt.assign kind lhs rhs).rename receiverName r).1 =
        .assign kind (renameExprs receiverName r lhs) (renameExprs receiverName r rhs) := by
      cases kind with
      | define => exact absurd rfl hkind
      | _ => rfl
    have hbound : (Stmt.assign kind lhs rhs).bound = [] := by
      cases kind with
      | define => exact absurd rfl hkind
      | _ => rfl
    rw [hrename, hbound, Nesting.bind_nil]
    exact (execAssign_rename_sync hr hs hrun hkind h).bind fun _ => Sync.pure fun _ _ hl => hl

theorem decl_runsRenamed (hs : s.recv = receiverName) (hrun : c.runtime = s.runtime)
    {kind : DeclKind} {specs : List Spec} (h : (Stmt.decl kind specs).Clear c) :
    (Stmt.decl kind specs).RunsRenamed s n c := by
  intro g shape r hr hroom
  rcases hroom with hnone | ⟨l, rest, rfl, hl⟩
  · rw [Stmt.bound_eq_nil hnone, Nesting.bind_nil]
    have hbound : specs.flatMap Spec.bound = [] := Stmt.bound_eq_nil hnone
    simp only [Stmt.rename, Stmt.exec]
    rw [declareSpecs_of_bound_nil hbound,
      declareSpecs_of_bound_nil (by rw [bound_renameSpecs, hbound])]
    exact Sync.pure fun _ _ hl => hl
  · exact (declareSpecs_sync hl hr hs hrun h).bind fun _ => Sync.pure fun _ _ hl => hl

theorem block_runsRenamed (hbody : StmtsRunRenamed s n c body) :
    (Stmt.block body).RunsRenamed s n c := by
  intro g shape r hr _
  simp only [Stmt.rename, Stmt.exec, Stmt.bound, Nesting.bind_nil]
  exact hbody.inScope hr

theorem ite_runsRenamed (hs : s.recv = receiverName) (hrun : c.runtime = s.runtime)
    (h : (Stmt.ite init cond body other).Clear c) (hinit : init.RunsRenamed s n c)
    (hbody : StmtsRunRenamed s n (c.without init.binds) body)
    (hother : other.RunsRenamed s n (c.without init.binds)) :
    (Stmt.ite init cond body other).RunsRenamed s n c := by
  intro g shape r hr _
  obtain ⟨hclear, hcond, -, -⟩ := h
  have hafter := (hr.push (l := ⟨1, [], []⟩) rfl).after_stmt hclear
  simp only [Stmt.rename, Stmt.exec, Stmt.bound, Nesting.bind_nil]
  refine Sync.inScope (Sync.bind (header_sync hinit hr) fun _ => ?_)
  refine Sync.bind (Sync.onHeap_eq fun m mt hl => ?_) fun holds => ?_
  · rw [hl.eval_rename hafter hs hrun cond hcond]
  cases holds with
  | true =>
      exact (hbody.inScope hafter).mono (fun _ _ hl => hl) fun _ _ _ hl => Opened.of_bind hl
  | false =>
      simp only [Bool.false_eq_true, if_false]
      rw [otherwise_eq, otherwise_eq, other.isMissing_rename]
      split
      · exact Sync.pure fun _ _ hl => Opened.of_bind hl
      · exact (hother hafter (.inr ⟨_, _, rfl, Nat.one_pos⟩)).mono (fun _ _ hl => hl)
          fun _ _ _ hl => ⟨_, hl⟩

/-- A loop with a label, or with none. -/
theorem execLoop_rename_sync (hs : s.recv = receiverName) (hrun : c.runtime = s.runtime)
    (h : (Stmt.loop init cond post body).Clear c) (hinit : init.RunsRenamed s n c)
    (hpost : post.RunsRenamed s n (c.without init.binds))
    (hbody : StmtsRunRenamed s n (c.without init.binds) body) (hr : Resolves g shape c r)
    (label : String) {inner : Renames} (hinner : (init.rename receiverName r).2 = inner) :
    Sync (Linked g shape) (fun _ => Linked g shape) (execLoop s n label init cond post body)
      (execLoop s n label (init.rename receiverName r).1 (cond.rename receiverName inner)
        (post.rename receiverName inner).1 (renameStmts receiverName inner body)) := by
  obtain ⟨hclear, hcond, hbinds, -, -⟩ := h
  have hafter := (hr.push (l := ⟨1, [], []⟩) rfl).after_stmt hclear
  rw [hinner] at hafter
  have hstep := hpost hafter (.inl hbinds)
  rw [Stmt.bound_eq_nil hbinds, Nesting.bind_nil] at hstep
  refine Sync.inScope (Sync.bind (header_sync hinit hr) fun _ => ?_)
  refine Sync.mono (turns_sync label (fun _ _ hl => hl.heap) (condition_sync hafter hs hrun hcond)
    (hbody.inScope hafter) (optional_sync post (fun _ _ _ hl => hl) hstep) n) (fun _ _ hl => hl) ?_
  exact fun _ m mt hl => Opened.of_bind hl

theorem exec_loop (n : Nat) (init : Stmt) (cond : Expr) (post : Stmt) (body : List Stmt) :
    (Stmt.loop init cond post body).exec s n = execLoop s n "" init cond post body := by
  rw [Stmt.exec]
  rfl

theorem exec_labeled_loop (n : Nat) (label : String) (init : Stmt) (cond : Expr) (post : Stmt)
    (body : List Stmt) :
    (Stmt.labeled label (.loop init cond post body)).exec s n =
      execLoop s n label init cond post body := by
  rw [Stmt.exec]
  rfl

/-- The last part of a header binds nothing, so the body has the bindings of the first part. -/
theorem Stmt.rename_loop (h : (Stmt.loop init cond post body).Clear c) (r : Renames) :
    ((Stmt.loop init cond post body).rename receiverName r).1 =
      .loop (init.rename receiverName r).1
        (cond.rename receiverName (init.rename receiverName r).2)
        (post.rename receiverName (init.rename receiverName r).2).1
        (renameStmts receiverName (init.rename receiverName r).2 body) := by
  have hlast := post.rename_snd receiverName (init.rename receiverName r).2
  rw [h.2.2.1] at hlast
  simp only [Stmt.rename, hlast]
  rfl

theorem loop_runsRenamed (hs : s.recv = receiverName) (hrun : c.runtime = s.runtime)
    (h : (Stmt.loop init cond post body).Clear c) (hinit : init.RunsRenamed s n c)
    (hpost : post.RunsRenamed s n (c.without init.binds))
    (hbody : StmtsRunRenamed s n (c.without init.binds) body) :
    (Stmt.loop init cond post body).RunsRenamed s n c := by
  intro g shape r hr _
  simp only [Stmt.bound, Nesting.bind_nil]
  rw [Stmt.rename_loop h, exec_loop, exec_loop]
  exact execLoop_rename_sync hs hrun h hinit hpost hbody hr "" rfl

theorem Stmt.rename_labeled (label : String) (stmt : Stmt) (r : Renames) :
    ((Stmt.labeled label stmt).rename receiverName r).1 =
      .labeled label (stmt.rename receiverName r).1 := rfl

theorem labeledLoop_runsRenamed (hs : s.recv = receiverName) (hrun : c.runtime = s.runtime)
    (h : (Stmt.loop init cond post body).Clear c) (hinit : init.RunsRenamed s n c)
    (hpost : post.RunsRenamed s n (c.without init.binds))
    (hbody : StmtsRunRenamed s n (c.without init.binds) body) (label : String) :
    (Stmt.labeled label (.loop init cond post body)).RunsRenamed s n c := by
  intro g shape r hr _
  simp only [Stmt.bound, Nesting.bind_nil]
  rw [Stmt.rename_labeled, Stmt.rename_loop h, exec_labeled_loop, exec_labeled_loop]
  exact execLoop_rename_sync hs hrun h hinit hpost hbody hr label rfl

theorem labeled_runsRenamed {stmt : Stmt} (hloop : stmt.isLoop = false)
    (h : stmt.RunsRenamed s n c) (label : String) :
    (Stmt.labeled label stmt).RunsRenamed s n c := by
  intro g shape r hr hroom
  rw [Stmt.rename_labeled, Stmt.exec_labeled s n label hloop,
    Stmt.exec_labeled s n label (by rw [stmt.isLoop_rename, hloop])]
  refine (h hr hroom).bind fun ctl => ?_
  cases ctl <;> exact Sync.pure fun _ _ hl => hl

theorem switch_runsRenamed (hs : s.recv = receiverName) (hrun : c.runtime = s.runtime)
    {tag : Expr} {clauses : List Clause} (h : (Stmt.switch init tag clauses).Clear c)
    (hinit : init.RunsRenamed s n c)
    (hclauses : ClausesRunRenamed s n (c.without init.binds) clauses) :
    (Stmt.switch init tag clauses).RunsRenamed s n c := by
  intro g shape r hr _
  obtain ⟨hclear, htag, hvalues⟩ := h
  have hafter := (hr.push (l := ⟨1, [], []⟩) rfl).after_stmt hclear
  simp only [Stmt.rename, Stmt.exec, Stmt.bound, Nesting.bind_nil]
  refine Sync.inScope (Sync.bind (header_sync hinit hr) fun _ => ?_)
  refine (chooseClause_sync hafter hs hrun htag (values_clear hvalues)).bind fun choice => ?_
  cases choice with
  | none => exact Sync.pure fun _ _ hl => Opened.of_bind hl
  | some i =>
      exact (hclauses i hafter).mono (fun _ _ hl => hl) fun _ _ _ hl => Opened.of_bind hl

theorem branch_runsRenamed (kind : BranchKind) (label : Option String) :
    (Stmt.branch kind label).RunsRenamed s n c := by
  intro g shape r _ _
  simp only [Stmt.rename, Stmt.bound, Nesting.bind_nil]
  cases kind <;> exact Sync.pure fun _ _ hl => hl

theorem empty_runsRenamed : Stmt.empty.RunsRenamed s n c := by
  intro g shape r _ _
  simp only [Stmt.rename, Stmt.bound, Nesting.bind_nil]
  exact Sync.pure fun _ _ hl => hl

/-- A statement that cannot be run is renamed to one that cannot. -/
theorem runsRenamed_of_throw {stmt : Stmt} {e : Fault} (hexec : stmt.exec s n = throw e)
    (hrename : ∀ r, (stmt.rename receiverName r).1.exec s n = throw e) :
    stmt.RunsRenamed s n c := by
  intro g shape r _ _
  rw [hexec, hrename]
  exact Sync.throw (fun _ _ hl => hl.heap) Iff.rfl

theorem stmts_cons_runRenamed {stmt : Stmt} {stmts : List Stmt} (hclear : stmt.Clear c)
    (hstmt : stmt.RunsRenamed s n c) (hstmts : StmtsRunRenamed s n (c.without stmt.binds) stmts) :
    StmtsRunRenamed s n c (stmt :: stmts) := by
  intro g shape l r hr hl
  simp only [renameStmts, execAll]
  refine (hstmt hr (.inr ⟨l, shape, rfl, hl⟩)).bind fun ctl => ?_
  cases ctl with
  | normal =>
      exact hstmts (l := { l with names := stmt.bound ++ l.names }) (hr.after_stmt hclear) hl
  | _ => exact Sync.pure fun _ _ hm => ⟨_, hm⟩

theorem clauses_nil_runRenamed : ClausesRunRenamed s n c [] := by
  intro g shape r i _
  simp only [renameClauses, execFrom]
  exact Sync.pure fun _ _ hl => hl

/-- The clause in front runs on into the others only where it falls through. -/
theorem clauses_cons_runRenamed {clause : Clause} {clauses : List Clause}
    (hbody : StmtsRunRenamed s n c clause.body) (hclauses : ClausesRunRenamed s n c clauses) :
    ClausesRunRenamed s n c (clause :: clauses) := by
  intro g shape r i hr
  cases i with
  | succ i =>
      simp only [renameClauses, execFrom]
      exact hclauses i hr
  | zero =>
      have hclause : Sync (Linked g shape) (fun _ => Linked g shape) (inScope (clause.exec s n))
          (inScope ((clause.rename receiverName r).exec s n)) := by
        cases clause <;> exact hbody.inScope hr
      simp only [renameClauses, execFrom]
      refine hclause.bind fun ctl => ?_
      cases ctl with
      | fall => exact hclauses 0 hr
      | _ => exact Sync.pure fun _ _ hl => hl

end Forms

section Recursion

variable {n : Nat}

mutual

/-- A statement with plain names does the same before and after renaming. -/
theorem Stmt.runsRenamed (hs : s.recv = receiverName) {c : Visible} (stmt : Stmt)
    (h : stmt.Clear c) (hrun : c.runtime = s.runtime) : stmt.RunsRenamed s n c := by
  cases stmt with
  | expr x => exact expr_runsRenamed hs hrun h
  | incDec increment x => exact incDec_runsRenamed hs hrun h
  | assign kind lhs rhs => exact assign_runsRenamed hs hrun h
  | decl kind specs => exact decl_runsRenamed hs hrun h
  | block body => exact block_runsRenamed (stmts_runRenamed hs body h hrun)
  | ite init cond body other =>
      exact ite_runsRenamed hs hrun h (init.runsRenamed hs h.1 hrun)
        (stmts_runRenamed hs body h.2.2.1 hrun) (other.runsRenamed hs h.2.2.2 hrun)
  | loop init cond post body =>
      exact loop_runsRenamed hs hrun h (init.runsRenamed hs h.1 hrun)
        (post.runsRenamed hs h.2.2.2.1 hrun) (stmts_runRenamed hs body h.2.2.2.2 hrun)
  | labeled label stmt =>
      cases hloop : stmt.isLoop with
      | false => exact labeled_runsRenamed hloop (stmt.runsRenamed hs h hrun) label
      | true =>
          cases stmt with
          | loop init cond post body =>
              exact labeledLoop_runsRenamed hs hrun h (init.runsRenamed hs h.1 hrun)
                (post.runsRenamed hs h.2.2.2.1 hrun) (stmts_runRenamed hs body h.2.2.2.2 hrun) label
          | _ => cases hloop
  | switch init tag clauses =>
      exact switch_runsRenamed hs hrun h (init.runsRenamed hs h.1 hrun)
        (clauses_runRenamed hs clauses h.2.2 hrun)
  | branch kind label => exact branch_runsRenamed kind label
  | empty => exact empty_runsRenamed
  | typeSwitch init guard clauses =>
      exact runsRenamed_of_throw rfl fun r => by cases guard <;> rfl
  | range key value kind x body => exact runsRenamed_of_throw rfl fun r => by cases kind <;> rfl
  | _ => exact runsRenamed_of_throw rfl fun r => rfl

theorem stmts_runRenamed (hs : s.recv = receiverName) {c : Visible} (stmts : List Stmt)
    (h : stmtsClear c stmts) (hrun : c.runtime = s.runtime) : StmtsRunRenamed s n c stmts := by
  cases stmts with
  | nil => exact fun _ _ _ _ _ _ => Sync.pure fun _ _ hm => ⟨_, hm⟩
  | cons stmt stmts =>
      exact stmts_cons_runRenamed h.1 (stmt.runsRenamed hs h.1 hrun)
        (stmts_runRenamed hs stmts h.2 hrun)

theorem clauses_runRenamed (hs : s.recv = receiverName) {c : Visible} (clauses : List Clause)
    (h : clausesClear c clauses) (hrun : c.runtime = s.runtime) :
    ClausesRunRenamed s n c clauses := by
  cases clauses with
  | nil => exact clauses_nil_runRenamed
  | cons clause clauses =>
      exact clauses_cons_runRenamed (clause.body_runRenamed hs h.1 hrun)
        (clauses_runRenamed hs clauses h.2 hrun)

theorem Clause.body_runRenamed (hs : s.recv = receiverName) {c : Visible} (clause : Clause)
    (h : clause.Clear c) (hrun : c.runtime = s.runtime) :
    StmtsRunRenamed s n c clause.body := by
  cases clause with
  | case values body => exact stmts_runRenamed hs body h.2 hrun
  | default body => exact stmts_runRenamed hs body h hrun

end

/-- A statement with plain names does the same before and after renaming, wherever there is a
scope for what it declares. -/
theorem Stmt.exec_rename_sync {shape : Nesting} {c : Visible} {r : Renames}
    (hr : Resolves g shape c r) (hs : s.recv = receiverName)
    (hrun : c.runtime = s.runtime) (n : Nat) (stmt : Stmt) (h : stmt.Clear c)
    (hroom : stmt.binds = [] ∨ ∃ l rest, shape = l :: rest ∧ 0 < l.rows) :
    Sync (Linked g shape) (fun _ => Linked g (shape.bind stmt.bound)) (stmt.exec s n)
      ((stmt.rename receiverName r).1.exec s n) :=
  stmt.runsRenamed hs h hrun hr hroom

end Recursion

end Statements

end YieldMachine
