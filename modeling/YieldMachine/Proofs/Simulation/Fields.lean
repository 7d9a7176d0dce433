import YieldMachine.Proofs.Lowering.Steps
import YieldMachine.Proofs.Meaning.Parts
import YieldMachine.Proofs.Scope.Fresh
import YieldMachine.Proofs.Simulation.Behaviour

/-!
# Variables in fields

What the parts of lowering that add fields mean: a declaration, the header of a loop over an
iterator and the parameters give each variable a field of its own, which holds the variable
from then on.
-/

namespace YieldMachine

open Lowering Behaviour

namespace Ground

/-- Without the innermost scope. -/
def pop (g : Ground) : Ground := { g with layout := g.layout.tail }

@[simp]
theorem pop_push (g : Ground) : g.push.pop = g := rfl

@[simp]
theorem pop_declare (g : Ground) (x f : String) : (g.declare x f).pop = g.pop := by
  obtain ⟨fields, layout, pins⟩ := g
  cases layout <;> rfl

theorem fields_of_pop {g g' : Ground} (h : g'.pop = g.pop) : g'.fields = g.fields := by
  show g'.pop.fields = g.pop.fields
  rw [h]

@[simp]
theorem taken_push (g : Ground) : g.push.taken = g.taken := by
  simp [taken, push]

theorem field?_push (g : Ground) (x : String) : g.push.layout.field? x = g.layout.field? x := by
  simp [push]

theorem field?_declare {g : Ground} (h : g.layout ≠ []) (x f y : String) :
    (g.declare x f).layout.field? y = if y = x then some f else g.layout.field? y := by
  obtain ⟨fields, layout, pins⟩ := g
  cases layout with
  | nil => exact absurd rfl h
  | cons names layout =>
      by_cases hy : y = x
      · simp [declare, hy]
      · have hne : (y == x) = false := by simpa using hy
        simp [declare, hy, List.lookup_cons, hne]

theorem mem_taken_declare {g : Ground} {x f y : String} (h : y ∈ (g.declare x f).taken) :
    y = f ∨ y ∈ g.taken := by
  obtain ⟨fields, layout, pins⟩ := g
  cases layout with
  | nil => exact .inr h
  | cons names layout =>
      simp only [taken, declare, Layout.fields_cons, List.map_cons, List.cons_append,
        List.mem_cons, List.mem_append] at h ⊢
      tauto

end Ground

namespace Linked

variable {g : Ground} {m mt : Memory}

theorem stored (h : Linked g [] m mt) : mt.frames = [] ∧ Stored g m.frames mt.fields := h.frames

/-- A new scope, whose variables are to be kept in fields. -/
theorem pushGround (h : Linked g [] m mt) :
    Linked g.push [] { m with frames := [] :: m.frames } mt :=
  ⟨h.fields, h.heap, h.stored.1, h.stored.2.push⟩

/-- The end of the innermost scope. -/
theorem popGround (h : Linked g [] m mt) :
    Linked g.pop [] { m with frames := m.frames.tail } mt := by
  obtain ⟨hframes, hstored⟩ := h.stored
  refine ⟨h.fields, h.heap, hframes, ?_⟩
  obtain ⟨fields, layout, pins⟩ := g
  cases layout with
  | nil =>
      have : m.frames = [] := by
        have := hstored.frames
        cases hm : m.frames with
        | nil => rfl
        | cons frame frames =>
            rw [hm] at this
            cases this
      rw [this] at hstored ⊢
      exact hstored
  | cons names layout => exact hstored.pop

theorem unpin {f : String} {v : Value} (h : Linked (g.pin f v) [] m mt) : Linked g [] m mt :=
  ⟨h.fields, h.heap, h.stored.1, h.stored.2.unpin⟩

end Linked

/-- The scope in which a table executes a statement. -/
abbrev oneScope : Nesting := [⟨0, [], []⟩]

section Scopes

variable {α : Type} {g g' : Ground} {x y : Eff Memory α}

/-- A statement that the table executes in a scope of its own. -/
theorem Sync.inTable
    (h : Sync (Linked g oneScope) (fun _ => Linked g' oneScope) x y) :
    Sync (Linked g []) (fun _ => Linked g' []) x (YieldMachine.inScope y) := by
  intro m mt hm
  have hmatch := h _ _ hm.pushTable
  simp only [YieldMachine.inScope]
  rw [eff_bind_apply]
  show Matches _ _ ((y >>= _) { mt with frames := [] :: mt.frames })
  rw [eff_bind_apply]
  cases hx : x m <;> cases hy : y { mt with frames := [] :: mt.frames } <;>
    rw [hx, hy] at hmatch <;> simp only [Matches] at hmatch
  · exact ⟨hmatch.1, hmatch.2.pop⟩
  · exact hmatch

end Scopes

section Storing

variable {g : Ground} {s : Session} {x f : String}

theorem store_fieldExpr (f : String) (v : Value) :
    store s false (fieldExpr f) v = assignField s (.name receiverName) f v := rfl

/-- A new variable, and the field that is to hold it. -/
theorem declareField_sync (hs : s.recv = receiverName) (hf : f ∈ g.fields) (hfree : f ∉ g.taken)
    (hopen : g.layout ≠ []) (v : Value) :
    Sync (Linked g oneScope) (fun _ => Linked (g.declare x f) oneScope) (bindLocal x v)
      (store s false (fieldExpr f) v) := by
  rintro m mt ⟨hfields, hheap, rows, rest, frame, others, hframes, hlocals, hholds, hnil, hstored⟩
  obtain rfl : rows = [] := List.length_eq_zero_iff.mp hholds.length
  obtain ⟨old, hold⟩ := Option.isSome_iff_exists.mp (hstored.present f hf)
  rw [store_fieldExpr, assignField_apply hs f v mt hold]
  obtain ⟨mf, mframes, mheap⟩ := m
  simp only [List.nil_append] at hframes hfields
  subst hframes
  cases mframes with
  | nil =>
      have := hstored.frames
      cases hl : g.layout with
      | nil => exact absurd hl hopen
      | cons names layout =>
          rw [hl] at this
          cases this
  | cons row rows =>
      exact ⟨rfl, hfields, hheap, [], row.put x v :: rows, frame, others, rfl, hlocals, hholds,
        hnil, hstored.declare hf hfree v⟩

end Storing

section Contexts

variable {g : Ground} {c : Visible} {r : Renames} {x f : String}

theorem Nesting.not_binds_nil (x : String) : ¬ Nesting.Binds [] x := by simp [Nesting.Binds]

theorem Resolves.pushGround (h : Resolves g [] c r) : Resolves g.push [] c r where
  plain := h.plain
  field y t hy ht := by
    rw [g.field?_push]
    exact h.field y t hy ht
  stored y t hy hb := h.stored y t (by rwa [g.field?_push] at hy) hb
  blank := by rw [g.field?_push]; exact h.blank

theorem Resolves.declareField (h : Resolves g [] c r) (hopen : g.layout ≠ [])
    (hx : x ∉ reservedNames) (hblank : x ≠ "_") (hvar : x ∈ c.vars) :
    Resolves (g.declare x f) [] c (r.insert x ⟨f, true⟩) where
  plain y t hy ht := by
    by_cases hyx : y = x
    · subst hyx
      rw [Renames.find?_insert_self] at hy
      obtain rfl := Option.some.inj hy
      cases ht
    · rw [Renames.find?_insert_of_ne _ _ hyx] at hy
      exact h.plain y t hy ht
  field y t hy ht := by
    rw [Ground.field?_declare hopen]
    by_cases hyx : y = x
    · subst hyx
      rw [Renames.find?_insert_self] at hy
      obtain rfl := Option.some.inj hy
      exact ⟨hvar, hx, hblank, Nesting.not_binds_nil y, if_pos rfl⟩
    · rw [Renames.find?_insert_of_ne _ _ hyx] at hy
      rw [if_neg hyx]
      exact h.field y t hy ht
  stored y t hy hb := by
    rw [Ground.field?_declare hopen] at hy
    by_cases hyx : y = x
    · subst hyx
      rw [if_pos rfl] at hy
      obtain rfl := Option.some.inj hy
      exact Renames.find?_insert_self ..
    · rw [if_neg hyx] at hy
      rw [Renames.find?_insert_of_ne _ _ hyx]
      exact h.stored y t hy hb
  blank := by
    rw [Ground.field?_declare hopen, if_neg (Ne.symm hblank)]
    exact h.blank

/-- Whether the fields in use are those of a draft, and the names of a context lead to
them. -/
structure Ground.Fits (g : Ground) (c : Visible) (env : StateEnv) (d : Draft) : Prop where
  resolves : Resolves g [] c env.renames
  used : ∀ f ∈ g.taken, f ∈ d.used
  room : g.layout ≠ []

theorem Ground.Fits.push {env : StateEnv} {d : Draft} (h : g.Fits c env d) :
    g.push.Fits c env d where
  resolves := h.resolves.pushGround
  used := by simpa using h.used
  room := by simp [Ground.push]

theorem Ground.Fits.mono {env env' : StateEnv} {d d' : Draft} {c' : Visible} (h : g.Fits c env d)
    (hrenames : env'.renames = env.renames) (hused : d.used <:+ d'.used)
    (hvars : ∀ x ∈ c.vars, x ∈ c'.vars) : g.Fits c' env' d' where
  resolves := by
    rw [hrenames]
    exact h.resolves.mono hvars
  used f hf := hused.subset (h.used f hf)
  room := h.room

/-- A variable that gets a fresh field. -/
theorem Ground.Fits.declare {env : StateEnv} {d : Draft} (h : g.Fits c env d)
    (hx : x ∉ reservedNames) (hblank : x ≠ "_") (hvar : x ∈ c.vars)
    {d' : Draft} (hused : d'.used = f :: d.used) :
    (g.declare x f).Fits c (env.withRename x ⟨f, true⟩) d' where
  resolves := h.resolves.declareField h.room hx hblank hvar
  used y hy := by
    rw [hused]
    rcases Ground.mem_taken_declare hy with rfl | hy
    · exact .head _
    · exact .tail _ (h.used y hy)
  room := by
    obtain ⟨fields, layout, pins⟩ := g
    cases layout with
    | nil => exact absurd rfl h.room
    | cons names layout => simp [Ground.declare]

end Contexts

section Types

variable {g : Ground} {c : Visible} {env : StateEnv}

theorem zeroValue_repeat {type : Expr} (h : type.name? = none) (uses : Nat) :
    (Nat.repeat env.resolve uses type).name? = none := by
  induction uses with
  | zero => exact h
  | succ uses ih => exact name?_rename_of_none ih

/-- The zero value of a type that several places share. -/
theorem zeroValue_resolveShared (hr : Resolves g [] c env.renames) {type : Expr}
    (h : type.TypeClear c) (uses : Nat) :
    zeroValue (env.resolveShared uses type) = zeroValue type := by
  unfold StateEnv.resolveShared
  cases hname : type.name? with
  | some x => exact zeroValue_rename hr h
  | none =>
      unfold zeroValue
      rw [zeroValue_repeat hname uses, hname]

theorem eval_new {s : Session} {v : View} (type : Expr) :
    (Expr.star (.call (.name "new") [type] false)).eval s v = pure (zeroValue type) := by
  simp [Expr.eval, Expr.name]

end Types

/-- What a table does to reset fields. -/
def resetAll (s : Session) (n : Nat) : List (Expr × Expr) → Eff Memory Unit
  | [] => pure ()
  | (field, type) :: rest => do
    let _ ← inScope
      ((Stmt.assign .set [field] [.star (.call (.name "new") [type] false)]).exec s n)
    resetAll s n rest

section Declarations

variable {g₀ g : Ground} {c₀ c : Visible} {s : Session} {decl : VarDecl} {env : StateEnv}

/-- Resetting the field of a new variable. -/
theorem resetField_sync (hs : s.recv = receiverName) {x f : String} (hf : f ∈ g.fields)
    (hfree : f ∉ g.taken) (hopen : g.layout ≠ []) {type type' : Expr}
    (htype : zeroValue type' = zeroValue type) (n : Nat) :
    Sync (Linked g []) (fun _ => Linked (g.declare x f) []) (do
        bindLocal x (zeroValue type)
        pure Control.normal)
      (inScope ((Stmt.assign .set [fieldExpr f]
        [.star (.call (.name "new") [type'] false)]).exec s n)) := by
  refine Sync.inTable ?_
  have hexec : (Stmt.assign .set [fieldExpr f]
      [.star (.call (.name "new") [type'] false)]).exec s n = (do
        store s false (fieldExpr f) (zeroValue type')
        pure Control.normal) := by
    rw [Stmt.exec, execAssign_single rfl]
    simp only [eval_new]
    rfl
  rw [hexec, htype]
  exact (declareField_sync hs hf hfree hopen _).bind fun _ => Sync.pure fun _ _ h => h

/-- What a variable that a declaration reuses becomes. -/
theorem reused_sync (hs : s.recv = receiverName) (hr : Resolves g₀ [] c₀ env.renames)
    {x : String} (hx : x ∉ unreadNames)
    (hsame : g.layout.field? x = g₀.layout.field? x) (v : Value) :
    Sync (Linked g oneScope) (fun _ => Linked g oneScope) (assignLocal x v)
      (store s false (env.resolve (.name x)) v) := by
  have hblank : x ≠ "_" := fun heq => hx (heq ▸ .head _)
  have hnot : ¬ Nesting.Binds oneScope x := by simp [Nesting.Binds]
  show Sync _ _ _ (store s false (env.renames.apply receiverName x) v)
  rcases hr.apply_cases x with ⟨f, happly, hf, -⟩ | ⟨happly, hkept⟩
  · rw [happly, store_fieldExpr]
    exact assignField_sync hs hx hnot (hsame.trans hf) v
  · rw [happly, Expr.name, store_name false hblank]
    refine assignLocal_sync hx (.inr ?_) v
    rw [hsame]
    exact hkept.resolve_left (Nesting.not_binds_nil x)

theorem hoistNames_blank {i : Nat} (names : List String) (inner : StateEnv) :
    hoistNames decl env i ("_" :: names) inner = (do
      let (lhs, fresh, inner) ← hoistNames decl env (i + 1) names inner
      pure (.name "_" :: lhs, fresh, inner)) := by
  simp only [hoistNames, beq_self_eq_true, if_true]

theorem hoistNames_reused {i : Nat} {x : String} (hblank : x ≠ "_")
    (htype : decl.typeAt? i = some .missing) (names : List String) (inner : StateEnv) :
    hoistNames decl env i (x :: names) inner = (do
      let (lhs, fresh, inner) ← hoistNames decl env (i + 1) names inner
      pure (env.resolve (.name x) :: lhs, fresh, inner)) := by
  have hne : (x == "_") = false := by simpa using hblank
  simp only [hoistNames, hne, htype, Bool.false_eq_true, if_false]

theorem hoistNames_fresh {i : Nat} {x : String} (hblank : x ≠ "_") {type : Expr}
    (htype : decl.typeAt? i = some type) (hmissing : type.isMissing = false)
    (names : List String) (inner : StateEnv) :
    hoistNames decl env i (x :: names) inner = (do
      let field ← hoist x (env.resolveShared (decl.typeUses i) type)
      let (lhs, fresh, inner) ←
        hoistNames decl env (i + 1) names (inner.withRename x ⟨field, true⟩)
      pure (fieldExpr field :: lhs,
        (fieldExpr field, env.resolveShared (decl.typeUses i) type) :: fresh, inner)) := by
  have hne : (x == "_") = false := by simpa using hblank
  cases type with
  | missing => cases hmissing
  | _ => simp only [hoistNames, hne, htype, Bool.false_eq_true, if_false]

/-- What giving names fields means for the values that a declaration binds. -/
structure Hoisted (s : Session) (n : Nat) (env : StateEnv) (decl : VarDecl) (i : Nat)
    (names : List String) (g g' : Ground) (lhs : List Expr) (fresh : List (Expr × Expr)) :
    Prop where
  length : lhs.length = names.length
  pop : g'.pop = g.pop
  values : ∀ values, Sync (Linked g oneScope) (fun _ => Linked g' oneScope)
    (decl.bindNames i names values) (storeAll s false lhs values)
  zeros : (∀ j type, decl.typeAt? j = some type → ∀ uses,
      zeroValue (env.resolveShared uses type) = zeroValue type) →
    Sync (Linked g []) (fun _ => Linked g' []) (decl.bindZeros i names) (resetAll s n fresh)

namespace Hoisted

variable {n i : Nat} {names : List String} {g' : Ground} {lhs : List Expr}
  {fresh : List (Expr × Expr)} {x f : String}

theorem nil : Hoisted s n env decl i [] g g [] [] :=
  ⟨rfl, rfl, fun _ => Sync.pure fun _ _ h => h, fun _ => Sync.pure fun _ _ h => h⟩

/-- One more name, in front of the others. -/
theorem cons {g₁ : Ground} {target : Expr} (more : List (Expr × Expr))
    (h : Hoisted s n env decl (i + 1) names g₁ g' lhs fresh) (hpop : g₁.pop = g.pop)
    (hvalue : ∀ v, Sync (Linked g oneScope) (fun _ => Linked g₁ oneScope) (decl.bindName i x v)
      (store s false target v))
    (hzeros : (∀ j type, decl.typeAt? j = some type → ∀ uses,
        zeroValue (env.resolveShared uses type) = zeroValue type) →
      Sync (Linked g []) (fun _ => Linked g' []) (decl.bindZeros i (x :: names))
        (resetAll s n (more ++ fresh))) :
    Hoisted s n env decl i (x :: names) g g' (target :: lhs) (more ++ fresh) where
  length := by simp [h.length]
  pop := h.pop.trans hpop
  values values := by
    cases values with
    | nil => exact Sync.throw (fun _ _ h => h.heap) Iff.rfl
    | cons v values => exact (hvalue v).bind fun _ => h.values values
  zeros := hzeros

theorem blank (h : Hoisted s n env decl (i + 1) names g g' lhs fresh) :
    Hoisted s n env decl i ("_" :: names) g g' (.name "_" :: lhs) fresh := by
  refine cons [] h rfl (fun v => ?_) fun hzero => ?_
  · rw [VarDecl.bindName, if_pos rfl, Expr.name, store_blank]
    exact Sync.pure fun _ _ h => h
  · simp only [VarDecl.bindZeros, VarDecl.bindName, if_true]
    split <;> exact h.zeros hzero

/-- A name that is only assigned. -/
theorem reused (h : Hoisted s n env decl (i + 1) names g g' lhs fresh) (hs : s.recv = receiverName)
    (hr : Resolves g₀ [] c₀ env.renames) (hblank : x ≠ "_") (hx : x ∉ unreadNames)
    (hreuses : decl.reuses i = true) (hsame : g.layout.field? x = g₀.layout.field? x) :
    Hoisted s n env decl i (x :: names) g g' (env.resolve (.name x) :: lhs) fresh := by
  refine cons [] h rfl (fun v => ?_) fun hzero => ?_
  · rw [VarDecl.bindName, if_neg hblank, if_pos hreuses]
    exact reused_sync hs hr hx hsame v
  · rw [VarDecl.bindZeros, if_pos hreuses]
    exact h.zeros hzero

/-- A new variable, which gets a field that is free. -/
theorem declared (h : Hoisted s n env decl (i + 1) names (g.declare x f) g' lhs fresh)
    (hs : s.recv = receiverName) (hblank : x ≠ "_") {type : Expr}
    (htype : decl.typeAt? i = some type) (hmissing : type.isMissing = false)
    (hf : f ∈ g.fields) (hfree : f ∉ g.taken) (hopen : g.layout ≠ []) :
    Hoisted s n env decl i (x :: names) g g' (fieldExpr f :: lhs)
      ((fieldExpr f, env.resolveShared (decl.typeUses i) type) :: fresh) := by
  have hreuses : ¬ decl.reuses i = true := by simp [VarDecl.reuses, htype, hmissing]
  refine cons [_] h (Ground.pop_declare ..) (fun v => ?_) fun hzero => ?_
  · rw [VarDecl.bindName, if_neg hblank, if_neg hreuses]
    exact declareField_sync hs hf hfree hopen v
  · have hreset := resetField_sync (x := x) hs hf hfree hopen
      (hzero i type htype (decl.typeUses i)) n
    have hboth := hreset.bind fun _ => h.zeros hzero
    rw [bind_assoc] at hboth
    rw [VarDecl.bindZeros, if_neg hreuses, VarDecl.bindName, if_neg hblank, if_neg hreuses, htype]
    exact hboth

end Hoisted

/-- Fields for the names of a declaration.  The names before position `i` have theirs
already, so that the context and the fields have grown. -/
theorem hoistNames_hoisted (hs : s.recv = receiverName) (n : Nat) {i : Nat}
    {names : List String} {inner inner' : StateEnv} {d d' : Draft} {lhs : List Expr}
    {fresh : List (Expr × Expr)}
    (hres : hoistNames decl env i names inner d = .ok ((lhs, fresh, inner'), d'))
    (hr : Resolves g₀ [] c₀ env.renames) (hfits : g.Fits c inner d)
    (hsame : ∀ y ∈ names, y ≠ "_" → g.layout.field? y = g₀.layout.field? y)
    (hnames : ∀ x ∈ names, x ∉ reservedNames) (hnodup : (names.filter (· != "_")).Nodup)
    (hvars : ∀ x ∈ decl.freshFrom i names, x ∈ c.vars)
    (hfields : ∀ f ∈ d'.fields.map Prod.fst, f ∈ g.fields) :
    ∃ g', g'.Fits c inner' d' ∧ Hoisted s n env decl i names g g' lhs fresh := by
  induction names generalizing i inner d g lhs fresh with
  | nil =>
      obtain ⟨⟨rfl, rfl, rfl⟩, rfl⟩ := hres
      exact ⟨g, hfits, .nil⟩
  | cons x names ih =>
      have hx := hnames x (.head _)
      have hrest := fun y hy => hnames y (.tail _ hy)
      have hsameRest := fun y hy => hsame y (.tail _ hy)
      by_cases hblank : x = "_"
      · subst hblank
        rw [hoistNames_blank, bind_ok] at hres
        obtain ⟨⟨lhs', fresh', inner₁⟩, d₁, hres, ⟨⟨rfl, rfl, rfl⟩, rfl⟩⟩ := hres
        obtain ⟨g', hfits', hh⟩ := ih hres hfits hsameRest hrest
          (by simpa using hnodup) (by simpa [VarDecl.freshFrom] using hvars) hfields
        exact ⟨g', hfits', hh.blank⟩
      · have hfilter : x ∉ names ∧ (names.filter (· != "_")).Nodup := by
          simpa [hblank] using hnodup
        cases htype : decl.typeAt? i with
        | none =>
            have hne : (x == "_") = false := by simpa using hblank
            simp only [hoistNames, hne, htype, Bool.false_eq_true, if_false] at hres
            cases hres
        | some type =>
            cases hmissing : type.isMissing with
            | true =>
                -- the name is only assigned
                obtain rfl : type = .missing := by
                  cases type <;> first | rfl | cases hmissing
                have hreuses : decl.reuses i = true := by
                  simp [VarDecl.reuses, htype, Expr.isMissing]
                have hunread : x ∉ unreadNames := by
                  intro hmem
                  rcases List.mem_cons.mp hmem with heq | hmem
                  · exact hblank heq
                  · exact hx (mem_reservedNames_of_hidden hmem)
                rw [hoistNames_reused hblank htype, bind_ok] at hres
                obtain ⟨⟨lhs', fresh', inner₁⟩, d₁, hres, ⟨⟨rfl, rfl, rfl⟩, rfl⟩⟩ := hres
                obtain ⟨g', hfits', hh⟩ := ih hres hfits hsameRest hrest hfilter.2
                  (by simpa [VarDecl.freshFrom, hreuses] using hvars) hfields
                exact ⟨g', hfits',
                  hh.reused hs hr hblank hunread hreuses (hsame x (.head _) hblank)⟩
            | false =>
                -- the name is a new variable
                have hreuses : decl.reuses i = false := by simp [VarDecl.reuses, htype, hmissing]
                rw [hoistNames_fresh hblank htype hmissing] at hres
                simp only [bind_ok] at hres
                obtain ⟨field, d₁, hhoist, ⟨lhs', fresh', inner₁⟩, d₂, hres,
                  ⟨⟨rfl, rfl, rfl⟩, rfl⟩⟩ := hres
                obtain ⟨rfl, hused, hdfields⟩ : field = freeField d.used x ∧
                    d₁.used = field :: d.used ∧ field ∈ d₁.fields.map Prod.fst := by
                  cases hhoist
                  exact ⟨rfl, rfl, by simp⟩
                have hnew : x ∈ c.vars ∧ ∀ y ∈ decl.freshFrom (i + 1) names, y ∈ c.vars := by
                  simpa [VarDecl.freshFrom, hblank, hreuses] using hvars
                have hext : d₁.fields <+: d'.fields :=
                  ((hoistNames_ensures (E := fun _ => True) (.inl trivial) _).ok hres).1.2.fields
                have hf : freeField d.used x ∈ g.fields :=
                  hfields _ ((hext.map Prod.fst).subset hdfields)
                have hfree : freeField d.used x ∉ g.taken := fun hmem =>
                  freeField_not_mem d.used x (hfits.used _ hmem)
                have hsame' : ∀ y ∈ names, y ≠ "_" →
                    (g.declare x (freeField d.used x)).layout.field? y =
                      g₀.layout.field? y := by
                  intro y hy hyb
                  have hyx : y ≠ x := fun heq => hfilter.1 (heq ▸ hy)
                  rw [Ground.field?_declare hfits.room, if_neg hyx]
                  exact hsameRest y hy hyb
                obtain ⟨g', hfits', hh⟩ := ih hres (hfits.declare hx hblank hnew.1 hused) hsame'
                  hrest hfilter.2 hnew.2 hfields
                exact ⟨g', hfits', hh.declared hs hblank htype hmissing hf hfree hfits.room⟩

/-- Binding the names of a declaration to its values, and assigning these to the fields of the
names. -/
theorem Hoisted.assign_sync {n : Nat} {g' : Ground} {lhs : List Expr}
    {fresh : List (Expr × Expr)} (hh : Hoisted s n env decl 0 decl.names g g' lhs fresh)
    (hs : s.recv = receiverName) (hrun : c.runtime = s.runtime) (hr : Resolves g [] c env.renames)
    (hclear : exprsClear c decl.values) :
    Sync (Linked g []) (fun _ => Linked g' []) (do
      let values ← onHeap (rightValues s decl.names.length decl.values)
      decl.bindNames 0 decl.names values
      pure Control.normal)
      (inScope ((Stmt.assign .set lhs (decl.values.map env.resolve)).exec s n)) := by
  refine Sync.inTable ?_
  rw [Stmt.exec, execAssign_eq, hh.length, bind_assoc]
  have hscope : Resolves g oneScope c env.renames := hr.push rfl
  have hright := rightValues_sync hscope hs hrun decl.names.length hclear
  rw [renameExprs_eq_map] at hright
  exact hright.bind fun values => (hh.values values).bind fun _ => Sync.pure fun _ _ h => h

end Declarations

end YieldMachine
