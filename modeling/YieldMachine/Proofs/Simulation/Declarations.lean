import YieldMachine.Proofs.Interp.Frames
import YieldMachine.Proofs.Lowering.Total
import YieldMachine.Proofs.Simulation.Steps

/-!
# The forms of a declaration

A declaration of new variables has three forms: a definition with `:=`, a group with `var`, and
the assignment to fields that lowering makes of it.  The definition and the assignment evaluate
all values with the bindings from before the declaration, and then bind the names.  The group
binds each name before the next value is evaluated, so that it does the same only if no value
mentions a name to the left of its own.
-/

namespace YieldMachine

open Lowering

section Forms

/-- The declaration written with `:=`. -/
def VarDecl.asDefinition (d : VarDecl) : VarDecl := { d with define := true }

/-- The declaration written with `var`. -/
def VarDecl.asGroup (d : VarDecl) : VarDecl := { d with define := false }

/-- Whether no value mentions a name to the left of its own. -/
def VarDecl.InTurn (d : VarDecl) : Prop :=
  (d.names.zip d.values).Pairwise fun p q => ¬ q.2.Mentions p.1

/-- Whether a scope has names bound to values, and is else as it was before.  What the blank
name stands for is of no account. -/
def BindsIn (names : List String) (values : List Value) (frame frame' : Bindings) : Prop :=
  ∀ x, x ≠ "_" → frame'.lookup x = ((names.zip values).lookup x).or (frame.lookup x)

/-- Whether a computation evaluates the values of a declaration with the bindings from before
it, and then binds the names to them in the innermost scope. -/
def VarDecl.BindsAtOnce (d : VarDecl) (s : Session) (x : Eff Memory Control) : Prop :=
  ∀ (fields frame : Bindings) (outer : List Bindings) (heap : Heap),
    match evalAll s ⟨fields, frame :: outer⟩ d.values heap with
    | .ok values heap' => ∃ frame', BindsIn d.names values frame frame' ∧
        x ⟨fields, frame :: outer, heap⟩ = .ok .normal ⟨fields, frame' :: outer, heap'⟩
    | .error e heap' => ∃ frame',
        x ⟨fields, frame :: outer, heap⟩ = .error e ⟨fields, frame' :: outer, heap'⟩

/-- Whether a computation of a table evaluates the values of a declaration with the bindings
from before it, and then leaves them in the fields that the names stand for in `env`. -/
def VarDecl.FillsAtOnce (d : VarDecl) (s : Session) (g : Ground) (env : StateEnv)
    (x : Eff Memory Control) : Prop :=
  ∀ m mt, Linked g [] m mt →
    match evalAll s m.view d.values m.heap with
    | .ok values heap' => ∃ mt', x mt = .ok .normal mt' ∧ mt'.heap = heap' ∧
        ∀ p ∈ d.names.zip values, p.1 ≠ "_" →
          ∃ f, env.find? p.1 = some ⟨f, true⟩ ∧ mt'.fields.lookup f = some p.2
    | .error e heap' => ∃ e' mt', x mt = .error e' mt' ∧ mt'.heap = heap' ∧
        (e = .exhausted ↔ e' = .exhausted)

end Forms

section Scopes

variable {names : List String} {values : List Value} {frame frame' : Bindings}
  {fields : Bindings} {outer : List Bindings} {heap : Heap} {s : Session} {x : String}

theorem bindLocal_apply (x : String) (v : Value) :
    bindLocal x v ⟨fields, frame :: outer, heap⟩ =
      .ok () ⟨fields, frame.put x v :: outer, heap⟩ := rfl

theorem lookup_zip_eq_none {α β : Type} [BEq α] [LawfulBEq α] {xs : List α} {ys : List β} {x : α}
    (h : x ∉ xs) : (xs.zip ys).lookup x = none := by
  rw [List.lookup_eq_none_iff]
  rintro ⟨y, z⟩ hp
  have hne : x ≠ y := fun heq => h (heq ▸ (List.of_mem_zip hp).1)
  simpa using hne

theorem BindsIn.refl (values : List Value) (frame : Bindings) : BindsIn [] values frame frame :=
  fun _ _ => by simp

/-- The names of a declaration after the first one, if none is repeated but the blank one. -/
theorem named_nodup_cons (h : ((x :: names).filter (· != "_")).Nodup) :
    (x ≠ "_" → x ∉ names) ∧ (names.filter (· != "_")).Nodup := by
  refine ⟨fun hblank => ?_, h.sublist ((List.sublist_cons_self x names).filter _)⟩
  have hparts : x ∉ names ∧ (names.filter (· != "_")).Nodup := by simpa [hblank] using h
  exact hparts.1

/-- The first name is bound before the others. -/
theorem BindsIn.cons (hx : x ≠ "_" → x ∉ names) {v : Value}
    (h : BindsIn names values (frame.put x v) frame') :
    BindsIn (x :: names) (v :: values) frame frame' := by
  intro y hy
  rw [h y hy, Bindings.lookup_put, List.zip_cons_cons, List.lookup_cons]
  by_cases hyx : y = x
  · subst hyx
    simp [lookup_zip_eq_none (hx hy)]
  · have hne : (y == x) = false := by simpa using hyx
    simp [hyx, hne]

/-- A blank name that is not bound. -/
theorem BindsIn.blank {v : Value} (h : BindsIn names values frame frame') :
    BindsIn ("_" :: names) (v :: values) frame frame' := by
  intro y hy
  have hne : (y == "_") = false := by simpa using hy
  rw [h y hy, List.zip_cons_cons, List.lookup_cons, hne]

/-- The value that a name is bound to. -/
theorem BindsIn.lookup (h : BindsIn names values frame frame')
    (hnodup : (names.filter (· != "_")).Nodup) {p : String × Value}
    (hp : p ∈ names.zip values) (hblank : p.1 ≠ "_") : frame'.lookup p.1 = some p.2 := by
  rw [h p.1 hblank]
  suffices hzip : (names.zip values).lookup p.1 = some p.2 by rw [hzip, Option.some_or]
  clear h
  induction names generalizing values with
  | nil => simp at hp
  | cons x names ih =>
      cases values with
      | nil => simp at hp
      | cons v values =>
          rw [List.zip_cons_cons, List.lookup_cons]
          rcases List.mem_cons.mp hp with rfl | hp
          · simp
          · have hmem : p.1 ∈ names := (List.of_mem_zip hp).1
            have hne : p.1 ≠ x := by
              rintro rfl
              exact (named_nodup_cons hnodup).1 hblank hmem
            rw [beq_false_of_ne hne]
            exact ih (named_nodup_cons hnodup).2 hp

variable (s fields outer heap) in
/-- A definition stores the values one after the other. -/
theorem storeAll_define_binds (hnodup : (names.filter (· != "_")).Nodup)
    (hlength : names.length ≤ values.length) (frame : Bindings) :
    ∃ frame', BindsIn names values frame frame' ∧
      storeAll s true (names.map .name) values ⟨fields, frame :: outer, heap⟩ =
        .ok () ⟨fields, frame' :: outer, heap⟩ := by
  induction names generalizing values frame with
  | nil => exact ⟨frame, .refl values frame, rfl⟩
  | cons x names ih =>
      cases values with
      | nil => simp at hlength
      | cons v values =>
          obtain ⟨hx, hrest⟩ := named_nodup_cons hnodup
          have hlength' : names.length ≤ values.length := by simpa using hlength
          rw [List.map_cons, storeAll, Expr.name, eff_bind_apply]
          by_cases hblank : x = "_"
          · subst hblank
            obtain ⟨frame', hbinds, hrun⟩ := ih hrest hlength' frame
            rw [store_blank]
            exact ⟨frame', hbinds.blank, hrun⟩
          · obtain ⟨frame', hbinds, hrun⟩ := ih hrest hlength' (frame.put x v)
            rw [store_name true hblank, if_pos rfl, bindLocal_apply]
            exact ⟨frame', hbinds.cons hx, hrun⟩

theorem evalAll_cons_apply (v : View) (e : Expr) (es : List Expr) (heap : Heap) :
    evalAll s v (e :: es) heap =
      match e.eval s v heap with
      | .error fault heap => .error fault heap
      | .ok value heap =>
        match evalAll s v es heap with
        | .error fault heap => .error fault heap
        | .ok values heap => .ok (value :: values) heap := by
  rw [evalAll, eff_bind_apply]
  cases e.eval s v heap with
  | error fault heap => rfl
  | ok value heap =>
      simp only [eff_bind_apply]
      cases evalAll s v es heap <;> rfl

theorem length_of_evalAll {v : View} {es : List Expr} {heap' : Heap}
    (h : evalAll s v es heap = .ok values heap') : values.length = es.length := by
  induction es generalizing values heap with
  | nil =>
      cases h
      rfl
  | cons e es ih =>
      obtain ⟨value, heap₁, -, h⟩ := eff_bind_eq_ok.mp h
      obtain ⟨values', heap₂, hes, h⟩ := eff_bind_eq_ok.mp h
      cases h
      simp [ih hes]

/-- A new value of a name that no value mentions is not noticed. -/
theorem evalAll_put {es : List Expr} (h : ∀ e ∈ es, ¬ e.Mentions x) (v : Value) :
    evalAll s ⟨fields, frame.put x v :: outer⟩ es = evalAll s ⟨fields, frame :: outer⟩ es := by
  have hfields : (⟨fields, frame.put x v :: outer⟩ : View).fields =
      (⟨fields, frame :: outer⟩ : View).fields := rfl
  refine evalAll_congr_of_mentions hfields es fun e he y hy => ?_
  have hyx : y ≠ x := fun heq => h e he (heq ▸ hy)
  simp only [local?_eq_findLocal, findLocal_cons, Bindings.lookup_put, if_neg hyx]

variable (s fields outer) in
/-- A group binds each name before the next value is evaluated, which no later value notices. -/
theorem declareNames_binds {es : List Expr} (type : Expr)
    (hnodup : (names.filter (· != "_")).Nodup) (hlength : es.length = names.length)
    (hturn : (names.zip es).Pairwise fun p q => ¬ q.2.Mentions p.1) (frame : Bindings)
    (heap : Heap) :
    match evalAll s ⟨fields, frame :: outer⟩ es heap with
    | .ok values heap' => ∃ frame', BindsIn names values frame frame' ∧
        declareNames s type names es ⟨fields, frame :: outer, heap⟩ =
          .ok () ⟨fields, frame' :: outer, heap'⟩
    | .error e heap' => ∃ frame', declareNames s type names es ⟨fields, frame :: outer, heap⟩ =
        .error e ⟨fields, frame' :: outer, heap'⟩ := by
  induction names generalizing es frame heap with
  | nil =>
      obtain rfl := List.eq_nil_of_length_eq_zero hlength
      exact ⟨frame, .refl [] frame, rfl⟩
  | cons x names ih =>
      obtain ⟨e, es, rfl⟩ := List.exists_cons_of_length_eq_add_one hlength
      have hlength' : es.length = names.length := by simpa using hlength
      obtain ⟨hx, hrest⟩ := named_nodup_cons hnodup
      obtain ⟨hfirst, hturn'⟩ := List.pairwise_cons.mp hturn
      have hmentions : ∀ e' ∈ es, ¬ e'.Mentions x := by
        intro e' he'
        rw [← List.map_snd_zip hlength'.le] at he'
        obtain ⟨q, hq, rfl⟩ := List.mem_map.mp he'
        exact hfirst q hq
      rw [evalAll_cons_apply, declareNames]
      simp only [eff_bind_apply, onHeap, Memory.view]
      cases e.eval s ⟨fields, frame :: outer⟩ heap with
      | error fault heap₁ => exact ⟨frame, rfl⟩
      | ok v heap₁ =>
          have hlater := ih hrest hlength' hturn' (frame.put x v) heap₁
          rw [evalAll_put hmentions] at hlater
          simp only [bindLocal_apply]
          cases hes : evalAll s ⟨fields, frame :: outer⟩ es heap₁ with
          | error fault heap₂ =>
              rw [hes] at hlater
              exact hlater
          | ok values heap₂ =>
              rw [hes] at hlater
              obtain ⟨frame', hbinds, hrun⟩ := hlater
              exact ⟨frame', hbinds.cons hx, hrun⟩

end Scopes

section Declarations

variable {d : VarDecl} {s : Session} {g g' : Ground} {c : Visible} {env env' : StateEnv}
  {draft draft' : Draft} {current : Nat}

theorem rightValues_of_length {targets : Nat} {rhs : List Expr} (h : rhs.length = targets)
    (v : View) : rightValues s targets rhs v = evalAll s v rhs := by
  match rhs with
  | [] => rfl
  | [e] =>
      have hone : ¬ 2 ≤ targets := by
        rw [← h]
        simp
      simp only [rightValues, if_neg hone]
  | e :: e' :: rhs => rfl

/-- Binding names of which none is an existing variable. -/
theorem VarDecl.bindNames_of_fresh (s : Session) {i : Nat} {names : List String}
    (h : d.reusedFrom i names = []) (values : List Value) :
    d.bindNames i names values = storeAll s true (names.map .name) values := by
  induction names generalizing i values with
  | nil => rfl
  | cons x names ih =>
      cases values with
      | nil => rfl
      | cons v values =>
          rw [VarDecl.reusedFrom] at h
          split at h
          · cases h
          · rename_i hnew
            rw [List.map_cons, VarDecl.bindNames, storeAll, ih h]
            congr 1
            by_cases hblank : x = "_"
            · subst hblank
              rw [VarDecl.bindName, if_pos rfl, Expr.name, store_blank]
            · have hreuses : d.reuses i = false := by simpa [hblank] using hnew
              rw [VarDecl.bindName, if_neg hblank, hreuses, Expr.name, store_name true hblank]
              rfl

/-- What a definition does. -/
theorem VarDecl.definition_exec (n : Nat) :
    d.asDefinition.toStmt.exec s n = (do
      let values ← onHeap (rightValues s d.names.length d.values)
      storeAll s true (d.names.map .name) values
      pure Control.normal) := by
  have hstmt : d.asDefinition.toStmt = .assign .define (d.names.map .name) d.values := rfl
  rw [hstmt, Stmt.exec, execAssign_eq, List.length_map, bind_assoc]
  rfl

theorem VarDecl.definition_binds (hvalues : d.values.length = d.names.length)
    (hnodup : (d.names.filter (· != "_")).Nodup) (n : Nat) :
    d.BindsAtOnce s (d.asDefinition.toStmt.exec s n) := by
  intro fields frame outer heap
  rw [definition_exec]
  simp only [eff_bind_apply, onHeap, Memory.view, rightValues_of_length hvalues]
  cases hes : evalAll s ⟨fields, frame :: outer⟩ d.values heap with
  | error e heap' => exact ⟨frame, rfl⟩
  | ok values heap' =>
      have hlength : d.names.length ≤ values.length := by
        rw [length_of_evalAll hes, hvalues]
      obtain ⟨frame', hbinds, hrun⟩ :=
        storeAll_define_binds fields outer heap' s hnodup hlength frame
      refine ⟨frame', hbinds, ?_⟩
      simp only [hrun]
      rfl

theorem VarDecl.group_binds (hvalues : d.values.length = d.names.length)
    (hnodup : (d.names.filter (· != "_")).Nodup) (hturn : d.InTurn) (n : Nat) :
    d.BindsAtOnce s (d.asGroup.toStmt.exec s n) := by
  intro fields frame outer heap
  have hstmt : d.asGroup.toStmt = .decl .var [.value d.names d.sharedType d.values] := rfl
  have hgroup := declareNames_binds fields outer s d.sharedType hnodup hvalues hturn frame heap
  rw [hstmt, Stmt.exec, declareSpecs]
  simp only [eff_bind_apply]
  cases hes : evalAll s ⟨fields, frame :: outer⟩ d.values heap with
  | error e heap' =>
      rw [hes] at hgroup
      obtain ⟨frame', hrun⟩ := hgroup
      exact ⟨frame', by rw [hrun]⟩
  | ok values heap' =>
      rw [hes] at hgroup
      obtain ⟨frame', hbinds, hrun⟩ := hgroup
      exact ⟨frame', hbinds, by rw [hrun]; rfl⟩

/-- The assignment to the fields does what the definition does. -/
theorem VarDecl.definition_sync {lhs : List Expr} {fresh : List (Expr × Expr)} {n : Nat}
    (hh : Hoisted s n env d 0 d.names g g' lhs fresh) (hnew : d.reusedFrom 0 d.names = [])
    (hs : s.recv = receiverName) (hrun : c.runtime = s.runtime) (hr : Resolves g [] c env.renames)
    (hclear : exprsClear c d.values) :
    Sync (Linked g []) (fun _ => Linked g' []) (d.asDefinition.toStmt.exec s n)
      (inScope ((Stmt.assign .set lhs (d.values.map env.resolve)).exec s n)) := by
  have hsync := hh.assign_sync hs hrun hr hclear
  simp only [VarDecl.bindNames_of_fresh s hnew] at hsync
  rw [VarDecl.definition_exec]
  exact hsync

/-- A variable that is kept in fields is found under the name that its context gives it. -/
theorem Ground.Fits.find?_of_findLocal {m mt : Memory} {x : String} {v : Value}
    (hfits : g.Fits c env draft) (hm : Linked g [] m mt) (hx : findLocal m.frames x = some v) :
    ∃ f, env.find? x = some ⟨f, true⟩ ∧ mt.fields.lookup f = some v := by
  rw [hm.stored.2.findLocal_eq] at hx
  obtain ⟨f, hf, hv⟩ := Option.bind_eq_some_iff.mp hx
  exact ⟨f, hfits.resolves.stored x f hf (Nesting.not_binds_nil x), hv⟩

theorem Linked.exists_frame {m mt : Memory} (hm : Linked g [] m mt) (hroom : g.layout ≠ []) :
    ∃ frame outer, m.frames = frame :: outer := by
  have hframes := hm.stored.2.frames
  cases h : m.frames with
  | nil =>
      rw [h] at hframes
      exact absurd (List.forall₂_nil_right_iff.mp hframes) hroom
  | cons frame outer => exact ⟨frame, outer, rfl⟩

/-- What does the same as the definition leaves the values in fields. -/
theorem VarDecl.fills_of_sync {x : Eff Memory Control} {n : Nat}
    (hvalues : d.values.length = d.names.length) (hnodup : (d.names.filter (· != "_")).Nodup)
    (hroom : g.layout ≠ []) (hfits : g'.Fits c env' draft')
    (hsync : Sync (Linked g []) (fun _ => Linked g' []) (d.asDefinition.toStmt.exec s n) x) :
    d.FillsAtOnce s g env' x := by
  intro m mt hm
  obtain ⟨frame, outer, hframes⟩ := hm.exists_frame hroom
  obtain ⟨fields, frames, heap⟩ := m
  subst hframes
  have hbinds := d.definition_binds (s := s) hvalues hnodup n fields frame outer heap
  have hmatches := hsync _ mt hm
  simp only [Memory.view]
  cases hes : evalAll s ⟨fields, frame :: outer⟩ d.values heap with
  | error e heap' =>
      rw [hes] at hbinds
      obtain ⟨frame', hrun⟩ := hbinds
      rw [hrun] at hmatches
      cases hx : x mt with
      | ok ctl mt' =>
          rw [hx] at hmatches
          exact hmatches.elim
      | error e' mt' =>
          rw [hx] at hmatches
          exact ⟨e', mt', rfl, hmatches.2, hmatches.1⟩
  | ok values heap' =>
      rw [hes] at hbinds
      obtain ⟨frame', hbinds, hrun⟩ := hbinds
      rw [hrun] at hmatches
      cases hx : x mt with
      | error e' mt' =>
          rw [hx] at hmatches
          exact hmatches.elim
      | ok ctl mt' =>
          rw [hx] at hmatches
          obtain ⟨rfl, hm'⟩ := hmatches
          refine ⟨mt', rfl, hm'.heap, fun p hp hblank => ?_⟩
          refine hfits.find?_of_findLocal hm' ?_
          rw [findLocal_cons, hbinds.lookup hnodup hp hblank, Option.some_or]

/-- What lowering appends for a declaration with as many values as names. -/
theorem VarDecl.lower_assigns (hvalues : d.values.length = d.names.length)
    (h : d.lower current env draft = .ok (env', draft')) (hcurrent : current < draft.size) :
    ∃ lhs fresh d₁, hoistNames d env 0 d.names env draft = .ok ((lhs, fresh, env'), d₁) ∧
      draft'.used = d₁.used ∧ draft'.fields = d₁.fields ∧
      draft'.ops current = draft.ops current ++
        if d.values.isEmpty then []
        else [.exec (.assign .set lhs (d.values.map env.resolve))] := by
  obtain ⟨lhs, fresh, d₁, hhoist, hused, hfields, hops⟩ := VarDecl.lower_ok h hcurrent
  refine ⟨lhs, fresh, d₁, hhoist, hused, hfields, ?_⟩
  rw [hops]
  by_cases hempty : d.values = []
  · have hnames : d.names = [] := by
      rw [hempty] at hvalues
      exact List.eq_nil_of_length_eq_zero hvalues.symm
    have hfresh : fresh = [] := by
      rw [hnames] at hhoist
      cases hhoist
      rfl
    simp [hempty, hfresh]
  · simp [hempty]

/-- The forms of a declaration of new variables, each of which has a value.  The definition
binds all names at once.  So does the group if no value mentions a name to the left of its own.
Lowering succeeds and appends an assignment, which leaves the same values in the fields of the
names as the definition binds the names to. -/
theorem VarDecl.forms_bind_alike (htypes : d.types.length = d.names.length)
    (hvalues : d.values.length = d.names.length) (hnodup : (d.names.filter (· != "_")).Nodup)
    (hnew : d.reusedFrom 0 d.names = []) (s : Session) (n : Nat) :
    d.BindsAtOnce s (d.asDefinition.toStmt.exec s n) ∧
      (d.InTurn → d.BindsAtOnce s (d.asGroup.toStmt.exec s n)) ∧
      ∀ (current : Nat) (env : StateEnv) (draft : Draft), current < draft.size →
        ∃ env' draft' lhs, d.lower current env draft = .ok (env', draft') ∧
          (draft'.ops current = draft.ops current ++
            if d.values.isEmpty then []
            else [.exec (.assign .set lhs (d.values.map env.resolve))]) ∧
          ∀ (g : Ground) (c : Visible), s.recv = receiverName → c.runtime = s.runtime →
            d.Plain c → g.Fits c env draft → (∀ f ∈ draft'.fields.map Prod.fst, f ∈ g.fields) →
            ∃ g', d.FillsAtOnce s g env'
                (inScope ((Stmt.assign .set lhs (d.values.map env.resolve)).exec s n)) ∧
              Sync (Linked g []) (fun _ => Linked g' []) (d.asDefinition.toStmt.exec s n)
                (inScope ((Stmt.assign .set lhs (d.values.map env.resolve)).exec s n)) := by
  refine ⟨d.definition_binds hvalues hnodup n, fun hturn => d.group_binds hvalues hnodup hturn n,
    fun current env draft hcurrent => ?_⟩
  have htotal : Total (d.lower current env) env.SameTargets := VarDecl.lower_total htypes.ge
  obtain ⟨env', draft', hlower, -⟩ := htotal.exists_ok draft
  obtain ⟨lhs, fresh, d₁, hhoist, hused, hfields, hops⟩ := lower_assigns hvalues hlower hcurrent
  refine ⟨env', draft', lhs, hlower, hops, fun g c hs hrun hplain hfits hpresent => ?_⟩
  have hvars : ∀ x ∈ d.freshFrom 0 d.names, x ∈ d.fresh ++ c.vars :=
    fun x hx => List.mem_append_left _ hx
  obtain ⟨g', hfits', hh⟩ := hoistNames_hoisted (c := { c with vars := d.fresh ++ c.vars }) hs n
    hhoist hfits.resolves
    (hfits.mono rfl (List.suffix_refl _) fun x hx => List.mem_append_right _ hx)
    (fun _ _ _ => rfl) hplain.1 hnodup hvars (by rw [← hfields]; exact hpresent)
  have hsync := VarDecl.definition_sync hh hnew hs hrun hfits.resolves hplain.2.1
  exact ⟨g', fills_of_sync hvalues hnodup hfits.room hfits' hsync, hsync⟩

end Declarations

section Instances

/-- A table that is run without generators. -/
def plainSession : Session := ⟨receiverName, "yieldgen", .standard, heapSupply .standard 0 0⟩

/-- Declares two names anew, the first with the outer value of the other one: with `:=` these
are `a, b := b, 5`. -/
def carried : VarDecl :=
  ⟨["a", "b"], [.own (.name "int"), .asFirst], [.name "b", .lit .int "5"], true⟩

/-- An outer variable `b` in the field of its name, and a scope without variables. -/
def outerGround : Ground := ((⟨["b", "a", "b1"], [[]], []⟩ : Ground).declare "b" "b").push

/-- The context in which `b` stands for its field. -/
def outerEnv : StateEnv := (Env.start 0).withRename "b" ⟨"b", true⟩

/-- A draft of one state in which the field of `b` is in use. -/
def outerDraft : Draft :=
  { Draft.empty with fields := [("b", .name "int")], states := [[]], used := ["b"] }

theorem start_fits (fields : List String) (c : Visible) (next : Nat) (d : Draft) :
    (⟨fields, [[]], []⟩ : Ground).Fits c (Env.start next) d where
  resolves :=
    { plain := fun _ _ h => by cases h
      field := fun _ _ h => by cases h
      stored := fun _ _ h => by cases h
      blank := rfl }
  used := by simp [Ground.taken]
  room := by simp

theorem outer_fits : outerGround.Fits ⟨"yieldgen", ["b"]⟩ outerEnv outerDraft :=
  Ground.Fits.push
    ((start_fits ["b", "a", "b1"] ⟨"yieldgen", ["b"]⟩ 0 Draft.empty).declare
      (by decide) (by decide) (by decide) rfl)

theorem outer_linked :
    Linked outerGround [] ⟨[], [[], [("b", .int 2)]], Heap.empty⟩
      ⟨[("b", .int 2), ("a", .nil), ("b1", .nil)], [], Heap.empty⟩ := by
  have hframe : StoredFrame [("b", .int 2), ("a", .nil), ("b1", .nil)] [("b", "b")]
      [("b", .int 2)] := by
    intro x
    by_cases hx : x = "b"
    · subst hx
      rfl
    · simp [List.lookup_cons, beq_false_of_ne hx]
  refine ⟨rfl, rfl, rfl, ?_⟩
  exact
    { frames := .cons (fun _ => rfl) (.cons hframe .nil)
      present := by decide
      known := by decide
      distinct := by decide
      pinned := by decide }

/-- All three forms of `a, b := b, 5` leave the outer value of `b` in `a`. -/
theorem carried_binds_alike :
    carried.InTurn ∧
      carried.BindsAtOnce plainSession (carried.asDefinition.toStmt.exec plainSession 0) ∧
      carried.BindsAtOnce plainSession (carried.asGroup.toStmt.exec plainSession 0) ∧
      ∃ env' draft' lhs mt' fa fb,
        carried.lower 0 outerEnv outerDraft = .ok (env', draft') ∧
        inScope ((Stmt.assign .set lhs (carried.values.map outerEnv.resolve)).exec plainSession 0)
          ⟨[("b", .int 2), ("a", .nil), ("b1", .nil)], [], Heap.empty⟩ = .ok .normal mt' ∧
        env'.find? "a" = some ⟨fa, true⟩ ∧ mt'.fields.lookup fa = some (.int 2) ∧
        env'.find? "b" = some ⟨fb, true⟩ ∧ mt'.fields.lookup fb = some (.int 5) := by
  have hturn : carried.InTurn := by
    have hfive : ¬ (Expr.lit .int "5").Mentions "a" := by
      rintro ⟨⟩
      contradiction
    simpa [VarDecl.InTurn, carried] using hfive
  have hfields : (carried.lower 0 outerEnv outerDraft).toOption.map
      (fun p => p.2.fields.map Prod.fst) = some ["b", "a", "b1"] := rfl
  obtain ⟨hdefinition, hgroup, hlower⟩ :=
    carried.forms_bind_alike rfl rfl (by decide) rfl plainSession 0
  obtain ⟨env', draft', lhs, hok, -, hfills⟩ := hlower 0 outerEnv outerDraft (by decide)
  rw [hok] at hfields
  have hpresent : draft'.fields.map Prod.fst = ["b", "a", "b1"] := Option.some.inj hfields
  have hplain : carried.Plain ⟨"yieldgen", ["b"]⟩ :=
    ⟨by decide, ⟨⟨by decide, fun h => absurd h (by decide)⟩, trivial, trivial⟩,
      fun h => absurd h (by decide)⟩
  obtain ⟨g', hfills, -⟩ := hfills outerGround ⟨"yieldgen", ["b"]⟩ rfl rfl hplain outer_fits (by
    rw [hpresent]
    decide)
  obtain ⟨mt', hrun, -, hvalues⟩ := hfills _ _ outer_linked
  obtain ⟨fa, ha⟩ := hvalues ("a", .int 2) (by decide) (by decide)
  obtain ⟨fb, hb⟩ := hvalues ("b", .int 5) (by decide) (by decide)
  exact ⟨hturn, hdefinition, hgroup hturn, env', draft', lhs, mt', fa, fb, hok, hrun, ha.1, ha.2,
    hb⟩

/-- Declares two names anew, each with the outer value of the other one. -/
def swapped : VarDecl :=
  ⟨["a", "b"], [.own (.name "int"), .asFirst], [.name "b", .name "a"], false⟩

/-- The group `var a, b = b, a` gives the second name the new value of the first one, where the
definition `a, b := b, a` swaps the two. -/
theorem swapped_group_binds_in_turn :
    swapped.asDefinition.toStmt.exec plainSession 0
        ⟨[], [[], [("a", .int 1), ("b", .int 2)]], Heap.empty⟩ =
      .ok .normal
        ⟨[], [[("b", .int 1), ("a", .int 2)], [("a", .int 1), ("b", .int 2)]], Heap.empty⟩ ∧
    swapped.asGroup.toStmt.exec plainSession 0
        ⟨[], [[], [("a", .int 1), ("b", .int 2)]], Heap.empty⟩ =
      .ok .normal
        ⟨[], [[("b", .int 2), ("a", .int 2)], [("a", .int 1), ("b", .int 2)]], Heap.empty⟩ ∧
    ¬ swapped.BindsAtOnce plainSession (swapped.asGroup.toStmt.exec plainSession 0) := by
  refine ⟨rfl, rfl, fun h => ?_⟩
  obtain ⟨frame', hbinds, hrun⟩ := h [] [] [[("a", .int 1), ("b", .int 2)]] Heap.empty
  have hframe : frame' = [("b", .int 2), ("a", .int 2)] := by
    cases hrun
    rfl
  have hb := hbinds "b" (by decide)
  rw [hframe] at hb
  revert hb
  decide

end Instances

end YieldMachine
