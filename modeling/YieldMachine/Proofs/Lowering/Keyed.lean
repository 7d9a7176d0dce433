import YieldMachine.Proofs.Lowering.Literals

/-!
# Literals of a table

Lowering replaces variables and moves trees into states, fields and lifted declarations.  It makes
no literal and no kept key, so that each literal of a table stands in the body or a parameter, with
the same kept keys and with its variables under other names.  It drops nothing but the types of
blank variables and the targets of definitions, so that each literal of the other trees of the body
stands in the table.
-/

namespace YieldMachine

open Lowering Draft

/-- The values that an arm of a dispatch lists. -/
def Arm.values : Arm → List Expr
  | .case values _ => values
  | .default _ => []

/-- Whether a literal like this one stands in a tree of an operation itself. -/
def Op.Holds (l : Literal) : Op → Prop
  | .exec stmt => stmt.Holds l
  | .jump _ value => value.Holds l
  | .finish => False
  | .when cond _ | .choose cond _ _ => cond.Holds l
  | .dispatch tag arms => tag.Holds l ∨ ExprsHold l (arms.flatMap Arm.values)

/-- Whether a literal like this one stands in one of some operations. -/
def OpsHold (l : Literal) (ops : List Op) : Prop := ∃ op ∈ ops, op.Holds l

/-- Whether a literal like this one stands in a table: in an operation, in the type of a field, or
in a lifted declaration. -/
def TableHolds (l : Literal) (states : List (List Op))
    (fields : List (String × Expr)) (types : List Decl) : Prop :=
  OpsHold l (tableOps states) ∨ ExprsHold l (fields.map Prod.snd) ∨
    SpecsHold l (types.flatMap Decl.specs)

/-- Whether a literal like this one stands in the table of a draft. -/
def Draft.Holds (l : Literal) (d : Draft) : Prop :=
  TableHolds l d.states d.fields d.types

/-- Whether a literal like this one stands in the table of a holder. -/
def Holder.Holds (l : Literal) (h : Holder) : Prop :=
  TableHolds l h.states h.fields h.types

section Operations

variable {l : Literal}

@[simp]
theorem not_opsHold_nil : ¬ OpsHold l [] := by simp [OpsHold]

theorem opsHold_append {ops others : List Op} :
    OpsHold l (ops ++ others) ↔ OpsHold l ops ∨ OpsHold l others := by
  simp [OpsHold, or_and_right, exists_or]

@[simp]
theorem opsHold_cons {op : Op} {ops : List Op} :
    OpsHold l (op :: ops) ↔ op.Holds l ∨ OpsHold l ops := by
  simp [OpsHold]

@[simp]
theorem opsHold_exec {stmt : Stmt} : OpsHold l (Op.exec stmt).parts ↔ stmt.Holds l := by
  simp [Op.parts, Op.Holds]

@[simp]
theorem opsHold_jump {goal : Nat} {value : Expr} :
    OpsHold l (Op.jump goal value).parts ↔ value.Holds l := by
  simp [Op.parts, Op.Holds]

@[simp]
theorem opsHold_when {cond : Expr} {ops : List Op} : OpsHold l (Op.when cond ops).parts ↔
    cond.Holds l ∨ OpsHold l (opsParts ops) := by
  simp [Op.parts, Op.Holds]

@[simp]
theorem opsHold_choose {cond : Expr} {ops others : List Op} :
    OpsHold l (Op.choose cond ops others).parts ↔
      cond.Holds l ∨ OpsHold l (opsParts ops) ∨ OpsHold l (opsParts others) := by
  simp [Op.parts, Op.Holds, opsHold_append]

@[simp]
theorem opsHold_dispatch {tag : Expr} {arms : List Arm} :
    OpsHold l (Op.dispatch tag arms).parts ↔
      (tag.Holds l ∨ ExprsHold l (arms.flatMap Arm.values)) ∨
        OpsHold l (armsParts arms) := by
  simp [Op.parts, Op.Holds]

@[simp]
theorem not_opsHold_jumps (goal : Nat) : ¬ OpsHold l (opsParts [.jump goal .missing]) := by
  simp [opsParts, Op.parts, Op.Holds, Expr.not_holds_missing]

end Operations

namespace Draft

/-- Whether a draft has gained literals like this one: all that follow from `lo` are there now, and
for all that are new `hi` holds. -/
structure Acquires (l : Literal) (lo hi : Prop) (d d' : Draft) : Prop where
  size : d.size ≤ d'.size
  kept : d.Holds l → d'.Holds l
  gained : lo → d'.Holds l
  bound : d'.Holds l → d.Holds l ∨ hi

namespace Acquires

variable {l : Literal} {lo lo' hi : Prop} {d d' d'' : Draft}

theorem trans (h : Acquires l lo hi d d') (h' : Acquires l lo' hi d' d'') :
    Acquires l (lo ∨ lo') hi d d'' where
  size := Nat.le_trans h.size h'.size
  kept hd := h'.kept (h.kept hd)
  gained hlo := hlo.elim (fun hlo => h'.kept (h.gained hlo)) h'.gained
  bound hd := (h'.bound hd).elim h.bound .inr

/-- A draft whose table gains what is between the bounds. -/
theorem of_iff {new : Prop} (hsize : d.size ≤ d'.size)
    (hiff : d'.Holds l ↔ d.Holds l ∨ new) (hnew : Between lo new hi) :
    Acquires l lo hi d d' where
  size := hsize
  kept hd := hiff.mpr (.inl hd)
  gained hlo := hiff.mpr (.inr (hnew.low hlo))
  bound hd := (hiff.mp hd).imp_right hnew.high

theorem reserve (d : Draft) : Acquires l False hi d d.reserve := by
  refine .of_iff (by simp) ?_ ⟨id, False.elim⟩
  simp [Holds, TableHolds, Draft.reserve, tableOps, opsParts]

theorem append {q : Nat} (hq : q < d.size) {op : Op} (h : Between lo (OpsHold l op.parts) hi) :
    Acquires l lo hi d (d.append q op) := by
  refine .of_iff (by simp) ?_ h
  have hops : OpsHold l (tableOps (d.append q op).states) ↔
      OpsHold l (tableOps d.states) ∨ OpsHold l op.parts := by
    rw [← opsHold_append]
    exact exists_congr fun o => and_congr_left fun _ => (tableOps_modify hq op).mem_iff
  unfold Holds TableHolds
  rw [hops, or_right_comm]
  rfl

/-- Fields of some types. -/
theorem of_fields {new : List (String × Expr)} (hstates : d'.states = d.states)
    (hfields : d'.fields = d.fields ++ new) (htypes : d'.types = d.types)
    (hnew : Between lo (ExprsHold l (new.map Prod.snd)) hi) : Acquires l lo hi d d' := by
  refine .of_iff (by rw [Draft.size, Draft.size, hstates]) ?_ hnew
  simp only [Holds, TableHolds, hstates, hfields, htypes, List.map_append, exprsHold_append]
  tauto

/-- A draft whose table stays the same. -/
theorem of_table (hstates : d'.states = d.states) (hfields : d'.fields = d.fields)
    (htypes : d'.types = d.types) : Acquires l False hi d d' :=
  .of_fields hstates (by rw [hfields, List.append_nil]) htypes
    ⟨False.elim, fun h => (not_exprsHold_nil h).elim⟩

/-- A lifted declaration. -/
theorem type (decl : Decl) (h : Between lo (SpecsHold l decl.specs) hi) :
    Acquires l lo hi d { d with types := d.types ++ [decl] } := by
  refine .of_iff (Nat.le_refl _) ?_ h
  simp only [Holds, TableHolds, List.flatMap_append, SpecsHold, List.mem_append, or_and_right,
    exists_or, List.flatMap_cons, List.flatMap_nil, List.append_nil, or_assoc]

end Acquires

end Draft

/-- Whether a part of lowering, where it succeeds on a draft of `n` states or more, adds literals
like this one if `lo` holds, and adds some only if `hi` holds; its result has the property for the
number of states then. -/
def Lowering.Keyed {α : Type} (l : Literal) (hi : Prop) (n : Nat) (x : Lowering α)
    (lo : Prop) (P : α → Nat → Prop) : Prop :=
  ∀ d : Draft, n ≤ d.size →
    Ensures (fun _ => True) d x fun a d' => d.Acquires l lo hi d' ∧ P a d'.size

namespace Lowering.Keyed

variable {α β : Type} {l : Literal} {hi lo lo' : Prop} {n : Nat}
  {P : α → Nat → Prop} {Q : β → Nat → Prop}

theorem bind {x : Lowering α} {f : α → Lowering β} (hx : Keyed l hi n x lo P)
    (hf : ∀ a m, n ≤ m → P a m → Keyed l hi m (f a) lo' Q) :
    Keyed l hi n (x >>= f) (lo ∨ lo') Q := by
  intro d hd
  refine (hx d hd).bind fun a d' ⟨hgains, ha⟩ => ?_
  refine (hf a d'.size (Nat.le_trans hd hgains.size) ha d' (Nat.le_refl _)).mono ?_
  exact fun b d'' ⟨hgains', hb⟩ => ⟨hgains.trans hgains', hb⟩

theorem mono {P' : α → Nat → Prop} {x : Lowering α} (h : Keyed l hi n x lo P)
    (hlo : lo' → lo) (himp : ∀ a m, P a m → P' a m) : Keyed l hi n x lo' P' :=
  fun d hd => (h d hd).mono fun a d' ⟨hgains, ha⟩ =>
    ⟨⟨hgains.size, hgains.kept, fun h => hgains.gained (hlo h), hgains.bound⟩, himp a d'.size ha⟩

theorem weaken {x : Lowering α} (h : Keyed l hi n x lo P) (hlo : lo' → lo) :
    Keyed l hi n x lo' P := h.mono hlo fun _ _ => id

/-- A part that need not add anything comes first. -/
theorem after {x : Lowering α} {f : α → Lowering β} (hx : Keyed l hi n x False P)
    (hf : ∀ a m, n ≤ m → P a m → Keyed l hi m (f a) lo Q) : Keyed l hi n (x >>= f) lo Q :=
  (hx.bind hf).weaken .inr

/-- A part that need not add anything comes last. -/
theorem before {x : Lowering α} {f : α → Lowering β} (hx : Keyed l hi n x lo P)
    (hf : ∀ a m, n ≤ m → P a m → Keyed l hi m (f a) False Q) :
    Keyed l hi n (x >>= f) lo Q :=
  (hx.bind hf).weaken .inl

theorem pure {a : α} (h : ∀ m, n ≤ m → P a m) :
    Keyed l hi n (Pure.pure a) False P :=
  fun _ hd => ⟨.of_table rfl rfl rfl, h _ hd⟩

theorem throw (e : LowerError) : Keyed l hi n (MonadExcept.throw e : Lowering α) lo P :=
  fun _ _ => trivial

theorem newState {f : Nat → Lowering β}
    (h : ∀ q m, n ≤ m → q < m → Keyed l hi m (f q) lo Q) :
    Keyed l hi n (Lowering.newState >>= f) lo Q := by
  intro d hd
  have hsize : d.size < d.reserve.size := by simp
  refine .newState (((h d.size d.reserve.size (by omega) hsize) d.reserve (Nat.le_refl _)).mono ?_)
  rintro a d' ⟨hgains, ha⟩
  have hall : Acquires l (False ∨ lo) hi d d' := (Acquires.reserve d).trans hgains
  exact ⟨⟨hall.size, hall.kept, fun hlo => hall.gained (.inr hlo), hall.bound⟩, ha⟩

theorem emit_last {q : Nat} (hq : q < n) {op : Op} (h : Between lo (OpsHold l op.parts) hi) :
    Keyed l hi n (Lowering.emit q op) lo fun _ _ => True :=
  fun _ hd => ⟨.append (Nat.lt_of_lt_of_le hq hd) h, trivial⟩

theorem emit {q : Nat} (hq : q < n) {op : Op} (h : Between lo (OpsHold l op.parts) hi)
    {f : Unit → Lowering β} (hf : Keyed l hi n (f ()) lo' Q) :
    Keyed l hi n (Lowering.emit q op >>= f) (lo ∨ lo') Q :=
  (emit_last hq h).bind fun _ _ hm _ d hd => hf d (Nat.le_trans hm hd)

theorem jump_last {q : Nat} (hq : q < n) (goal : Nat) :
    Keyed l hi n (Lowering.emit q (.jump goal .missing)) False fun _ _ => True :=
  emit_last hq ⟨False.elim, fun h => (Expr.not_holds_missing (opsHold_jump.mp h)).elim⟩

theorem jump {q : Nat} (hq : q < n) (goal : Nat) {f : Unit → Lowering β}
    (hf : Keyed l hi n (f ()) lo Q) :
    Keyed l hi n (Lowering.emit q (.jump goal .missing) >>= f) lo Q :=
  (jump_last hq goal).after fun _ _ hm _ d hd => hf d (Nat.le_trans hm hd)

/-- A part that leaves the table as it is. -/
theorem of_table {x : Lowering α}
    (h : ∀ d, Ensures (fun _ => True) d x fun _ d' =>
      d'.states = d.states ∧ d'.fields = d.fields ∧ d'.types = d.types) :
    Keyed l hi n x False fun _ _ => True :=
  fun d _ => (h d).mono fun _ _ ⟨hstates, hfields, htypes⟩ =>
    ⟨.of_table hstates hfields htypes, trivial⟩

theorem terminated {q : Nat} {f : Bool → Lowering β} (h : ∀ b, Keyed l hi n (f b) lo Q) :
    Keyed l hi n (Lowering.terminated q >>= f) lo Q :=
  (of_table (x := Lowering.terminated q) fun _ => ⟨rfl, rfl, rfl⟩).after
    fun b _ hm _ d hd => h b d (Nat.le_trans hm hd)

theorem hoist {name : String} {type : Expr} (htype : Between lo (type.Holds l) hi) :
    Keyed l hi n (Lowering.hoist name type) lo fun _ _ => True :=
  fun _ _ => ⟨.of_fields rfl rfl rfl (by simpa using htype), trivial⟩

theorem hoistIterator {type : Expr} (htype : type.Holds l → hi) :
    Keyed l hi n (Lowering.hoistIterator type) False fun _ _ => True :=
  fun _ _ => ⟨.of_fields rfl rfl rfl ⟨False.elim, by simpa using htype⟩, trivial⟩

theorem discard {x : Lowering α} (h : Keyed l hi n x lo P) :
    Keyed l hi n (Functor.discard x) lo fun _ _ => True :=
  fun d hd => .discard ((h d hd).mono fun _ _ ha => ⟨ha.1, trivial⟩)

end Lowering.Keyed

section Renamed

variable {l : Literal} {env : StateEnv}

theorem StateEnv.holds_resolve {e : Expr} : (env.resolve e).Holds l ↔ e.Holds l :=
  Expr.holds_rename

theorem StateEnv.exprsHold_resolve {es : List Expr} :
    ExprsHold l (es.map env.resolve) ↔ ExprsHold l es := by
  simp [ExprsHold, holds_resolve]

theorem StateEnv.holds_resolveShared {uses : Nat} {e : Expr} :
    (env.resolveShared uses e).Holds l ↔ e.Holds l := by
  unfold resolveShared
  split
  · exact holds_resolve
  · induction uses with
    | zero => rfl
    | succ uses ih => exact holds_resolve.trans ih

theorem not_holds_fieldExpr (field : String) : ¬ (fieldExpr field).Holds l := by
  simp [fieldExpr, Expr.holds_sel, Expr.not_holds_name]

/-- The zero value that a field is reset to has the literals of its type. -/
theorem holds_zero {type : Expr} :
    (Expr.star (.call (.name "new") [type] false)).Holds l ↔ type.Holds l := by
  simp [Expr.holds_star, Expr.holds_call, Expr.not_holds_name]

theorem Spec.holds_lifted {spec : Spec} : (spec.lifted env).Holds l ↔ spec.Holds l := by
  cases spec with
  | value names ty values =>
      rw [lifted, holds_value, holds_value, StateEnv.holds_resolve, StateEnv.exprsHold_resolve]
  | type name typeParams isAlias ty =>
      rw [lifted, holds_type, holds_type, StateEnv.holds_resolve]
      exact or_congr_right (Expr.holds_rename (e := .struct typeParams))
  | imported name path => rfl

end Renamed

section Parts

variable {l : Literal} {hi : Prop} {plan : Plan} {flow : Flow}
  {current cont n : Nat} {env : StateEnv}

/-- A statement that is copied has its literals in the table. -/
theorem verbatim_keyed (hcurrent : current < n)
    (hhi : PartsHold Flow.trees l flow.parts → hi) :
    Keyed l hi n (verbatim flow current env) (PartsHold Flow.operands l flow.parts)
      fun _ _ => True := by
  unfold verbatim
  split
  · exact .throw _
  · exact .throw _
  · rename_i hstmt
    refine Keyed.weaken (.pure fun _ _ => trivial) fun hlo => ?_
    have hempty := (flow.holds_toStmt hstmt).low hlo
    rw [Stmt.holds_iff] at hempty
    simp [Stmt.parts] at hempty
  · rename_i stmt _ _ hstmt
    refine .emit_last hcurrent ?_
    rw [opsHold_exec]
    exact ⟨fun hlo => Stmt.holds_rename.mpr ((flow.holds_toStmt hstmt).low hlo),
      fun h => hhi ((flow.holds_toStmt hstmt).high (Stmt.holds_rename.mp h))⟩

/-- The type that a declaration gives to a name is one of its types. -/
theorem VarDecl.typeAt?_own {d : VarDecl} {i : Nat} {type : Expr} (h : d.typeAt? i = some type) :
    type = .missing ∨ type ∈ d.types.filterMap DeclType.own? := by
  unfold typeAt? at h
  obtain ⟨declType, htype, heq⟩ := Option.map_eq_some_iff.mp h
  have hmem := List.mem_of_getElem? htype
  cases declType with
  | reused => exact .inl heq.symm
  | own t =>
      obtain rfl : t = type := heq
      exact .inr (List.mem_filterMap.mpr ⟨_, hmem, rfl⟩)
  | asFirst =>
      obtain rfl : d.firstType = type := heq
      unfold firstType
      split
      · rename_i rest htypes
        exact .inr (by simp [htypes, DeclType.own?])
      · exact .inl rfl

/-- A type that is written for all names of a declaration is that of each of them. -/
theorem VarDecl.typeAt?_shared {d : VarDecl} (hshared : d.sharedType ≠ .missing) {i : Nat}
    {type : Expr} (h : d.typeAt? i = some type) : type = d.sharedType := by
  obtain ⟨rest, htypes, hrest⟩ := VarDecl.types_of_shared hshared
  obtain ⟨declType, hi, rfl⟩ := Option.map_eq_some_iff.mp h
  rw [htypes] at hi
  rcases List.mem_cons.mp (List.mem_of_getElem? hi) with rfl | hmem
  · rfl
  · obtain rfl := hrest _ hmem
    rw [firstType, htypes]

/-- New variables get fields of their types.  No target of a declaration has a literal. -/
theorem hoistNames_keyed {d : VarDecl}
    (htypes : ExprsHold l (d.types.filterMap DeclType.own?) → hi) (i : Nat)
    (names : List String) (inner : StateEnv) :
    Keyed l hi n (hoistNames d env i names inner)
      (names.any (· != "_") = true ∧ d.sharedType.Holds l) fun result _ =>
        ¬ ExprsHold l result.1 ∧
          ∀ p ∈ result.2.1, ¬ p.1.Holds l ∧ (p.2.Holds l → hi) := by
  induction names generalizing i inner n with
  | nil => exact Keyed.weaken (.pure fun _ _ => ⟨not_exprsHold_nil, nofun⟩) (by simp)
  | cons name names ih =>
      simp only [hoistNames]
      split
      · rename_i hblank
        refine Keyed.weaken ((ih (i + 1) inner).before fun result m _ h => ?_)
          (by simp [eq_of_beq hblank])
        exact .pure fun _ _ => ⟨by simp [Expr.not_holds_name, h.1], h.2⟩
      · split
        · exact .throw _
        · rename_i htype
          refine Keyed.weaken ((ih (i + 1) inner).before fun result m _ h => ?_) fun h => ?_
          · refine .pure fun _ _ => ⟨?_, h.2⟩
            simp [StateEnv.holds_resolve, Expr.not_holds_name, h.1]
          · exact absurd (VarDecl.typeAt?_shared h.2.ne_missing htype).symm h.2.ne_missing
        · rename_i type _ htype
          have hhi : (env.resolveShared (d.typeUses i) type).Holds l → hi := by
            intro hholds
            rw [StateEnv.holds_resolveShared] at hholds
            rcases VarDecl.typeAt?_own htype with rfl | hmem
            · exact (Expr.not_holds_missing hholds).elim
            · exact htypes ⟨type, hmem, hholds⟩
          have hlo : d.sharedType.Holds l → (env.resolveShared (d.typeUses i) type).Holds l := by
            intro hholds
            rw [StateEnv.holds_resolveShared, VarDecl.typeAt?_shared hholds.ne_missing htype]
            exact hholds
          refine Keyed.weaken ((Keyed.hoist ⟨hlo, hhi⟩).before fun field m _ _ => ?_) And.right
          refine Keyed.weaken ((ih (i + 1) _).before fun result m' _ h => ?_) False.elim
          refine .pure fun _ _ => ⟨by simp [not_holds_fieldExpr, h.1], ?_⟩
          exact List.forall_mem_cons.mpr ⟨⟨not_holds_fieldExpr field, hhi⟩, h.2⟩

theorem resetFields_keyed (hcurrent : current < n) {fresh : List (Expr × Expr)}
    (h : ∀ p ∈ fresh, ¬ p.1.Holds l ∧ (p.2.Holds l → hi)) :
    Keyed l hi n (resetFields current fresh) False fun _ _ => True := by
  induction fresh with
  | nil => exact .pure fun _ _ => trivial
  | cons p fresh ih =>
      obtain ⟨⟨hfield, htype⟩, hrest⟩ := List.forall_mem_cons.mp h
      refine Keyed.weaken (.emit hcurrent ⟨False.elim, ?_⟩ (ih hrest)) .inr
      rw [opsHold_exec, Stmt.holds_set]
      simpa [hfield, holds_zero] using htype

/-- A declaration becomes an assignment of its values, or resets its fields. -/
theorem VarDecl.lower_keyed (hcurrent : current < n) (d : VarDecl)
    (hhi : PartsHold Flow.trees l (Flow.declare d).parts → hi) :
    Keyed l hi n (d.lower current env) (PartsHold Flow.operands l (Flow.declare d).parts)
      fun _ _ => True := by
  rw [holds_trees] at hhi
  rw [holds_operands, exprsHold_writtenTypes, or_comm]
  refine Keyed.weaken ((hoistNames_keyed (fun h => hhi (.inr h)) 0 d.names env).bind ?_)
    (Or.imp_left And.right)
  rintro ⟨lhs, fresh, inner⟩ m hm ⟨hlhs, hfresh⟩
  cases hvalues : d.values with
  | nil =>
      simp only [List.isEmpty_nil, if_true]
      exact Keyed.weaken ((resetFields_keyed (by omega) hfresh).after fun _ _ _ _ =>
        .pure fun _ _ => trivial) not_exprsHold_nil
  | cons value values =>
      simp only [List.isEmpty_cons, Bool.false_eq_true, if_false]
      rw [hvalues] at hhi
      refine Keyed.weaken (.emit (by omega) ?_ (.pure fun _ _ => trivial)) .inl
      rw [opsHold_exec, Stmt.holds_set, StateEnv.exprsHold_resolve]
      exact ⟨.inr, fun h => hhi (.inl (h.resolve_left hlhs))⟩

theorem liftNames_keyed (names : List String) :
    Keyed l hi n (liftNames plan names env) False fun _ _ => True := by
  induction names generalizing env n with
  | nil => exact .pure fun _ _ => trivial
  | cons name names ih =>
      simp only [liftNames]
      split
      · exact ih
      · exact (Keyed.of_table (x := liftName plan name) fun _ => ⟨rfl, rfl, rfl⟩).after
          fun _ _ _ _ => ih

theorem Flow.holds_lift {d : Decl} {trees : Flow → List Node}
    (h : trees (.lift d) = (Flow.lift d).operands) :
    PartsHold trees l (Flow.lift d).parts ↔ SpecsHold l d.specs := by
  simp only [Flow.parts, partsHold_cons, partsHold_nil, or_false, h, Flow.operands, List.mem_map,
    exists_exists_and_eq_and]
  rfl

/-- A declaration is lifted with its literals. -/
theorem liftDecl_keyed (d : Decl)
    (hhi : PartsHold Flow.trees l (Flow.lift d).parts → hi) :
    Keyed l hi n (liftDecl plan d env) (PartsHold Flow.operands l (Flow.lift d).parts)
      fun _ _ => True := by
  have htrees : PartsHold Flow.trees l (Flow.lift d).parts ↔ SpecsHold l d.specs :=
    Flow.holds_lift rfl
  rw [htrees] at hhi
  rw [Flow.holds_lift rfl]
  refine (liftNames_keyed _).after fun env' m hm _ => ?_
  have hspecs : SpecsHold l (d.specs.map (Spec.lifted env')) ↔ SpecsHold l d.specs := by
    simp [SpecsHold, Spec.holds_lifted]
  refine Keyed.before (P := fun _ _ => True) (fun d' hd' => ⟨?_, trivial⟩) fun _ _ _ _ =>
    .pure fun _ _ => trivial
  exact .type _ ⟨hspecs.mpr, fun h => hhi (hspecs.mp h)⟩

theorem lowerTest_keyed {state : Nat} (hstate : state < n) {cond : Expr} (body exit : Nat)
    (hhi : cond.Holds l → hi) :
    Keyed l hi n (lowerTest state cond body exit env) (cond.Holds l) fun _ _ => True := by
  unfold lowerTest
  split
  · exact (Keyed.jump_last hstate body).weaken Expr.not_holds_missing
  · refine Keyed.weaken (.emit hstate ?_ (.jump_last hstate exit)) .inl
    rw [opsHold_when, StateEnv.holds_resolve]
    exact ⟨.inl, fun h => hhi (h.resolve_right (not_opsHold_jumps body))⟩

/-- A target of a loop over an iterator keeps its literals unless it is declared. -/
theorem lowerTarget_keyed {define : Bool} {target type : Expr} {inner : StateEnv}
    (htype : type.Holds l → hi) :
    Keyed l hi n (lowerTarget define target type env inner) False fun result _ =>
      Between (define = false ∧ target.Holds l) (result.1.Holds l) (target.Holds l) := by
  have hnone : ∀ {e : Expr} {name : String} {kept : Bool}, ¬ e.Holds l →
      Between (define = false ∧ (Expr.ident name kept).Holds l) (e.Holds l)
        ((Expr.ident name kept).Holds l) := by
    intro e name kept he
    refine ⟨fun h => ?_, fun h => (he h).elim⟩
    rw [Expr.holds_iff [] rfl rfl] at h
    simp at h
  unfold lowerTarget
  split
  · exact .pure fun _ _ =>
      ⟨fun h => (Expr.not_holds_missing h.2).elim, fun h => (Expr.not_holds_name "_" h).elim⟩
  · rename_i name kept
    split
    · exact .pure fun _ _ => hnone (Expr.not_holds_name "_")
    · split
      · refine (Keyed.hoist ⟨False.elim, ?_⟩).after fun field m _ _ =>
          .pure fun _ _ => hnone (not_holds_fieldExpr field)
        rwa [StateEnv.holds_resolveShared]
      · exact .pure fun _ _ =>
          ⟨fun h => StateEnv.holds_resolve.mpr h.2, StateEnv.holds_resolve.mp⟩
  · exact .pure fun _ _ => ⟨fun h => StateEnv.holds_resolve.mpr h.2, StateEnv.holds_resolve.mp⟩

theorem Walk.holds_iteratorType {w : Walk} (h : (w.iteratorType plan env).Holds l) :
    w.keyType.Holds l ∨ w.valueType.Holds l := by
  unfold iteratorType at h
  rw [Expr.holds_iff (_ :: _) rfl rfl] at h
  simpa [Expr.holds_sel, Expr.not_holds_name, StateEnv.holds_resolveShared] using h

/-- The header of a loop over an iterator. -/
theorem Walk.lower_keyed (hcurrent : current < n) (w : Walk) {body : List Flow}
    (hhi : (∃ n ∈ (Flow.walk w body).trees, n.Holds l) → hi) :
    Keyed l hi n (w.lower plan current env)
      (∃ n ∈ (Flow.walk w body).operands, n.Holds l) fun result m => result.2.1 < m := by
  rw [holds_trees] at hhi
  rw [holds_operands]
  refine .newState fun init m hm hinit => .jump (by omega) init ?_
  refine (Keyed.hoistIterator fun h => hhi (.inr (.inr (holds_iteratorType h)))).after
    fun it m₁ hm₁ _ => ?_
  refine .emit (by omega) ?_ ?_
  · simp only [opsHold_exec, Stmt.holds_set, exprsHold_cons, not_holds_fieldExpr,
      not_exprsHold_nil, StateEnv.holds_resolve, or_false, false_or]
    exact ⟨id, fun h => hhi (.inl h)⟩
  refine (lowerTarget_keyed fun h => hhi (.inr (.inr (.inl h)))).after ?_
  rintro ⟨key, inner⟩ m₂ hm₂ hkey
  refine (lowerTarget_keyed fun h => hhi (.inr (.inr (.inr h)))).after ?_
  rintro ⟨value, inner'⟩ m₃ hm₃ hvalue
  refine .newState fun cond m₄ hm₄ hcond => .jump (by omega) cond ?_
  refine .newState fun bodyState m₅ hm₅ hbody => ?_
  refine Keyed.weaken (.emit (by omega) ?_ (.jump (by omega) _ (.pure ?_))) .inl
  · have htargets := hkey.or hvalue
    simp only [opsParts, Op.parts, List.append_nil, List.singleton_append, opsHold_cons, Op.Holds,
      not_opsHold_nil, Stmt.holds_set, exprsHold_cons, not_exprsHold_nil, Expr.method,
      Expr.holds_call, Expr.holds_sel, not_holds_fieldExpr, Expr.not_holds_missing, or_false,
      false_or]
    exact ⟨fun h => htargets.low (and_or_left.mp h), fun h => hhi (.inr (.inl (htargets.high h)))⟩
  · exact fun _ hm => Nat.lt_of_lt_of_le hbody hm

/-- Each case has a state of its own, and an arm with its values. -/
theorem lowerArms_keyed (cs : List FlowCase) :
    Keyed l hi n (lowerArms env cs) False fun result m =>
      result.1.length = cs.length ∧ (∀ q ∈ result.1, q < m) ∧
        ¬ OpsHold l (armsParts result.2) ∧
        (ExprsHold l (result.2.flatMap Arm.values) ↔
          ExprsHold l (cs.flatMap (·.guard.values))) := by
  induction cs generalizing n with
  | nil => exact .pure fun _ _ => ⟨rfl, nofun, not_opsHold_nil, .rfl⟩
  | cons c cs ih =>
      refine .newState fun state m hm hstate => ih.after ?_
      rintro ⟨states, arms⟩ m₁ hm₁ ⟨hlength, hstates, hops, hvalues⟩
      refine .pure fun m₂ hm₂ => ⟨congrArg (· + 1) hlength, ?_, ?_, ?_⟩
      · refine List.forall_mem_cons.mpr ⟨by omega, fun q hq => ?_⟩
        exact Nat.lt_of_lt_of_le (hstates q hq) hm₂
      · simp only [armsParts, opsHold_append]
        cases c with
        | case values body => exact not_or.mpr ⟨not_opsHold_jumps state, hops⟩
        | default body => exact not_or.mpr ⟨not_opsHold_jumps state, hops⟩
      · simp only [List.flatMap_cons, exprsHold_append, hvalues]
        cases c with
        | case values body => exact or_congr_left StateEnv.exprsHold_resolve
        | default body => rfl

theorem closeBlock_keyed (hcurrent : current < n) (hcont : cont < n) :
    Keyed l hi n (closeBlock current cont env) False fun _ _ => True := by
  refine .terminated fun ended => ?_
  cases ended with
  | true => exact .jump_last hcont _
  | false => exact .jump hcurrent _ (.jump_last hcont _)

theorem Flow.lowerInit_keyed (hcurrent : current < n)
    (hhi : PartsHold Flow.trees l flow.parts → hi) :
    Keyed l hi n (flow.lowerInit current env) (PartsHold Flow.operands l flow.parts)
      fun _ _ => True := by
  cases flow with
  | missing =>
      exact Keyed.weaken (.pure fun _ _ => trivial) (by simp [PartsHold, Flow.parts, Flow.operands])
  | declare d => exact d.lower_keyed hcurrent hhi
  | _ => exact (verbatim_keyed hcurrent hhi).before fun _ _ _ _ => .pure fun _ _ => trivial

theorem Flow.lowerPost_keyed (hcurrent : current < n)
    (hhi : PartsHold Flow.trees l flow.parts → hi) :
    Keyed l hi n (flow.lowerPost current env) (PartsHold Flow.operands l flow.parts)
      fun _ _ => True := by
  cases flow with
  | missing =>
      exact Keyed.weaken (.pure fun _ _ => trivial) (by simp [PartsHold, Flow.parts, Flow.operands])
  | _ => exact verbatim_keyed hcurrent hhi

theorem stitch_keyed {lower : StateEnv → Lowering Unit} (hcurrent : current < n)
    (hhi : PartsHold Flow.trees l flow.parts → hi)
    (hlower : ∀ m child, n ≤ m →
      Keyed l hi m (lower child) (PartsHold Flow.operands l flow.parts) fun _ _ => True) :
    Keyed l hi n (stitch plan flow lower current cont env)
      (PartsHold Flow.operands l flow.parts) fun _ _ => True := by
  have hsplit : Keyed l hi n (do
      let child := (env.withNext cont).clearLabels
      let number ← reach
      if plan.split number flow then lower child else verbatim flow current child
      pure env) (PartsHold Flow.operands l flow.parts) fun _ _ => True := by
    refine (Keyed.of_table (x := reach) fun _ => ⟨rfl, rfl, rfl⟩).after fun number m hm _ => ?_
    split
    · exact (hlower m _ hm).before fun _ _ _ _ => .pure fun _ _ => trivial
    · exact (verbatim_keyed (by omega) hhi).before fun _ _ _ _ => .pure fun _ _ => trivial
  cases flow with
  | declare d => exact d.lower_keyed hcurrent hhi
  | lift d => exact liftDecl_keyed d hhi
  | _ => exact hsplit

/-- What follows a statement of a block. -/
theorem terminated_keyed {x : Lowering Unit} {y : Nat → Lowering Unit} {lo : Prop}
    (hx : ∀ m, n ≤ m → Keyed l hi m x lo fun _ _ => True)
    (hy : ∀ q m, n ≤ m → q < m → Keyed l hi m (y q) lo fun _ _ => True) :
    Keyed l hi n (do
      if ← Lowering.terminated current then
        let fresh ← newState
        y fresh
      else x) lo fun _ _ => True := by
  refine .terminated fun ended => ?_
  cases ended with
  | true => exact .newState fun q m hm hq => hy q m hm hq
  | false => exact hx n (Nat.le_refl n)

theorem branch_keyed {cond : Expr} {first second : Nat} (hcurrent : current < n)
    (hhi : cond.Holds l → hi) :
    Keyed l hi n (branch current (env.resolve cond) first second) (cond.Holds l)
      fun _ _ => True := by
  refine Keyed.weaken (.emit hcurrent ?_ (.jump_last hcurrent second)) .inl
  rw [opsHold_when, StateEnv.holds_resolve]
  exact ⟨.inl, fun h => hhi (h.resolve_right (not_opsHold_jumps first))⟩

theorem choose_keyed {cond : Expr} {first second : Nat} (hcurrent : current < n)
    (hhi : cond.Holds l → hi) :
    Keyed l hi n (Lowering.emit current (.choose (env.resolve cond) [.jump first .missing]
      [.jump second .missing])) (cond.Holds l) fun _ _ => True := by
  refine .emit_last hcurrent ?_
  rw [opsHold_choose, StateEnv.holds_resolve]
  refine ⟨.inl, fun h => hhi (h.resolve_right ?_)⟩
  exact not_or.mpr ⟨not_opsHold_jumps first, not_opsHold_jumps second⟩

theorem lowerSingle_keyed {lower : StateEnv → Lowering Unit} (hcurrent : current < n)
    (hhi : PartsHold Flow.trees l flow.parts → hi)
    (hlower : ∀ m child, n ≤ m →
      Keyed l hi m (lower child) (PartsHold Flow.operands l flow.parts) fun _ _ => True) :
    Keyed l hi n (lowerSingle plan flow lower current env)
      (PartsHold Flow.operands l flow.parts) fun _ _ => True := by
  refine .newState fun cont m hm hcont => ?_
  refine (stitch_keyed (by omega) hhi fun m' child hm' => hlower m' child (by omega)).before
    fun _ m₁ hm₁ _ => ?_
  refine terminated_keyed (fun m₂ hm₂ => closeBlock_keyed (by omega) (by omega)) ?_
  exact fun fresh m₂ hm₂ hfresh => closeBlock_keyed (by omega) hfresh

/-- Whether lowering a block, in two states that there are already, keeps literals. -/
def KeepsLiterals (l : Literal) (hi lo : Prop)
    (lower : Nat → Nat → StateEnv → Lowering Unit) : Prop :=
  ∀ {current cont n : Nat} {env : StateEnv}, current < n → cont < n →
    Keyed l hi n (lower current cont env) lo fun _ _ => True

section Forms

variable {cond tag : Expr} {body : List Flow}

/-- The body of a loop, with the test before it. -/
theorem testedBody_keyed {m condState bodyState exit : Nat} {inner : StateEnv} {lo : Prop}
    (hcond : condState < m) (hbodyState : bodyState < m) (hhi : cond.Holds l → hi)
    (hbody : KeepsLiterals l hi lo (lowerStmts plan body)) :
    Keyed l hi m (do
      lowerTest condState cond bodyState exit env
      let cont ← newState
      lowerStmts plan body bodyState cont inner) (cond.Holds l ∨ lo) fun _ _ => True :=
  (lowerTest_keyed hcond _ _ hhi).bind fun _ m₁ hm₁ _ =>
    .newState fun cont m₂ hm₂ hcont => hbody (by omega) hcont

theorem lowerLoop_keyed {init post : Flow} (hcurrent : current < n)
    (hhi : PartsHold Flow.trees l (Flow.loop init cond post body).parts → hi)
    (hbody : KeepsLiterals l hi (PartsHold Flow.operands l (flowsParts body))
      (lowerStmts plan body)) :
    Keyed l hi n ((Flow.loop init cond post body).lower plan current env)
      (PartsHold Flow.operands l (Flow.loop init cond post body).parts) fun _ _ => True := by
  simp only [Flow.parts, partsHold_cons, partsHold_append, holds_operands_part,
    holds_trees_part, Flow.trees, Flow.operands, exists_expr] at hhi ⊢
  rw [or_assoc, or_left_comm, Flow.lower_loop]
  refine .newState fun initState m hm hinit => .jump (by omega) initState ?_
  refine (Flow.lowerInit_keyed hinit fun h => hhi (.inr (.inl (.inl h)))).bind
    fun inner m₁ hm₁ _ => ?_
  refine .newState fun condState m₂ hm₂ hcond => .jump (by omega) condState ?_
  refine .newState fun bodyState m₃ hm₃ hbodyState => ?_
  refine (lowerTest_keyed (by omega) _ _ fun h => hhi (.inl h)).bind fun _ m₄ hm₄ _ => ?_
  refine .newState fun updateState m₅ hm₅ hupdate => ?_
  refine (Flow.lowerPost_keyed hupdate fun h => hhi (.inr (.inl (.inr h)))).bind
    fun _ m₆ hm₆ _ => .jump (by omega) condState ?_
  exact .newState fun cont m₇ hm₇ hcont => hbody (by omega) hcont

theorem lowerSwitch_keyed {cases' : List FlowCase} (hcurrent : current < n)
    (hhi : PartsHold Flow.trees l (Flow.switch tag cases').parts → hi)
    (hcases : ∀ {states m}, states.length = cases'.length → (∀ q ∈ states, q < m) →
      Keyed l hi m (lowerCases plan cases' states ((env.withBreak "" env.next).clearLabels))
        (PartsHold Flow.operands l (casesParts cases')) fun _ _ => True) :
    Keyed l hi n ((Flow.switch tag cases').lower plan current env)
      (PartsHold Flow.operands l (Flow.switch tag cases').parts) fun _ _ => True := by
  simp only [Flow.parts, partsHold_cons, Flow.trees, Flow.operands, List.exists_mem_cons_iff,
    exists_map_expr] at hhi ⊢
  refine .newState fun dispatcher m hm hdispatcher => .jump (by omega) dispatcher ?_
  refine (lowerArms_keyed cases').after ?_
  rintro ⟨states, arms⟩ m₁ hm₁ ⟨hlength, hstates, hops, hvalues⟩
  refine .emit (by omega) ?_ ?_
  · rw [opsHold_dispatch, StateEnv.holds_resolve, hvalues]
    exact ⟨.inl, fun h => hhi (.inl (h.resolve_right hops))⟩
  by_cases hdefault : cases'.any FlowCase.isDefault = true
  · simp only [hdefault, if_true]
    exact hcases hlength hstates
  · simp only [hdefault]
    exact .jump (by omega) env.next (hcases hlength hstates)

theorem lowerIte_keyed {other : Flow} (hcurrent : current < n)
    (hhi : PartsHold Flow.trees l (Flow.ite cond body other).parts → hi)
    (hbody : KeepsLiterals l hi (PartsHold Flow.operands l (flowsParts body))
      (lowerStmts plan body))
    (helse : ∀ {m elseState}, elseState < m →
      Keyed l hi m (other.lowerElse plan elseState env.clearLabels)
        (PartsHold Flow.operands l other.parts) fun _ _ => True) :
    Keyed l hi n ((Flow.ite cond body other).lower plan current env)
      (PartsHold Flow.operands l (Flow.ite cond body other).parts) fun _ _ => True := by
  simp only [Flow.parts, partsHold_cons, partsHold_append, holds_operands_part,
    holds_trees_part, Flow.trees, Flow.operands, exists_expr] at hhi ⊢
  rw [or_left_comm, Flow.lower_ite]
  refine .newState fun thenState m hm hthen => .newState fun cont m₁ hm₁ hcont => ?_
  refine (hbody (by omega) hcont).bind fun _ m₂ hm₂ _ => ?_
  cases hm : other.isMissing with
  | true =>
      obtain rfl := Flow.isMissing_eq_true.mp hm
      refine (branch_keyed (by omega) fun h => hhi (.inl h)).weaken ?_
      simp [PartsHold, Flow.parts, Flow.operands]
  | false =>
      rw [or_comm]
      refine .newState fun elseState m₃ hm₃ helseState => ?_
      refine (helse helseState).bind fun _ m₄ hm₄ _ => ?_
      split
      · exact branch_keyed (by omega) fun h => hhi (.inl h)
      · exact choose_keyed (by omega) fun h => hhi (.inl h)

end Forms

end Parts

section Recursion

variable {l : Literal} {hi : Prop} {plan : Plan}

mutual

/-- Lowering a statement keeps its literals. -/
theorem Flow.lower_keyed {env : StateEnv} (flow : Flow) {current n : Nat} (hcurrent : current < n)
    (hhi : PartsHold Flow.trees l flow.parts → hi) :
    Keyed l hi n (flow.lower plan current env) (PartsHold Flow.operands l flow.parts)
      fun _ _ => True := by
  cases flow with
  | missing => exact .throw _
  | lift d => exact (liftDecl_keyed d hhi).discard
  | declare d => exact (d.lower_keyed hcurrent hhi).discard
  | yield value =>
      simp only [Flow.parts, partsHold_cons, partsHold_nil, or_false, Flow.trees, Flow.operands,
        exists_expr] at hhi ⊢
      refine .emit_last hcurrent ?_
      rw [opsHold_jump, StateEnv.holds_resolve]
      exact ⟨id, hhi⟩
  | finish =>
      exact (Keyed.jump_last hcurrent _).weaken (by simp [PartsHold, Flow.parts, Flow.operands])
  | simple stmt => exact verbatim_keyed hcurrent hhi
  | brk label =>
      simp only [Flow.lower]
      split
      · exact .throw _
      · exact (Keyed.jump_last hcurrent _).weaken (by simp [PartsHold, Flow.parts, Flow.operands])
  | cont label =>
      simp only [Flow.lower]
      split
      · exact .throw _
      · exact (Keyed.jump_last hcurrent _).weaken (by simp [PartsHold, Flow.parts, Flow.operands])
  | labeled label stmt =>
      simp only [Flow.parts, partsHold_cons, Flow.trees, Flow.operands, List.not_mem_nil, false_and,
        exists_false, false_or] at hhi ⊢
      exact stmt.lower_keyed hcurrent hhi
  | block body =>
      simp only [Flow.parts, partsHold_cons, Flow.trees, Flow.operands, List.not_mem_nil, false_and,
        exists_false, false_or] at hhi ⊢
      exact .newState fun cont m hm hcont => lowerStmts_keyed body (by omega) hcont hhi
  | «while» cond body =>
      simp only [Flow.parts, partsHold_cons, Flow.trees, Flow.operands, exists_expr] at hhi ⊢
      refine .newState fun condState m hm hcond => .jump (by omega) condState ?_
      exact .newState fun bodyState m₁ hm₁ hbodyState =>
        testedBody_keyed (by omega) hbodyState (fun h => hhi (.inl h)) fun hstart hcont =>
          lowerStmts_keyed body hstart hcont fun h => hhi (.inr h)
  | doWhile body cond =>
      simp only [Flow.parts, partsHold_cons, Flow.trees, Flow.operands, exists_expr] at hhi ⊢
      refine .newState fun bodyState m hm hbodyState => .jump (by omega) bodyState ?_
      exact .newState fun condState m₁ hm₁ hcond =>
        testedBody_keyed hcond (by omega) (fun h => hhi (.inl h)) fun hstart hcont =>
          lowerStmts_keyed body hstart hcont fun h => hhi (.inr h)
  | loop init cond post body =>
      refine lowerLoop_keyed hcurrent hhi fun hstart hcont =>
        lowerStmts_keyed body hstart hcont fun h => hhi ?_
      simp only [Flow.parts, partsHold_cons, partsHold_append]
      exact .inr (.inr h)
  | walk header body =>
      simp only [Flow.parts, partsHold_cons] at hhi ⊢
      refine (header.lower_keyed hcurrent fun h => hhi (.inl h)).bind ?_
      rintro ⟨condState, bodyState, inner⟩ m hm hbody
      exact .newState fun cont m₁ hm₁ hcont =>
        lowerStmts_keyed body (Nat.lt_of_lt_of_le hbody hm₁) hcont fun h => hhi (.inr h)
  | switch tag cases =>
      exact lowerSwitch_keyed hcurrent hhi fun hlength hstates =>
        lowerCases_keyed cases hlength hstates fun h => hhi (partsHold_cons.mpr (.inr h))
  | ite cond body other =>
      have hparts : PartsHold Flow.trees l (flowsParts body) ∨
          PartsHold Flow.trees l other.parts → hi := fun h => hhi <| by
        simp only [Flow.parts, partsHold_cons, partsHold_append, holds_trees_part]
        exact .inr h
      refine lowerIte_keyed hcurrent hhi (fun hstart hcont =>
        lowerStmts_keyed body hstart hcont fun h => hparts (.inl h)) fun {m elseState} hm => ?_
      cases other with
      | block otherBody =>
          simp only [Flow.parts, partsHold_cons, Flow.trees, Flow.operands, List.not_mem_nil,
            false_and, exists_false, false_or] at hparts ⊢
          exact .newState fun cont m₁ hm₁ hcont =>
            lowerStmts_keyed otherBody (by omega) hcont fun h => hparts (.inr h)
      | _ =>
          rw [Flow.lowerElse_single rfl]
          exact lowerSingle_keyed hm (fun h => hparts (.inr h)) fun m₁ child hm₁ =>
            Flow.lower_keyed _ (by omega) fun h => hparts (.inr h)

theorem lowerStmts_keyed {env : StateEnv} (fs : List Flow) {current cont n : Nat}
    (hcurrent : current < n) (hcont : cont < n)
    (hhi : PartsHold Flow.trees l (flowsParts fs) → hi) :
    Keyed l hi n (lowerStmts plan fs current cont env)
      (PartsHold Flow.operands l (flowsParts fs)) fun _ _ => True := by
  cases fs with
  | nil => exact (closeBlock_keyed hcurrent hcont).weaken partsHold_nil
  | cons f fs =>
      simp only [flowsParts, partsHold_append] at hhi ⊢
      refine (stitch_keyed hcurrent (fun h => hhi (.inl h)) fun m child hm =>
        f.lower_keyed (by omega) fun h => hhi (.inl h)).bind fun env' m hm _ => ?_
      refine terminated_keyed (fun m₁ hm₁ => ?_) fun fresh m₁ hm₁ hfresh => ?_
      · exact lowerStmts_keyed fs (by omega) (by omega) fun h => hhi (.inr h)
      · exact lowerStmts_keyed fs (by omega) hfresh fun h => hhi (.inr h)

theorem lowerCases_keyed {env : StateEnv} (cs : List FlowCase) {states : List Nat} {n : Nat}
    (hlength : states.length = cs.length) (hstates : ∀ q ∈ states, q < n)
    (hhi : PartsHold Flow.trees l (casesParts cs) → hi) :
    Keyed l hi n (lowerCases plan cs states env)
      (PartsHold Flow.operands l (casesParts cs)) fun _ _ => True := by
  cases cs with
  | nil => exact Keyed.weaken (.pure fun _ _ => trivial) partsHold_nil
  | cons c cs =>
      cases states with
      | nil => simp at hlength
      | cons state states =>
          simp only [casesParts, partsHold_append] at hhi ⊢
          obtain ⟨hstate, hrest⟩ := List.forall_mem_cons.mp hstates
          refine (c.lower_keyed hstate fun h => hhi (.inl h)).bind fun _ m hm _ => ?_
          refine lowerCases_keyed cs (Nat.succ.inj hlength) (fun q hq => ?_) fun h => hhi (.inr h)
          exact Nat.lt_of_lt_of_le (hrest q hq) hm

theorem FlowCase.lower_keyed {env : StateEnv} (c : FlowCase) {current n : Nat}
    (hcurrent : current < n) (hhi : PartsHold Flow.trees l c.parts → hi) :
    Keyed l hi n (c.lower plan current env) (PartsHold Flow.operands l c.parts)
      fun _ _ => True := by
  cases c with
  | case values body =>
      exact .newState fun cont m hm hcont => lowerStmts_keyed body (by omega) hcont hhi
  | default body =>
      exact .newState fun cont m hm hcont => lowerStmts_keyed body (by omega) hcont hhi

end

end Recursion

section Whole

variable {l : Literal} {hi : Prop} {fn : Routine}

/-- The fields of parameters have their types; one that takes the rest of the arguments has a slice
of them. -/
theorem lowerParams_keyed (fs : List Field) {env : StateEnv} {n : Nat}
    (hhi : ∀ f ∈ fs, f.type.Holds l → hi) :
    Keyed l hi n (lowerParams fs env) False fun _ _ => True := by
  induction fs generalizing env n with
  | nil => exact .pure fun _ _ => trivial
  | cons f fs ih =>
      obtain ⟨hf, hfs⟩ := List.forall_mem_cons.mp hhi
      refine Keyed.after (P := fun _ _ => True) (fun d hd => ⟨?_, trivial⟩) fun _ _ _ _ => ih hfs
      refine .of_fields rfl rfl rfl ⟨False.elim, ?_⟩
      rw [List.map_map]
      rintro ⟨type, htype, hholds⟩
      obtain ⟨x, -, rfl⟩ := List.mem_map.mp htype
      refine hf ?_
      dsimp only [Function.comp_apply] at hholds
      split at hholds
      · rename_i element heq
        rw [Expr.holds_iff [.missing, element] rfl rfl] at hholds
        rw [heq, Expr.holds_iff [element] rfl rfl]
        simpa [Expr.not_holds_missing] using hholds
      · exact hholds

theorem Routine.lowerBody_keyed (split : Nat → Flow → Bool)
    (hbody : PartsHold Flow.trees l (flowsParts fn.body) → hi)
    (hparams : ∀ f ∈ fn.recv.toList ++ fn.params.toList, f.type.Holds l → hi) :
    Keyed l hi 2 (fn.lowerBody split) (PartsHold Flow.operands l (flowsParts fn.body))
      fun _ _ => True := by
  refine (lowerParams_keyed _ hparams).after fun env m hm _ => ?_
  refine .newState fun cont m₁ hm₁ hcont => ?_
  exact lowerStmts_keyed fn.body (by simp only [entryState]; omega) hcont hbody

/-- The literals of a table are those of the body and the parameters, with their kept keys. -/
theorem Routine.lowerWith_holds {split : Nat → Flow → Bool} {h : Holder}
    (hlower : fn.lowerWith split = .ok h) :
    Between (PartsHold Flow.operands l (flowsParts fn.body)) (h.Holds l)
      (PartsHold Flow.trees l (flowsParts fn.body) ∨
        ∃ f ∈ fn.recv.toList ++ fn.params.toList, f.type.Holds l) := by
  obtain ⟨d, hd, rfl⟩ := Routine.lowerWith_ok hlower
  have hkeyed : Keyed l (PartsHold Flow.trees l (flowsParts fn.body) ∨
      ∃ f ∈ fn.recv.toList ++ fn.params.toList, f.type.Holds l) 2 (fn.lowerBody split)
      (PartsHold Flow.operands l (flowsParts fn.body)) fun _ _ => True :=
    Routine.lowerBody_keyed split .inl fun f hf hholds => .inr ⟨f, hf, hholds⟩
  obtain ⟨hgains, -⟩ := (hkeyed Draft.initial (Nat.le_refl _)).ok hd
  have hend : endState < d.size := Nat.lt_of_lt_of_le (by decide) hgains.size
  have hnone : ¬ OpsHold l Op.finish.parts := by simp [Op.parts, Op.Holds]
  have hfinish := hgains.trans (.append hend ⟨False.elim, fun h => (hnone h).elim⟩)
  have hinitial : ¬ Draft.initial.Holds l := by
    simp [Holds, TableHolds, Draft.initial, Draft.empty, Draft.reserve, tableOps, opsParts,
      SpecsHold]
  exact ⟨fun h => hfinish.gained (.inl h), fun h => (hfinish.bound h).resolve_left hinitial⟩

end Whole

end YieldMachine
