import YieldMachine.Proofs.Lowering.Emitted
import YieldMachine.Proofs.Lowering.Lifted
import YieldMachine.Proofs.Lowering.Unresolved

/-!
# How the types of fields are spelled

The types that a body declares are renamed like its values, so that a variable takes the place of
a package or of a type with its name.  `Flow.hoistings` lists the types that fields get, each with
what the names around it stand for.  Where none of them mentions a variable, the fields of the
holder, its iterators and the zero values that fields are reset to have types of the package.
-/

namespace YieldMachine

open Lowering Draft

/-- What names stand for: variables of the generator (`true`), or declarations that are lifted
out of it (`false`).  All other names are those of the package. -/
abbrev Kinds := List (String × Bool)

/-- Lets names stand for variables, or for lifted declarations. -/
def Kinds.add (k : Kinds) (isVariable : Bool) (names : List String) : Kinds :=
  names.foldl (fun k x => (x, isVariable) :: k) k

/-- Whether lifting a declaration of a holder can give a name. -/
def IsLifted (holder x : String) : Prop := ∃ used y, x = freeField used (holder ++ "_" ++ y)

/-- Whether a type mentions neither the receiver nor a variable, and if it mentions a lifted
declaration, no variable has a name that a declaration is lifted to. -/
def Kinds.Keeps (k : Kinds) (holder : String) (type : Expr) : Prop :=
  ∀ x, type.Mentions x → x ≠ receiverName ∧ k.lookup x ≠ some true ∧
    (k.lookup x = some false →
      ∀ y, IsLifted holder y → y ≠ receiverName ∧ k.lookup y ≠ some true)

theorem Kinds.Keeps.of_unknown {k : Kinds} {holder : String} {type : Expr}
    (h : ∀ x, type.Mentions x → x ≠ receiverName ∧ k.lookup x = none) : k.Keeps holder type :=
  fun x hx => ⟨(h x hx).1, by simp [(h x hx).2], by simp [(h x hx).2]⟩

/-- A type that a field gets, and what names stand for at its place. -/
structure Hoisting where
  kinds : Kinds
  type : Expr

/-- The types from position `i` on of the names that a declaration makes new variables of. -/
def VarDecl.freshTypesFrom (d : VarDecl) : Nat → List String → List Expr
  | _, [] => []
  | i, x :: xs =>
    if x = "_" ∨ d.reuses i then d.freshTypesFrom (i + 1) xs
    else (d.typeAt? i).toList ++ d.freshTypesFrom (i + 1) xs

/-- What names stand for after a statement. -/
def Flow.kindsAfter (k : Kinds) : Flow → Kinds
  | .declare d => k.add true d.fresh
  | .lift d => k.add false d.declared
  | _ => k

/-- Whether a statement of a list is lowered by itself, and not copied. -/
def Flow.isSplit : Flow → Bool
  | .declare _ => true
  | s => s.modifiesControlFlow

mutual

/-- The types that fields get for a statement. -/
def Flow.hoistings (k : Kinds) : Flow → List Hoisting
  | .block body => flowsHoistings k body
  | .declare d => (d.freshTypesFrom 0 d.names).map (⟨k, ·⟩)
  | .ite _ body other =>
    flowsHoistings k body ++ if other.isBlock || other.isSplit then other.hoistings k else []
  | .while _ body => flowsHoistings k body
  | .doWhile body _ => flowsHoistings k body
  | .loop init _ _ body => init.hoistings k ++ flowsHoistings (init.kindsAfter k) body
  | .walk header body =>
    ⟨k, header.keyType⟩ :: ⟨k, header.valueType⟩ :: flowsHoistings (k.add true header.names) body
  | .switch _ cases => casesHoistings k cases
  | .labeled _ stmt => stmt.hoistings k
  | _ => []

/-- The types that fields get for a statement list. -/
def flowsHoistings (k : Kinds) : List Flow → List Hoisting
  | [] => []
  | s :: ss => (if s.isSplit then s.hoistings k else []) ++ flowsHoistings (s.kindsAfter k) ss

/-- The types that fields get for the cases of a switch. -/
def casesHoistings (k : Kinds) : List FlowCase → List Hoisting
  | [] => []
  | c :: cs => c.hoistings k ++ casesHoistings k cs

/-- The types that fields get for a case. -/
def FlowCase.hoistings (k : Kinds) : FlowCase → List Hoisting
  | .case _ body => flowsHoistings k body
  | .default body => flowsHoistings k body

end

/-- The parameters of a generator, its receiver first. -/
def Routine.paramFields (fn : Routine) : List Field := fn.recv.toList ++ fn.params.toList

/-- What the parameters of a field list stand for. -/
def Kinds.ofFields (k : Kinds) (fs : List Field) : Kinds :=
  fs.foldl (fun k f => k.add true (f.names.filter (· != "_"))) k

/-- The types that the fields of a generator get.  Those of its parameters are spelled before
any of them is declared. -/
def Routine.hoistings (fn : Routine) : List Hoisting :=
  fn.paramFields.map (fun f => ⟨[], f.type⟩) ++
    flowsHoistings (Kinds.ofFields [] fn.paramFields) fn.body

/-- Whether an expression is the zero value that a field is reset to, for some function in the
place of `new`. -/
def Expr.isZero : Expr → Bool
  | .star (.call _ [_] _) => true
  | _ => false

/-- The values that a statement itself assigns. -/
def Flow.assigned : Flow → List Expr
  | .declare d => d.values
  | .walk header _ => [header.x]
  | .simple (.assign _ _ rhs) => rhs
  | _ => []

/-- Whether a statement itself assigns such a value. -/
def Flow.writesZero (s : Flow) : Bool := s.assigned.any Expr.isZero

/-- Whether an operation assigns the values of a statement with some of their names replaced. -/
def Flow.Becomes (s : Flow) (op : Op) : Prop :=
  ∃ targets renames,
    op = .exec (.assign .set targets (renameExprs receiverName renames s.assigned))

/-- The target and the type of an operation that assigns a zero value. -/
def Op.reset? : Op → Option (Expr × Expr)
  | .exec (.assign .set [field] [.star (.call (.ident "new" false) [type] false)]) =>
    some (field, type)
  | _ => none

/-- Whether bindings give names what they stand for. -/
structure Renames.Follows (r : Renames) (holder : String) (k : Kinds) : Prop where
  kinds : ∀ x, (r.find? x).map Target.field = k.lookup x
  lifted : ∀ x t, r.find? x = some t → t.field = false → IsLifted holder t.name

section Names

variable {r : Renames} {holder : String} {k : Kinds}

/-- Bindings follow one more name, if they lift it to a name of the file. -/
theorem Renames.Follows.insert (h : r.Follows holder k) (x : String) {t : Target}
    (hlifted : t.field = false → IsLifted holder t.name) :
    Renames.Follows (r.insert x t) holder ((x, t.field) :: k) := by
  constructor
  · intro y
    by_cases hy : y = x
    · subst hy
      simp
    · rw [find?_insert_of_ne r _ hy, h.kinds y, List.lookup_cons, beq_false_of_ne hy]
  · intro y t' ht hfield
    by_cases hy : y = x
    · subst hy
      rw [find?_insert_self] at ht
      cases ht
      exact hlifted hfield
    · rw [find?_insert_of_ne r _ hy] at ht
      exact h.lifted y t' ht hfield

theorem Renames.Follows.declare (h : r.Follows holder k) (x field : String) :
    Renames.Follows (r.insert x ⟨field, true⟩) holder ((x, true) :: k) :=
  h.insert x fun hfield => Bool.noConfusion hfield

theorem Renames.Follows.lift (h : r.Follows holder k) (x : String) {name : String}
    (hname : IsLifted holder name) :
    Renames.Follows (r.insert x ⟨name, false⟩) holder ((x, false) :: k) :=
  h.insert x fun _ => hname

/-- Renaming a type that mentions no variable gives a type that mentions none. -/
theorem Renames.Follows.keeps_rename (h : r.Follows holder k) {type : Expr}
    (hkeeps : k.Keeps holder type) : k.Keeps holder (type.rename receiverName r) := by
  intro x hx
  rcases Expr.mentions_rename hx with hx | ⟨y, t, hy, ht, hx⟩
  · exact hkeeps x hx
  · obtain ⟨-, hvariable, hlifted⟩ := hkeeps y hy
    have hkind := h.kinds y
    rw [ht, Option.map_some] at hkind
    have hfield : t.field = false := by
      by_contra hfield
      rw [Bool.not_eq_false] at hfield
      exact hvariable (hkind ▸ hfield ▸ rfl)
    rw [hfield] at hkind
    have hclear := hlifted hkind.symm
    have hname : x = t.name := by
      rw [Target.toExpr, hfield] at hx
      cases hx with
      | here => rfl
      | part hmem => simp [Node.parts, Expr.parts, Expr.name] at hmem
    obtain ⟨hrecv, hnone⟩ := hclear x (hname ▸ h.lifted y t ht hfield)
    exact ⟨hrecv, hnone, fun _ => hclear⟩

/-- A type that is shared by several places does not mention the receiver at any of them. -/
theorem StateEnv.resolveShared_clear {env : StateEnv} (h : env.renames.Follows holder k)
    {type : Expr} (hkeeps : k.Keeps holder type) (uses : Nat) :
    ¬ (env.resolveShared uses type).Mentions receiverName := by
  have hshared : k.Keeps holder (env.resolveShared uses type) := by
    unfold resolveShared
    split
    · exact h.keeps_rename hkeeps
    · induction uses with
      | zero => exact hkeeps
      | succ uses ih => exact h.keeps_rename ih
  exact fun hmem => (hshared receiverName hmem).1 rfl

end Names

/-- Whether an operation assigns zero values of the types of the fields only, unless it is one of
those that assign what the body itself writes (`own`). -/
def Op.Resets (own : Op → Prop) (fields : List (String × Expr)) (op : Op) : Prop :=
  ∀ field type, op.reset? = some (field, type) →
    own op ∨ ∃ f ∈ fields, field = fieldExpr f.1 ∧ type = f.2

/-- Whether no field of a draft has a type that mentions the receiver, and its states reset
fields to zero values of their types. -/
structure Draft.Spelled (own : Op → Prop) (d : Draft) : Prop where
  fields : ∀ f ∈ d.fields, ¬ f.2.Mentions receiverName
  resets : ∀ op ∈ tableOps d.states, op.Resets own d.fields

section Drafts

variable {own : Op → Prop} {d : Draft}

theorem Op.resets_of_none {op : Op} (h : op.reset? = none) (fields : List (String × Expr)) :
    op.Resets own fields := fun _ _ hreset => by rw [h] at hreset; cases hreset

theorem Op.Resets.mono {fields fields' : List (String × Expr)} {op : Op}
    (h : op.Resets own fields) (hsub : fields ⊆ fields') : op.Resets own fields' :=
  fun field type hreset =>
    (h field type hreset).imp_right fun ⟨f, hf, heq⟩ => ⟨f, hsub hf, heq⟩

theorem mem_tableOps_append {q : Nat} {op o : Op}
    (h : o ∈ tableOps (d.append q op).states) : o ∈ tableOps d.states ∨ o ∈ op.parts := by
  by_cases hq : q < d.size
  · exact List.mem_append.mp ((tableOps_modify hq op).mem_iff.mp h)
  · left
    rwa [Draft.append, List.modify_eq_self (Nat.le_of_not_lt hq)] at h

theorem Draft.Spelled.append (h : d.Spelled own) {q : Nat} {op : Op}
    (hop : ∀ o ∈ op.parts, o.Resets own d.fields) : (d.append q op).Spelled own :=
  ⟨h.fields, fun o ho => (mem_tableOps_append ho).elim (h.resets o) (hop o)⟩

theorem Draft.Spelled.reserve (h : d.Spelled own) : d.reserve.Spelled own := by
  refine ⟨h.fields, fun o ho => h.resets o ?_⟩
  simpa [tableOps, Draft.reserve, opsParts] using ho

/-- Another field of a draft. -/
theorem Draft.Spelled.hoist (h : d.Spelled own) {type : Expr}
    (htype : ¬ type.Mentions receiverName) (field : String) (used : List String) :
    Draft.Spelled own { d with used := used, fields := d.fields ++ [(field, type)] } := by
  constructor
  · intro f hf
    rcases List.mem_append.mp hf with hf | hf
    · exact h.fields f hf
    · obtain rfl : f = (field, type) := by simpa using hf
      exact htype
  · exact fun o ho => (h.resets o ho).mono (List.subset_append_left _ _)

end Drafts

/-- Whether a part of lowering keeps a draft spelled, where it succeeds with a result that has
the property. -/
def Lowering.Spelling {α : Type} (own : Op → Prop) (x : Lowering α) (P : α → Prop) : Prop :=
  ∀ d : Draft, d.Spelled own → Ensures (fun _ => True) d x fun a d' => d'.Spelled own ∧ P a

namespace Lowering.Spelling

variable {α β : Type} {own : Op → Prop} {P : α → Prop} {Q : β → Prop}

theorem bind {x : Lowering α} {f : α → Lowering β} (hx : Spelling own x P)
    (hf : ∀ a, P a → Spelling own (f a) Q) : Spelling own (x >>= f) Q :=
  fun d hd => (hx d hd).bind fun a d' ⟨hd', ha⟩ => hf a ha d' hd'

theorem pure {a : α} (h : P a) : Spelling own (Pure.pure a) P := fun _ hd => ⟨hd, h⟩

theorem throw (e : LowerError) : Spelling own (MonadExcept.throw e : Lowering α) P :=
  fun _ _ => trivial

theorem newState {f : Nat → Lowering β} (h : ∀ q, Spelling own (f q) Q) :
    Spelling own (Lowering.newState >>= f) Q :=
  fun d hd => .newState (h d.size d.reserve hd.reserve)

theorem emit_last (q : Nat) {op : Op} (h : ∀ o ∈ op.parts, o.reset? = none) :
    Spelling own (Lowering.emit q op) fun _ => True :=
  fun d hd => ⟨hd.append fun o ho => Op.resets_of_none (h o ho) d.fields, trivial⟩

theorem emit {q : Nat} {op : Op} (h : ∀ o ∈ op.parts, o.reset? = none) {f : Unit → Lowering β}
    (hf : Spelling own (f ()) Q) : Spelling own (Lowering.emit q op >>= f) Q :=
  (emit_last q h).bind fun _ _ => hf

theorem terminated {q : Nat} {f : Bool → Lowering β} (h : ∀ b, Spelling own (f b) Q) :
    Spelling own (Lowering.terminated q >>= f) Q :=
  fun d hd => .terminated (h _ d hd)

theorem reach {f : Nat → Lowering β} (h : ∀ n, Spelling own (f n) Q) :
    Spelling own (Lowering.reach >>= f) Q :=
  fun _ hd => .reach (h _ _ ⟨hd.fields, hd.resets⟩)

theorem discard {x : Lowering α} (h : Spelling own x P) :
    Spelling own (Functor.discard x) fun _ => True :=
  fun d hd => .discard ((h d hd).mono fun _ _ ha => ⟨ha.1, trivial⟩)

end Lowering.Spelling

section Parts

variable {plan : Plan} {own : Op → Prop} {flow : Flow} {current cont : Nat} {env : StateEnv}
  {k : Kinds}

theorem jump_reset (goal : Nat) (value : Expr) :
    ∀ o ∈ (Op.jump goal value).parts, o.reset? = none := by
  simp [Op.parts, Op.reset?]

theorem when_reset {cond : Expr} {ops : List Op} (h : ∀ o ∈ opsParts ops, o.reset? = none) :
    ∀ o ∈ (Op.when cond ops).parts, o.reset? = none :=
  List.forall_mem_cons.mpr ⟨rfl, h⟩

theorem jumps_reset (goal : Nat) :
    ∀ o ∈ opsParts [Op.jump goal .missing], o.reset? = none := by
  simp [opsParts, Op.parts, Op.reset?]

theorem Renames.apply_shape (r : Renames) (recv x : String) :
    (∃ y, r.apply recv x = .name y) ∨ ∃ y, r.apply recv x = .sel (.name recv) y := by
  rw [apply_eq]
  cases htarget : r.target recv x with
  | none => exact .inl ⟨x, rfl⟩
  | some e =>
      obtain ⟨t, -, rfl⟩ := Option.map_eq_some_iff.mp htarget
      rw [Option.getD_some, Target.toExpr]
      split
      · exact .inr ⟨t.name, rfl⟩
      · exact .inl ⟨t.name, rfl⟩

/-- An identifier is renamed to a name or to a field. -/
theorem Expr.rename_ident_shape (recv x : String) (kept : Bool) (r : Renames) :
    (∃ y kept', (Expr.ident x kept).rename recv r = .ident y kept') ∨
      ∃ y, (Expr.ident x kept).rename recv r = .sel (.name recv) y := by
  cases kept with
  | true => exact .inl ⟨x, true, rfl⟩
  | false =>
      rw [Expr.rename]
      exact (r.apply_shape recv x).imp (fun h => ⟨h.choose, false, h.choose_spec⟩) id

theorem Expr.eq_star_of_rename {recv : String} {r : Renames} {e y : Expr}
    (h : e.rename recv r = .star y) : ∃ x, e = .star x ∧ x.rename recv r = y := by
  cases e with
  | star x => exact ⟨x, rfl, Expr.star.inj h⟩
  | ident x kept =>
      obtain ⟨z, _, hz⟩ | ⟨z, hz⟩ := rename_ident_shape recv x kept r <;> cases hz.symm.trans h
  | func signature body => obtain ⟨typeParams, params, results⟩ := signature; cases h
  | _ => cases h

theorem Expr.eq_call_of_rename {recv : String} {r : Renames} {e fn : Expr} {args : List Expr}
    {spread : Bool} (h : e.rename recv r = .call fn args spread) :
    ∃ fn' args', e = .call fn' args' spread ∧ renameExprs recv r args' = args := by
  cases e with
  | call fn' args' spread' =>
      obtain ⟨-, hargs, rfl⟩ := Expr.call.inj h
      exact ⟨fn', args', rfl, hargs⟩
  | ident x kept =>
      obtain ⟨z, _, hz⟩ | ⟨z, hz⟩ := rename_ident_shape recv x kept r <;> cases hz.symm.trans h
  | func signature body => obtain ⟨typeParams, params, results⟩ := signature; cases h
  | _ => cases h

/-- Renaming makes no zero value of another expression. -/
theorem Expr.isZero_of_rename {recv : String} {r : Renames} {e fn type : Expr}
    {spread : Bool} (h : e.rename recv r = .star (.call fn [type] spread)) :
    e.isZero = true := by
  obtain ⟨x, rfl, hx⟩ := eq_star_of_rename h
  obtain ⟨fn', args, rfl, hargs⟩ := eq_call_of_rename hx
  rw [renameExprs_eq_map, List.map_eq_singleton_iff] at hargs
  obtain ⟨arg, rfl, -⟩ := hargs
  rfl

/-- A reset assigns a zero value. -/
theorem Op.eq_of_reset? {op : Op} {field type : Expr} (h : op.reset? = some (field, type)) :
    op = .exec (.assign .set [field] [.star (.call (.name "new") [type] false)]) := by
  unfold reset? at h
  split at h
  · obtain ⟨rfl, rfl⟩ := Prod.mk.inj (Option.some.inj h)
    rfl
  · cases h

theorem Stmt.eq_assign_of_rename {recv : String} {r : Renames} {stmt : Stmt}
    {lhs rhs : List Expr} (h : (stmt.rename recv r).1 = .assign .set lhs rhs) :
    ∃ lhs' rhs', stmt = .assign .set lhs' rhs' ∧ renameExprs recv r rhs' = rhs := by
  cases stmt with
  | assign kind lhs' rhs' =>
      cases kind with
      | set => exact ⟨lhs', rhs', rfl, (Stmt.assign.inj h).2.2⟩
      | _ => cases h
  | typeSwitch init guard clauses => cases guard <;> cases h
  | range key value kind x body => cases kind <;> cases h
  | _ => cases h

theorem Flow.eq_simple_of_toStmt {lhs rhs : List Expr}
    (h : flow.toStmt? = some (.assign .set lhs rhs)) : flow = .simple (.assign .set lhs rhs) := by
  cases flow with
  | simple stmt => rw [Option.some.inj h]
  | declare d =>
      have hstmt := Option.some.inj h
      unfold VarDecl.toStmt at hstmt
      split at hstmt <;> cases hstmt
  | ite cond body other =>
      rw [toStmt?_ite] at h
      obtain ⟨_, -, h⟩ := Option.bind_eq_some_iff.mp h
      obtain ⟨_, -, h⟩ := Option.bind_eq_some_iff.mp h
      cases h
  | loop init cond post body =>
      rw [toStmt?_loop] at h
      obtain ⟨_, -, h⟩ := Option.bind_eq_some_iff.mp h
      obtain ⟨_, -, h⟩ := Option.bind_eq_some_iff.mp h
      obtain ⟨_, -, h⟩ := Option.bind_eq_some_iff.mp h
      cases h
  | block body | «while» cond body | doWhile body cond | walk header body | switch tag cases
  | labeled label stmt =>
      rw [toStmt?] at h
      obtain ⟨_, -, h⟩ := Option.bind_eq_some_iff.mp h
      cases h
  | _ => cases h

/-- An assignment of zero values is one that the statement itself makes, where its values are
those of the statement. -/
theorem Flow.becomes_of_reset {s : Flow} {r : Renames} {targets values : List Expr}
    (hvalues : values = renameExprs receiverName r s.assigned) {field type : Expr}
    (h : (Op.exec (.assign .set targets values)).reset? = some (field, type)) :
    s.writesZero = true ∧ s.Becomes (.exec (.assign .set targets values)) := by
  obtain ⟨-, hzero⟩ := Stmt.assign.inj (Op.exec.inj (Op.eq_of_reset? h)) |>.2
  refine ⟨?_, targets, r, by rw [hvalues]⟩
  rw [hvalues, renameExprs_eq_map, List.map_eq_singleton_iff] at hzero
  obtain ⟨value, hassigned, hvalue⟩ := hzero
  rw [writesZero, hassigned, List.any_cons, Expr.isZero_of_rename hvalue, Bool.true_or]

/-- A copied statement resets no field, unless it writes a zero value itself. -/
theorem verbatim_spells (hown : ∀ op, flow.writesZero = true → flow.Becomes op → own op) :
    Spelling own (verbatim flow current env) fun _ => True := by
  unfold verbatim
  split
  · exact .throw _
  · exact .throw _
  · exact .pure trivial
  · rename_i stmt _ _ hstmt
    intro d hd
    refine ⟨hd.append fun o ho field type hreset => .inl ?_, trivial⟩
    obtain rfl : o = .exec (stmt.rename receiverName env.renames).1 := by
      simpa [Op.parts] using ho
    obtain ⟨lhs, rhs, rfl, -⟩ := Stmt.eq_assign_of_rename (Op.exec.inj (Op.eq_of_reset? hreset))
    have hassigned : flow.assigned = rhs := by rw [Flow.eq_simple_of_toStmt hstmt, Flow.assigned]
    obtain ⟨hzero, hbecomes⟩ := Flow.becomes_of_reset (s := flow) (by rw [hassigned]) hreset
    exact hown _ hzero hbecomes

/-- The fields of a declaration have the types that the statements around it can see. -/
theorem hoistNames_spells {holder : String} {decl : VarDecl} {d : Draft}
    (henv : env.renames.Follows holder k) (i : Nat) (names : List String)
    {inner : StateEnv} {k' : Kinds} (hinner : inner.renames.Follows holder k')
    (hkeeps : ∀ type ∈ decl.freshTypesFrom i names, k.Keeps holder type) (hd : d.Spelled own) :
    Ensures (fun _ => True) d (hoistNames decl env i names inner) fun result d' =>
      d'.Spelled own ∧ d.fields ⊆ d'.fields ∧
        (∀ p ∈ result.2.1, ∃ f ∈ d'.fields, p = (fieldExpr f.1, f.2)) ∧
        result.2.2.renames.Follows holder (k'.add true (decl.freshFrom i names)) := by
  induction names generalizing i inner k' d with
  | nil => exact .pure ⟨hd, List.Subset.refl _, nofun, hinner⟩
  | cons name names ih =>
      simp only [hoistNames]
      split
      · rename_i hblank
        have hblank : name = "_" := by simpa using hblank
        simp only [VarDecl.freshTypesFrom, VarDecl.freshFrom, hblank, true_or, if_true] at hkeeps ⊢
        exact (ih (i + 1) hinner hkeeps hd).bind fun result d' h => .pure h
      · rename_i hname
        have hname : name ≠ "_" := by simpa using hname
        split
        · exact .throw trivial
        · rename_i htype
          have hreuses : decl.reuses i = true := by rw [VarDecl.reuses, htype]; rfl
          simp only [VarDecl.freshTypesFrom, VarDecl.freshFrom, hreuses, or_true, if_true]
            at hkeeps ⊢
          exact (ih (i + 1) hinner hkeeps hd).bind fun result d' h => .pure h
        · rename_i type hmissing htype
          have hreuses : ¬ (name = "_" ∨ decl.reuses i = true) := by
            rw [VarDecl.reuses, htype, Option.any_some]
            cases type with
            | missing => exact absurd rfl hmissing
            | _ => simp [hname, Expr.isMissing]
          simp only [VarDecl.freshTypesFrom, VarDecl.freshFrom, if_neg hreuses, htype,
            Option.toList_some, List.singleton_append, List.forall_mem_cons] at hkeeps ⊢
          obtain ⟨htypeKeeps, hkeeps⟩ := hkeeps
          let type' := env.resolveShared (decl.typeUses i) type
          let field := freeField d.used name
          let d₁ : Draft :=
            { d with used := field :: d.used, fields := d.fields ++ [(field, type')] }
          have hd₁ : d₁.Spelled own := hd.hoist (StateEnv.resolveShared_clear henv htypeKeeps _) _ _
          refine Ensures.bind (P := fun a d' => a = field ∧ d' = d₁) ⟨rfl, rfl⟩ ?_
          rintro _ _ ⟨rfl, rfl⟩
          refine (ih (i + 1) (hinner.declare name field) hkeeps hd₁).bind ?_
          rintro result d' ⟨hd', hsub, hfresh, hfollows⟩
          refine .pure ⟨hd', fun f hf => hsub (List.mem_append_left _ hf), ?_, hfollows⟩
          refine List.forall_mem_cons.mpr ⟨⟨(field, type'), hsub ?_, rfl⟩, hfresh⟩
          exact List.mem_append_right _ List.mem_cons_self

theorem resetFields_spells {d : Draft} {fresh : List (Expr × Expr)}
    (hfresh : ∀ p ∈ fresh, ∃ f ∈ d.fields, p = (fieldExpr f.1, f.2)) (hd : d.Spelled own) :
    Ensures (fun _ => True) d (resetFields current fresh) fun _ d' => d'.Spelled own := by
  induction fresh generalizing d with
  | nil => exact .pure hd
  | cons p fresh ih =>
      obtain ⟨⟨f, hf, rfl⟩, hrest⟩ := List.forall_mem_cons.mp hfresh
      refine .emit (ih hrest (hd.append fun o ho field type hreset => ?_))
      obtain rfl : o =
          .exec (.assign .set [fieldExpr f.1] [.star (.call (.name "new") [f.2] false)]) := by
        simpa [Op.parts] using ho
      obtain ⟨rfl, rfl⟩ := Prod.mk.inj (Option.some.inj hreset)
      exact .inr ⟨f, hf, rfl, rfl⟩

/-- A declaration resets its fields to the zero values of their types. -/
theorem VarDecl.lower_spells {holder : String} (decl : VarDecl)
    (hown : ∀ op, (Flow.declare decl).writesZero = true → (Flow.declare decl).Becomes op → own op)
    (henv : env.renames.Follows holder k)
    (hkeeps : ∀ h ∈ (Flow.declare decl).hoistings k, h.kinds.Keeps holder h.type) :
    Spelling own (decl.lower current env) fun env' =>
      env'.renames.Follows holder (k.add true decl.fresh) := by
  intro d hd
  have htypes : ∀ type ∈ decl.freshTypesFrom 0 decl.names, k.Keeps holder type :=
    fun type htype => hkeeps ⟨k, type⟩ (List.mem_map_of_mem htype)
  refine (hoistNames_spells henv 0 decl.names henv htypes hd).bind ?_
  rintro ⟨lhs, fresh, inner⟩ d₁ ⟨hd₁, -, hfresh, hinner⟩
  by_cases hvalues : decl.values.isEmpty = true
  · simp only [hvalues, if_true]
    exact (resetFields_spells hfresh hd₁).bind fun _ d' hd' => .pure ⟨hd', hinner⟩
  · simp only [hvalues]
    refine .emit (.pure ⟨hd₁.append fun o ho field type hreset => .inl ?_, hinner⟩)
    obtain rfl : o = .exec (.assign .set lhs (decl.values.map env.resolve)) := by
      simpa [Op.parts] using ho
    obtain ⟨hzero, hbecomes⟩ :=
      Flow.becomes_of_reset (s := .declare decl) (renameExprs_eq_map _ _).symm hreset
    exact hown _ hzero hbecomes

theorem liftNames_spells (names : List String) (henv : env.renames.Follows plan.holder k) :
    Spelling own (liftNames plan names env) fun env' =>
      env'.renames.Follows plan.holder (k.add false (names.filter (· != "_"))) := by
  induction names generalizing env k with
  | nil => exact .pure henv
  | cons name names ih =>
      simp only [liftNames]
      split
      · rename_i hblank
        have hfilter : (name :: names).filter (· != "_") = names.filter (· != "_") := by
          simp [bne, hblank]
        rw [hfilter]
        exact ih henv
      · rename_i hname
        have hfilter : (name :: names).filter (· != "_") = name :: names.filter (· != "_") := by
          simp [bne, hname]
        rw [hfilter]
        refine .bind (P := fun lifted => IsLifted plan.holder lifted) (fun d hd => ?_)
          fun lifted hlifted => ih (henv.lift name hlifted)
        exact ⟨⟨hd.fields, hd.resets⟩, d.used, name, rfl⟩

theorem liftDecl_spells (decl : Decl) (henv : env.renames.Follows plan.holder k) :
    Spelling own (liftDecl plan decl env) fun env' =>
      env'.renames.Follows plan.holder (k.add false decl.declared) := by
  have hdeclared : (decl.specs.flatMap Spec.names).filter (· != "_") = decl.declared := by
    rw [List.filter_flatMap]
    rfl
  refine .bind (liftNames_spells _ henv) fun env' henv' => fun d hd => ?_
  exact ⟨⟨hd.fields, hd.resets⟩, hdeclared ▸ henv'⟩

theorem lowerTest_spells (state : Nat) (cond : Expr) (body exit : Nat) :
    Spelling own (lowerTest state cond body exit env) fun _ => True := by
  cases cond with
  | missing => exact .emit_last _ (jump_reset body .missing)
  | _ => exact .emit (when_reset (jumps_reset body)) (.emit_last _ (jump_reset exit .missing))

/-- The name that an iterator loop declares for a target. -/
def targetNames (define : Bool) (target : Expr) : List String :=
  if define then target.name?.toList.filter (· != "_") else []

theorem Walk.names_eq (w : Walk) :
    w.names = targetNames w.define w.key ++ targetNames w.define w.value := by
  unfold Walk.names targetNames
  cases w.define with
  | false => rfl
  | true =>
      rw [if_pos rfl, if_pos rfl, if_pos rfl, ← List.filter_append]
      congr 1
      cases hkey : w.key.name? <;> cases hvalue : w.value.name? <;> simp [hkey, hvalue]

theorem Kinds.add_append (k : Kinds) (isVariable : Bool) (xs ys : List String) :
    k.add isVariable (xs ++ ys) = (k.add isVariable xs).add isVariable ys :=
  List.foldl_append

theorem lowerTarget_spells {holder : String} {target type : Expr} {define : Bool}
    {inner : StateEnv} {k' : Kinds} (henv : env.renames.Follows holder k)
    (hinner : inner.renames.Follows holder k') (hkeeps : k.Keeps holder type) :
    Spelling own (lowerTarget define target type env inner) fun result =>
      result.2.renames.Follows holder (k'.add true (targetNames define target)) := by
  unfold lowerTarget
  split
  · refine .pure ?_
    cases define <;> exact hinner
  · rename_i name kept
    split
    · rename_i hblank
      refine .pure ?_
      have hnone : targetNames define (.ident name kept) = [] := by
        cases define <;> simp [targetNames, Expr.name?, bne, hblank]
      rw [hnone]
      exact hinner
    · rename_i hname
      split
      · rename_i hdefine
        have hsome : targetNames define (.ident name kept) = [name] := by
          simp [targetNames, hdefine, Expr.name?, bne, hname]
        rw [hsome]
        refine .bind (P := fun _ => True) (fun d hd => ⟨?_, trivial⟩)
          fun field _ => .pure (hinner.declare name field)
        exact hd.hoist (StateEnv.resolveShared_clear henv hkeeps 2) _ _
      · rename_i hdefine
        have hnone : targetNames define (.ident name kept) = [] := by
          simp [targetNames, hdefine]
        rw [hnone]
        exact .pure hinner
  · rename_i hmissing hident
    refine .pure ?_
    have hnone : targetNames define target = [] := by
      cases target with
      | ident name kept => exact absurd rfl (hident name kept)
      | _ => cases define <;> rfl
    rw [hnone]
    exact hinner

/-- The type of an iterator does not mention the receiver. -/
theorem Walk.iteratorType_clear {w : Walk} (hruntime : plan.runtime ≠ receiverName)
    (henv : env.renames.Follows plan.holder k) (hkey : k.Keeps plan.holder w.keyType)
    (hvalue : k.Keeps plan.holder w.valueType) :
    ¬ (w.iteratorType plan env).Mentions receiverName := by
  unfold iteratorType
  rw [Expr.mentions_iff_of_parts rfl rfl]
  rintro ⟨y, hy, hmem⟩
  simp only [List.mem_cons, List.not_mem_nil, or_false] at hy
  rcases hy with rfl | rfl | rfl
  · rw [Expr.mentions_iff_of_parts rfl rfl] at hmem
    obtain ⟨y, hy, hmem⟩ := hmem
    obtain rfl : y = .name plan.runtime := by simpa using hy
    exact hruntime (Expr.mentions_name.mp hmem).symm
  · exact StateEnv.resolveShared_clear henv hkey _ hmem
  · exact StateEnv.resolveShared_clear henv hvalue _ hmem

/-- The header of a loop over an iterator. -/
theorem Walk.lower_spells {w : Walk} {body : List Flow} (hruntime : plan.runtime ≠ receiverName)
    (hown : ∀ op, (Flow.walk w body).writesZero = true → (Flow.walk w body).Becomes op → own op)
    (henv : env.renames.Follows plan.holder k)
    (hkey : k.Keeps plan.holder w.keyType) (hvalue : k.Keeps plan.holder w.valueType) :
    Spelling own (w.lower plan current env) fun result =>
      result.2.2.renames.Follows plan.holder (k.add true w.names) := by
  rw [w.names_eq, Kinds.add_append]
  refine .newState fun init => .emit (jump_reset init .missing) ?_
  refine .bind (x := hoistIterator _) (P := fun _ => True) (fun d hd => ⟨?_, trivial⟩)
    fun it _ => ?_
  · have h := hd.hoist (iteratorType_clear hruntime henv hkey hvalue)
      (freeField d.used (iteratorField d.iterators))
      (freeField d.used (iteratorField d.iterators) :: d.used)
    exact ⟨h.fields, h.resets⟩
  refine .bind (P := fun _ => True) (fun d hd => ⟨hd.append ?_, trivial⟩) fun _ _ => ?_
  · intro o ho field type hreset
    obtain rfl : o = .exec (.assign .set [fieldExpr it] [env.resolve w.x]) := by
      simpa [Op.parts] using ho
    obtain ⟨hzero, hbecomes⟩ :=
      Flow.becomes_of_reset (s := .walk w body) (renameExprs_eq_map _ _).symm hreset
    exact .inl (hown _ hzero hbecomes)
  refine .bind (lowerTarget_spells henv henv hkey) ?_
  rintro ⟨key, inner⟩ hinner
  refine .bind (lowerTarget_spells henv hinner hvalue) ?_
  rintro ⟨value, inner'⟩ hinner'
  refine .newState fun cond => .emit (jump_reset cond .missing) (.newState fun body => ?_)
  refine .emit (when_reset ?_) (.emit (jump_reset env.next .missing) (.pure hinner'))
  simp [opsParts, Op.parts, Op.reset?]

theorem lowerArms_spells (cases' : List FlowCase) :
    Spelling own (lowerArms env cases') fun result =>
      ∀ o ∈ armsParts result.2, o.reset? = none := by
  induction cases' with
  | nil => exact .pure nofun
  | cons c cs ih =>
      refine .newState fun state => ih.bind ?_
      rintro ⟨states, arms⟩ harms
      refine .pure ?_
      cases c with
      | case values body => exact List.forall_mem_append.mpr ⟨jumps_reset state, harms⟩
      | default body => exact List.forall_mem_append.mpr ⟨jumps_reset state, harms⟩

theorem closeBlock_spells : Spelling own (closeBlock current cont env) fun _ => True := by
  refine .terminated fun ended => ?_
  cases ended with
  | true => exact .emit_last _ (jump_reset env.next .missing)
  | false =>
      exact .emit (jump_reset env.next .missing) (.emit_last _ (jump_reset env.next .missing))

/-- Whether a statement has a regular loop header if it is a loop, and writes zero values itself
only where this is accounted for (`own`). -/
structure Flow.Spellable (own : Op → Prop) (s : Flow) : Prop where
  headed : s.Headed
  own : ∀ op, s.writesZero = true → s.Becomes op → own op

theorem Flow.lowerInit_spells {cond : Expr} {post : Flow} {body : List Flow}
    (hheaded : (Flow.loop flow cond post body).Headed)
    (hparts : ∀ s ∈ if flow.isMissing then [] else flow.parts, s.Spellable own)
    (henv : env.renames.Follows plan.holder k)
    (hkeeps : ∀ h ∈ flow.hoistings k, h.kinds.Keeps plan.holder h.type) :
    Spelling own (flow.lowerInit current env) fun env' =>
      env'.renames.Follows plan.holder (flow.kindsAfter k) := by
  obtain hmissing | ⟨d, rfl⟩ | ⟨stmt, rfl⟩ := hheaded.1
  · rw [isMissing_eq_true.mp hmissing]
    exact .pure henv
  · exact d.lower_spells (hparts (.declare d) (Flow.mem_parts _)).own henv hkeeps
  · exact (verbatim_spells (hparts (.simple stmt) (Flow.mem_parts _)).own).bind fun _ _ =>
      .pure henv

theorem Flow.lowerPost_spells {init : Flow} {cond : Expr} {body : List Flow}
    (hheaded : (Flow.loop init cond flow body).Headed)
    (hparts : ∀ s ∈ if flow.isMissing then [] else flow.parts, s.Spellable own) :
    Spelling own (flow.lowerPost current env) fun _ => True := by
  obtain hmissing | ⟨stmt, rfl⟩ := hheaded.2
  · rw [isMissing_eq_true.mp hmissing]
    exact .pure trivial
  · exact verbatim_spells (hparts (.simple stmt) (Flow.mem_parts _)).own

theorem stitch_spells {lower : StateEnv → Lowering Unit}
    (hplan : plan.split = fun _ s => s.modifiesControlFlow)
    (hparts : ∀ s ∈ flow.parts, s.Spellable own) (henv : env.renames.Follows plan.holder k)
    (hkeeps : ∀ h ∈ if flow.isSplit then flow.hoistings k else [],
      h.kinds.Keeps plan.holder h.type)
    (hlower : (∀ h ∈ flow.hoistings k, h.kinds.Keeps plan.holder h.type) →
      Spelling own (lower (env.withNext cont).clearLabels) fun _ => True) :
    Spelling own (stitch plan flow lower current cont env) fun env' =>
      env'.renames.Follows plan.holder (flow.kindsAfter k) := by
  have hself := hparts flow flow.mem_parts
  have hsplit : flow.isSplit = flow.modifiesControlFlow → flow.kindsAfter k = k →
      Spelling own (do
        let child := (env.withNext cont).clearLabels
        let number ← reach
        if plan.split number flow then lower child else verbatim flow current child
        pure env) fun env' => env'.renames.Follows plan.holder (flow.kindsAfter k) := by
    intro hsame hafter
    rw [hafter]
    refine .reach fun number => ?_
    rw [hplan]
    by_cases hmod : flow.modifiesControlFlow = true
    · rw [hsame, if_pos hmod] at hkeeps
      simp only [hmod, if_true]
      exact (hlower hkeeps).bind fun _ _ => .pure henv
    · simp only [hmod]
      exact (verbatim_spells hself.own).bind fun _ _ => .pure henv
  cases flow with
  | declare d => exact d.lower_spells hself.own henv hkeeps
  | lift d => exact liftDecl_spells d henv
  | _ => exact hsplit rfl rfl

/-- What follows a statement of a block. -/
theorem terminated_spells {x : Lowering Unit} {y : Nat → Lowering Unit}
    (hx : Spelling own x fun _ => True) (hy : ∀ q, Spelling own (y q) fun _ => True) :
    Spelling own (do
      if ← Lowering.terminated current then
        let fresh ← newState
        y fresh
      else x) fun _ => True := by
  refine .terminated fun ended => ?_
  cases ended with
  | true => exact .newState hy
  | false => exact hx

theorem branch_spells {cond : Expr} {first second : Nat} :
    Spelling own (branch current cond first second) fun _ => True :=
  .emit (when_reset (jumps_reset _)) (.emit_last _ (jump_reset _ _))

theorem lowerSingle_spells {lower : StateEnv → Lowering Unit}
    (hplan : plan.split = fun _ s => s.modifiesControlFlow)
    (hparts : ∀ s ∈ flow.parts, s.Spellable own) (henv : env.renames.Follows plan.holder k)
    (hkeeps : ∀ h ∈ if flow.isSplit then flow.hoistings k else [],
      h.kinds.Keeps plan.holder h.type)
    (hlower : ∀ cont, (∀ h ∈ flow.hoistings k, h.kinds.Keeps plan.holder h.type) →
      Spelling own (lower (env.withNext cont).clearLabels) fun _ => True) :
    Spelling own (lowerSingle plan flow lower current env) fun _ => True :=
  .newState fun cont => (stitch_spells hplan hparts henv hkeeps (hlower cont)).bind fun _ _ =>
    terminated_spells closeBlock_spells fun _ => closeBlock_spells

end Parts

section Recursion

variable {plan : Plan} {own : Op → Prop}

mutual

/-- Lowering a statement gives fields of the package's types, where no type that a field gets
mentions a variable. -/
theorem Flow.lower_spells {env : StateEnv} {k : Kinds} (flow : Flow) (current : Nat)
    (hplan : plan.split = fun _ s => s.modifiesControlFlow)
    (hruntime : plan.runtime ≠ receiverName) (hparts : ∀ s ∈ flow.parts, s.Spellable own)
    (henv : env.renames.Follows plan.holder k)
    (hkeeps : ∀ h ∈ flow.hoistings k, h.kinds.Keeps plan.holder h.type) :
    Spelling own (flow.lower plan current env) fun _ => True := by
  have hself := hparts flow flow.mem_parts
  cases flow with
  | missing => exact .throw _
  | lift d => exact (liftDecl_spells d henv).discard
  | declare d => exact (d.lower_spells hself.own henv hkeeps).discard
  | yield value => exact .emit_last _ (jump_reset _ _)
  | finish => exact .emit_last _ (jump_reset _ _)
  | simple stmt => exact verbatim_spells hself.own
  | brk label =>
      simp only [Flow.lower]
      split
      · exact .throw _
      · exact .emit_last _ (jump_reset _ _)
  | cont label =>
      simp only [Flow.lower]
      split
      · exact .throw _
      · exact .emit_last _ (jump_reset _ _)
  | labeled label stmt =>
      exact stmt.lower_spells current hplan hruntime (List.forall_mem_cons.mp hparts).2 henv hkeeps
  | block body =>
      have hbody := (List.forall_mem_cons.mp hparts).2
      exact .newState fun cont =>
        lowerStmts_spells body current cont hplan hruntime hbody henv hkeeps
  | «while» cond body =>
      have hbody := (List.forall_mem_cons.mp hparts).2
      refine .newState fun condState => .emit (jump_reset _ _) (.newState fun bodyState => ?_)
      refine (lowerTest_spells _ _ _ _).bind fun _ _ => .newState fun cont => ?_
      exact lowerStmts_spells body bodyState cont hplan hruntime hbody
        (env.renames_inLoop condState ▸ henv) hkeeps
  | doWhile body cond =>
      have hbody := (List.forall_mem_cons.mp hparts).2
      refine .newState fun bodyState => .emit (jump_reset _ _) (.newState fun condState => ?_)
      refine (lowerTest_spells _ _ _ _).bind fun _ _ => .newState fun cont => ?_
      exact lowerStmts_spells body bodyState cont hplan hruntime hbody
        (env.renames_inLoop condState ▸ henv) hkeeps
  | loop init cond post body =>
      obtain ⟨hheader, hbody⟩ := List.forall_mem_append.mp (List.forall_mem_cons.mp hparts).2
      obtain ⟨hinit, hpost⟩ := List.forall_mem_append.mp hheader
      obtain ⟨hkeepsInit, hkeepsBody⟩ := List.forall_mem_append.mp hkeeps
      refine .newState fun initState => .emit (jump_reset _ _) ?_
      refine (Flow.lowerInit_spells hself.headed hinit henv hkeepsInit).bind fun inner hinner => ?_
      refine .newState fun condState => .emit (jump_reset _ _) (.newState fun bodyState => ?_)
      refine (lowerTest_spells _ _ _ _).bind fun _ _ => .newState fun updateState => ?_
      refine (Flow.lowerPost_spells hself.headed hpost).bind fun _ _ => ?_
      refine .emit (jump_reset _ _) (.newState fun cont => ?_)
      exact lowerStmts_spells body bodyState cont hplan hruntime hbody
        (inner.renames_inLoop updateState ▸ hinner) hkeepsBody
  | walk header body =>
      have hbody := (List.forall_mem_cons.mp hparts).2
      obtain ⟨hkey, hrest⟩ := List.forall_mem_cons.mp hkeeps
      obtain ⟨hvalue, hkeepsBody⟩ := List.forall_mem_cons.mp hrest
      refine (header.lower_spells hruntime hself.own henv hkey hvalue).bind ?_
      rintro ⟨condState, bodyState, inner⟩ hinner
      exact .newState fun cont => lowerStmts_spells body bodyState cont hplan hruntime hbody
        (inner.renames_inLoop condState ▸ hinner) hkeepsBody
  | switch tag cases =>
      have hcases := (List.forall_mem_cons.mp hparts).2
      refine .newState fun dispatcher => .emit (jump_reset _ _) ?_
      refine (lowerArms_spells cases).bind ?_
      rintro ⟨states, arms⟩ harms
      have hdispatch : ∀ o ∈ (Op.dispatch (env.resolve tag) arms).parts, o.reset? = none :=
        List.forall_mem_cons.mpr ⟨rfl, harms⟩
      refine .emit hdispatch ?_
      have hlower : Spelling own (lowerCases plan cases states
          ((env.withBreak "" env.next).clearLabels)) fun _ => True :=
        lowerCases_spells cases states hplan hruntime hcases henv hkeeps
      by_cases hdefault : cases.any FlowCase.isDefault = true
      · simp only [hdefault, if_true]
        exact hlower
      · simp only [hdefault]
        exact .emit (jump_reset _ _) hlower
  | ite cond body other =>
      obtain ⟨hbody, hother⟩ := List.forall_mem_append.mp (List.forall_mem_cons.mp hparts).2
      obtain ⟨hkeepsBody, hkeepsOther⟩ := List.forall_mem_append.mp hkeeps
      have hclear : env.clearLabels.renames.Follows plan.holder k := henv
      have helse : ∀ elseState, other.isMissing = false →
          Spelling own (other.lowerElse plan elseState env.clearLabels) fun _ => True := by
        intro elseState hm
        rw [hm, if_neg Bool.false_ne_true] at hother
        cases other with
        | block otherBody =>
            exact .newState fun cont => lowerStmts_spells otherBody elseState cont hplan hruntime
              (List.forall_mem_cons.mp hother).2 hclear hkeepsOther
        | _ =>
            rw [Flow.lowerElse_single rfl]
            exact lowerSingle_spells hplan hother hclear hkeepsOther fun cont hkeeps =>
              Flow.lower_spells _ elseState hplan hruntime hother hclear hkeeps
      rw [Flow.lower_ite]
      refine .newState fun thenState => .newState fun cont => ?_
      refine (lowerStmts_spells body thenState cont hplan hruntime hbody hclear hkeepsBody).bind
        fun _ _ => ?_
      cases hm : other.isMissing with
      | true => exact branch_spells
      | false =>
          refine .newState fun elseState => (helse elseState hm).bind fun _ _ => ?_
          split
          · exact branch_spells
          · exact .emit_last _ (List.forall_mem_cons.mpr
              ⟨rfl, List.forall_mem_append.mpr ⟨jumps_reset _, jumps_reset _⟩⟩)

theorem lowerStmts_spells {env : StateEnv} {k : Kinds} (fs : List Flow) (current cont : Nat)
    (hplan : plan.split = fun _ s => s.modifiesControlFlow)
    (hruntime : plan.runtime ≠ receiverName) (hparts : ∀ s ∈ flowsParts fs, s.Spellable own)
    (henv : env.renames.Follows plan.holder k)
    (hkeeps : ∀ h ∈ flowsHoistings k fs, h.kinds.Keeps plan.holder h.type) :
    Spelling own (lowerStmts plan fs current cont env) fun _ => True := by
  cases fs with
  | nil => exact closeBlock_spells
  | cons f fs =>
      obtain ⟨hf, hfs⟩ := List.forall_mem_append.mp hparts
      obtain ⟨hkeepsFirst, hkeepsRest⟩ := List.forall_mem_append.mp hkeeps
      have hchild : ((env.withNext cont).clearLabels).renames.Follows plan.holder k := henv
      refine (stitch_spells hplan hf henv hkeepsFirst fun hkeeps =>
        f.lower_spells current hplan hruntime hf hchild hkeeps).bind fun env' henv' => ?_
      exact terminated_spells
        (lowerStmts_spells fs current cont hplan hruntime hfs henv' hkeepsRest) fun fresh =>
          lowerStmts_spells fs cont fresh hplan hruntime hfs henv' hkeepsRest

theorem lowerCases_spells {env : StateEnv} {k : Kinds} (cases' : List FlowCase)
    (states : List Nat) (hplan : plan.split = fun _ s => s.modifiesControlFlow)
    (hruntime : plan.runtime ≠ receiverName) (hparts : ∀ s ∈ casesParts cases', s.Spellable own)
    (henv : env.renames.Follows plan.holder k)
    (hkeeps : ∀ h ∈ casesHoistings k cases', h.kinds.Keeps plan.holder h.type) :
    Spelling own (lowerCases plan cases' states env) fun _ => True := by
  match cases', states with
  | [], _ => exact .pure trivial
  | _ :: _, [] => exact .pure trivial
  | c :: cs, state :: states =>
      obtain ⟨hc, hcs⟩ := List.forall_mem_append.mp hparts
      obtain ⟨hkeepsFirst, hkeepsRest⟩ := List.forall_mem_append.mp hkeeps
      refine (c.lower_spells state hplan hruntime hc ?_ hkeepsFirst).bind fun _ _ =>
        lowerCases_spells cs states hplan hruntime hcs henv hkeepsRest
      cases states with
      | nil => exact henv
      | cons next states => exact henv

theorem FlowCase.lower_spells {env : StateEnv} {k : Kinds} (c : FlowCase) (current : Nat)
    (hplan : plan.split = fun _ s => s.modifiesControlFlow)
    (hruntime : plan.runtime ≠ receiverName) (hparts : ∀ s ∈ c.parts, s.Spellable own)
    (henv : env.renames.Follows plan.holder k)
    (hkeeps : ∀ h ∈ c.hoistings k, h.kinds.Keeps plan.holder h.type) :
    Spelling own (c.lower plan current env) fun _ => True := by
  cases c with
  | case values body =>
      exact .newState fun cont =>
        lowerStmts_spells body current cont hplan hruntime hparts henv hkeeps
  | default body =>
      exact .newState fun cont =>
        lowerStmts_spells body current cont hplan hruntime hparts henv hkeeps

end

end Recursion

section Parameters

variable {own : Op → Prop} {holder : String}

theorem foldl_withRename_follows (names : List String) {env : StateEnv} {k : Kinds}
    (henv : env.renames.Follows holder k) :
    (names.foldl (fun env name => env.withRename name ⟨name, true⟩) env).renames.Follows holder
      (k.add true names) := by
  induction names generalizing env k with
  | nil => exact henv
  | cons name names ih => exact ih (henv.declare name name)

/-- A parameter that takes the rest of the arguments has a slice of them as its field. -/
theorem lowerParam_spells {f : Field} {env : StateEnv} {k : Kinds}
    (hclear : ¬ f.type.Mentions receiverName) (henv : env.renames.Follows holder k) :
    Spelling own (lowerParam f env) fun env' =>
      env'.renames.Follows holder (k.add true (f.names.filter (· != "_"))) := by
  intro d hd
  refine ⟨⟨fun g hg => ?_, fun o ho => (hd.resets o ho).mono (List.subset_append_left _ _)⟩,
    foldl_withRename_follows _ henv⟩
  rcases List.mem_append.mp hg with hg | hg
  · exact hd.fields g hg
  · obtain ⟨name, -, rfl⟩ := List.mem_map.mp hg
    show ¬ Expr.Mentions receiverName _
    split
    · rename_i element htype
      rw [htype, Expr.mentions_iff_of_parts rfl rfl] at hclear
      rw [Expr.mentions_iff_of_parts rfl rfl]
      rintro ⟨y, hy, hmem⟩
      simp only [List.mem_cons, List.not_mem_nil, or_false] at hy
      rcases hy with rfl | rfl
      · rw [Expr.mentions_iff_of_parts rfl (by rfl : _ = exprParts [] [])] at hmem
        obtain ⟨y, hy, -⟩ := hmem
        cases hy
      · exact hclear ⟨_, List.mem_cons_self, hmem⟩
    · exact hclear

theorem lowerParams_spells (fs : List Field) {env : StateEnv} {k : Kinds}
    (hclear : ∀ f ∈ fs, ¬ f.type.Mentions receiverName) (henv : env.renames.Follows holder k) :
    Spelling own (lowerParams fs env) fun env' =>
      env'.renames.Follows holder (k.ofFields fs) := by
  induction fs generalizing env k with
  | nil => exact .pure henv
  | cons f fs ih =>
      obtain ⟨hf, hfs⟩ := List.forall_mem_cons.mp hclear
      exact (lowerParam_spells hf henv).bind fun _ henv' => ih hfs henv'

end Parameters

/-- The body of a generator keeps the draft of its holder spelled. -/
theorem Routine.lowerBody_spells {fn : Routine} {own : Op → Prop}
    (hparts : ∀ s ∈ flowsParts fn.body, s.Spellable own) (hruntime : fn.runtime ≠ receiverName)
    (hkeeps : ∀ h ∈ fn.hoistings, h.kinds.Keeps fn.name h.type) :
    Spelling own (fn.lowerBody fun _ s => s.modifiesControlFlow) fun _ => True := by
  obtain ⟨hparams, hbody⟩ := List.forall_mem_append.mp hkeeps
  have hclear : ∀ f ∈ fn.paramFields, ¬ f.type.Mentions receiverName := fun f hf hmem =>
    (hparams ⟨[], f.type⟩ (List.mem_map_of_mem hf) receiverName hmem).1 rfl
  have hstart : Renames.Follows (Env.start endState).renames fn.name [] :=
    ⟨fun _ => rfl, fun x t ht => by cases ht⟩
  let plan : Plan := ⟨fn.name, fn.runtime, fun _ s => s.modifiesControlFlow⟩
  refine .bind (lowerParams_spells _ hclear hstart) fun env henv => .newState fun cont => ?_
  have hlower : Spelling own (lowerStmts plan fn.body entryState cont env) fun _ => True :=
    lowerStmts_spells fn.body entryState cont rfl hruntime hparts henv hbody
  exact hlower

/-- Where no type that a field gets mentions the receiver or a variable in scope, or a lifted
declaration beside a variable with a name like those that declarations are lifted to, a generator
either has a branch without a target or a holder whose fields, parameters and iterators included,
have types that do not mention the receiver.  The zero values that its states reset fields to are
of the types of the fields, unless the operation assigns a zero value that a statement of the body
itself assigns, with some of its names replaced. -/
theorem Routine.lower_spells_types (fn : Routine) (hparts : ∀ s ∈ flowsParts fn.body, s.Proper)
    (hruntime : fn.runtime ≠ receiverName)
    (hkeeps : ∀ h ∈ fn.hoistings, h.kinds.Keeps fn.name h.type) :
    (∃ b, fn.branches.find? Branch.reported = some b ∧
        fn.lower = .error (.unresolved fn.name b.kind b.label)) ∨
      ∃ h, fn.lower = .ok h ∧ (∀ f ∈ h.fields, ¬ f.2.Mentions receiverName) ∧
        ∀ op ∈ tableOps h.states, ∀ field type, op.reset? = some (field, type) →
          (∃ s ∈ flowsParts fn.body, s.writesZero = true ∧ s.Becomes op) ∨
            ∃ f ∈ h.fields, field = fieldExpr f.1 ∧ type = f.2 := by
  cases hlower : fn.lower with
  | error e =>
      obtain ⟨b, hb, rfl⟩ := (fn.lower_eq_error_iff hparts e).mp hlower
      exact .inl ⟨b, hb, rfl⟩
  | ok h =>
      let own : Op → Prop := fun op =>
        ∃ s ∈ flowsParts fn.body, s.writesZero = true ∧ s.Becomes op
      have hspellable : ∀ s ∈ flowsParts fn.body, s.Spellable own :=
        fun s hs => ⟨(hparts s hs).headed, fun op hzero hbecomes => ⟨s, hs, hzero, hbecomes⟩⟩
      have hinitial : Draft.initial.Spelled own := ⟨nofun, nofun⟩
      obtain ⟨d, hd, rfl⟩ := Routine.lowerWith_ok hlower
      have hensures := Routine.lowerBody_spells hspellable hruntime hkeeps Draft.initial hinitial
      have hfinish : ∀ o ∈ Op.finish.parts, o.reset? = none := by simp [Op.parts, Op.reset?]
      have hspelled : (d.append endState .finish).Spelled own :=
        (hensures.ok hd).1.append fun o ho => Op.resets_of_none (hfinish o ho) d.fields
      exact .inr ⟨_, rfl, hspelled.fields, hspelled.resets⟩

theorem IsLifted.longer {holder x : String} (h : IsLifted holder x) :
    holder.length < x.length := by
  obtain ⟨used, y, rfl⟩ := h
  refine Nat.lt_of_lt_of_le ?_ (length_le_freeField _ _)
  have hsep : "_".length = 1 := rfl
  simp only [String.length_append]
  omega

/-- A generator with a variable that is named like a package, after the types of the package, and
a list of a type that is lifted. -/
def punctual : Routine where
  name := "punctual"
  recv := none
  typeParams := .absent
  params := .list [.mk ["n"] (.name "int") none]
  elem := .name "int"
  runtime := "yieldgen"
  body := [
    .declare ⟨["d"], [.own (.sel (.name "time") "Duration")], [], false⟩,
    .lift ⟨.type, [.type "row" .absent false (.name "int")]⟩,
    .declare ⟨["time", "rows"], [.own (.name "int"), .own (.array .missing (.name "row"))], [],
      false⟩,
    .yield (.name "time")]

theorem punctual_keeps : ∀ h ∈ punctual.hoistings, h.kinds.Keeps punctual.name h.type := by
  have hsel : ∀ x, (Expr.sel (.name "time") "Duration").Mentions x ↔ x = "time" := fun x => by
    rw [Expr.mentions_iff_of_parts rfl rfl]
    simp [Expr.mentions_name]
  have harray : ∀ x, (Expr.array .missing (.name "row")).Mentions x ↔ x = "row" := fun x => by
    have hmissing : ¬ Expr.missing.Mentions x := by
      rw [Expr.mentions_iff_of_parts rfl (by rfl : _ = exprParts [] [])]
      simp
    rw [Expr.mentions_iff_of_parts rfl rfl]
    simp [Expr.mentions_name, hmissing]
  have hint : ∀ k : Kinds, k.lookup "int" = none → k.Keeps punctual.name (.name "int") :=
    fun k hk => .of_unknown fun x hx => Expr.mentions_name.mp hx ▸ ⟨by decide, hk⟩
  have hlist : punctual.hoistings =
      [⟨[], .name "int"⟩, ⟨[("n", true)], .sel (.name "time") "Duration"⟩,
        ⟨[("row", false), ("d", true), ("n", true)], .name "int"⟩,
        ⟨[("row", false), ("d", true), ("n", true)], .array .missing (.name "row")⟩] := rfl
  rw [hlist]
  simp only [List.forall_mem_cons, List.not_mem_nil, false_imp_iff, implies_true, and_true]
  refine ⟨hint _ rfl, .of_unknown fun x hx => (hsel x).mp hx ▸ by decide, hint _ rfl, ?_⟩
  intro x hx
  obtain rfl := (harray x).mp hx
  refine ⟨by decide, by decide, fun _ y hy => ⟨?_, fun hvariable => ?_⟩⟩
  · rintro rfl
    exact absurd hy.longer (by decide)
  · obtain ⟨before, after, hsplit, -⟩ := List.lookup_eq_some_iff.mp hvariable
    have hmem : (y, true) ∈ [("row", false), ("d", true), ("n", true)] := by simp [hsplit]
    obtain rfl | rfl : y = "d" ∨ y = "n" := by simpa using hmem
    · exact absurd hy.longer (by decide)
    · exact absurd hy.longer (by decide)

theorem punctual_spells_types :
    (∀ s ∈ flowsParts punctual.body, s.Proper) ∧ punctual.runtime ≠ receiverName ∧
      (∀ h ∈ punctual.hoistings, h.kinds.Keeps punctual.name h.type) ∧
      ∃ h, punctual.lower = .ok h ∧ (∀ f ∈ h.fields, ¬ f.2.Mentions receiverName) ∧
        ∀ op ∈ tableOps h.states, ∀ field type, op.reset? = some (field, type) →
          ∃ f ∈ h.fields, field = fieldExpr f.1 ∧ type = f.2 := by
  have hparts : ∀ s ∈ flowsParts punctual.body, s.Proper := by
    intro s hs
    constructor
    · revert s
      simp [punctual, flowsParts, Flow.parts, Flow.Written]
    · revert s
      simp [punctual, flowsParts, Flow.parts, Flow.Typed]
    · revert s
      simp [punctual, flowsParts, Flow.parts, Flow.Headed]
  have hown : ¬ ∃ s ∈ flowsParts punctual.body, s.writesZero = true := by
    simp [punctual, flowsParts, Flow.parts, Flow.writesZero, Flow.assigned]
  have hruntime : punctual.runtime ≠ receiverName := by decide
  refine ⟨hparts, hruntime, punctual_keeps, ?_⟩
  rcases Routine.lower_spells_types punctual hparts hruntime punctual_keeps with
    ⟨b, hb, -⟩ | ⟨h, hlower, hfields, hresets⟩
  · cases hb
  · refine ⟨h, hlower, hfields, fun op hop field type hreset => ?_⟩
    refine (hresets op hop field type hreset).resolve_left ?_
    rintro ⟨s, hs, hzero, -⟩
    exact hown ⟨s, hs, hzero⟩

/-- A generator with a parameter that is named like a package, before a type of the package. -/
def timed : Routine where
  name := "g"
  recv := none
  typeParams := .absent
  params := .list [.mk ["time"] (.name "int") none]
  elem := .name "any"
  runtime := "yieldgen"
  body := [
    .declare ⟨["d"], [.own (.sel (.name "time") "Duration")], [], false⟩,
    .yield (.name "d")]

/-- The type of a field, and its zero value, go through the field of the parameter in place of
the package. -/
theorem timed_mentions_receiver :
    timed.lower.map Holder.fields =
        .ok [("time", .name "int"), ("d", .sel (fieldExpr "time") "Duration")] ∧
      (Expr.sel (fieldExpr "time") "Duration").Mentions receiverName ∧
      (timed.lower.map fun h => (tableOps h.states).filterMap Op.reset?) =
        .ok [(fieldExpr "d", .sel (fieldExpr "time") "Duration")] := by
  refine ⟨by cbv, ?_, by cbv⟩
  rw [Expr.mentions_iff_of_parts rfl rfl]
  refine ⟨fieldExpr "time", List.mem_cons_self, ?_⟩
  rw [fieldExpr, Expr.mentions_iff_of_parts rfl rfl]
  exact ⟨.name receiverName, List.mem_cons_self, .here⟩

end YieldMachine
