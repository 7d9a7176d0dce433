import YieldMachine.Proofs.Meaning.Parts
import YieldMachine.Proofs.Source.Meaning
import YieldMachine.Proofs.Source.Yields

/-!
# Statements that keep their shape

A statement that does not shape control flow is converted to one that does the same:
assignments and expressions are kept, a declaration makes the same variables with the types that
the type checker found, and the iterator of a range statement walks over its operand.
-/

namespace YieldMachine.Source

section Declarations

variable {L : Language} {q : PackageRef → String} {scope : List String} {d : VarDecl}

/-- A declaration whose names have types of their own, unless the scope has them, is a
definition. -/
theorem introduce_eq_defineAll {ids : List Ident} {i : Nat} (values : List L.Value)
    (names : L.Names)
    (h : ∀ j id, ids[j]? = some id → id.name ≠ "_" →
      if id.name ∈ scope then d.reuses (i + j) = true
      else d.reuses (i + j) = false ∧ d.typeOf (i + j) = id.spellType q) :
    d.introduce L i (identNames ids) (values.map some) names =
      defineAll L q scope ids values names := by
  induction ids generalizing i values names with
  | nil => rfl
  | cons id ids ih =>
      cases values with
      | nil => rfl
      | cons value values =>
          have hrest := fun names => ih (i := i + 1) values names fun j id hid hblank => by
            rw [Nat.add_assoc, Nat.add_comm 1 j]
            exact h (j + 1) id hid hblank
          simp only [identNames] at hrest
          simp only [identNames, List.map_cons, VarDecl.introduce, defineAll, hrest]
          by_cases hblank : id.name = "_"
          · simp only [hblank, Language.reassign, Language.introduce, if_true, pure_bind, ite_self]
          · have hfirst := h 0 id rfl hblank
            rw [Nat.add_zero] at hfirst
            by_cases hscope : id.name ∈ scope
            · rw [if_pos hscope] at hfirst
              simp only [hfirst, hscope, if_true]
            · rw [if_neg hscope] at hfirst
              simp only [hfirst.1, hfirst.2, hscope, Bool.false_eq_true, if_false]

/-- A declaration whose names all have types of their own. -/
theorem introduce_eq_declareAll {ty : Expr} {ids : List Ident} {i : Nat}
    (values : List (Option L.Value)) (names : L.Names)
    (h : ∀ j id, ids[j]? = some id → id.name ≠ "_" →
      d.reuses (i + j) = false ∧ d.typeOf (i + j) = id.declaredType q ty) :
    d.introduce L i (identNames ids) values names = declareAll L q ty ids values names := by
  induction ids generalizing i values names with
  | nil => rfl
  | cons id ids ih =>
      cases values with
      | nil => rfl
      | cons value values =>
          have hrest := fun names => ih (i := i + 1) values names fun j id hid hblank => by
            rw [Nat.add_assoc, Nat.add_comm 1 j]
            exact h (j + 1) id hid hblank
          simp only [identNames] at hrest
          simp only [identNames, List.map_cons, VarDecl.introduce, declareAll, hrest]
          by_cases hblank : id.name = "_"
          · cases value <;>
              simp only [hblank, Language.reassign, Language.introduce, if_true, pure_bind,
                ite_self]
          · obtain ⟨hreuses, htype⟩ := h 0 id rfl hblank
            rw [Nat.add_zero] at hreuses htype
            simp only [hreuses, htype, Bool.false_eq_true, if_false]

end Declarations

section Conversion

variable {ctx : Context} {scope : List String} {L : Language} {n : Nat} {runtime : String}

theorem value_declTypes (ids : List Ident) :
    (ctx.declTypes ids).value = ids.map fun id => (ctx.declType id).value := by
  induction ids with
  | nil => rfl
  | cons id ids ih => exact congrArg _ ih

theorem Ident.Introduced.spellType (q : PackageRef → String) {id : Ident} (h : id.Introduced) :
    (id.spellType q).isMissing = false := by
  obtain ⟨k, object, t, href, htype, hspell⟩ := h
  simp only [Ident.spellType, href, Option.bind_some, htype, hspell]

theorem Ident.Introduced.declType (ctx : Context) {id : Ident} (h : id.Introduced) :
    (ctx.declType id).value = .own (id.spellType ctx.qualify) := by
  obtain ⟨k, object, t, href, htype, -⟩ := h
  simp only [Context.declType, Ident.spellType, href, Option.bind_some, htype]
  rfl

theorem Ident.Used.declType (ctx : Context) {id : Ident} (h : id.Used) :
    (ctx.declType id).value = .reused := by
  unfold Context.declType
  split
  · rename_i href
    cases h _ href
  · rfl

theorem typeAt?_declTypes {d : VarDecl} {ids : List Ident}
    (htypes : d.types = (ctx.declTypes ids).value) {j : Nat} {id : Ident}
    (hid : ids[j]? = some id) {declType : DeclType} (h : (ctx.declType id).value = declType) :
    d.types[j]? = some declType := by
  rw [htypes, value_declTypes, List.getElem?_map, hid, Option.map_some, h]

theorem reuses_of_used {d : VarDecl} {j : Nat} (h : d.types[j]? = some .reused) :
    d.reuses j = true := by
  simp [VarDecl.reuses, VarDecl.typeAt?, h, YieldMachine.Expr.isMissing]

theorem reuses_of_own {d : VarDecl} {j : Nat} {type : YieldMachine.Expr}
    (h : d.types[j]? = some (.own type)) (hwritten : type.isMissing = false) :
    d.reuses j = false ∧ d.typeOf j = type := by
  simp [VarDecl.reuses, VarDecl.typeOf, VarDecl.typeAt?, h, hwritten]

theorem isEmpty_eraseExprs (es : List Expr) : (eraseExprs es).isEmpty = es.isEmpty := by
  cases es <;> rfl

theorem length_identNames (ids : List Ident) : (identNames ids).length = ids.length := by
  simp [identNames]

/-- A definition declares the variables that are new. -/
theorem perform_define {lhs rhs : List Expr} (hrhs : rhs ≠ [])
    (hlhs : ∀ e ∈ lhs, ∃ id, e.ident? = some id ∧ id.Resolved scope) (names : L.Names) :
    VarDecl.perform L ⟨identNames (lhs.filterMap Expr.ident?),
        (ctx.declTypes (lhs.filterMap Expr.ident?)).value, eraseExprs rhs, true⟩ names = (do
      let values ← L.evalAll (lhs.filterMap Expr.ident?).length (eraseExprs rhs) names
      defineAll L ctx.qualify scope (lhs.filterMap Expr.ident?) values names) := by
  have hvalues : (eraseExprs rhs).isEmpty = false := by
    rw [isEmpty_eraseExprs]
    exact List.isEmpty_eq_false_iff.mpr hrhs
  simp only [VarDecl.perform, hvalues, Bool.false_eq_true, if_false, length_identNames,
    map_eq_pure_bind, bind_assoc, pure_bind]
  congr 1
  funext values
  refine introduce_eq_defineAll values names fun j id hid hblank => ?_
  obtain ⟨e, he, hident⟩ := List.mem_filterMap.mp (List.mem_of_getElem? hid)
  obtain ⟨id', hid', hresolved⟩ := hlhs e he
  obtain rfl : id' = id := Option.some.inj (hid'.symm.trans hident)
  have hknown := hresolved.resolve_left hblank
  rw [Nat.zero_add]
  by_cases hscope : id'.name ∈ scope
  · rw [if_pos hscope] at hknown ⊢
    exact reuses_of_used (typeAt?_declTypes rfl hid (hknown.declType ctx))
  · rw [if_neg hscope] at hknown ⊢
    exact reuses_of_own (typeAt?_declTypes rfl hid (hknown.declType ctx))
      (hknown.spellType ctx.qualify)

theorem Expr.isMissing_erase {e : Expr} (h : e ≠ .missing) : e.erase.isMissing = false := by
  cases hmissing : e.erase with
  | missing => exact absurd (Expr.erase_eq_missing.mp hmissing) h
  | _ => rfl

/-- The declaration that an entry becomes. -/
def Context.entry (ctx : Context) (names : List Ident) (ty : Expr) (values : List Expr) : VarDecl :=
  ⟨identNames names,
    match ty with
    | .missing => (ctx.declTypes names).value
    | ty => sharedTypes ty.erase names,
    eraseExprs values, false⟩

theorem value_varSpecs (names : List Ident) (ty : Expr) (values : List Expr) (specs : List Spec) :
    (ctx.varSpecs (.value names ty values :: specs)).value =
      .declare (ctx.entry names ty values) :: (ctx.varSpecs specs).value := by
  cases ty <;> rfl

theorem typeAt?_sharedTypes {names : List Ident} {ty : YieldMachine.Expr}
    (hty : ty.isMissing = false) {d : VarDecl} (htypes : d.types = sharedTypes ty names) {j : Nat}
    (hj : j < names.length) : d.typeAt? j = some ty := by
  cases names with
  | nil => cases hj
  | cons id names =>
      have hshared : d.sharedType = ty := by
        simp [VarDecl.sharedType, htypes, sharedTypes]
      rw [← hshared]
      refine typeAt?_of_shared (by rw [hshared]; exact hty) ?_
      simpa [htypes, sharedTypes] using hj

/-- An entry declares its variables. -/
theorem Spec.exec_eq {ids : List Ident} {ty : Expr} {values : List Expr}
    (hresolved : (Spec.value ids ty values).Resolved) (names : L.Names) :
    (Spec.value ids ty values).exec L ctx.qualify names =
      (ctx.entry ids ty values).perform L names := by
  have hintroduce : ∀ values' : List (Option L.Value),
      (ctx.entry ids ty values).introduce L 0 (identNames ids) values' names =
        declareAll L ctx.qualify ty ids values' names := by
    intro values'
    refine introduce_eq_declareAll values' names fun j id hid hblank => ?_
    rw [Nat.zero_add]
    by_cases hty : ty = .missing
    · subst hty
      have hintroduced := (hresolved id (List.mem_of_getElem? hid)).resolve_left hblank
      exact reuses_of_own (typeAt?_declTypes rfl hid (hintroduced.declType ctx))
        (hintroduced.spellType ctx.qualify)
    · have hwritten := Expr.isMissing_erase hty
      have htype : (ctx.entry ids ty values).typeAt? j = some ty.erase := by
        refine typeAt?_sharedTypes hwritten ?_ (List.getElem?_eq_some_iff.mp hid).1
        cases ty with
        | missing => exact absurd rfl hty
        | mk site form => rfl
      have hdeclared : id.declaredType ctx.qualify ty = ty.erase := by
        cases ty with
        | missing => exact absurd rfl hty
        | mk site form => rfl
      simp [VarDecl.reuses, VarDecl.typeOf, htype, hwritten, hdeclared]
  simp only [Spec.exec, VarDecl.perform, ← hintroduce]
  simp only [Context.entry, isEmpty_eraseExprs, length_identNames]
  cases hempty : values.isEmpty with
  | true => simp [identNames, Function.comp_def]
  | false => rfl

theorem Flow.performAll_declare (d : VarDecl) (fs : List Flow) (names : L.Names) :
    Flow.performAll L runtime n (.declare d :: fs) names = (do
      let names ← liftM (d.perform L names)
      Flow.performAll L runtime n fs names) := by
  rw [Flow.performAll, Flow.perform, Domain.Action.bind_assoc]
  rfl

/-- How a statement ends that shapes no control flow, with the same variables in scope. -/
def Normally (a : Completion × L.Names) (b : Ending × L.Names) : Prop :=
  a.1 = .normal ∧ b.1 = .normal ∧ a.2 = b.2

/-- A step that changes nothing but the store. -/
theorem step_alike (x : L.Eff Unit) (names : L.Names) :
    Domain.Alike Normally (do
      x
      return (.normal, names) : L.Action (Completion × L.Names)) (do
      x
      return (.normal, names)) :=
  Domain.Alike.first x fun _ => .pure ⟨rfl, rfl, rfl⟩

/-- Declarations of variables. -/
theorem execSpecs_alike {specs : List Spec} (hdeclares : ∀ spec ∈ specs, spec.DeclaresVars)
    (hresolved : ∀ spec ∈ specs, spec.Resolved) (names : L.Names) :
    Domain.Alike Normally
      (do return (.normal, ← execSpecs L ctx.qualify specs names) :
        L.Action (Completion × L.Names))
      (Flow.performAll L runtime n (ctx.varSpecs specs).value names) := by
  induction specs generalizing names with
  | nil => exact .pure ⟨rfl, rfl, rfl⟩
  | cons spec specs ih =>
      cases spec with
      | value ids ty values =>
          rw [value_varSpecs, Flow.performAll_declare,
            ← Spec.exec_eq (hresolved _ (.head _)) names]
          rw [execSpecs, Domain.Action.lift_bind, Domain.Action.bind_assoc]
          refine Domain.Alike.first _ fun inner => ?_
          exact ih (fun spec hspec => hdeclares spec (.tail _ hspec))
            (fun spec hspec => hresolved spec (.tail _ hspec)) inner
      | _ => exact absurd (hdeclares _ (.head _)) id

/-- A mark hands over its argument. -/
theorem mark_alike {arg : Expr} (h : arg ≠ .missing) (names : L.Names) :
    Domain.Alike Normally (arg.execMark L names)
      (Flow.performAll L runtime n [.yield arg.erase] names) := by
  have hyield : (Flow.yield arg.erase).perform L runtime n [] names = (do
      .hand (← L.eval arg.erase names)
      return (.normal, names)) := by
    rw [Flow.perform]
    exact fun hmissing => h (Expr.erase_eq_missing.mp hmissing)
  rw [Flow.performAll_singleton, hyield]
  refine Domain.Alike.first _ fun value => ?_
  exact (Domain.Alike.hand value).bind fun _ _ _ => .pure ⟨rfl, rfl, rfl⟩

/-- What a statement for a header becomes. -/
theorem Stmt.value_convert_simple (ctx : Context) {stmt : Stmt} (h : stmt.isSimple = true) :
    stmt = .missing ∨
      ∃ f, (stmt.convert ctx).value = [f] ∧ f.isMissing = false := by
  cases stmt with
  | missing => exact .inl rfl
  | mk pos form =>
      right
      cases form with
      | empty => exact ⟨_, rfl, rfl⟩
      | expr x =>
          simp only [Stmt.convert, value_convert_expr]
          cases x.mark? <;> exact ⟨_, rfl, rfl⟩
      | send channel value => exact ⟨_, rfl, rfl⟩
      | incDec increment x => exact ⟨_, rfl, rfl⟩
      | assign kind lhs rhs => cases kind <;> exact ⟨_, rfl, rfl⟩
      | _ => cases h

/-- A statement that shapes no control flow, where it may declare variables. -/
theorem Stmt.simple_alike {stmt : Stmt} (hsimple : stmt.isSimple = true)
    (hcovered : stmt.Covered) (hresolved : stmt.Resolved scope) (names : L.Names) :
    Domain.Alike Normally (stmt.exec L ctx.qualify n scope [] names)
      (Flow.performAll L runtime n (stmt.convert ctx).value names) := by
  have hkept (form : StmtForm) : Domain.Alike Normally (do
      L.run form.erase names
      return (.normal, names) : L.Action (Completion × L.Names))
      (Flow.performAll L runtime n [.simple form.erase] names) := by
    rw [Flow.performAll_singleton]
    exact step_alike _ names
  cases stmt with
  | missing => exact .pure ⟨rfl, rfl, rfl⟩
  | mk pos form =>
      cases form with
      | empty => exact hkept .empty
      | expr x =>
          simp only [Stmt.exec, StmtForm.exec, Stmt.convert, value_convert_expr,
            x.runtimeArg?_yield]
          cases hm : x.mark? with
          | none => exact hkept (.expr x)
          | some m => exact mark_alike (hcovered m.2 (by rw [x.runtimeArg?_yield, hm]; rfl)) names
      | incDec increment x => exact hkept (.incDec increment x)
      | assign kind lhs rhs =>
          cases kind with
          | define =>
              have hvalue : ((Stmt.mk pos (.assign .define lhs rhs)).convert ctx).value =
                  [.declare ⟨identNames (lhs.filterMap Expr.ident?),
                    (ctx.declTypes (lhs.filterMap Expr.ident?)).value, eraseExprs rhs, true⟩] := rfl
              rw [hvalue, Flow.performAll_declare, perform_define (hcovered rfl) hresolved,
                Domain.Action.lift_bind, Domain.Action.bind_assoc]
              exact Domain.Alike.first _ fun values => .first _ fun inner => .pure ⟨rfl, rfl, rfl⟩
          | _ => exact hkept (.assign _ lhs rhs)
      | send channel value => exact hcovered.elim
      | _ => cases hsimple

theorem Context.operand_adapter {name : String} {kind : Iterable} (h : adapted? name = some kind)
    (x : YieldMachine.Expr) : (ctx.adapter name x).operand ctx.runtime = (kind, x) := by
  have hname : (YieldMachine.Expr.name ctx.runtime).isName ctx.runtime = true := by
    simp [YieldMachine.Expr.isName, YieldMachine.Expr.name?, YieldMachine.Expr.name]
  simp only [Context.adapter, YieldMachine.Expr.operand, h, hname, if_true]

/-- The iterator of a range statement walks over its operand, and gives keys and values of the
types that they have in the source. -/
theorem Context.iteration_ordered {x : Expr} {it : Iteration} (h : ctx.iteration x = .ok it)
    (hordered : x.isOrdered = true) :
    ∃ r, x.rangeClause? = some r ∧ it.adapter.operand ctx.runtime = (r.kind, r.operand.erase) ∧
      it.key = r.key ∧ it.value = r.value := by
  unfold Context.iteration at h
  unfold Expr.rangeClause?
  cases hseq : x.runtimeArg? "Seq" with
  | some g =>
      simp only [hseq] at h
      cases helement : g.typed.bind Typed.element? with
      | none => simp [helement] at h
      | some element =>
          simp only [helement, Except.ok.injEq] at h
          subst h
          exact ⟨⟨.sequence, g, element, unitType⟩, by simp only [helement, Option.map_some],
            ctx.operand_adapter rfl _, rfl, rfl⟩
  | none =>
      simp only [hseq] at h
      unfold Expr.isOrdered at hordered
      cases htyped : x.typed with
      | none => simp [htyped] at h
      | some t =>
          obtain ⟨type, shape⟩ := t
          simp only [htyped, Context.iterationOver] at h
          simp only [hseq, htyped, Option.isSome_none, Bool.false_or, Option.any_some] at hordered
          split at h
          · cases h
          · cases shape with
            | slice element | text | integer counter =>
                cases h
                exact ⟨_, rfl, ctx.operand_adapter rfl _, rfl, rfl⟩
            | _ => cases hordered

end Conversion

end YieldMachine.Source
