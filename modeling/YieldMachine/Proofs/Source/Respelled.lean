import YieldMachine.Proofs.Source.Marks

/-!
# Another spelling of `Yield`

Conversion drops every `Yield` of a clean body: it gives the same statements however the
identifiers that denote `Yield` are spelled.  Function literals keep their spelling.
-/

namespace YieldMachine.Source

section Mapping

variable (f : Ident → Ident)

mutual

/-- Changes the identifiers of an expression, function literals apart. -/
def Expr.mapOwn : Expr → Expr
  | .missing => .missing
  | .mk site form => .mk site form.mapOwn

/-- Changes the identifiers of a form of expression, function literals apart. -/
def Form.mapOwn : Form → Form
  | .ident id => .ident (f id)
  | .lit kind text => .lit kind text
  | .sel x member => .sel x.mapOwn (f member)
  | .index x i => .index x.mapOwn i.mapOwn
  | .indexList x is => .indexList x.mapOwn (mapOwnExprs is)
  | .slice x low high max three => .slice x.mapOwn low.mapOwn high.mapOwn max.mapOwn three
  | .assert x ty => .assert x.mapOwn ty.mapOwn
  | .call fn args spread => .call fn.mapOwn (mapOwnExprs args) spread
  | .star x => .star x.mapOwn
  | .unary op x => .unary op x.mapOwn
  | .binary op x y => .binary op x.mapOwn y.mapOwn
  | .paren x => .paren x.mapOwn
  | .pair key value => .pair key.mapOwn value.mapOwn
  | .composite ty elements => .composite ty.mapOwn (mapOwnExprs elements)
  | .func signature body => .func signature body
  | .funcType signature => .funcType signature.mapOwn
  | .array length element => .array length.mapOwn element.mapOwn
  | .map key element => .map key.mapOwn element.mapOwn
  | .chan direction element => .chan direction element.mapOwn
  | .struct fields => .struct fields.mapOwn
  | .interface fields => .interface fields.mapOwn
  | .ellipsis element => .ellipsis element.mapOwn

/-- Changes the identifiers of expressions. -/
def mapOwnExprs : List Expr → List Expr
  | [] => []
  | e :: es => e.mapOwn :: mapOwnExprs es

/-- Changes the identifiers of a signature. -/
def Signature.mapOwn : Signature → Signature
  | .mk typeParams params results => .mk typeParams.mapOwn params.mapOwn results.mapOwn

/-- Changes the identifiers of a field list. -/
def Fields.mapOwn : Fields → Fields
  | .absent => .absent
  | .list fs => .list (mapOwnFields fs)

/-- Changes the identifiers of fields. -/
def mapOwnFields : List Field → List Field
  | [] => []
  | field :: fs => field.mapOwn :: mapOwnFields fs

/-- Changes the identifiers of a field. -/
def Field.mapOwn : Field → Field
  | .mk names ty tag => .mk (names.map f) ty.mapOwn tag

/-- Changes the identifiers of a statement. -/
def Stmt.mapOwn : Stmt → Stmt
  | .missing => .missing
  | .mk pos form => .mk pos form.mapOwn

/-- Changes the identifiers of a form of statement; labels stay. -/
def StmtForm.mapOwn : StmtForm → StmtForm
  | .empty => .empty
  | .expr x => .expr x.mapOwn
  | .send channel value => .send channel.mapOwn value.mapOwn
  | .incDec increment x => .incDec increment x.mapOwn
  | .assign kind lhs rhs => .assign kind (mapOwnExprs lhs) (mapOwnExprs rhs)
  | .go call => .go call.mapOwn
  | .defer call => .defer call.mapOwn
  | .ret results => .ret (mapOwnExprs results)
  | .branch kind label => .branch kind label
  | .block body => .block (mapOwnStmts body)
  | .ite init cond body other => .ite init.mapOwn cond.mapOwn (mapOwnStmts body) other.mapOwn
  | .switch init tag clauses => .switch init.mapOwn tag.mapOwn (mapOwnClauses clauses)
  | .typeSwitch init guard clauses =>
    .typeSwitch init.mapOwn guard.mapOwn (mapOwnClauses clauses)
  | .select clauses => .select (mapOwnComms clauses)
  | .loop init cond post body => .loop init.mapOwn cond.mapOwn post.mapOwn (mapOwnStmts body)
  | .range key value kind x body =>
    .range key.mapOwn value.mapOwn kind x.mapOwn (mapOwnStmts body)
  | .labeled label stmt => .labeled label stmt.mapOwn
  | .decl kind specs => .decl kind (mapOwnSpecs specs)

/-- Changes the identifiers of statements. -/
def mapOwnStmts : List Stmt → List Stmt
  | [] => []
  | s :: ss => s.mapOwn :: mapOwnStmts ss

/-- Changes the identifiers of the clauses of a switch. -/
def mapOwnClauses : List Clause → List Clause
  | [] => []
  | c :: cs => c.mapOwn :: mapOwnClauses cs

/-- Changes the identifiers of a clause of a switch. -/
def Clause.mapOwn : Clause → Clause
  | .case values body => .case (mapOwnExprs values) (mapOwnStmts body)
  | .default body => .default (mapOwnStmts body)

/-- Changes the identifiers of the clauses of a select. -/
def mapOwnComms : List CommClause → List CommClause
  | [] => []
  | c :: cs => c.mapOwn :: mapOwnComms cs

/-- Changes the identifiers of a clause of a select. -/
def CommClause.mapOwn : CommClause → CommClause
  | .mk comm body => .mk comm.mapOwn (mapOwnStmts body)

/-- Changes the identifiers of the entries of a declaration. -/
def mapOwnSpecs : List Spec → List Spec
  | [] => []
  | s :: ss => s.mapOwn :: mapOwnSpecs ss

/-- Changes the identifiers of an entry of a declaration. -/
def Spec.mapOwn : Spec → Spec
  | .value names ty values => .value (names.map f) ty.mapOwn (mapOwnExprs values)
  | .type name typeParams isAlias ty => .type (f name) typeParams.mapOwn isAlias ty.mapOwn
  | .imported name path => .imported name path

end

/-- Whether the identifiers of an outline, function literals apart, stay as they are. -/
def Fixes (os : List Outline) : Prop := ∀ id ∈ outlinesOwnIdents os, f id = id

variable {f}

theorem fixes_append {os ps : List Outline} :
    Fixes f (os ++ ps) ↔ Fixes f os ∧ Fixes f ps := by
  simp only [Fixes, outlinesOwnIdents_append, List.forall_mem_append]

theorem fixes_ident {id : Ident} : Fixes f [.ident id] ↔ f id = id := by
  simp [Fixes, outlinesOwnIdents, Outline.ownIdents]

theorem fixes_idents {ids : List Ident} : Fixes f (outlineIdents ids) ↔ ids.map f = ids := by
  induction ids with
  | nil => simp [Fixes, outlineIdents, outlinesOwnIdents]
  | cons id ids ih =>
      have hcons : outlineIdents (id :: ids) = [.ident id] ++ outlineIdents ids := rfl
      rw [hcons, fixes_append, fixes_ident, ih, List.map_cons, List.cons_eq_cons]

theorem fixes_address {target : Option Ident} {os : List Outline} :
    Fixes f [.address target os] ↔ Fixes f os := by
  simp [Fixes, outlinesOwnIdents, Outline.ownIdents]

theorem fixes_loop {os : List Outline} : Fixes f [.loop os] ↔ Fixes f os := by
  simp [Fixes, outlinesOwnIdents, Outline.ownIdents]

theorem fixes_whole {os : List Outline} : Fixes f [.whole os] ↔ Fixes f os := by
  simp [Fixes, outlinesOwnIdents, Outline.ownIdents]

theorem fixes_labeled {label : String} {os : List Outline} :
    Fixes f [.labeled label os] ↔ Fixes f os := by
  simp [Fixes, outlinesOwnIdents, Outline.ownIdents]

theorem fixes_ret {os : List Outline} : Fixes f [.ret os] ↔ Fixes f os := by
  simp [Fixes, outlinesOwnIdents, Outline.ownIdents]

mutual

/-- An expression stays as it is where its identifiers do. -/
theorem Expr.mapOwn_of_fixes (e : Expr) (h : Fixes f e.outline) : e.mapOwn f = e := by
  cases e with
  | missing => rfl
  | mk site form => rw [Expr.mapOwn, form.mapOwn_of_fixes h]

theorem Form.mapOwn_of_fixes {pos : Pos} (form : Form) (h : Fixes f (form.outline pos)) :
    form.mapOwn f = form := by
  cases form with
  | ident id => rw [Form.mapOwn, fixes_ident.mp h]
  | lit kind text => rfl
  | sel x member =>
      obtain ⟨hx, hmember⟩ := fixes_append.mp h
      rw [Form.mapOwn, x.mapOwn_of_fixes hx, fixes_ident.mp hmember]
  | index x i =>
      obtain ⟨hx, hi⟩ := fixes_append.mp h
      rw [Form.mapOwn, x.mapOwn_of_fixes hx, i.mapOwn_of_fixes hi]
  | indexList x is =>
      obtain ⟨hx, his⟩ := fixes_append.mp h
      rw [Form.mapOwn, x.mapOwn_of_fixes hx, mapOwnExprs_of_fixes is his]
  | slice x low high max three =>
      simp only [Form.outline, fixes_append] at h
      obtain ⟨⟨⟨hx, hlow⟩, hhigh⟩, hmax⟩ := h
      rw [Form.mapOwn, x.mapOwn_of_fixes hx, low.mapOwn_of_fixes hlow,
        high.mapOwn_of_fixes hhigh, max.mapOwn_of_fixes hmax]
  | assert x ty =>
      obtain ⟨hx, hty⟩ := fixes_append.mp h
      rw [Form.mapOwn, x.mapOwn_of_fixes hx, ty.mapOwn_of_fixes hty]
  | call fn args spread =>
      obtain ⟨hfn, hargs⟩ := fixes_append.mp h
      rw [Form.mapOwn, fn.mapOwn_of_fixes hfn, mapOwnExprs_of_fixes args hargs]
  | unary op x =>
      have hx : Fixes f x.outline := by
        cases op with
        | address => exact fixes_address.mp h
        | _ => exact h
      rw [Form.mapOwn, x.mapOwn_of_fixes hx]
  | binary op x y =>
      obtain ⟨hx, hy⟩ := fixes_append.mp h
      rw [Form.mapOwn, x.mapOwn_of_fixes hx, y.mapOwn_of_fixes hy]
  | pair key value =>
      obtain ⟨hkey, hvalue⟩ := fixes_append.mp h
      rw [Form.mapOwn, key.mapOwn_of_fixes hkey, value.mapOwn_of_fixes hvalue]
  | composite ty elements =>
      obtain ⟨hty, helements⟩ := fixes_append.mp h
      rw [Form.mapOwn, ty.mapOwn_of_fixes hty, mapOwnExprs_of_fixes elements helements]
  | func signature body => rfl
  | funcType signature => rw [Form.mapOwn, signature.mapOwn_of_fixes h]
  | array length element =>
      obtain ⟨hlength, helement⟩ := fixes_append.mp h
      rw [Form.mapOwn, length.mapOwn_of_fixes hlength, element.mapOwn_of_fixes helement]
  | map key element =>
      obtain ⟨hkey, helement⟩ := fixes_append.mp h
      rw [Form.mapOwn, key.mapOwn_of_fixes hkey, element.mapOwn_of_fixes helement]
  | struct fields => rw [Form.mapOwn, fields.mapOwn_of_fixes h]
  | interface fields => rw [Form.mapOwn, fields.mapOwn_of_fixes h]
  | star x => rw [Form.mapOwn, x.mapOwn_of_fixes h]
  | paren x => rw [Form.mapOwn, x.mapOwn_of_fixes h]
  | chan direction element => rw [Form.mapOwn, element.mapOwn_of_fixes h]
  | ellipsis element => rw [Form.mapOwn, element.mapOwn_of_fixes h]

theorem mapOwnExprs_of_fixes (es : List Expr) (h : Fixes f (outlineExprs es)) :
    mapOwnExprs f es = es := by
  cases es with
  | nil => rfl
  | cons e es =>
      obtain ⟨he, hes⟩ := fixes_append.mp h
      rw [mapOwnExprs, e.mapOwn_of_fixes he, mapOwnExprs_of_fixes es hes]

theorem Signature.mapOwn_of_fixes (s : Signature) (h : Fixes f s.outline) : s.mapOwn f = s := by
  obtain ⟨typeParams, params, results⟩ := s
  simp only [Signature.outline, fixes_append] at h
  obtain ⟨⟨htypes, hparams⟩, hresults⟩ := h
  rw [Signature.mapOwn, typeParams.mapOwn_of_fixes htypes, params.mapOwn_of_fixes hparams,
    results.mapOwn_of_fixes hresults]

theorem Fields.mapOwn_of_fixes (fields : Fields) (h : Fixes f fields.outline) :
    fields.mapOwn f = fields := by
  cases fields with
  | absent => rfl
  | list fs => rw [Fields.mapOwn, mapOwnFields_of_fixes fs h]

theorem mapOwnFields_of_fixes (fs : List Field) (h : Fixes f (outlineFields fs)) :
    mapOwnFields f fs = fs := by
  cases fs with
  | nil => rfl
  | cons field fs =>
      obtain ⟨hfield, hfs⟩ := fixes_append.mp h
      rw [mapOwnFields, field.mapOwn_of_fixes hfield, mapOwnFields_of_fixes fs hfs]

theorem Field.mapOwn_of_fixes (field : Field) (h : Fixes f field.outline) :
    field.mapOwn f = field := by
  obtain ⟨names, ty, tag⟩ := field
  obtain ⟨hnames, hty⟩ := fixes_append.mp h
  rw [Field.mapOwn, fixes_idents.mp hnames, ty.mapOwn_of_fixes hty]

theorem Stmt.mapOwn_of_fixes (s : Stmt) (h : Fixes f s.outline) : s.mapOwn f = s := by
  cases s with
  | missing => rfl
  | mk pos form => rw [Stmt.mapOwn, form.mapOwn_of_fixes h]

theorem StmtForm.mapOwn_of_fixes (form : StmtForm) (h : Fixes f form.outline) :
    form.mapOwn f = form := by
  cases form with
  | empty => rfl
  | expr x => rw [StmtForm.mapOwn, x.mapOwn_of_fixes h]
  | send channel value =>
      obtain ⟨hchannel, hvalue⟩ := fixes_append.mp h
      rw [StmtForm.mapOwn, channel.mapOwn_of_fixes hchannel, value.mapOwn_of_fixes hvalue]
  | incDec increment x => rw [StmtForm.mapOwn, x.mapOwn_of_fixes h]
  | assign kind lhs rhs =>
      obtain ⟨hlhs, hrhs⟩ := fixes_append.mp h
      rw [StmtForm.mapOwn, mapOwnExprs_of_fixes lhs hlhs, mapOwnExprs_of_fixes rhs hrhs]
  | go call => rw [StmtForm.mapOwn, call.mapOwn_of_fixes h]
  | defer call => rw [StmtForm.mapOwn, call.mapOwn_of_fixes h]
  | ret results => rw [StmtForm.mapOwn, mapOwnExprs_of_fixes results (fixes_ret.mp h)]
  | branch kind label => rfl
  | block body => rw [StmtForm.mapOwn, mapOwnStmts_of_fixes body h]
  | ite init cond body other =>
      simp only [StmtForm.outline, fixes_append] at h
      obtain ⟨⟨⟨hinit, hcond⟩, hbody⟩, hother⟩ := h
      rw [StmtForm.mapOwn, init.mapOwn_of_fixes hinit, cond.mapOwn_of_fixes hcond,
        mapOwnStmts_of_fixes body hbody, other.mapOwn_of_fixes hother]
  | switch init tag clauses =>
      simp only [StmtForm.outline, fixes_append] at h
      obtain ⟨⟨hinit, htag⟩, hclauses⟩ := h
      rw [StmtForm.mapOwn, init.mapOwn_of_fixes hinit, tag.mapOwn_of_fixes htag,
        mapOwnClauses_of_fixes clauses hclauses]
  | typeSwitch init guard clauses =>
      simp only [StmtForm.outline, fixes_whole, fixes_append] at h
      obtain ⟨⟨hinit, hguard⟩, hclauses⟩ := h
      rw [StmtForm.mapOwn, init.mapOwn_of_fixes hinit, guard.mapOwn_of_fixes hguard,
        mapOwnClauses_of_fixes clauses hclauses]
  | select clauses => rw [StmtForm.mapOwn, mapOwnComms_of_fixes clauses (fixes_whole.mp h)]
  | loop init cond post body =>
      simp only [StmtForm.outline, fixes_loop, fixes_append] at h
      obtain ⟨⟨⟨hinit, hcond⟩, hpost⟩, hbody⟩ := h
      rw [StmtForm.mapOwn, init.mapOwn_of_fixes hinit, cond.mapOwn_of_fixes hcond,
        post.mapOwn_of_fixes hpost, mapOwnStmts_of_fixes body hbody]
  | range key value kind x body =>
      simp only [StmtForm.outline, fixes_loop, fixes_append] at h
      obtain ⟨⟨⟨hkey, hvalue⟩, hx⟩, hbody⟩ := h
      rw [StmtForm.mapOwn, key.mapOwn_of_fixes hkey, value.mapOwn_of_fixes hvalue,
        x.mapOwn_of_fixes hx, mapOwnStmts_of_fixes body hbody]
  | labeled label stmt => rw [StmtForm.mapOwn, stmt.mapOwn_of_fixes (fixes_labeled.mp h)]
  | decl kind specs => rw [StmtForm.mapOwn, mapOwnSpecs_of_fixes specs h]

theorem mapOwnStmts_of_fixes (ss : List Stmt) (h : Fixes f (outlineStmts ss)) :
    mapOwnStmts f ss = ss := by
  cases ss with
  | nil => rfl
  | cons s ss =>
      obtain ⟨hs, hss⟩ := fixes_append.mp h
      rw [mapOwnStmts, s.mapOwn_of_fixes hs, mapOwnStmts_of_fixes ss hss]

theorem mapOwnClauses_of_fixes (cs : List Clause) (h : Fixes f (outlineClauses cs)) :
    mapOwnClauses f cs = cs := by
  cases cs with
  | nil => rfl
  | cons c cs =>
      obtain ⟨hc, hcs⟩ := fixes_append.mp h
      rw [mapOwnClauses, c.mapOwn_of_fixes hc, mapOwnClauses_of_fixes cs hcs]

theorem Clause.mapOwn_of_fixes (c : Clause) (h : Fixes f c.outline) : c.mapOwn f = c := by
  cases c with
  | case values body =>
      obtain ⟨hvalues, hbody⟩ := fixes_append.mp h
      rw [Clause.mapOwn, mapOwnExprs_of_fixes values hvalues, mapOwnStmts_of_fixes body hbody]
  | default body => rw [Clause.mapOwn, mapOwnStmts_of_fixes body h]

theorem mapOwnComms_of_fixes (cs : List CommClause) (h : Fixes f (outlineComms cs)) :
    mapOwnComms f cs = cs := by
  cases cs with
  | nil => rfl
  | cons c cs =>
      obtain ⟨hc, hcs⟩ := fixes_append.mp h
      rw [mapOwnComms, c.mapOwn_of_fixes hc, mapOwnComms_of_fixes cs hcs]

theorem CommClause.mapOwn_of_fixes (c : CommClause) (h : Fixes f c.outline) : c.mapOwn f = c := by
  obtain ⟨comm, body⟩ := c
  obtain ⟨hcomm, hbody⟩ := fixes_append.mp h
  rw [CommClause.mapOwn, comm.mapOwn_of_fixes hcomm, mapOwnStmts_of_fixes body hbody]

theorem mapOwnSpecs_of_fixes (specs : List Spec) (h : Fixes f (outlineSpecs specs)) :
    mapOwnSpecs f specs = specs := by
  cases specs with
  | nil => rfl
  | cons spec specs =>
      obtain ⟨hspec, hspecs⟩ := fixes_append.mp h
      rw [mapOwnSpecs, spec.mapOwn_of_fixes hspec, mapOwnSpecs_of_fixes specs hspecs]

theorem Spec.mapOwn_of_fixes (spec : Spec) (h : Fixes f spec.outline) : spec.mapOwn f = spec := by
  cases spec with
  | value names ty values =>
      simp only [Spec.outline, fixes_append] at h
      obtain ⟨⟨hnames, hty⟩, hvalues⟩ := h
      rw [Spec.mapOwn, fixes_idents.mp hnames, ty.mapOwn_of_fixes hty,
        mapOwnExprs_of_fixes values hvalues]
  | type name typeParams isAlias ty =>
      have hcons : (Spec.type name typeParams isAlias ty).outline =
        [.ident name] ++ typeParams.outline ++ ty.outline := rfl
      simp only [hcons, fixes_append] at h
      obtain ⟨⟨hname, hparams⟩, hty⟩ := h
      rw [Spec.mapOwn, fixes_ident.mp hname, typeParams.mapOwn_of_fixes hparams,
        ty.mapOwn_of_fixes hty]
  | imported name path => rfl

end

end Mapping

/-- An identifier that has another spelling if it denotes `Yield`. -/
def Ident.respell (y : String) (id : Ident) : Ident :=
  if id.isYield then { id with name := y } else id

theorem Ident.isYield_respell (y : String) (id : Ident) : (id.respell y).isYield = id.isYield := by
  unfold Ident.respell
  split <;> rfl

/-- Silent parts keep their spelling. -/
theorem Silent.fixes {os : List Outline} (h : Silent os) (y : String) :
    Fixes (Ident.respell y) os := by
  intro id hid
  have hnot : ¬ id.isYield = true := fun hyield => by
    have hmem : id ∈ ownYields os := List.mem_filter.mpr ⟨hid, hyield⟩
    rw [show ownYields os = [] from h] at hmem
    cases hmem
  exact if_neg hnot

section Respelling

variable {ctx : Context} {y : String} {f : Ident → Ident}

mutual

theorem Expr.unparen_mapOwn (e : Expr) : (e.mapOwn f).unparen = e.unparen.mapOwn f := by
  cases e with
  | missing => rfl
  | mk site form => exact form.unparen_mapOwn site

theorem Form.unparen_mapOwn (site : Site) (form : Form) :
    Expr.unparenForm site (form.mapOwn f) = (Expr.unparenForm site form).mapOwn f := by
  cases form with
  | paren x => exact x.unparen_mapOwn
  | _ => rfl

end

theorem Expr.generic_mapOwn (e : Expr) : (e.mapOwn f).generic = e.generic.mapOwn f := by
  cases e with
  | missing => rfl
  | mk site form => cases form <;> rfl

theorem Expr.last?_mapOwn (e : Expr) : (e.mapOwn f).last? = e.last?.map f := by
  cases e with
  | missing => rfl
  | mk site form => cases form <;> rfl

theorem Expr.callee?_mapOwn (e : Expr) : (e.mapOwn f).callee? = e.callee?.map f := by
  rw [Expr.callee?_eq, Expr.callee?_eq, e.unparen_mapOwn, Expr.generic_mapOwn, Expr.last?_mapOwn]

/-- Respelling changes what a mark consists of, and neither adds nor removes one. -/
theorem Expr.mark?_respell (e : Expr) :
    (e.mapOwn (Ident.respell y)).mark? =
      e.mark?.map fun m => (m.1.respell y, m.2.mapOwn (Ident.respell y)) := by
  unfold Expr.mark?
  rw [e.unparen_mapOwn]
  generalize e.unparen = u
  cases u with
  | missing => rfl
  | mk site form =>
      cases form with
      | call fn args spread =>
          match args with
          | [] => rfl
          | _ :: _ :: _ => rfl
          | [arg] =>
              simp only [Expr.mapOwn, Form.mapOwn, mapOwnExprs, fn.callee?_mapOwn]
              cases fn.callee? with
              | none => rfl
              | some id =>
                  by_cases hid : id.isYield = true
                  · simp [Option.filter, Ident.isYield_respell, hid]
                  · simp [Option.filter, Ident.isYield_respell, hid]
      | _ => rfl

/-- A clean mark has the same value in another spelling. -/
theorem Expr.CleanMark.respell {e : Expr} (h : e.CleanMark) :
    e.mapOwn (Ident.respell y) = e ∨
      ∃ m, e.mark? = some m ∧ (e.mapOwn (Ident.respell y)).mark? = some (m.1.respell y, m.2) := by
  unfold Expr.CleanMark at h
  cases hm : e.mark? with
  | none =>
      rw [hm] at h
      exact .inl (e.mapOwn_of_fixes (h.fixes y))
  | some m =>
      rw [hm] at h
      refine .inr ⟨m, rfl, ?_⟩
      rw [e.mark?_respell, hm, Option.map_some, m.2.mapOwn_of_fixes (h.2.1.fixes y)]

theorem value_convert_expr (pos : Pos) (x : Expr) :
    ((StmtForm.expr x).convert ctx pos).value =
      match x.mark? with
      | some m => [.yield m.2.erase]
      | none => [.simple (.expr x.erase)] := by
  simp only [StmtForm.convert, Noted.value_bind, value_yieldValue?]
  cases x.mark? <;> rfl

theorem value_convert_ret (pos : Pos) (x : Expr) :
    ((StmtForm.ret [x]).convert ctx pos).value =
      match x.mark? with
      | some m => [.yield m.2.erase]
      | none => if x.isNil then [.finish] else [] := by
  simp only [StmtForm.convert, Context.ret, Noted.value_bind, value_yieldValue?]
  cases x.mark? with
  | none => cases x.isNil <;> rfl
  | some m => rfl

theorem Stmt.isWritten_mapOwn (s : Stmt) : (s.mapOwn f).isWritten = s.isWritten := by
  cases s <;> rfl

theorem Stmt.eq_of_mapOwn_branch {s : Stmt} {pos : Pos} {kind : BranchKind} {label : Option Ident}
    (h : s.mapOwn f = .mk pos (.branch kind label)) : s = .mk pos (.branch kind label) := by
  cases s with
  | missing => cases h
  | mk pos form =>
      cases form with
      | branch kind label => exact h
      | _ => cases h

theorem eq_nil_of_mapOwnStmts {ss : List Stmt} (h : mapOwnStmts f ss = []) : ss = [] := by
  cases ss with
  | nil => rfl
  | cons s ss => cases h

mutual

/-- A clean statement is converted alike in another spelling. -/
theorem Stmt.convert_respell (s : Stmt) (h : s.Clean) :
    ((s.mapOwn (Ident.respell y)).convert ctx).value = (s.convert ctx).value := by
  cases s with
  | missing => rfl
  | mk pos form => exact form.convert_respell pos h

theorem StmtForm.convert_respell (form : StmtForm) (pos : Pos) (h : form.Clean) :
    ((form.mapOwn (Ident.respell y)).convert ctx pos).value = (form.convert ctx pos).value := by
  have hsilent : Silent form.outline →
      ((form.mapOwn (Ident.respell y)).convert ctx pos).value = (form.convert ctx pos).value :=
    fun hs => by rw [form.mapOwn_of_fixes (hs.fixes y)]
  cases form with
  | expr x =>
      rw [StmtForm.mapOwn, value_convert_expr, value_convert_expr]
      obtain hx | ⟨m, hm, hm'⟩ := Expr.CleanMark.respell (y := y) h
      · rw [hx]
      · rw [hm, hm']
  | defer call => exact h.elim
  | ret results =>
      obtain ⟨x, rfl, hx⟩ := h
      rw [StmtForm.mapOwn, mapOwnExprs, mapOwnExprs, value_convert_ret, value_convert_ret]
      obtain hx | ⟨m, hm, hm'⟩ := hx.respell (y := y)
      · rw [hx]
      · rw [hm, hm']
  | block body =>
      simp only [StmtForm.mapOwn, StmtForm.convert, Noted.value_bind, Noted.value_pure,
        convertStmts_respell body h]
  | ite init cond body other =>
      obtain ⟨hinit, hcond, hbody, hother, -⟩ := h
      simp only [StmtForm.mapOwn, StmtForm.convert, Noted.value_bind, Noted.value_pure,
        Stmt.isWritten_mapOwn, cond.mapOwn_of_fixes (hcond.fixes y), init.convert_respell hinit,
        convertStmts_respell body hbody, other.convert_respell hother]
  | switch init tag clauses =>
      obtain ⟨hinit, htag, hclauses⟩ := h
      simp only [StmtForm.mapOwn, StmtForm.convert, Noted.value_bind, Noted.value_pure,
        Stmt.isWritten_mapOwn, tag.mapOwn_of_fixes (htag.fixes y), init.convert_respell hinit,
        convertClauses_respell clauses hclauses]
  | typeSwitch init guard clauses => exact hsilent (silent_of_exit? _ h)
  | select clauses => exact hsilent (silent_of_exit? _ h)
  | loop init cond post body =>
      obtain ⟨⟨-, hinit⟩, hcond, ⟨-, hpost⟩, hbody⟩ := h
      simp only [StmtForm.mapOwn, StmtForm.convert, Noted.value_bind,
        cond.mapOwn_of_fixes (hcond.fixes y), init.mapOwn_of_fixes (hinit.fixes y),
        post.mapOwn_of_fixes (hpost.fixes y), convertStmts_respell body hbody]
  | range key value kind x body =>
      obtain ⟨hkey, hvalue, hx, hbody⟩ := h
      simp only [StmtForm.mapOwn, StmtForm.convert, Noted.value_bind,
        key.mapOwn_of_fixes (hkey.fixes y), value.mapOwn_of_fixes (hvalue.fixes y),
        x.mapOwn_of_fixes (hx.fixes y), convertStmts_respell body hbody]
  | labeled label stmt =>
      simp only [StmtForm.mapOwn, StmtForm.convert, Noted.value_bind, Noted.value_pure,
        stmt.convert_respell h]
  | _ => exact hsilent h

theorem convertStmts_respell (ss : List Stmt) (h : stmtsClean ss) :
    (convertStmts ctx (mapOwnStmts (Ident.respell y) ss)).value = (convertStmts ctx ss).value := by
  cases ss with
  | nil => rfl
  | cons s ss =>
      simp only [mapOwnStmts, convertStmts, Noted.value_bind, Noted.value_pure,
        s.convert_respell h.1, convertStmts_respell ss h.2]

theorem convertClauses_respell (cs : List Clause) (h : clausesClean cs) :
    (convertClauses ctx (mapOwnClauses (Ident.respell y) cs)).value =
      (convertClauses ctx cs).value := by
  cases cs with
  | nil => rfl
  | cons c cs =>
      simp only [mapOwnClauses, convertClauses, Noted.value_bind, Noted.value_pure,
        c.convert_respell h.1, convertClauses_respell cs h.2]

theorem Clause.convert_respell (c : Clause) (h : c.Clean) :
    ((c.mapOwn (Ident.respell y)).convert ctx).value = (c.convert ctx).value := by
  cases c with
  | case values body =>
      simp only [Clause.mapOwn, Clause.convert, Noted.value_bind, Noted.value_pure,
        mapOwnExprs_of_fixes values (h.1.fixes y), convertArm_respell body h.2]
  | default body =>
      simp only [Clause.mapOwn, Clause.convert, Noted.value_bind, Noted.value_pure,
        convertArm_respell body h]

theorem convertArm_respell (ss : List Stmt) (h : stmtsClean ss) :
    (convertArm ctx (mapOwnStmts (Ident.respell y) ss)).value = (convertArm ctx ss).value := by
  cases ss with
  | nil => rfl
  | cons s ss =>
      obtain ⟨pos, label, rfl, rfl⟩ | hcons := convertArm_cons ctx s ss
      · rfl
      · obtain ⟨pos, label, hs, hss⟩ | hcons' := convertArm_cons ctx
          (s.mapOwn (Ident.respell y)) (mapOwnStmts (Ident.respell y) ss)
        · obtain rfl := Stmt.eq_of_mapOwn_branch hs
          obtain rfl := eq_nil_of_mapOwnStmts hss
          rfl
        · rw [mapOwnStmts, hcons, hcons']
          simp only [Noted.value_bind, Noted.value_pure, s.convert_respell h.1,
            convertArm_respell ss h.2]

end

end Respelling

end YieldMachine.Source
