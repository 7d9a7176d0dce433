import YieldMachine.Proofs.Scope.Labels
import YieldMachine.Proofs.Source.Preserved
import YieldMachine.Proofs.Source.Refused

/-!
# Labels of converted statements

The conversion of a statement keeps each label where it is, but for one: a switch whose header has a
first part becomes a block, so that a label right before the switch is right before the block.  No
break can name it there.  A statement that is accepted becomes one in which every labelled branch
has a target exactly when no break names the label of such a switch.
-/

namespace YieldMachine

/-- Whether a node can be one of a spelled type: it is no statement, and no literal. -/
def Node.inType : Node → Bool
  | .expr (.func _ _) | .expr (.composite _ _) => false
  | .expr _ | .field _ => true
  | _ => false

namespace Ty

/-- The element type of a channel type is put in parentheses or not. -/
theorem spell_chan (q : PackageRef → String) (direction : ChanDir) (element : Ty) :
    (Ty.chan direction element).spell q = .chan direction (element.spell q) ∨
      (Ty.chan direction element).spell q = .chan direction (.paren (element.spell q)) := by
  by_cases h : ∃ received, direction = .both ∧ element = .chan .receive received
  · obtain ⟨received, rfl, rfl⟩ := h
    right
    rw [spell, spell]
    intro _ hdirection
    cases hdirection
  · left
    rw [spell]
    exact fun received hdirection helement => h ⟨received, hdirection, helement⟩

/-- An interface that stands for a type is spelled like it. -/
theorem spell_interface (q : PackageRef → String) (methods : List TyMethod) (embeds : List Ty)
    (implicit : Bool) :
    (∃ embedded, embeds = [embedded] ∧
      (Ty.interface methods embeds implicit).spell q = embedded.spell q) ∨
    (Ty.interface methods embeds implicit).spell q =
      .interface (.list (spellMethods q methods ++ spellEmbeds q embeds)) := by
  by_cases h : ∃ embedded, methods = [] ∧ embeds = [embedded] ∧ implicit = true
  · obtain ⟨embedded, rfl, rfl, rfl⟩ := h
    left
    refine ⟨embedded, rfl, ?_⟩
    rw [spell]
  · right
    rw [spell]
    exact fun embedded hmethods hembeds himplicit => h ⟨embedded, hmethods, hembeds, himplicit⟩

section Types

variable {P : Node → Prop}

/-- Whether something holds of each node of a type that it holds of all parts of. -/
def Outward (P : Node → Prop) : Prop :=
  ∀ n : Node, n.inType = true → (∀ m ∈ n.parts.map Prod.snd, P m) → P n

theorem Outward.exprs (hP : Outward P) {e : Expr} (es : List Expr)
    (htype : (Node.expr e).inType = true) (hparts : e.parts = exprParts [] es)
    (h : ∀ x ∈ es, P (.expr x)) : P (.expr e) := by
  refine hP _ htype ?_
  rw [Node.parts, hparts, map_snd_exprParts]
  exact List.forall_mem_map.mpr h

theorem Outward.name (hP : Outward P) (x : String) : P (.expr (.name x)) :=
  hP.exprs [] rfl rfl nofun

theorem Outward.field (hP : Outward P) {names : List String} {ty : Expr} {tag : Option String}
    (h : P (.expr ty)) : P (.field (.mk names ty tag)) :=
  hP _ rfl (List.forall_mem_singleton.mpr h)

theorem Outward.fields (hP : Outward P) {fs : List Field} (h : ∀ f ∈ fs, P (.field f)) :
    P (.expr (.struct (.list fs))) ∧ P (.expr (.interface (.list fs))) := by
  constructor <;>
  · refine hP _ rfl ?_
    rw [Node.parts, Expr.parts, map_snd_fieldParts]
    exact List.forall_mem_map.mpr h

theorem Outward.qualified (hP : Outward P) (qualifier name : String) :
    P (.expr (qualified qualifier name)) := by
  unfold Ty.qualified
  split
  · exact hP.name name
  · exact hP.exprs [.name qualifier] rfl rfl (List.forall_mem_singleton.mpr (hP.name qualifier))

theorem Outward.instantiated (hP : Outward P) {x : Expr} {args : List Expr} (hx : P (.expr x))
    (hargs : ∀ e ∈ args, P (.expr e)) : P (.expr (instantiated x args)) := by
  unfold Ty.instantiated
  split
  · exact hx
  · exact hP.exprs [x, _] rfl rfl (List.forall_mem_cons.mpr ⟨hx, hargs⟩)
  · exact hP.exprs (x :: args) rfl rfl (List.forall_mem_cons.mpr ⟨hx, hargs⟩)

theorem Outward.joined (hP : Outward P) {es : List Expr} (h : ∀ e ∈ es, P (.expr e)) :
    P (.expr (joined es)) := by
  have hfold : ∀ (es : List Expr) (e : Expr), P (.expr e) → (∀ e ∈ es, P (.expr e)) →
      P (.expr (es.foldl (.binary .bitOr) e)) := by
    intro es
    induction es with
    | nil => exact fun e he _ => he
    | cons e' es ih =>
        intro e he hes
        obtain ⟨he', hes⟩ := List.forall_mem_cons.mp hes
        exact ih _ (hP.exprs [e, e'] rfl rfl (by simp [he, he'])) hes
  cases es with
  | nil => exact hP.exprs [] rfl rfl nofun
  | cons e es => exact hfold es e (h e (.head _)) fun e he => h e (.tail _ he)

mutual

/-- What passes outwards in types holds of every spelled type. -/
theorem Outward.spell (hP : Outward P) (q : PackageRef → String) (t : Ty) :
    P (.expr (t.spell q)) := by
  cases t with
  | basic name | param name => exact hP.name name
  | named pkg name args | synonym pkg name args =>
      exact hP.instantiated (hP.qualified _ _) (hP.spellAll q args)
  | pointer element =>
      exact hP.exprs [_] rfl rfl (List.forall_mem_singleton.mpr (hP.spell q element))
  | slice element =>
      refine hP.exprs [.missing, _] rfl rfl (List.forall_mem_cons.mpr ⟨?_, ?_⟩)
      · exact hP.exprs [] rfl rfl nofun
      · exact List.forall_mem_singleton.mpr (hP.spell q element)
  | array length element =>
      refine hP.exprs [.lit .int _, _] rfl rfl (List.forall_mem_cons.mpr ⟨?_, ?_⟩)
      · exact hP.exprs [] rfl rfl nofun
      · exact List.forall_mem_singleton.mpr (hP.spell q element)
  | map key element =>
      exact hP.exprs [_, _] rfl rfl (List.forall_mem_cons.mpr
        ⟨hP.spell q key, List.forall_mem_singleton.mpr (hP.spell q element)⟩)
  | chan direction element =>
      have helement := hP.spell q element
      rcases spell_chan q direction element with h | h
      · rw [h]
        exact hP.exprs [_] rfl rfl (List.forall_mem_singleton.mpr helement)
      · rw [h]
        refine hP.exprs [_] rfl rfl (List.forall_mem_singleton.mpr ?_)
        exact hP.exprs [_] rfl rfl (List.forall_mem_singleton.mpr helement)
  | struct fields => exact (hP.fields (hP.spellFields q fields)).1
  | func signature => exact hP.spellSignature q signature
  | interface methods embeds implicit =>
      have hembeds := hP.spellAll q embeds
      have hmethods := hP.spellMethods q methods
      have hfields := hP.spellEmbeds q embeds
      obtain ⟨embedded, rfl, h⟩ | h := spell_interface q methods embeds implicit
      · rw [h]
        exact hembeds _ (.head _)
      · rw [h]
        exact (hP.fields (List.forall_mem_append.mpr ⟨hmethods, hfields⟩)).2
  | union terms => exact hP.joined (hP.spellTerms q terms)
  | tuple items => exact hP.exprs [] rfl rfl nofun

theorem Outward.spellAll (hP : Outward P) (q : PackageRef → String) (ts : List Ty) :
    ∀ e ∈ Ty.spellAll q ts, P (.expr e) := by
  cases ts with
  | nil => exact nofun
  | cons t ts => exact List.forall_mem_cons.mpr ⟨hP.spell q t, hP.spellAll q ts⟩

theorem Outward.spellFields (hP : Outward P) (q : PackageRef → String) (fs : List TyField) :
    ∀ f ∈ Ty.spellFields q fs, P (.field f) := by
  cases fs with
  | nil => exact nofun
  | cons f fs =>
      obtain ⟨name, ty, embedded, tag⟩ := f
      exact List.forall_mem_cons.mpr ⟨hP.field (hP.spell q ty), hP.spellFields q fs⟩

theorem Outward.spellSignature (hP : Outward P) (q : PackageRef → String)
    (signature : TySignature) : P (.expr (.funcType (Ty.spellSignature q signature))) := by
  obtain ⟨params, results, variadic⟩ := signature
  have hparams := hP.spellParams q variadic params
  have hresults := hP.spellParams q false results
  have hlisted : ∀ f ∈ (if results.isEmpty then Fields.absent
      else .list (Ty.spellParams q false results)).toList, P (.field f) := by
    split
    · exact nofun
    · exact hresults
  rw [Ty.spellSignature]
  refine hP _ rfl ?_
  simp only [Node.parts, Expr.parts, Signature.parts, List.map_append, map_snd_fieldParts,
    List.forall_mem_append, List.forall_mem_map]
  exact ⟨⟨nofun, hparams⟩, hlisted⟩

theorem Outward.spellParams (hP : Outward P) (q : PackageRef → String) (variadic : Bool)
    (ps : List TyParam) : ∀ f ∈ Ty.spellParams q variadic ps, P (.field f) := by
  cases ps with
  | nil => exact nofun
  | cons p ps =>
      obtain ⟨name, ty⟩ := p
      have hty := hP.spell q ty
      have hps := hP.spellParams q variadic ps
      have helement : ∀ element, ty = .slice element → P (.expr (element.spell q)) := by
        cases ty with
        | slice element =>
            have helement := hP.spell q element
            rintro _ ⟨⟩
            exact helement
        | _ => exact nofun
      by_cases hlast : ∃ element, ty = .slice element ∧ ps = []
      · -- the last parameter is spelled by itself, since it may take the rest of the arguments
        obtain ⟨element, rfl, rfl⟩ := hlast
        have hlisted : P (.expr (if variadic then .ellipsis (element.spell q)
            else .array .missing (element.spell q))) := by
          cases variadic with
          | true =>
              exact hP.exprs [_] rfl rfl (List.forall_mem_singleton.mpr (helement element rfl))
          | false => exact hty
        rw [Ty.spellParams]
        exact List.forall_mem_singleton.mpr (hP.field hlisted)
      · rw [Ty.spellParams]
        · exact List.forall_mem_cons.mpr ⟨hP.field hty, hps⟩
        · exact fun element hps hty => hlast ⟨element, hty, hps⟩

theorem Outward.spellMethods (hP : Outward P) (q : PackageRef → String) (ms : List TyMethod) :
    ∀ f ∈ Ty.spellMethods q ms, P (.field f) := by
  cases ms with
  | nil => exact nofun
  | cons m ms =>
      obtain ⟨name, signature⟩ := m
      exact List.forall_mem_cons.mpr
        ⟨hP.field (hP.spellSignature q signature), hP.spellMethods q ms⟩

theorem Outward.spellEmbeds (hP : Outward P) (q : PackageRef → String) (ts : List Ty) :
    ∀ f ∈ Ty.spellEmbeds q ts, P (.field f) := by
  cases ts with
  | nil => exact nofun
  | cons t ts => exact List.forall_mem_cons.mpr ⟨hP.field (hP.spell q t), hP.spellEmbeds q ts⟩

theorem Outward.spellTerms (hP : Outward P) (q : PackageRef → String) (ts : List TyTerm) :
    ∀ e ∈ Ty.spellTerms q ts, P (.expr e) := by
  cases ts with
  | nil => exact nofun
  | cons t ts =>
      obtain ⟨tilde, ty⟩ := t
      refine List.forall_mem_cons.mpr ⟨?_, hP.spellTerms q ts⟩
      have hty := hP.spell q ty
      cases tilde with
      | true => exact hP.exprs [_] rfl rfl (List.forall_mem_singleton.mpr hty)
      | false => exact hty

end

end Types

/-- An expression that is no function literal has targets when its parts do. -/
theorem targeted_of_parts {e : Expr} (hliteral : (Node.expr e).isLiteral = false)
    (h : ∀ m ∈ e.parts.map Prod.snd, m.Targeted .outside) : e.Targeted :=
  (Node.targeted_iff_of_isLiteral hliteral).mpr h

/-- A spelled type has no function literal in it. -/
theorem targeted_spell (q : PackageRef → String) (t : Ty) : (t.spell q).Targeted := by
  refine Outward.spell (P := (·.Targeted .outside)) (fun n htype hparts => ?_) q t
  cases n with
  | expr e =>
      refine Node.targeted_expr.mpr (targeted_of_parts ?_ hparts)
      cases e with
      | func signature body => cases htype
      | _ => rfl
  | field f =>
      obtain ⟨names, ty, tag⟩ := f
      exact Node.targeted_field.mpr (Node.targeted_expr.mp (hparts _ (.head _)))
  | _ => cases htype

end Ty

namespace LabelScope

/-- The place of a statement by itself where a switch whose header has a first part is no target. -/
def moving : LabelScope := { outside with moves := true }

variable (p : LabelScope)

@[simp]
theorem inside_inCases : p.inside.inCases = p.inside := rfl

@[simp]
theorem kept_inside : p.kept.inside = p.inside.kept := rfl

@[simp]
theorem kept_inCases : p.kept.inCases = p.inCases.kept := rfl

end LabelScope

/-- A statement whose parts stand alike. -/
theorem Node.targeted_kept_iff {p : LabelScope} {s : Stmt}
    (hown : s.NamesTarget p.kept ↔ s.NamesTarget p) (hwithin : s.within p.kept = s.within p) :
    (Node.stmt s).Targeted p.kept ↔ (Node.stmt s).Targeted p := by
  rw [targeted_stmt, targeted_stmt, hown, hwithin]

section Flows

variable {p : LabelScope}

theorem flowsTargeted_append {fs gs : List Flow} :
    flowsTargeted p (fs ++ gs) ↔ flowsTargeted p fs ∧ flowsTargeted p gs := by
  induction fs with
  | nil => simp [flowsTargeted]
  | cons f fs ih => rw [List.cons_append, flowsTargeted, flowsTargeted, ih, and_assoc]

/-- One statement for the statements that a statement becomes. -/
def asOne : List Flow → Flow
  | [s] => s
  | fs => .block fs

/-- Without a label before them, statements have targets alone as together. -/
theorem targeted_asOne (hlabel : p.label = none) (fs : List Flow) :
    (asOne fs).Targeted p ↔ flowsTargeted p fs := by
  have hblock : (Flow.block fs).Targeted p ↔ flowsTargeted p fs := by
    rw [Flow.Targeted, p.inside_of_label hlabel]
  match fs with
  | [] => exact hblock
  | [s] => simp [asOne, flowsTargeted]
  | _ :: _ :: _ => exact hblock

theorem targeted_asOne_of_forall {fs : List Flow} (h : ∀ p, flowsTargeted p fs) :
    (asOne fs).Targeted p := by
  match fs with
  | [] => exact h p.inside
  | [s] => exact (h p).1
  | _ :: _ :: _ => exact h p.inside

end Flows

namespace Source

section Operands

variable {ctx : Context}

theorem Expr.targeted_unparen (e : Expr) (h : e.erase.Targeted) : e.unparen.erase.Targeted := by
  cases e with
  | missing => exact h
  | mk site form =>
      cases form with
      | paren x => exact x.targeted_unparen (YieldMachine.Expr.targeted_paren.mp h)
      | _ => exact h

/-- The argument of a call of the runtime package is a part of the call. -/
theorem Expr.targeted_runtimeArg {name : String} {e arg : Expr}
    (harg : e.runtimeArg? name = some arg) (h : e.erase.Targeted) : arg.erase.Targeted := by
  have hcall := e.targeted_unparen h
  unfold Expr.runtimeArg? at harg
  split at harg
  · rename_i site fn only spread hunparen
    rw [hunparen] at hcall
    split at harg
    · obtain rfl := Option.some.inj harg
      exact (YieldMachine.Expr.targeted_call.mp hcall).2 _ (.head _)
    · cases harg
  · cases harg

theorem Expr.targeted_mark {e : Expr} {m : Ident × Expr} (hm : e.mark? = some m)
    (h : e.erase.Targeted) : m.2.erase.Targeted :=
  e.targeted_runtimeArg (by rw [e.runtimeArg?_yield, hm]; rfl) h

theorem Context.targeted_adapter {name : String} {x : YieldMachine.Expr} (h : x.Targeted) :
    (ctx.adapter name x).Targeted := by
  simp [Context.adapter, h]

theorem targeted_wholeSlice {x : YieldMachine.Expr} (h : x.Targeted) : (wholeSlice x).Targeted := by
  unfold wholeSlice
  refine Ty.targeted_of_parts rfl ?_
  simp [YieldMachine.Expr.parts, map_snd_exprParts, h]

/-- The iterator of a range statement is made of its operand. -/
theorem Context.targeted_iteration {x : Expr} {it : Iteration} (hit : ctx.iteration x = .ok it)
    (h : x.erase.Targeted) : it.adapter.Targeted := by
  unfold Context.iteration at hit
  cases hseq : x.runtimeArg? "Seq" with
  | some arg =>
      simp only [hseq] at hit
      split at hit
      · cases hit
        exact Context.targeted_adapter (Expr.targeted_runtimeArg hseq h)
      · cases hit
  | none =>
      simp only [hseq] at hit
      have hwhole := targeted_wholeSlice h
      split at hit
      · rename_i t htyped
        obtain ⟨type, shape⟩ := t
        unfold Context.iterationOver at hit
        split at hit
        · cases hit
        · cases shape with
          | array element =>
              simp only at hit
              split at hit
              · cases hit
                exact Context.targeted_adapter hwhole
              · cases hit
          | arrayPointer element =>
              cases hit
              exact Context.targeted_adapter hwhole
          | slice | map | chan | text | integer =>
              cases hit
              exact Context.targeted_adapter h
          | _ => cases hit
      · cases hit

/-- The types of declared variables have no function literals in them. -/
theorem Context.targeted_declTypes (names : List Ident) (ty : YieldMachine.Expr)
    (h : .own ty ∈ (ctx.declTypes names).value) : ty.Targeted := by
  rw [value_declTypes] at h
  obtain ⟨id, -, hid⟩ := List.mem_map.mp h
  unfold Context.declType at hid
  split at hid
  · split at hid
    · cases hid
      exact Ty.targeted_spell _ _
    · cases hid
  · cases hid

/-- The declarations of variables are those of the entries. -/
theorem Context.targeted_varSpecs {p : LabelScope} {specs : List Spec}
    (h : ∀ spec ∈ eraseSpecs specs, (Node.spec spec).Targeted p) (q : LabelScope) :
    flowsTargeted q (ctx.varSpecs specs).value := by
  induction specs with
  | nil => trivial
  | cons spec specs ih =>
      rw [eraseSpecs, List.forall_mem_cons] at h
      cases spec with
      | value names ty values =>
          obtain ⟨hty, hvalues⟩ := Node.targeted_value.mp h.1
          rw [value_varSpecs]
          refine ⟨⟨fun _ => VarDecl.targeted_sharedType fun ty' hty' => ?_, hvalues⟩, ih h.2⟩
          cases ty with
          | missing => exact ctx.targeted_declTypes names ty' hty'
          | mk site form =>
              cases names with
              | nil => cases hty'
              | cons name names =>
                  obtain hfirst | hshared := List.mem_cons.mp hty'
                  · cases hfirst
                    exact hty
                  · simp at hshared
      | _ => exact ih h.2

end Operands

/-- Whether the parts of a header, and what follows an else, are statements that the language has
there. -/
def StmtForm.Parsed : StmtForm → Prop
  | .ite init _ _ other => init.isSimple = true ∧ other.isElse = true
  | .switch init _ _ => init.isSimple = true
  | .loop init _ post _ => init.isSimple = true ∧ post.isSimple = true
  | _ => True

section Targets

variable {ctx : Context} {p q : LabelScope}

/-- What a first part is moved out of stands in a block. -/
theorem targeted_aroundInit {written : Bool} {fs : List Flow} {s : Flow}
    (hinit : ∀ p, flowsTargeted p fs) :
    (aroundInit written fs s).Targeted p ↔ s.Targeted (if written then p.inside else p) := by
  cases written with
  | false => rfl
  | true => simp [aroundInit, Flow.Targeted, flowsTargeted_append, flowsTargeted, hinit]

/-- A statement of a header shapes no control flow. -/
theorem Stmt.targeted_simple (ctx : Context) {s : Stmt} (hsimple : s.isSimple = true)
    (hrule : (Node.stmt s.erase).Targeted q) (p : LabelScope) :
    flowsTargeted p (s.convert ctx).value := by
  cases s with
  | missing => trivial
  | mk pos form =>
      cases form with
      | empty | send | incDec => exact ⟨hrule.of_isPlain rfl p, trivial⟩
      | expr x =>
          rw [Stmt.convert, value_convert_expr]
          cases hm : x.mark? with
          | none => exact ⟨hrule.of_isPlain rfl p, trivial⟩
          | some m =>
              exact ⟨Expr.targeted_mark hm (Node.targeted_exprStmt.mp hrule), trivial⟩
      | assign kind lhs rhs =>
          cases kind with
          | define =>
              exact ⟨⟨fun h => Bool.noConfusion h, (Node.targeted_assign.mp hrule).2⟩, trivial⟩
          | _ => exact ⟨hrule.of_isPlain rfl p, trivial⟩
      | _ => cases hsimple

theorem value_convert_labeled (pos : Pos) (label : Ident) (stmt : Stmt) :
    ((StmtForm.labeled label stmt).convert ctx pos).value =
      [.labeled label.name (asOne (stmt.convert ctx).value)] := by
  simp only [StmtForm.convert, Noted.value_bind, Noted.value_pure, asOne]
  cases (stmt.convert ctx).value with
  | nil => rfl
  | cons f fs => cases fs <;> rfl

theorem Stmt.isPlain_erase {s : Stmt} (hsimple : s.isSimple = true) :
    (Node.stmt s.erase).isPlain = true := by
  cases s with
  | missing => rfl
  | mk pos form =>
      cases form with
      | empty | expr | send | incDec | assign => rfl
      | _ => cases hsimple

theorem StmtForm.isMissing_erase (form : StmtForm) : form.erase.isMissing = false := by
  cases form <;> rfl

/-- The first part of a loop header. -/
theorem Stmt.targeted_start (ctx : Context) {s : Stmt} (hsimple : s.isSimple = true)
    (hrule : (Node.stmt s.erase).Targeted q) (p : LabelScope) :
    (match (s.convert ctx).value with
      | [f] => f
      | _ => .missing).Targeted p := by
  have htargeted := Stmt.targeted_simple ctx hsimple hrule p
  split
  · rename_i f hf
    rw [hf] at htargeted
    exact htargeted.1
  · trivial

/-- The last part of a loop header. -/
theorem Stmt.targeted_next {s : Stmt} (hsimple : s.isSimple = true)
    (hrule : (Node.stmt s.erase).Targeted q) (p : LabelScope) :
    (if s.isWritten then Flow.simple s.erase else .missing).Targeted p := by
  split
  · exact hrule.of_isPlain (Stmt.isPlain_erase hsimple) p
  · trivial

/-- The else part of a conditional is one statement, if it is written. -/
theorem Stmt.targeted_headD {s : Stmt} (helse : s.isElse = true) :
    ((s.convert ctx).value.headD .missing).Targeted p ↔
      (asOne (s.convert ctx).value).Targeted p := by
  cases s with
  | missing => exact iff_of_true trivial trivial
  | mk pos form =>
      cases form with
      | block | ite => rfl
      | _ => cases helse

section Forms

variable {pos : Pos} {init post other : Stmt} {body : List Stmt} {clauses : List Clause}
  {cond tag : Expr}

theorem ret_targeted {results : List Expr} (h : ∀ x ∈ eraseExprs results, x.Targeted) :
    (asOne ((StmtForm.ret results).convert ctx pos).value).Targeted p := by
  match results with
  | [] => trivial
  | _ :: _ :: _ => trivial
  | [x] =>
      rw [value_convert_ret]
      cases hm : x.mark? with
      | none => cases x.isNil <;> trivial
      | some m => exact Expr.targeted_mark hm (h _ (.head _))

theorem branch_targeted_iff {kind : BranchKind} {label : Option Ident} :
    (asOne ((StmtForm.branch kind label).convert ctx pos).value).Targeted p.kept ↔
      (Node.stmt (StmtForm.branch kind label).erase).Targeted p := by
  refine .trans ?_ Node.targeted_branch.symm
  cases kind with
  | brk | cont =>
      cases label with
      | none => exact iff_of_true (.inl rfl) trivial
      | some id => rfl
  | _ => exact iff_of_true trivial trivial

theorem ite_targeted_iff (hform : (StmtForm.ite init cond body other).Parsed)
    (hrule : (Node.stmt (StmtForm.ite init cond body other).erase).Targeted q)
    (hbody : flowsTargeted p.inside.kept (convertStmts ctx body).value ↔
      ∀ s ∈ eraseStmts body, (Node.stmt s).Targeted p.inside)
    (hother : (asOne (other.convert ctx).value).Targeted p.inside.kept ↔
      (Node.stmt other.erase).Targeted p.inside) :
    (asOne ((StmtForm.ite init cond body other).convert ctx pos).value).Targeted p.kept ↔
      (Node.stmt (StmtForm.ite init cond body other).erase).Targeted p := by
  obtain ⟨hinit, -⟩ := Node.targeted_ite.mp hrule
  obtain ⟨hsimple, helse⟩ := hform
  rw [← Stmt.targeted_headD helse] at hother
  have hplace : (if init.isWritten then p.kept.inside else p.kept).inside = p.inside.kept := by
    split <;> rfl
  refine (targeted_aroundInit (Stmt.targeted_simple ctx hsimple hinit)).trans ?_
  rw [StmtForm.erase, Node.targeted_ite, Flow.Targeted, hplace, hbody, hother]
  simp [hinit.of_isPlain (Stmt.isPlain_erase hsimple) p.inside]

/-- The clauses of a switch keep their place when its first part moves out of the header. -/
theorem kept_within_switch (hmoves : p.moves = true) :
    (if init.isWritten then p.kept.inside else p.kept).inCases =
      ((StmtForm.switch init tag clauses).erase.within p).kept := by
  cases init with
  | missing => simp [StmtForm.erase, Stmt.erase, YieldMachine.Stmt.within, Stmt.isWritten,
      YieldMachine.Stmt.isMissing]
  | mk pos form => simp [StmtForm.erase, Stmt.erase, YieldMachine.Stmt.within, hmoves,
      Stmt.isWritten, form.isMissing_erase]

theorem moves_within_switch (hmoves : p.moves = true) :
    ((StmtForm.switch init tag clauses).erase.within p).moves = true := by
  simp only [StmtForm.erase, YieldMachine.Stmt.within]
  split <;> exact hmoves

theorem switch_targeted_iff (hmoves : p.moves = true)
    (hform : (StmtForm.switch init tag clauses).Parsed)
    (hrule : (Node.stmt (StmtForm.switch init tag clauses).erase).Targeted q)
    (hclauses : casesTargeted ((StmtForm.switch init tag clauses).erase.within p).kept
        (convertClauses ctx clauses).value ↔
      ∀ c ∈ eraseClauses clauses,
        (Node.clause c).Targeted ((StmtForm.switch init tag clauses).erase.within p)) :
    (asOne ((StmtForm.switch init tag clauses).convert ctx pos).value).Targeted p.kept ↔
      (Node.stmt (StmtForm.switch init tag clauses).erase).Targeted p := by
  obtain ⟨hinit, -⟩ := Node.targeted_switch.mp hrule
  refine (targeted_aroundInit (Stmt.targeted_simple ctx hform hinit)).trans ?_
  rw [StmtForm.erase, Node.targeted_switch, Flow.Targeted, kept_within_switch hmoves, hclauses]
  simp [hinit.of_isPlain (Stmt.isPlain_erase hform), StmtForm.erase]

theorem loop_targeted_iff (hform : (StmtForm.loop init cond post body).Parsed)
    (hrule : (Node.stmt (StmtForm.loop init cond post body).erase).Targeted q)
    (hbody : flowsTargeted p.inLoop.kept (convertStmts ctx body).value ↔
      ∀ s ∈ eraseStmts body, (Node.stmt s).Targeted p.inLoop) :
    (asOne ((StmtForm.loop init cond post body).convert ctx pos).value).Targeted p.kept ↔
      (Node.stmt (StmtForm.loop init cond post body).erase).Targeted p := by
  obtain ⟨hinit, -, hpost, -⟩ := Node.targeted_loop.mp hrule
  obtain ⟨hsimpleInit, hsimplePost⟩ := hform
  rw [StmtForm.erase, Node.targeted_loop,
    and_iff_right (hinit.of_isPlain (Stmt.isPlain_erase hsimpleInit) _),
    and_iff_right (hpost.of_isPlain (Stmt.isPlain_erase hsimplePost) _), ← hbody]
  simp only [StmtForm.convert, Noted.value_bind]
  split
  · exact .rfl
  · have hstart := Stmt.targeted_start ctx hsimpleInit hinit p.inLoop.kept
    have hnext := Stmt.targeted_next hsimplePost hpost p.inLoop.kept
    exact (and_iff_right hstart).trans (and_congr_right' (and_iff_right hnext))

theorem range_targeted_iff {key value x : Expr} {kind : RangeKind}
    (h : ((StmtForm.range key value kind x body).convert ctx pos).problems = [])
    (hrule : (Node.stmt (StmtForm.range key value kind x body).erase).Targeted q)
    (hbody : flowsTargeted p.inLoop.kept (convertStmts ctx body).value ↔
      ∀ s ∈ eraseStmts body, (Node.stmt s).Targeted p.inLoop) :
    (asOne ((StmtForm.range key value kind x body).convert ctx pos).value).Targeted p.kept ↔
      (Node.stmt (StmtForm.range key value kind x body).erase).Targeted p := by
  obtain ⟨htargets, hx, -⟩ := Node.targeted_range.mp hrule
  obtain ⟨it, hit⟩ := exists_iteration_of_clean h
  have hheader : (⟨key.erase, value.erase, kind == .define, (ctx.spell it.key).value,
      (ctx.spell it.value).value, it.adapter⟩ : Walk).Targeted :=
    ⟨fun hkind => htargets (by simpa using hkind), ctx.targeted_iteration hit hx⟩
  rw [value_convert_range pos hit, StmtForm.erase, Node.targeted_range, and_iff_right htargets,
    and_iff_right hx, ← hbody]
  exact and_iff_right hheader

theorem decl_targeted {kind : DeclKind} {specs : List Spec}
    (hrule : (Node.stmt (StmtForm.decl kind specs).erase).Targeted q) :
    (asOne ((StmtForm.decl kind specs).convert ctx pos).value).Targeted p := by
  have hlift (hkind : kind ≠ .var) :
      (asOne ((StmtForm.decl kind specs).convert ctx pos).value).Targeted p := by
    rw [StmtForm.value_convert_decl hkind]
    split
    · trivial
    · exact hrule.of_isPlain rfl _
  cases kind with
  | var => exact targeted_asOne_of_forall (ctx.targeted_varSpecs (Node.targeted_decl.mp hrule))
  | _ => exact hlift (by decide)

end Forms

mutual

/-- What a statement becomes has targets for its branches when the statement has, where a switch
with a first part in its header is no target. -/
theorem Stmt.targeted_convert (s : Stmt) {p q : LabelScope} (hmoves : p.moves = true)
    (h : (s.convert ctx).problems = []) (hparsed : ∀ part ∈ s.parts false, part.form.Parsed)
    (hrule : (Node.stmt s.erase).Targeted q) :
    (asOne (s.convert ctx).value).Targeted p.kept ↔ (Node.stmt s.erase).Targeted p := by
  cases s with
  | missing => exact iff_of_true trivial Node.targeted_missing
  | mk pos form =>
      obtain ⟨hform, hparts⟩ := List.forall_mem_cons.mp hparsed
      exact form.targeted_convert pos hmoves h hform hparts hrule

theorem StmtForm.targeted_convert (form : StmtForm) (pos : Pos) {p q : LabelScope}
    (hmoves : p.moves = true) (h : (form.convert ctx pos).problems = []) (hform : form.Parsed)
    (hparts : ∀ part ∈ form.parts false, part.form.Parsed)
    (hrule : (Node.stmt form.erase).Targeted q) :
    (asOne (form.convert ctx pos).value).Targeted p.kept ↔ (Node.stmt form.erase).Targeted p := by
  cases form with
  | empty | send | incDec | go =>
      exact iff_of_true (hrule.of_isPlain rfl p.kept) (hrule.of_isPlain rfl p)
  | expr x =>
      have hsimple := Stmt.targeted_simple (s := .mk pos (.expr x)) ctx rfl hrule
      exact iff_of_true (targeted_asOne_of_forall hsimple) (hrule.of_isPlain rfl p)
  | assign kind lhs rhs =>
      have hsimple := Stmt.targeted_simple (s := .mk pos (.assign kind lhs rhs)) ctx rfl hrule
      exact iff_of_true (targeted_asOne_of_forall hsimple) (hrule.of_isPlain rfl p)
  | «defer» call => exact iff_of_true trivial (hrule.of_isPlain rfl p)
  | ret results =>
      exact iff_of_true (ret_targeted (Node.targeted_ret.mp hrule)) (hrule.of_isPlain rfl p)
  | branch kind label => exact branch_targeted_iff
  | block body =>
      refine .trans ?_ Node.targeted_block.symm
      exact targeted_convertStmts body (p := p.inside) hmoves rfl (problems_bind_eq_nil.mp h).1
        hparts (Node.targeted_block.mp hrule)
  | ite init cond body other =>
      obtain ⟨-, -, hbody, hother⟩ := Node.targeted_ite.mp hrule
      simp only [StmtForm.parts, List.forall_mem_append] at hparts
      simp only [StmtForm.convert, problems_bind_eq_nil] at h
      obtain ⟨-, hcleanBody, hcleanOther, -⟩ := h
      exact ite_targeted_iff hform hrule
        (targeted_convertStmts body hmoves rfl hcleanBody hparts.1 hbody)
        (other.targeted_convert hmoves hcleanOther hparts.2 hother)
  | switch init tag clauses =>
      obtain ⟨-, -, hclauses⟩ := Node.targeted_switch.mp hrule
      simp only [StmtForm.convert, problems_bind_eq_nil] at h
      exact switch_targeted_iff hmoves hform hrule
        (targeted_convertClauses clauses (moves_within_switch hmoves) h.2.1 hparts hclauses)
  | typeSwitch init guard clauses =>
      rw [StmtForm.convert, value_keepWhole]
      exact Node.targeted_kept_iff .rfl rfl
  | select clauses =>
      rw [StmtForm.convert, value_keepWhole]
      exact Node.targeted_kept_iff .rfl rfl
  | loop init cond post body =>
      obtain ⟨-, -, -, hbody⟩ := Node.targeted_loop.mp hrule
      simp only [StmtForm.convert, problems_bind_eq_nil] at h
      exact loop_targeted_iff hform hrule
        (targeted_convertStmts body hmoves rfl h.2.1 hparts hbody)
  | range key value kind x body =>
      obtain ⟨-, -, hbody⟩ := Node.targeted_range.mp hrule
      have hclean := h
      simp only [StmtForm.convert, problems_bind_eq_nil] at hclean
      exact range_targeted_iff h hrule
        (targeted_convertStmts body hmoves rfl hclean.2.1 hparts hbody)
  | labeled label stmt =>
      have hstmt := stmt.targeted_convert (p := p.after label.name) hmoves
        (problems_bind_eq_nil.mp h).1 hparts (Node.targeted_labeled.mp hrule)
      rw [value_convert_labeled]
      exact hstmt.trans Node.targeted_labeled.symm
  | decl kind specs => exact iff_of_true (decl_targeted hrule) (hrule.of_isPlain rfl p)

theorem targeted_convertStmts (ss : List Stmt) {p q : LabelScope} (hmoves : p.moves = true)
    (hlabel : p.label = none) (h : (convertStmts ctx ss).problems = [])
    (hparsed : ∀ part ∈ stmtsParts false ss, part.form.Parsed)
    (hrule : ∀ s ∈ eraseStmts ss, (Node.stmt s).Targeted q) :
    flowsTargeted p.kept (convertStmts ctx ss).value ↔
      ∀ s ∈ eraseStmts ss, (Node.stmt s).Targeted p := by
  cases ss with
  | nil => exact iff_of_true trivial nofun
  | cons s ss =>
      simp only [convertStmts, problems_bind_eq_nil] at h
      simp only [stmtsParts, List.forall_mem_append] at hparsed
      rw [eraseStmts, List.forall_mem_cons] at hrule ⊢
      have hs := s.targeted_convert hmoves h.1 hparsed.1 hrule.1
      have hss := targeted_convertStmts ss hmoves hlabel h.2.1 hparsed.2 hrule.2
      rw [← hs, ← hss, targeted_asOne (p := p.kept) hlabel, ← flowsTargeted_append]
      rfl

theorem targeted_convertClauses (cs : List Clause) {p q : LabelScope} (hmoves : p.moves = true)
    (h : (convertClauses ctx cs).problems = [])
    (hparsed : ∀ part ∈ clausesParts false cs, part.form.Parsed)
    (hrule : ∀ c ∈ eraseClauses cs, (Node.clause c).Targeted q) :
    casesTargeted p.kept (convertClauses ctx cs).value ↔
      ∀ c ∈ eraseClauses cs, (Node.clause c).Targeted p := by
  cases cs with
  | nil => exact iff_of_true trivial nofun
  | cons c cs =>
      simp only [convertClauses, problems_bind_eq_nil] at h
      simp only [clausesParts, List.forall_mem_append] at hparsed
      rw [eraseClauses, List.forall_mem_cons] at hrule ⊢
      rw [← c.targeted_convert hmoves h.1 hparsed.1 hrule.1,
        ← targeted_convertClauses cs hmoves h.2.1 hparsed.2 hrule.2]
      rfl

theorem Clause.targeted_convert (c : Clause) {p q : LabelScope} (hmoves : p.moves = true)
    (h : (c.convert ctx).problems = []) (hparsed : ∀ part ∈ c.parts false, part.form.Parsed)
    (hrule : (Node.clause c.erase).Targeted q) :
    (c.convert ctx).value.Targeted p.kept ↔ (Node.clause c.erase).Targeted p := by
  rw [Node.targeted_clause] at hrule ⊢
  cases c with
  | case values body =>
      simp only [Clause.convert, problems_bind_eq_nil] at h
      exact and_congr_right'
        (targeted_convertArm body (p := p.inside) hmoves rfl h.2.1 hparsed hrule.2)
  | default body =>
      refine .trans ?_ (and_iff_right nofun).symm
      exact targeted_convertArm body (p := p.inside) hmoves rfl (problems_bind_eq_nil.mp h).1
        hparsed hrule.2

theorem targeted_convertArm (ss : List Stmt) {p q : LabelScope} (hmoves : p.moves = true)
    (hlabel : p.label = none) (h : (convertArm ctx ss).problems = [])
    (hparsed : ∀ part ∈ stmtsParts false ss, part.form.Parsed)
    (hrule : ∀ s ∈ eraseStmts ss, (Node.stmt s).Targeted q) :
    flowsTargeted p.kept (convertArm ctx ss).value ↔
      ∀ s ∈ eraseStmts ss, (Node.stmt s).Targeted p := by
  cases ss with
  | nil => exact iff_of_true ⟨.inl rfl, trivial⟩ nofun
  | cons s ss =>
      obtain ⟨pos, label, rfl, rfl⟩ | hcons := convertArm_cons ctx s ss
      · refine iff_of_true trivial (List.forall_mem_singleton.mpr ?_)
        exact Node.targeted_branch.mpr trivial
      · simp only [hcons, problems_bind_eq_nil] at h
        simp only [stmtsParts, List.forall_mem_append] at hparsed
        rw [eraseStmts, List.forall_mem_cons] at hrule ⊢
        have hs := s.targeted_convert hmoves h.1 hparsed.1 hrule.1
        have hss := targeted_convertArm ss hmoves hlabel h.2.1 hparsed.2 hrule.2
        rw [← hs, ← hss, targeted_asOne (p := p.kept) hlabel, ← flowsTargeted_append, hcons]
        rfl

end

end Targets

section Trees

variable (ctx : Context) {fs gs : List Flow}

/-- Whether all parts of some statements are written. -/
def AllWritten (fs : List Flow) : Prop := ∀ t ∈ flowsParts fs, t.Written

theorem AllWritten.nil : AllWritten [] := nofun

theorem AllWritten.append (hf : AllWritten fs) (hg : AllWritten gs) : AllWritten (fs ++ gs) := by
  induction fs with
  | nil => exact hg
  | cons f fs ih =>
      simp only [AllWritten, flowsParts, List.forall_mem_append, List.cons_append] at hf ⊢
      exact ⟨hf.1, ih hf.2⟩

theorem AllWritten.singleton {f : Flow} (h : ∀ t ∈ f.parts, t.Written) : AllWritten [f] := by
  simpa [AllWritten, flowsParts] using h

/-- A statement that consists of itself and the given parts. -/
theorem AllWritten.of_parts {f : Flow} (hparts : f.parts = f :: flowsParts fs) (hself : f.Written)
    (h : AllWritten fs) : AllWritten [f] := by
  refine .singleton ?_
  rw [hparts]
  exact List.forall_mem_cons.mpr ⟨hself, h⟩

theorem AllWritten.aroundInit {written : Bool} {f : Flow} (hinit : AllWritten fs)
    (h : AllWritten [f]) : AllWritten [aroundInit written fs f] := by
  cases written with
  | false => exact h
  | true => exact .of_parts rfl trivial (hinit.append h)

/-- A part of a statement that may be missing, and that comes from a list. -/
theorem AllWritten.optional {f : Flow} (h : f = .missing ∨ AllWritten [f]) :
    ∀ t ∈ if f.isMissing then [] else f.parts, t.Written := by
  obtain rfl | h := h
  · exact List.forall_mem_nil _
  · split
    · exact List.forall_mem_nil _
    · simpa [AllWritten, flowsParts] using h

theorem AllWritten.asOne (h : AllWritten fs) : AllWritten [asOne fs] := by
  match fs with
  | [] => exact .of_parts rfl trivial h
  | [_] => exact h
  | _ :: _ :: _ => exact .of_parts rfl trivial h

theorem AllWritten.headD (h : AllWritten fs) :
    fs.headD .missing = .missing ∨ AllWritten [fs.headD .missing] := by
  cases fs with
  | nil => exact .inl rfl
  | cons f fs =>
      simp only [AllWritten, flowsParts, List.forall_mem_append] at h
      exact .inr (.singleton h.1)

theorem written_varSpecs (specs : List Spec) : AllWritten (ctx.varSpecs specs).value := by
  induction specs with
  | nil => exact .nil
  | cons spec specs ih =>
      cases spec with
      | value names ty values =>
          rw [value_varSpecs]
          exact (AllWritten.singleton (List.forall_mem_singleton.mpr trivial)).append ih
      | _ => exact ih

theorem AllWritten.leaf {f : Flow} (hparts : f.parts = [f]) (hself : f.Written) :
    AllWritten [f] :=
  @AllWritten.of_parts [] f hparts hself .nil

theorem written_ret (pos : Pos) (results : List Expr) :
    AllWritten ((StmtForm.ret results).convert ctx pos).value := by
  match results with
  | [] => exact .nil
  | _ :: _ :: _ => exact .nil
  | [x] =>
      rw [value_convert_ret]
      cases x.mark? with
      | none =>
          cases x.isNil with
          | true => exact .leaf rfl trivial
          | false => exact .nil
      | some m => exact .leaf rfl trivial

theorem written_loop (pos : Pos) {init post : Stmt} (cond : Expr) {body : List Stmt}
    (hinit : AllWritten (init.convert ctx).value)
    (hbody : AllWritten (convertStmts ctx body).value) :
    AllWritten ((StmtForm.loop init cond post body).convert ctx pos).value := by
  simp only [StmtForm.convert, Noted.value_bind]
  split
  · exact .of_parts rfl trivial hbody
  · refine .singleton ?_
    simp only [Flow.parts, List.forall_mem_cons, List.forall_mem_append]
    refine ⟨trivial, ⟨AllWritten.optional ?_, AllWritten.optional ?_⟩, hbody⟩
    · split
      · rename_i hf
        rw [hf] at hinit
        exact .inr hinit
      · exact .inl rfl
    · cases post with
      | missing => exact .inl rfl
      | mk pos form => exact .inr (.leaf rfl form.isMissing_erase)

theorem written_decl (pos : Pos) (kind : DeclKind) (specs : List Spec) :
    AllWritten ((StmtForm.decl kind specs).convert ctx pos).value := by
  have hlift (hkind : kind ≠ .var) :
      AllWritten ((StmtForm.decl kind specs).convert ctx pos).value := by
    rw [StmtForm.value_convert_decl hkind]
    split
    · exact .nil
    · exact .leaf rfl trivial
  cases kind with
  | var => exact written_varSpecs ctx specs
  | _ => exact hlift (by decide)

mutual

/-- Nothing is missing in what a statement becomes. -/
theorem Stmt.written_convert (s : Stmt) : AllWritten (s.convert ctx).value := by
  cases s with
  | missing => exact .nil
  | mk pos form => exact form.written_convert pos

theorem StmtForm.written_convert (form : StmtForm) (pos : Pos) :
    AllWritten (form.convert ctx pos).value := by
  have hkept : AllWritten [.simple form.erase] :=
    .leaf rfl form.isMissing_erase
  cases form with
  | empty | send | incDec | go => exact hkept
  | expr x =>
      rw [value_convert_expr]
      cases x.mark? with
      | none => exact hkept
      | some m => exact .leaf rfl trivial
  | assign kind lhs rhs =>
      cases kind with
      | define => exact .leaf rfl trivial
      | _ => exact hkept
  | «defer» call => exact .nil
  | ret results => exact written_ret ctx pos results
  | branch kind label =>
      cases kind with
      | brk | cont => exact .leaf rfl trivial
      | _ => exact .nil
  | block body => exact .of_parts rfl trivial (written_convertStmts body)
  | ite init cond body other =>
      have hother := AllWritten.optional other.written_convert.headD
      refine .aroundInit init.written_convert (.singleton ?_)
      simp only [Flow.parts, List.forall_mem_cons, List.forall_mem_append]
      exact ⟨trivial, written_convertStmts body, hother⟩
  | switch init tag clauses =>
      refine .aroundInit init.written_convert (.singleton ?_)
      exact List.forall_mem_cons.mpr ⟨trivial, written_convertClauses clauses⟩
  | typeSwitch init guard clauses =>
      rw [StmtForm.convert, value_keepWhole]
      exact hkept
  | select clauses =>
      rw [StmtForm.convert, value_keepWhole]
      exact hkept
  | loop init cond post body =>
      exact written_loop ctx pos cond init.written_convert (written_convertStmts body)
  | range key value kind x body =>
      have hbody := written_convertStmts body
      simp only [StmtForm.convert, Noted.value_bind]
      split
      · exact .of_parts rfl trivial hbody
      · exact .of_parts rfl trivial hbody
  | labeled label stmt =>
      have hstmt := stmt.written_convert.asOne
      rw [value_convert_labeled]
      simp only [AllWritten, flowsParts, Flow.parts, List.forall_mem_append, List.forall_mem_cons]
        at hstmt ⊢
      exact ⟨⟨trivial, hstmt.1⟩, nofun⟩
  | decl kind specs => exact written_decl ctx pos kind specs

theorem written_convertStmts (ss : List Stmt) : AllWritten (convertStmts ctx ss).value := by
  cases ss with
  | nil => exact .nil
  | cons s ss => exact s.written_convert.append (written_convertStmts ss)

theorem written_convertClauses (cs : List Clause) :
    ∀ t ∈ casesParts (convertClauses ctx cs).value, t.Written := by
  cases cs with
  | nil => nofun
  | cons c cs =>
      exact List.forall_mem_append.mpr ⟨c.written_convert, written_convertClauses cs⟩

theorem Clause.written_convert (c : Clause) : ∀ t ∈ (c.convert ctx).value.parts, t.Written := by
  cases c with
  | case values body => exact written_convertArm body
  | default body => exact written_convertArm body

theorem written_convertArm (ss : List Stmt) : AllWritten (convertArm ctx ss).value := by
  cases ss with
  | nil => exact .leaf rfl trivial
  | cons s ss =>
      obtain ⟨pos, label, rfl, rfl⟩ | hcons := convertArm_cons ctx s ss
      · exact .nil
      · rw [hcons]
        exact s.written_convert.append (written_convertArm ss)

end

end Trees

/-- A statement that is accepted, and in which every labelled branch has a target, becomes
statements that have trees.  In the trees every labelled branch has a target too exactly when none
needs a label right before a switch whose header has a first part: the switch moves into a block,
and the label stays before the block. -/
theorem Stmt.convert_targeted_iff {ctx : Context} (s : Stmt)
    (h : (s.convert ctx).problems = []) (hparsed : ∀ part ∈ s.parts false, part.form.Parsed)
    (hrule : (Node.stmt s.erase).Targeted .outside) :
    ∃ stmts, toStmts? (s.convert ctx).value = some stmts ∧
      ((∀ stmt ∈ stmts, (Node.stmt stmt).Targeted .outside) ↔
        (Node.stmt s.erase).Targeted .moving) := by
  obtain ⟨stmts, hstmts⟩ := exists_toStmts _ (s.written_convert ctx)
  refine ⟨stmts, hstmts, ?_⟩
  rw [targeted_toStmts _ .outside hstmts, ← targeted_asOne rfl]
  exact s.targeted_convert (p := .moving) rfl h hparsed hrule

/-- The label `search`. -/
def searchLabel : Ident := ⟨"search", ⟨6, 2⟩, none⟩

/-- The variable `x` where it is declared. -/
def declaredX : Expr :=
  untyped (.ident ⟨"x", ⟨6, 17⟩, some ⟨0, true, "x", "example.com/sample", some (.basic "int")⟩⟩)

/-- The variable `x` where it is used. -/
def usedX : Expr :=
  untyped (.ident ⟨"x", ⟨6, 25⟩, some ⟨0, false, "x", "example.com/sample", some (.basic "int")⟩⟩)

/-- The statement `break search`. -/
def breakSearch : Stmt := .mk ⟨8, 4⟩ (.branch .brk (some searchLabel))

/-- The statement `search: for { switch x { case 1: break search } }`. -/
def searchingLoop : Stmt :=
  .mk ⟨6, 2⟩ (.labeled searchLabel (.mk ⟨6, 10⟩ (.loop .missing .missing .missing
    [.mk ⟨7, 3⟩ (.switch .missing usedX [.case [untyped (.lit .int "1")] [breakSearch]])])))

theorem searchingLoop_keeps_label :
    (searchingLoop.convert sampleContext).problems = [] ∧
      ∃ stmts, toStmts? (searchingLoop.convert sampleContext).value = some stmts ∧
        ∀ stmt ∈ stmts, (Node.stmt stmt).Targeted .outside := by
  have hclean : (searchingLoop.convert sampleContext).problems = [] := by decide
  have hparsed : ∀ part ∈ searchingLoop.parts false, part.form.Parsed := by
    simp [searchingLoop, breakSearch, Stmt.parts, StmtForm.parts, stmtsParts, clausesParts,
      Clause.parts, StmtForm.Parsed, Stmt.isSimple]
  have htree : searchingLoop.erase =
      .labeled "search" (.loop .missing .missing .missing [.switch .missing (.name "x")
        [.case [.lit .int "1"] [.branch .brk (some "search")]]]) := rfl
  have htargeted : ∀ p, (Node.stmt searchingLoop.erase).Targeted p := by
    intro p
    rw [htree]
    simp [YieldMachine.Clause.values, YieldMachine.Clause.body, Stmt.NamesTarget,
      YieldMachine.Stmt.within, YieldMachine.Stmt.isMissing]
  obtain ⟨stmts, hstmts, hiff⟩ :=
    searchingLoop.convert_targeted_iff hclean hparsed (htargeted .outside)
  exact ⟨hclean, stmts, hstmts, hiff.mpr (htargeted .moving)⟩

/-- The statement `search: switch x := 1; x { case 1: for { break search } }`. -/
def searchingSwitch : Stmt :=
  .mk ⟨6, 2⟩ (.labeled searchLabel (.mk ⟨6, 10⟩ (.switch
    (.mk ⟨6, 17⟩ (.assign .define [declaredX] [untyped (.lit .int "1")])) usedX
    [.case [untyped (.lit .int "1")]
      [.mk ⟨8, 4⟩ (.loop .missing .missing .missing [breakSearch])]])))

/-- A switch with a first part loses its label to the block around it. -/
theorem searchingSwitch_loses_label :
    (searchingSwitch.convert sampleContext).problems = [] ∧
      (Node.stmt searchingSwitch.erase).Targeted .outside ∧
      ∃ stmts, toStmts? (searchingSwitch.convert sampleContext).value = some stmts ∧
        ¬ ∀ stmt ∈ stmts, (Node.stmt stmt).Targeted .outside := by
  have htree : searchingSwitch.erase =
      .labeled "search" (.switch (.assign .define [.name "x"] [.lit .int "1"]) (.name "x")
        [.case [.lit .int "1"]
          [.loop .missing .missing .missing [.branch .brk (some "search")]]]) := rfl
  have hstmts : toStmts? (searchingSwitch.convert sampleContext).value =
      some [.labeled "search" (.block [.assign .define [.name "x"] [.lit .int "1"],
        .switch .missing (.name "x") [.case [.lit .int "1"]
          [.loop .missing .missing .missing [.branch .brk (some "search")]]]])] := rfl
  refine ⟨by decide, ?_, _, hstmts, ?_⟩
  · rw [htree]
    simp [YieldMachine.Clause.values, YieldMachine.Clause.body, Stmt.NamesTarget,
      YieldMachine.Stmt.within, LabelScope.outside]
  · simp [YieldMachine.Clause.values, YieldMachine.Clause.body, Stmt.NamesTarget,
      YieldMachine.Stmt.within, LabelScope.outside]

end Source

end YieldMachine
