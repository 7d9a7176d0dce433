import YieldMachine.Proofs.Interp.Sync

/-!
# Evaluating renamed expressions

The expressions of a table name fields where those of the body name variables.  In linked
memories, a plain expression has the same value before and after renaming.
-/

namespace YieldMachine

-- Nearly every proof below makes one step of renaming and one of evaluation.
attribute [local simp] Expr.rename Expr.eval

/-- Whether bindings send every name to where its variable is kept: a variable that a
field holds to this field, and any other name to itself. -/
structure Resolves (g : Ground) (shape : Nesting) (c : Visible) (r : Renames) : Prop where
  plain : ∀ x t, r.find? x = some t → t.field = false → t.name = x
  field : ∀ x t, r.find? x = some t → t.field = true →
    x ∈ c.vars ∧ x ∉ reservedNames ∧ x ≠ "_" ∧ ¬ shape.Binds x ∧
      g.layout.field? x = some t.name
  stored : ∀ x f, g.layout.field? x = some f → ¬ shape.Binds x → r.find? x = some ⟨f, true⟩
  blank : g.layout.field? "_" = none

namespace Resolves

variable {g : Ground} {shape : Nesting} {c : Visible} {r : Renames}

/-- What a name becomes. -/
theorem apply_cases (h : Resolves g shape c r) (x : String) :
    (∃ f, r.apply receiverName x = fieldExpr f ∧ g.layout.field? x = some f ∧
      ¬ shape.Binds x ∧ x ∈ c.vars ∧ x ∉ reservedNames ∧ x ≠ "_") ∨
    (r.apply receiverName x = .name x ∧ (shape.Binds x ∨ g.layout.field? x = none)) := by
  unfold Renames.apply
  cases hx : r.find? x with
  | none =>
      right
      refine ⟨rfl, ?_⟩
      by_cases hb : shape.Binds x
      · exact .inl hb
      · right
        cases hf : g.layout.field? x with
        | none => rfl
        | some f =>
            rw [h.stored x f hf hb] at hx
            cases hx
  | some t =>
      obtain ⟨name, field⟩ := t
      cases field with
      | true =>
          obtain ⟨hvar, hres, hblank, hb, hf⟩ := h.field x _ hx rfl
          exact .inl ⟨name, rfl, hf, hb, hvar, hres, hblank⟩
      | false =>
          obtain rfl : name = x := h.plain x _ hx rfl
          refine .inr ⟨by simp, ?_⟩
          by_cases hb : shape.Binds name
          · exact .inl hb
          · right
            cases hf : g.layout.field? name with
            | none => rfl
            | some f =>
                rw [h.stored name f hf hb] at hx
                cases hx

/-- A name that is no variable stays. -/
theorem apply_of_not_mem (h : Resolves g shape c r) {x : String} (hx : x ∉ c.vars) :
    r.apply receiverName x = .name x := by
  rcases h.apply_cases x with ⟨f, -, -, -, hvar, -⟩ | ⟨hname, -⟩
  · exact absurd hvar hx
  · exact hname

/-- A reserved name stays. -/
theorem apply_of_reserved (h : Resolves g shape c r) {x : String} (hx : x ∈ reservedNames) :
    r.apply receiverName x = .name x := by
  rcases h.apply_cases x with ⟨f, -, -, -, -, hres, -⟩ | ⟨hname, -⟩
  · exact absurd hx hres
  · exact hname

theorem apply_blank (h : Resolves g shape c r) : r.apply receiverName "_" = .name "_" := by
  rcases h.apply_cases "_" with ⟨f, -, -, -, -, -, hblank⟩ | ⟨hname, -⟩
  · exact absurd rfl hblank
  · exact hname

end Resolves

theorem not_mem_constants_of_not_reserved {x : String} (h : x ∉ reservedNames) :
    x ≠ "true" ∧ x ≠ "false" ∧ x ≠ "nil" := by
  simp only [reservedNames, List.mem_append, List.mem_cons, not_or] at h
  exact ⟨h.1.1, h.1.2.1, h.1.2.2.1⟩

/-- The value of a name depends on the local variables of that name only. -/
theorem View.name_congr {v vt : View} {s : Session} {x : String} (h : vt.local? x = v.local? x) :
    vt.name s x = v.name s x := by
  unfold View.name
  split
  · rfl
  · rfl
  · rfl
  · rw [h]

/-- The value of a variable. -/
theorem View.name_of_local {v : View} {s : Session} {x : String} {value : Value}
    (hx : x ≠ "true" ∧ x ≠ "false" ∧ x ≠ "nil") (h : v.local? x = some value) :
    v.name s x = pure value := by
  obtain ⟨htrue, hfalse, hnil⟩ := hx
  unfold View.name
  split
  · exact absurd rfl htrue
  · exact absurd rfl hfalse
  · exact absurd rfl hnil
  · rw [h]

/-- The value of a field. -/
theorem eval_fieldExpr {s : Session} {v : View} {f : String} {value : Value}
    (hs : s.recv = receiverName) (h : v.fields.lookup f = some value) :
    (fieldExpr f).eval s v = pure value := by
  simp [fieldExpr, View.field, View.fieldName, Expr.isName, Expr.name?, Expr.name,
    hs, h]

section Evaluation

variable {g : Ground} {shape : Nesting} {c : Visible} {r : Renames} {s : Session} {m mt : Memory}

/-- A name that stays has the same value. -/
theorem Linked.name_eq (h : Linked g shape m mt) {x : String} (hx : x ∉ unreadNames)
    (hkept : shape.Binds x ∨ g.layout.field? x = none) :
    mt.view.name s x = m.view.name s x := by
  apply View.name_congr
  show findLocal mt.frames x = findLocal m.frames x
  by_cases hb : shape.Binds x
  · exact h.frames.findLocal_of_binds hx hb
  · obtain ⟨hnone, hfield⟩ := h.frames.findLocal_of_not_binds hx hb
    rcases hkept with hb' | hf
    · exact absurd hb' hb
    · rw [hnone, hfield, hf]
      rfl

/-- A variable in a field has the value of the field. -/
theorem Linked.field_eq (h : Linked g shape m mt) {x f : String} (hx : x ∉ unreadNames)
    (hb : ¬ shape.Binds x) (hf : g.layout.field? x = some f) :
    ∃ value, mt.fields.lookup f = some value ∧ findLocal m.frames x = some value := by
  obtain ⟨-, hfield⟩ := h.frames.findLocal_of_not_binds hx hb
  rw [hf] at hfield
  have hset : (mt.fields.lookup f).isSome = true := by
    have hover := h.frames
    clear h hfield
    generalize m.frames = frames at hover
    generalize mt.frames = locals at hover
    induction shape generalizing frames locals with
    | nil =>
        obtain ⟨-, hstored⟩ := hover
        exact hstored.present_of_taken (Layout.mem_fields_of_field? hf)
    | cons l shape ih =>
        obtain ⟨rows, rest, frame, others, -, -, -, hover⟩ := hover
        exact ih (fun ⟨l', hl', hmem⟩ => hb ⟨l', .tail _ hl', hmem⟩) rest others hover
  obtain ⟨value, hvalue⟩ := Option.isSome_iff_exists.mp hset
  exact ⟨value, hvalue, by rw [hfield]; exact hvalue⟩

/-- A name and what it becomes have the same value. -/
theorem Linked.eval_apply (h : Linked g shape m mt) (hr : Resolves g shape c r)
    (hs : s.recv = receiverName) {x : String} (hx : x ∉ unreadNames) :
    (r.apply receiverName x).eval s mt.view = m.view.name s x := by
  rcases hr.apply_cases x with ⟨f, happly, hf, hb, -, hres, -⟩ | ⟨happly, hkept⟩
  · obtain ⟨value, hfield, hlocal⟩ := h.field_eq hx hb hf
    rw [happly, eval_fieldExpr hs hfield]
    have hview : m.view.local? x = some value := hlocal
    exact (View.name_of_local (not_mem_constants_of_not_reserved hres) hview).symm
  · rw [happly]
    exact h.name_eq hx hkept

/-- A name that is no variable has the same value. -/
theorem Linked.name_eq_of_not_mem (h : Linked g shape m mt) (hr : Resolves g shape c r)
    {x : String} (hx : x ∉ unreadNames) (hvar : x ∉ c.vars) :
    mt.view.name s x = m.view.name s x := by
  rcases hr.apply_cases x with ⟨f, -, -, -, hmem, -⟩ | ⟨-, hkept⟩
  · exact absurd hmem hvar
  · exact h.name_eq hx hkept

end Evaluation

/-- Renaming makes only names out of names. -/
theorem name?_rename_of_none {r : Renames} {e : Expr} (h : e.name? = none) :
    (e.rename receiverName r).name? = none := by
  cases e with
  | ident x kept => simp [Expr.name?] at h
  | func signature body =>
      cases signature
      simp [Expr.name?]
  | _ => simp [Expr.name?]

/-- Renaming makes no expression the name `x`, unless it is this name already. -/
theorem isName_rename {g : Ground} {shape : Nesting} {c : Visible} {r : Renames}
    (hr : Resolves g shape c r) {x : String} (e : Expr) (h : e.isName x = false) :
    (e.rename receiverName r).isName x = false := by
  cases e with
  | ident y kept =>
      cases kept with
      | true => exact h
      | false =>
          simp only [Expr.rename]
          rcases hr.apply_cases y with ⟨f, happly, -⟩ | ⟨happly, -⟩
          · rw [happly]
            rfl
          · rw [happly]
            exact h
  | _ =>
      unfold Expr.isName
      rw [name?_rename_of_none rfl]
      rfl

/-- A name that is no variable is kept. -/
theorem isName_rename_of_not_mem {g : Ground} {shape : Nesting} {c : Visible} {r : Renames}
    (hr : Resolves g shape c r) {x : String} (hx : x ∉ c.vars) (e : Expr)
    (h : e.isName x = true) : (e.rename receiverName r) = e := by
  cases e with
  | ident y kept =>
      obtain rfl : y = x := by simpa [Expr.isName, Expr.name?] using h
      cases kept with
      | true => rfl
      | false =>
          simp only [Expr.rename]
          exact hr.apply_of_not_mem hx
  | _ => simp [Expr.isName, Expr.name?] at h

/-- The zero value of a type does not depend on renaming. -/
theorem zeroValue_rename {g : Ground} {shape : Nesting} {c : Visible} {r : Renames}
    (hr : Resolves g shape c r) {ty : Expr} (h : ty.TypeClear c) :
    zeroValue (ty.rename receiverName r) = zeroValue ty := by
  cases ty with
  | ident x kept =>
      cases kept with
      | true => rfl
      | false =>
          simp only [Expr.rename]
          rw [hr.apply_of_not_mem (h x rfl)]
          rfl
  | _ =>
      unfold zeroValue
      rw [name?_rename_of_none rfl]
      rfl

/-- The names of functions that the evaluator knows by themselves. -/
theorem eval_call_ident {s : Session} {v : View} {f : String} {kept : Bool} {args : List Expr}
    {spread : Bool} (hlen : f ≠ "len") (happend : f ≠ "append") :
    (Expr.call (.ident f kept) args spread).eval s v = (do
      match ← v.name s f with
      | .host fn => callHost s fn (← evalAll s v args)
      | _ => throw (.badCall (Expr.ident f kept).kind)) := by
  rw [Expr.eval]
  all_goals trivial

/-- A call of a name depends on what the name stands for and on the arguments. -/
theorem eval_callName_congr {s : Session} {v v' : View} {f : String} {args args' : List Expr}
    (kept spread : Bool) (hname : v'.name s f = v.name s f)
    (hargs : evalAll s v' args' = evalAll s v args)
    (hhead : evalHead s v' args' = evalHead s v args) :
    (Expr.call (.ident f kept) args' spread).eval s v' =
      (Expr.call (.ident f kept) args spread).eval s v := by
  by_cases hlen : f = "len"
  · subst hlen
    simp only [Expr.eval]
    rw [hhead, hname, hargs]
  by_cases happend : f = "append"
  · subst happend
    simp only [Expr.eval]
    rw [hargs]
  · rw [eval_call_ident hlen happend, eval_call_ident hlen happend, hname, hargs]

/-- Whether the expression allocates a zero value. -/
def Expr.isNew : Expr → Bool
  | .call (.ident f _) _ _ => f == "new"
  | _ => false

theorem Expr.isNew_eq_true {x : Expr} :
    x.isNew = true ↔ ∃ kept args spread, x = .call (.ident "new" kept) args spread := by
  constructor
  · intro h
    unfold isNew at h
    split at h
    · rename_i f kept args spread
      obtain rfl : f = "new" := by simpa using h
      exact ⟨kept, args, spread, rfl⟩
    · cases h
  · rintro ⟨kept, args, spread, rfl⟩
    rfl

theorem eval_star_of_not_new {s : Session} {v : View} {x : Expr} (h : x.isNew = false) :
    (Expr.star x).eval s v = throw (.badExpr "*ast.StarExpr") := by
  rw [Expr.eval]
  · rfl
  all_goals try simp only [reduceCtorEq, imp_false, not_false_eq_true, implies_true]
  rintro kept args spread hx
  rw [Expr.star.inj hx] at h
  simp [Expr.isNew] at h

section Evaluation

variable {g : Ground} {shape : Nesting} {c : Visible} {r : Renames} {s : Session} {m mt : Memory}

theorem isNew_rename (hr : Resolves g shape c r) {x : Expr} (h : x.isNew = false) :
    (x.rename receiverName r).isNew = false := by
  cases x with
  | ident x kept =>
      cases kept with
      | true => rfl
      | false =>
          simp only [Expr.rename]
          rcases hr.apply_cases x with ⟨f, happly, -⟩ | ⟨happly, -⟩ <;> rw [happly] <;> rfl
  | func signature body =>
      cases signature
      rfl
  | call fn args spread =>
      cases fn with
      | ident f kept =>
          cases kept with
          | true => exact h
          | false =>
              simp only [Expr.rename]
              rcases hr.apply_cases f with ⟨f, happly, -⟩ | ⟨happly, -⟩
              · rw [happly]
                rfl
              · rw [happly]
                exact h
      | func signature body =>
          cases signature
          rfl
      | _ => rfl
  | _ => rfl

theorem Linked.eval_rename_star (hr : Resolves g shape c r) (x : Expr)
    (h : (Expr.star x).Clear c) :
    ((Expr.star x).rename receiverName r).eval s mt.view = (Expr.star x).eval s m.view := by
  cases hnew : x.isNew with
  | false =>
      simp only [Expr.rename]
      rw [eval_star_of_not_new hnew, eval_star_of_not_new (isNew_rename hr hnew)]
  | true =>
      obtain ⟨kept, args, spread, rfl⟩ := Expr.isNew_eq_true.mp hnew
      obtain ⟨hvar, hty⟩ := h rfl
      have hname : (Expr.ident "new" kept).rename receiverName r = .ident "new" kept :=
        isName_rename_of_not_mem hr hvar _ rfl
      simp only [Expr.rename] at hname ⊢
      rw [hname]
      cases args with
      | nil => simp [renameExprs]
      | cons ty args =>
          simp only [renameExprs, Expr.eval]
          rw [zeroValue_rename hr (hty ty rfl)]

theorem Linked.eval_rename_callName (hl : Linked g shape m mt) (hr : Resolves g shape c r)
    {f : String} {kept spread : Bool} {args : List Expr}
    (h : (Expr.call (.ident f kept) args spread).Clear c)
    (hargs : evalAll s mt.view (renameExprs receiverName r args) = evalAll s m.view args)
    (hhead : evalHead s mt.view (renameExprs receiverName r args) = evalHead s m.view args) :
    ((Expr.call (.ident f kept) args spread).rename receiverName r).eval s mt.view =
      (Expr.call (.ident f kept) args spread).eval s m.view := by
  obtain ⟨hf, hvar, -⟩ := h
  have hname : (Expr.ident f kept).rename receiverName r = .ident f kept :=
    isName_rename_of_not_mem hr hvar _ (by simp [Expr.isName, Expr.name?])
  rw [Expr.rename, hname]
  exact eval_callName_congr kept spread (hl.name_eq_of_not_mem hr hf hvar) hargs hhead

theorem Linked.eval_rename_callMember (hr : Resolves g shape c r)
    (hrun : c.runtime = s.runtime) {x : Expr} {member : String} {spread : Bool} {args : List Expr}
    (h : (Expr.call (.sel x member) args spread).Clear c)
    (hx : (x.rename receiverName r).eval s mt.view = x.eval s m.view)
    (hargs : exprsClear c args →
      evalAll s mt.view (renameExprs receiverName r args) = evalAll s m.view args) :
    ((Expr.call (.sel x member) args spread).rename receiverName r).eval s mt.view =
      (Expr.call (.sel x member) args spread).eval s m.view := by
  obtain ⟨-, hruntime⟩ := h
  simp only [Expr.rename, Expr.eval]
  cases hname : x.isName s.runtime with
  | true =>
      rw [hrun] at hruntime
      obtain ⟨hvar, hclear⟩ := hruntime hname
      rw [isName_rename_of_not_mem hr (hrun ▸ hvar) x hname, hname]
      simp only [if_true]
      rw [hargs hclear]
  | false =>
      rw [isName_rename hr x hname, hx]
      rfl

mutual

/-- A plain expression has the same value before and after renaming. -/
theorem Linked.eval_rename (hl : Linked g shape m mt) (hr : Resolves g shape c r)
    (hs : s.recv = receiverName) (hrun : c.runtime = s.runtime) (e : Expr) (h : e.Clear c) :
    (e.rename receiverName r).eval s mt.view = e.eval s m.view := by
  cases e with
  | ident x kept =>
      obtain ⟨hx, hkept⟩ := h
      cases kept with
      | true => exact hl.name_eq_of_not_mem hr hx (hkept rfl)
      | false => exact hl.eval_apply hr hs hx
  | lit kind text => rfl
  | sel x member =>
      have hbefore : x.isName receiverName = false := h
      have hafter := isName_rename hr x hbefore
      simp [View.field, View.fieldName, hs, hbefore, hafter]
  | paren x => exact hl.eval_rename hr hs hrun x h
  | unary op x =>
      simp only [Expr.rename, Expr.eval]
      rw [hl.eval_rename hr hs hrun x h]
      rfl
  | binary op x y =>
      obtain ⟨hx, hy⟩ := h
      have ex := hl.eval_rename hr hs hrun x hx
      have ey := hl.eval_rename hr hs hrun y hy
      cases op <;> simp only [Expr.rename, Expr.eval, ex, ey]
  | index x i =>
      obtain ⟨hx, hi⟩ := h
      simp only [Expr.rename, Expr.eval]
      rw [hl.eval_rename hr hs hrun x hx, hl.eval_rename hr hs hrun i hi]
  | composite ty elements =>
      simp only [Expr.rename, Expr.eval]
      rw [hl.evalAll_rename hr hs hrun elements h]
  | star x => exact Linked.eval_rename_star hr x h
  | call fn args spread =>
      cases fn with
      | ident f kept =>
          obtain ⟨-, -, hargs⟩ := id h
          exact hl.eval_rename_callName hr h (hl.evalAll_rename hr hs hrun args hargs)
            (hl.evalHead_rename hr hs hrun args hargs)
      | sel x member =>
          exact Linked.eval_rename_callMember hr hrun h (hl.eval_rename hr hs hrun x h.1)
            fun hargs => hl.evalAll_rename hr hs hrun args hargs
      | func signature body =>
          cases signature
          simp [Expr.kind]
      | _ => simp [Expr.kind]
  | func signature body =>
      cases signature
      simp [Expr.kind]
  | _ => simp [Expr.kind]

theorem Linked.evalAll_rename (hl : Linked g shape m mt) (hr : Resolves g shape c r)
    (hs : s.recv = receiverName) (hrun : c.runtime = s.runtime) (es : List Expr)
    (h : exprsClear c es) :
    evalAll s mt.view (renameExprs receiverName r es) = evalAll s m.view es := by
  cases es with
  | nil => rfl
  | cons e es =>
      obtain ⟨he, hes⟩ := h
      simp only [renameExprs, evalAll]
      rw [hl.eval_rename hr hs hrun e he, hl.evalAll_rename hr hs hrun es hes]

theorem Linked.evalHead_rename (hl : Linked g shape m mt) (hr : Resolves g shape c r)
    (hs : s.recv = receiverName) (hrun : c.runtime = s.runtime) (es : List Expr)
    (h : exprsClear c es) :
    evalHead s mt.view (renameExprs receiverName r es) = evalHead s m.view es := by
  cases es with
  | nil => rfl
  | cons e es => exact hl.eval_rename hr hs hrun e h.1

end

end Evaluation

end YieldMachine
