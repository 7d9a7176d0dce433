import YieldMachine.Proofs.Scope.Substitution

/-!
# Renaming twice is renaming once

A tree may be renamed again under the bindings that it was renamed under before.  The second pass
meets what the first one put in: the receiver in front of a field, or the plain name of a target.
Bindings are settled when they rename none of these to something else.

A scope that declares names only makes them refer to themselves, so settled bindings stay settled
inside of it.  As renaming leaves declared names as they are, a second pass has the bindings of the
first one at every node, and finds nothing that is left to rename.
-/

namespace YieldMachine

/-- The name that the expression of a target refers to. -/
def Target.root (recv : String) (t : Target) : String := if t.field then recv else t.name

namespace Renames

variable {recv : String} {r : Renames}

/-- Whether a name is not renamed to something else. -/
def Spares (r : Renames) (x : String) : Prop := ∀ t, r.find? x = some t → t = ⟨x, false⟩

instance (r : Renames) (x : String) : Decidable (r.Spares x) :=
  inferInstanceAs (Decidable (∀ t ∈ r.find? x, t = ⟨x, false⟩))

/-- Whether bindings spare the names that their targets refer to. -/
def Settled (r : Renames) (recv : String) : Prop :=
  ∀ x t, r.find? x = some t → r.Spares (t.root recv)

theorem apply_eq_name_iff (r : Renames) (recv x : String) :
    r.apply recv x = .name x ↔ r.Spares x := by
  rw [apply_eq, target, Spares]
  cases r.find? x with
  | none => simp
  | some t =>
      obtain ⟨name, field⟩ := t
      cases field <;> simp [Target.toExpr, Expr.name]

theorem spares_shadowAll_of_mem (r : Renames) {x : String} {names : List String}
    (hx : x ∈ names) : (r.shadowAll names).Spares x := by
  intro t ht
  rw [find?_shadowAll, if_pos hx] at ht
  obtain ⟨-, -, rfl⟩ := Option.map_eq_some_iff.mp ht
  rfl

theorem Spares.shadowAll {x : String} (h : r.Spares x) (names : List String) :
    (r.shadowAll names).Spares x := by
  by_cases hx : x ∈ names
  · exact spares_shadowAll_of_mem r hx
  · intro t ht
    rw [find?_shadowAll, if_neg hx] at ht
    exact h t ht

/-- Bindings stay settled where names are declared. -/
theorem Settled.shadowAll (h : r.Settled recv) (names : List String) :
    (r.shadowAll names).Settled recv := by
  intro x t ht
  by_cases hx : x ∈ names
  · -- a declared name is its own target
    obtain rfl := spares_shadowAll_of_mem r hx t ht
    exact spares_shadowAll_of_mem r hx
  · rw [find?_shadowAll, if_neg hx] at ht
    exact (h x t ht).shadowAll names

theorem Settled.after (h : r.Settled recv) (s : Stmt) : (s.rename recv r).2.Settled recv := by
  rw [s.rename_snd]
  exact h.shadowAll s.binds

theorem rename_name_of_find? {x : String} {t : Target} (h : r.find? x = some t) :
    (Expr.name x).rename recv r = t.toExpr recv := by
  show r.apply recv x = _
  rw [apply_eq, target, h, Option.map_some, Option.getD_some]

end Renames

/-- The expression of a target is renamed to itself exactly when the name that it refers to is
spared. -/
theorem Target.rename_toExpr_iff (r : Renames) (recv : String) (t : Target) :
    (t.toExpr recv).rename recv r = t.toExpr recv ↔ r.Spares (t.root recv) := by
  rw [← r.apply_eq_name_iff recv]
  obtain ⟨name, field⟩ := t
  cases field <;> simp [toExpr, root, Expr.name, Expr.rename]

theorem Fields.names_rename (r : Renames) (recv : String) (fs : Fields) :
    (fs.rename recv r).names = fs.names := by
  cases fs with
  | absent => rfl
  | list fields =>
      show (renameFields recv r fields).flatMap Field.names = fields.flatMap Field.names
      induction fields with
      | nil => rfl
      | cons f fields ih =>
          rw [renameFields, List.flatMap_cons, List.flatMap_cons, ih]
          cases f
          rfl

section Twice

variable {recv : String}

theorem Renames.Settled.rename_apply {r : Renames} (h : r.Settled recv) (x : String) :
    (r.apply recv x).rename recv r = r.apply recv x := by
  cases ht : r.find? x with
  | none =>
      have hsame : r.apply recv x = .name x :=
        (r.apply_eq_name_iff recv x).mpr fun t ht' => by rw [ht] at ht'; cases ht'
      rw [hsame]
      exact hsame
  | some t =>
      have hroot : (t.toExpr recv).rename recv r = t.toExpr recv :=
        (t.rename_toExpr_iff r recv).mpr (h x t ht)
      rwa [← rename_name_of_find? ht] at hroot

mutual

/-- Renaming an expression again changes nothing. -/
theorem Expr.rename_rename {r : Renames} (h : r.Settled recv) (e : Expr) :
    (e.rename recv r).rename recv r = e.rename recv r := by
  match e with
  | .missing | .lit _ _ | .ident _ true => rfl
  | .ident x false => exact h.rename_apply x
  | .sel x _ | .star x | .unary _ x | .paren x | .chan _ x | .ellipsis x =>
      simp only [Expr.rename, x.rename_rename h]
  | .index x y | .assert x y | .binary _ x y | .pair x y | .array x y | .map x y =>
      simp only [Expr.rename, x.rename_rename h, y.rename_rename h]
  | .slice x low high max _ =>
      simp only [Expr.rename, x.rename_rename h, low.rename_rename h, high.rename_rename h,
        max.rename_rename h]
  | .indexList x ys | .call x ys _ | .composite x ys =>
      simp only [Expr.rename, x.rename_rename h, renameExprs_renameExprs h ys]
  | .func (.mk typeParams params results) body =>
      -- the body sees the same names declared in both passes
      have hbody := (h.shadowAll params.names).shadowAll results.names
      simp only [Expr.rename, Renames.declareFields, Fields.names_rename,
        typeParams.rename_rename h, params.rename_rename h, results.rename_rename h,
        body.rename_rename hbody]
  | .funcType (.mk typeParams params results) =>
      simp only [Expr.rename, Signature.rename, typeParams.rename_rename h,
        params.rename_rename h, results.rename_rename h]
  | .struct fields | .interface fields => simp only [Expr.rename, fields.rename_rename h]

theorem renameExprs_renameExprs {r : Renames} (h : r.Settled recv) (es : List Expr) :
    renameExprs recv r (renameExprs recv r es) = renameExprs recv r es := by
  match es with
  | [] => rfl
  | e :: es => simp only [renameExprs, e.rename_rename h, renameExprs_renameExprs h es]

theorem Fields.rename_rename {r : Renames} (h : r.Settled recv) (fs : Fields) :
    (fs.rename recv r).rename recv r = fs.rename recv r := by
  match fs with
  | .absent => rfl
  | .list fields => simp only [Fields.rename, renameFields_renameFields h fields]

theorem renameFields_renameFields {r : Renames} (h : r.Settled recv) (fs : List Field) :
    renameFields recv r (renameFields recv r fs) = renameFields recv r fs := by
  match fs with
  | [] => rfl
  | f :: fs => simp only [renameFields, f.rename_rename h, renameFields_renameFields h fs]

theorem Field.rename_rename {r : Renames} (h : r.Settled recv) (f : Field) :
    (f.rename recv r).rename recv r = f.rename recv r := by
  match f with
  | .mk names type tag => simp only [Field.rename, type.rename_rename h]

/-- Renaming a statement again changes neither the statement nor the bindings after it. -/
theorem Stmt.rename_rename {r : Renames} (h : r.Settled recv) (s : Stmt) :
    (s.rename recv r).1.rename recv r = s.rename recv r := by
  match s with
  | .missing | .empty | .branch _ _ => rfl
  | .expr x | .incDec _ x | .go x | .defer x => simp only [Stmt.rename, x.rename_rename h]
  | .send x y => simp only [Stmt.rename, x.rename_rename h, y.rename_rename h]
  | .assign .define lhs rhs => simp only [Stmt.rename, renameExprs_renameExprs h rhs]
  | .assign .set lhs rhs | .assign (.update _) lhs rhs =>
      simp only [Stmt.rename, renameExprs_renameExprs h lhs, renameExprs_renameExprs h rhs]
  | .ret results => simp only [Stmt.rename, renameExprs_renameExprs h results]
  | .block body => simp only [Stmt.rename, renameStmts_renameStmts h body]
  | .ite init cond body other =>
      have hin := h.after init
      simp only [Stmt.rename, init.rename_rename h, cond.rename_rename hin,
        renameStmts_renameStmts hin body, other.rename_rename hin]
  | .switch init tag clauses =>
      have hin := h.after init
      simp only [Stmt.rename, init.rename_rename h, tag.rename_rename hin,
        renameClauses_renameClauses hin clauses]
  | .typeSwitch init guard clauses =>
      have hin := h.after init
      have hinit := init.rename_rename h
      cases guard with
      | assign kind lhs rhs =>
          have hclauses := hin.shadowAll (lhs.filterMap Expr.name?)
          simp only [Stmt.rename, Renames.declareExprs, hinit, renameExprs_renameExprs hin rhs,
            renameClauses_renameClauses hclauses clauses]
      | expr x =>
          simp only [Stmt.rename, hinit, x.rename_rename hin,
            renameClauses_renameClauses hin clauses]
      | _ => simp only [Stmt.rename, hinit, renameClauses_renameClauses hin clauses]
  | .select clauses => simp only [Stmt.rename, renameComms_renameComms h clauses]
  | .loop init cond post body =>
      have hin := h.after init
      have hbody := hin.after post
      simp only [Stmt.rename, init.rename_rename h, cond.rename_rename hin,
        post.rename_rename hin, renameStmts_renameStmts hbody body]
  | .range key value .define x body =>
      have hbody := h.shadowAll ([key, value].filterMap Expr.name?)
      simp only [Stmt.rename, Renames.declareExprs, x.rename_rename h,
        renameStmts_renameStmts hbody body]
  | .range key value .set x body | .range key value .bare x body =>
      simp only [Stmt.rename, key.rename_rename h, value.rename_rename h, x.rename_rename h,
        renameStmts_renameStmts h body]
  | .labeled label stmt => simp only [Stmt.rename, stmt.rename_rename h]
  | .decl kind specs => simp only [Stmt.rename, renameSpecs_renameSpecs h specs]

/-- The statements of a list meet the same bindings in both passes. -/
theorem renameStmts_renameStmts {r : Renames} (h : r.Settled recv) (ss : List Stmt) :
    renameStmts recv r (renameStmts recv r ss) = renameStmts recv r ss := by
  match ss with
  | [] => rfl
  | s :: ss => simp only [renameStmts, s.rename_rename h, renameStmts_renameStmts (h.after s) ss]

theorem renameClauses_renameClauses {r : Renames} (h : r.Settled recv) (cs : List Clause) :
    renameClauses recv r (renameClauses recv r cs) = renameClauses recv r cs := by
  match cs with
  | [] => rfl
  | c :: cs => simp only [renameClauses, c.rename_rename h, renameClauses_renameClauses h cs]

theorem Clause.rename_rename {r : Renames} (h : r.Settled recv) (c : Clause) :
    (c.rename recv r).rename recv r = c.rename recv r := by
  match c with
  | .case values body =>
      simp only [Clause.rename, renameExprs_renameExprs h values, renameStmts_renameStmts h body]
  | .default body => simp only [Clause.rename, renameStmts_renameStmts h body]

theorem renameComms_renameComms {r : Renames} (h : r.Settled recv) (cs : List CommClause) :
    renameComms recv r (renameComms recv r cs) = renameComms recv r cs := by
  match cs with
  | [] => rfl
  | c :: cs => simp only [renameComms, c.rename_rename h, renameComms_renameComms h cs]

theorem CommClause.rename_rename {r : Renames} (h : r.Settled recv) (c : CommClause) :
    (c.rename recv r).rename recv r = c.rename recv r := by
  match c with
  | .mk comm body =>
      simp only [CommClause.rename, comm.rename_rename h,
        renameStmts_renameStmts (h.after comm) body]

theorem renameSpecs_renameSpecs {r : Renames} (h : r.Settled recv) (ss : List Spec) :
    renameSpecs recv r (renameSpecs recv r ss).1 = renameSpecs recv r ss := by
  match ss with
  | [] => rfl
  | s :: ss =>
      have hafter : (s.rename recv r).2.Settled recv := by
        rw [s.rename_snd]
        exact h.shadowAll s.names
      simp only [renameSpecs, s.rename_rename h, renameSpecs_renameSpecs hafter ss]

theorem Spec.rename_rename {r : Renames} (h : r.Settled recv) (s : Spec) :
    (s.rename recv r).1.rename recv r = s.rename recv r := by
  match s with
  | .value names ty values =>
      simp only [Spec.rename, ty.rename_rename h, renameExprs_renameExprs h values]
  | .type name typeParams isAlias ty =>
      have hin : (r.shadow name).Settled recv := h.shadowAll [name]
      simp only [Spec.rename, typeParams.rename_rename hin, ty.rename_rename hin]
  | .imported name path => rfl

end

end Twice

/-- Bindings are settled exactly when renaming every expression twice is renaming it once. -/
theorem Renames.settled_iff (r : Renames) (recv : String) :
    r.Settled recv ↔ ∀ e : Expr, (e.rename recv r).rename recv r = e.rename recv r := by
  constructor
  · intro h e
    exact e.rename_rename h
  · intro h x t ht
    have hname := h (.name x)
    rw [rename_name_of_find? ht] at hname
    exact (t.rename_toExpr_iff r recv).mp hname

/-- Where neither the receiver nor the name of a plain target is renamed to something else,
renaming twice is renaming once: trees that were renamed stay as they are, and a statement hands on
the same bindings again.  Identifiers that are to be kept are marked in the tree, so that the two
passes keep the same ones. -/
theorem Renames.rename_twice {r : Renames} {recv : String} (hrecv : r.Spares recv)
    (hplain : ∀ x t, r.find? x = some t → t.field = false → r.Spares t.name) :
    (∀ e : Expr, (e.rename recv r).rename recv r = e.rename recv r) ∧
      (∀ s : Stmt, (s.rename recv r).1.rename recv r = s.rename recv r) ∧
      (∀ c : Clause, (c.rename recv r).rename recv r = c.rename recv r) ∧
      ∀ c : CommClause, (c.rename recv r).rename recv r = c.rename recv r := by
  have hsettled : r.Settled recv := by
    intro x t ht
    unfold Target.root
    split
    · exact hrecv
    · rename_i hfield
      exact hplain x t ht (by simpa using hfield)
  exact ⟨fun e => e.rename_rename hsettled, fun s => s.rename_rename hsettled,
    fun c => c.rename_rename hsettled, fun c => c.rename_rename hsettled⟩

/-- The bindings of a variable that lives in a field, and of a type that is lifted. -/
def hoisting : Renames := [("x", ⟨"x1", true⟩), ("T", ⟨"g_T", false⟩)]

/-- A function literal whose parameter `p` has the type `type`.  It stores a variable under a key of
the name `x`, and declares a copy of the variable under this name. -/
def storing (p : String) (type x : Expr) : Expr :=
  .func (.mk .absent (.list [.mk [p] type none]) .absent)
    (.block
      [.expr (.composite type [.pair (.ident "x" true) x]), .assign .define [.name "x"] [x],
        .expr (.name "x")])

/-- The parameter has the name that the type is lifted to. -/
theorem storing_renamed_twice :
    hoisting.Spares "__g" ∧
      (∀ x t, hoisting.find? x = some t → t.field = false → hoisting.Spares t.name) ∧
      (storing "g_T" (.name "T") (.name "x")).rename "__g" hoisting =
        storing "g_T" (.name "g_T") (.sel (.name "__g") "x1") ∧
      (storing "g_T" (.name "g_T") (.sel (.name "__g") "x1")).rename "__g" hoisting =
        storing "g_T" (.name "g_T") (.sel (.name "__g") "x1") := by
  have hrecv : hoisting.Spares "__g" := by decide
  have hplain : ∀ x t, hoisting.find? x = some t → t.field = false → hoisting.Spares t.name := by
    intro x t ht hfield
    obtain ⟨before, after, hsplit, -⟩ := List.lookup_eq_some_iff.mp ht
    have hmem : (x, t) ∈ hoisting := by simp [hsplit]
    have hcases : (x = "x" ∧ t = ⟨"x1", true⟩) ∨ (x = "T" ∧ t = ⟨"g_T", false⟩) := by
      simpa [hoisting] using hmem
    obtain ⟨rfl, rfl⟩ | ⟨rfl, rfl⟩ := hcases
    · cases hfield
    · decide
  have honce : (storing "g_T" (.name "T") (.name "x")).rename "__g" hoisting =
      storing "g_T" (.name "g_T") (.sel (.name "__g") "x1") := rfl
  refine ⟨hrecv, hplain, honce, ?_⟩
  rw [← honce]
  exact (Renames.rename_twice hrecv hplain).1 _

end YieldMachine
