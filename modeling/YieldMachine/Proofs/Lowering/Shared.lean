import YieldMachine.Proofs.Lowering.Spelled
import YieldMachine.Proofs.Scope.Settled

/-!
# Types that several fields share

A type that is written once for several names is renamed in place for each of their fields, and
again where these are reset; so is the type of a key or value that a loop over an iterator declares.
Under settled bindings every field gets its type renamed once all the same.  The bindings of a
generator are settled unless its own names clash with those of its holder.
-/

namespace YieldMachine

open Lowering

/-- The bindings of a generator are settled where neither the receiver nor a name that a declaration
can be lifted to stands for a variable or a declaration of the generator. -/
theorem Renames.Follows.settled {r : Renames} {holder : String} {k : Kinds}
    (h : r.Follows holder k) (hrecv : k.lookup receiverName = none)
    (hlifted : ∀ y, IsLifted holder y → k.lookup y = none) : r.Settled receiverName := by
  intro x t ht
  have hnone : k.lookup (t.root receiverName) = none := by
    unfold Target.root
    split
    · exact hrecv
    · rename_i hfield
      exact hlifted _ (h.lifted x t ht (by simpa using hfield))
  intro t' ht'
  rw [← h.kinds, ht'] at hnone
  cases hnone

section Shared

variable {env : StateEnv} {d : Draft}

theorem StateEnv.repeat_resolve (h : env.renames.Settled receiverName) (n : Nat) (e : Expr) :
    Nat.repeat env.resolve (n + 1) e = env.resolve e := by
  induction n with
  | zero => rfl
  | succ n ih =>
      rw [Nat.repeat, ih]
      exact e.rename_rename h

/-- A type that places share is spelled at each of them as it would be if it were theirs alone. -/
theorem StateEnv.resolveShared_eq (h : env.renames.Settled receiverName) {uses : Nat}
    (huses : 0 < uses) (e : Expr) : env.resolveShared uses e = env.resolve e := by
  obtain ⟨n, rfl⟩ := Nat.exists_eq_add_one.mpr huses
  unfold resolveShared
  split
  · rfl
  · exact StateEnv.repeat_resolve h n e

/-- The type of a name is read where the name gets a field. -/
theorem VarDecl.typeUses_pos {decl : VarDecl} {i : Nat} {name : String} {type : Expr}
    (hname : decl.names[i]? = some name) (hblank : name ≠ "_")
    (htype : decl.typeAt? i = some type) : 0 < decl.typeUses i := by
  obtain ⟨declType, hdeclType, -⟩ := Option.map_eq_some_iff.mp htype
  have hmem : ((name, declType), i) ∈ (decl.names.zip decl.types).zipIdx := by
    rw [List.mem_zipIdx_iff_getElem?, List.getElem?_zip_eq_some]
    exact ⟨hname, hdeclType⟩
  have hpos : i = 0 ∨ declType = .asFirst → 0 < typeUses.sharing decl := by
    intro hshares
    refine List.length_pos_of_mem (List.mem_filter.mpr ⟨hmem, ?_⟩)
    rcases hshares with rfl | rfl <;> simp [hblank]
  unfold typeUses
  rw [hdeclType]
  cases declType with
  | asFirst =>
      have hsharing := hpos (.inr rfl)
      dsimp only
      split <;> omega
  | _ =>
      by_cases hfirst : i = 0
      · have hsharing := hpos (.inl hfirst)
        simp only [hfirst, if_true]
        split <;> omega
      · simp only [hfirst, if_false]
        split <;> omega

theorem hoist_types (name : String) (type : Expr) :
    Ensures (fun _ => True) d (hoist name type) fun _ d' =>
      d'.fields.map Prod.snd = d.fields.map Prod.snd ++ [type] := List.map_append

/-- The fields for names of a declaration have the types of the names, renamed once. -/
theorem hoistNames_types (h : env.renames.Settled receiverName) {decl : VarDecl} (i : Nat)
    {names : List String} (hnames : ∀ j, names[j]? = decl.names[i + j]?) (inner : StateEnv) :
    Ensures (fun _ => True) d (hoistNames decl env i names inner) fun _ d' =>
      d'.fields.map Prod.snd =
        d.fields.map Prod.snd ++ (decl.freshTypesFrom i names).map env.resolve := by
  induction names generalizing i inner d with
  | nil => exact .pure (by simp [VarDecl.freshTypesFrom])
  | cons name names ih =>
      have hrest : ∀ j, names[j]? = decl.names[i + 1 + j]? := by
        intro j
        have hj := hnames (j + 1)
        rwa [List.getElem?_cons_succ, ← Nat.add_assoc, Nat.add_right_comm] at hj
      simp only [hoistNames]
      split
      · rename_i hblank
        have hblank : name = "_" := by simpa using hblank
        simp only [VarDecl.freshTypesFrom, hblank, true_or, if_true]
        exact (ih (i + 1) hrest inner).bind fun result d' h => .pure h
      · rename_i hblank
        have hblank : name ≠ "_" := by simpa using hblank
        split
        · exact .throw trivial
        · rename_i htype
          have hreuses : decl.reuses i = true := by rw [VarDecl.reuses, htype]; rfl
          simp only [VarDecl.freshTypesFrom, hreuses, or_true, if_true]
          exact (ih (i + 1) hrest inner).bind fun result d' h => .pure h
        · rename_i type hmissing htype
          have hreuses : ¬ (name = "_" ∨ decl.reuses i = true) := by
            rw [VarDecl.reuses, htype, Option.any_some]
            cases type with
            | missing => exact absurd rfl hmissing
            | _ => simp [hblank, Expr.isMissing]
          have honce : env.resolveShared (decl.typeUses i) type = env.resolve type :=
            StateEnv.resolveShared_eq h
              (VarDecl.typeUses_pos (hnames 0).symm hblank htype) type
          simp only [VarDecl.freshTypesFrom, if_neg hreuses, htype, honce]
          refine (hoist_types name (env.resolve type)).bind ?_
          intro field d₁ hd₁
          refine (ih (i + 1) hrest (inner.withRename name ⟨field, true⟩)).bind ?_
          intro result d' hd'
          exact .pure (by simp [hd', hd₁])

theorem resetFields_types (current : Nat) (fresh : List (Expr × Expr)) :
    Ensures (fun _ => True) d (resetFields current fresh) fun _ d' => d'.fields = d.fields := by
  induction fresh generalizing d with
  | nil => exact .pure rfl
  | cons p fresh ih =>
      obtain ⟨field, type⟩ := p
      exact .emit ih

/-- A declaration adds one field for each of its new variables, with the type of the variable
renamed once. -/
theorem VarDecl.lower_types (h : env.renames.Settled receiverName) (decl : VarDecl)
    (current : Nat) :
    Ensures (fun _ => True) d (decl.lower current env) fun _ d' =>
      d'.fields.map Prod.snd =
        d.fields.map Prod.snd ++ (decl.freshTypesFrom 0 decl.names).map env.resolve := by
  refine (hoistNames_types h 0 (fun j => by rw [Nat.zero_add]) env).bind ?_
  rintro ⟨lhs, fresh, inner⟩ d₁ hd₁
  by_cases hvalues : decl.values.isEmpty = true
  · simp only [hvalues, if_true]
    refine (resetFields_types current fresh).bind ?_
    intro _ d' hd'
    exact .pure (by rw [hd', hd₁])
  · simp only [hvalues]
    exact .emit (.pure hd₁)

theorem Walk.iteratorType_eq (h : env.renames.Settled receiverName) (w : Walk) (plan : Plan) :
    w.iteratorType plan env =
      .indexList (.sel (.name plan.runtime) "Iterator2")
        [env.resolve w.keyType, env.resolve w.valueType] := by
  have honce : ∀ target type, env.resolveShared (if w.declares target then 2 else 1) type =
      env.resolve type := fun target type => by
    refine StateEnv.resolveShared_eq h ?_ type
    split <;> decide
  simp only [iteratorType, honce]

theorem lowerTarget_types (h : env.renames.Settled receiverName) (define : Bool)
    (target type : Expr) (inner : StateEnv) :
    Ensures (fun _ => True) d (lowerTarget define target type env inner) fun _ d' =>
      d'.fields.map Prod.snd =
        d.fields.map Prod.snd ++ (targetNames define target).map fun _ => env.resolve type := by
  unfold lowerTarget
  split
  · refine .pure ?_
    cases define <;> simp [targetNames, Expr.name?]
  · rename_i name kept
    by_cases hblank : name = "_"
    · rw [if_pos (by simpa using hblank)]
      refine .pure ?_
      cases define <;> simp [targetNames, Expr.name?, hblank]
    · rw [if_neg (by simpa using hblank)]
      cases define with
      | false => exact .pure (by simp [targetNames])
      | true =>
          rw [if_pos rfl, StateEnv.resolveShared_eq h Nat.two_pos]
          refine (hoist_types name (env.resolve type)).bind ?_
          intro field d' hd'
          exact .pure (by simp [hd', targetNames, Expr.name?, hblank])
  · rename_i hmissing hident
    refine .pure ?_
    have hnone : targetNames define target = [] := by
      cases target with
      | ident name kept => exact absurd rfl (hident name kept)
      | _ => cases define <;> rfl
    rw [hnone, List.map_nil, List.append_nil]

/-- A loop over an iterator adds a field for the iterator, and one for its key and its value where
it declares them.  Their types are renamed once. -/
theorem Walk.lower_types (h : env.renames.Settled receiverName) (w : Walk) (plan : Plan)
    (current : Nat) :
    Ensures (fun _ => True) d (w.lower plan current env) fun _ d' =>
      d'.fields.map Prod.snd =
        d.fields.map Prod.snd ++
          .indexList (.sel (.name plan.runtime) "Iterator2")
            [env.resolve w.keyType, env.resolve w.valueType] ::
          ((targetNames w.define w.key).map (fun _ => env.resolve w.keyType) ++
            (targetNames w.define w.value).map fun _ => env.resolve w.valueType) := by
  unfold Walk.lower
  rw [Walk.iteratorType_eq h]
  refine .newState (.emit ?_)
  refine Ensures.bind (P := fun _ d' => d'.fields.map Prod.snd = d.fields.map Prod.snd ++
    [.indexList (.sel (.name plan.runtime) "Iterator2")
      [env.resolve w.keyType, env.resolve w.valueType]]) ?_ ?_
  · exact List.map_append
  intro it d₁ hd₁
  refine .emit ((lowerTarget_types h w.define w.key w.keyType env).bind ?_)
  rintro ⟨key, inner⟩ d₂ hd₂
  refine (lowerTarget_types h w.define w.value w.valueType inner).bind ?_
  rintro ⟨value, inner'⟩ d₃ hd₃
  refine .newState (.emit (.newState (.emit (.emit (.pure ?_)))))
  let types (target type : Expr) : List Expr :=
    (targetNames w.define target).map fun _ => env.resolve type
  calc d₃.fields.map Prod.snd
      = d₂.fields.map Prod.snd ++ types w.value w.valueType := hd₃
    _ = d₁.fields.map Prod.snd ++ types w.key w.keyType ++ types w.value w.valueType := by
        rw [hd₂]
        rfl
    _ = _ := by
        rw [hd₁, List.append_assoc, List.append_assoc]
        rfl

end Shared

end YieldMachine
