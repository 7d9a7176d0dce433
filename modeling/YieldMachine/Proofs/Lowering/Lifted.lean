import Mathlib
import YieldMachine.Proofs.Lowering.Draft
import YieldMachine.Proofs.Scope.Fresh
import YieldMachine.Proofs.Scope.Occurrences

/-!
# Lifted declarations

Lifting takes new names for all that a declaration declares, and then renames its entries under
all of these names.  Renaming the entries in turn instead lets each of them see only what those
before it declare, as the scopes of the declaration have it.  The two agree exactly on the
declarations in which no entry refers to a name that is only declared by itself or later on.
-/

namespace YieldMachine

open Lowering

/-- Renames an entry of a declaration, given how a name is bound and how it is spelled from then
on: a value is declared after its own type and values, a type before them. -/
def Spec.inTurn (recv : String) (bind : Renames → String → Renames) (spell : String → String)
    (r : Renames) : Spec → Spec × Renames
  | .value names ty values =>
    (.value (names.map spell) (ty.rename recv r) (renameExprs recv r values), names.foldl bind r)
  | .type name typeParams isAlias ty =>
    let inner := bind r name
    (.type (spell name) (typeParams.rename recv inner) isAlias (ty.rename recv inner), inner)
  | .imported name path => (.imported name path, r)

/-- Renames the entries of a declaration, one after the other. -/
def specsInTurn (recv : String) (bind : Renames → String → Renames) (spell : String → String)
    (r : Renames) : List Spec → List Spec × Renames
  | [] => ([], r)
  | s :: ss =>
    let (s, after) := s.inTurn recv bind spell r
    let (ss, last) := specsInTurn recv bind spell after ss
    (s :: ss, last)

/-- Renaming a declaration that stays where it is takes its entries in turn. -/
theorem renameSpecs_eq_inTurn (recv : String) (r : Renames) (ss : List Spec) :
    renameSpecs recv r ss = specsInTurn recv Renames.shadow id r ss := by
  induction ss generalizing r with
  | nil => rfl
  | cons s ss ih =>
      have hs : s.rename recv r = s.inTurn recv Renames.shadow id r := by
        cases s with
        | value names ty values => rw [Spec.rename, Spec.inTurn, List.map_id]; rfl
        | type name typeParams isAlias ty => rfl
        | imported name path => rfl
      rw [renameSpecs, specsInTurn, hs]
      simp only [ih]

/-- The names that an entry declares, which the blank name is none of. -/
def Spec.declared (s : Spec) : List String := s.names.filter (· != "_")

/-- The names that a declaration declares. -/
def Decl.declared (d : Decl) : List String := d.specs.flatMap Spec.declared

/-- Binds a declared name to what it is lifted to; the blank name is never bound. -/
def StateEnv.declare (after : StateEnv) (r : Renames) (x : String) : Renames :=
  if x == "_" then r else r.insert x ⟨after.liftedName x, false⟩

/-- A declaration with its entries renamed in turn, from the context before it on, where
`after` says what its names are lifted to. -/
def Decl.liftedInTurn (d : Decl) (env after : StateEnv) : Decl :=
  { d with
    specs := (specsInTurn receiverName after.declare after.liftedName env.renames d.specs).1 }

/-- Whether no entry refers to a name that is declared by itself or later on, but not before.
`known` are the names that were declared before. -/
def specsOrdered (known : List String) : List Spec → Prop
  | [] => True
  | s :: ss =>
    (∀ x, s.Free x → x ∈ (s :: ss).flatMap Spec.declared → x ∈ known) ∧
      specsOrdered (s.declared ++ known) ss

/-- Whether no entry of a declaration refers to a name of it that is not declared yet. -/
def Decl.Ordered (d : Decl) : Prop := specsOrdered [] d.specs

/-- Whether the names that stand for others in a context are in use. -/
def StateEnv.UsesNames (env : StateEnv) (used : List String) : Prop :=
  ∀ x t, env.find? x = some t → t.field = false → t.name ∈ used

/-- Whether bindings are those of a context, with the known names bound to what they are lifted
to. -/
def Renames.Lifts (env after : StateEnv) (known : List String) (r : Renames) : Prop :=
  ∀ x, r.find? x = if x ∈ known then some ⟨after.liftedName x, false⟩ else env.find? x

/-- Whether names are lifted to longer names that were not in use, each to one of its own. -/
structure StateEnv.LiftsFresh (after : StateEnv) (names used : List String) : Prop where
  fresh : ∀ x ∈ names, after.liftedName x ∉ used
  longer : ∀ x ∈ names, x.length < (after.liftedName x).length
  distinct : ∀ x ∈ names, ∀ y ∈ names, after.liftedName x = after.liftedName y → x = y

theorem StateEnv.liftedName_of_find? {env : StateEnv} {x : String} {t : Target}
    (h : env.find? x = some t) : env.liftedName x = t.name := by
  rw [liftedName, h]

section Names

variable {E : LowerError → Prop} {d : Draft} {env after : StateEnv} {used others : List String}
  {name lifted : String}

/-- A name that is not declared again goes to what it was lifted to. -/
theorem Renames.Lifts.liftedName_of_not_mem
    (h : after.renames.Lifts (env.withRename name ⟨lifted, false⟩) after others)
    (hnot : name ∉ others) : after.liftedName name = lifted := by
  have hname := h name
  rw [if_neg hnot] at hname
  exact StateEnv.liftedName_of_find? (hname.trans (Renames.find?_insert_self _ _ _))

theorem Renames.Lifts.cons
    (h : after.renames.Lifts (env.withRename name ⟨lifted, false⟩) after others) :
    after.renames.Lifts env after (name :: others) := by
  intro x
  rw [h x]
  by_cases hmem : x ∈ others
  · rw [if_pos hmem, if_pos (List.mem_cons_of_mem _ hmem)]
  · rw [if_neg hmem]
    by_cases hx : x = name
    · subst hx
      rw [if_pos List.mem_cons_self, h.liftedName_of_not_mem hmem]
      exact Renames.find?_insert_self _ _ _
    · rw [if_neg (by simp [hx, hmem])]
      exact Renames.find?_insert_of_ne _ _ hx

/-- One more name is lifted to a new one.  If it is declared again, it goes to what it is lifted
to last. -/
theorem StateEnv.LiftsFresh.cons (h : after.LiftsFresh others (lifted :: used))
    (hname : name ∉ others → after.liftedName name = lifted) (hfree : lifted ∉ used)
    (hlonger : name.length < lifted.length) : after.LiftsFresh (name :: others) used := by
  have hcases : ∀ x ∈ name :: others, x ∈ others ∨ (x = name ∧ after.liftedName x = lifted) := by
    intro x hx
    by_cases hmem : x ∈ others
    · exact .inl hmem
    · obtain rfl := (List.mem_cons.mp hx).resolve_right hmem
      exact .inr ⟨rfl, hname hmem⟩
  have hapart : ∀ x ∈ others, after.liftedName x ≠ lifted := fun x hx heq =>
    h.fresh x hx (heq ▸ List.mem_cons_self)
  refine ⟨fun x hx => ?_, fun x hx => ?_, fun x hx y hy heq => ?_⟩
  · rcases hcases x hx with hmem | ⟨rfl, hlifted⟩
    · exact fun hused => h.fresh x hmem (List.mem_cons_of_mem _ hused)
    · rwa [hlifted]
  · rcases hcases x hx with hmem | ⟨rfl, hlifted⟩
    · exact h.longer x hmem
    · rwa [hlifted]
  · rcases hcases x hx with hmem | ⟨rfl, hlifted⟩ <;>
      rcases hcases y hy with hmem' | ⟨rfl, hlifted'⟩
    · exact h.distinct x hmem y hmem' heq
    · exact absurd (heq.trans hlifted') (hapart x hmem)
    · exact absurd (heq.symm.trans hlifted) (hapart y hmem')
    · rfl

/-- Every name is lifted to a new one, and all others stay what they are. -/
theorem liftNames_lifts (plan : Plan) (names : List String) (env : StateEnv) :
    Ensures E d (liftNames plan names env) fun after d' =>
      d'.types = d.types ∧ after.renames.Lifts env after (names.filter (· != "_")) ∧
        after.LiftsFresh (names.filter (· != "_")) d.used := by
  induction names generalizing env d with
  | nil => exact .pure ⟨rfl, fun x => rfl, ⟨nofun, nofun, nofun⟩⟩
  | cons name names ih =>
      simp only [liftNames]
      split
      · rename_i hblank
        have hfilter : (name :: names).filter (· != "_") = names.filter (· != "_") := by
          simp [bne, hblank]
        rw [hfilter]
        exact ih env
      · rename_i hname
        have hfilter : (name :: names).filter (· != "_") =
            name :: names.filter (· != "_") := by
          simp [bne, hname]
        let lifted := freeField d.used (plan.holder ++ "_" ++ name)
        let d₁ : Draft := { d with used := lifted :: d.used }
        refine Ensures.bind (P := fun a d' => a = lifted ∧ d' = d₁) ⟨rfl, rfl⟩ ?_
        rintro _ _ ⟨rfl, rfl⟩
        refine (ih (env.withRename name ⟨lifted, false⟩) (d := d₁)).mono fun after d' h => ?_
        obtain ⟨htypes, hlifts, hfresh⟩ := h
        have hlonger : name.length < lifted.length := by
          refine Nat.lt_of_lt_of_le ?_ (length_le_freeField _ _)
          have hsep : "_".length = 1 := rfl
          simp only [String.length_append]
          omega
        rw [hfilter]
        exact ⟨htypes, hlifts.cons,
          hfresh.cons hlifts.liftedName_of_not_mem (freeField_not_mem _ _) hlonger⟩

end Names

theorem Spec.inTurn_snd (recv : String) (bind : Renames → String → Renames)
    (spell : String → String) (r : Renames) (s : Spec) :
    (s.inTurn recv bind spell r).2 = s.names.foldl bind r := by
  cases s <;> rfl

section Turns

variable {env after : StateEnv} {all known used : List String} {r : Renames} {x : String}

theorem Renames.Lifts.declare (h : r.Lifts env after known) (name : String) :
    (after.declare r name).Lifts env after ([name].filter (· != "_") ++ known) := by
  intro x
  unfold StateEnv.declare
  split
  · rename_i hblank
    simpa [bne, hblank] using h x
  · rename_i hname
    by_cases hx : x = name
    · subst hx
      rw [Renames.find?_insert_self, if_pos (by simp [bne, hname])]
    · rw [Renames.find?_insert_of_ne _ _ hx, h x]
      simp [bne, hname, hx]

theorem Renames.Lifts.declareAll (h : r.Lifts env after known) (names : List String) :
    (names.foldl after.declare r).Lifts env after (names.filter (· != "_") ++ known) := by
  induction names generalizing r known with
  | nil => exact h
  | cons name names ih =>
      intro x
      rw [List.foldl_cons, ih (h.declare name) x]
      by_cases hblank : name = "_"
      · simp [hblank]
      · simp [hblank, or_left_comm]

theorem Renames.Lifts.apply (h : r.Lifts env after known) (recv x : String) :
    r.apply recv x =
      if x ∈ known then .name (after.liftedName x) else env.renames.apply recv x := by
  rw [Renames.apply_eq, Renames.apply_eq, Renames.target, h x]
  split <;> rfl

theorem Renames.Lifts.apply_same (hall : after.renames.Lifts env after all)
    (h : r.Lifts env after known) (hsub : known ⊆ all) (hx : x ∈ all → x ∈ known)
    (recv : String) : after.renames.apply recv x = r.apply recv x := by
  rw [hall.apply, h.apply]
  by_cases hmem : x ∈ known
  · rw [if_pos hmem, if_pos (hsub hmem)]
  · rw [if_neg hmem, if_neg fun h => hmem (hx h)]

/-- A name that goes to what it is lifted to is known. -/
theorem Renames.Lifts.known_of_apply (hall : after.renames.Lifts env after all)
    (h : r.Lifts env after known) (hfresh : after.LiftsFresh all used)
    (huses : env.UsesNames used) (hx : x ∈ all) {recv : String}
    (heq : after.renames.apply recv x = r.apply recv x) : x ∈ known := by
  by_contra hnot
  rw [hall.apply, if_pos hx, h.apply, if_neg hnot, Renames.apply_eq, Renames.target] at heq
  cases htarget : env.renames.find? x with
  | none =>
      rw [htarget] at heq
      have hname : after.liftedName x = x := by simpa [Expr.name] using heq
      have hlonger := hfresh.longer x hx
      rw [hname] at hlonger
      exact Nat.lt_irrefl _ hlonger
  | some t =>
      rw [htarget] at heq
      cases hfield : t.field with
      | true => simp [Target.toExpr, hfield, Expr.name] at heq
      | false =>
          have hname : after.liftedName x = t.name := by
            simpa [Target.toExpr, hfield, Expr.name] using heq
          exact hfresh.fresh x hx (hname ▸ huses x t htarget hfield)

/-- Renaming an entry under all names agrees with renaming it in turn where the two agree on its
free variables. -/
theorem Spec.lifted_eq_inTurn_iff (s : Spec) (hall : after.renames.Lifts env after all)
    (h : r.Lifts env after known) (hknown : known ⊆ all) (hdeclared : s.declared ⊆ all)
    (hblank : "_" ∉ all) :
    s.lifted after = (s.inTurn receiverName after.declare after.liftedName r).1 ↔
      ∀ x, s.Free x → after.renames.apply receiverName x = r.apply receiverName x := by
  cases s with
  | imported name path =>
      refine iff_of_true rfl fun x hfree => ?_
      rw [Spec.Free, Node.free_iff rfl] at hfree
      obtain ⟨p, hmem, -⟩ := hfree
      cases hmem
  | value names ty values =>
      have hiff := Expr.rename_eq_iff receiverName after.renames r (.composite ty values)
      simp only [Spec.free_value]
      rw [← hiff, Spec.lifted, Spec.inTurn, Expr.rename, Expr.rename, renameExprs_eq_map,
        renameExprs_eq_map]
      simp [StateEnv.resolve]
  | type name typeParams isAlias ty =>
      have hin := h.declare name
      have hsub : [name].filter (· != "_") ++ known ⊆ all :=
        List.append_subset.mpr ⟨hdeclared, hknown⟩
      have hown : after.renames.apply receiverName name =
          (after.declare r name).apply receiverName name := by
        refine hall.apply_same hin hsub (fun hmem => ?_) receiverName
        have hne : name ≠ "_" := fun h => hblank (h ▸ hmem)
        simp [hne]
      have hother : ∀ x ≠ name, (after.declare r name).apply receiverName x =
          r.apply receiverName x := by
        intro x hx
        rw [hin.apply, h.apply]
        simp [hx]
      have hty := Expr.rename_eq_iff receiverName after.renames (after.declare r name) ty
      have hparams :=
        Fields.rename_eq_iff receiverName after.renames (after.declare r name) typeParams
      have hsplit : Spec.lifted after (.type name typeParams isAlias ty) =
          (Spec.inTurn receiverName after.declare after.liftedName r
            (.type name typeParams isAlias ty)).1 ↔
          typeParams.rename receiverName after.renames =
              typeParams.rename receiverName (after.declare r name) ∧
            ty.rename receiverName after.renames =
              ty.rename receiverName (after.declare r name) := by
        simp [Spec.lifted, Spec.inTurn, StateEnv.resolve]
      simp only [Spec.free_type]
      rw [hsplit, hparams, hty]
      constructor
      · rintro ⟨hparams, hty⟩ x ⟨hx, hfree | hfree⟩
        · exact (hty x hfree).trans (hother x hx)
        · exact (hparams x hfree).trans (hother x hx)
      · intro hsame
        have hstep : ∀ x, (ty.Free x ∨ (Expr.struct typeParams).Free x) →
            after.renames.apply receiverName x =
              (after.declare r name).apply receiverName x := by
          intro x hfree
          by_cases hx : x = name
          · rw [hx]
            exact hown
          · exact (hsame x ⟨hx, hfree⟩).trans (hother x hx).symm
        exact ⟨fun x hfree => hstep x (.inr hfree), fun x hfree => hstep x (.inl hfree)⟩

/-- Entries renamed under all names are those renamed in turn where no entry refers to a name
that is not declared yet. -/
theorem specs_lifted_of_ordered (ss : List Spec) (hall : after.renames.Lifts env after all)
    (h : r.Lifts env after known) (hblank : "_" ∉ all)
    (hsplit : ∀ x, x ∈ all ↔ x ∈ known ∨ x ∈ ss.flatMap Spec.declared)
    (hordered : specsOrdered known ss) :
    ss.map (Spec.lifted after) =
      (specsInTurn receiverName after.declare after.liftedName r ss).1 := by
  induction ss generalizing r known with
  | nil => rfl
  | cons s ss ih =>
      obtain ⟨hfirst, hrest⟩ := hordered
      have hknown : known ⊆ all := fun x hx => (hsplit x).mpr (.inl hx)
      have hdeclared : s.declared ⊆ all := fun x hx =>
        (hsplit x).mpr (.inr (List.mem_flatMap_of_mem List.mem_cons_self hx))
      have hs := (s.lifted_eq_inTurn_iff hall h hknown hdeclared hblank).mpr fun x hfree =>
        hall.apply_same h hknown (fun hx => ((hsplit x).mp hx).elim id (hfirst x hfree))
          receiverName
      have hafter := h.declareAll s.names
      rw [← Spec.inTurn_snd receiverName after.declare after.liftedName] at hafter
      refine List.cons_eq_cons.mpr ⟨hs, ih hafter (fun x => ?_) hrest⟩
      rw [hsplit x, List.flatMap_cons, List.mem_append, List.mem_append, or_assoc, or_left_comm]
      rfl

/-- Where entries renamed under all names are those renamed in turn, no entry refers to a name
that is not declared yet. -/
theorem specsOrdered_of_lifted (ss : List Spec) (hall : after.renames.Lifts env after all)
    (h : r.Lifts env after known) (hblank : "_" ∉ all)
    (hsplit : ∀ x, x ∈ all ↔ x ∈ known ∨ x ∈ ss.flatMap Spec.declared)
    (hfresh : after.LiftsFresh all used) (huses : env.UsesNames used)
    (heq : ss.map (Spec.lifted after) =
      (specsInTurn receiverName after.declare after.liftedName r ss).1) :
    specsOrdered known ss := by
  induction ss generalizing r known with
  | nil => trivial
  | cons s ss ih =>
      obtain ⟨hs, hss⟩ := List.cons_eq_cons.mp heq
      have hknown : known ⊆ all := fun x hx => (hsplit x).mpr (.inl hx)
      have hdeclared : s.declared ⊆ all := fun x hx =>
        (hsplit x).mpr (.inr (List.mem_flatMap_of_mem List.mem_cons_self hx))
      have hsame := (s.lifted_eq_inTurn_iff hall h hknown hdeclared hblank).mp hs
      have hafter := h.declareAll s.names
      rw [← Spec.inTurn_snd receiverName after.declare after.liftedName] at hafter
      refine ⟨fun x hfree hx => ?_, ih hafter (fun x => ?_) hss⟩
      · exact hall.known_of_apply h hfresh huses ((hsplit x).mpr (.inr hx)) (hsame x hfree)
      · rw [hsplit x, List.flatMap_cons, List.mem_append, List.mem_append, or_assoc,
          or_left_comm]

end Turns

/-- What lifting a declaration does: its entries are renamed under all of its names. -/
theorem liftDecl_lifts {E : LowerError → Prop} (plan : Plan) (d : Decl) (env : StateEnv)
    (draft : Draft) :
    Ensures E draft (liftDecl plan d env) fun after draft' =>
      after.renames.Lifts env after d.declared ∧ after.LiftsFresh d.declared draft.used ∧
        draft'.types = draft.types ++ [{ d with specs := d.specs.map (Spec.lifted after) }] := by
  have hdeclared : (d.specs.flatMap Spec.names).filter (· != "_") = d.declared := by
    rw [List.filter_flatMap]
    rfl
  refine (liftNames_lifts plan _ env).bind ?_
  rw [hdeclared]
  rintro after draft₁ ⟨htypes, hlifts, hfresh⟩
  exact ⟨hlifts, hfresh, congrArg (· ++ _) htypes⟩

/-- A declaration is lifted in every context.  Its names go to new names, each to one of its own,
and all other names stay what they are.  A declaration in which no entry refers to a name that is
only declared by itself or later on has its entries renamed as in turn.  In any other one some
entry refers to a name that is not in its scope. -/
theorem liftDecl_in_turn (plan : Plan) (d : Decl) (env : StateEnv) (draft : Draft) :
    ∃ (after : StateEnv) (draft' : Draft),
      liftDecl plan d env draft = .ok (after, draft') ∧
      after.renames.Lifts env after d.declared ∧ after.LiftsFresh d.declared draft.used ∧
      (d.Ordered → draft'.types = draft.types ++ [d.liftedInTurn env after]) ∧
      (env.UsesNames draft.used →
        draft'.types = draft.types ++ [d.liftedInTurn env after] → d.Ordered) := by
  have hlift := liftDecl_lifts (E := fun _ => False) plan d env draft
  unfold Ensures at hlift
  split at hlift
  · rename_i after draft' hok
    obtain ⟨hlifts, hfresh, htypes⟩ := hlift
    have hstart : env.renames.Lifts env after [] := fun x => rfl
    have hblank : "_" ∉ d.declared := by
      simp [Decl.declared, Spec.declared]
    have hsplit : ∀ x, x ∈ d.declared ↔ x ∈ [] ∨ x ∈ d.specs.flatMap Spec.declared := by
      simp [Decl.declared]
    refine ⟨after, draft', hok, hlifts, hfresh, fun hordered => ?_, fun huses heq => ?_⟩
    · rw [htypes, specs_lifted_of_ordered d.specs hlifts hstart hblank hsplit hordered]
      rfl
    · rw [htypes, List.append_cancel_left_eq, List.cons.injEq, and_iff_left rfl] at heq
      exact specsOrdered_of_lifted d.specs hlifts hstart hblank hsplit hfresh huses
        (congrArg Decl.specs heq)
  · cases hlift

/-- A name for a type, and a type that is given by this name and by itself. -/
def chained : Decl :=
  ⟨.type,
    [.type "a" .absent true (.name "x"),
      .type "t" .absent false (.map (.name "a") (.star (.name "t")))]⟩

theorem chained_ordered : chained.Ordered := by
  have hnone : ∀ y, ¬ (Expr.struct .absent).Free y := fun y => by
    rw [Expr.free_iff_of_parts (e := .struct .absent) rfl (by rfl : _ = exprParts [] [])]
    simp
  have hstar : ∀ y, (Expr.star (.name "t")).Free y ↔ y = "t" := fun y => by
    rw [Expr.free_iff_of_parts rfl rfl]
    simp [Expr.free_name]
  refine ⟨fun y hfree hy => ?_, fun y hfree hy => ?_, trivial⟩
  · rw [Spec.free_type, Expr.free_name, or_iff_left (hnone y)] at hfree
    simp [hfree.2, Spec.declared, Spec.names] at hy
  · rw [Spec.free_type, or_iff_left (hnone y), Expr.free_iff_of_parts rfl rfl] at hfree
    simpa [Expr.free_name, hstar, hfree.1, Spec.declared, Spec.names] using hfree.2

theorem chained_in_turn :
    chained.Ordered ∧ StateEnv.UsesNames (Env.start endState) [] ∧
    ∃ (after : StateEnv) (draft' : Draft),
      liftDecl ⟨"g", "yieldgen", fun _ _ => true⟩ chained (Env.start endState) Draft.empty =
          .ok (after, draft') ∧
        after.renames.Lifts (Env.start endState) after chained.declared ∧
        after.LiftsFresh chained.declared [] ∧
        draft'.types = [chained.liftedInTurn (Env.start endState) after] := by
  obtain ⟨after, draft', hlift, hlifts, hfresh, hturn, -⟩ :=
    liftDecl_in_turn ⟨"g", "yieldgen", fun _ _ => true⟩ chained (Env.start endState) Draft.empty
  refine ⟨chained_ordered, fun x t h => ?_, after, draft', hlift, hlifts, hfresh,
    hturn chained_ordered⟩
  cases h

/-- A declaration of a constant as the sum of a name and one. -/
def increment (name of : String) : Decl :=
  ⟨.const, [.value [name] .missing [.binary .add (.name of) (.lit .int "1")]]⟩

/-- A generator that declares a constant again in a block, in terms of the outer one. -/
def renewed : Routine where
  name := "g"
  recv := none
  typeParams := .absent
  params := .absent
  elem := .name "int"
  runtime := "yieldgen"
  body :=
    [.lift ⟨.const, [.value ["x"] .missing [.lit .int "1"]]⟩,
      .block [.lift (increment "x" "x"), .yield (.name "x")]]

/-- The inner constant of the generator is lifted to one that refers to itself.  Renaming its
declaration in turn refers to the outer one. -/
theorem renewed_refers_to_itself :
    renewed.lower.map Holder.types =
        .ok [⟨.const, [.value ["g_x"] .missing [.lit .int "1"]]⟩, increment "g_x1" "g_x1"] ∧
      (increment "x" "x").liftedInTurn ((Env.start endState).withRename "x" ⟨"g_x", false⟩)
        ((Env.start endState).withRename "x" ⟨"g_x1", false⟩) = increment "g_x1" "g_x" := by
  constructor
  · cbv
  · rfl

end YieldMachine
