import YieldMachine.Proofs.Lowering.Spelled

/-!
# Distinct variables get distinct fields

`flowsIntroduce` lists what a body makes a field for, and which declarations it lifts, in the order
in which lowering meets them.  All of them draw their names from one pool, from which the
parameters took theirs first.  So every variable and every iterator has a field of its own, which
is none of the state methods, and no lifted declaration has the name of a field or of another one.
-/

namespace YieldMachine

open Lowering Draft

/-- What a field of a holder stands for, apart from parameters. -/
inductive FieldOwner where
  | var (name : String)
  | iterator

/-- What a body adds to its holder: fields, and declarations that are lifted. -/
inductive Introduction where
  | stored (s : FieldOwner)
  | lifted (decl : Decl)

/-- What gets a field. -/
def Introduction.stored? : Introduction → Option FieldOwner
  | .stored s => some s
  | .lifted _ => none

/-- What is lifted. -/
def Introduction.lifted? : Introduction → Option Decl
  | .stored _ => none
  | .lifted decl => some decl

/-- New variables. -/
def introduceAll (names : List String) : List Introduction :=
  names.map fun name => .stored (.var name)

/-- What the first part of a loop header adds. -/
def Flow.introducesInit : Flow → List Introduction
  | .declare d => introduceAll d.fresh
  | _ => []

/-- Whether a statement of a list is lowered by itself, and not copied. -/
def Flow.isLowered : Flow → Bool
  | .declare _ => true
  | .lift _ => true
  | s => s.modifiesControlFlow

mutual

/-- What lowering a statement adds. -/
def Flow.introduces : Flow → List Introduction
  | .block body => flowsIntroduce body
  | .declare d => introduceAll d.fresh
  | .lift d => [.lifted d]
  | .ite _ body other =>
    flowsIntroduce body ++ if other.isBlock || other.isLowered then other.introduces else []
  | .while _ body => flowsIntroduce body
  | .doWhile body _ => flowsIntroduce body
  | .loop init _ _ body => init.introducesInit ++ flowsIntroduce body
  | .walk header body =>
    .stored .iterator :: (introduceAll header.names ++ flowsIntroduce body)
  | .switch _ cases => casesIntroduce cases
  | .labeled _ stmt => stmt.introduces
  | _ => []

/-- What lowering a statement list adds. -/
def flowsIntroduce : List Flow → List Introduction
  | [] => []
  | s :: ss => (if s.isLowered then s.introduces else []) ++ flowsIntroduce ss

/-- What lowering the cases of a switch adds. -/
def casesIntroduce : List FlowCase → List Introduction
  | [] => []
  | c :: cs => c.introduces ++ casesIntroduce cs

/-- What lowering a case adds. -/
def FlowCase.introduces : FlowCase → List Introduction
  | .case _ body => flowsIntroduce body
  | .default body => flowsIntroduce body

end

/-- The variables and iterators of a generator that get fields, in order. -/
def Routine.stored (fn : Routine) : List FieldOwner :=
  (flowsIntroduce fn.body).filterMap Introduction.stored?

/-- The declarations that a generator lifts, in order. -/
def Routine.lifted (fn : Routine) : List Decl :=
  (flowsIntroduce fn.body).filterMap Introduction.lifted?

/-- The name that the names of fields for `x` start with. -/
def fieldBase (x : String) : String := if statePrefix.isPrefixOf x then "_" ++ x else x

/-- Whether a field is named for what it stands for, up to a number. -/
def FieldOwner.Named : FieldOwner → String → Prop
  | .var x, field => ∃ n, field = candidate (fieldBase x) n
  | .iterator, field => ∃ i n, field = candidate (fieldBase (iteratorField i)) n

/-- Whether a declaration is another one with new names for what it declares, a different one for
each. -/
def Decl.LiftsTo (d d' : Decl) : Prop :=
  ∃ rename : String → String, rename "_" = "_" ∧
    (∀ x ∈ d.declared, ∀ y ∈ d.declared, rename x = rename y → x = y) ∧
    d'.specs.flatMap Spec.names = (d.specs.flatMap Spec.names).map rename

theorem Decl.declared_eq (d : Decl) :
    d.declared = (d.specs.flatMap Spec.names).filter (· != "_") := by
  rw [List.filter_flatMap]
  rfl

/-- What a lifted declaration declares are new names for what the declaration did. -/
theorem Decl.exists_of_mem_declared {d d' : Decl} {rename : String → String}
    (hblank : rename "_" = "_")
    (hnames : d'.specs.flatMap Spec.names = (d.specs.flatMap Spec.names).map rename) {x : String}
    (hx : x ∈ d'.declared) : ∃ y ∈ d.declared, rename y = x := by
  rw [declared_eq, hnames, List.mem_filter, List.mem_map] at hx
  obtain ⟨⟨y, hy, rfl⟩, hne⟩ := hx
  refine ⟨y, ?_, rfl⟩
  rw [declared_eq, List.mem_filter]
  refine ⟨hy, ?_⟩
  rw [bne_iff_ne] at hne ⊢
  rintro rfl
  exact hne hblank

/-- A lifted declaration declares each name once if the declaration did. -/
theorem Decl.LiftsTo.nodup {d d' : Decl} (h : d.LiftsTo d') (hd : d.declared.Nodup) :
    d'.declared.Nodup := by
  obtain ⟨rename, hblank, hinj, hnames⟩ := h
  have hsub : d'.declared.Sublist (d.declared.map rename) := by
    rw [declared_eq, declared_eq, hnames, List.filter_map]
    apply List.Sublist.map
    apply List.monotone_filter_right
    intro x hx
    rw [Function.comp_apply, bne_iff_ne] at hx
    rw [bne_iff_ne]
    rintro rfl
    exact hx hblank
  exact hsub.nodup (hd.map_on fun x hx y hy => hinj x hx y hy)

section Names

theorem isDigit_of_mem_toString {n : Nat} {c : Char} (h : c ∈ (toString n).toList) :
    c.isDigit = true := by
  rw [show (toString n).toList = Nat.toDigits 10 n from Nat.toList_repr] at h
  exact Nat.isDigit_of_mem_toDigits (by decide) (by decide) h

theorem toList_statePrefix : statePrefix.toList = ['_', '_', 's', 't', 'a', 't', 'e'] := by
  simp [statePrefix]

/-- Numbers at the end do not make up what state methods start with. -/
theorem prefix_of_prefix_candidate {x : String} {n : Nat}
    (h : statePrefix.toList <+: (candidate x n).toList) : statePrefix.toList <+: x.toList := by
  unfold candidate at h
  split at h
  · exact h
  · rw [String.toList_append] at h
    rcases Nat.le_total statePrefix.toList.length x.toList.length with hle | hle
    · exact List.prefix_of_prefix_length_le h (List.prefix_append _ _) hle
    · obtain ⟨rest, hrest⟩ := List.prefix_of_prefix_length_le (List.prefix_append _ _) h hle
      cases rest with
      | nil => exact ⟨[], by simpa using hrest.symm⟩
      | cons c rest =>
          exfalso
          rw [← hrest, List.prefix_append_right_inj] at h
          have hdigit := isDigit_of_mem_toString (h.subset List.mem_cons_self)
          have hmem : c ∈ statePrefix.toList := hrest ▸ by simp
          have hnone : ∀ c ∈ statePrefix.toList, c.isDigit = false := by
            simp [toList_statePrefix]
          rw [hnone c hmem] at hdigit
          cases hdigit

theorem not_prefix_fieldBase (x : String) : ¬statePrefix.toList <+: (fieldBase x).toList := by
  unfold fieldBase
  split
  · rename_i h
    obtain ⟨rest, hrest⟩ := String.startsWith_string_iff.mp h
    rw [String.toList_append, ← hrest, toList_statePrefix]
    intro hprefix
    simp at hprefix
  · rename_i h
    exact fun hprefix => h (String.startsWith_string_iff.mpr hprefix)

/-- No field is a state method. -/
theorem FieldOwner.Named.ne_stateMethod {s : FieldOwner} {field : String} (h : s.Named field)
    (id : Int) : field ≠ stateMethod id := by
  have hcandidate : ∃ x n, field = candidate (fieldBase x) n := by
    cases s with
    | var x => exact ⟨x, h⟩
    | iterator =>
        obtain ⟨i, n, hn⟩ := h
        exact ⟨iteratorField i, n, hn⟩
  obtain ⟨x, n, rfl⟩ := hcandidate
  intro heq
  apply not_prefix_fieldBase x
  apply prefix_of_prefix_candidate
  rw [heq, stateMethod, String.toList_append]
  exact List.prefix_append _ _

theorem exists_freeField (used : List String) (x : String) :
    ∃ n, freeField used x = candidate (fieldBase x) n :=
  exists_candidate_of_firstFree used.contains (fieldBase x) 0 used.length

end Names

/-- The names of the fields of a draft. -/
def Draft.fieldNames (d : Draft) : List String := d.fields.map Prod.fst

/-- Whether the names of a draft are apart: those of its fields, and those of its lifted
declarations, which are all taken. -/
structure Draft.Apart (d : Draft) : Prop where
  fields : d.fieldNames.Nodup
  taken : d.fieldNames ⊆ d.used
  lifted : ∀ decl ∈ d.types, ∀ x ∈ decl.declared, x ∈ d.used ∧ x ∉ d.fieldNames
  types : d.types.Pairwise fun decl decl' => decl.declared.Disjoint decl'.declared

/-- Whether a draft has grown by what a body adds to it. -/
structure Draft.Gains (added : List Introduction) (d d' : Draft) : Prop where
  params : d'.params = d.params
  fields : ∃ names, d'.fieldNames = d.fieldNames ++ names ∧
    List.Forall₂ FieldOwner.Named (added.filterMap Introduction.stored?) names
  types : ∃ decls, d'.types = d.types ++ decls ∧
    List.Forall₂ Decl.LiftsTo (added.filterMap Introduction.lifted?) decls

namespace Draft

variable {d d' d'' : Draft} {added more : List Introduction}

/-- Only fields, lifted declarations and taken names matter. -/
theorem Apart.congr (h : d.Apart) (hfields : d'.fields = d.fields) (htypes : d'.types = d.types)
    (hused : d.used ⊆ d'.used) : d'.Apart := by
  have hnames : d'.fieldNames = d.fieldNames := congrArg (List.map Prod.fst) hfields
  refine ⟨hnames ▸ h.fields, fun x hx => hused (h.taken (hnames ▸ hx)), ?_, htypes ▸ h.types⟩
  intro decl hdecl x hx
  obtain ⟨htaken, hfree⟩ := h.lifted decl (htypes ▸ hdecl) x hx
  exact ⟨hused htaken, hnames ▸ hfree⟩

/-- A field with a new name. -/
theorem Apart.hoist (h : d.Apart) {field : String} (hfield : field ∉ d.used) (type : Expr) :
    Draft.Apart { d with used := field :: d.used, fields := d.fields ++ [(field, type)] } := by
  have hnames : Draft.fieldNames
      { d with used := field :: d.used, fields := d.fields ++ [(field, type)] } =
        d.fieldNames ++ [field] := List.map_append
  constructor
  · rw [hnames]
    exact List.nodup_append'.mpr ⟨h.fields, List.nodup_singleton _,
      List.disjoint_singleton.mpr fun hmem => hfield (h.taken hmem)⟩
  · rw [hnames]
    exact List.append_subset.mpr ⟨fun x hx => List.mem_cons_of_mem _ (h.taken hx), by simp⟩
  · intro decl hdecl x hx
    obtain ⟨htaken, hfree⟩ := h.lifted decl hdecl x hx
    refine ⟨List.mem_cons_of_mem _ htaken, ?_⟩
    rw [hnames, List.mem_append, List.mem_singleton]
    rintro (hmem | rfl)
    · exact hfree hmem
    · exact hfield htaken
  · exact h.types

/-- A lifted declaration with new names. -/
theorem Apart.addType (h : d.Apart) {decl : Decl}
    (hdecl : ∀ x ∈ decl.declared, x ∉ d.used ∧ x ∈ d'.used) (hused : d.used ⊆ d'.used)
    (hfields : d'.fields = d.fields) (htypes : d'.types = d.types ++ [decl]) : d'.Apart := by
  have hnames : d'.fieldNames = d.fieldNames := congrArg (List.map Prod.fst) hfields
  constructor
  · exact hnames ▸ h.fields
  · exact fun x hx => hused (h.taken (hnames ▸ hx))
  · rw [htypes, hnames]
    intro other hother x hx
    rcases List.mem_append.mp hother with hother | hother
    · obtain ⟨htaken, hfree⟩ := h.lifted other hother x hx
      exact ⟨hused htaken, hfree⟩
    · obtain rfl : other = decl := by simpa using hother
      obtain ⟨hfree, htaken⟩ := hdecl x hx
      exact ⟨htaken, fun hmem => hfree (h.taken hmem)⟩
  · rw [htypes, List.pairwise_append]
    refine ⟨h.types, List.pairwise_singleton _ _, ?_⟩
    intro other hother decl' hdecl'
    obtain rfl : decl' = decl := by simpa using hdecl'
    intro x hx hx'
    exact (hdecl x hx').1 (h.lifted other hother x hx).1

theorem Gains.of_same (hparams : d'.params = d.params) (hfields : d'.fields = d.fields)
    (htypes : d'.types = d.types) : Gains [] d d' :=
  ⟨hparams, ⟨[], by simp [fieldNames, hfields], .nil⟩, [], by simp [htypes], .nil⟩

theorem Gains.trans (h : Gains added d d') (h' : Gains more d' d'') :
    Gains (added ++ more) d d'' := by
  obtain ⟨hparams, ⟨names, hnames, hnamed⟩, decls, hdecls, hlifts⟩ := h
  obtain ⟨hparams', ⟨names', hnames', hnamed'⟩, decls', hdecls', hlifts'⟩ := h'
  refine ⟨hparams'.trans hparams, ⟨names ++ names', ?_, ?_⟩, decls ++ decls', ?_, ?_⟩
  · rw [hnames', hnames, List.append_assoc]
  · rw [List.filterMap_append]
    exact List.rel_append hnamed hnamed'
  · rw [hdecls', hdecls, List.append_assoc]
  · rw [List.filterMap_append]
    exact List.rel_append hlifts hlifts'

end Draft

theorem Lowering.Ensures.and {α : Type} {E : LowerError → Prop} {d : Draft} {x : Lowering α}
    {P Q : α → Draft → Prop} (hP : Ensures E d x P) (hQ : Ensures E d x Q) :
    Ensures E d x fun a d' => P a d' ∧ Q a d' := by
  unfold Ensures at hP hQ ⊢
  cases hx : x d with
  | error e =>
      rw [hx] at hP
      exact hP
  | ok p =>
      rw [hx] at hP hQ
      exact ⟨hP, hQ⟩

/-- Whether a part of lowering keeps the names of a draft apart and adds what it has to, where it
succeeds with a result that has the property. -/
def Lowering.Introducing {α : Type} (x : Lowering α) (added : List Introduction)
    (P : α → Prop) : Prop :=
  ∀ d : Draft, d.Apart →
    Ensures (fun _ => True) d x fun a d' => d'.Apart ∧ Draft.Gains added d d' ∧ P a

namespace Lowering.Introducing

variable {α β : Type} {added more : List Introduction} {P : α → Prop} {Q : β → Prop}

theorem bind {x : Lowering α} {f : α → Lowering β} (hx : Introducing x added P)
    (hf : ∀ a, P a → Introducing (f a) more Q) : Introducing (x >>= f) (added ++ more) Q := by
  intro d hd
  refine (hx d hd).bind fun a d' ⟨hd', hgains, ha⟩ => ?_
  exact (hf a ha d' hd').mono fun b d'' ⟨hd'', hgains', hb⟩ => ⟨hd'', hgains.trans hgains', hb⟩

/-- A part that adds nothing comes first. -/
theorem after {x : Lowering α} {f : α → Lowering β} (hx : Introducing x [] P)
    (hf : ∀ a, P a → Introducing (f a) added Q) : Introducing (x >>= f) added Q :=
  hx.bind hf

/-- A part that adds nothing comes last. -/
theorem before {x : Lowering α} {f : α → Lowering β} (hx : Introducing x added P)
    (hf : ∀ a, P a → Introducing (f a) [] Q) : Introducing (x >>= f) added Q := by
  have h := hx.bind hf
  rwa [List.append_nil] at h

theorem pure {a : α} (h : P a) : Introducing (Pure.pure a) [] P :=
  fun _ hd => ⟨hd, .of_same rfl rfl rfl, h⟩

theorem throw (e : LowerError) : Introducing (MonadExcept.throw e : Lowering α) added P :=
  fun _ _ => trivial

theorem mono {P' : α → Prop} {x : Lowering α} (h : Introducing x added P)
    (himp : ∀ a, P a → P' a) : Introducing x added P' :=
  fun d hd => (h d hd).mono fun a _ ⟨hd', hgains, ha⟩ => ⟨hd', hgains, himp a ha⟩

theorem newState {f : Nat → Lowering β} (h : ∀ q, Introducing (f q) added Q) :
    Introducing (Lowering.newState >>= f) added Q :=
  fun d hd => .newState ((h d.size d.reserve (hd.congr rfl rfl (List.Subset.refl _))).mono
    fun _ _ ⟨hd', hgains, hb⟩ => ⟨hd', ⟨hgains.params, hgains.fields, hgains.types⟩, hb⟩)

theorem emit_last (q : Nat) (op : Op) : Introducing (Lowering.emit q op) [] fun _ => True :=
  fun _ hd => ⟨hd.congr rfl rfl (List.Subset.refl _), .of_same rfl rfl rfl, trivial⟩

theorem emit {q : Nat} {op : Op} {f : Unit → Lowering β} (hf : Introducing (f ()) added Q) :
    Introducing (Lowering.emit q op >>= f) added Q :=
  (emit_last q op).after fun _ _ => hf

theorem terminated {q : Nat} {f : Bool → Lowering β} (h : ∀ b, Introducing (f b) added Q) :
    Introducing (Lowering.terminated q >>= f) added Q :=
  fun d hd => .terminated (h _ d hd)

theorem reach {f : Nat → Lowering β} (h : ∀ n, Introducing (f n) added Q) :
    Introducing (Lowering.reach >>= f) added Q :=
  fun d hd => .reach ((h _ { d with reached := d.reached + 1 }
    (hd.congr rfl rfl (List.Subset.refl _))).mono
      fun _ _ ⟨hd', hgains, hb⟩ => ⟨hd', ⟨hgains.params, hgains.fields, hgains.types⟩, hb⟩)

theorem discard {x : Lowering α} (h : Introducing x added P) :
    Introducing (Functor.discard x) added fun _ => True :=
  fun d hd => .discard ((h d hd).mono fun _ _ ⟨hd', hgains, _⟩ => ⟨hd', hgains, trivial⟩)

end Lowering.Introducing

/-- Whether the blank name stands for nothing else. -/
def StateEnv.Plain (env : StateEnv) : Prop := env.renames.find? "_" = none

section Parts

variable {plan : Plan} {flow : Flow} {current cont : Nat} {env : StateEnv}

theorem StateEnv.Plain.withRename (h : env.Plain) {name : String} (hname : name ≠ "_")
    (target : Target) : StateEnv.Plain (env.withRename name target) :=
  (Renames.find?_insert_of_ne _ _ hname.symm).trans h

theorem StateEnv.Plain.inLoop (h : env.Plain) (state : Nat) :
    StateEnv.Plain (env.inLoop state) := by
  rw [Plain, env.renames_inLoop]
  exact h

theorem hoist_introduces (name : String) (type : Expr) :
    Introducing (hoist name type) [.stored (.var name)] fun _ => True := by
  intro d hd
  refine ⟨hd.hoist (freeField_not_mem _ _) type, ⟨rfl, ⟨[freeField d.used name], ?_, ?_⟩, ?_⟩,
    trivial⟩
  · exact List.map_append
  · exact .cons (exists_freeField _ _) .nil
  · exact ⟨[], (List.append_nil _).symm, .nil⟩

theorem hoistIterator_introduces (type : Expr) :
    Introducing (hoistIterator type) [.stored .iterator] fun _ => True := by
  intro d hd
  have happart := hd.hoist (freeField_not_mem d.used (iteratorField d.iterators)) type
  refine ⟨happart.congr rfl rfl (List.Subset.refl _),
    ⟨rfl, ⟨[freeField d.used (iteratorField d.iterators)], ?_, ?_⟩, ?_⟩, trivial⟩
  · exact List.map_append
  · exact .cons ⟨d.iterators, exists_freeField _ _⟩ .nil
  · exact ⟨[], (List.append_nil _).symm, .nil⟩

theorem verbatim_introduces : Introducing (verbatim flow current env) [] fun _ => True := by
  unfold verbatim
  split
  · exact .throw _
  · exact .throw _
  · exact .pure trivial
  · exact .emit_last _ _

/-- Every new variable of a declaration gets a field. -/
theorem hoistNames_introduces {decl : VarDecl} (i : Nat) (names : List String) {inner : StateEnv}
    (hinner : inner.Plain) :
    Introducing (hoistNames decl env i names inner) (introduceAll (decl.freshFrom i names))
      fun result => result.2.2.Plain := by
  induction names generalizing i inner with
  | nil => exact .pure hinner
  | cons name names ih =>
      simp only [hoistNames]
      split
      · rename_i hblank
        have hblank : name = "_" := by simpa using hblank
        simp only [VarDecl.freshFrom, hblank, true_or, if_true]
        exact (ih (i + 1) hinner).before fun result h => .pure h
      · rename_i hname
        have hname : name ≠ "_" := by simpa using hname
        split
        · exact .throw _
        · rename_i htype
          have hreuses : decl.reuses i = true := by rw [VarDecl.reuses, htype]; rfl
          simp only [VarDecl.freshFrom, hreuses, or_true, if_true]
          exact (ih (i + 1) hinner).before fun result h => .pure h
        · rename_i type hmissing htype
          have hreuses : ¬(name = "_" ∨ decl.reuses i = true) := by
            rw [VarDecl.reuses, htype, Option.any_some]
            cases type with
            | missing => exact absurd rfl hmissing
            | _ => simp [hname, Expr.isMissing]
          simp only [VarDecl.freshFrom, if_neg hreuses]
          refine (hoist_introduces name _).bind fun field _ => ?_
          exact (ih (i + 1) (hinner.withRename hname _)).before fun result h => .pure h

theorem resetFields_introduces (fresh : List (Expr × Expr)) :
    Introducing (resetFields current fresh) [] fun _ => True := by
  induction fresh with
  | nil => exact .pure trivial
  | cons p fresh ih => exact .emit ih

theorem VarDecl.lower_introduces (decl : VarDecl) (henv : env.Plain) :
    Introducing (decl.lower current env) (introduceAll decl.fresh) StateEnv.Plain := by
  refine (hoistNames_introduces 0 decl.names henv).before ?_
  rintro ⟨lhs, fresh, inner⟩ hinner
  by_cases hvalues : decl.values.isEmpty = true
  · simp only [hvalues, if_true]
    exact (resetFields_introduces fresh).after fun _ _ => .pure hinner
  · simp only [hvalues]
    exact .emit (.pure hinner)

/-- Names that are lifted are taken, and nothing else happens to a draft. -/
theorem liftNames_takes (plan : Plan) (names : List String) (env : StateEnv) (d : Draft) :
    Ensures (fun _ => True) d (liftNames plan names env) fun after d' =>
      d'.fields = d.fields ∧ d'.params = d.params ∧ d.used ⊆ d'.used ∧
        ∀ x ∈ names.filter (· != "_"), after.liftedName x ∈ d'.used := by
  induction names generalizing env d with
  | nil => exact .pure ⟨rfl, rfl, List.Subset.refl _, List.forall_mem_nil _⟩
  | cons name names ih =>
      simp only [liftNames]
      split
      · rename_i hblank
        have hfilter : (name :: names).filter (· != "_") = names.filter (· != "_") := by
          simp [bne, hblank]
        rw [hfilter]
        exact ih env d
      · rename_i hname
        have hfilter : (name :: names).filter (· != "_") =
            name :: names.filter (· != "_") := by
          simp [bne, hname]
        let lifted := freeField d.used (plan.holder ++ "_" ++ name)
        let d₁ : Draft := { d with used := lifted :: d.used }
        refine Ensures.bind (P := fun a d' => a = lifted ∧ d' = d₁) ⟨rfl, rfl⟩ ?_
        rintro _ _ ⟨rfl, rfl⟩
        have hrest := (ih (env.withRename name ⟨lifted, false⟩) d₁).and
          (liftNames_lifts plan names _)
        refine hrest.mono ?_
        rintro after d' ⟨⟨hfields, hparams, hused, htaken⟩, -, hlifts, -⟩
        refine ⟨hfields, hparams, fun x hx => hused (List.mem_cons_of_mem _ hx), ?_⟩
        rw [hfilter]
        intro x hx
        by_cases hmem : x ∈ names.filter (· != "_")
        · exact htaken x hmem
        · -- the last declaration of a name decides what it is lifted to
          obtain rfl := (List.mem_cons.mp hx).resolve_right hmem
          rw [hlifts.liftedName_of_not_mem hmem]
          exact hused List.mem_cons_self

theorem names_lifted (env : StateEnv) (specs : List Spec) :
    (specs.map (Spec.lifted env)).flatMap Spec.names =
      (specs.flatMap Spec.names).map env.liftedName := by
  rw [List.flatMap_map, List.map_flatMap]
  congr 1
  funext spec
  cases spec <;> rfl

/-- A declaration is lifted to one with new names. -/
theorem liftDecl_introduces (decl : Decl) (henv : env.Plain) :
    Introducing (liftDecl plan decl env) [.lifted decl] StateEnv.Plain := by
  intro d hd
  have hnames := (liftNames_takes plan (decl.specs.flatMap Spec.names) env d).and
    (liftNames_lifts plan (decl.specs.flatMap Spec.names) env)
  rw [← decl.declared_eq] at hnames
  refine hnames.bind fun after d₁ h => ?_
  obtain ⟨⟨hfields, hparams, hused, htaken⟩, htypes, hlifts, hfresh⟩ := h
  have hblank : "_" ∉ decl.declared := by
    simp [Decl.declared, Spec.declared]
  have hplain : after.Plain := by
    rw [StateEnv.Plain, hlifts, if_neg hblank]
    exact henv
  have hkept : after.liftedName "_" = "_" := by
    rw [StateEnv.liftedName, Env.find?, hplain]
  have hspecs := names_lifted after decl.specs
  let lifted : Decl := { decl with specs := decl.specs.map (Spec.lifted after) }
  have hlifted : ∀ x ∈ lifted.declared, x ∉ d.used ∧ x ∈ d₁.used := by
    intro x hx
    obtain ⟨y, hy, rfl⟩ := Decl.exists_of_mem_declared hkept hspecs hx
    exact ⟨hfresh.fresh y hy, htaken y hy⟩
  refine ⟨?_, ⟨hparams, ?_, [lifted], ?_, ?_⟩, hplain⟩
  · exact hd.addType hlifted hused hfields (congrArg (· ++ [lifted]) htypes)
  · exact ⟨[], by simp [Draft.fieldNames, hfields], .nil⟩
  · exact congrArg (· ++ [lifted]) htypes
  · exact .cons ⟨after.liftedName, hkept, hfresh.distinct, hspecs⟩ .nil

theorem lowerTest_introduces (state : Nat) (cond : Expr) (body exit : Nat) :
    Introducing (lowerTest state cond body exit env) [] fun _ => True := by
  cases cond with
  | missing => exact .emit_last _ _
  | _ => exact .emit (.emit_last _ _)

/-- A key or value that is declared gets a field. -/
theorem lowerTarget_introduces {define : Bool} {target type : Expr} {inner : StateEnv}
    (hinner : inner.Plain) :
    Introducing (lowerTarget define target type env inner)
      (introduceAll (targetNames define target)) fun result => result.2.Plain := by
  unfold lowerTarget
  split
  · have hnone : targetNames define .missing = [] := by cases define <;> rfl
    rw [hnone]
    exact .pure hinner
  · rename_i name kept
    split
    · rename_i hblank
      have hnone : targetNames define (.ident name kept) = [] := by
        cases define <;> simp [targetNames, Expr.name?, bne, hblank]
      rw [hnone]
      exact .pure hinner
    · rename_i hname
      split
      · rename_i hdefine
        have hsome : targetNames define (.ident name kept) = [name] := by
          simp [targetNames, hdefine, Expr.name?, bne, hname]
        rw [hsome]
        exact (hoist_introduces name _).before fun field _ =>
          .pure (hinner.withRename (by simpa using hname) _)
      · rename_i hdefine
        have hnone : targetNames define (.ident name kept) = [] := by
          simp [targetNames, hdefine]
        rw [hnone]
        exact .pure hinner
  · rename_i hmissing hident
    have hnone : targetNames define target = [] := by
      cases target with
      | ident name kept => exact absurd rfl (hident name kept)
      | _ => cases define <;> rfl
    rw [hnone]
    exact .pure hinner

/-- The header of a loop over an iterator adds the iterator, and then what it declares. -/
theorem Walk.lower_introduces {w : Walk} (henv : env.Plain) :
    Introducing (w.lower plan current env) (.stored .iterator :: introduceAll w.names)
      fun result => result.2.2.Plain := by
  rw [w.names_eq, introduceAll, List.map_append]
  refine .newState fun init => .emit ?_
  refine (hoistIterator_introduces _).bind fun it _ => .emit ?_
  refine (lowerTarget_introduces henv).bind ?_
  rintro ⟨key, inner⟩ hinner
  refine (lowerTarget_introduces hinner).before ?_
  rintro ⟨value, inner'⟩ hinner'
  exact .newState fun cond => .emit (.newState fun body => .emit (.emit (.pure hinner')))

theorem lowerArms_introduces (cases' : List FlowCase) :
    Introducing (lowerArms env cases') [] fun result => result.1.length = cases'.length := by
  induction cases' with
  | nil => exact .pure rfl
  | cons c cs ih =>
      refine .newState fun state => ih.after ?_
      rintro ⟨states, arms⟩ hlength
      exact .pure (congrArg (· + 1) hlength)

theorem closeBlock_introduces : Introducing (closeBlock current cont env) [] fun _ => True := by
  refine .terminated fun ended => ?_
  cases ended with
  | true => exact .emit_last _ _
  | false => exact .emit (.emit_last _ _)

theorem Flow.lowerInit_introduces (henv : env.Plain) :
    Introducing (flow.lowerInit current env) flow.introducesInit StateEnv.Plain := by
  cases flow with
  | missing => exact .pure henv
  | declare d => exact d.lower_introduces henv
  | _ => exact verbatim_introduces.after fun _ _ => .pure henv

theorem Flow.lowerPost_introduces : Introducing (flow.lowerPost current env) [] fun _ => True := by
  unfold Flow.lowerPost
  split
  · exact .pure trivial
  · exact verbatim_introduces

/-- A statement of a block adds what lowering it adds, unless it is copied. -/
theorem stitch_introduces {lower : StateEnv → Lowering Unit}
    (hplan : plan.split = fun _ s => s.modifiesControlFlow) (henv : env.Plain)
    (hlower : ∀ child : StateEnv, child.Plain →
      Introducing (lower child) flow.introduces fun _ => True) :
    Introducing (stitch plan flow lower current cont env)
      (if flow.isLowered then flow.introduces else []) StateEnv.Plain := by
  have hsplit : flow.isLowered = flow.modifiesControlFlow → Introducing (do
        let child := (env.withNext cont).clearLabels
        let number ← reach
        if plan.split number flow then lower child else verbatim flow current child
        pure env) (if flow.isLowered then flow.introduces else []) StateEnv.Plain := by
    intro hsame
    refine .reach fun number => ?_
    rw [hplan, hsame]
    by_cases hmod : flow.modifiesControlFlow = true
    · simp only [hmod, if_true]
      exact (hlower (env.withNext cont).clearLabels henv).before fun _ _ => .pure henv
    · simp only [hmod]
      exact verbatim_introduces.after fun _ _ => .pure henv
  cases flow with
  | declare d => exact d.lower_introduces henv
  | lift d => exact liftDecl_introduces d henv
  | _ => exact hsplit rfl

/-- What follows a statement of a block. -/
theorem terminated_introduces {x : Lowering Unit} {y : Nat → Lowering Unit}
    {added : List Introduction} (hx : Introducing x added fun _ => True)
    (hy : ∀ q, Introducing (y q) added fun _ => True) :
    Introducing (do
      if ← Lowering.terminated current then
        let fresh ← newState
        y fresh
      else x) added fun _ => True := by
  refine .terminated fun ended => ?_
  cases ended with
  | true => exact .newState hy
  | false => exact hx

theorem branch_introduces {cond : Expr} {first second : Nat} :
    Introducing (branch current cond first second) [] fun _ => True :=
  .emit (.emit_last _ _)

/-- An else part that is not a block is lowered like a block of it. -/
theorem lowerSingle_introduces {lower : StateEnv → Lowering Unit}
    (hplan : plan.split = fun _ s => s.modifiesControlFlow) (henv : env.Plain)
    (hlower : ∀ child : StateEnv, child.Plain →
      Introducing (lower child) flow.introduces fun _ => True) :
    Introducing (lowerSingle plan flow lower current env)
      (if flow.isLowered then flow.introduces else []) fun _ => True := by
  refine .newState fun cont => (stitch_introduces hplan henv hlower).before fun _ _ => ?_
  exact terminated_introduces closeBlock_introduces fun _ => closeBlock_introduces

end Parts

section Recursion

variable {plan : Plan}

mutual

/-- Lowering a statement adds what the statement introduces. -/
theorem Flow.lower_introduces {env : StateEnv} (flow : Flow) (current : Nat)
    (hplan : plan.split = fun _ s => s.modifiesControlFlow) (henv : env.Plain) :
    Introducing (flow.lower plan current env) flow.introduces fun _ => True := by
  cases flow with
  | missing => exact .throw _
  | lift d => exact (liftDecl_introduces d henv).discard
  | declare d => exact (d.lower_introduces henv).discard
  | yield value => exact .emit_last _ _
  | finish => exact .emit_last _ _
  | simple stmt => exact verbatim_introduces
  | brk label =>
      simp only [Flow.lower]
      split
      · exact .throw _
      · exact .emit_last _ _
  | cont label =>
      simp only [Flow.lower]
      split
      · exact .throw _
      · exact .emit_last _ _
  | labeled label stmt => exact stmt.lower_introduces current hplan henv
  | block body =>
      exact .newState fun cont => lowerStmts_introduces body current cont hplan henv
  | «while» cond body =>
      refine .newState fun condState => .emit (.newState fun bodyState => ?_)
      refine (lowerTest_introduces _ _ _ _).after fun _ _ => .newState fun cont => ?_
      exact lowerStmts_introduces body bodyState cont hplan (henv.inLoop condState)
  | doWhile body cond =>
      refine .newState fun bodyState => .emit (.newState fun condState => ?_)
      refine (lowerTest_introduces _ _ _ _).after fun _ _ => .newState fun cont => ?_
      exact lowerStmts_introduces body bodyState cont hplan (henv.inLoop condState)
  | loop init cond post body =>
      refine .newState fun initState => .emit ?_
      refine (Flow.lowerInit_introduces henv).bind fun inner hinner => ?_
      refine .newState fun condState => .emit (.newState fun bodyState => ?_)
      refine (lowerTest_introduces _ _ _ _).after fun _ _ => .newState fun updateState => ?_
      refine Flow.lowerPost_introduces.after fun _ _ => .emit (.newState fun cont => ?_)
      exact lowerStmts_introduces body bodyState cont hplan (hinner.inLoop updateState)
  | walk header body =>
      refine (header.lower_introduces henv).bind ?_
      rintro ⟨condState, bodyState, inner⟩ hinner
      exact .newState fun cont =>
        lowerStmts_introduces body bodyState cont hplan (hinner.inLoop condState)
  | switch tag cases =>
      refine .newState fun dispatcher => .emit ?_
      refine (lowerArms_introduces cases).after ?_
      rintro ⟨states, arms⟩ hlength
      refine .emit ?_
      have hlower : Introducing (lowerCases plan cases states
          ((env.withBreak "" env.next).clearLabels)) (casesIntroduce cases) fun _ => True :=
        lowerCases_introduces cases states hlength hplan henv
      by_cases hdefault : cases.any FlowCase.isDefault = true
      · simp only [hdefault, if_true]
        exact hlower
      · simp only [hdefault]
        exact .emit hlower
  | ite cond body other =>
      have hclear : StateEnv.Plain env.clearLabels := henv
      have helse : ∀ elseState, Introducing (other.lowerElse plan elseState env.clearLabels)
          (if other.isBlock || other.isLowered then other.introduces else []) fun _ => True := by
        intro elseState
        cases other with
        | block otherBody =>
            exact .newState fun cont => lowerStmts_introduces otherBody elseState cont hplan hclear
        | _ =>
            rw [Flow.lowerElse_single rfl]
            exact lowerSingle_introduces hplan hclear fun child hchild =>
              Flow.lower_introduces _ elseState hplan hchild
      rw [Flow.lower_ite]
      refine .newState fun thenState => .newState fun cont => ?_
      refine (lowerStmts_introduces body thenState cont hplan hclear).bind fun _ _ => ?_
      cases hm : other.isMissing with
      | true =>
          obtain rfl := Flow.isMissing_eq_true.mp hm
          exact branch_introduces
      | false =>
          refine .newState fun elseState => (helse elseState).before fun _ _ => ?_
          split
          · exact branch_introduces
          · exact .emit_last _ _

theorem lowerStmts_introduces {env : StateEnv} (fs : List Flow) (current cont : Nat)
    (hplan : plan.split = fun _ s => s.modifiesControlFlow) (henv : env.Plain) :
    Introducing (lowerStmts plan fs current cont env) (flowsIntroduce fs) fun _ => True := by
  cases fs with
  | nil => exact closeBlock_introduces
  | cons f fs =>
      refine (stitch_introduces hplan henv fun child hchild =>
        f.lower_introduces current hplan hchild).bind fun env' henv' => ?_
      exact terminated_introduces (lowerStmts_introduces fs current cont hplan henv') fun fresh =>
        lowerStmts_introduces fs cont fresh hplan henv'

theorem lowerCases_introduces {env : StateEnv} (cases' : List FlowCase) (states : List Nat)
    (hlength : states.length = cases'.length)
    (hplan : plan.split = fun _ s => s.modifiesControlFlow) (henv : env.Plain) :
    Introducing (lowerCases plan cases' states env) (casesIntroduce cases') fun _ => True := by
  match cases', states with
  | [], _ => exact .pure trivial
  | c :: cs, state :: states =>
      refine (c.lower_introduces state hplan ?_).bind fun _ _ =>
        lowerCases_introduces cs states (Nat.succ.inj hlength) hplan henv
      cases states with
      | nil => exact henv
      | cons next states => exact henv

theorem FlowCase.lower_introduces {env : StateEnv} (c : FlowCase) (current : Nat)
    (hplan : plan.split = fun _ s => s.modifiesControlFlow) (henv : env.Plain) :
    Introducing (c.lower plan current env) c.introduces fun _ => True := by
  cases c with
  | case values body =>
      exact .newState fun cont => lowerStmts_introduces body current cont hplan henv
  | default body =>
      exact .newState fun cont => lowerStmts_introduces body current cont hplan henv

end

end Recursion

section Parameters

theorem foldl_withRename_plain {names : List String} (hnames : "_" ∉ names) {env : StateEnv}
    (henv : env.Plain) :
    StateEnv.Plain (names.foldl (fun env name => env.withRename name ⟨name, true⟩) env) := by
  induction names generalizing env with
  | nil => exact henv
  | cons name names ih =>
      rw [List.mem_cons, not_or] at hnames
      exact ih hnames.2 (henv.withRename (Ne.symm hnames.1) _)

/-- Parameters get fields of their own names. -/
theorem lowerParams_takes (fs : List Field) {env : StateEnv} (henv : env.Plain) (d : Draft) :
    Ensures (fun _ => True) d (lowerParams fs env) fun env' d' =>
      env'.Plain ∧ d'.types = d.types ∧
        d'.fieldNames = d.fieldNames ++ (fs.flatMap Field.names).filter (· != "_") ∧
        d'.params = d.params ++ (fs.flatMap Field.names).filter (· != "_") ∧
        d.used ⊆ d'.used ∧ (fs.flatMap Field.names).filter (· != "_") ⊆ d'.used := by
  induction fs generalizing env d with
  | nil =>
      exact .pure ⟨henv, rfl, (List.append_nil _).symm, (List.append_nil _).symm,
        List.Subset.refl _, List.nil_subset _⟩
  | cons f fs ih =>
      let names := f.names.filter (· != "_")
      refine Ensures.bind (P := fun env' d' => env'.Plain ∧ d'.types = d.types ∧
        d'.fieldNames = d.fieldNames ++ names ∧ d'.params = d.params ++ names ∧
        d'.used = names ++ d.used) ?_ ?_
      · refine ⟨foldl_withRename_plain (by simp) henv, rfl, ?_, rfl, rfl⟩
        show List.map Prod.fst (_ ++ List.map _ _) = _
        rw [List.map_append, List.map_map]
        congr 1
        exact List.map_id _
      · rintro env₁ d₁ ⟨henv₁, htypes, hfields, hparams, hused⟩
        refine (ih henv₁ d₁).mono fun env' d' h => ?_
        obtain ⟨henv', htypes', hfields', hparams', hused', htaken⟩ := h
        have hall : ((f :: fs).flatMap Field.names).filter (· != "_") =
            names ++ (fs.flatMap Field.names).filter (· != "_") := by
          rw [List.flatMap_cons, List.filter_append]
        rw [hall]
        refine ⟨henv', htypes'.trans htypes, ?_, ?_, ?_, ?_⟩
        · rw [hfields', hfields, List.append_assoc]
        · rw [hparams', hparams, List.append_assoc]
        · exact fun x hx => hused' (hused ▸ List.mem_append_right _ hx)
        · exact List.append_subset.mpr
            ⟨fun x hx => hused' (hused ▸ List.mem_append_left _ hx), htaken⟩

end Parameters

/-- The body of a generator adds what it introduces to the parameters. -/
theorem Routine.lowerBody_introduces {fn : Routine} (hparams : fn.parameters.Nodup) :
    Ensures (fun _ => True) Draft.initial (fn.lowerBody fun _ s => s.modifiesControlFlow)
      fun _ d => d.Apart ∧ d.params = fn.parameters ∧ (∃ names,
        d.fieldNames = fn.parameters ++ names ∧ List.Forall₂ FieldOwner.Named fn.stored names) ∧
        List.Forall₂ Decl.LiftsTo fn.lifted d.types := by
  have hstart : StateEnv.Plain (Env.start endState) := rfl
  refine (lowerParams_takes _ hstart Draft.initial).bind fun env d h => ?_
  obtain ⟨henv, htypes, hfields, hparams', -, htaken⟩ := h
  have hfields : d.fieldNames = fn.parameters := hfields
  have hinitial : d.Apart := by
    refine ⟨hfields ▸ hparams, hfields ▸ htaken, ?_, ?_⟩
    · rw [htypes]
      nofun
    · rw [htypes]
      exact .nil
  have hlower : Introducing (do
      let cont ← newState
      lowerStmts ⟨fn.name, fn.runtime, fun _ s => s.modifiesControlFlow⟩ fn.body entryState
        cont env)
      (flowsIntroduce fn.body) fun _ => True :=
    .newState fun cont => lowerStmts_introduces fn.body entryState cont rfl henv
  refine (hlower d hinitial).mono fun _ d' ⟨happart, hgains, _⟩ => ?_
  obtain ⟨names, hnames, hnamed⟩ := hgains.fields
  obtain ⟨decls, hdecls, hlifts⟩ := hgains.types
  refine ⟨happart, hgains.params.trans hparams', ⟨names, hfields ▸ hnames, hnamed⟩, ?_⟩
  rw [hdecls, htypes]
  exact hlifts

theorem exists_of_forall₂ {α β : Type} {R : α → β → Prop} {as : List α} {bs : List β}
    (h : List.Forall₂ R as bs) {b : β} (hb : b ∈ bs) : ∃ a ∈ as, R a b := by
  induction h with
  | nil => cases hb
  | cons hab _ ih =>
      rcases List.mem_cons.mp hb with rfl | hb
      · exact ⟨_, List.mem_cons_self, hab⟩
      · obtain ⟨a, ha, hR⟩ := ih hb
        exact ⟨a, List.mem_cons_of_mem _ ha, hR⟩

/-- The fields of a generator whose parameters have different names have different names.  They
are the parameters, which keep their names, and then one field for each variable and for each
iterator that is lowered, named for it and unlike any state method.  Lifted declarations declare
new names in place of their own, which are no fields.  No two declarations share one, and the same
name is declared twice only by a declaration that did so itself. -/
theorem Routine.lower_names_apart (fn : Routine) (hparams : fn.parameters.Nodup) {h : Holder}
    (hlower : fn.lower = .ok h) :
    (h.fields.map Prod.fst).Nodup ∧ h.params = fn.parameters ∧
      (∃ names, h.fields.map Prod.fst = fn.parameters ++ names ∧
        List.Forall₂ FieldOwner.Named fn.stored names ∧
        ∀ name ∈ names, ∀ id, name ≠ stateMethod id) ∧
      List.Forall₂ Decl.LiftsTo fn.lifted h.types ∧
      (∀ x ∈ h.types.flatMap Decl.declared, x ∉ h.fields.map Prod.fst) ∧
      (h.types.Pairwise fun decl decl' => decl.declared.Disjoint decl'.declared) ∧
      ((∀ decl ∈ fn.lifted, decl.declared.Nodup) → (h.types.flatMap Decl.declared).Nodup) := by
  obtain ⟨d, hd, rfl⟩ := Routine.lowerWith_ok hlower
  obtain ⟨happart, hparams', ⟨names, hnames, hnamed⟩, hlifts⟩ :=
    (Routine.lowerBody_introduces hparams).ok hd
  refine ⟨happart.fields, hparams', ⟨names, hnames, hnamed, ?_⟩, hlifts, ?_, happart.types, ?_⟩
  · intro name hname id
    obtain ⟨s, -, hs⟩ := exists_of_forall₂ hnamed hname
    exact hs.ne_stateMethod id
  · intro x hx
    obtain ⟨decl, hdecl, hx⟩ := List.mem_flatMap.mp hx
    exact (happart.lifted decl hdecl x hx).2
  · intro hdeclared
    rw [List.nodup_flatMap]
    refine ⟨fun decl hdecl => ?_, happart.types⟩
    obtain ⟨source, hsource, hlift⟩ := exists_of_forall₂ hlifts hdecl
    exact hlift.nodup (hdeclared source hsource)

/-- A generator that declares its parameter again, and then a variable with the name of the field
of that, and a constant. -/
def numbered : Routine where
  name := "numbered"
  recv := none
  typeParams := .absent
  params := .list [.mk ["x", "_"] (.name "int") none]
  elem := .name "int"
  runtime := "yieldgen"
  body := [
    .declare ⟨["x"], [.own (.name "int")], [], false⟩,
    .lift ⟨.const, [.value ["x", "y"] .missing [.lit .int "1", .lit .int "2"]]⟩,
    .declare ⟨["x1"], [.own (.name "int")], [], false⟩,
    .yield (.name "x1")]

theorem numbered_names_apart :
    numbered.parameters.Nodup ∧ (∀ decl ∈ numbered.lifted, decl.declared.Nodup) ∧
      ∃ h, numbered.lower = .ok h ∧ h.params = ["x"] ∧
        (∃ names, h.fields.map Prod.fst = "x" :: names ∧
          List.Forall₂ FieldOwner.Named [.var "x", .var "x1"] names) ∧
        (h.fields.map Prod.fst).Nodup ∧ (h.types.flatMap Decl.declared).Nodup := by
  have hparams : numbered.parameters.Nodup := by decide
  have hlifted : ∀ decl ∈ numbered.lifted, decl.declared.Nodup := by decide
  have hok : numbered.lower.isOk = true := by decide +kernel
  refine ⟨hparams, hlifted, ?_⟩
  cases hlower : numbered.lower with
  | error e =>
      rw [hlower] at hok
      cases hok
  | ok h =>
      obtain ⟨hfields, hown, ⟨names, hnames, hnamed, -⟩, -, -, -, htypes⟩ :=
        Routine.lower_names_apart numbered hparams hlower
      exact ⟨h, rfl, hown, ⟨names, hnames, hnamed⟩, hfields, htypes hlifted⟩

example : (numbered.lower.map fun h => h.fields.map Prod.fst) = .ok ["x", "x1", "x11"] := by cbv

/-- A generator with a declaration that declares a constant twice. -/
def repeated : Routine where
  name := "g"
  recv := none
  typeParams := .absent
  params := .absent
  elem := .name "int"
  runtime := "yieldgen"
  body := [
    .lift ⟨.const,
      [.value ["x"] .missing [.lit .int "1"], .value ["x"] .missing [.lit .int "2"]]⟩,
    .yield (.name "x")]

/-- Both constants get the name that the second one is lifted to. -/
theorem repeated_names_agree :
    repeated.parameters.Nodup ∧
      (repeated.lower.map fun h => h.types.flatMap Decl.declared) = .ok ["g_x1", "g_x1"] ∧
      ¬ ["g_x1", "g_x1"].Nodup := by
  refine ⟨by decide, by cbv, by simp⟩

end YieldMachine
