import YieldMachine.Proofs.Source.Labels
import YieldMachine.Tree.Qualifier

/-!
# Qualifiers of packages

The types of a routine are spelled with qualifiers: the names that the file imports packages under,
and the own names of packages that it does not import, which are imported in addition.  A qualifier
stands for exactly its package unless the package is imported without a name, or its name is
claimed a second time by an import that is added.
-/

namespace YieldMachine

namespace Ty

variable {q : PackageRef → String}

/-- Whether names are qualifiers of packages. -/
def Qualify (q : PackageRef → String) (ps : List PackageRef) (names : List String) : Prop :=
  ∀ x ∈ names, x ≠ "" ∧ ∃ p ∈ ps, x = q p

theorem Qualify.nil (ps : List PackageRef) : Qualify q ps [] := nofun

theorem Qualify.append {ps ps' : List PackageRef} {names names' : List String}
    (h : Qualify q ps names) (h' : Qualify q ps' names') :
    Qualify q (ps ++ ps') (names ++ names') := by
  intro x hx
  rcases List.mem_append.mp hx with hx | hx
  · obtain ⟨hne, p, hp, rfl⟩ := h x hx
    exact ⟨hne, p, List.mem_append_left _ hp, rfl⟩
  · obtain ⟨hne, p, hp, rfl⟩ := h' x hx
    exact ⟨hne, p, List.mem_append_right _ hp, rfl⟩

theorem qualify_qualified (q : PackageRef → String) (pkg : Option PackageRef) (name : String) :
    Qualify q pkg.toList ((qualified ((pkg.map q).getD "") name).qualifiers []) := by
  cases pkg with
  | none => exact .nil _
  | some p =>
      rw [qualified, Option.map_some, Option.getD_some]
      split
      · exact .nil _
      · rename_i hne
        intro x hx
        obtain rfl : x = q p := by simpa [Expr.qualifiers, Expr.unbound, Expr.name] using hx
        exact ⟨by simpa using hne, p, by simp⟩

theorem qualifiers_instantiated (x : Expr) (args : List Expr) :
    (instantiated x args).qualifiers [] = x.qualifiers [] ++ exprsQualifiers [] args := by
  unfold instantiated
  split <;> simp [Expr.qualifiers, exprsQualifiers]

theorem qualifiers_joined (es : List Expr) :
    (joined es).qualifiers [] = exprsQualifiers [] es := by
  have hfold : ∀ (es : List Expr) (e : Expr), (es.foldl (.binary .bitOr) e).qualifiers [] =
      e.qualifiers [] ++ exprsQualifiers [] es := by
    intro es
    induction es with
    | nil => simp [exprsQualifiers]
    | cons e' es ih =>
        intro e
        rw [List.foldl_cons, ih, Expr.qualifiers, exprsQualifiers, List.append_assoc]
  cases es with
  | nil => rfl
  | cons e es => rw [joined, hfold, exprsQualifiers]

theorem fieldsQualifiers_append (fs gs : List Field) :
    fieldsQualifiers [] (fs ++ gs) = fieldsQualifiers [] fs ++ fieldsQualifiers [] gs := by
  induction fs with
  | nil => rfl
  | cons f fs ih => rw [List.cons_append, fieldsQualifiers, fieldsQualifiers, ih, List.append_assoc]

mutual

/-- The qualifiers of a spelled type are those of its packages. -/
theorem qualify_spell (q : PackageRef → String) (t : Ty) :
    Qualify q t.packages ((t.spell q).qualifiers []) := by
  cases t with
  | basic name | param name => exact .nil _
  | named pkg name args | synonym pkg name args =>
      rw [spell, packages, qualifiers_instantiated]
      exact (qualify_qualified q pkg name).append (qualify_spellAll q args)
  | pointer element | slice element | array length element => exact element.qualify_spell q
  | map key element => exact (key.qualify_spell q).append (element.qualify_spell q)
  | chan direction element =>
      rcases spell_chan q direction element with h | h <;> rw [h] <;>
        exact element.qualify_spell q
  | struct fields => exact qualify_spellFields q fields
  | func signature => exact qualify_spellSignature q signature
  | interface methods embeds implicit =>
      have hmethods := qualify_spellMethods q methods
      have hembeds := qualify_spellAll q embeds
      have hfields := qualify_spellEmbeds q embeds
      rw [packages]
      obtain ⟨embedded, rfl, h⟩ | h := spell_interface q methods embeds implicit
      · rw [h]
        intro x hx
        exact hmethods.append hembeds x (List.mem_append_right _ (List.mem_append_left _ hx))
      · rw [h, Expr.qualifiers, Fields.qualifiers, fieldsQualifiers_append]
        exact hmethods.append hfields
  | union terms =>
      rw [spell, packages, qualifiers_joined]
      exact qualify_spellTerms q terms
  | tuple items => exact .nil _

theorem qualify_spellAll (q : PackageRef → String) (ts : List Ty) :
    Qualify q (packagesOfAll ts) (exprsQualifiers [] (spellAll q ts)) := by
  cases ts with
  | nil => exact .nil _
  | cons t ts => exact (t.qualify_spell q).append (qualify_spellAll q ts)

theorem qualify_spellFields (q : PackageRef → String) (fs : List TyField) :
    Qualify q (packagesOfFields fs) (fieldsQualifiers [] (spellFields q fs)) := by
  cases fs with
  | nil => exact .nil _
  | cons f fs =>
      obtain ⟨name, ty, embedded, tag⟩ := f
      exact (ty.qualify_spell q).append (qualify_spellFields q fs)

theorem qualify_spellSignature (q : PackageRef → String) (signature : TySignature) :
    Qualify q (packagesOfSignature signature)
      ((spellSignature q signature).qualifiers []) := by
  obtain ⟨params, results, variadic⟩ := signature
  have hresults : Qualify q (packagesOfParams results) ((if results.isEmpty then Fields.absent
      else .list (spellParams q false results)).qualifiers []) := by
    split
    · exact .nil _
    · exact qualify_spellParams q false results
  exact (qualify_spellParams q variadic params).append hresults

theorem qualify_spellParams (q : PackageRef → String) (variadic : Bool) (ps : List TyParam) :
    Qualify q (packagesOfParams ps) (fieldsQualifiers [] (spellParams q variadic ps)) := by
  cases ps with
  | nil => exact .nil _
  | cons p ps =>
      obtain ⟨name, ty⟩ := p
      have hty := ty.qualify_spell q
      by_cases hlast : ∃ element, ty = .slice element ∧ ps = []
      · -- the last parameter is spelled by itself, since it may take the rest of the arguments
        obtain ⟨element, rfl, rfl⟩ := hlast
        rw [spellParams]
        refine .append ?_ (.nil _)
        cases variadic <;> exact hty
      · rw [spellParams]
        · exact hty.append (qualify_spellParams q variadic ps)
        · exact fun element hps hty => hlast ⟨element, hty, hps⟩

theorem qualify_spellMethods (q : PackageRef → String) (ms : List TyMethod) :
    Qualify q (packagesOfMethods ms) (fieldsQualifiers [] (spellMethods q ms)) := by
  cases ms with
  | nil => exact .nil _
  | cons m ms =>
      obtain ⟨name, signature⟩ := m
      exact (qualify_spellSignature q signature).append (qualify_spellMethods q ms)

theorem qualify_spellEmbeds (q : PackageRef → String) (ts : List Ty) :
    Qualify q (packagesOfAll ts) (fieldsQualifiers [] (spellEmbeds q ts)) := by
  cases ts with
  | nil => exact .nil _
  | cons t ts => exact (t.qualify_spell q).append (qualify_spellEmbeds q ts)

theorem qualify_spellTerms (q : PackageRef → String) (ts : List TyTerm) :
    Qualify q (packagesOfTerms ts) (exprsQualifiers [] (spellTerms q ts)) := by
  cases ts with
  | nil => exact .nil _
  | cons t ts =>
      obtain ⟨tilde, ty⟩ := t
      refine .append ?_ (qualify_spellTerms q ts)
      cases tilde <;> exact ty.qualify_spell q

end

end Ty

namespace Source

/-- The name that an import binds, and the path that it stands for.  A blank or dotted import binds
no name. -/
def Import.binding? (i : Import) : Option (String × String) :=
  match pathText? i.path, i.name.or i.pkgName with
  | some path, some name => if name = "_" ∨ name = "." then none else some (name, path)
  | _, _ => none

/-- The names that imports bind, with their paths. -/
def bindings (imports : List Import) : List (String × String) := imports.filterMap Import.binding?

/-- The names that are bound in a generated file: those that its source imports, and the packages
that generators add under their own names. -/
def importTable (imports : List Import) (gs : List Generator) : List (String × String) :=
  bindings imports ++ (gs.flatMap Generator.imports).map Prod.swap

/-- Whether a name is bound, and to one path only. -/
def BindsOnly (table : List (String × String)) (name path : String) : Prop :=
  (name, path) ∈ table ∧ ∀ other, (name, other) ∈ table → other = path

section Tables

variable {own : String} {imports : List Import} {path name : String} {p : PackageRef}

theorem Import.binding?_eq_some {i : Import} : i.binding? = some (name, path) ↔
    pathText? i.path = some path ∧ i.name.or i.pkgName = some name ∧ name ≠ "_" ∧ name ≠ "." := by
  unfold binding?
  cases pathText? i.path with
  | none => simp
  | some path' =>
      cases i.name.or i.pkgName with
      | none => simp
      | some name' =>
          by_cases hname : name' = "_" ∨ name' = "."
          · simp only [hname, if_true]
            constructor
            · exact nofun
            · rintro ⟨-, hsome, hblank, hdot⟩
              obtain rfl := Option.some.inj hsome
              exact absurd hname (not_or.mpr ⟨hblank, hdot⟩)
          · simp only [hname, if_false, Option.some.injEq, Prod.mk.injEq]
            constructor
            · rintro ⟨rfl, rfl⟩
              exact ⟨rfl, rfl, not_or.mp hname⟩
            · rintro ⟨rfl, rfl, -⟩
              exact ⟨rfl, rfl⟩

theorem mem_bindings : (name, path) ∈ bindings imports ↔ ∃ i ∈ imports,
    pathText? i.path = some path ∧ i.name.or i.pkgName = some name ∧ name ≠ "_" ∧ name ≠ "." := by
  simp only [bindings, List.mem_filterMap, Import.binding?_eq_some]

/-- A package that is imported under a name that can be used is bound to it. -/
theorem mem_bindings_of_importedName? (h : importedName? imports path = some name)
    (hblank : name ≠ "_") (hdot : name ≠ ".") : (name, path) ∈ bindings imports := by
  obtain ⟨i, hi, hname⟩ := List.mem_filterMap.mp (List.mem_of_getLast? h)
  split at hname
  · rename_i hpath
    exact mem_bindings.mpr ⟨i, hi, by simpa using hpath, hname, hblank, hdot⟩
  · cases hname

theorem importedName?_of_mem_bindings (h : (name, path) ∈ bindings imports) :
    importedName? imports path ≠ none := by
  obtain ⟨i, hi, hpath, hname, -⟩ := mem_bindings.mp h
  rw [importedName?, ne_eq, List.getLast?_eq_none_iff]
  refine List.ne_nil_of_mem (a := name) (List.mem_filterMap.mpr ⟨i, hi, ?_⟩)
  rw [hpath, beq_self_eq_true, if_pos rfl, hname]

/-- Where a qualifier comes from. -/
theorem qualifier_cases (h : qualifier own imports p ≠ "") : p.path ≠ own ∧
    (importedName? imports p.path = some (qualifier own imports p) ∧
        qualifier own imports p ≠ "." ∨
      importedName? imports p.path = none ∧ qualifier own imports p = p.name) := by
  unfold qualifier at h ⊢
  split at h
  · exact absurd rfl h
  · rename_i hown
    refine ⟨by simpa using hown, ?_⟩
    rw [if_neg hown]
    cases himported : importedName? imports p.path with
    | none => exact .inr ⟨rfl, rfl⟩
    | some name =>
        rw [himported] at h
        by_cases hdot : name = "."
        · simp [hdot] at h
        · simp [hdot]

/-- Whether a package has to be added to the imports of a file. -/
def IsMissing (own : String) (imports : List Import) (p : PackageRef) : Prop :=
  p.path ≠ own ∧ importedName? imports p.path = none

/-- Adding the packages of some types, one after the other. -/
def addMissing (own : String) (imports : List Import) (acc : List (String × String))
    (p : PackageRef) : List (String × String) :=
  if p.path == own || (importedName? imports p.path).isSome then acc
  else insertNew acc (p.path, p.name)

theorem addMissing_of_isMissing (acc : List (String × String)) (h : IsMissing own imports p) :
    addMissing own imports acc p = insertNew acc (p.path, p.name) := by
  simp [addMissing, h.1, h.2]

theorem subset_insertNew (acc : List (String × String)) (e : String × String) :
    acc ⊆ insertNew acc e := by
  unfold insertNew
  split
  · exact List.Subset.refl acc
  · exact List.subset_append_left acc [e]

theorem subset_addMissing (acc : List (String × String)) : acc ⊆ addMissing own imports acc p := by
  unfold addMissing
  split
  · exact List.Subset.refl acc
  · exact subset_insertNew acc _

theorem subset_foldl_addMissing (acc : List (String × String)) (ps : List PackageRef) :
    acc ⊆ ps.foldl (addMissing own imports) acc := by
  induction ps generalizing acc with
  | nil => exact List.Subset.refl acc
  | cons p ps ih => exact List.Subset.trans (subset_addMissing acc) (ih _)

theorem mem_insertNew {acc : List (String × String)} {e e' : String × String}
    (h : e' ∈ insertNew acc e) : e' ∈ acc ∨ e' = e := by
  unfold insertNew at h
  split at h
  · exact .inl h
  · simpa using h

/-- Only missing packages are added, under their own names. -/
theorem mem_foldl_addMissing {acc : List (String × String)} {ps : List PackageRef}
    {e : String × String} (h : e ∈ ps.foldl (addMissing own imports) acc) :
    e ∈ acc ∨ ∃ p ∈ ps, IsMissing own imports p ∧ e = (p.path, p.name) := by
  induction ps generalizing acc with
  | nil => exact .inl h
  | cons p ps ih =>
      obtain h | ⟨p', hp', hmissing⟩ := ih h
      · by_cases hp : IsMissing own imports p
        · rw [addMissing_of_isMissing acc hp] at h
          obtain h | rfl := mem_insertNew h
          · exact .inl h
          · exact .inr ⟨p, List.mem_cons_self, hp, rfl⟩
        · unfold addMissing at h
          rw [if_pos] at h
          · exact .inl h
          · unfold IsMissing at hp
            cases himported : importedName? imports p.path <;> simp_all
      · exact .inr ⟨p', List.mem_cons_of_mem p hp', hmissing⟩

/-- Each missing package is added. -/
theorem exists_mem_foldl_addMissing (acc : List (String × String)) {ps : List PackageRef}
    (hp : p ∈ ps) (hmissing : IsMissing own imports p) :
    ∃ name, (p.path, name) ∈ ps.foldl (addMissing own imports) acc := by
  induction ps generalizing acc with
  | nil => cases hp
  | cons p' ps ih =>
      obtain rfl | hp := List.mem_cons.mp hp
      · have hadded : ∃ name, (p.path, name) ∈ insertNew acc (p.path, p.name) := by
          unfold insertNew
          split
          · rename_i hfound
            obtain ⟨name, hname⟩ := Option.isSome_iff_exists.mp hfound
            obtain ⟨before, after, rfl, -⟩ := List.lookup_eq_some_iff.mp hname
            exact ⟨name, by simp⟩
          · exact ⟨p.name, by simp⟩
        obtain ⟨name, hname⟩ := hadded
        refine ⟨name, subset_foldl_addMissing _ ps ?_⟩
        rwa [addMissing_of_isMissing acc hmissing]
      · exact ih _ hp

/-- A missing package is added under its own name, where paths determine names. -/
theorem mem_missingImports {types : List Ty} (hp : p ∈ types.flatMap Ty.packages)
    (hmissing : IsMissing own imports p)
    (hnames : ∀ p' ∈ types.flatMap Ty.packages, p'.path = p.path → p'.name = p.name) :
    (p.path, p.name) ∈ missingImports own imports types := by
  obtain ⟨name, hname⟩ := exists_mem_foldl_addMissing [] hp hmissing
  obtain hnil | ⟨p', hp', -, heq⟩ := mem_foldl_addMissing hname
  · cases hnil
  · obtain ⟨hpath, rfl⟩ := Prod.mk.inj heq
    rwa [hnames p' hp' hpath.symm] at hname

end Tables

section Binding

variable {own : String} {imports : List Import} {gs : List Generator} {p : PackageRef}

theorem mem_importTable {name path : String} : (name, path) ∈ importTable imports gs ↔
    (name, path) ∈ bindings imports ∨ ∃ g ∈ gs, (path, name) ∈ g.imports := by
  simp [importTable]

/-- Whether no name is imported for two packages, as in every file that compiles. -/
def ImportsApart (imports : List Import) : Prop :=
  ∀ name path path', (name, path) ∈ bindings imports → (name, path') ∈ bindings imports →
    path = path'

/-- Whether nothing else claims the qualifier of a package: the package is not imported without a
name, no other package is added under its qualifier, and the file does not bind the name that it is
added under itself. -/
structure Unclaimed (own : String) (imports : List Import) (gs : List Generator)
    (p : PackageRef) : Prop where
  named : importedName? imports p.path ≠ some "_"
  added : ∀ g ∈ gs, ∀ path, (path, qualifier own imports p) ∈ g.imports → path = p.path
  bound : importedName? imports p.path = none →
    ∀ path, (qualifier own imports p, path) ∉ bindings imports

/-- A qualifier that is not claimed a second time is bound to its package and to no other one. -/
theorem Unclaimed.bindsOnly (hapart : ImportsApart imports) (hused : qualifier own imports p ≠ "")
    (hname : p.name ≠ "_")
    (hadded : IsMissing own imports p → ∃ g ∈ gs, (p.path, p.name) ∈ g.imports)
    (h : Unclaimed own imports gs p) :
    qualifier own imports p ≠ "_" ∧
      BindsOnly (importTable imports gs) (qualifier own imports p) p.path := by
  obtain ⟨hown, ⟨himported, hdot⟩ | ⟨himported, hq⟩⟩ := qualifier_cases hused
  · have hblank : qualifier own imports p ≠ "_" := fun hblank => h.named (hblank ▸ himported)
    have hmem := mem_bindings_of_importedName? himported hblank hdot
    refine ⟨hblank, mem_importTable.mpr (.inl hmem), fun other hother => ?_⟩
    obtain hother | ⟨g, hg, hother⟩ := mem_importTable.mp hother
    · exact hapart _ _ _ hother hmem
    · exact h.added g hg other hother
  · refine ⟨hq ▸ hname, mem_importTable.mpr (.inr (hq ▸ hadded ⟨hown, himported⟩)), ?_⟩
    intro other hother
    obtain hother | ⟨g, hg, hother⟩ := mem_importTable.mp hother
    · exact absurd hother (h.bound himported other)
    · exact h.added g hg other hother

theorem Unclaimed.of_bindsOnly (hused : qualifier own imports p ≠ "")
    (hblank : qualifier own imports p ≠ "_")
    (h : BindsOnly (importTable imports gs) (qualifier own imports p) p.path) :
    Unclaimed own imports gs p := by
  refine ⟨fun himported => ?_, fun g hg path hpath => ?_, fun himported path hpath => ?_⟩
  · obtain ⟨-, ⟨hname, -⟩ | ⟨hnone, -⟩⟩ := qualifier_cases hused
    · exact hblank (Option.some.inj (hname.symm.trans himported))
    · rw [hnone] at himported
      cases himported
  · exact h.2 path (mem_importTable.mpr (.inr ⟨g, hg, hpath⟩))
  · obtain rfl := h.2 path (mem_importTable.mpr (.inl hpath))
    exact importedName?_of_mem_bindings hpath himported

end Binding

section Generators

/-- The types that the routine of a function is spelled with, in a file of a package. -/
def Func.spelled (f : Func) (own : String) (imports : List Import) (holder : String) : List Ty :=
  match runtimeName? imports, f.element?, f.body with
  | some runtime, some element, some body =>
    (f.routine runtime (qualifier own imports) holder element body).types
  | _, _, _ => []

theorem Func.name_routine (f : Func) (runtime : String) (qualify : PackageRef → String)
    (holder : String) (element : Ty) (body : List Stmt) :
    (f.routine runtime qualify holder element body).value.name = holder := by
  unfold Func.routine
  cases f.receiver? <;> rfl

/-- An accepted function adds the packages of the types that it is spelled with. -/
theorem Func.imports_convert {f : Func} {pos : Pos} {own : String} {scope : List String}
    {imports : List Import} {taken : List String} {fn : Routine} {extra : List (String × String)}
    (h : (f.convert pos own scope imports taken).1 = .ok (fn, extra)) :
    extra = missingImports own imports (f.spelled own imports fn.name) := by
  unfold Func.convert at h
  split at h
  · rename_i element result body helement _ hbody
    split at h
    · cases h
    · rename_i runtime hruntime
      split at h
      · cases h
      · split at h
        · cases h
        · simp only at h
          split at h
          · obtain ⟨rfl, rfl⟩ := Prod.mk.inj (Except.ok.inj h)
            rw [Func.name_routine, Func.spelled, hruntime, helement, hbody]
          · cases h
  · cases h

/-- Every qualifier in a type of an accepted generator stands for a package of the type.  In the
generated file it is bound, and to this package only, exactly when nothing else claims it. -/
theorem File.scan_qualifiers_bound_iff {file : File} {pkg : Package} {holders : List String}
    (hapart : ImportsApart file.imports) {g : Generator}
    (hg : g ∈ (file.scan pkg holders).generators) {fn : Routine} (hfn : g.routine = some fn)
    (hnames : ∀ t ∈ g.func.spelled pkg.path file.imports fn.name, ∀ p ∈ t.packages, p.name ≠ "_" ∧
      ∀ t' ∈ g.func.spelled pkg.path file.imports fn.name, ∀ p' ∈ t'.packages,
        p'.path = p.path → p'.name = p.name)
    {gs : List Generator} (hgs : g ∈ gs) {t : Ty}
    (ht : t ∈ g.func.spelled pkg.path file.imports fn.name) {x : String}
    (hx : x ∈ (t.spell (qualifier pkg.path file.imports)).qualifiers []) :
    ∃ p ∈ t.packages, x = qualifier pkg.path file.imports p ∧
      (x ≠ "_" ∧ BindsOnly (importTable file.imports gs) x p.path ↔
        Unclaimed pkg.path file.imports gs p) := by
  obtain ⟨taken, hconvert⟩ := scanFuncs_convert hg hfn
  obtain ⟨hused, p, hp, rfl⟩ := t.qualify_spell (qualifier pkg.path file.imports) x hx
  refine ⟨p, hp, rfl, ?_, ?_⟩
  · rintro ⟨hblank, hbinds⟩
    exact .of_bindsOnly hused hblank hbinds
  · obtain ⟨hname, hpaths⟩ := hnames t ht p hp
    refine Unclaimed.bindsOnly hapart hused hname fun hmissing => ⟨g, hgs, ?_⟩
    rw [Func.imports_convert hconvert]
    refine mem_missingImports (List.mem_flatMap.mpr ⟨t, ht, hp⟩) hmissing fun p' hp' => ?_
    obtain ⟨t', ht', hp'⟩ := List.mem_flatMap.mp hp'
    exact hpaths t' ht' p' hp'

/-- The package of durations. -/
def timePackage : PackageRef := ⟨"time", "time"⟩

/-- The type of durations. -/
def duration : Ty := .named (some timePackage) "Duration" []

/-- The body `d := f(); yieldgen.Yield(1); return nil`, where `f` gives a duration. -/
def lasting : List Stmt :=
  [.mk ⟨6, 2⟩ (.assign .define
      [untyped (.ident ⟨"d", ⟨6, 2⟩, some ⟨1, true, "d", "example.com/sample", some duration⟩⟩)]
      [untyped (.call (untyped (.ident ⟨"f", ⟨6, 7⟩, none⟩)) [] false)]),
    .mk ⟨7, 2⟩ (.expr yieldOne), returnNil]

theorem spelled_lasting {imports : List Import} (h : runtimeName? imports = some "yieldgen")
    (holder : String) :
    (produced lasting).spelled "example.com/sample" imports holder = [.basic "int", duration] := by
  rw [Func.spelled, h]
  rfl

theorem qualifiers_duration {q : PackageRef → String} (h : q timePackage ≠ "") :
    (duration.spell q).qualifiers [] = [q timePackage] := by
  simp [duration, Ty.spell, Ty.instantiated, Ty.qualified, Ty.spellAll, h, Expr.qualifiers,
    Expr.unbound, Expr.name]

theorem scan_lasting {imports : List Import} (h : runtimeName? imports = some "yieldgen") :
    ∃ g ∈ ((importing imports lasting).scan (importingPackage imports lasting) []).generators,
      ∃ fn, g.routine = some fn ∧
        g.func.spelled "example.com/sample" imports fn.name = [.basic "int", duration] ∧
        g.imports = missingImports "example.com/sample" imports [.basic "int", duration] := by
  obtain ⟨g, hg, hfunc, qualify, holder, hfn⟩ := scan_importing h lasting (by decide)
    fun _ _ => rfl
  obtain ⟨taken, hconvert⟩ := scanFuncs_convert hg hfn
  refine ⟨g, hg, _, hfn, hfunc ▸ spelled_lasting h _, (Func.imports_convert hconvert).trans ?_⟩
  rw [hfunc]
  exact congrArg _ (spelled_lasting h _)

theorem bindings_runtimeImport : bindings [runtimeImport] = [("yieldgen", runtimePath)] := by
  decide +kernel

theorem importsApart_runtimeImport : ImportsApart [runtimeImport] := by
  intro name path path' h h'
  rw [bindings_runtimeImport, List.mem_singleton] at h h'
  exact (Prod.mk.inj h).2.trans (Prod.mk.inj h').2.symm

theorem lasting_qualifiers_bound : ImportsApart [runtimeImport] ∧
    ∃ g ∈ ((importing [runtimeImport] lasting).scan
        (importingPackage [runtimeImport] lasting) []).generators,
      ∃ fn, g.routine = some fn ∧
        duration ∈ g.func.spelled "example.com/sample" [runtimeImport] fn.name ∧
        "time" ∈ (duration.spell (qualifier "example.com/sample" [runtimeImport])).qualifiers [] ∧
        BindsOnly (importTable [runtimeImport] [g]) "time" "time" := by
  obtain ⟨g, hg, fn, hfn, hspelled, himports⟩ := scan_lasting runtimeName?_runtimeImport
  have hadded : g.imports = [("time", "time")] := himports.trans (by decide +kernel)
  have hqualifier : qualifier "example.com/sample" [runtimeImport] timePackage = "time" := by
    decide +kernel
  have hpackages : ∀ t ∈ g.func.spelled "example.com/sample" [runtimeImport] fn.name,
      ∀ p ∈ t.packages, p = timePackage := by
    rw [hspelled]
    simp [duration, Ty.packages, Ty.packagesOfAll]
  have ht : duration ∈ g.func.spelled "example.com/sample" [runtimeImport] fn.name := by
    rw [hspelled]
    exact .tail _ (.head _)
  have hx : "time" ∈
      (duration.spell (qualifier "example.com/sample" [runtimeImport])).qualifiers [] := by
    rw [qualifiers_duration (by rw [hqualifier]; decide), hqualifier]
    exact .head _
  have hunclaimed : Unclaimed "example.com/sample" [runtimeImport] [g] timePackage := by
    refine ⟨by decide +kernel, ?_, fun _ path hpath => ?_⟩
    · rw [hqualifier, List.forall_mem_singleton, hadded]
      simp [timePackage]
    · rw [hqualifier, bindings_runtimeImport] at hpath
      simp at hpath
  refine ⟨importsApart_runtimeImport, g, hg, fn, hfn, ht, hx, ?_⟩
  obtain ⟨p, hp, -, hbound⟩ := File.scan_qualifiers_bound_iff importsApart_runtimeImport hg hfn
    (fun t ht p hp => by
      rw [hpackages t ht p hp]
      exact ⟨by decide, fun t' ht' p' hp' _ => by rw [hpackages t' ht' p' hp']⟩)
    (List.mem_singleton_self g) ht hx
  obtain rfl := hpackages duration ht p hp
  exact (hbound.mpr hunclaimed).2

/-- The import `_ "time"`. -/
def blankTime : Import := ⟨some "_", "\"time\"", some "time"⟩

/-- A package that the file imports without a name is referred to by a blank, and no name is bound
to it. -/
theorem blankTime_unbound : ImportsApart [runtimeImport, blankTime] ∧
    ∃ g ∈ ((importing [runtimeImport, blankTime] lasting).scan
        (importingPackage [runtimeImport, blankTime] lasting) []).generators,
      ∃ fn, g.routine = some fn ∧
        duration ∈ g.func.spelled "example.com/sample" [runtimeImport, blankTime] fn.name ∧
        (duration.spell (qualifier "example.com/sample" [runtimeImport, blankTime])).qualifiers [] =
          ["_"] ∧
        ∀ name, (name, "time") ∉ importTable [runtimeImport, blankTime] [g] := by
  have hruntime : runtimeName? [runtimeImport, blankTime] = some "yieldgen" := by decide +kernel
  have hbindings : bindings [runtimeImport, blankTime] = bindings [runtimeImport] := by
    decide +kernel
  have hqualifier :
      qualifier "example.com/sample" [runtimeImport, blankTime] timePackage = "_" := by
    decide +kernel
  obtain ⟨g, hg, fn, hfn, hspelled, himports⟩ := scan_lasting hruntime
  have hadded : g.imports = [] := himports.trans (by decide +kernel)
  refine ⟨?_, g, hg, fn, hfn, ?_, ?_, fun name hname => ?_⟩
  · rw [ImportsApart, hbindings]
    exact importsApart_runtimeImport
  · rw [hspelled]
    exact .tail _ (.head _)
  · rw [qualifiers_duration (by rw [hqualifier]; decide), hqualifier]
  · simp [mem_importTable, hbindings, bindings_runtimeImport, hadded, runtimePath] at hname

end Generators

end Source

end YieldMachine
