import YieldMachine.Proofs.Lowering.Emitted
import YieldMachine.Proofs.Meaning.Leaving
import YieldMachine.Proofs.Meaning.Trees

/-!
# Statements that stand in a method as they are

A method holds the statements of its state unchanged.  That is right for a statement that
declares nothing for what follows it and that control does not leave.  A regular generator
whose simple statements do not return is lowered to no others: what is copied of it does not
escape, and renaming changes neither branches nor declared names.
-/

namespace YieldMachine

open Lowering

/-- Whether a statement can stand in a method as it is: it declares nothing for what follows,
and neither a branch nor a return leaves it. -/
structure Stmt.Whole (stmt : Stmt) : Prop where
  binds : stmt.binds = []
  stays : stmt.Stays .none
  returns : stmt.returns = false

/-- Whether all statements in some operations are whole. -/
def OpsWhole (ops : List Op) : Prop := ∀ stmt, .exec stmt ∈ opsParts ops → stmt.Whole

section Renaming

variable (recv : String)

theorem Spec.names_rename (spec : Spec) (r : Renames) :
    (spec.rename recv r).1.names = spec.names := by
  cases spec <;> rfl

theorem names_renameSpecs (specs : List Spec) (r : Renames) :
    (renameSpecs recv r specs).1.flatMap Spec.names = specs.flatMap Spec.names := by
  induction specs generalizing r with
  | nil => rfl
  | cons spec specs ih =>
      simp only [renameSpecs, List.flatMap_cons, spec.names_rename, ih]

/-- Renaming keeps what a statement declares. -/
theorem Stmt.binds_rename (stmt : Stmt) (r : Renames) :
    (stmt.rename recv r).1.binds = stmt.binds := by
  cases stmt with
  | assign kind lhs rhs => cases kind <;> rfl
  | decl kind specs => exact names_renameSpecs recv specs r
  | typeSwitch init guard clauses => cases guard <;> rfl
  | range key value kind x body => cases kind <;> rfl
  | labeled label stmt => exact stmt.binds_rename r
  | _ => rfl

mutual

/-- Renaming keeps the branches of a statement. -/
theorem Stmt.stays_rename {reach : Reach} (stmt : Stmt) (r : Renames) (h : stmt.Stays reach) :
    (stmt.rename recv r).1.Stays reach := by
  cases stmt with
  | assign kind lhs rhs => cases kind <;> trivial
  | typeSwitch init guard clauses => cases guard <;> trivial
  | range key value kind x body => cases kind <;> trivial
  | block body => exact stmtsStay_rename body r h
  | ite init cond body other =>
      exact ⟨stmtsStay_rename body _ h.1, other.stays_rename _ h.2⟩
  | loop init cond post body => exact stmtsStay_rename body _ h
  | switch init tag clauses => exact clausesStay_rename clauses _ h
  | labeled label stmt =>
      have hrest : stmt.Stays (reach.withLabel label) →
          (stmt.rename recv r).1.Stays (reach.withLabel label) := stmt.stays_rename r
      cases stmt with
      | loop init cond post body => exact stmtsStay_rename body _ h
      | assign kind lhs rhs => cases kind <;> trivial
      | typeSwitch init guard clauses => cases guard <;> trivial
      | range key value kind x body => cases kind <;> trivial
      | _ => exact hrest h
  | branch kind label => exact h
  | _ => trivial

theorem stmtsStay_rename {reach : Reach} (stmts : List Stmt) (r : Renames)
    (h : stmtsStay reach stmts) : stmtsStay reach (renameStmts recv r stmts) := by
  cases stmts with
  | nil => trivial
  | cons stmt stmts => exact ⟨stmt.stays_rename r h.1, stmtsStay_rename stmts _ h.2⟩

theorem clausesStay_rename {reach : Reach} (clauses : List Clause) (r : Renames)
    (h : clausesStay reach clauses) : clausesStay reach (renameClauses recv r clauses) := by
  cases clauses with
  | nil => trivial
  | cons clause clauses => exact ⟨clause.stays_rename r h.1, clausesStay_rename clauses r h.2⟩

theorem Clause.stays_rename {reach : Reach} (clause : Clause) (r : Renames)
    (h : clause.Stays reach) : (clause.rename recv r).Stays reach := by
  cases clause with
  | case values body => exact stmtsStay_rename body r h
  | default body => exact stmtsStay_rename body r h

end

end Renaming

/-- A statement stays whole. -/
theorem Lasting.of_whole : Lasting Stmt.Whole where
  assign _ _ := ⟨rfl, trivial, rfl⟩
  rename h r :=
    ⟨by rw [Stmt.binds_rename, h.binds], Stmt.stays_rename _ _ r h.stays,
      by rw [Stmt.returns_rename, h.returns]⟩

section Regular

variable {p : Place} {outer : List Flow}

/-- Whether a label that is looked up as that of a loop is one, as far as it is among the
statements around. -/
def Place.Describes (p : Place) (outer : List Flow) : Prop :=
  ∀ label, p.labels.lookup label = some true → (∃ e ∈ outer, e.label? = some label) →
    ∃ stmt, .labeled label stmt ∈ outer ∧ stmt.isLoop = true

theorem Place.Describes.nil : p.Describes [] := by
  rintro label - ⟨e, he, -⟩
  cases he

/-- Statements without a label change nothing. -/
theorem Place.Describes.unlabeled {q : Place} {s : Flow} (h : p.Describes outer)
    (hlabels : q.labels = p.labels) (hs : s.label? = none) : q.Describes (s :: outer) := by
  rintro label hlookup ⟨e, he, hlabel⟩
  rw [hlabels] at hlookup
  obtain rfl | he := List.mem_cons.mp he
  · rw [hs] at hlabel
    cases hlabel
  · obtain ⟨stmt, hstmt, hloop⟩ := h label hlookup ⟨e, he, hlabel⟩
    exact ⟨stmt, .tail _ hstmt, hloop⟩

theorem Place.Describes.labeled (h : p.Describes outer) (label : String) (s : Flow) :
    (p.withLabel label s.isLoop).Describes (.labeled label s :: outer) := by
  rintro l hlookup ⟨e, he, hlabel⟩
  by_cases hl : l = label
  · subst hl
    exact ⟨s, .head _, by simpa [Place.withLabel] using hlookup⟩
  · have hne : (l == label) = false := by simpa using hl
    rw [Place.withLabel, List.lookup_cons, hne] at hlookup
    obtain rfl | he := List.mem_cons.mp he
    · exact absurd (Option.some.inj hlabel).symm hl
    · obtain ⟨stmt, hstmt, hloop⟩ := h l hlookup ⟨e, he, hlabel⟩
      exact ⟨stmt, .tail _ hstmt, hloop⟩

/-- Every statement of a regular list is regular somewhere under the same labels. -/
theorem flowsRegular_forall {body : List Flow} (h : flowsRegular p body) :
    ∀ s ∈ body, ∃ q, q.labels = p.labels ∧ s.Regular q := by
  induction body generalizing p with
  | nil => simp
  | cons s body ih =>
      cases s with
      | declare d =>
          exact List.forall_mem_cons.mpr ⟨⟨p, rfl, h.1⟩, ih (p := p.declare d.fresh) h.2⟩
      | _ => exact List.forall_mem_cons.mpr ⟨⟨p, rfl, h.1⟩, ih h.2⟩

theorem casesRegular_forall {cases' : List FlowCase} (h : casesRegular p cases') :
    ∀ s ∈ cases'.flatMap FlowCase.body, ∃ q, q.labels = p.labels ∧ s.Regular q := by
  induction cases' with
  | nil => simp
  | cons c cases' ih =>
      rw [List.flatMap_cons, List.forall_mem_append]
      refine ⟨?_, ih h.2⟩
      cases c with
      | case values body => exact flowsRegular_forall (p := p.inner) h.1
      | default body => exact flowsRegular_forall (p := p.inner) h.1

/-- A part of a regular loop header fits. -/
theorem Flow.RegularInit.everywhere_fits {scopes : Scopes} {part : Flow}
    (h : part.RegularInit scopes) : part.Everywhere Fits outer := by
  rw [everywhere_iff]
  cases part with
  | missing => exact ⟨⟨trivial, trivial⟩, nofun⟩
  | declare d => exact ⟨⟨trivial, trivial⟩, nofun⟩
  | simple stmt => exact ⟨⟨trivial, h.2.2⟩, nofun⟩
  | _ => exact h.elim

theorem Flow.headed_of_regular {init post : Flow} {scopes : Scopes} (cond : Expr)
    (body : List Flow) (hinit : init.RegularInit scopes) (hpost : post.RegularPost) :
    (Flow.loop init cond post body).Headed := by
  constructor
  · cases init with
    | missing => exact .inl rfl
    | declare d => exact .inr (.inl ⟨d, rfl⟩)
    | simple stmt => exact .inr (.inr ⟨stmt, rfl⟩)
    | _ => exact hinit.elim
  · cases post with
    | missing => exact .inl rfl
    | simple stmt => exact .inr ⟨stmt, rfl⟩
    | _ => exact hpost.elim

/-- Everything in a regular statement fits where it stands. -/
theorem Flow.Regular.everywhere_fits {s : Flow} (h : s.Regular p) (houter : p.Describes outer) :
    s.Everywhere Fits outer := by
  induction s using Flow.children_induction generalizing p outer with
  | step s ih =>
      rw [everywhere_iff]
      -- all statements but labelled ones have their children under the labels around them
      have hunlabeled {q : Place} (hs : s.label? = none) (hlabels : q.labels = p.labels)
          {body : List Flow} (hbody : flowsRegular q body) (hmem : ∀ t ∈ body, t ∈ s.children) :
          ∀ t ∈ body, t.Everywhere Fits (s :: outer) := by
        intro t ht
        obtain ⟨q', hq', hregular⟩ := flowsRegular_forall hbody t ht
        exact ih t (hmem t ht) hregular (houter.unlabeled (hq'.trans hlabels) hs)
      cases s with
      | missing => exact h.elim
      | lift d => exact h.elim
      | declare d => exact ⟨⟨trivial, trivial⟩, nofun⟩
      | yield value => exact ⟨⟨trivial, trivial⟩, nofun⟩
      | finish => exact ⟨⟨trivial, trivial⟩, nofun⟩
      | brk label => exact ⟨⟨trivial, trivial⟩, nofun⟩
      | simple stmt => exact ⟨⟨trivial, h.2.2⟩, nofun⟩
      | cont label =>
          refine ⟨⟨trivial, fun hlabel => houter label ?_⟩, nofun⟩
          rwa [Flow.Regular, if_neg hlabel] at h
      | block body =>
          exact ⟨⟨trivial, trivial⟩, hunlabeled rfl (q := p.inner) rfl h fun _ => id⟩
      | «while» cond body =>
          exact ⟨⟨trivial, trivial⟩, hunlabeled rfl (q := p.inLoop.inner) rfl h fun _ => id⟩
      | doWhile body cond =>
          exact ⟨⟨trivial, trivial⟩, hunlabeled rfl (q := p.inLoop.inner) rfl h fun _ => id⟩
      | walk header body =>
          refine ⟨⟨trivial, trivial⟩, ?_⟩
          exact hunlabeled rfl (q := (p.inner.declare header.names).inLoop.inner) rfl h.2
            fun _ => id
      | switch tag cases' =>
          refine ⟨⟨trivial, trivial⟩, fun t ht => ?_⟩
          obtain ⟨q, hq, hregular⟩ := casesRegular_forall h t ht
          exact ih t ht hregular (houter.unlabeled hq rfl)
      | labeled label s =>
          refine ⟨⟨trivial, trivial⟩, List.forall_mem_singleton.mpr ?_⟩
          exact ih s (.head _) h.2.2 (houter.labeled label s)
      | ite cond body other =>
          refine ⟨⟨trivial, trivial⟩, List.forall_mem_cons.mpr ⟨?_, ?_⟩⟩
          · cases hm : other.isMissing with
            | true =>
                obtain rfl := Flow.isMissing_eq_true.mp hm
                have hmissing : Flow.missing.RegularInit [] := trivial
                exact hmissing.everywhere_fits
            | false => exact ih other (.head _) (h.2 hm) (houter.unlabeled rfl rfl)
          · exact hunlabeled rfl (q := p.inner) rfl h.1 fun _ => List.mem_cons_of_mem other
      | loop init cond post body =>
          obtain ⟨hinit, hpost, hbody⟩ := h
          refine ⟨⟨Flow.headed_of_regular cond body hinit hpost, trivial⟩,
            List.forall_mem_cons.mpr ⟨hinit.everywhere_fits, List.forall_mem_cons.mpr ⟨?_, ?_⟩⟩⟩
          · exact (hpost.regularInit []).everywhere_fits
          · exact hunlabeled rfl (q := (p.inner.declare init.fresh).inLoop.inner) rfl hbody
              fun _ ht => .tail _ (.tail _ ht)

/-- What is copied of a regular statement is whole if no simple statement in it returns. -/
theorem Flow.Regular.copies {s : Flow} (h : s.Regular p) (hquiet : s.Quiet) :
    s.Copies Stmt.Whole where
  kept hdecl hesc stmt hstmt := by
    have hfits : s.Everywhere Fits [] := h.everywhere_fits .nil
    have hheld : s.Everywhere Held [] := fun around t ht =>
      ⟨hfits around t ht, (escapes_eq_false_iff .none hfits).mp hesc around t ht⟩
    exact ⟨s.binds_toStmt h hdecl hstmt, tree_stays hheld (by simp) hstmt,
      s.returns_toStmt hquiet hesc hstmt⟩
  simple := by
    rintro stmt rfl
    exact ⟨h.2.1, h.2.2, hquiet⟩
  post := by
    rintro init cond post body rfl stmt hstmt
    obtain ⟨-, hregular, -⟩ := h
    obtain ⟨-, hpost, -⟩ := hquiet
    cases post with
    | missing => cases hstmt
    | simple stmt' =>
        obtain rfl := Option.some.inj hstmt
        exact ⟨hregular.2.1, hregular.2.2, hpost⟩
    | _ => exact hregular.elim

end Regular

/-- Lowering a regular generator whose simple statements do not return gives a table whose
statements can stand in methods as they are. -/
theorem Routine.lower_whole {fn : Routine} {h : Holder} (hregular : fn.Regular)
    (hquiet : flowsQuiet fn.body) (hlower : fn.lower = .ok h) :
    ∀ ops ∈ h.states, OpsWhole ops := by
  have hcopies : ∀ s ∈ flowsParts fn.body, s.Copies Stmt.Whole := by
    intro s hs
    obtain ⟨q, hq⟩ := flows_parts_regular fn.body hregular s hs
    exact hq.copies (flows_parts_quiet fn.body hquiet s hs)
  have hcarries := Routine.lower_carries .of_whole hquiet hcopies hlower
  exact fun ops hops stmt hstmt =>
    hcarries.executes (.exec stmt) (List.mem_flatMap.mpr ⟨ops, hops, hstmt⟩)

end YieldMachine
