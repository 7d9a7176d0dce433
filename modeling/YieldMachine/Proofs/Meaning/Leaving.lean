import YieldMachine.Proofs.Interp.Stays
import YieldMachine.Proofs.Lowering.Quiet
import YieldMachine.Proofs.Lowering.Unresolved

/-!
# Statements that control does not leave

A statement runs inside one state exactly if nothing in it leaves it: no yield, no return, and no
branch to a target outside.  Its tree then always ends normally, as long as labelled continues name
loops.
-/

namespace YieldMachine

/-- The statements that a statement consists of directly. -/
def Flow.children : Flow → List Flow
  | .block body | .while _ body | .doWhile body _ | .walk _ body => body
  | .ite _ body other => other :: body
  | .loop init _ post body => init :: post :: body
  | .switch _ cases => cases.flatMap FlowCase.body
  | .labeled _ stmt => [stmt]
  | _ => []

/-- The occurrences of statements in a statement, itself included, with the statements in it that
are around each of them, the innermost first. -/
inductive Flow.Contains : Flow → List Flow → Flow → Prop where
  | self (s : Flow) : Contains s [] s
  | child {s child t : Flow} {around : List Flow} (member : child ∈ s.children)
      (inside : child.Contains around t) : Contains s (around ++ [s]) t

/-- The label of a labelled statement. -/
def Flow.label? : Flow → Option String
  | .labeled label _ => some label
  | _ => none

/-- Whether the statement is a switch. -/
def Flow.isSwitch : Flow → Bool
  | .switch _ _ => true
  | _ => false

/-- Whether a statement around a branch is a target of it: a loop or the label of a statement,
and for a break a switch too. -/
def Flow.Targets (around : Flow) : Flow → Prop
  | .brk label =>
    if label = "" then around.isLoop = true ∨ around.isSwitch = true
    else around.label? = some label
  | .cont label => if label = "" then around.isLoop = true else around.label? = some label
  | _ => False

/-- Whether a statement yields, returns, or branches to a target that is not among the statements
around it. -/
def Flow.Departs (around : List Flow) (t : Flow) : Prop :=
  match t with
  | .yield _ | .finish => True
  | .brk _ | .cont _ => ∀ e ∈ around, ¬ e.Targets t
  | _ => False

/-- Whether something in a statement leaves it. -/
def Flow.Leaves (s : Flow) : Prop := ∃ around t, s.Contains around t ∧ t.Departs around

/-- Whether a statement fits where it stands: if a continue names a statement around it, then
one that is a loop, a loop header has parts of the kinds that it can have, and no branch leaves a
simple statement. -/
def Flow.Fits (around : List Flow) (t : Flow) : Prop :=
  t.Headed ∧
    match t with
    | .cont label =>
      label ≠ "" → (∃ e ∈ around, e.label? = some label) →
        ∃ stmt, .labeled label stmt ∈ around ∧ stmt.isLoop = true
    | .simple stmt => stmt.Stays .none
    | _ => True

/-- Whether everything in a statement fits where it stands. -/
def Flow.Orderly (s : Flow) : Prop := ∀ around t, s.Contains around t → t.Fits around

/-- Whether every statement in a statement, which has the given ones around it, has a property of
it and of what is around it. -/
def Flow.Everywhere (P : List Flow → Flow → Prop) (outer : List Flow) (s : Flow) : Prop :=
  ∀ around t, s.Contains around t → P (around ++ outer) t

section Occurrences

variable {P : List Flow → Flow → Prop} {outer : List Flow} {s : Flow}

theorem Flow.everywhere_iff : s.Everywhere P outer ↔
    P outer s ∧ ∀ child ∈ s.children, child.Everywhere P (s :: outer) := by
  constructor
  · intro h
    refine ⟨h [] s (.self s), fun child hchild around t ht => ?_⟩
    have hplaced := h (around ++ [s]) t (.child hchild ht)
    rwa [List.append_assoc] at hplaced
  · rintro ⟨hself, hchildren⟩ around t ht
    cases ht with
    | self => exact hself
    | child member inside =>
        rw [List.append_assoc]
        exact hchildren _ member _ t inside

theorem Flow.everywhere_nil : s.Everywhere P [] ↔ ∀ around t, s.Contains around t → P around t := by
  simp only [Everywhere, List.append_nil]

end Occurrences

mutual

/-- What holds of every statement whose children it holds of holds of all statements. -/
theorem Flow.children_induction {Q : Flow → Prop}
    (step : ∀ s : Flow, (∀ child ∈ s.children, Q child) → Q s) (s : Flow) : Q s := by
  apply step
  cases s with
  | block body => exact flows_induction step body
  | «while» cond body => exact flows_induction step body
  | doWhile body cond => exact flows_induction step body
  | walk header body => exact flows_induction step body
  | switch tag cases => exact cases_induction step cases
  | ite cond body other =>
      exact List.forall_mem_cons.mpr ⟨other.children_induction step, flows_induction step body⟩
  | loop init cond post body =>
      refine List.forall_mem_cons.mpr ⟨init.children_induction step, ?_⟩
      exact List.forall_mem_cons.mpr ⟨post.children_induction step, flows_induction step body⟩
  | labeled label stmt => exact List.forall_mem_singleton.mpr (stmt.children_induction step)
  | _ => exact nofun

theorem flows_induction {Q : Flow → Prop}
    (step : ∀ s : Flow, (∀ child ∈ s.children, Q child) → Q s) (body : List Flow) :
    ∀ s ∈ body, Q s := by
  cases body with
  | nil => exact nofun
  | cons s body =>
      exact List.forall_mem_cons.mpr ⟨s.children_induction step, flows_induction step body⟩

theorem cases_induction {Q : Flow → Prop}
    (step : ∀ s : Flow, (∀ child ∈ s.children, Q child) → Q s) (cases' : List FlowCase) :
    ∀ s ∈ cases'.flatMap FlowCase.body, Q s := by
  cases cases' with
  | nil => exact nofun
  | cons c cases' =>
      rw [List.flatMap_cons, List.forall_mem_append]
      refine ⟨?_, cases_induction step cases'⟩
      cases c with
      | case values body => exact flows_induction step body
      | default body => exact flows_induction step body

end

section Escaping

variable {b : Bound} {outer : List Flow} {s : Flow}

/-- Whether the targets that lie inside a statement are those among the statements around. -/
structure Bound.Describes (b : Bound) (outer : List Flow) : Prop where
  brk : b.brk = true ↔ ∃ e ∈ outer, e.isLoop = true ∨ e.isSwitch = true
  cont : b.cont = true ↔ ∃ e ∈ outer, e.isLoop = true
  labels : ∀ label, label ∈ b.labels ↔ ∃ e ∈ outer, e.label? = some label

theorem Bound.Describes.none : Bound.none.Describes [] := by
  constructor <;> simp [Bound.none]

/-- The targets inside a statement, for what is inside of this one in turn. -/
def Bound.inside (b : Bound) : Flow → Bound
  | .while _ _ | .doWhile _ _ | .loop _ _ _ _ | .walk _ _ => b.inLoop
  | .switch _ _ => b.inSwitch
  | .labeled label _ => b.withLabel label
  | _ => b

theorem Bound.Describes.inside (h : b.Describes outer) (s : Flow) :
    (b.inside s).Describes (s :: outer) := by
  constructor
  · rw [List.exists_mem_cons_iff, ← h.brk]
    cases s <;> simp [Bound.inside, inLoop, inSwitch, withLabel, Flow.isLoop, Flow.isSwitch]
  · rw [List.exists_mem_cons_iff, ← h.cont]
    cases s <;> simp [Bound.inside, inLoop, inSwitch, withLabel, Flow.isLoop]
  · intro l
    rw [List.exists_mem_cons_iff, ← h.labels]
    cases s <;> simp [Bound.inside, inLoop, inSwitch, withLabel, Flow.label?, eq_comm (a := l)]

theorem Bound.Describes.escapes_brk (h : b.Describes outer) (label : String) :
    (Flow.brk label).escapes b = false ↔ ∃ e ∈ outer, e.Targets (.brk label) := by
  simp only [Flow.escapes, Flow.Targets]
  split
  · rw [Bool.not_eq_false']
    exact h.brk
  · rw [Bool.not_eq_false', List.contains_iff_mem]
    exact h.labels label

theorem Bound.Describes.escapes_cont (h : b.Describes outer) (label : String) :
    (Flow.cont label).escapes b = false ↔ ∃ e ∈ outer, e.Targets (.cont label) := by
  simp only [Flow.escapes, Flow.Targets]
  split
  · rw [Bool.not_eq_false']
    exact h.cont
  · rw [Bool.not_eq_false', List.contains_iff_mem]
    exact h.labels label

theorem anyEscapes_eq_false {body : List Flow} :
    anyEscapes b body = false ↔ ∀ s ∈ body, s.escapes b = false := by
  induction body with
  | nil => simp [anyEscapes]
  | cons s body ih => simp [anyEscapes, ih]

theorem anyCaseEscapes_eq_false {cases' : List FlowCase} :
    anyCaseEscapes b cases' = false ↔
      ∀ s ∈ cases'.flatMap FlowCase.body, s.escapes b = false := by
  induction cases' with
  | nil => simp [anyCaseEscapes]
  | cons c cases' ih =>
      rw [anyCaseEscapes, Bool.or_eq_false_iff, ih, List.flatMap_cons, List.forall_mem_append]
      cases c with
      | case values body => rw [FlowCase.escapes, anyEscapes_eq_false, FlowCase.body]
      | default body => rw [FlowCase.escapes, anyEscapes_eq_false, FlowCase.body]

/-- A statement does not escape if it does not depart itself and none of its children escapes. -/
theorem Flow.escapes_eq_false_children (hb : b.Describes outer) (hfits : s.Fits outer) :
    s.escapes b = false ↔
      ¬ s.Departs outer ∧ ∀ child ∈ s.children, child.escapes (b.inside s) = false := by
  cases s with
  | missing | declare | lift | simple => simp [escapes, Departs, children]
  | yield | finish => simp [escapes, Departs]
  | brk label => simp [hb.escapes_brk, Departs, children]
  | cont label => simp [hb.escapes_cont, Departs, children]
  | block body => simp [escapes, Departs, children, Bound.inside, anyEscapes_eq_false]
  | ite cond body other =>
      simp [escapes, Departs, children, Bound.inside, anyEscapes_eq_false, and_comm]
  | «while» cond body => simp [escapes, Departs, children, Bound.inside, anyEscapes_eq_false]
  | doWhile body cond => simp [escapes, Departs, children, Bound.inside, anyEscapes_eq_false]
  | walk header body => simp [escapes, Departs, children, Bound.inside, anyEscapes_eq_false]
  | loop init cond post body =>
      obtain ⟨⟨hinit, hpost⟩, -⟩ := hfits
      have hopens : init.escapes b.inLoop = false := by
        obtain hinit | ⟨d, rfl⟩ | ⟨stmt, rfl⟩ := hinit
        · rw [isMissing_eq_true.mp hinit, escapes]
        · rw [escapes]
        · rw [escapes]
      have hsteps : post.escapes b.inLoop = false := by
        obtain hpost | ⟨stmt, rfl⟩ := hpost
        · rw [isMissing_eq_true.mp hpost, escapes]
        · rw [escapes]
      simp [escapes, Departs, children, Bound.inside, anyEscapes_eq_false, hopens, hsteps]
  | switch tag cases' =>
      simp [escapes, Departs, children, Bound.inside, anyCaseEscapes_eq_false]
  | labeled label stmt => simp [escapes, Departs, children, Bound.inside]

/-- A statement does not escape if nothing in it departs. -/
theorem Flow.escapes_eq_false_iff (hb : b.Describes outer) (hfits : s.Everywhere Fits outer) :
    s.escapes b = false ↔ s.Everywhere (fun around t => ¬ t.Departs around) outer := by
  induction s using Flow.children_induction generalizing b outer with
  | step s ih =>
      rw [everywhere_iff] at hfits
      rw [escapes_eq_false_children hb hfits.1, everywhere_iff]
      refine and_congr_right fun _ => forall₂_congr fun child hchild => ?_
      exact ih child hchild (hb.inside s) (hfits.2 child hchild)

end Escaping

/-- Whether every target of branches is one of others too. -/
structure Reach.Within (r r' : Reach) : Prop where
  brk : r.brk = true → r'.brk = true
  cont : r.cont = true → r'.cont = true
  fall : r.fall = true → r'.fall = true
  breaks : ∀ label ∈ r.breaks, label ∈ r'.breaks
  continues : ∀ label ∈ r.continues, label ∈ r'.continues

section Widening

variable {r r' : Reach}

theorem Reach.Within.refl (r : Reach) : r.Within r :=
  ⟨id, id, id, fun _ => id, fun _ => id⟩

theorem Reach.Within.trans {r'' : Reach} (h : r.Within r') (h' : r'.Within r'') : r.Within r'' where
  brk ht := h'.brk (h.brk ht)
  cont ht := h'.cont (h.cont ht)
  fall ht := h'.fall (h.fall ht)
  breaks label ht := h'.breaks label (h.breaks label ht)
  continues label ht := h'.continues label (h.continues label ht)

theorem Reach.Within.none (r : Reach) : Reach.none.Within r :=
  ⟨nofun, nofun, nofun, nofun, nofun⟩

theorem Reach.within_inLoop (r : Reach) : r.Within (r.inLoop []) :=
  ⟨fun _ => rfl, fun _ => rfl, fun _ => rfl, fun _ => id, fun _ => id⟩

theorem Reach.within_inSwitch (r : Reach) : r.Within r.inSwitch :=
  ⟨fun _ => rfl, id, fun _ => rfl, fun _ => id, fun _ => id⟩

theorem Reach.within_withLabel (r : Reach) (label : String) : r.Within (r.withLabel label) :=
  ⟨id, id, id, fun _ => List.mem_cons_of_mem label, fun _ => id⟩

theorem Reach.Within.inLoop (h : r.Within r') (labels : List String) :
    (r.inLoop labels).Within (r'.inLoop labels) := by
  constructor
  · exact id
  · exact id
  · exact id
  · intro label hlabel
    exact List.mem_append.mpr ((List.mem_append.mp hlabel).imp_right (h.breaks label))
  · intro label hlabel
    exact List.mem_append.mpr ((List.mem_append.mp hlabel).imp_right (h.continues label))

theorem Reach.Within.inSwitch (h : r.Within r') : r.inSwitch.Within r'.inSwitch :=
  ⟨id, h.cont, id, h.breaks, h.continues⟩

theorem Reach.Within.withLabel (h : r.Within r') (label : String) :
    (r.withLabel label).Within (r'.withLabel label) := by
  refine ⟨h.brk, h.cont, h.fall, ?_, h.continues⟩
  intro l hl
  exact List.mem_cons.mpr ((List.mem_cons.mp hl).imp_right (h.breaks l))

theorem Reach.Allows.mono {ctl : Control} (hallows : r.Allows ctl) (h : r.Within r') :
    r'.Allows ctl := by
  cases ctl with
  | normal => trivial
  | fall => exact h.fall hallows
  | brk label =>
      simp only [Reach.Allows] at hallows ⊢
      split at hallows
      · rename_i hlabel
        rw [if_pos hlabel]
        exact h.brk hallows
      · rename_i hlabel
        rw [if_neg hlabel]
        exact h.breaks label hallows
  | cont label =>
      simp only [Reach.Allows] at hallows ⊢
      split at hallows
      · rename_i hlabel
        rw [if_pos hlabel]
        exact h.cont hallows
      · rename_i hlabel
        rw [if_neg hlabel]
        exact h.continues label hallows

mutual

theorem Stmt.stays_mono {r r' : Reach} (h : r.Within r') (stmt : Stmt) (hstays : stmt.Stays r) :
    stmt.Stays r' := by
  cases stmt with
  | block body => exact stmtsStay_mono h body hstays
  | ite init cond body other =>
      exact ⟨stmtsStay_mono h body hstays.1, other.stays_mono h hstays.2⟩
  | loop init cond post body => exact stmtsStay_mono (h.inLoop []) body hstays
  | labeled label stmt =>
      cases stmt with
      | loop init cond post body => exact stmtsStay_mono (h.inLoop [label]) body hstays
      | _ => exact Stmt.stays_mono (h.withLabel label) _ hstays
  | switch init tag clauses => exact clausesStay_mono h.inSwitch clauses hstays
  | branch kind label =>
      cases kind with
      | goto => trivial
      | _ => exact Reach.Allows.mono hstays h
  | _ => trivial

theorem stmtsStay_mono {r r' : Reach} (h : r.Within r') (stmts : List Stmt)
    (hstays : stmtsStay r stmts) : stmtsStay r' stmts := by
  cases stmts with
  | nil => trivial
  | cons stmt stmts => exact ⟨stmt.stays_mono h hstays.1, stmtsStay_mono h stmts hstays.2⟩

theorem clausesStay_mono {r r' : Reach} (h : r.Within r') (clauses : List Clause)
    (hstays : clausesStay r clauses) : clausesStay r' clauses := by
  cases clauses with
  | nil => trivial
  | cons clause clauses =>
      exact ⟨clause.stays_mono h hstays.1, clausesStay_mono h clauses hstays.2⟩

theorem Clause.stays_mono {r r' : Reach} (h : r.Within r') (clause : Clause)
    (hstays : clause.Stays r) : clause.Stays r' := by
  cases clause with
  | case values body => exact stmtsStay_mono h body hstays
  | default body => exact stmtsStay_mono h body hstays

end

/-- A label on a loop is a target of continues too. -/
def Reach.withLoop (r : Reach) (label : String) : Reach :=
  { r.withLabel label with continues := label :: r.continues }

theorem Reach.withLabel_within (r : Reach) (label : String) :
    (r.withLabel label).Within (r.withLoop label) :=
  ⟨id, id, id, fun _ => id, fun _ => List.mem_cons_of_mem label⟩

theorem Stmt.stays_labeled_loop {label : String} {stmt : Stmt} (hloop : stmt.isLoop = true)
    (h : stmt.Stays (r.withLoop label)) : (Stmt.labeled label stmt).Stays r := by
  cases stmt with
  | loop init cond post body => exact h
  | _ => cases hloop

theorem Stmt.stays_labeled {label : String} {stmt : Stmt} (h : stmt.Stays (r.withLabel label)) :
    (Stmt.labeled label stmt).Stays r := by
  cases hloop : stmt.isLoop with
  | true => exact stays_labeled_loop hloop (stmt.stays_mono (r.withLabel_within label) h)
  | false =>
      cases stmt with
      | loop init cond post body => cases hloop
      | _ => exact h

end Widening

section Trees

variable {r : Reach} {outer : List Flow} {s : Flow} {stmt : Stmt}

theorem stmtsStay_iff {stmts : List Stmt} : stmtsStay r stmts ↔ ∀ stmt ∈ stmts, stmt.Stays r := by
  induction stmts with
  | nil => simp [stmtsStay]
  | cons stmt stmts ih => rw [stmtsStay, ih, List.forall_mem_cons]

/-- The trees of statements stay where those of the single statements do. -/
theorem toStmts?_stay {body : List Flow} {stmts : List Stmt} (htrees : toStmts? body = some stmts)
    (h : ∀ s ∈ body, ∀ stmt, s.toStmt? = some stmt → stmt.Stays r) : stmtsStay r stmts := by
  induction body generalizing stmts with
  | nil =>
      cases htrees
      trivial
  | cons s body ih =>
      obtain ⟨stmt, rest, hstmt, hrest, rfl⟩ := return_eq_some₂.mp htrees
      rw [List.forall_mem_cons] at h
      exact ⟨h.1 stmt hstmt, ih hrest h.2⟩

/-- Closing a case adds no branch but one to the next case. -/
theorem closeCase_stay {body : List Flow} {stmts : List Stmt} (h : stmtsStay r.inSwitch stmts)
    (last : Bool) : stmtsStay r.inSwitch (closeCase body stmts last) := by
  rw [stmtsStay_iff] at h ⊢
  unfold closeCase
  split
  · exact fun stmt hmem => h stmt (List.mem_of_mem_dropLast hmem)
  · split
    · exact h
    · rw [List.forall_mem_append]
      refine ⟨h, ?_⟩
      rw [List.forall_mem_singleton]
      exact rfl

theorem toClauses?_stay {cases' : List FlowCase} {clauses : List Clause}
    (htrees : toClauses? cases' = some clauses)
    (h : ∀ s ∈ cases'.flatMap FlowCase.body, ∀ stmt, s.toStmt? = some stmt →
      stmt.Stays r.inSwitch) : clausesStay r.inSwitch clauses := by
  induction cases' generalizing clauses with
  | nil =>
      cases htrees
      trivial
  | cons c cases' ih =>
      obtain ⟨clause, rest, hclause, hrest, rfl⟩ := return_eq_some₂.mp htrees
      rw [List.flatMap_cons, List.forall_mem_append] at h
      refine ⟨?_, ih hrest h.2⟩
      cases c with
      | case values body =>
          obtain ⟨stmts, hstmts, rfl⟩ := return_eq_some.mp hclause
          exact closeCase_stay (toStmts?_stay hstmts h.1) cases'.isEmpty
      | default body =>
          obtain ⟨stmts, hstmts, rfl⟩ := return_eq_some.mp hclause
          exact closeCase_stay (toStmts?_stay hstmts h.1) cases'.isEmpty

/-- Whether a statement around is a target of branches that there are according to a reach. -/
structure Reach.Serves (r : Reach) (around : Flow) : Prop where
  brk : around.isLoop = true ∨ around.isSwitch = true → r.brk = true
  cont : around.isLoop = true → r.cont = true
  breaks : ∀ label, around.label? = some label → label ∈ r.breaks
  continues : ∀ label stmt, around = .labeled label stmt → stmt.isLoop = true →
    label ∈ r.continues

theorem Reach.Serves.mono {r' : Reach} {around : Flow} (h : r.Serves around) (hr : r.Within r') :
    r'.Serves around where
  brk ht := hr.brk (h.brk ht)
  cont ht := hr.cont (h.cont ht)
  breaks label ht := hr.breaks label (h.breaks label ht)
  continues label stmt ht hloop := hr.continues label (h.continues label stmt ht hloop)

theorem Flow.served_of_plain (hloop : s.isLoop = false) (hswitch : s.isSwitch = false)
    (hlabel : s.label? = none) : r.Serves s := by
  constructor
  · simp [hloop, hswitch]
  · simp [hloop]
  · simp [hlabel]
  · rintro label stmt rfl
    cases hlabel

theorem Flow.served_of_loop (hloop : s.isLoop = true) : (r.inLoop []).Serves s := by
  have hlabel : s.label? = none := by cases s <;> simp_all [Flow.isLoop, Flow.label?]
  constructor
  · exact fun _ => rfl
  · exact fun _ => rfl
  · simp [hlabel]
  · rintro label stmt rfl
    cases hlabel

theorem Flow.served_of_labeled {label : String} (hbreaks : label ∈ r.breaks)
    (hcontinues : s.isLoop = true → label ∈ r.continues) : r.Serves (.labeled label s) := by
  constructor
  · simp [isLoop, isSwitch]
  · exact nofun
  · intro l hl
    obtain rfl := Option.some.inj hl
    exact hbreaks
  · intro l t heq hloop
    cases heq
    exact hcontinues hloop

/-- The tree of a loop is a loop, whose body holds the trees of children and nothing else that
branches. -/
theorem Flow.loop_toStmt? (hloop : s.isLoop = true) (htree : s.toStmt? = some stmt) :
    ∃ init cond post stmts, stmt = .loop init cond post stmts ∧
      ∀ r : Reach, (∀ child ∈ s.children, ∀ stmt, child.toStmt? = some stmt → stmt.Stays r) →
        stmtsStay r stmts := by
  cases hasTree htree with
  | «while» hstmts | doWhile hstmts =>
      exact ⟨_, _, _, _, rfl, fun r h => toStmts?_stay hstmts h⟩
  | walk hstmts => exact ⟨_, _, _, _, rfl, fun r h => ⟨trivial, toStmts?_stay hstmts h⟩⟩
  | loop _ _ hstmts =>
      refine ⟨_, _, _, _, rfl, fun r h => toStmts?_stay hstmts fun child hchild => ?_⟩
      exact h child (.tail _ (.tail _ hchild))
  | _ => cases hloop

/-- Whether a statement fits where it stands and does not leave what is around it. -/
def Flow.Held (around : List Flow) (t : Flow) : Prop := t.Fits around ∧ ¬ t.Departs around

theorem label_getD (label : String) :
    (if label = "" then none else some label).getD "" = label := by
  split
  · rename_i hlabel
    exact hlabel.symm
  · rfl

theorem Flow.Held.allows_brk {label : String} (h : (Flow.brk label).Held outer)
    (hr : ∀ e ∈ outer, r.Serves e) : r.Allows (.brk label) := by
  obtain ⟨e, he, htarget⟩ : ∃ e ∈ outer, e.Targets (.brk label) := by
    simpa [Departs] using h.2
  simp only [Targets] at htarget
  split at htarget
  · rename_i hlabel
    rw [Reach.Allows, if_pos hlabel]
    exact (hr e he).brk htarget
  · rename_i hlabel
    rw [Reach.Allows, if_neg hlabel]
    exact (hr e he).breaks label htarget

theorem Flow.Held.allows_cont {label : String} (h : (Flow.cont label).Held outer)
    (hr : ∀ e ∈ outer, r.Serves e) : r.Allows (.cont label) := by
  obtain ⟨e, he, htarget⟩ : ∃ e ∈ outer, e.Targets (.cont label) := by
    simpa [Departs] using h.2
  simp only [Targets] at htarget
  split at htarget
  · rename_i hlabel
    rw [Reach.Allows, if_pos hlabel]
    exact (hr e he).cont htarget
  · rename_i hlabel
    rw [Reach.Allows, if_neg hlabel]
    obtain ⟨stmt, hstmt, hloop⟩ := h.1.2 hlabel ⟨e, he, htarget⟩
    exact (hr _ hstmt).continues label stmt rfl hloop

/-- Whether the trees of the children of a statement stay in every wider reach that has the targets
which the statement adds. -/
def Flow.ChildrenStay (r : Reach) (s : Flow) : Prop :=
  ∀ r' : Reach, r.Within r' → r'.Serves s →
    ∀ child ∈ s.children, ∀ stmt, child.toStmt? = some stmt → stmt.Stays r'

theorem Flow.ChildrenStay.loop (h : s.ChildrenStay r) (hloop : s.isLoop = true)
    (htree : s.toStmt? = some stmt) : stmt.Stays r := by
  obtain ⟨_, _, _, stmts, rfl, hstay⟩ := loop_toStmt? hloop htree
  exact hstay (r.inLoop []) (h _ r.within_inLoop (served_of_loop hloop))

theorem Flow.ChildrenStay.block {body : List Flow} (h : (Flow.block body).ChildrenStay r)
    (htree : (Flow.block body).toStmt? = some stmt) : stmt.Stays r := by
  obtain ⟨stmts, hstmts, rfl⟩ := return_eq_some.mp htree
  exact toStmts?_stay hstmts (h r (.refl r) (served_of_plain rfl rfl rfl))

theorem Flow.ChildrenStay.ite {cond : Expr} {body : List Flow} {other : Flow}
    (h : (Flow.ite cond body other).ChildrenStay r)
    (htree : (Flow.ite cond body other).toStmt? = some stmt) : stmt.Stays r := by
  have hstay := h r (.refl r) (served_of_plain rfl rfl rfl)
  cases hasTree htree with
  | @ite _ _ _ stmts other' hstmts hother =>
      constructor
      · exact toStmts?_stay hstmts fun child hchild => hstay child (.tail _ hchild)
      · obtain hmissing | hpart := other.part?_missing_or
        · obtain rfl := Option.some.inj (hmissing.symm.trans hother)
          trivial
        · exact hstay other (.head _) other' (hpart.symm.trans hother)

theorem Flow.ChildrenStay.switch {tag : Expr} {cases' : List FlowCase}
    (h : (Flow.switch tag cases').ChildrenStay r)
    (htree : (Flow.switch tag cases').toStmt? = some stmt) : stmt.Stays r := by
  obtain ⟨clauses, hclauses, rfl⟩ := return_eq_some.mp htree
  refine toClauses?_stay hclauses (h r.inSwitch r.within_inSwitch ?_)
  exact ⟨fun _ => rfl, nofun, nofun, nofun⟩

theorem Flow.ChildrenStay.labeled {label : String} (h : (Flow.labeled label s).ChildrenStay r)
    (htree : (Flow.labeled label s).toStmt? = some stmt) : stmt.Stays r := by
  obtain ⟨stmt', hstmt', rfl⟩ := return_eq_some.mp htree
  have hmember : s ∈ (Flow.labeled label s).children := List.mem_singleton_self s
  -- only a label on a loop serves continues, in the statement as in its tree
  cases hloop : s.isLoop with
  | true =>
      have hserves : (r.withLoop label).Serves (.labeled label s) :=
        served_of_labeled (.head _) fun _ => .head _
      have hwithin : r.Within (r.withLoop label) :=
        (r.within_withLabel label).trans (r.withLabel_within label)
      have hstays := h _ hwithin hserves s hmember stmt' hstmt'
      obtain ⟨_, _, _, _, rfl, -⟩ := loop_toStmt? hloop hstmt'
      exact Stmt.stays_labeled_loop rfl hstays
  | false =>
      have hserves : (r.withLabel label).Serves (.labeled label s) :=
        served_of_labeled (.head _) (by simp [hloop])
      exact Stmt.stays_labeled (h _ (r.within_withLabel label) hserves s hmember stmt' hstmt')

/-- The branches of a tree have targets where those of the statement have. -/
theorem Flow.tree_stays (h : s.Everywhere Held outer) (hr : ∀ e ∈ outer, r.Serves e)
    (htree : s.toStmt? = some stmt) : stmt.Stays r := by
  induction s using Flow.children_induction generalizing r outer stmt with
  | step s ih =>
      rw [everywhere_iff] at h
      have hchildren : s.ChildrenStay r := by
        intro r' hwithin hserves child hchild stmt hstmt
        refine ih child hchild (h.2 child hchild) ?_ hstmt
        exact List.forall_mem_cons.mpr ⟨hserves, fun e he => (hr e he).mono hwithin⟩
      cases s with
      | missing => cases htree
      | declare d =>
          obtain rfl := Option.some.inj htree
          unfold VarDecl.toStmt
          split <;> trivial
      | yield value => exact absurd trivial h.1.2
      | finish => exact absurd trivial h.1.2
      | lift d =>
          obtain rfl := Option.some.inj htree
          trivial
      | simple stmt' =>
          obtain rfl := Option.some.inj htree
          exact stmt'.stays_mono (.none r) h.1.1.2
      | brk label =>
          obtain rfl := Option.some.inj htree
          have hallows := h.1.allows_brk hr
          rwa [← label_getD label] at hallows
      | cont label =>
          obtain rfl := Option.some.inj htree
          have hallows := h.1.allows_cont hr
          rwa [← label_getD label] at hallows
      | block body => exact hchildren.block htree
      | ite cond body other => exact hchildren.ite htree
      | «while» cond body => exact hchildren.loop rfl htree
      | doWhile body cond => exact hchildren.loop rfl htree
      | walk header body => exact hchildren.loop rfl htree
      | loop init cond post body => exact hchildren.loop rfl htree
      | switch tag cases' => exact hchildren.switch htree
      | labeled label s' => exact hchildren.labeled htree

/-- In an orderly statement the control flow of the generator is changed exactly if something
leaves the statement.  If it is not, the tree of the statement always ends normally. -/
theorem Flow.Orderly.modifies_iff_leaves (h : s.Orderly) :
    (s.modifiesControlFlow = true ↔ s.Leaves) ∧
      (s.modifiesControlFlow = false → ∀ stmt, s.toStmt? = some stmt →
        ∀ (session : Session) (fuel : Nat) (m m' : Memory) (ctl : Control),
          stmt.exec session fuel m = .ok ctl m' → ctl = .normal) := by
  have hfits : s.Everywhere Fits [] := everywhere_nil.mpr h
  have hstays : s.modifiesControlFlow = false ↔
      s.Everywhere (fun around t => ¬ t.Departs around) [] :=
    escapes_eq_false_iff .none hfits
  constructor
  · rw [← Bool.not_eq_false, hstays, everywhere_nil]
    simp only [Leaves, not_forall, not_not, exists_prop]
  · intro hfalse stmt htree session fuel m m' ctl hexec
    have hheld : s.Everywhere Held [] := fun around t ht =>
      ⟨hfits around t ht, hstays.mp hfalse around t ht⟩
    exact Stmt.exec_normal (tree_stays hheld nofun htree) hexec

end Trees

/-- A loop with a label, and in it a switch whose cases leave the switch in different ways. -/
def searching : Flow :=
  .labeled "search" (.while .missing [.switch .missing
    [.case [.name "false"] [.cont "search"],
      .default [.ite (.name "false") [.brk ""] .missing, .brk "search"]]])

theorem searching_ends_normally : searching.Orderly ∧ ¬ searching.Leaves ∧
    ∃ stmt, searching.toStmt? = some stmt ∧
      (∀ (session : Session) (fuel : Nat) (m m' : Memory) (ctl : Control),
        stmt.exec session fuel m = .ok ctl m' → ctl = .normal) ∧
      ∀ (session : Session) (heap : Heap), ∃ m', stmt.exec session 1 ⟨[], [], heap⟩ =
        .ok .normal m' := by
  have horderly : searching.Orderly := by
    have hleaf : ∀ {outer : List Flow} {label : String},
        (Flow.brk label).Everywhere Flow.Fits outer :=
      Flow.everywhere_iff.mpr ⟨⟨trivial, trivial⟩, nofun⟩
    have hmissing : ∀ {outer : List Flow}, Flow.missing.Everywhere Flow.Fits outer :=
      Flow.everywhere_iff.mpr ⟨⟨trivial, trivial⟩, nofun⟩
    refine Flow.everywhere_nil.mp (Flow.everywhere_iff.mpr ⟨⟨trivial, trivial⟩, ?_⟩)
    refine List.forall_mem_singleton.mpr (Flow.everywhere_iff.mpr ⟨⟨trivial, trivial⟩, ?_⟩)
    refine List.forall_mem_singleton.mpr (Flow.everywhere_iff.mpr ⟨⟨trivial, trivial⟩, ?_⟩)
    refine List.forall_mem_cons.mpr ⟨?_, List.forall_mem_cons.mpr
      ⟨?_, List.forall_mem_singleton.mpr hleaf⟩⟩
    · refine Flow.everywhere_iff.mpr ⟨⟨trivial, fun _ _ => ?_⟩, nofun⟩
      exact ⟨_, .tail _ (.tail _ (.head _)), rfl⟩
    · refine Flow.everywhere_iff.mpr ⟨⟨trivial, trivial⟩, ?_⟩
      exact List.forall_mem_cons.mpr ⟨hmissing, List.forall_mem_singleton.mpr hleaf⟩
  obtain ⟨hleaves, hnormal⟩ := horderly.modifies_iff_leaves
  have hfalse : searching.modifiesControlFlow = false := by decide
  refine ⟨horderly, ?_, _, rfl, hnormal hfalse _ rfl, fun session heap => ⟨_, rfl⟩⟩
  rw [← hleaves, hfalse]
  exact Bool.false_ne_true

end YieldMachine
