import YieldMachine.Proofs.Lowering.Written

/-!
# The branches of a generator body

Every break and continue of a body, with the statements around it that it could lead to.
A statement that stays as it is takes its branches along without looking them up, and they
have a target inside it, up to continues that name a statement other than a loop.
-/

namespace YieldMachine

/-- The statements around a branch that it could lead to: whether there are loops or
switches, and the labels, each with whether it stands on a loop. -/
structure Enclosure where
  brk : Bool
  cont : Bool
  labels : List (String × Bool)

namespace Enclosure

/-- Nothing is around. -/
def none : Enclosure := ⟨false, false, []⟩

/-- In the body of a loop. -/
def inLoop (a : Enclosure) : Enclosure := { a with brk := true, cont := true }

/-- In a case of a switch. -/
def inSwitch (a : Enclosure) : Enclosure := { a with brk := true }

/-- In a labelled statement. -/
def withLabel (a : Enclosure) (label : String) (loop : Bool) : Enclosure :=
  { a with labels := (label, loop) :: a.labels }

/-- Whether a label is around. -/
def hasLabel (a : Enclosure) (label : String) : Bool :=
  a.labels.contains (label, true) || a.labels.contains (label, false)

theorem hasLabel_withLabel (a : Enclosure) (label : String) (loop : Bool) (l : String) :
    (a.withLabel label loop).hasLabel l = (decide (l = label) || a.hasLabel l) := by
  cases loop <;> simp [hasLabel, withLabel, Bool.or_assoc, Bool.or_left_comm]

end Enclosure

/-- Whether a statement is a loop, possibly under labels. -/
def Flow.onLoop : Flow → Bool
  | .while _ _ | .doWhile _ _ | .loop _ _ _ _ | .walk _ _ => true
  | .labeled _ stmt => stmt.onLoop
  | _ => false

/-- A break or continue in its surroundings. -/
structure Branch where
  kind : BranchKind
  label : String
  around : Enclosure
  /-- it belongs to a statement that stays as it is -/
  copied : Bool

/-- Whether a branch has a target: a break a loop or switch, or a statement with its label,
and a continue a loop, with its label if there is one. -/
def Branch.hasTarget (b : Branch) : Bool :=
  match b.kind with
  | .brk => if b.label = "" then b.around.brk else b.around.hasLabel b.label
  | _ => if b.label = "" then b.around.cont else b.around.labels.contains (b.label, true)

/-- Whether lowering looks for the target of a branch and finds none.  An empty label, which
no source has, serves a plain break as a target. -/
def Branch.reported (b : Branch) : Bool :=
  !b.copied && !b.hasTarget && !(b.kind = .brk && b.label = "" && b.around.hasLabel "")

/-- The branches of a statement of a list: if the statement does not change the control flow,
it stays as it is. -/
def Flow.listed (s : Flow) (branches : List Branch) : List Branch :=
  if s.modifiesControlFlow then branches else branches.map ({ · with copied := true })

mutual

/-- The branches of a statement from left to right. -/
def Flow.branches (around : Enclosure) : Flow → List Branch
  | .brk label => [⟨.brk, label, around, false⟩]
  | .cont label => [⟨.cont, label, around, false⟩]
  | .block body => flowsBranches around body
  | .ite _ body other => flowsBranches around body ++ other.listed (other.branches around)
  | .while _ body => flowsBranches around.inLoop body
  | .doWhile body _ => flowsBranches around.inLoop body
  | .loop _ _ _ body => flowsBranches around.inLoop body
  | .walk _ body => flowsBranches around.inLoop body
  | .switch _ cases => casesBranches around.inSwitch cases
  | .labeled label stmt => stmt.branches (around.withLabel label stmt.onLoop)
  | _ => []

/-- The branches of a statement list. -/
def flowsBranches (around : Enclosure) : List Flow → List Branch
  | [] => []
  | s :: ss => s.listed (s.branches around) ++ flowsBranches around ss

/-- The branches of the cases of a switch. -/
def casesBranches (around : Enclosure) : List FlowCase → List Branch
  | [] => []
  | c :: cs => c.branches around ++ casesBranches around cs

/-- The branches of a case. -/
def FlowCase.branches (around : Enclosure) : FlowCase → List Branch
  | .case _ body => flowsBranches around body
  | .default body => flowsBranches around body

end

/-- The branches of a generator. -/
def Routine.branches (fn : Routine) : List Branch := flowsBranches .none fn.body

/-- Whether a branch has a target or is a continue to a label of something else than a
loop. -/
def Branch.Bound (b : Branch) : Prop :=
  b.hasTarget = true ∨ b.kind = .cont ∧ b.label ≠ "" ∧ (b.label, false) ∈ b.around.labels

/-- Whether the targets inside a statement are among the surroundings. -/
structure Bound.Within (inside : Bound) (around : Enclosure) : Prop where
  brk : inside.brk = true → around.brk = true
  cont : inside.cont = true → around.cont = true
  labels : ∀ l ∈ inside.labels, around.hasLabel l = true

namespace Bound.Within

variable {inside : Bound} {around : Enclosure}

theorem none (around : Enclosure) : Bound.none.Within around := ⟨nofun, nofun, nofun⟩

theorem inLoop (h : inside.Within around) : inside.inLoop.Within around.inLoop :=
  ⟨fun _ => rfl, fun _ => rfl, h.labels⟩

theorem inSwitch (h : inside.Within around) : inside.inSwitch.Within around.inSwitch :=
  ⟨fun _ => rfl, h.cont, h.labels⟩

theorem withLabel (h : inside.Within around) (label : String) (loop : Bool) :
    (inside.withLabel label).Within (around.withLabel label loop) where
  brk := h.brk
  cont := h.cont
  labels l hl := by
    rw [Enclosure.hasLabel_withLabel]
    obtain rfl | hl := List.mem_cons.mp hl
    · simp
    · simp [h.labels l hl]

end Bound.Within

section Copied

variable {inside : Bound} {around : Enclosure} {copied : Bool}

theorem bound_brk {label : String} (h : inside.Within around)
    (hesc : (Flow.brk label).escapes inside = false) :
    (Branch.mk .brk label around copied).Bound := by
  left
  unfold Flow.escapes at hesc
  unfold Branch.hasTarget
  split at hesc
  · rename_i hl
    simpa [hl] using h.brk (by simpa using hesc)
  · rename_i hl
    simpa [hl] using h.labels label (by simpa using hesc)

theorem bound_cont {label : String} (h : inside.Within around)
    (hesc : (Flow.cont label).escapes inside = false) :
    (Branch.mk .cont label around copied).Bound := by
  unfold Flow.escapes at hesc
  unfold Branch.Bound Branch.hasTarget
  split at hesc
  · rename_i hl
    left
    simpa [hl] using h.cont (by simpa using hesc)
  · rename_i hl
    have hlabel := h.labels label (by simpa using hesc)
    simp only [Enclosure.hasLabel, Bool.or_eq_true, List.contains_iff_mem] at hlabel
    simpa [hl] using hlabel

theorem Flow.listed_bound {bs : List Branch} (s : Flow) (h : ∀ b ∈ bs, b.Bound) :
    ∀ b ∈ s.listed bs, b.Bound := by
  unfold Flow.listed
  split
  · exact h
  · intro b hb
    obtain ⟨b, hmem, rfl⟩ := List.mem_map.mp hb
    exact h b hmem

mutual

/-- The branches of a statement that does not escape are bound. -/
theorem Flow.branches_bound {inside : Bound} {around : Enclosure} (flow : Flow)
    (hesc : flow.escapes inside = false) (h : inside.Within around) :
    ∀ b ∈ flow.branches around, b.Bound := by
  cases flow with
  | brk label => simpa [Flow.branches] using bound_brk h hesc
  | cont label => simpa [Flow.branches] using bound_cont h hesc
  | block body => exact flowsBranches_bound body hesc h
  | «while» cond body => exact flowsBranches_bound body hesc h.inLoop
  | doWhile body cond => exact flowsBranches_bound body hesc h.inLoop
  | loop init cond post body => exact flowsBranches_bound body hesc h.inLoop
  | walk header body => exact flowsBranches_bound body hesc h.inLoop
  | switch tag cases => exact casesBranches_bound cases hesc h.inSwitch
  | labeled label stmt => exact stmt.branches_bound hesc (h.withLabel label _)
  | ite cond body other =>
      simp only [Flow.escapes, Bool.or_eq_false_iff] at hesc
      exact List.forall_mem_append.mpr
        ⟨flowsBranches_bound body hesc.1 h, other.listed_bound (other.branches_bound hesc.2 h)⟩
  | _ => simp [Flow.branches]

theorem flowsBranches_bound {inside : Bound} {around : Enclosure} (fs : List Flow)
    (hesc : anyEscapes inside fs = false) (h : inside.Within around) :
    ∀ b ∈ flowsBranches around fs, b.Bound := by
  cases fs with
  | nil => simp [flowsBranches]
  | cons f fs =>
      simp only [anyEscapes, Bool.or_eq_false_iff] at hesc
      exact List.forall_mem_append.mpr
        ⟨f.listed_bound (f.branches_bound hesc.1 h), flowsBranches_bound fs hesc.2 h⟩

theorem casesBranches_bound {inside : Bound} {around : Enclosure} (cases' : List FlowCase)
    (hesc : anyCaseEscapes inside cases' = false) (h : inside.Within around) :
    ∀ b ∈ casesBranches around cases', b.Bound := by
  cases cases' with
  | nil => simp [casesBranches]
  | cons c cs =>
      simp only [anyCaseEscapes, Bool.or_eq_false_iff] at hesc
      exact List.forall_mem_append.mpr
        ⟨c.branches_bound hesc.1 h, casesBranches_bound cs hesc.2 h⟩

theorem FlowCase.branches_bound {inside : Bound} {around : Enclosure} (c : FlowCase)
    (hesc : c.escapes inside = false) (h : inside.Within around) :
    ∀ b ∈ c.branches around, b.Bound := by
  cases c with
  | case values body => exact flowsBranches_bound body hesc h
  | default body => exact flowsBranches_bound body hesc h

end

theorem Flow.listed_copied_bound {around : Enclosure} (flow : Flow)
    (h : ∀ b ∈ flow.branches around, b.copied = true → b.Bound) :
    ∀ b ∈ flow.listed (flow.branches around), b.copied = true → b.Bound := by
  cases hsplit : flow.modifiesControlFlow with
  | false => exact fun b hb _ => flow.listed_bound (flow.branches_bound hsplit (.none around)) b hb
  | true => simpa only [Flow.listed, hsplit, if_true] using h

mutual

/-- Branches that stay as they are are bound. -/
theorem Flow.copied_bound {around : Enclosure} (flow : Flow) :
    ∀ b ∈ flow.branches around, b.copied = true → b.Bound := by
  cases flow with
  | block body => exact flows_copied_bound body
  | «while» cond body => exact flows_copied_bound body
  | doWhile body cond => exact flows_copied_bound body
  | loop init cond post body => exact flows_copied_bound body
  | walk header body => exact flows_copied_bound body
  | switch tag cases => exact cases_copied_bound cases
  | labeled label stmt => exact stmt.copied_bound
  | ite cond body other =>
      exact List.forall_mem_append.mpr
        ⟨flows_copied_bound body, other.listed_copied_bound other.copied_bound⟩
  | _ => simp [Flow.branches]

theorem flows_copied_bound {around : Enclosure} (fs : List Flow) :
    ∀ b ∈ flowsBranches around fs, b.copied = true → b.Bound := by
  cases fs with
  | nil => simp [flowsBranches]
  | cons f fs =>
      exact List.forall_mem_append.mpr
        ⟨f.listed_copied_bound f.copied_bound, flows_copied_bound fs⟩

theorem cases_copied_bound {around : Enclosure} (cases' : List FlowCase) :
    ∀ b ∈ casesBranches around cases', b.copied = true → b.Bound := by
  cases cases' with
  | nil => simp [casesBranches]
  | cons c cs => exact List.forall_mem_append.mpr ⟨c.copied_bound, cases_copied_bound cs⟩

theorem FlowCase.copied_bound {around : Enclosure} (c : FlowCase) :
    ∀ b ∈ c.branches around, b.copied = true → b.Bound := by
  cases c with
  | case values body => exact flows_copied_bound body
  | default body => exact flows_copied_bound body

end

end Copied

/-- A block that stays as it is holds only statements that do. -/
theorem Flow.listed_block {around : Enclosure} (body : List Flow) :
    (Flow.block body).listed (flowsBranches around body) = flowsBranches around body := by
  unfold Flow.listed
  split
  · rfl
  · rename_i hsplit
    replace hsplit : anyEscapes .none body = false := Bool.not_eq_true _ ▸ hsplit
    induction body with
    | nil => rfl
    | cons f fs ih =>
        simp only [anyEscapes, Bool.or_eq_false_iff] at hsplit
        have hf : f.modifiesControlFlow = false := hsplit.1
        simp [flowsBranches, Flow.listed, hf, ih hsplit.2]

end YieldMachine
