import YieldMachine.Build.Constraint

/-!
# Files that a tag marks

Whether a file is a source for a tag is decided by two assignments: the tag alone, and no tag.
They decide for all assignments that set no other tag of the constraint, in which a source and its
generated file are never built together.  With other tags the two are told apart by a constraint
that demands the tag.
-/

namespace YieldMachine

namespace Constraint

/-- The tags of a constraint. -/
def tags : Constraint → List String
  | .tag name => [name]
  | .not x => x.tags
  | .and x y => x.tags ++ y.tags
  | .or x y => x.tags ++ y.tags

/-- Whether a constraint shows by its form that it has the given value only when a tag is set. -/
def demands (tag : String) : Bool → Constraint → Bool
  | value, .tag name => value && name == tag
  | value, .not x => x.demands tag !value
  | true, .and x y => x.demands tag true || y.demands tag true
  | false, .and x y => x.demands tag false && y.demands tag false
  | true, .or x y => x.demands tag true && y.demands tag true
  | false, .or x y => x.demands tag false || y.demands tag false

variable {x : Constraint} {tag : String} {set set' : String → Bool}

/-- Only the tags of a constraint matter for its value. -/
theorem eval_congr (h : ∀ t ∈ x.tags, set t = set' t) : x.eval set = x.eval set' := by
  induction x with
  | tag name => exact h name (.head _)
  | not x ih => rw [eval, eval, ih h]
  | and x y ihx ihy =>
      obtain ⟨hx, hy⟩ := List.forall_mem_append.mp h
      rw [eval, eval, ihx hx, ihy hy]
  | or x y ihx ihy =>
      obtain ⟨hx, hy⟩ := List.forall_mem_append.mp h
      rw [eval, eval, ihx hx, ihy hy]

theorem set_of_demands {value : Bool} (h : x.demands tag value = true)
    (hvalue : x.eval set = value) : set tag = true := by
  induction x generalizing value with
  | tag name =>
      simp only [demands, Bool.and_eq_true, beq_iff_eq] at h
      obtain ⟨rfl, rfl⟩ := h
      exact hvalue
  | not x ih => exact ih h (by rw [← hvalue, eval, Bool.not_not])
  | and x y ihx ihy =>
      cases value with
      | true =>
          obtain ⟨hx, hy⟩ := Bool.and_eq_true_iff.mp hvalue
          obtain h | h := Bool.or_eq_true_iff.mp h
          · exact ihx h hx
          · exact ihy h hy
      | false =>
          obtain ⟨h, h'⟩ := Bool.and_eq_true_iff.mp h
          obtain hx | hy := Bool.and_eq_false_iff.mp hvalue
          · exact ihx h hx
          · exact ihy h' hy
  | or x y ihx ihy =>
      cases value with
      | true =>
          obtain ⟨h, h'⟩ := Bool.and_eq_true_iff.mp h
          obtain hx | hy := Bool.or_eq_true_iff.mp hvalue
          · exact ihx h hx
          · exact ihy h' hy
      | false =>
          obtain ⟨hx, hy⟩ := Bool.or_eq_false_iff.mp hvalue
          obtain h | h := Bool.or_eq_true_iff.mp h
          · exact ihx h hx
          · exact ihy h hy

/-- The two assignments that are tried decide for all assignments that set no other tag of the
constraint. -/
theorem marks_iff : x.marks tag = true ↔
    ∀ set : String → Bool, (∀ t ∈ x.tags, t ≠ tag → set t = false) → x.eval set = set tag := by
  unfold marks
  rw [Bool.and_eq_true, Bool.not_eq_true']
  constructor
  · intro ⟨hwith, hwithout⟩ set hset
    cases htag : set tag with
    | true =>
        rw [← hwith]
        refine eval_congr fun t ht => ?_
        by_cases heq : t = tag
        · simp [heq, htag]
        · simp [heq, hset t ht heq]
    | false =>
        rw [← hwithout]
        refine eval_congr fun t ht => ?_
        by_cases heq : t = tag
        · rw [heq, htag]
        · exact hset t ht heq
  · intro h
    refine ⟨?_, h _ fun _ _ _ => rfl⟩
    rw [h (· == tag) fun t _ ht => beq_false_of_ne ht]
    exact beq_self_eq_true tag

end Constraint

/-- The constraint of a file with the given comments before its package clause. -/
def constraint? (comments : List String) : Option Constraint :=
  (comments.findSome? Constraint.ofComment?).bind Constraint.parse?

theorem isSource_eq (comments : List String) (tag : String) :
    isSource comments tag = (constraint? comments).any (·.marks tag) := by
  unfold isSource constraint?
  cases comments.findSome? Constraint.ofComment? <;> rfl

/-- A source and its generated file are not built together, unless tags are set that the
constraint of the source mentions and that let it hold without the tag. -/
theorem isSource_apart {comments : List String} {tag : String}
    (h : isSource comments tag = true) :
    ∃ x, constraint? comments = some x ∧ ∀ set : String → Bool,
      (∀ t ∈ x.tags, t ≠ tag → set t = false) ∨ x.demands tag true = true →
        ¬ (x.eval set = true ∧ (Constraint.ofGenerated tag).eval set = true) := by
  rw [isSource_eq, Option.any_eq_true] at h
  obtain ⟨x, hx, hmarks⟩ := h
  refine ⟨x, hx, fun set hset ⟨hsource, hgenerated⟩ => ?_⟩
  have hunset : set tag = false := by
    rw [Constraint.ofGenerated, Constraint.eval, Constraint.eval, Bool.not_eq_true'] at hgenerated
    exact hgenerated
  have htag : set tag = true := by
    obtain hothers | hdemands := hset
    · rw [← Constraint.marks_iff.mp hmarks set hothers]
      exact hsource
    · exact Constraint.set_of_demands hdemands hsource
  exact Bool.false_ne_true (hunset.symm.trans htag)

theorem demanding_apart :
    isSource ["//go:build yieldgen && (linux || !cgo)"] "yieldgen" = true ∧
      ∃ x, constraint? ["//go:build yieldgen && (linux || !cgo)"] = some x ∧
        x.demands "yieldgen" true = true ∧ ∀ set : String → Bool,
          ¬ (x.eval set = true ∧ (Constraint.ofGenerated "yieldgen").eval set = true) := by
  have hsource : isSource ["//go:build yieldgen && (linux || !cgo)"] "yieldgen" = true := by
    decide +kernel
  have hconstraint : constraint? ["//go:build yieldgen && (linux || !cgo)"] =
      some (.and (.tag "yieldgen") (.or (.tag "linux") (.not (.tag "cgo")))) := by
    decide +kernel
  obtain ⟨x, hx, hapart⟩ := isSource_apart hsource
  obtain rfl := Option.some.inj (hconstraint.symm.trans hx)
  exact ⟨hsource, _, hconstraint, rfl, fun set => hapart set (.inr rfl)⟩

/-- A constraint that another tag satisfies passes, and with that tag alone the source and its
generated file are built together. -/
theorem alternative_together :
    isSource ["//go:build yieldgen || foo"] "yieldgen" = true ∧
      ∃ x, constraint? ["//go:build yieldgen || foo"] = some x ∧ ∃ set : String → Bool,
        x.eval set = true ∧ (Constraint.ofGenerated "yieldgen").eval set = true :=
  ⟨by decide +kernel, .or (.tag "yieldgen") (.tag "foo"), by decide +kernel, (· == "foo"),
    by decide⟩

end YieldMachine
