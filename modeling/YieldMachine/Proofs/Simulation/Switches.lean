import YieldMachine.Proofs.Simulation.Runs

/-!
# Switches in a table

A switch becomes a dispatch whose arms lead to one state for each case.  The dispatch chooses
the arm of the case that the switch starts at.
-/

namespace YieldMachine

open Lowering Behaviour

/-- What an arm is for, without its operations. -/
def Arm.guard : Arm → Clause
  | .case values _ => .case values []
  | .default _ => .default []

section Choices

variable {s : Session}

theorem matchingArm?_eq (v : View) (tag : Value) (i : Nat) (arms : List Arm) :
    matchingArm? s v tag i arms = matchingClause? s v tag i (arms.map Arm.guard) := by
  induction arms generalizing i with
  | nil => rfl
  | cons arm arms ih =>
      cases arm with
      | default ops => exact ih (i + 1)
      | case values ops =>
          simp only [matchingArm?, List.map_cons, Arm.guard, matchingClause?, ih]

theorem defaultArm?_eq (i : Nat) (arms : List Arm) :
    defaultArm? i arms = defaultClause? i (arms.map Arm.guard) := by
  induction arms generalizing i with
  | nil => rfl
  | cons arm arms ih =>
      cases arm <;> simp only [defaultArm?, List.map_cons, Arm.guard, defaultClause?, ih] <;>
        cases defaultClause? (i + 1) (arms.map Arm.guard) <;> rfl

/-- A dispatch chooses among its arms as a switch among its clauses. -/
theorem chooseArm_eq (tag : Expr) (arms : List Arm) :
    chooseArm s tag arms = chooseClause s tag (arms.map Arm.guard) := by
  simp only [chooseArm, matchingArm?_eq, defaultArm?_eq]
  rfl

theorem matchingClause?_lt {v : View} {tag : Value} {i j : Nat} {clauses : List Clause}
    {h h' : Heap} (hres : matchingClause? s v tag i clauses h = .ok (some j) h') :
    j < i + clauses.length := by
  induction clauses generalizing i h with
  | nil => cases hres
  | cons clause clauses ih =>
      cases clause with
      | default body =>
          have := ih (i := i + 1) hres
          simp only [List.length_cons]
          omega
      | case values body =>
          rw [matchingClause?, eff_bind_apply] at hres
          cases hany : matchesAny s v tag values h with
          | error e h₁ =>
              rw [hany] at hres
              cases hres
          | ok b h₁ =>
              rw [hany] at hres
              cases b with
              | true =>
                  cases hres
                  simp
              | false =>
                  have := ih (i := i + 1) hres
                  simp only [List.length_cons]
                  omega

theorem defaultClause?_lt {i j : Nat} {clauses : List Clause}
    (h : defaultClause? i clauses = some j) : j < i + clauses.length := by
  induction clauses generalizing i with
  | nil => cases h
  | cons clause clauses ih =>
      simp only [defaultClause?] at h
      cases hrest : defaultClause? (i + 1) clauses with
      | some k =>
          rw [hrest] at h
          obtain rfl : k = j := Option.some.inj h
          have := ih hrest
          simp only [List.length_cons]
          omega
      | none =>
          rw [hrest] at h
          cases clause with
          | case values body => cases h
          | default body =>
              obtain rfl : i = j := Option.some.inj h
              simp

/-- Whether a choice is that of a clause, or of none where there is no default. -/
def ChoiceFits (clauses : List Clause) : Option Nat → Prop
  | some i => i < clauses.length
  | none => defaultClause? 0 clauses = none

theorem chooseClause_fits {tag : Expr} {clauses : List Clause} {m m' : Memory}
    {choice : Option Nat} (h : chooseClause s tag clauses m = .ok choice m') :
    ChoiceFits clauses choice := by
  rw [chooseClause_eq] at h
  simp only [onHeap] at h
  rw [eff_bind_apply] at h
  cases htag : tagValue s tag m.view m.heap with
  | error e h₁ =>
      rw [htag] at h
      cases h
  | ok value h₁ =>
      rw [htag] at h
      dsimp only at h
      rw [eff_bind_apply] at h
      cases hmatch : matchingClause? s m.view value 0 clauses h₁ with
      | error e h₂ =>
          rw [hmatch] at h
          cases h
      | ok found h₂ =>
          rw [hmatch] at h
          cases found with
          | some i =>
              cases h
              simpa [ChoiceFits] using matchingClause?_lt hmatch
          | none =>
              cases h
              cases hdefault : defaultClause? 0 clauses with
              | none => exact hdefault
              | some i => simpa [ChoiceFits] using defaultClause?_lt hdefault

end Choices

/-- What is known of the result of a computation on the left. -/
theorem Sync.withResult {α : Type} {R : Memory → Memory → Prop} {R' : α → Memory → Memory → Prop}
    {P : α → Prop} {x y : Eff Memory α} (h : Sync R R' x y)
    (hP : ∀ {m a m'}, x m = .ok a m' → P a) :
    Sync R (fun a m mt => P a ∧ R' a m mt) x y := by
  intro m mt hm
  have hmatch := h m mt hm
  cases hx : x m <;> cases hy : y mt <;> rw [hx, hy] at hmatch
  · exact ⟨hmatch.1, hP hx, hmatch.2⟩
  · exact hmatch
  · exact hmatch
  · exact hmatch

/-- The arms of a dispatch, and the states that they lead to. -/
structure ArmsMatch (env : StateEnv) (cases' : List FlowCase) (states : List Nat)
    (arms : List Arm) : Prop where
  guards : arms.map Arm.guard =
    renameClauses receiverName env.renames (cases'.map FlowCase.guard)
  ops : arms.map Arm.ops = states.map fun q => [.jump q .missing]
  length : states.length = cases'.length

theorem lowerArms_ok {env : StateEnv} {cases' : List FlowCase} {d d' : Draft}
    {states : List Nat} {arms : List Arm}
    (h : lowerArms env cases' d = .ok ((states, arms), d')) :
    ArmsMatch env cases' states arms ∧ (∀ q, d'.ops q = d.ops q) ∧ d'.used = d.used := by
  induction cases' generalizing d d' states arms with
  | nil =>
      obtain ⟨⟨rfl, rfl⟩, rfl⟩ := h
      exact ⟨⟨rfl, rfl, rfl⟩, fun _ => rfl, rfl⟩
  | cons c cs ih =>
      unfold lowerArms at h
      rw [newState_bind, bind_ok] at h
      obtain ⟨⟨states', arms'⟩, d₁, hrest, h⟩ := h
      obtain ⟨hmatch, hops, hused⟩ := ih hrest
      cases c with
      | case values body =>
          obtain ⟨⟨rfl, rfl⟩, rfl⟩ := h
          refine ⟨⟨?_, ?_, ?_⟩, fun q => by rw [hops, Draft.ops_reserve], hused⟩
          · simp only [List.map_cons, Arm.guard, hmatch.guards, FlowCase.guard, renameClauses,
              Clause.rename, renameStmts, renameExprs_eq_map]
            rfl
          · simp only [List.map_cons, Arm.ops, hmatch.ops]
          · simp [hmatch.length]
      | default body =>
          obtain ⟨⟨rfl, rfl⟩, rfl⟩ := h
          refine ⟨⟨?_, ?_, ?_⟩, fun q => by rw [hops, Draft.ops_reserve], hused⟩
          · simp only [List.map_cons, Arm.guard, hmatch.guards, FlowCase.guard, renameClauses,
              Clause.rename, renameStmts]
          · simp only [List.map_cons, Arm.ops, hmatch.ops]
          · simp [hmatch.length]

theorem defaultClause?_eq_none {i : Nat} {cases' : List FlowCase}
    (h : defaultClause? i (cases'.map FlowCase.guard) = none) :
    cases'.any FlowCase.isDefault = false := by
  induction cases' generalizing i with
  | nil => rfl
  | cons c cs ih =>
      simp only [List.map_cons, defaultClause?] at h
      cases hrest : defaultClause? (i + 1) (cs.map FlowCase.guard) with
      | some k =>
          rw [hrest] at h
          cases h
      | none =>
          rw [hrest] at h
          cases c with
          | case values body => simpa [FlowCase.isDefault] using ih hrest
          | default body => cases h

section Dispatches

variable {S : Setting} {g : Ground} {c : Visible} {d : Draft} {q : Nat} {env : StateEnv}
  {cases' : List FlowCase} {states : List Nat} {arms : List Arm} {tag : Expr}

/-- The state of a dispatch. -/
theorem dispatch_simulated (hS : S.Ready) (hr : Resolves g [] c env.renames)
    (hrun : c.runtime = S.session.runtime) (htag : tag.Clear c)
    (hvalues : ∀ clause ∈ cases'.map FlowCase.guard, exprsClear c clause.values)
    (hmatch : ArmsMatch env cases' states arms) (hstates : ∀ q ∈ states, q < S.states.length)
    (hq : q < d.size) (hops : d.ops q = [])
    (hwithin : (d.append q (.dispatch (env.resolve tag) arms)).Within S.states S.fields)
    (hlast : cases'.any FlowCase.isDefault = false →
      ((d.append q (.dispatch (env.resolve tag) arms)).append q
        (.jump env.next .missing)).Within S.states S.fields)
    {rounds : Nat} {f : Option Nat → Memory → Course Ending}
    (hcase : ∀ i goal, states[i]? = some goal → ∀ m mt, Linked g [] m mt →
      S.Sim rounds (f (some i) m) (S.enter goal mt))
    (hnone : ∀ m mt, Linked g [] m mt → S.Sim rounds (f none m) (S.enter env.next mt))
    {m mt : Memory} (hm : Linked g [] m mt) :
    S.Sim rounds ((Course.ofResult
        (chooseClause S.session tag (cases'.map FlowCase.guard) m)).bind f)
      (S.resume q 0 mt) := by
  have hsync := (chooseClause_sync hr hS.recv hrun htag hvalues).withResult
    (P := ChoiceFits (cases'.map FlowCase.guard)) chooseClause_fits
  rw [← hmatch.guards, ← chooseArm_eq] at hsync
  have hposition : S.resume q 0 mt = S.resume q (d.ops q).length mt := by
    rw [hops]
    rfl
  rw [hposition]
  unfold Setting.resume
  rw [hwithin.drop_append hq, running_dispatch]
  refine Course.Simulated.lift (hsync m mt hm) ?_
  rintro choice m' mt' ⟨hfits, hm'⟩
  cases choice with
  | none =>
      have hwithin' := hlast (defaultClause?_eq_none hfits)
      have hnext : env.next < S.states.length :=
        hS.jump_lt (by simpa using hq) hwithin' .missing (by simp [Op.parts])
      simp only [armOps, List.nil_append]
      rw [hwithin'.drop_append (by simpa using hq), running_jump hnext]
      exact hnone m' mt' hm'
  | some i =>
      have hi : i < states.length := by
        rw [hmatch.length]
        simpa [ChoiceFits] using hfits
      have hgoal : states[i]? = some states[i] := List.getElem?_eq_getElem hi
      have harm : arms[i]?.map Arm.ops = some [.jump states[i] .missing] := by
        rw [← List.getElem?_map, hmatch.ops, List.getElem?_map, hgoal]
        rfl
      simp only [armOps, harm, Option.getD_some, List.singleton_append]
      rw [running_jump (hstates _ (List.getElem_mem hi))]
      exact hcase i _ hgoal m' mt' hm'

end Dispatches

end YieldMachine
