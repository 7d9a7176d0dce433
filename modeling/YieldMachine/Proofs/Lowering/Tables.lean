import YieldMachine.Proofs.Lowering.Closed

/-!
# The table of a generator

What holds of the holder as a whole: the fields of the parameters come first, then the
body is lowered between the state that a generator starts in and the one that finishes it.
-/

namespace YieldMachine

open Lowering Draft

/-- Whether a table is complete.  The state that finishes the generator does only that,
and no other state does it; all jumps lead to states of the table; and each state ends in
a transfer, with nothing after the first one. -/
structure Holder.Complete (h : Holder) : Prop where
  finish : h.states[endState]? = some [.finish]
  fits : ∀ (q : Nat) (ops : List Op), q ≠ endState → h.states[q]? = some ops →
    OpsFit h.states.length ops
  terminate : ∀ ops ∈ h.states, opsTerminate ops = true
  unreached : ∀ ops ∈ h.states, ∀ pre, pre <+: ops → pre ≠ ops → opsTerminate pre = false

section Parameters

variable {E : LowerError → Prop} {d : Draft}

theorem foldl_withRename_sameTargets (names : List String) (env : StateEnv) :
    env.SameTargets (names.foldl (fun env name => env.withRename name ⟨name, true⟩) env) := by
  induction names generalizing env with
  | nil => exact .refl env
  | cons name names ih => exact ih (env.withRename name ⟨name, true⟩)

/-- Fields for the parameters. -/
theorem lowerParams_ensures (fs : List Field) (env : StateEnv) :
    Ensures E d (lowerParams fs env) fun env' d' =>
      (d'.states = d.states ∧ Extends [] d d') ∧ env.SameTargets env' := by
  induction fs generalizing env d with
  | nil => exact .pure ⟨⟨rfl, .refl d⟩, .refl env⟩
  | cons f fs ih =>
      refine Ensures.bind (P := fun env' d' =>
        (d'.states = d.states ∧ Extends [] d d') ∧ env.SameTargets env') ?_ ?_
      · exact ⟨⟨rfl, .of_states rfl (List.prefix_append ..) (List.suffix_append ..)⟩,
          foldl_withRename_sameTargets _ env⟩
      · rintro env₁ d₁ ⟨⟨hstates, hext⟩, hsame⟩
        refine (ih env₁).mono ?_
        rintro env' d' ⟨⟨hstates', hext'⟩, hsame'⟩
        exact ⟨⟨hstates'.trans hstates, hext.trans_self hext'⟩, hsame.trans hsame'⟩

end Parameters

/-- The draft of a generator with the states that it starts and finishes in. -/
def Draft.initial : Draft := Draft.empty.reserve.reserve

/-- The statements of a generator between the two. -/
def Routine.lowerBody (fn : Routine) (split : Nat → Flow → Bool) : Lowering Unit := do
  let env ← lowerParams (fn.recv.toList ++ fn.params.toList) (Env.start endState)
  let cont ← newState
  lowerStmts ⟨fn.name, fn.runtime, split⟩ fn.body entryState cont env

/-- The holder of a finished draft. -/
def Draft.holder (d : Draft) (fn : Routine) : Holder where
  name := fn.name
  recv := receiverName
  runtime := fn.runtime
  elem := fn.elem
  typeParams := fn.typeParams
  fields := d.fields
  params := d.params
  types := d.types
  states := d.states

theorem Routine.lowerWith_eq (fn : Routine) (split : Nat → Flow → Bool) :
    fn.lowerWith split =
      match fn.lowerBody split Draft.initial with
      | .error e => .error e
      | .ok ((), d) =>
        match validate fn.name (d.append endState .finish).states with
        | .error e => .error e
        | .ok () => .ok ((d.append endState .finish).holder fn) := by
  unfold Routine.lowerWith Routine.lowerBody
  show Except.bind ((do
    let env ← lowerParams (fn.recv.toList ++ fn.params.toList) (Env.start endState)
    let cont ← newState
    lowerStmts ⟨fn.name, fn.runtime, split⟩ fn.body entryState cont env
    emit endState .finish : Lowering Unit) Draft.initial) _ = _
  simp only [bind_apply]
  cases lowerParams (fn.recv.toList ++ fn.params.toList) (Env.start endState) Draft.initial with
  | error e => rfl
  | ok p =>
      obtain ⟨env, d⟩ := p
      simp only [newState]
      generalize lowerStmts _ fn.body entryState d.states.length env _ = result
      cases result with
      | error e => rfl
      | ok p =>
          obtain ⟨⟨⟩, d'⟩ := p
          show Except.bind (validate fn.name (d'.append endState .finish).states) _ = _
          simp only
          cases validate fn.name (d'.append endState .finish).states <;> rfl

/-- The draft that a holder was made from. -/
theorem Routine.lowerWith_ok {fn : Routine} {split : Nat → Flow → Bool} {holder : Holder}
    (h : fn.lowerWith split = .ok holder) :
    ∃ d, fn.lowerBody split Draft.initial = .ok ((), d) ∧
      holder = (d.append endState .finish).holder fn := by
  rw [fn.lowerWith_eq] at h
  cases hres : fn.lowerBody split Draft.initial with
  | error e =>
      rw [hres] at h
      cases h
  | ok p =>
      obtain ⟨⟨⟩, d⟩ := p
      rw [hres] at h
      dsimp only at h
      cases hvalid : validate fn.name (d.append endState .finish).states with
      | error e =>
          rw [hvalid] at h
          cases h
      | ok u =>
          rw [hvalid] at h
          cases h
          exact ⟨d, rfl, rfl⟩

section Bodies

variable {E : LowerError → Prop} {fn : Routine}

theorem Draft.initial_sound : Draft.initial.Sound := by
  refine ⟨by decide, fun ops hops op hop => ?_⟩
  obtain rfl : ops = [] := by simpa [Draft.initial, Draft.empty, Draft.reserve] using hops
  simp [opsParts] at hop

theorem Env.start_fits : StateEnv.Fits Draft.initial.size (Env.start endState) :=
  ⟨by decide, by simp [Env.start], by simp [Env.start]⟩

/-- The body of a generator: every state but the one that finishes it is closed. -/
theorem Routine.lowerBody_ensures (split : Nat → Flow → Bool)
    (hE : ∀ kind label, E (.unresolved fn.name kind label))
    (hbody : Lowerable E (flowsParts fn.body)) :
    Ensures E Draft.initial (fn.lowerBody split) fun _ d =>
      d.Sound ∧ d.states[endState]? = some [] ∧ ∀ q, q ≠ endState → q < d.size → d.Done q := by
  refine (lowerParams_ensures _ _).bind ?_
  rintro env d₁ ⟨⟨hstates, hext⟩, hsame⟩
  have hsound := Draft.initial_sound.of_states hstates
  have hready : ∀ q ∈ [entryState], d₁.Ready q := by
    intro q hq
    obtain rfl : q = entryState := by simpa using hq
    exact ⟨[], by rw [hstates]; rfl, isOpen_nil⟩
  have hfits : env.Fits d₁.size := hsame.fits (Env.start_fits.mono hext.size_le)
  have hsize : d₁.size = 2 := by
    rw [Draft.size, hstates]
    rfl
  have h₁ := (Opens.start hsound hready).reserve
  refine .newState ((lowerStmts_endsBlock hE fn.body hbody h₁.sound (hfits.mono (by simp))
    (h₁.isReady entryState (by simp)) (h₁.isReady d₁.size (by simp)) ?_).mono ?_)
  · rw [hsize]
    decide
  · rintro _ d' ⟨hsound', hext', hdone, hdone'⟩
    refine ⟨hsound', ?_, fun q hq hlt => ?_⟩
    · rw [hext'.kept endState (by rw [hsize]; decide) (by rw [size_reserve, hsize]; decide),
        d₁.getElem?_reserve (by rw [hsize]; decide), hstates]
      rfl
    · by_cases hmem : q ∈ [entryState, d₁.size]
      · simp only [List.mem_cons, List.not_mem_nil, or_false] at hmem
        rcases hmem with rfl | rfl
        · exact hdone
        · exact hdone'
      · refine hext'.finished q hmem ?_ hlt
        simp only [List.mem_cons, List.not_mem_nil, or_false, hsize, entryState, endState,
          size_reserve] at hmem hq ⊢
        omega

end Bodies

theorem firstIncomplete?_eq_none {states : List (List Op)} (id : Nat)
    (h : ∀ ops ∈ states, opsTerminate ops = true) : firstIncomplete? id states = none := by
  induction states generalizing id with
  | nil => rfl
  | cons ops states ih =>
      obtain ⟨hops, hstates⟩ := List.forall_mem_cons.mp h
      simp only [firstIncomplete?, hops, if_true]
      exact ih (id + 1) hstates

section Finish

variable {d : Draft}

/-- The draft whose finishing state is filled in. -/
theorem Draft.finish_states (hend : d.states[endState]? = some []) :
    (d.append endState .finish).states[endState]? = some [.finish] := by
  rw [getElem?_append_self hend]
  rfl

theorem Draft.isClosed_of_mem (hend : d.states[endState]? = some [])
    (hdone : ∀ q, q ≠ endState → q < d.size → d.Done q) {ops : List Op}
    (hops : ops ∈ (d.append endState .finish).states) : IsClosed ops := by
  obtain ⟨q, hq⟩ := List.getElem?_of_mem hops
  by_cases hqe : q = endState
  · subst hqe
    rw [Draft.finish_states hend] at hq
    obtain rfl := Option.some.inj hq
    exact isOpen_nil.close rfl
  · rw [d.getElem?_append_of_ne hqe] at hq
    obtain ⟨ops', hops', hclosed⟩ := hdone q hqe (List.getElem?_eq_some_iff.mp hq).1
    obtain rfl := Option.some.inj (hops'.symm.trans hq)
    exact hclosed

theorem Draft.complete (fn : Routine) (hsound : d.Sound) (hend : d.states[endState]? = some [])
    (hdone : ∀ q, q ≠ endState → q < d.size → d.Done q) :
    ((d.append endState .finish).holder fn).Complete where
  finish := Draft.finish_states hend
  fits q ops hq hops := by
    rw [show ((d.append endState .finish).holder fn).states.length = d.size from
      d.size_append endState .finish]
    rw [show ((d.append endState .finish).holder fn).states[q]? = d.states[q]? from
      d.getElem?_append_of_ne hq .finish] at hops
    exact hsound.2 ops (List.mem_of_getElem? hops)
  terminate ops hops := (Draft.isClosed_of_mem hend hdone hops).terminate
  unreached ops hops _ hpre hne := (Draft.isClosed_of_mem hend hdone hops).prefix_open hpre hne

end Finish

section Whole

variable {E : LowerError → Prop} {fn : Routine}

/-- Lowering a generator, with any choice of the statements to split, gives a complete
table or fails in a way that its statements allow. -/
theorem Routine.lowerWith_complete (split : Nat → Flow → Bool)
    (hE : ∀ kind label, E (.unresolved fn.name kind label))
    (hbody : Lowerable E (flowsParts fn.body)) :
    (∀ h, fn.lowerWith split = .ok h → h.Complete) ∧
      ∀ e, fn.lowerWith split = .error e → E e := by
  have hensures := Routine.lowerBody_ensures split hE hbody
  unfold Ensures at hensures
  rw [fn.lowerWith_eq]
  cases hres : fn.lowerBody split Draft.initial with
  | error e =>
      rw [hres] at hensures
      exact ⟨by simp, by simpa using hensures⟩
  | ok p =>
      obtain ⟨⟨⟩, d⟩ := p
      rw [hres] at hensures
      obtain ⟨hsound, hend, hdone⟩ := hensures
      have hvalid : validate fn.name (d.append endState .finish).states = .ok () := by
        unfold validate
        rw [firstIncomplete?_eq_none 0 fun ops hops =>
          (Draft.isClosed_of_mem hend hdone hops).terminate]
      simp only [hvalid]
      refine ⟨?_, by simp⟩
      rintro h ⟨⟩
      exact Draft.complete fn hsound hend hdone

end Whole

/-- Every table that lowering gives is complete.  Lowering fails only where a branch has no
target, or where a declaration has more names than types. -/
theorem Routine.lower_complete (fn : Routine) (hwritten : ∀ s ∈ flowsParts fn.body, s.Written) :
    (∀ h, fn.lower = .ok h → h.Complete) ∧
      ∀ e, fn.lower = .error e →
        (∃ kind label, e = .unresolved fn.name kind label) ∨
          e = .malformed ∧ ∃ decl, .declare decl ∈ flowsParts fn.body ∧
            decl.types.length < decl.names.length := by
  refine Routine.lowerWith_complete _ (fun kind label => .inl ⟨kind, label, rfl⟩) ⟨hwritten, ?_⟩
  by_cases htyped : ∀ decl, .declare decl ∈ flowsParts fn.body →
      decl.names.length ≤ decl.types.length
  · exact .inr htyped
  · push Not at htyped
    obtain ⟨decl, hdecl, hlt⟩ := htyped
    exact .inl (.inr ⟨rfl, decl, hdecl, hlt⟩)

/-- A generator that hands over one element and then breaks out of a labelled block. -/
def oneElement : Routine where
  name := "oneElement"
  recv := none
  typeParams := .absent
  params := .absent
  elem := .name "int"
  runtime := "yieldgen"
  body := [.labeled "all" (.block [.yield (.lit .int "1"), .brk "all"])]

theorem oneElement_complete : ∃ h, oneElement.lower = .ok h ∧ h.Complete := by
  have hwritten : ∀ s ∈ flowsParts oneElement.body, s.Written := by
    simp [oneElement, flowsParts, Flow.parts, Flow.Written]
  have hok : oneElement.lower.isOk = true := by decide +kernel
  cases hres : oneElement.lower with
  | error e =>
      rw [hres] at hok
      cases hok
  | ok h => exact ⟨h, rfl, (Routine.lower_complete oneElement hwritten).1 h hres⟩

end YieldMachine
