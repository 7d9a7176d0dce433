import YieldMachine.Machine.Gallery
import YieldMachine.Proofs.Machine.Generators

/-!
# Counting up and down

`upDown` counts up to its field `stop` and back to zero, for every number that the field can hold.

Each of its two loops goes round through four states.  A round is a short run, and an induction on
the rounds that are left puts them together.  Neither counter is ever changed beyond its range:
`Bounded` says what holds wherever the machine stands, and every step keeps it.
-/

namespace YieldMachine

section Ending

variable {σ τ α : Type} {step : τ → Eff σ (Bounce τ α)} {entry : τ} {m m' : σ}
  {vs : List (Visit τ α)}

theorem Request.expect_collect_ofRun_none (values : List α) :
    Request.collect.expect (.ofRun (none : Option τ) values) =
      some (.collected values, .ofRun (none : Option τ) []) := by
  have htake : values.take (values.length + 1) = values := List.take_of_length_le (by omega)
  have hdrop : values.drop (values.length + 1) = [] := List.drop_eq_nil_of_le (by omega)
  simp [Request.expect, htake, hdrop]

/-- A machine that runs to its end answers requests with the elements of its run. -/
theorem PlainRun.serve_eq (h : PlainRun step (some entry) m vs none m') (zero : α)
    {rs : List Request} {replies : List (Reply α)}
    (hreplies : expectAll (.ofRun (none : Option τ) (elements vs)) rs = some replies) :
    ∃ bound, ∀ fuel, bound ≤ fuel →
      ∃ m₁, (Generator.started step entry).serve zero fuel rs m = .ok replies m₁ := by
  have hstreams : (Generator.started step entry).Streams m
      (.ofRun (none : Option τ) (elements vs)) := ⟨vs, none, m', h, .inr rfl, rfl⟩
  exact Generator.serve_of_expectAll hstreams hreplies

/-- A machine that runs to its end answers calls with the elements of its run. -/
theorem PlainRun.session_eq (h : PlainRun step (some entry) m vs none m') (zero : α)
    (calls : List Call) {fuel : Nat} (hfuel : vs.length ≤ fuel) :
    ∃ m₁, Sequence.session step fuel zero entry calls m =
      .ok (answers zero (elements vs) calls) m₁ := by
  obtain ⟨us, rest, s, m₁, rfl, hleg, hrest⟩ := h.leg (.inr rfl)
  rw [List.length_append] at hfuel
  have hstart : Sequence.start step fuel entry m = .ok s m₁ := hleg.start_eq (by omega)
  obtain ⟨-, m₂, -, hconsume⟩ := Sequence.consume_of_plainRun zero calls hrest (.inr rfl)
  refine ⟨m₂, ?_⟩
  simp only [Sequence.session, eff_bind_apply, hstart, hconsume fuel (by omega), elements_append,
    hleg.elements_eq]

end Ending

namespace Gallery

variable {stop i i1 : Int64} {o o' : Option (Option Nat)} {m m' : UpDown}
  {vs : List (Visit (Option Nat) Int64)}

section Numbers

theorem toInt_succ (h : i < stop) : (i + 1).toInt = i.toInt + 1 := by
  rw [Int64.lt_iff_toInt_lt] at h
  have hlow := i.le_toInt
  have hhigh := stop.toInt_lt
  rw [Int64.toInt_add, Int64.toInt_one, Int.bmod_eq_of_le (by omega) (by omega)]

theorem toInt_pred (h : 0 ≤ i) : (i - 1).toInt = i.toInt - 1 := by
  rw [Int64.le_iff_toInt_le, Int64.toInt_zero] at h
  have hhigh := i.toInt_lt
  rw [Int64.toInt_sub, Int64.toInt_one, Int.bmod_eq_of_le (by omega) (by omega)]

end Numbers

section Rounds

/-- The test of the first loop. -/
theorem upDown_test_up (m : UpDown) :
    upDown (some 4) m = .ok (if m.i < m.stop then goto 5 else goto 2) m := by
  show (if m.i < m.stop then pure (goto 5) else pure (goto 2) : Eff UpDown _) m = _
  split <;> rfl

/-- The test of the second loop. -/
theorem upDown_test_down (m : UpDown) :
    upDown (some 11) m = .ok (if 0 ≤ m.i1 then goto 12 else goto 9) m := by
  show (if 0 ≤ m.i1 then pure (goto 12) else pure (goto 9) : Eff UpDown _) m = _
  split <;> rfl

/-- A round of the first loop gives the counter and increments it. -/
theorem round_up (h : i < stop) :
    PlainRun upDown (some (some 4)) ⟨stop, i, i1⟩
      [⟨some 4, goto 5⟩, ⟨some 5, emit 7 i⟩, ⟨some 7, goto 6⟩, ⟨some 6, goto 4⟩]
      (some (some 4)) ⟨stop, i + 1, i1⟩ := by
  have htest := upDown_test_up ⟨stop, i, i1⟩
  rw [if_pos h] at htest
  exact .visit htest (.visit rfl (.visit rfl (.visit rfl (.stay _ _))))

/-- The first loop is left when the counter has reached its bound. -/
theorem leave_up (h : ¬ i < stop) :
    PlainRun upDown (some (some 4)) ⟨stop, i, i1⟩ [⟨some 4, goto 2⟩] (some (some 2))
      ⟨stop, i, i1⟩ := by
  have htest := upDown_test_up ⟨stop, i, i1⟩
  rw [if_neg h] at htest
  exact .visit htest (.stay _ _)

/-- A round of the second loop gives the counter and decrements it. -/
theorem round_down (h : 0 ≤ i1) :
    PlainRun upDown (some (some 11)) ⟨stop, i, i1⟩
      [⟨some 11, goto 12⟩, ⟨some 12, emit 14 i1⟩, ⟨some 14, goto 13⟩, ⟨some 13, goto 11⟩]
      (some (some 11)) ⟨stop, i, i1 - 1⟩ := by
  have htest := upDown_test_down ⟨stop, i, i1⟩
  rw [if_pos h] at htest
  exact .visit htest (.visit rfl (.visit rfl (.visit rfl (.stay _ _))))

/-- The second loop is left when the counter is negative. -/
theorem leave_down (h : ¬ 0 ≤ i1) :
    PlainRun upDown (some (some 11)) ⟨stop, i, i1⟩ [⟨some 11, goto 9⟩] (some (some 9))
      ⟨stop, i, i1⟩ := by
  have htest := upDown_test_down ⟨stop, i, i1⟩
  rw [if_neg h] at htest
  exact .visit htest (.stay _ _)

/-- The first loop gives the numbers from its counter on, below the bound. -/
theorem runs_up (stop i i1 : Int64) (n : Nat) (hn : n = (stop.toInt - i.toInt).toNat) :
    ∃ vs i', PlainRun upDown (some (some 4)) ⟨stop, i, i1⟩ vs (some (some 2)) ⟨stop, i', i1⟩ ∧
      (elements vs).map Int64.toInt = (List.range n).map fun (k : Nat) => i.toInt + k := by
  induction n generalizing i with
  | zero =>
      have hstop : ¬ i < stop := by
        rw [Int64.lt_iff_toInt_lt]
        omega
      exact ⟨_, i, leave_up hstop, rfl⟩
  | succ n ih =>
      have hlt : i < stop := by
        rw [Int64.lt_iff_toInt_lt]
        omega
      have hsucc := toInt_succ hlt
      obtain ⟨vs, i', hrun, hvs⟩ := ih (i + 1) (by omega)
      refine ⟨_, i', (round_up hlt).append hrun, ?_⟩
      have hround : elements [⟨some 4, goto 5⟩, ⟨some 5, emit 7 i⟩, ⟨some 7, goto 6⟩,
          ⟨some 6, goto 4⟩] = [i] := rfl
      rw [elements_append, hround, List.map_append, hvs, List.range_succ_eq_map, hsucc]
      simp [Function.comp_def, Int.add_assoc, Int.add_comm 1]

/-- The second loop gives the numbers from its counter down to zero. -/
theorem runs_down (stop i i1 : Int64) (n : Nat) (hn : n = (i1.toInt + 1).toNat) :
    ∃ vs i1', PlainRun upDown (some (some 11)) ⟨stop, i, i1⟩ vs (some (some 9))
        ⟨stop, i, i1'⟩ ∧
      (elements vs).map Int64.toInt = (List.range n).reverse.map fun (k : Nat) => (k : Int) := by
  induction n generalizing i1 with
  | zero =>
      have hneg : ¬ 0 ≤ i1 := by
        rw [Int64.le_iff_toInt_le, Int64.toInt_zero]
        omega
      exact ⟨_, i1, leave_down hneg, rfl⟩
  | succ n ih =>
      have hle : 0 ≤ i1 := by
        rw [Int64.le_iff_toInt_le, Int64.toInt_zero]
        omega
      have hpred := toInt_pred hle
      obtain ⟨vs, i1', hrun, hvs⟩ := ih (i1 - 1) (by omega)
      refine ⟨_, i1', (round_down hle).append hrun, ?_⟩
      have hround : elements [⟨some 11, goto 12⟩, ⟨some 12, emit 14 i1⟩, ⟨some 14, goto 13⟩,
          ⟨some 13, goto 11⟩] = [i1] := rfl
      have hfirst : i1.toInt = n := by omega
      rw [elements_append, hround, List.map_append, hvs, List.range_succ]
      simp [hfirst]

/-- The machine runs to its end, and gives the numbers below `stop` and then those down from it. -/
theorem upDown_runs (stop : Int64) :
    ∃ vs m', PlainRun upDown (some (some 0)) (upDownStart stop) vs none m' ∧
      (elements vs).map Int64.toInt =
        (List.range stop.toInt.toNat ++ (List.range (stop.toInt + 1).toNat).reverse).map
          fun (k : Nat) => (k : Int) := by
  obtain ⟨ups, i, hup, hups⟩ := runs_up stop 0 0 _ rfl
  obtain ⟨downs, i1, hdown, hdowns⟩ := runs_down stop i stop _ rfl
  have henter : PlainRun upDown (some (some 0)) (upDownStart stop)
      [⟨some 0, goto 3⟩, ⟨some 3, goto 4⟩] (some (some 4)) ⟨stop, 0, 0⟩ :=
    .visit rfl (.visit rfl (.stay _ _))
  have hturn : PlainRun upDown (some (some 2)) ⟨stop, i, 0⟩
      [⟨some 2, goto 10⟩, ⟨some 10, goto 11⟩] (some (some 11)) ⟨stop, i, stop⟩ :=
    .visit rfl (.visit rfl (.stay _ _))
  have hend : PlainRun upDown (some (some 9)) ⟨stop, i, i1⟩
      [⟨some 9, goto 1⟩, ⟨some 1, finish⟩, ⟨none, .done⟩] none ⟨stop, i, i1⟩ :=
    .visit rfl (.visit rfl (.visit rfl (.stay _ _)))
  refine ⟨_, _, henter.append (hup.append (hturn.append (hdown.append hend))), ?_⟩
  have helements : ∀ vs : List (Visit (Option Nat) Int64),
      elements ([⟨some 0, goto 3⟩, ⟨some 3, goto 4⟩] ++ vs) = elements vs ∧
      elements ([⟨some 2, goto 10⟩, ⟨some 10, goto 11⟩] ++ vs) = elements vs :=
    fun vs => ⟨rfl, rfl⟩
  have hlast : elements [⟨some 9, goto 1⟩, ⟨some 1, finish⟩, ⟨none, .done⟩] = ([] : List Int64) :=
    rfl
  rw [(helements _).1, elements_append, (helements _).2, elements_append, hlast, List.map_append,
    List.append_nil, hups, hdowns, List.map_append, Int64.toInt_zero, Int.sub_zero]
  simp only [Int.zero_add]

end Rounds

section Bounds

/-- What holds of the counters where `upDown` stands: each was compared before it is changed. -/
def Bounded : Option (Option Nat) → UpDown → Prop
  | some (some 5), m | some (some 6), m | some (some 7), m => m.i < m.stop
  | some (some 12), m | some (some 13), m | some (some 14), m => 0 ≤ m.i1
  | some (some 8), _ | some (some 15), _ => False
  | _, _ => True

theorem bounded_step {t : Option Nat} {b : Bounce (Option Nat) Int64}
    (h : upDown t m = .ok b m') (hm : Bounded (some t) m) : Bounded b.next m' := by
  by_cases hup : t = some 4
  · subst hup
    rw [upDown_test_up] at h
    cases h
    split
    · assumption
    · trivial
  by_cases hdown : t = some 11
  · subst hdown
    rw [upDown_test_down] at h
    cases h
    split
    · assumption
    · trivial
  -- the other states do not compare, so that they lead to one place each
  unfold upDown at h
  split at h <;> first | contradiction | (cases h; trivial)

theorem bounded_run (h : PlainRun upDown o m vs o' m') (hm : Bounded o m) : Bounded o' m' := by
  induction h with
  | stay => exact hm
  | visit hstep _ ih => exact ih (bounded_step hstep hm)

end Bounds

/-- `upDown` counts up to `stop` and back to zero, and gives nothing if `stop` is negative.

This holds of its run and of whatever a consumer asks: calls are answered from the list of these
numbers, which is what collecting gives, and a limit gives its front.  Wherever the machine stands
in front of the state that increments or decrements a counter, the number does not wrap. -/
theorem upDown_counts (stop : Int64) :
    (∃ es : List Int64,
      es.map Int64.toInt =
        (List.range stop.toInt.toNat ++ (List.range (stop.toInt + 1).toNat).reverse).map
          (fun (k : Nat) => (k : Int)) ∧
      (∃ vs m', PlainRun upDown (some (some 0)) (upDownStart stop) vs none m' ∧
        elements vs = es) ∧
      (∃ bound, ∀ fuel, bound ≤ fuel →
        (∀ calls, ∃ m', Sequence.session upDown fuel 0 (some 0) calls (upDownStart stop) =
          .ok (answers 0 es calls) m') ∧
        ∃ m', (Generator.started upDown (some 0)).serve 0 fuel [.collect] (upDownStart stop) =
          .ok [.collected es] m') ∧
      ∀ n : Int, ∃ bound, ∀ fuel, bound ≤ fuel →
        (∃ m', (Generator.started upDown (some 0)).serve 0 fuel [.collectFirst n]
          (upDownStart stop) = .ok [.collected (es.take n.toNat)] m') ∧
        ∃ m', (Generator.started upDown (some 0)).serve 0 fuel [.limit n, .collect]
          (upDownStart stop) = .ok [.limited, .collected (es.take n.toNat)] m') ∧
    ∀ vs o m', PlainRun upDown (some (some 0)) (upDownStart stop) vs o m' →
      (o = some (some 6) → (m'.i + 1).toInt = m'.i.toInt + 1) ∧
      (o = some (some 13) → (m'.i1 - 1).toInt = m'.i1.toInt - 1) := by
  refine ⟨?_, ?_⟩
  · obtain ⟨vs, m', hrun, helements⟩ := upDown_runs stop
    have hcollect : expectAll (.ofRun (none : Option (Option Nat)) (elements vs)) [.collect] =
        some [.collected (elements vs)] := by
      simp [expectAll, Request.expect_collect_ofRun_none]
    refine ⟨elements vs, helements, ⟨vs, m', hrun, rfl⟩, ?_, fun n => ?_⟩
    · obtain ⟨bound, hserve⟩ := hrun.serve_eq 0 hcollect
      refine ⟨max bound vs.length, fun fuel hfuel => ⟨fun calls => ?_, hserve fuel (by omega)⟩⟩
      exact hrun.session_eq 0 calls (by omega)
    · have hfirst : expectAll (.ofRun (none : Option (Option Nat)) (elements vs))
          [.collectFirst n] = some [.collected ((elements vs).take n.toNat)] := by
        simp [expectAll, Request.expect]
      have hlimit : expectAll (.ofRun (none : Option (Option Nat)) (elements vs))
          [.limit n, .collect] =
            some [.limited, .collected ((elements vs).take n.toNat)] := by
        rw [expectAll, Request.expect, Known.limit_ofRun_none]
        simp [expectAll, Request.expect_collect_ofRun_none]
      obtain ⟨bound, hserve⟩ := hrun.serve_eq 0 hfirst
      obtain ⟨bound', hserve'⟩ := hrun.serve_eq 0 hlimit
      exact ⟨max bound bound', fun fuel hfuel =>
        ⟨hserve fuel (by omega), hserve' fuel (by omega)⟩⟩
  · intro vs o m' hrun
    have hbounded : Bounded o m' := bounded_run hrun trivial
    constructor
    · rintro rfl
      exact toInt_succ hbounded
    · rintro rfl
      exact toInt_pred hbounded

end Gallery

end YieldMachine
