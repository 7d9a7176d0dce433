import YieldMachine.Proofs.Machine.Consumers
import YieldMachine.Proofs.Machine.Delivery

/-!
# The stream of a generator

The stream of a started machine are the elements of its plain run, and that of an advance
function are its answers up to the first false one.  Both kinds of generators hand their stream
to a consumer without loss, whatever it asks and however it limits them.
-/

namespace YieldMachine

variable {σ τ γ α : Type}

/-- A generator: a machine that is started, or an advance function. -/
inductive Generator (σ α : Type) : Type 1 where
  | started {τ : Type} (step : τ → Eff σ (Bounce τ α)) (entry : τ)
  | function (advance : Eff σ (Bool × α))

/-- What is known once a machine has met some elements.  The last one is only held until the
machine has run on to the one after it, or to its end. -/
def Known.ofRun (o : Option τ) : List α → Known α
  | [] => if o.isNone then .ended else .unknown
  | [value] => if o.isNone then .item value .ended else .more
  | value :: values => .item value (ofRun o values)

/-- What successive answers of an advance function say, up to the first false one. -/
inductive Advances (advance : Eff σ (Bool × α)) : σ → Known α → Prop
  | unknown (m : σ) : Advances advance m .unknown
  | ended {value : α} {m m₁ : σ} :
      advance m = .ok (false, value) m₁ → Advances advance m .ended
  | item {value : α} {K : Known α} {m m₁ : σ} :
      advance m = .ok (true, value) m₁ → Advances advance m₁ K →
      Advances advance m (.item value K)

namespace Generator

/-- Whether something is known of the stream of a generator.  A started machine has run to its
first element, or to its end. -/
def Streams (m : σ) (K : Known α) : Generator σ α → Prop
  | .started step entry =>
    ∃ vs o m', PlainRun step (some entry) m vs o m' ∧
      (0 < (elements vs).length ∨ o = none) ∧ K = .ofRun o (elements vs)
  | .function advance => Advances advance m K

/-- Makes a generator and answers some requests. -/
def serve (zero : α) (fuel : Nat) (rs : List Request) :
    Generator σ α → Eff σ (List (Reply α))
  | .started step entry => do
    let g ← Sequence.start step fuel entry
    answerAll (.ofSteps step fuel zero) zero fuel (.source g) rs
  | .function advance => answerAll (.ofAdvance advance) zero fuel (.source none) rs

end Generator

theorem Supply.ofSteps_lawful (step : τ → Eff σ (Bounce τ α)) (fuel : Nat) (zero : α) :
    (Supply.ofSteps step fuel zero).Lawful where
  ask_again h := by
    cases h
    rfl
  next_asks h := by
    cases h
    rfl

section Advance

variable {advance : Eff σ (Bool × α)} {answer : Bool × α} {value : α} {m m₁ : σ} {K : Known α}

theorem Supply.ofAdvance_fresh (h : advance m = .ok answer m₁) :
    (ofAdvance advance).hasNext none m = .ok (answer.1, some answer) m₁ := by
  simp only [ofAdvance, Waiting.prime, eff_bind_apply, h, eff_pure_apply]

theorem Supply.ofAdvance_waiting :
    (ofAdvance advance).next (some (true, value)) m = .ok (value, none) m := rfl

theorem Supply.of_ofAdvance_fresh {w : Waiting α} {b : Bool}
    (h : (ofAdvance advance).hasNext none m = .ok (b, w) m₁) :
    ∃ value, advance m = .ok (b, value) m₁ ∧ w = some (b, value) := by
  cases hadvance : advance m with
  | error e m₂ =>
      simp only [ofAdvance, Waiting.prime, eff_bind_apply, hadvance, reduceCtorEq] at h
  | ok answer m₂ =>
      rw [ofAdvance_fresh hadvance] at h
      cases h
      exact ⟨answer.2, rfl, rfl⟩

theorem Supply.ofAdvance_lawful (advance : Eff σ (Bool × α)) :
    (Supply.ofAdvance advance).Lawful where
  ask_again {w w₁ m m₁ b} h := by
    cases w with
    | some answer =>
        cases h
        rfl
    | none =>
        obtain ⟨value, -, rfl⟩ := of_ofAdvance_fresh h
        rfl
  next_asks {w w₁ m m₁ b} h := by
    cases w with
    | some answer =>
        cases h
        rfl
    | none =>
        obtain ⟨value, hadvance, rfl⟩ := of_ofAdvance_fresh h
        simp only [ofAdvance, Waiting.prime, eff_bind_apply, hadvance, eff_pure_apply]

theorem Advances.holds (h : Advances advance m K) : (Supply.ofAdvance advance).Holds none m K := by
  induction h with
  | unknown m => exact .unknown _ _
  | ended h => exact .ended (Supply.ofAdvance_fresh h)
  | item h _ ih => exact .item (Supply.ofAdvance_fresh h) Supply.ofAdvance_waiting ih

theorem Advances.of_holds (h : (Supply.ofAdvance advance).Holds none m K) :
    ∃ K', Advances advance m K' ∧ K.Le K' := by
  induction K generalizing m with
  | unknown => exact ⟨.unknown, .unknown m, .unknown _⟩
  | ended =>
      cases h with
      | ended hask =>
          obtain ⟨value, hadvance, -⟩ := Supply.of_ofAdvance_fresh hask
          exact ⟨.ended, .ended hadvance, .ended⟩
  | more =>
      cases h with
      | more hask =>
          obtain ⟨value, hadvance, -⟩ := Supply.of_ofAdvance_fresh hask
          exact ⟨.item value .unknown, .item hadvance (.unknown _), .more rfl⟩
  | item value K ih =>
      cases h with
      | item hask hnext hrest =>
          obtain ⟨first, hadvance, rfl⟩ := Supply.of_ofAdvance_fresh hask
          rw [Supply.ofAdvance_waiting] at hnext
          cases hnext
          obtain ⟨K', hK', hle⟩ := ih hrest
          exact ⟨.item value K', .item hadvance hK', .item hle⟩

end Advance

section Steps

variable {step : τ → Eff σ (Bounce τ α)} {zero : α} {fuel : Nat} {s : Sequence τ α}
  {rest : List (Visit τ α)} {o : Option τ} {m m' : σ} {K : Known α}

theorem Known.ofRun_cons {value : α} {values : List α} (h : 0 < values.length ∨ o = none) :
    Known.ofRun o (value :: values) = .item value (Known.ofRun o values) := by
  cases values with
  | cons => rfl
  | nil =>
      rcases h with h | rfl
      · cases h
      · rfl

@[simp]
theorem Known.items_ofRun_none (values : List α) :
    (Known.ofRun (none : Option τ) values).items = values := by
  induction values with
  | nil => rfl
  | cons value values ih => rw [ofRun_cons (.inr rfl), items, ih]

@[simp]
theorem Known.split_ofRun_none (n : Nat) (values : List α) :
    (Known.ofRun (none : Option τ) values).split n =
      some (values.take n, .ofRun (none : Option τ) (values.drop n)) := by
  induction values generalizing n with
  | nil => cases n <;> rfl
  | cons value values ih =>
      cases n with
      | zero => rfl
      | succ n => simp [ofRun_cons, split, ih]

@[simp]
theorem Known.limit_ofRun_none (n : Nat) (values : List α) :
    (Known.ofRun (none : Option τ) values).limit n =
      .ofRun (none : Option τ) (values.take n) := by
  induction values generalizing n with
  | nil => cases n <;> rfl
  | cons value values ih =>
      cases n with
      | zero => rfl
      | succ n => simp [ofRun_cons, limit, ih]

/-- A sequence in front of a plain run bears out what is known from it. -/
theorem PlainRun.holds (h : PlainRun step s.held m rest o m') (zero : α)
    (hfuel : rest.length ≤ fuel) :
    (Supply.ofSteps step fuel zero).Holds s m (.ofRun o (s.buffer ++ elements rest)) := by
  induction hn : rest.length using Nat.strongRecOn generalizing s rest m with
  | ind n ih =>
      obtain ⟨ahead⟩ := s
      cases ahead with
      | none =>
          obtain ⟨rfl, rfl, rfl⟩ := h.of_none
          exact .ended rfl
      | some p =>
          obtain ⟨value, t⟩ := p
          show (Supply.ofSteps step fuel zero).Holds _ m (.ofRun o (value :: elements rest))
          by_cases hfar : 0 < (elements rest).length ∨ o = none
          · rw [Known.ofRun_cons hfar]
            obtain ⟨us, rest, s, m₁, rfl, hleg, hrest⟩ := h.leg hfar
            have hus := hleg.length_pos
            rw [List.length_append] at hfuel hn
            have hstart : Sequence.start step fuel t m = .ok s m₁ := hleg.start_eq (by omega)
            rw [elements_append, hleg.elements_eq]
            refine .item rfl ?_ (ih rest.length (by omega) hrest (by omega) rfl)
            simp only [Supply.ofSteps, Sequence.next, eff_bind_apply, hstart, eff_pure_apply]
          · obtain ⟨hnil, ho⟩ := not_or.mp hfar
            obtain ⟨u, rfl⟩ := Option.ne_none_iff_exists'.mp ho
            rw [List.eq_nil_of_length_eq_zero (by omega : (elements rest).length = 0)]
            exact .more rfl

theorem PlainRun.of_holds (h : (Supply.ofSteps step fuel zero).Holds s m K) :
    ∃ rest o m', PlainRun step s.held m rest o m' ∧
      (0 < (s.buffer ++ elements rest).length ∨ o = none) ∧
      K.Le (.ofRun o (s.buffer ++ elements rest)) := by
  induction K generalizing s m with
  | unknown =>
      refine ⟨[], s.held, m, .stay _ _, ?_, .unknown _⟩
      obtain ⟨ahead⟩ := s
      cases ahead with
      | none => exact .inr rfl
      | some p => exact .inl (by simp [Sequence.buffer])
  | ended =>
      cases h with
      | ended hask =>
          obtain ⟨ahead⟩ := s
          cases ahead with
          | none => exact ⟨[], none, m, .stay _ _, .inr rfl, .ended⟩
          | some p => cases hask
  | more =>
      cases h with
      | more hask =>
          obtain ⟨ahead⟩ := s
          cases ahead with
          | none => cases hask
          | some p =>
              exact ⟨[], some p.2, m, .stay _ _, .inl (by simp [Sequence.buffer]), .more rfl⟩
  | item value K ih =>
      cases h with
      | item hask hnext hrest =>
          obtain ⟨ahead⟩ := s
          cases ahead with
          | none => cases hask
          | some p =>
              obtain ⟨first, t⟩ := p
              cases hask
              simp only [Supply.ofSteps, Sequence.next, eff_bind_apply] at hnext
              cases hstart : Sequence.start step fuel t m with
              | error e m₁ => simp [hstart] at hnext
              | ok s m₁ =>
                  simp [hstart] at hnext
                  obtain ⟨⟨rfl, rfl⟩, rfl⟩ := hnext
                  obtain ⟨us, hleg⟩ := Leg.of_start hstart
                  obtain ⟨rest, o, m', hrun, hfar, hle⟩ := ih hrest
                  refine ⟨us ++ rest, o, m', hleg.plainRun.append hrun, .inl ?_, ?_⟩
                  · simp [Sequence.buffer]
                  · show Known.Le _ (.ofRun o (first :: elements (us ++ rest)))
                    rw [elements_append, hleg.elements_eq, Known.ofRun_cons hfar]
                    exact .item hle

end Steps

section Source

variable {s : Supply σ γ α} {zero : α} {g : γ} {m m' : σ} {p : Pipe γ α} {b : Bool} {value : α}
  {K : Known α}

theorem Pipe.next_source_iff :
    (supply s zero).next (.source g) m = .ok (value, p) m' ↔
      ∃ g', s.next g m = .ok (value, g') m' ∧ p = .source g' := by
  simp only [supply, next, eff_bind_apply]
  cases s.next g m with
  | error e m₁ => simp
  | ok taken m₁ => grind [eff_pure_apply]

/-- A pipe without limits knows what is known of its generator. -/
theorem Pipe.holds_source : (supply s zero).Holds (.source g) m K ↔ s.Holds g m K := by
  constructor
  · intro h
    induction K generalizing g m with
    | unknown => exact .unknown g m
    | ended =>
        cases h with
        | ended hask =>
            obtain ⟨g', hask, -⟩ := hasNext_source_iff.mp hask
            exact .ended hask
    | more =>
        cases h with
        | more hask =>
            obtain ⟨g', hask, -⟩ := hasNext_source_iff.mp hask
            exact .more hask
    | item value K ih =>
        cases h with
        | item hask hnext hrest =>
            obtain ⟨g₁, hasks, rfl⟩ := hasNext_source_iff.mp hask
            obtain ⟨g₂, hnexts, rfl⟩ := next_source_iff.mp hnext
            exact .item hasks hnexts (ih hrest)
  · intro h
    induction h with
    | unknown g m => exact .unknown _ m
    | more hask => exact .more (hasNext_source_iff.mpr ⟨_, hask, rfl⟩)
    | ended hask => exact .ended (hasNext_source_iff.mpr ⟨_, hask, rfl⟩)
    | item hask hnext _ ih =>
        exact .item (hasNext_source_iff.mpr ⟨_, hask, rfl⟩)
          (next_source_iff.mpr ⟨_, hnext, rfl⟩) ih

end Source

namespace Generator

variable {g : Generator σ α} {zero : α} {m m' : σ} {K : Known α} {rs : List Request}
  {replies : List (Reply α)} {fuel : Nat}

/-- Requests are answered as the stream says. -/
theorem serve_of_expectAll (hK : g.Streams m K) (h : expectAll K rs = some replies) :
    ∃ bound, ∀ fuel, bound ≤ fuel → ∃ m', g.serve zero fuel rs m = .ok replies m' := by
  cases g with
  | started step entry =>
      obtain ⟨vs, o, m', hrun, hfar, rfl⟩ := hK
      obtain ⟨us, rest, s, m₁, rfl, hleg, hrest⟩ := hrun.leg hfar
      refine ⟨(us ++ rest).length + (Known.ofRun o (elements (us ++ rest))).items.length + 1,
        fun fuel hfuel => ?_⟩
      rw [List.length_append] at hfuel
      have hstart : Sequence.start step fuel entry m = .ok s m₁ := hleg.start_eq (by omega)
      have hholds := hrest.holds zero (by omega : rest.length ≤ fuel)
      rw [← hleg.elements_eq, ← elements_append] at hholds
      simp only [serve, eff_bind_apply, hstart]
      exact answerAll_of_expectAll (Supply.ofSteps_lawful step fuel zero)
        (Pipe.holds_source.mpr hholds) h (by omega)
  | function advance =>
      refine ⟨K.items.length + 1, fun fuel hfuel => ?_⟩
      exact answerAll_of_expectAll (Supply.ofAdvance_lawful advance)
        (Pipe.holds_source.mpr (Advances.holds hK)) h (by omega)

/-- A consumer that keeps to the rules is answered only what the stream says. -/
theorem expectAll_of_serve (h : g.serve zero fuel rs m = .ok replies m')
    (hguard : Guarded false rs replies) :
    ∃ K, g.Streams m K ∧ expectAll K rs = some replies := by
  cases g with
  | started step entry =>
      simp only [serve, eff_bind_apply] at h
      cases hstart : Sequence.start step fuel entry m with
      | error e m₁ => simp [hstart] at h
      | ok s m₁ =>
          simp only [hstart] at h
          obtain ⟨us, hleg⟩ := Leg.of_start hstart
          obtain ⟨K, hK, hexpect⟩ :=
            expectAll_of_answerAll (Supply.ofSteps_lawful step fuel zero) h hguard nofun
          obtain ⟨rest, o, m', hrun, hfar, hle⟩ := PlainRun.of_holds (Pipe.holds_source.mp hK)
          rw [← hleg.elements_eq, ← elements_append] at hfar hle
          exact ⟨_, ⟨us ++ rest, o, m', hleg.plainRun.append hrun, hfar, rfl⟩,
            expectAll_mono hle hexpect⟩
  | function advance =>
      obtain ⟨K, hK, hexpect⟩ :=
        expectAll_of_answerAll (Supply.ofAdvance_lawful advance) h hguard nofun
      obtain ⟨K', hK', hle⟩ := Advances.of_holds (Pipe.holds_source.mp hK)
      exact ⟨K', hK', expectAll_mono hle hexpect⟩

/-- No consumer loses or repeats an element.  Where enough of the stream is known, the replies
are those of a list that is consumed from its front, so that all elements handed over are a
prefix of the stream, and requests are only ever answered in this way.  Two limits in a row
count as the smaller one, wherever they are put on the generator. -/
theorem serve_follows_stream (g : Generator σ α) (zero : α) (m : σ) :
    (∀ K rs replies, g.Streams m K → expectAll K rs = some replies →
      replies.flatMap Reply.values <+: K.items ∧
      ∃ bound, ∀ fuel, bound ≤ fuel → ∃ m', g.serve zero fuel rs m = .ok replies m') ∧
    (∀ fuel rs replies m', g.serve zero fuel rs m = .ok replies m' → Guarded false rs replies →
      ∃ K, g.Streams m K ∧ expectAll K rs = some replies) ∧
    (∀ (i j : Int) (before rs : List Request) (ys zs : List (Reply α)),
      ys.length = before.length →
      Guarded false (before ++ .limit (min i j) :: rs) (ys ++ .limited :: zs) →
      ((∃ fuel m', g.serve zero fuel (before ++ .limit i :: .limit j :: rs) m =
          .ok (ys ++ .limited :: .limited :: zs) m') ↔
        ∃ fuel m', g.serve zero fuel (before ++ .limit (min i j) :: rs) m =
          .ok (ys ++ .limited :: zs) m')) := by
  refine ⟨fun K rs replies hK h => ⟨values_expectAll h, serve_of_expectAll hK h⟩,
    fun fuel rs replies m' h hguard => expectAll_of_serve h hguard, ?_⟩
  intro i j before rs ys zs hlen hguard
  constructor
  · rintro ⟨fuel, m', h⟩
    obtain ⟨K, hK, hexpect⟩ := expectAll_of_serve h ((guarded_limits hlen i j _ rs zs _).mpr hguard)
    obtain ⟨bound, hserve⟩ := serve_of_expectAll hK ((expectAll_limits hlen i j rs zs K).mp hexpect)
    exact ⟨bound, hserve bound (Nat.le_refl _)⟩
  · rintro ⟨fuel, m', h⟩
    obtain ⟨K, hK, hexpect⟩ := expectAll_of_serve h hguard
    obtain ⟨bound, hserve⟩ :=
      serve_of_expectAll hK ((expectAll_limits hlen i j rs zs K).mpr hexpect)
    exact ⟨bound, hserve bound (Nat.le_refl _)⟩

end Generator

end YieldMachine
