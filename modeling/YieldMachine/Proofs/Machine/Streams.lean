import YieldMachine.Machine.Supply
import YieldMachine.Proofs.Interp.Bounded

/-!
# Streams that are known in part

A generator may go on for ever, and it may get stuck.  `Known` says what is known of its
elements, and `Supply.Holds` that a generator bears it out.  Generators answer the same way
when they are asked twice (`Supply.Lawful`), and limits keep this.
-/

namespace YieldMachine

variable {σ γ α : Type}

/-- What is known of the elements of a generator. -/
inductive Known (α : Type) where
  | unknown
  /-- there is another element -/
  | more
  /-- there are no more elements -/
  | ended
  | item (value : α) (rest : Known α)
  deriving DecidableEq, Repr

namespace Known

/-- The elements that are known. -/
def items : Known α → List α
  | .item value K => value :: K.items
  | _ => []

/-- Whether there is another element, if that is known. -/
def has? : Known α → Option Bool
  | .unknown => none
  | .ended => some false
  | .more => some true
  | .item _ _ => some true

/-- What is known of the first `n` elements.  A limit takes an element to see that there is
one. -/
def limit : Nat → Known α → Known α
  | 0, _ => .ended
  | _ + 1, .unknown => .unknown
  | _ + 1, .more => .unknown
  | _ + 1, .ended => .ended
  | n + 1, .item value K => .item value (K.limit n)

/-- The first `n` elements, or all of them if there are not as many, and the others. -/
def split : Nat → Known α → Option (List α × Known α)
  | 0, K => some ([], K)
  | _ + 1, .unknown => none
  | _ + 1, .more => none
  | _ + 1, .ended => some ([], .ended)
  | n + 1, .item value K => (K.split n).map fun (values, K) => (value :: values, K)

/-- Whether the second knows all that the first one does. -/
inductive Le : Known α → Known α → Prop
  | unknown (K : Known α) : Le .unknown K
  | more {K : Known α} : K.has? = some true → Le .more K
  | ended : Le .ended .ended
  | item {value : α} {K K' : Known α} : Le K K' → Le (.item value K) (.item value K')

theorem Le.refl (K : Known α) : K.Le K := by
  induction K with
  | unknown => exact .unknown _
  | more => exact .more rfl
  | ended => exact .ended
  | item value K ih => exact .item ih

theorem Le.has? {K K' : Known α} (h : K.Le K') {b : Bool} (hb : K.has? = some b) :
    K'.has? = some b := by
  cases h with
  | unknown => cases hb
  | more h => exact h.trans hb
  | ended => exact hb
  | item => exact hb

theorem Le.limit {K K' : Known α} (h : K.Le K') (n : Nat) : (K.limit n).Le (K'.limit n) := by
  induction h generalizing n with
  | unknown => cases n <;> first | exact .ended | exact .unknown _
  | more => cases n <;> first | exact .ended | exact .unknown _
  | ended => cases n <;> exact .ended
  | item _ ih =>
      cases n with
      | zero => exact .ended
      | succ n => exact .item (ih n)

theorem Le.split {K K' L : Known α} (h : K.Le K') {n : Nat} {values : List α}
    (hsplit : K.split n = some (values, L)) :
    ∃ L', K'.split n = some (values, L') ∧ L.Le L' := by
  induction h generalizing n values with
  | unknown K =>
      cases n <;> cases hsplit
      exact ⟨K, rfl, .unknown K⟩
  | more hmore =>
      cases n <;> cases hsplit
      exact ⟨_, rfl, .more hmore⟩
  | ended => exact ⟨L, hsplit, .refl L⟩
  | item hrest ih =>
      cases n with
      | zero =>
          cases hsplit
          exact ⟨_, rfl, .item hrest⟩
      | succ n =>
          obtain ⟨⟨others, L⟩, hothers, heq⟩ := Option.map_eq_some_iff.mp hsplit
          cases heq
          obtain ⟨L', hsplit', hle⟩ := ih hothers
          exact ⟨L', by simp [Known.split, hsplit'], hle⟩

/-- Of two limits the smaller one counts. -/
theorem limit_limit (m n : Nat) (K : Known α) : (K.limit m).limit n = K.limit (min m n) := by
  induction K generalizing m n with
  | item value K ih =>
      cases m <;> cases n <;> try rfl
      rename_i m n
      rw [Nat.succ_min_succ]
      exact congrArg _ (ih m n)
  | unknown => cases m <;> cases n <;> first | rfl | (rw [Nat.succ_min_succ]; rfl)
  | more => cases m <;> cases n <;> first | rfl | (rw [Nat.succ_min_succ]; rfl)
  | ended => cases m <;> cases n <;> first | rfl | (rw [Nat.succ_min_succ]; rfl)

theorem items_limit (n : Nat) (K : Known α) : (K.limit n).items = K.items.take n := by
  induction K generalizing n with
  | item value K ih =>
      cases n with
      | zero => rfl
      | succ n => exact congrArg _ (ih n)
  | _ => cases n <;> rfl

theorem items_split {K K' : Known α} {n : Nat} {values : List α}
    (h : K.split n = some (values, K')) : values ++ K'.items = K.items := by
  induction K generalizing n values with
  | item value K ih =>
      cases n with
      | zero =>
          cases h
          rfl
      | succ n =>
          obtain ⟨⟨others, L⟩, hothers, heq⟩ := Option.map_eq_some_iff.mp h
          cases heq
          exact congrArg _ (ih hothers)
  | _ =>
      cases n <;> cases h <;> rfl

/-- A split that runs out of elements gives all of them. -/
theorem split_all {K K' : Known α} {n : Nat} {values : List α}
    (h : K.split n = some (values, K')) (hn : values.length < n) :
    K.split (K.items.length + 1) = some (values, K') := by
  induction K generalizing n values with
  | item value K ih =>
      cases n with
      | zero => cases hn
      | succ n =>
          obtain ⟨⟨others, L⟩, hothers, heq⟩ := Option.map_eq_some_iff.mp h
          cases heq
          have := ih hothers (by simpa using hn)
          simp [Known.split, items, this]
  | ended =>
      cases n with
      | zero => cases hn
      | succ n => exact h
  | _ =>
      cases n with
      | zero => cases hn
      | succ n => cases h

end Known

namespace Supply

/-- Whether asking is harmless: an answer stays the same until the element is taken, and taking
an element asks first. -/
structure Lawful (s : Supply σ γ α) : Prop where
  ask_again : ∀ {g g₁ : γ} {m m₁ : σ} {b : Bool},
    s.hasNext g m = .ok (b, g₁) m₁ → s.hasNext g₁ m₁ = .ok (b, g₁) m₁
  next_asks : ∀ {g g₁ : γ} {m m₁ : σ} {b : Bool},
    s.hasNext g m = .ok (b, g₁) m₁ → s.next g m = s.next g₁ m₁

/-- Whether a generator bears out what is known of its elements. -/
inductive Holds (s : Supply σ γ α) : γ → σ → Known α → Prop
  | unknown (g : γ) (m : σ) : Holds s g m .unknown
  | more {g g₁ : γ} {m m₁ : σ} : s.hasNext g m = .ok (true, g₁) m₁ → Holds s g m .more
  | ended {g g₁ : γ} {m m₁ : σ} : s.hasNext g m = .ok (false, g₁) m₁ → Holds s g m .ended
  | item {g g₁ g₂ : γ} {m m₁ m₂ : σ} {value : α} {K : Known α} :
      s.hasNext g m = .ok (true, g₁) m₁ → s.next g₁ m₁ = .ok (value, g₂) m₂ →
      Holds s g₂ m₂ K → Holds s g m (.item value K)

/-- Whether taking `n` elements one by one, each after asking for it, gives some values; fewer
than `n` of them only at the end. -/
inductive Takes (s : Supply σ γ α) : Nat → γ → σ → List α → γ → σ → Prop
  | enough (g : γ) (m : σ) : Takes s 0 g m [] g m
  | ended {n : Nat} {g g₁ : γ} {m m₁ : σ} :
      s.hasNext g m = .ok (false, g₁) m₁ → Takes s (n + 1) g m [] g₁ m₁
  | item {n : Nat} {g g₁ g₂ g' : γ} {m m₁ m₂ m' : σ} {value : α} {values : List α} :
      s.hasNext g m = .ok (true, g₁) m₁ → s.next g₁ m₁ = .ok (value, g₂) m₂ →
      Takes s n g₂ m₂ values g' m' → Takes s (n + 1) g m (value :: values) g' m'

section

variable {s : Supply σ γ α} {g g₁ g' : γ} {m m₁ m' : σ} {K : Known α} {b : Bool}

theorem Holds.has? (h : s.Holds g m K) (hask : s.hasNext g m = .ok (b, g₁) m₁) :
    K = .unknown ∨ K.has? = some b := by
  cases h with
  | unknown => exact .inl rfl
  | more h =>
      rw [h] at hask
      cases hask
      exact .inr rfl
  | ended h =>
      rw [h] at hask
      cases hask
      exact .inr rfl
  | item h =>
      rw [h] at hask
      cases hask
      exact .inr rfl

theorem Holds.asks (h : s.Holds g m K) (hb : K.has? = some b) :
    ∃ g₁ m₁, s.hasNext g m = .ok (b, g₁) m₁ := by
  cases h with
  | unknown => cases hb
  | more hask =>
      cases hb
      exact ⟨_, _, hask⟩
  | ended hask =>
      cases hb
      exact ⟨_, _, hask⟩
  | item hask =>
      cases hb
      exact ⟨_, _, hask⟩

/-- Asking changes nothing of what is known. -/
theorem Lawful.holds_iff (hs : s.Lawful) (hask : s.hasNext g m = .ok (b, g₁) m₁) :
    s.Holds g₁ m₁ K ↔ s.Holds g m K := by
  have hagain := hs.ask_again hask
  constructor
  · intro h
    cases h with
    | unknown => exact .unknown _ _
    | more h =>
        rw [hagain] at h
        cases h
        exact .more hask
    | ended h =>
        rw [hagain] at h
        cases h
        exact .ended hask
    | item h hnext hrest =>
        rw [hagain] at h
        cases h
        exact .item hask hnext hrest
  · intro h
    cases h with
    | unknown => exact .unknown _ _
    | more h =>
        rw [hask] at h
        cases h
        exact .more hagain
    | ended h =>
        rw [hask] at h
        cases h
        exact .ended hagain
    | item h hnext hrest =>
        rw [hask] at h
        cases h
        exact .item hagain hnext hrest

theorem Lawful.takes_of_holds (hs : s.Lawful) {K' : Known α} {n : Nat} {values : List α}
    (h : s.Holds g m K) (hsplit : K.split n = some (values, K')) :
    ∃ g' m', s.Takes n g m values g' m' ∧ s.Holds g' m' K' := by
  induction h generalizing n values with
  | unknown g m =>
      cases n <;> cases hsplit
      exact ⟨g, m, .enough g m, .unknown g m⟩
  | more hask =>
      cases n <;> cases hsplit
      exact ⟨_, _, .enough _ _, .more hask⟩
  | ended hask =>
      cases n with
      | zero =>
          cases hsplit
          exact ⟨_, _, .enough _ _, .ended hask⟩
      | succ n =>
          cases hsplit
          exact ⟨_, _, .ended hask, .ended (hs.ask_again hask)⟩
  | item hask hnext hrest ih =>
      cases n with
      | zero =>
          cases hsplit
          exact ⟨_, _, .enough _ _, .item hask hnext hrest⟩
      | succ n =>
          obtain ⟨⟨others, L⟩, hothers, heq⟩ := Option.map_eq_some_iff.mp hsplit
          cases heq
          obtain ⟨g', m', htakes, hholds⟩ := ih hothers
          exact ⟨g', m', .item hask hnext htakes, hholds⟩

theorem Lawful.holds_of_takes (hs : s.Lawful) {K' : Known α} {n : Nat} {values : List α}
    (h : s.Takes n g m values g' m') (hholds : s.Holds g' m' K') :
    ∃ K L, s.Holds g m K ∧ K.split n = some (values, L) ∧ K'.Le L := by
  induction h with
  | enough => exact ⟨K', K', hholds, by simp [Known.split], .refl K'⟩
  | ended hask =>
      refine ⟨.ended, .ended, .ended hask, rfl, ?_⟩
      rcases hholds.has? (hs.ask_again hask) with rfl | hK
      · exact .unknown _
      · cases K' <;> first | exact .ended | cases hK
  | item hask hnext _ ih =>
      obtain ⟨K, L, hK, hsplit, hle⟩ := ih hholds
      exact ⟨.item _ K, L, .item hask hnext hK, by simp [Known.split, hsplit], hle⟩

end

section Loops

variable {s : Supply σ γ α} {g g' : γ} {m m' : σ} {values : List α} {fuel n : Nat}

theorem Takes.length_le (h : s.Takes n g m values g' m') : values.length ≤ n := by
  induction h with
  | enough => exact Nat.le_refl 0
  | ended => exact Nat.zero_le _
  | item _ _ _ ih => simpa using ih

theorem Takes.drain_eq (h : s.Takes n g m values g' m') (hn : values.length < n)
    (hfuel : values.length < fuel) (acc : Array α) :
    s.drain fuel acc g m = .ok (acc.toList ++ values, g') m' := by
  induction h generalizing fuel acc with
  | enough => cases hn
  | ended hask =>
      obtain ⟨fuel, rfl⟩ : ∃ k, fuel = k + 1 := ⟨fuel - 1, by simp at hfuel; omega⟩
      simp [drain, eff_bind_apply, hask]
  | @item n _ _ _ _ _ _ _ _ value values hask hnext _ ih =>
      rw [List.length_cons] at hn hfuel
      obtain ⟨fuel, rfl⟩ : ∃ k, fuel = k + 1 := ⟨fuel - 1, by omega⟩
      have hrest := ih (by omega) (by omega : values.length < fuel) (acc.push value)
      simp only [drain, eff_bind_apply, hask, hnext, if_true]
      simpa using hrest

theorem takes_of_drain {acc : Array α} {all : List α}
    (h : s.drain fuel acc g m = .ok (all, g') m') :
    ∃ values, all = acc.toList ++ values ∧ values.length < fuel ∧
      s.Takes fuel g m values g' m' := by
  induction fuel generalizing acc g m with
  | zero => cases h
  | succ fuel ih =>
      simp only [drain, eff_bind_apply] at h
      cases hask : s.hasNext g m with
      | error e m₁ => simp [hask] at h
      | ok answer m₁ =>
          obtain ⟨has, g₁⟩ := answer
          cases has with
          | false =>
              simp [hask] at h
              obtain ⟨⟨rfl, rfl⟩, rfl⟩ := h
              exact ⟨[], by simp, by simp, .ended hask⟩
          | true =>
              simp only [hask, if_true, eff_bind_apply] at h
              cases hnext : s.next g₁ m₁ with
              | error e m₂ => simp [hnext] at h
              | ok answer m₂ =>
                  obtain ⟨value, g₂⟩ := answer
                  simp only [hnext] at h
                  obtain ⟨values, rfl, hlen, htakes⟩ := ih h
                  exact ⟨value :: values, by simp, by simpa using hlen, .item hask hnext htakes⟩

theorem Takes.firstOf_eq (h : s.Takes n g m values g' m') {limit : Int} {acc : Array α}
    (hlimit : limit = acc.size + n) (hn : 0 < n) (hfuel : values.length < fuel) :
    s.firstOf limit fuel acc g m = .ok (acc.toList ++ values, g') m' := by
  induction h generalizing fuel acc with
  | enough => cases hn
  | ended hask =>
      obtain ⟨fuel, rfl⟩ : ∃ k, fuel = k + 1 := ⟨fuel - 1, by simp at hfuel; omega⟩
      simp [firstOf, eff_bind_apply, hask]
  | @item n _ _ _ _ _ _ _ _ value values hask hnext hrest ih =>
      rw [List.length_cons] at hfuel
      obtain ⟨fuel, rfl⟩ : ∃ k, fuel = k + 1 := ⟨fuel - 1, by omega⟩
      simp only [firstOf, eff_bind_apply, hask, hnext, if_true, Array.size_push]
      by_cases hzero : n = 0
      · subst hzero
        rw [if_pos (by omega)]
        cases hrest
        simp
      · rw [if_neg (by omega)]
        have hloop := @ih fuel (acc.push value) (by simp; omega) (by omega) (by omega)
        simpa using hloop

theorem takes_of_firstOf {limit : Int} {acc : Array α} {all : List α}
    (h : s.firstOf limit fuel acc g m = .ok (all, g') m') (hlimit : limit = acc.size + n)
    (hn : 0 < n) : ∃ values, all = acc.toList ++ values ∧ s.Takes n g m values g' m' := by
  induction fuel generalizing acc g m n with
  | zero => cases h
  | succ fuel ih =>
      obtain ⟨n, rfl⟩ : ∃ k, n = k + 1 := ⟨n - 1, by omega⟩
      simp only [firstOf, eff_bind_apply] at h
      cases hask : s.hasNext g m with
      | error e m₁ => simp [hask] at h
      | ok answer m₁ =>
          obtain ⟨has, g₁⟩ := answer
          cases has with
          | false =>
              simp [hask] at h
              obtain ⟨⟨rfl, rfl⟩, rfl⟩ := h
              exact ⟨[], by simp, .ended hask⟩
          | true =>
              simp only [hask, if_true, eff_bind_apply] at h
              cases hnext : s.next g₁ m₁ with
              | error e m₂ => simp [hnext] at h
              | ok answer m₂ =>
                  obtain ⟨value, g₂⟩ := answer
                  simp only [hnext, Array.size_push] at h
                  by_cases hzero : n = 0
                  · subst hzero
                    rw [if_pos (by omega)] at h
                    simp at h
                    obtain ⟨⟨rfl, rfl⟩, rfl⟩ := h
                    exact ⟨[value], rfl, .item hask hnext (.enough _ _)⟩
                  · rw [if_neg (by omega)] at h
                    obtain ⟨values, rfl, htakes⟩ := ih (n := n) h (by simp; omega) (by omega)
                    exact ⟨value :: values, by simp, .item hask hnext htakes⟩

end Loops

end Supply

end YieldMachine
