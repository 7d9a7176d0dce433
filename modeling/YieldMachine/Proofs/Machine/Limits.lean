import YieldMachine.Proofs.Machine.Streams

/-!
# Limits on a generator

A limit holds back the element that it took to see that there is one.  It still hands over the
first elements of what stands before it, each once, and leaves the others there.
-/

namespace YieldMachine

variable {σ γ α : Type}

namespace Pipe

variable {s : Supply σ γ α} {zero : α} {limit : Int} {taken : Nat} {p p₁ q : Pipe γ α}
  {m m₁ : σ} {value : α} {b : Bool}

/-- Pulling is asking, and then taking an element if there is one. -/
theorem pull_eq (s : Supply σ γ α) (zero : α) (p : Pipe γ α) :
    p.pull s zero = do
      let (has, p) ← p.hasNext s zero
      if has then
        let (value, p) ← p.next s zero
        return (some value, p)
      else return (none, p) := by
  funext m
  cases p with
  | source g =>
      simp only [pull, hasNext, next, eff_bind_apply]
      cases s.hasNext g m with
      | error e m₁ => rfl
      | ok answer m₁ =>
          obtain ⟨has, g₁⟩ := answer
          cases has with
          | false => rfl
          | true =>
              simp only [if_true, eff_bind_apply, eff_pure_apply]
              cases s.next g₁ m₁ <;> rfl
  | take limit taken waiting inner =>
      simp only [pull, hasNext, next, eff_bind_apply]
      generalize waiting.prime
        (fun _ => answer zero limit taken inner (inner.pull s zero)) (taken, inner) m = r
      cases r with
      | error e m₁ => rfl
      | ok asked m₁ =>
          obtain ⟨⟨has, value⟩, taken, inner⟩ := asked
          cases has <;> rfl

theorem pull_of {m₂ : σ} (hask : p.hasNext s zero m = .ok (true, p₁) m₁)
    (hnext : p₁.next s zero m₁ = .ok (value, q) m₂) :
    p.pull s zero m = .ok (some value, q) m₂ := by
  simp only [pull_eq, eff_bind_apply, hask, hnext, if_true, eff_pure_apply]

theorem pull_none (hask : p.hasNext s zero m = .ok (false, p₁) m₁) :
    p.pull s zero m = .ok (none, p₁) m₁ := by
  simp [pull_eq, eff_bind_apply, hask]

theorem of_pull {found : Option α} (h : p.pull s zero m = .ok (found, q) m₁) :
    (found = none ∧ p.hasNext s zero m = .ok (false, q) m₁) ∨
      ∃ value p₁ m₂, found = some value ∧ p.hasNext s zero m = .ok (true, p₁) m₂ ∧
        p₁.next s zero m₂ = .ok (value, q) m₁ := by
  cases hask : p.hasNext s zero m with
  | error e m₂ => simp [pull_eq, eff_bind_apply, hask] at h
  | ok asked m₂ =>
      obtain ⟨has, p₁⟩ := asked
      cases has with
      | false =>
          rw [pull_none hask] at h
          cases h
          exact .inl ⟨rfl, rfl⟩
      | true =>
          cases hnext : p₁.next s zero m₂ with
          | error e m₃ =>
              simp only [pull_eq, eff_bind_apply, hask, hnext, if_true, reduceCtorEq] at h
          | ok taken m₃ =>
              obtain ⟨value, q⟩ := taken
              rw [pull_of hask hnext] at h
              cases h
              exact .inr ⟨value, p₁, m₂, rfl, rfl, hnext⟩

theorem hasNext_source_iff {g : γ} {b : Bool} :
    (supply s zero).hasNext (.source g) m = .ok (b, p) m₁ ↔
      ∃ g', s.hasNext g m = .ok (b, g') m₁ ∧ p = .source g' := by
  simp only [supply, hasNext, eff_bind_apply]
  cases s.hasNext g m with
  | error e m₂ => simp
  | ok asked m₂ => grind [eff_pure_apply]

/-- A `Take` that was asked waits with its answer. -/
theorem waits_of_hasNext_take {waiting : Waiting α} {b : Bool}
    (h : hasNext s zero (.take limit taken waiting q) m = .ok (b, p) m₁) :
    ∃ value taken' q', p = .take limit taken' (some (b, value)) q' := by
  simp only [hasNext, eff_bind_apply] at h
  generalize waiting.prime
    (fun _ => answer zero limit taken q (q.pull s zero)) (taken, q) m = r at h
  cases r with
  | error e m₂ => cases h
  | ok asked m₂ =>
      obtain ⟨⟨has, value⟩, taken', q'⟩ := asked
      cases h
      exact ⟨value, taken', q', rfl⟩

/-- A pipe over a generator for which asking is harmless is one itself. -/
theorem supply_lawful (hs : s.Lawful) (zero : α) : (supply s zero).Lawful where
  ask_again {p p₁ m m₁ b} h := by
    cases p with
    | source g =>
        obtain ⟨g₁, hask, rfl⟩ := hasNext_source_iff.mp h
        exact hasNext_source_iff.mpr ⟨g₁, hs.ask_again hask, rfl⟩
    | take limit taken waiting inner =>
        obtain ⟨value, taken', inner', rfl⟩ := waits_of_hasNext_take h
        rfl
  next_asks {p p₁ m m₁ b} h := by
    cases p with
    | source g =>
        obtain ⟨g₁, hask, rfl⟩ := hasNext_source_iff.mp h
        simp only [supply, next, eff_bind_apply, hs.next_asks hask]
    | take limit taken waiting inner =>
        obtain ⟨value, taken', inner', rfl⟩ := waits_of_hasNext_take h
        simp only [hasNext, next, supply, eff_bind_apply] at h ⊢
        generalize waiting.prime
          (fun _ => answer zero limit taken inner (inner.pull s zero)) (taken, inner) m = r at h ⊢
        cases r with
        | error e m₂ => cases h
        | ok asked m₂ =>
            obtain ⟨⟨has, value'⟩, taken₂, inner₂⟩ := asked
            cases h
            rfl

theorem hasNext_take_full (h : limit ≤ taken) :
    hasNext s zero (.take limit taken none p) m =
      .ok (false, .take limit taken (some (false, zero)) p) m := by
  simp [hasNext, Waiting.prime, answer, eff_bind_apply, h]

theorem hasNext_take_some (h : taken < limit) (hpull : p.pull s zero m = .ok (some value, q) m₁) :
    hasNext s zero (.take limit taken none p) m =
      .ok (true, .take limit (taken + 1) (some (true, value)) q) m₁ := by
  simp [hasNext, Waiting.prime, answer, eff_bind_apply, Int.not_le.mpr h, hpull]

theorem hasNext_take_none (h : taken < limit) (hpull : p.pull s zero m = .ok (none, q) m₁) :
    hasNext s zero (.take limit taken none p) m =
      .ok (false, .take limit taken (some (false, zero)) q) m₁ := by
  simp [hasNext, Waiting.prime, answer, eff_bind_apply, Int.not_le.mpr h, hpull]

theorem next_take_waiting :
    next s zero (.take limit taken (some (true, value)) p) m =
      .ok (value, .take limit taken none p) m := by
  simp [next, Waiting.prime, Waiting.after, eff_bind_apply]

/-- What a limit has done when it has answered. -/
theorem of_hasNext_take (h : hasNext s zero (.take limit taken none p) m = .ok (b, q) m₁) :
    (limit ≤ taken ∧ b = false ∧ q = .take limit taken (some (false, zero)) p ∧ m₁ = m) ∨
      (taken < limit ∧ ∃ p', p.pull s zero m = .ok (none, p') m₁ ∧ b = false ∧
        q = .take limit taken (some (false, zero)) p') ∨
      (taken < limit ∧ ∃ value p', p.pull s zero m = .ok (some value, p') m₁ ∧ b = true ∧
        q = .take limit (taken + 1) (some (true, value)) p') := by
  by_cases hfull : limit ≤ taken
  · rw [hasNext_take_full hfull] at h
    cases h
    exact .inl ⟨hfull, rfl, rfl, rfl⟩
  · have hlt : (taken : Int) < limit := Int.not_le.mp hfull
    cases hpull : p.pull s zero m with
    | error e m₂ => simp [hasNext, Waiting.prime, answer, eff_bind_apply, hfull, hpull] at h
    | ok pulled m₂ =>
        obtain ⟨found, p'⟩ := pulled
        cases found with
        | none =>
            rw [hasNext_take_none hlt hpull] at h
            cases h
            exact .inr (.inl ⟨hlt, p', rfl, rfl, rfl⟩)
        | some value =>
            rw [hasNext_take_some hlt hpull] at h
            cases h
            exact .inr (.inr ⟨hlt, value, p', rfl, rfl, rfl⟩)

/-- A limit that has another element has taken it from what stands before it. -/
theorem taken_of_hasNext_take
    (h : hasNext s zero (.take limit taken none p) m = .ok (true, q) m₁) :
    taken < limit ∧ ∃ value p₁ p' m₂, p.hasNext s zero m = .ok (true, p₁) m₂ ∧
      p₁.next s zero m₂ = .ok (value, p') m₁ ∧
      q = .take limit (taken + 1) (some (true, value)) p' := by
  rcases of_hasNext_take h with ⟨-, hb, -⟩ | ⟨-, _, -, hb, -⟩ | ⟨hlt, value, p', hpull, -, rfl⟩
  · cases hb
  · cases hb
  · rcases of_pull hpull with ⟨hfound, -⟩ | ⟨_, p₁, m₂, hfound, hask, hnext⟩
    · cases hfound
    · cases hfound
      exact ⟨hlt, value, p₁, p', m₂, hask, hnext, rfl⟩

/-- A limit knows what is known of the elements before it. -/
theorem holds_take {K : Known α} (h : (supply s zero).Holds p m K) :
    (supply s zero).Holds (.take limit taken none p) m (K.limit (limit - taken).toNat) := by
  by_cases hfull : limit ≤ taken
  · have hzero : (limit - taken).toNat = 0 := by omega
    rw [hzero, Known.limit]
    exact .ended (hasNext_take_full hfull)
  · have hlt : (taken : Int) < limit := Int.not_le.mp hfull
    obtain ⟨n, hn⟩ : ∃ n, (limit - taken).toNat = n + 1 := ⟨(limit - taken).toNat - 1, by omega⟩
    rw [hn]
    induction h generalizing taken n with
    | unknown => exact .unknown _ _
    | more => exact .unknown _ _
    | ended hask => exact .ended (hasNext_take_none hlt (pull_none hask))
    | @item p p₁ p₂ m m₁ m₂ value K hask hnext _ ih =>
        refine .item (hasNext_take_some hlt (pull_of hask hnext)) next_take_waiting ?_
        cases n with
        | zero =>
            rw [Known.limit]
            exact .ended (hasNext_take_full (by omega))
        | succ n => exact ih (by omega) (by omega) n (by omega)

/-- Whatever a limit knows is known of the elements before it. -/
theorem holds_of_take {K : Known α}
    (h : (supply s zero).Holds (.take limit taken none p) m K) :
    ∃ L, (supply s zero).Holds p m L ∧ K.Le (L.limit (limit - taken).toNat) := by
  induction K generalizing taken p m with
  | unknown => exact ⟨.unknown, .unknown _ _, .unknown _⟩
  | ended =>
      cases h with
      | ended hask =>
          rcases of_hasNext_take hask with ⟨hfull, -⟩ | ⟨-, p', hpull, -⟩ | ⟨-, _, _, _, hb, -⟩
          · refine ⟨.unknown, .unknown _ _, ?_⟩
            rw [show (limit - taken).toNat = 0 by omega, Known.limit]
            exact .ended
          · rcases of_pull hpull with ⟨-, hask⟩ | ⟨_, _, _, hfound, -⟩
            · refine ⟨.ended, .ended hask, ?_⟩
              cases (limit - taken).toNat <;> exact .ended
            · cases hfound
          · cases hb
  | more =>
      cases h with
      | more hask =>
          obtain ⟨hlt, value, p₁, p', m', hask, hnext, -⟩ := taken_of_hasNext_take hask
          refine ⟨.item value .unknown, .item hask hnext (.unknown _ _), ?_⟩
          rw [show (limit - taken).toNat = (limit - (taken + 1 : Nat)).toNat + 1 by omega]
          exact .more rfl
  | item value K ih =>
      cases h with
      | item hask hnext hrest =>
          obtain ⟨hlt, first, p₁, p', m', hinner, hfirst, rfl⟩ := taken_of_hasNext_take hask
          simp only [supply, next_take_waiting] at hnext
          cases hnext
          obtain ⟨L, hL, hle⟩ := ih hrest
          refine ⟨.item value L, .item hinner hfirst hL, ?_⟩
          rw [show (limit - taken).toNat = (limit - (taken + 1 : Nat)).toNat + 1 by omega]
          exact .item hle

/-- Collecting the elements of a limit takes them from what stands before it. -/
theorem drain_take_eq {n fuel : Nat} {values : List α} {p' : Pipe γ α} {m' : σ}
    (h : (supply s zero).Takes n p m values p' m') (hn : (limit - taken).toNat = n)
    (hfuel : values.length < fuel) (acc : Array α) :
    ∃ q, (supply s zero).drain fuel acc (.take limit taken none p) m =
      .ok (acc.toList ++ values, q) m' ∧ q.unlimited = p' := by
  induction h generalizing taken fuel acc with
  | enough p m =>
      obtain ⟨fuel, rfl⟩ : ∃ k, fuel = k + 1 := ⟨fuel - 1, by simp at hfuel; omega⟩
      refine ⟨.take limit taken (some (false, zero)) p, ?_, rfl⟩
      have hask : hasNext s zero (.take limit taken none p) m =
          .ok (false, .take limit taken (some (false, zero)) p) m :=
        hasNext_take_full (by omega)
      simp [Supply.drain, supply, eff_bind_apply, hask]
  | ended hask =>
      obtain ⟨fuel, rfl⟩ : ∃ k, fuel = k + 1 := ⟨fuel - 1, by simp at hfuel; omega⟩
      refine ⟨.take limit taken (some (false, zero)) _, ?_, rfl⟩
      have hask := hasNext_take_none (by omega : (taken : Int) < limit) (pull_none hask)
      simp [Supply.drain, supply, eff_bind_apply, hask]
  | @item n p p₁ p₂ p' m m₁ m₂ m' value values hask hnext _ ih =>
      rw [List.length_cons] at hfuel
      obtain ⟨fuel, rfl⟩ : ∃ k, fuel = k + 1 := ⟨fuel - 1, by omega⟩
      obtain ⟨q, hrest, hq⟩ := @ih (taken + 1) fuel (by omega) (by omega) (acc.push value)
      refine ⟨q, ?_, hq⟩
      have hask := hasNext_take_some (by omega : (taken : Int) < limit) (pull_of hask hnext)
      simp only [Supply.drain, supply, eff_bind_apply, hask, if_true, next_take_waiting]
      simpa [supply] using hrest

theorem takes_of_drain_take {fuel : Nat} {acc : Array α} {all : List α} {m' : σ}
    (h : (supply s zero).drain fuel acc (.take limit taken none p) m = .ok (all, q) m') :
    ∃ values, all = acc.toList ++ values ∧
      (supply s zero).Takes (limit - taken).toNat p m values q.unlimited m' := by
  induction fuel generalizing taken acc p m with
  | zero => cases h
  | succ fuel ih =>
      simp only [Supply.drain, supply, eff_bind_apply] at h
      cases hask : hasNext s zero (.take limit taken none p) m with
      | error e m₁ => simp [hask] at h
      | ok asked m₁ =>
          obtain ⟨has, q₁⟩ := asked
          cases has with
          | false =>
              simp [hask] at h
              obtain ⟨⟨rfl, rfl⟩, rfl⟩ := h
              refine ⟨[], by simp, ?_⟩
              rcases of_hasNext_take hask with
                ⟨hfull, -, rfl, rfl⟩ | ⟨hlt, p', hpull, -, rfl⟩ | ⟨-, _, _, _, hb, -⟩
              · rw [show (limit - taken).toNat = 0 by omega]
                exact .enough _ _
              · rw [show (limit - taken).toNat = (limit - taken).toNat - 1 + 1 by omega]
                rcases of_pull hpull with ⟨-, hask⟩ | ⟨_, _, _, hfound, -⟩
                · exact .ended hask
                · cases hfound
              · cases hb
          | true =>
              obtain ⟨hlt, value, p₁, p', m₂, hinner, hnext, rfl⟩ := taken_of_hasNext_take hask
              simp only [hask, if_true, eff_bind_apply, next_take_waiting] at h
              obtain ⟨values, rfl, htakes⟩ := ih h
              refine ⟨value :: values, by simp, ?_⟩
              rw [show (limit - taken).toNat = (limit - (taken + 1 : Nat)).toNat + 1 by omega]
              exact .item hinner hnext htakes

theorem toNat_sub_none (limit : Int) : (limit - (0 : Nat)).toNat = limit.toNat := by
  simp

theorem holds_limitTo {K : Known α} (limit : Int) (h : (supply s zero).Holds p m K) :
    (supply s zero).Holds (p.limitTo limit) m (K.limit limit.toNat) := by
  rw [← toNat_sub_none limit]
  exact holds_take h

theorem holds_of_limitTo {K : Known α} (h : (supply s zero).Holds (p.limitTo limit) m K) :
    ∃ L, (supply s zero).Holds p m L ∧ K.Le (L.limit limit.toNat) := by
  rw [← toNat_sub_none limit]
  exact holds_of_take h

/-- Collecting the first elements of a pipe takes them from the pipe. -/
theorem toList_limitTo_eq {fuel : Nat} {values : List α} {p' : Pipe γ α} {m' : σ}
    (h : (supply s zero).Takes limit.toNat p m values p' m') (hfuel : values.length < fuel) :
    ∃ q, (supply s zero).toList fuel (p.limitTo limit) m = .ok (values, q) m' ∧
      q.unlimited = p' :=
  drain_take_eq h (toNat_sub_none limit) hfuel #[]

theorem takes_of_toList_limitTo {fuel : Nat} {values : List α} {m' : σ}
    (h : (supply s zero).toList fuel (p.limitTo limit) m = .ok (values, q) m') :
    (supply s zero).Takes limit.toNat p m values q.unlimited m' := by
  obtain ⟨taken, rfl, htakes⟩ := takes_of_drain_take h
  rw [toNat_sub_none] at htakes
  simpa using htakes

end Pipe

end YieldMachine
