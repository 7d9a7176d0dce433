import YieldMachine.Machine.Consumer
import YieldMachine.Proofs.Machine.Limits

/-!
# Consumers lose no element

A consumer may ask, take, collect, leave a loop and put limits on a generator, in any order.
`expectAll` says what it gets when the elements come from a list: each request goes on where the
last one stopped.  Generators for which asking is harmless answer their consumers in this way.
-/

namespace YieldMachine

variable {σ γ α : Type}

/-- What a request gives, and what is left, when this is known. -/
def Request.expect (K : Known α) : Request → Option (Reply α × Known α)
  | .hasNext => K.has?.map fun b => (.flag b, K)
  | .next =>
    match K with
    | .item value K => some (.element value, K)
    | _ => none
  | .collect => (K.split (K.items.length + 1)).map fun (values, K) => (.collected values, K)
  | .loop n =>
    if 1 ≤ n then (K.split n.toNat).map fun (values, K) => (.looped values, K) else none
  | .limit n => some (.limited, K.limit n.toNat)
  | .collectFirst n => (K.split n.toNat).map fun (values, K) => (.collected values, K)

/-- What some requests give, when this is known. -/
def expectAll : Known α → List Request → Option (List (Reply α))
  | _, [] => some []
  | K, r :: rs => do
    let (reply, K) ← r.expect K
    let replies ← expectAll K rs
    return reply :: replies

/-- Answers some requests, one after the other. -/
def answerAll (s : Supply σ γ α) (zero : α) (fuel : Nat) :
    Pipe γ α → List Request → Eff σ (List (Reply α))
  | _, [] => pure []
  | p, r :: rs => do
    let (reply, p) ← r.answer s zero fuel p
    let replies ← answerAll s zero fuel p rs
    return reply :: replies

/-- The elements that a reply hands over. -/
def Reply.values : Reply α → List α
  | .flag _ => []
  | .element value => [value]
  | .collected values => values
  | .looped values => values
  | .limited => []

/-- Whether a consumer keeps to the rules: it takes an element only when it was just told that
there is one, and it leaves a loop after at least one element.  `asked` says whether it was. -/
def Guarded : Bool → List Request → List (Reply α) → Prop
  | _, .hasNext :: rs, .flag b :: replies => Guarded b rs replies
  | asked, .next :: rs, _ :: replies => asked = true ∧ Guarded false rs replies
  | _, .loop n :: rs, _ :: replies => 1 ≤ n ∧ Guarded false rs replies
  | _, _ :: rs, _ :: replies => Guarded false rs replies
  | _, _, _ => True

section Expectations

variable {K K' L : Known α} {r : Request} {rs : List Request} {reply : Reply α}
  {replies : List (Reply α)}

theorem of_expectAll_cons (h : expectAll K (r :: rs) = some replies) :
    ∃ reply L rest, r.expect K = some (reply, L) ∧ expectAll L rs = some rest ∧
      replies = reply :: rest := by
  obtain ⟨⟨reply, L⟩, hreply, h⟩ := Option.bind_eq_some_iff.mp h
  obtain ⟨rest, hrest, h⟩ := Option.bind_eq_some_iff.mp h
  cases h
  exact ⟨reply, L, rest, hreply, hrest, rfl⟩

theorem expectAll_cons (hreply : r.expect K = some (reply, L))
    (hrest : expectAll L rs = some replies) :
    expectAll K (r :: rs) = some (reply :: replies) := by
  simp [expectAll, hreply, hrest]

/-- A request hands over elements from the front, and what it leaves comes after them. -/
theorem Request.values_expect (h : r.expect K = some (reply, L)) :
    reply.values ++ L.items <+: K.items := by
  cases r with
  | hasNext =>
      obtain ⟨b, -, heq⟩ := Option.map_eq_some_iff.mp h
      cases heq
      exact List.prefix_refl _
  | next =>
      cases K with
      | item value K =>
          cases h
          exact List.prefix_refl _
      | _ => cases h
  | collect =>
      obtain ⟨⟨values, L'⟩, hsplit, heq⟩ := Option.map_eq_some_iff.mp h
      cases heq
      exact (Known.items_split hsplit).symm ▸ List.prefix_refl _
  | loop n =>
      simp only [expect] at h
      split at h
      · obtain ⟨⟨values, L'⟩, hsplit, heq⟩ := Option.map_eq_some_iff.mp h
        cases heq
        exact (Known.items_split hsplit).symm ▸ List.prefix_refl _
      · cases h
  | limit n =>
      cases h
      rw [Known.items_limit]
      exact List.take_prefix _ _
  | collectFirst n =>
      obtain ⟨⟨values, L'⟩, hsplit, heq⟩ := Option.map_eq_some_iff.mp h
      cases heq
      exact (Known.items_split hsplit).symm ▸ List.prefix_refl _

theorem values_expectAll (h : expectAll K rs = some replies) :
    replies.flatMap Reply.values <+: K.items := by
  induction rs generalizing K replies with
  | nil =>
      cases h
      exact List.nil_prefix
  | cons r rs ih =>
      obtain ⟨reply, L, rest, hreply, hrest, rfl⟩ := of_expectAll_cons h
      rw [List.flatMap_cons]
      exact ((List.prefix_append_right_inj _).mpr (ih hrest)).trans (r.values_expect hreply)

/-- More knowledge does not change what a request gives. -/
theorem Request.expect_mono (hK : K.Le K') (h : r.expect K = some (reply, L)) :
    ∃ L', r.expect K' = some (reply, L') ∧ L.Le L' := by
  cases r with
  | hasNext =>
      obtain ⟨b, hb, heq⟩ := Option.map_eq_some_iff.mp h
      cases heq
      exact ⟨K', by simp [expect, hK.has? hb], hK⟩
  | next =>
      cases hK with
      | item hrest =>
          cases h
          exact ⟨_, rfl, hrest⟩
      | _ => cases h
  | collect =>
      obtain ⟨⟨values, L'⟩, hsplit, heq⟩ := Option.map_eq_some_iff.mp h
      cases heq
      have hlen := congrArg List.length (Known.items_split hsplit)
      rw [List.length_append] at hlen
      obtain ⟨M, hM, hle⟩ := hK.split hsplit
      exact ⟨M, by simp [expect, Known.split_all hM (by omega)], hle⟩
  | loop n =>
      simp only [expect] at h
      split at h
      · rename_i hn
        obtain ⟨⟨values, L'⟩, hsplit, heq⟩ := Option.map_eq_some_iff.mp h
        cases heq
        obtain ⟨M, hM, hle⟩ := hK.split hsplit
        exact ⟨M, by simp [expect, hn, hM], hle⟩
      · cases h
  | limit n =>
      cases h
      exact ⟨_, rfl, hK.limit _⟩
  | collectFirst n =>
      obtain ⟨⟨values, L'⟩, hsplit, heq⟩ := Option.map_eq_some_iff.mp h
      cases heq
      obtain ⟨M, hM, hle⟩ := hK.split hsplit
      exact ⟨M, by simp [expect, hM], hle⟩

theorem expectAll_mono (hK : K.Le K') (h : expectAll K rs = some replies) :
    expectAll K' rs = some replies := by
  induction rs generalizing K K' replies with
  | nil => exact h
  | cons r rs ih =>
      obtain ⟨reply, L, rest, hreply, hrest, rfl⟩ := of_expectAll_cons h
      obtain ⟨L', hreply', hle⟩ := r.expect_mono hK hreply
      exact expectAll_cons hreply' (ih hle hrest)

/-- Of two limits in a row the smaller one counts. -/
theorem expectAll_limits {before : List Request} {ys : List (Reply α)}
    (hlen : ys.length = before.length) (i j : Int) (rs : List Request) (zs : List (Reply α))
    (K : Known α) :
    expectAll K (before ++ .limit i :: .limit j :: rs) =
        some (ys ++ .limited :: .limited :: zs) ↔
      expectAll K (before ++ .limit (min i j) :: rs) = some (ys ++ .limited :: zs) := by
  induction before generalizing ys K with
  | nil =>
      obtain rfl := List.length_eq_zero_iff.mp hlen
      have hmin : min i.toNat j.toNat = (min i j).toNat := by omega
      constructor
      · intro h
        obtain ⟨_, L, rest, hreply, hrest, heq⟩ := of_expectAll_cons h
        cases hreply
        cases heq
        obtain ⟨_, L, rest, hreply, hrest, heq⟩ := of_expectAll_cons hrest
        cases hreply
        cases heq
        rw [Known.limit_limit, hmin] at hrest
        exact expectAll_cons rfl hrest
      · intro h
        obtain ⟨_, L, rest, hreply, hrest, heq⟩ := of_expectAll_cons h
        cases hreply
        cases heq
        refine expectAll_cons rfl (expectAll_cons rfl ?_)
        rw [Known.limit_limit, hmin]
        exact hrest
  | cons r before ih =>
      cases ys with
      | nil => cases hlen
      | cons y ys =>
          constructor
          · intro h
            obtain ⟨reply, L, rest, hreply, hrest, heq⟩ := of_expectAll_cons h
            cases heq
            exact expectAll_cons hreply ((ih (by simpa using hlen) L).mp hrest)
          · intro h
            obtain ⟨reply, L, rest, hreply, hrest, heq⟩ := of_expectAll_cons h
            cases heq
            exact expectAll_cons hreply ((ih (by simpa using hlen) L).mpr hrest)

theorem guarded_limits {before : List Request} {ys : List (Reply α)}
    (hlen : ys.length = before.length) (i j k : Int) (rs : List Request) (zs : List (Reply α))
    (asked : Bool) :
    Guarded asked (before ++ .limit i :: .limit j :: rs) (ys ++ .limited :: .limited :: zs) ↔
      Guarded asked (before ++ .limit k :: rs) (ys ++ .limited :: zs) := by
  induction before generalizing ys asked with
  | nil =>
      obtain rfl := List.length_eq_zero_iff.mp hlen
      rfl
  | cons r before ih =>
      cases ys with
      | nil => cases hlen
      | cons y ys =>
          replace hlen : ys.length = before.length := by simpa using hlen
          cases r with
          | hasNext =>
              cases y with
              | flag b => exact ih hlen b
              | _ => exact ih hlen false
          | next => exact and_congr_right fun _ => ih hlen false
          | loop n => exact and_congr_right fun _ => ih hlen false
          | collect => exact ih hlen false
          | limit n => exact ih hlen false
          | collectFirst n => exact ih hlen false

end Expectations

section Answers

variable {s : Supply σ γ α} {zero : α} {fuel : Nat} {p p' : Pipe γ α} {m m' : σ}
  {K K' : Known α} {r : Request} {rs : List Request} {reply : Reply α}
  {replies : List (Reply α)}

/-- A request is answered as expected. -/
theorem Request.answer_of_expect (hs : s.Lawful) (hK : (Pipe.supply s zero).Holds p m K)
    (h : r.expect K = some (reply, K')) (hfuel : K.items.length < fuel) :
    ∃ p' m', r.answer s zero fuel p m = .ok (reply, p') m' ∧
      (Pipe.supply s zero).Holds p' m' K' := by
  have hpipe := Pipe.supply_lawful hs zero
  have hlength : ∀ {n values L}, K.split n = some (values, L) → values.length < fuel := by
    intro n values L hsplit
    have hlen := congrArg List.length (Known.items_split hsplit)
    rw [List.length_append] at hlen
    omega
  cases r with
  | hasNext =>
      obtain ⟨b, hb, heq⟩ := Option.map_eq_some_iff.mp h
      cases heq
      obtain ⟨p₁, m₁, hask⟩ := hK.asks hb
      refine ⟨p₁, m₁, ?_, (hpipe.holds_iff hask).mpr hK⟩
      simp only [Pipe.supply] at hask
      simp [answer, eff_bind_apply, hask]
  | next =>
      cases hK with
      | item hask hnext hrest =>
          cases h
          rw [← hpipe.next_asks hask] at hnext
          refine ⟨_, _, ?_, hrest⟩
          simp only [Pipe.supply] at hnext
          simp only [answer, eff_bind_apply, hnext, eff_pure_apply]
      | _ => cases h
  | collect =>
      obtain ⟨⟨values, L⟩, hsplit, heq⟩ := Option.map_eq_some_iff.mp h
      cases heq
      obtain ⟨p', m', htakes, hholds⟩ := hpipe.takes_of_holds hK hsplit
      refine ⟨p', m', ?_, hholds⟩
      have hlen := congrArg List.length (Known.items_split hsplit)
      rw [List.length_append] at hlen
      have hdrain := htakes.drain_eq (by omega) (hlength hsplit) #[]
      simp [answer, Supply.toList, eff_bind_apply, hdrain]
  | loop n =>
      simp only [expect] at h
      split at h
      · rename_i hn
        obtain ⟨⟨values, L⟩, hsplit, heq⟩ := Option.map_eq_some_iff.mp h
        cases heq
        obtain ⟨p', m', htakes, hholds⟩ := hpipe.takes_of_holds hK hsplit
        refine ⟨p', m', ?_, hholds⟩
        have hloop : (Pipe.supply s zero).firstOf n fuel #[] p m =
            .ok (#[].toList ++ values, p') m' :=
          htakes.firstOf_eq (by simp; omega) (by omega) (hlength hsplit)
        simp [answer, eff_bind_apply, hloop]
      · cases h
  | limit n =>
      cases h
      exact ⟨_, _, rfl, Pipe.holds_limitTo n hK⟩
  | collectFirst n =>
      obtain ⟨⟨values, L⟩, hsplit, heq⟩ := Option.map_eq_some_iff.mp h
      cases heq
      obtain ⟨p', m', htakes, hholds⟩ := hpipe.takes_of_holds hK hsplit
      obtain ⟨q, hcollect, rfl⟩ := Pipe.toList_limitTo_eq htakes (hlength hsplit)
      refine ⟨q.unlimited, m', ?_, hholds⟩
      simp [answer, eff_bind_apply, hcollect]

theorem Request.of_answer_hasNext (h : hasNext.answer s zero fuel p m = .ok (reply, p') m') :
    ∃ b, reply = .flag b ∧ (Pipe.supply s zero).hasNext p m = .ok (b, p') m' := by
  simp only [answer, eff_bind_apply] at h
  cases hask : p.hasNext s zero m with
  | error e m₁ => simp [hask] at h
  | ok asked m₁ =>
      obtain ⟨b, q⟩ := asked
      simp [hask] at h
      obtain ⟨⟨rfl, rfl⟩, rfl⟩ := h
      exact ⟨b, rfl, hask⟩

/-- A consumer that keeps to the rules takes an element only where there is one, and goes on to
keep to the rules. -/
theorem Guarded.cons (hs : s.Lawful) {asked : Bool} (h : Guarded asked (r :: rs) (reply :: replies))
    (hanswer : r.answer s zero fuel p m = .ok (reply, p') m')
    (hasked : asked = true → (Pipe.supply s zero).hasNext p m = .ok (true, p) m) :
    (r = .next → (Pipe.supply s zero).hasNext p m = .ok (true, p) m) ∧
      (∀ n, r = .loop n → 1 ≤ n) ∧
      ∃ asked', Guarded asked' rs replies ∧
        (asked' = true → (Pipe.supply s zero).hasNext p' m' = .ok (true, p') m') := by
  cases r with
  | hasNext =>
      obtain ⟨b, rfl, hask⟩ := Request.of_answer_hasNext hanswer
      refine ⟨nofun, nofun, b, h, fun hb => ?_⟩
      subst hb
      exact (Pipe.supply_lawful hs zero).ask_again hask
  | next =>
      obtain ⟨htrue, hrest⟩ := h
      exact ⟨fun _ => hasked htrue, nofun, false, hrest, nofun⟩
  | loop n =>
      obtain ⟨hn, hrest⟩ := h
      refine ⟨nofun, fun k hk => ?_, false, hrest, nofun⟩
      cases hk
      exact hn
  | collect => exact ⟨nofun, nofun, false, h, nofun⟩
  | limit n => exact ⟨nofun, nofun, false, h, nofun⟩
  | collectFirst n => exact ⟨nofun, nofun, false, h, nofun⟩

/-- A request that keeps to the rules is only answered as expected. -/
theorem Request.expect_of_answer (hs : s.Lawful)
    (h : r.answer s zero fuel p m = .ok (reply, p') m')
    (hnext : r = .next → (Pipe.supply s zero).hasNext p m = .ok (true, p) m)
    (hloop : ∀ n, r = .loop n → 1 ≤ n)
    (hK' : (Pipe.supply s zero).Holds p' m' K') :
    ∃ K L, (Pipe.supply s zero).Holds p m K ∧ r.expect K = some (reply, L) ∧ K'.Le L := by
  have hpipe := Pipe.supply_lawful hs zero
  cases r with
  | hasNext =>
      obtain ⟨b, rfl, hask⟩ := of_answer_hasNext h
      have hK := (hpipe.holds_iff hask).mp hK'
      rcases hK.has? hask with rfl | hb
      · cases b with
        | true => exact ⟨.more, .more, .more hask, rfl, .unknown _⟩
        | false => exact ⟨.ended, .ended, .ended hask, rfl, .unknown _⟩
      · exact ⟨K', K', hK, by simp [expect, hb], .refl K'⟩
  | next =>
      have hask := hnext rfl
      simp only [answer, eff_bind_apply] at h
      cases htake : p.next s zero m with
      | error e m₁ => simp [htake] at h
      | ok taken m₁ =>
          obtain ⟨value, q⟩ := taken
          simp [htake] at h
          obtain ⟨⟨rfl, rfl⟩, rfl⟩ := h
          exact ⟨.item value K', K', .item hask htake hK', rfl, .refl K'⟩
  | collect =>
      simp only [answer, eff_bind_apply] at h
      cases hcollect : (Pipe.supply s zero).toList fuel p m with
      | error e m₁ => simp [hcollect] at h
      | ok collected m₁ =>
          obtain ⟨all, q⟩ := collected
          simp [hcollect] at h
          obtain ⟨⟨rfl, rfl⟩, rfl⟩ := h
          obtain ⟨values, rfl, hlen, htakes⟩ := Supply.takes_of_drain hcollect
          obtain ⟨K, L, hK, hsplit, hle⟩ := hpipe.holds_of_takes htakes hK'
          exact ⟨K, L, hK, by simp [expect, Known.split_all hsplit hlen], hle⟩
  | loop n =>
      have hn := hloop n rfl
      simp only [answer, eff_bind_apply] at h
      cases hlooped : (Pipe.supply s zero).firstOf n fuel #[] p m with
      | error e m₁ => simp [hlooped] at h
      | ok looped m₁ =>
          obtain ⟨all, q⟩ := looped
          simp [hlooped] at h
          obtain ⟨⟨rfl, rfl⟩, rfl⟩ := h
          obtain ⟨values, rfl, htakes⟩ :=
            Supply.takes_of_firstOf (n := n.toNat) hlooped (by simp; omega) (by omega)
          obtain ⟨K, L, hK, hsplit, hle⟩ := hpipe.holds_of_takes htakes hK'
          exact ⟨K, L, hK, by simp [expect, hn, hsplit], hle⟩
  | limit n =>
      cases h
      obtain ⟨L, hL, hle⟩ := Pipe.holds_of_limitTo hK'
      exact ⟨L, L.limit n.toNat, hL, rfl, hle⟩
  | collectFirst n =>
      simp only [answer, eff_bind_apply] at h
      cases hcollect : (Pipe.supply s zero).toList fuel (p.limitTo n) m with
      | error e m₁ => simp [hcollect] at h
      | ok collected m₁ =>
          obtain ⟨values, q⟩ := collected
          simp [hcollect] at h
          obtain ⟨⟨rfl, rfl⟩, rfl⟩ := h
          have htakes := Pipe.takes_of_toList_limitTo hcollect
          obtain ⟨K, L, hK, hsplit, hle⟩ := hpipe.holds_of_takes htakes hK'
          exact ⟨K, L, hK, by simp [expect, hsplit], hle⟩

theorem answerAll_of_expectAll (hs : s.Lawful) (hK : (Pipe.supply s zero).Holds p m K)
    (h : expectAll K rs = some replies) (hfuel : K.items.length < fuel) :
    ∃ m', answerAll s zero fuel p rs m = .ok replies m' := by
  induction rs generalizing p m K replies with
  | nil =>
      cases h
      exact ⟨m, rfl⟩
  | cons r rs ih =>
      obtain ⟨reply, L, rest, hreply, hrest, rfl⟩ := of_expectAll_cons h
      obtain ⟨p₁, m₁, hanswer, hL⟩ := r.answer_of_expect hs hK hreply hfuel
      have hlen := (r.values_expect hreply).length_le
      rw [List.length_append] at hlen
      obtain ⟨m', hok⟩ := ih hL hrest (by omega)
      refine ⟨m', ?_⟩
      simp only [answerAll, eff_bind_apply, hanswer, hok, eff_pure_apply]

theorem expectAll_of_answerAll (hs : s.Lawful) {asked : Bool}
    (h : answerAll s zero fuel p rs m = .ok replies m') (hguard : Guarded asked rs replies)
    (hasked : asked = true → (Pipe.supply s zero).hasNext p m = .ok (true, p) m) :
    ∃ K, (Pipe.supply s zero).Holds p m K ∧ expectAll K rs = some replies := by
  induction rs generalizing p m replies asked with
  | nil =>
      cases h
      exact ⟨.unknown, .unknown _ _, rfl⟩
  | cons r rs ih =>
      simp only [answerAll, eff_bind_apply] at h
      cases hanswer : r.answer s zero fuel p m with
      | error e m₁ => simp [hanswer] at h
      | ok answer m₁ =>
          obtain ⟨reply, p₁⟩ := answer
          simp only [hanswer] at h
          cases hall : answerAll s zero fuel p₁ rs m₁ with
          | error e m₂ => simp [hall] at h
          | ok rest m₂ =>
              simp [hall] at h
              obtain ⟨rfl, rfl⟩ := h
              obtain ⟨hnext, hloop, asked', hrest, hasked'⟩ :=
                hguard.cons hs hanswer hasked
              obtain ⟨K', hK', hexpect⟩ := ih hall hrest hasked'
              obtain ⟨K, L, hK, hreply, hle⟩ :=
                r.expect_of_answer hs hanswer hnext hloop hK'
              exact ⟨K, hK, expectAll_cons hreply (expectAll_mono hle hexpect)⟩

end Answers

end YieldMachine
