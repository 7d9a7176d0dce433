import YieldMachine.Proofs.Machine.Delivery
import YieldMachine.Proofs.Machine.Limits

/-!
# Generators ask as late as they can

An advance function is asked at most once more than elements are taken, and never after its first
false answer.  A limit takes at most as many elements as it allows from the generator before it,
each right after a yes, and leaves it alone after a no.  Both hold for arbitrary calls, whether the
consumer asks before it takes or not.

Both kinds of generators wait for an advance function (`Supply.advancing`), so that one induction
on the calls says what they ask of it.
-/

namespace YieldMachine

variable {σ γ δ α β : Type}

namespace Supply

/-- What a generator answers to some calls, and where they leave it. -/
def callAll (s : Supply σ γ α) : γ → List Call → Eff σ (List (Reply α) × γ)
  | g, [] => pure ([], g)
  | g, .hasNext :: calls => do
    let (has, g) ← s.hasNext g
    let (replies, g) ← s.callAll g calls
    return (.flag has :: replies, g)
  | g, .next :: calls => do
    let (value, g) ← s.next g
    let (replies, g) ← s.callAll g calls
    return (.element value :: replies, g)

/-- A generator that holds back the answers of an advance function with a state. -/
def advancing (advance : γ → Eff σ ((Bool × α) × γ)) : Supply σ (Waiting α × γ) α where
  hasNext w := do
    let (answer, g) ← w.1.prime advance w.2
    return (answer.1, some answer, g)
  next w := do
    let (answer, g) ← w.1.prime advance w.2
    return (answer.2, Waiting.after answer, g)

end Supply

/-- A computation that also writes down what it gives, or `none` if it fails. -/
def noted (f : Eff σ β) : Eff (σ × List (Option β)) β := fun m =>
  match f m.1 with
  | .ok b m' => .ok b (m', m.2 ++ [some b])
  | .error e m' => .error e (m', m.2 ++ [none])

/-- A call of a generator, and the reply unless the call fails. -/
structure Asked (α : Type) where
  call : Call
  reply : Option (Reply α)

/-- A generator that also writes down the calls it gets. -/
def Supply.logged (s : Supply σ γ α) : Supply (σ × List (Asked α)) γ α where
  hasNext g := fun m =>
    match s.hasNext g m.1 with
    | .ok (b, g) m' => .ok (b, g) (m', m.2 ++ [⟨.hasNext, some (.flag b)⟩])
    | .error e m' => .error e (m', m.2 ++ [⟨.hasNext, none⟩])
  next g := fun m =>
    match s.next g m.1 with
    | .ok (value, g) m' => .ok (value, g) (m', m.2 ++ [⟨.next, some (.element value)⟩])
    | .error e m' => .error e (m', m.2 ++ [⟨.next, none⟩])

/-- The calls that take an element: the generator is asked first, and says yes. -/
def takesOne (value : α) : List (Asked α) :=
  [⟨.hasNext, some (.flag true)⟩, ⟨.next, some (.element value)⟩]

/-- Whether an advance function with a state gives some values in a row. -/
inductive HandsOut (advance : γ → Eff σ ((Bool × α) × γ)) : γ → σ → List α → γ → σ → Prop
  | none (g : γ) (m : σ) : HandsOut advance g m [] g m
  | more {g g₁ g' : γ} {m m₁ m' : σ} {value : α} {values : List α} :
      advance g m = .ok ((true, value), g₁) m₁ → HandsOut advance g₁ m₁ values g' m' →
      HandsOut advance g m (value :: values) g' m'

/-- How an advance function with a state is left: where it gave its last value, or at its end. -/
def Rests (advance : γ → Eff σ ((Bool × α) × γ)) (g : γ) (m : σ) (last : Option α) (g' : γ)
    (m' : σ) : Prop :=
  match last with
  | none => g' = g ∧ m' = m
  | some z => advance g m = .ok ((false, z), g') m'

namespace Waiting

/-- The element that is held back. -/
def held : Waiting α → List α
  | some (true, value) => [value]
  | _ => []

/-- What stands for an element at the end, once it is known that there are no more. -/
def last? : Waiting α → Option α
  | some (false, z) => some z
  | _ => none

end Waiting

/-- What some calls were answered, and what an advance function gave for it: values, and the answer
at its end if it was asked that far. -/
structure Served (w : Waiting α) (calls : List Call) (replies : List (Reply α)) (values : List α)
    (last : Option α) : Prop where
  replies_eq : ∀ zero, replies = answers ((w.last?.or last).getD zero) (w.held ++ values) calls
  ended : w.last?.isSome = true → values = [] ∧ last = none
  running : w.last?.or last = none →
    nexts calls ≤ (w.held ++ values).length ∧ .flag false ∉ replies
  length_le : (w.held ++ values).length + last.toList.length ≤
    min (nexts calls) (w.held ++ values).length + 1

/-- Generators that do the same do the same for all calls. -/
theorem Supply.callAll_map (s : Supply σ γ α) (s' : Supply σ δ α) (f : γ → δ)
    (hasNext : ∀ g, s'.hasNext (f g) = do
      let (has, g) ← s.hasNext g
      return (has, f g))
    (next : ∀ g, s'.next (f g) = do
      let (value, g) ← s.next g
      return (value, f g)) (g : γ) (calls : List Call) :
    s'.callAll (f g) calls = do
      let (replies, g) ← s.callAll g calls
      return (replies, f g) := by
  induction calls generalizing g with
  | nil => simp [callAll]
  | cons call calls ih => cases call <;> simp [callAll, hasNext, next, ih]

section Serving

variable {w : Waiting α} {calls : List Call} {replies : List (Reply α)} {values : List α}
  {last : Option α} {value z : α}

@[simp]
theorem nexts_hasNext (calls : List Call) : nexts (.hasNext :: calls) = nexts calls := rfl

@[simp]
theorem nexts_next (calls : List Call) : nexts (.next :: calls) = nexts calls + 1 := by
  simp [nexts]

namespace Served

theorem nil (w : Waiting α) : Served w [] [] [] none where
  replies_eq _ := by simp [answers]
  ended _ := ⟨rfl, rfl⟩
  running _ := ⟨Nat.zero_le _, List.not_mem_nil⟩
  length_le := by
    have : w.held.length ≤ 1 := by
      unfold Waiting.held
      split <;> simp
    simp only [List.append_nil, Option.toList_none, List.length_nil]
    omega

/-- Asking while an element is held back. -/
theorem hasNext (h : Served (some (true, value)) calls replies values last) :
    Served (some (true, value)) (.hasNext :: calls) (.flag true :: replies) values last where
  replies_eq zero := by simp [answers, Waiting.held, h.replies_eq zero]
  ended := nofun
  running hlast := by simpa using h.running hlast
  length_le := h.length_le

/-- Taking the element that is held back. -/
theorem next (h : Served none calls replies values last) :
    Served (some (true, value)) (.next :: calls) (.element value :: replies) values last where
  replies_eq zero := by simp [answers, Waiting.held, Waiting.last?, h.replies_eq zero]
  ended := nofun
  running hlast := by simpa [Waiting.held] using h.running hlast
  length_le := by
    have := h.length_le
    simp [Waiting.held] at this ⊢
    omega

/-- Asking at the end. -/
theorem hasNext_over (h : Served (some (false, z)) calls replies values last) :
    Served (some (false, z)) (.hasNext :: calls) (.flag false :: replies) values last where
  replies_eq zero := by
    obtain ⟨rfl, rfl⟩ := h.ended rfl
    simp [answers, Waiting.held, h.replies_eq zero]
  ended := h.ended
  running := nofun
  length_le := h.length_le

/-- Taking at the end. -/
theorem next_over (h : Served (some (false, z)) calls replies values last) :
    Served (some (false, z)) (.next :: calls) (.element z :: replies) values last where
  replies_eq zero := by
    obtain ⟨rfl, rfl⟩ := h.ended rfl
    simp [answers, Waiting.held, Waiting.last?, h.replies_eq zero]
  ended := h.ended
  running := nofun
  length_le := by
    obtain ⟨rfl, rfl⟩ := h.ended rfl
    simp [Waiting.held]

/-- An answer that was just given is held back. -/
theorem given (h : Served (some (true, value)) calls replies values last) :
    Served none calls replies (value :: values) last where
  replies_eq := h.replies_eq
  ended := nofun
  running := h.running
  length_le := h.length_le

/-- The end that was just met. -/
theorem met (h : Served (some (false, z)) calls replies [] none) :
    Served none calls replies [] (some z) where
  replies_eq := h.replies_eq
  ended := nofun
  running := nofun
  length_le := by simp [Waiting.held]

end Served

namespace Supply

variable {advance : γ → Eff σ ((Bool × α) × γ)} {w w' : Waiting α} {g g' : γ} {m m' : σ}
  {call : Call} {e : Fault}

/-- A call that finds no answer asks for one, and is answered as if it had been there before. -/
theorem callAll_advancing_none (advance : γ → Eff σ ((Bool × α) × γ)) (g : γ) (call : Call)
    (calls : List Call) :
    (advancing advance).callAll (none, g) (call :: calls) =
      advance g >>= fun (answer, g) =>
        (advancing advance).callAll (some answer, g) (call :: calls) := by
  cases call <;> simp [callAll, advancing, Waiting.prime]

theorem callAll_advancing_hasNext (answer : Bool × α) (g : γ) (calls : List Call) :
    (advancing advance).callAll (some answer, g) (.hasNext :: calls) = do
      let (replies, g) ← (advancing advance).callAll (some answer, g) calls
      return (.flag answer.1 :: replies, g) := by
  simp [callAll, advancing, Waiting.prime]

theorem callAll_advancing_next (answer : Bool × α) (g : γ) (calls : List Call) :
    (advancing advance).callAll (some answer, g) (.next :: calls) = do
      let (replies, g) ← (advancing advance).callAll (Waiting.after answer, g) calls
      return (.element answer.2 :: replies, g) := by
  simp [callAll, advancing, Waiting.prime]

/-- A run that has an answer at hand serves from it, if every later run serves. -/
theorem callAll_advancing_some
    (hrest : ∀ w g m replies w' g' m',
      (advancing advance).callAll (w, g) calls m = .ok (replies, (w', g')) m' →
      ∃ values last g₁ m₁, HandsOut advance g m values g₁ m₁ ∧ Rests advance g₁ m₁ last g' m' ∧
        Served w calls replies values last)
    {answer : Bool × α}
    (h : (advancing advance).callAll (some answer, g) (call :: calls) m =
      .ok (replies, (w', g')) m') :
    ∃ values last g₁ m₁, HandsOut advance g m values g₁ m₁ ∧ Rests advance g₁ m₁ last g' m' ∧
      Served (some answer) (call :: calls) replies values last := by
  obtain ⟨has, value⟩ := answer
  cases call with
  | hasNext =>
      rw [callAll_advancing_hasNext, eff_bind_eq_ok] at h
      obtain ⟨⟨rest, w₁, g₁⟩, m₁, hcalls, hpure⟩ := h
      cases hpure
      obtain ⟨values, last, g₁, m₁, hgives, hrests, hserved⟩ := hrest _ _ _ _ _ _ _ hcalls
      cases has with
      | true => exact ⟨values, last, g₁, m₁, hgives, hrests, hserved.hasNext⟩
      | false => exact ⟨values, last, g₁, m₁, hgives, hrests, hserved.hasNext_over⟩
  | next =>
      rw [callAll_advancing_next, eff_bind_eq_ok] at h
      obtain ⟨⟨rest, w₁, g₁⟩, m₁, hcalls, hpure⟩ := h
      cases hpure
      obtain ⟨values, last, g₁, m₁, hgives, hrests, hserved⟩ := hrest _ _ _ _ _ _ _ hcalls
      cases has with
      | true => exact ⟨values, last, g₁, m₁, hgives, hrests, hserved.next⟩
      | false => exact ⟨values, last, g₁, m₁, hgives, hrests, hserved.next_over⟩

/-- What a generator asked of its advance function when it has answered some calls. -/
theorem served_of_callAll (calls : List Call)
    (h : (advancing advance).callAll (w, g) calls m = .ok (replies, (w', g')) m') :
    ∃ values last g₁ m₁, HandsOut advance g m values g₁ m₁ ∧ Rests advance g₁ m₁ last g' m' ∧
      Served w calls replies values last := by
  induction calls generalizing w g m replies w' g' m' with
  | nil =>
      cases h
      exact ⟨[], none, g, m, .none g m, ⟨rfl, rfl⟩, .nil w⟩
  | cons call calls ih =>
      cases w with
      | some answer => exact callAll_advancing_some (fun _ _ _ _ _ _ _ => ih) h
      | none =>
          rw [callAll_advancing_none, eff_bind_eq_ok] at h
          obtain ⟨⟨⟨has, value⟩, g₁⟩, m₁, hadvance, h⟩ := h
          obtain ⟨values, last, g₂, m₂, hgives, hrests, hserved⟩ :=
            callAll_advancing_some (fun _ _ _ _ _ _ _ => ih) h
          cases has with
          | true =>
              exact ⟨value :: values, last, g₂, m₂, .more hadvance hgives, hrests, hserved.given⟩
          | false =>
              obtain ⟨rfl, rfl⟩ := hserved.ended rfl
              cases hgives
              obtain ⟨rfl, rfl⟩ := hrests
              exact ⟨[], some value, g, m, .none g m, hadvance, hserved.met⟩

/-- What a generator asked of its advance function when that failed during some calls. -/
theorem failed_of_callAll (calls : List Call)
    (h : (advancing advance).callAll (w, g) calls m = .error e m') :
    ∃ values g₁ m₁, HandsOut advance g m values g₁ m₁ ∧ advance g₁ m₁ = .error e m' ∧
      w.last? = none ∧ (w.held ++ values).length ≤ nexts calls := by
  induction calls generalizing w g m with
  | nil => cases h
  | cons call calls ih =>
      -- a call that has an answer at hand does not fail itself
      have hsome : ∀ {answer : Bool × α} {g m},
          (advancing advance).callAll (some answer, g) (call :: calls) m = .error e m' →
          ∃ values g₁ m₁, HandsOut advance g m values g₁ m₁ ∧ advance g₁ m₁ = .error e m' ∧
            Waiting.last? (some answer) = none ∧
            (Waiting.held (some answer) ++ values).length ≤ nexts (call :: calls) := by
        intro answer g m h
        obtain ⟨has, value⟩ := answer
        cases call with
        | hasNext =>
            rw [callAll_advancing_hasNext, eff_bind_eq_error] at h
            obtain h | ⟨_, _, -, hpure⟩ := h
            · exact ih h
            · cases hpure
        | next =>
            rw [callAll_advancing_next, eff_bind_eq_error] at h
            obtain h | ⟨_, _, -, hpure⟩ := h
            · obtain ⟨values, g₁, m₁, hgives, hadvance, hlast, hlen⟩ := ih h
              cases has with
              | true =>
                  refine ⟨values, g₁, m₁, hgives, hadvance, rfl, ?_⟩
                  simpa [Waiting.held, Waiting.after] using hlen
              | false => cases hlast
            · cases hpure
      cases w with
      | some answer => exact hsome h
      | none =>
          rw [callAll_advancing_none, eff_bind_eq_error] at h
          obtain hadvance | ⟨⟨⟨has, value⟩, g₁⟩, m₁, hadvance, h⟩ := h
          · exact ⟨[], g, m, .none g m, hadvance, rfl, Nat.zero_le _⟩
          · obtain ⟨values, g₂, m₂, hgives, hfails, hlast, hlen⟩ := hsome h
            cases has with
            | true => exact ⟨value :: values, g₂, m₂, .more hadvance hgives, hfails, rfl, hlen⟩
            | false => cases hlast

end Supply

end Serving

section Logs

variable {s : Supply σ γ α} {advance : Eff σ (Bool × α)} {values : List α} {m m' : σ}
  {log log' : List (Option (Bool × α))}

/-- A noted advance function that has no state of its own. -/
abbrev notedAdvance (advance : Eff σ (Bool × α)) (_ : Unit) :
    Eff (σ × List (Option (Bool × α))) ((Bool × α) × Unit) := do
  return (← noted advance, ())

theorem notedAdvance_apply (advance : Eff σ (Bool × α)) (m : σ)
    (log : List (Option (Bool × α))) :
    notedAdvance advance () (m, log) =
      match advance m with
      | .ok answer m' => .ok (answer, ()) (m', log ++ [some answer])
      | .error e m' => .error e (m', log ++ [none]) := by
  simp only [notedAdvance, eff_bind_apply, noted]
  cases advance m <;> rfl

/-- The log gets the answers that are given. -/
theorem HandsOut.log_eq {g g' : Unit}
    (h : HandsOut (notedAdvance advance) g (m, log) values g' (m', log')) :
    log' = log ++ values.map fun value => some (true, value) := by
  induction values generalizing m log with
  | nil =>
      cases h
      simp
  | cons value values ih =>
      cases h with
      | more hadvance hrest =>
          rw [notedAdvance_apply] at hadvance
          split at hadvance
          · cases hadvance
            simp [ih hrest]
          · cases hadvance

theorem Supply.callAll_ofAdvance (advance : Eff σ (Bool × α)) (w : Waiting α)
    (calls : List Call) :
    (ofAdvance (noted advance)).callAll w calls = do
      let (replies, w) ← (advancing (notedAdvance advance)).callAll (w, ()) calls
      return (replies, w.1) :=
  callAll_map (advancing (notedAdvance advance)) (ofAdvance (noted advance)) Prod.fst
    (fun (w, _) => by cases w <;> simp [ofAdvance, advancing, Waiting.prime, notedAdvance])
    (fun (w, _) => by cases w <;> simp [ofAdvance, advancing, Waiting.prime, notedAdvance])
    (w, ()) calls

/-- The advance function of a limit: it takes elements from a pipe, and counts them. -/
abbrev Pipe.takeOne (s : Supply σ γ α) (zero : α) (limit : Int) :
    Nat × Pipe γ α → Eff σ ((Bool × α) × (Nat × Pipe γ α))
  | (taken, inner) => answer zero limit taken inner (inner.pull s zero)

theorem Pipe.callAll_take (s : Supply σ γ α) (zero : α) (limit : Int) (taken : Nat)
    (w : Waiting α) (inner : Pipe γ α) (calls : List Call) :
    (supply s zero).callAll (.take limit taken w inner) calls = do
      let (replies, w, taken, inner) ←
        (Supply.advancing (takeOne s zero limit)).callAll (w, taken, inner) calls
      return (replies, .take limit taken w inner) :=
  Supply.callAll_map (Supply.advancing (takeOne s zero limit)) (supply s zero)
    (fun p => .take limit p.2.1 p.1 p.2.2)
    (fun (w, _) => by cases w <;> simp [supply, hasNext, Supply.advancing, Waiting.prime])
    (fun (w, _) => by cases w <;> simp [supply, next, Supply.advancing, Waiting.prime])
    (w, taken, inner) calls

end Logs

section Limits

theorem Supply.logged_hasNext_apply (s : Supply σ γ α) (g : γ) (m : σ) (log : List (Asked α)) :
    s.logged.hasNext g (m, log) =
      match s.hasNext g m with
      | .ok (b, g) m' => .ok (b, g) (m', log ++ [⟨.hasNext, some (.flag b)⟩])
      | .error e m' => .error e (m', log ++ [⟨.hasNext, none⟩]) := rfl

theorem Supply.logged_next_apply (s : Supply σ γ α) (g : γ) (m : σ) (log : List (Asked α)) :
    s.logged.next g (m, log) =
      match s.next g m with
      | .ok (value, g) m' => .ok (value, g) (m', log ++ [⟨.next, some (.element value)⟩])
      | .error e m' => .error e (m', log ++ [⟨.next, none⟩]) := rfl

variable {s : Supply σ γ α} {zero : α} {limit : Int} {taken taken' : Nat} {g : γ}
  {p : Pipe γ α} {m m' : σ} {log log' : List (Asked α)} {values : List α} {answer : Bool × α}
  {e : Fault}

namespace Pipe

/-- What a pipe's generator is asked for an element: whether it has one, and the element after a
yes. -/
theorem pull_source_apply (s : Supply σ γ α) (zero : α) (g : γ) (m : σ) (log : List (Asked α)) :
    (source g).pull s.logged zero (m, log) =
      match s.hasNext g m with
      | .error e m₁ => .error e (m₁, log ++ [⟨.hasNext, none⟩])
      | .ok (false, g₁) m₁ =>
        .ok (none, .source g₁) (m₁, log ++ [⟨.hasNext, some (.flag false)⟩])
      | .ok (true, g₁) m₁ =>
        match s.next g₁ m₁ with
        | .error e m₂ =>
          .error e (m₂, log ++ [⟨.hasNext, some (.flag true)⟩, ⟨.next, none⟩])
        | .ok (value, g₂) m₂ => .ok (some value, .source g₂) (m₂, log ++ takesOne value) := by
  rw [pull, eff_bind_apply, Supply.logged_hasNext_apply]
  cases s.hasNext g m with
  | error e m₁ => rfl
  | ok asked m₁ =>
      obtain ⟨has, g₁⟩ := asked
      cases has with
      | false => rfl
      | true =>
          simp only [if_true, eff_bind_apply, Supply.logged_next_apply]
          cases s.next g₁ m₁ with
          | error e m₂ => simp
          | ok took m₂ => simp [takesOne]

/-- What a limit does when it is to answer: nothing once it is reached, and otherwise it takes an
element. -/
theorem takeOne_apply (s : Supply σ γ α) (zero : α) (limit : Int) (taken : Nat) (g : γ) (m : σ)
    (log : List (Asked α)) :
    takeOne s.logged zero limit (taken, .source g) (m, log) =
      if limit ≤ taken then .ok ((false, zero), (taken, .source g)) (m, log) else
      match (source g).pull s.logged zero (m, log) with
      | .error e w => .error e w
      | .ok (none, p) w => .ok ((false, zero), (taken, p)) w
      | .ok (some value, p) w => .ok ((true, value), (taken + 1, p)) w := by
  by_cases hlimit : limit ≤ taken
  · simp [answer, hlimit]
  · rw [takeOne, answer, if_neg hlimit, if_neg hlimit, eff_bind_apply]
    cases (source g).pull s.logged zero (m, log) with
    | error e w => rfl
    | ok took w =>
        obtain ⟨value?, p⟩ := took
        cases value? <;> rfl

/-- What a limit has done when it answers. -/
theorem of_takeOne_ok
    (h : takeOne s.logged zero limit (taken, .source g) (m, log) =
      .ok (answer, taken', p) (m', log')) :
    ∃ g', p = .source g' ∧
      ((answer = (false, zero) ∧ taken' = taken ∧ (limit ≤ taken ∧ log' = log ∨
          taken < limit ∧ log' = log ++ [⟨.hasNext, some (.flag false)⟩])) ∨
        ∃ value, answer = (true, value) ∧ taken < limit ∧ taken' = taken + 1 ∧
          log' = log ++ takesOne value) := by
  rw [takeOne_apply] at h
  split at h
  · cases h
    exact ⟨g, rfl, .inl ⟨rfl, rfl, .inl ⟨‹_›, rfl⟩⟩⟩
  · rename_i hlimit
    have hlt : (taken : Int) < limit := by omega
    rw [pull_source_apply] at h
    cases hhas : s.hasNext g m with
    | error e m₁ => simp [hhas] at h
    | ok asked m₁ =>
        obtain ⟨has, g₁⟩ := asked
        cases has with
        | false =>
            simp only [hhas] at h
            cases h
            exact ⟨g₁, rfl, .inl ⟨rfl, rfl, .inr ⟨hlt, rfl⟩⟩⟩
        | true =>
            cases hnext : s.next g₁ m₁ with
            | error e m₂ => simp [hhas, hnext] at h
            | ok took m₂ =>
                simp only [hhas, hnext] at h
                cases h
                exact ⟨took.2, rfl, .inr ⟨took.1, rfl, hlt, rfl, rfl⟩⟩

/-- What a limit has done when the generator before it fails. -/
theorem of_takeOne_error
    (h : takeOne s.logged zero limit (taken, .source g) (m, log) = .error e (m', log')) :
    taken < limit ∧ (log' = log ++ [⟨.hasNext, none⟩] ∨
      log' = log ++ [⟨.hasNext, some (.flag true)⟩, ⟨.next, none⟩]) := by
  rw [takeOne_apply] at h
  split at h
  · cases h
  · rename_i hlimit
    have hlt : (taken : Int) < limit := by omega
    rw [pull_source_apply] at h
    cases hhas : s.hasNext g m with
    | error e m₁ =>
        simp only [hhas] at h
        cases h
        exact ⟨hlt, .inl rfl⟩
    | ok asked m₁ =>
        obtain ⟨has, g₁⟩ := asked
        cases has with
        | false => simp [hhas] at h
        | true =>
            cases hnext : s.next g₁ m₁ with
            | error e m₂ =>
                simp only [hhas, hnext] at h
                cases h
                exact ⟨hlt, .inr rfl⟩
            | ok took m₂ => simp [hhas, hnext] at h

end Pipe

/-- A limit takes the elements that it gives, and counts them. -/
theorem HandsOut.taken_eq
    (h : HandsOut (Pipe.takeOne s.logged zero limit) (taken, .source g) (m, log) values (taken', p)
      (m', log')) (hlimit : taken ≤ limit.toNat) :
    (∃ g', p = .source g') ∧ taken' = taken + values.length ∧ taken' ≤ limit.toNat ∧
      log' = log ++ values.flatMap takesOne := by
  induction values generalizing taken g m log with
  | nil =>
      cases h
      exact ⟨⟨g, rfl⟩, rfl, hlimit, by simp⟩
  | cons value values ih =>
      cases h with
      | @more _ next _ _ memory _ _ _ htake hrest =>
          obtain ⟨taken₁, p₁⟩ := next
          obtain ⟨m₁, log₁⟩ := memory
          obtain ⟨g₁, rfl, ⟨hanswer, -⟩ | ⟨_, hanswer, hlt, rfl, rfl⟩⟩ := Pipe.of_takeOne_ok htake
          · cases hanswer
          · cases hanswer
            obtain ⟨hsource, htaken, hle, hlog⟩ := ih hrest (by omega)
            refine ⟨hsource, ?_, hle, ?_⟩
            · rw [htaken, List.length_cons]
              omega
            · rw [hlog, List.flatMap_cons, List.append_assoc]

end Limits

section Askings

variable {s : Supply σ γ α} {advance : Eff σ (Bool × α)} {w w' : Waiting α} {zero : α} {n : Int}
  {g : γ} {p : Pipe γ α} {calls : List Call} {replies : List (Reply α)} {m m' : σ} {e : Fault}

/-- What a generator asked of its advance function when it has answered some calls. -/
theorem Supply.asked_of_callAll_ok {log log' : List (Option (Bool × α))}
    (h : (ofAdvance (noted advance)).callAll w calls (m, log) = .ok (replies, w') (m', log')) :
    ∃ (values : List α) (last : Option α),
      log' = log ++ values.map (fun value => some (true, value)) ++
        last.toList.map (fun z => some (false, z)) ∧
      Served w calls replies values last := by
  rw [callAll_ofAdvance, eff_bind_eq_ok] at h
  obtain ⟨⟨answered, w₁, u⟩, ⟨m₁, log₁⟩, hcalls, hpure⟩ := h
  cases hpure
  obtain ⟨values, last, u₁, ⟨m₂, log₂⟩, hgives, hrests, hserved⟩ := served_of_callAll calls hcalls
  refine ⟨values, last, ?_, hserved⟩
  rw [← hgives.log_eq]
  cases last with
  | none =>
      obtain ⟨-, hmemory⟩ := hrests
      cases hmemory
      simp
  | some z =>
      change notedAdvance advance () (m₂, log₂) = _ at hrests
      rw [notedAdvance_apply] at hrests
      split at hrests
      · cases hrests
        simp
      · cases hrests

/-- What a generator asked of its advance function when that failed. -/
theorem Supply.asked_of_callAll_error {log log' : List (Option (Bool × α))}
    (h : (ofAdvance (noted advance)).callAll w calls (m, log) = .error e (m', log')) :
    ∃ values : List α,
      log' = log ++ values.map (fun value => some (true, value)) ++ [none] ∧
      (w.held ++ values).length ≤ nexts calls := by
  rw [callAll_ofAdvance, eff_bind_eq_error] at h
  obtain h | ⟨_, _, -, hpure⟩ := h
  · obtain ⟨values, u₁, ⟨m₁, log₁⟩, hgives, hfails, -, hlen⟩ := failed_of_callAll calls h
    refine ⟨values, ?_, hlen⟩
    rw [← hgives.log_eq]
    change notedAdvance advance () (m₁, log₁) = _ at hfails
    rw [notedAdvance_apply] at hfails
    split at hfails
    · cases hfails
    · cases hfails
      rfl
  · cases hpure

/-- What a limit took from the generator before it when it has answered some calls. -/
theorem Pipe.taken_of_callAll_ok {log : List (Asked α)}
    (h : (supply s.logged zero).callAll ((source g).limitTo n) calls (m, []) =
      .ok (replies, p) (m', log)) :
    ∃ (values : List α) (last : Option α) (tail : List (Asked α)),
      log = values.flatMap takesOne ++ tail ∧ values.length ≤ n.toNat ∧
      (tail = [] ∧ (values.length = n.toNat ∨ last = none) ∨
        tail = [⟨.hasNext, some (.flag false)⟩] ∧ values.length < n.toNat) ∧
      last.getD zero = zero ∧ Served none calls replies values last := by
  rw [limitTo, callAll_take, eff_bind_eq_ok] at h
  obtain ⟨⟨answered, w₁, taken, inner⟩, ⟨m₁, log₁⟩, hcalls, hpure⟩ := h
  cases hpure
  obtain ⟨values, last, ⟨taken₁, p₁⟩, ⟨m₂, log₂⟩, hgives, hrests, hserved⟩ :=
    Supply.served_of_callAll calls hcalls
  obtain ⟨⟨g₁, rfl⟩, htaken, hle, rfl⟩ := hgives.taken_eq (Nat.zero_le _)
  rw [Nat.zero_add] at htaken
  subst htaken
  cases last with
  | none =>
      obtain ⟨-, hmemory⟩ := hrests
      cases hmemory
      exact ⟨values, none, [], by simp, hle, .inl ⟨rfl, .inr rfl⟩, rfl, hserved⟩
  | some z =>
      obtain ⟨g₂, -, ⟨hanswer, -, ⟨hfull, rfl⟩ | ⟨hlt, rfl⟩⟩ | ⟨_, hanswer, -⟩⟩ :=
        of_takeOne_ok hrests
      · cases hanswer
        exact ⟨values, some zero, [], by simp, hle, .inl ⟨rfl, .inl (by omega)⟩, rfl, hserved⟩
      · cases hanswer
        exact ⟨values, some zero, _, by simp, hle, .inr ⟨rfl, by omega⟩, rfl, hserved⟩
      · cases hanswer

/-- What a limit took from the generator before it when that failed. -/
theorem Pipe.taken_of_callAll_error {log : List (Asked α)}
    (h : (supply s.logged zero).callAll ((source g).limitTo n) calls (m, []) = .error e (m', log)) :
    ∃ (values : List α) (tail : List (Asked α)),
      log = values.flatMap takesOne ++ tail ∧ values.length < n.toNat ∧
      (tail = [⟨.hasNext, none⟩] ∨ tail = [⟨.hasNext, some (.flag true)⟩, ⟨.next, none⟩]) := by
  rw [limitTo, callAll_take, eff_bind_eq_error] at h
  obtain h | ⟨_, _, -, hpure⟩ := h
  · obtain ⟨values, ⟨taken₁, p₁⟩, ⟨m₁, log₁⟩, hgives, hfails, -, -⟩ :=
      Supply.failed_of_callAll calls h
    obtain ⟨⟨g₁, rfl⟩, htaken, -, rfl⟩ := hgives.taken_eq (Nat.zero_le _)
    obtain ⟨hlt, rfl | rfl⟩ := of_takeOne_error hfails
    · exact ⟨values, _, by simp, by omega, .inl rfl⟩
    · exact ⟨values, _, by simp, by omega, .inr rfl⟩
  · cases hpure

end Askings

/-- Generators ask as late as they can.

An advance function is asked once more than elements are taken at most.  It gives values, and then
its end at most once: asking ends with its first false answer.  What is taken before the end is the
values, in order.  Asking again and again whether there is an element asks it once at most.

A limit takes at most as many elements as it allows, each after a yes, and then leaves the generator
alone: once the limit is reached, or once the answer was no. -/
theorem asks_lazily :
    (∀ (advance : Eff σ (Bool × α)) (zero : α) (calls : List Call) (m : σ),
      (∀ replies w m' log,
        (Supply.ofAdvance (noted advance)).callAll none calls (m, []) =
          .ok (replies, w) (m', log) →
        ∃ (values : List α) (last : Option α),
          log = values.map (fun value => some (true, value)) ++
            last.toList.map (fun z => some (false, z)) ∧
          log.length ≤ min (nexts calls) values.length + 1 ∧
          replies = answers (last.getD zero) values calls ∧
          (last = none → nexts calls ≤ values.length ∧ .flag false ∉ replies)) ∧
      ∀ e m' log,
        (Supply.ofAdvance (noted advance)).callAll none calls (m, []) = .error e (m', log) →
        ∃ values : List α,
          log = values.map (fun value => some (true, value)) ++ [none] ∧
          values.length ≤ nexts calls) ∧
    (∀ (advance : Eff σ (Bool × α)) (w : Waiting α) (count : Nat) (m m' : σ)
        (log log' : List (Option (Bool × α))),
      (∃ answer, (Supply.ofAdvance (noted advance)).callAll w (List.replicate count .hasNext)
          (m, log) = .ok answer (m', log')) ∨
        (∃ e, (Supply.ofAdvance (noted advance)).callAll w (List.replicate count .hasNext)
          (m, log) = .error e (m', log')) →
      log'.length ≤ log.length + 1) ∧
    ∀ (s : Supply σ γ α) (zero : α) (n : Int) (g : γ) (calls : List Call) (m : σ),
      (∀ replies p m' log,
        (Pipe.supply s.logged zero).callAll ((Pipe.source g).limitTo n) calls (m, []) =
          .ok (replies, p) (m', log) →
        ∃ (values : List α) (tail : List (Asked α)),
          log = values.flatMap takesOne ++ tail ∧ values.length ≤ n.toNat ∧
          (tail = [] ∧ (values.length = n.toNat ∨ .flag false ∉ replies ∧
              nexts calls ≤ values.length) ∨
            tail = [⟨.hasNext, some (.flag false)⟩] ∧ values.length < n.toNat) ∧
          replies = answers zero values calls) ∧
      ∀ e m' log,
        (Pipe.supply s.logged zero).callAll ((Pipe.source g).limitTo n) calls (m, []) =
          .error e (m', log) →
        ∃ (values : List α) (tail : List (Asked α)),
          log = values.flatMap takesOne ++ tail ∧ values.length < n.toNat ∧
          (tail = [⟨.hasNext, none⟩] ∨
            tail = [⟨.hasNext, some (.flag true)⟩, ⟨.next, none⟩]) := by
  refine ⟨fun advance zero calls m => ⟨?_, ?_⟩, ?_, fun s zero n g calls m => ⟨?_, ?_⟩⟩
  · intro replies w m' log h
    obtain ⟨values, last, hlog, hserved⟩ := Supply.asked_of_callAll_ok h
    rw [List.nil_append] at hlog
    refine ⟨values, last, hlog, ?_, hserved.replies_eq zero, hserved.running⟩
    have hlen := hserved.length_le
    simpa [hlog, Waiting.held] using hlen
  · intro e m' log h
    obtain ⟨values, hlog, hlen⟩ := Supply.asked_of_callAll_error h
    exact ⟨values, by simpa using hlog, hlen⟩
  · intro advance w count m m' log log' h
    have hnexts : nexts (List.replicate count .hasNext) = 0 := by
      simp [nexts, List.count_replicate]
    obtain ⟨⟨replies, w'⟩, h⟩ | ⟨e, h⟩ := h
    · obtain ⟨values, last, rfl, hserved⟩ := Supply.asked_of_callAll_ok h
      have hlen := hserved.length_le
      simp [hnexts] at hlen ⊢
      omega
    · obtain ⟨values, rfl, hlen⟩ := Supply.asked_of_callAll_error h
      simp [hnexts] at hlen ⊢
      simp [hlen.2]
  · intro replies p m' log h
    obtain ⟨values, last, tail, hlog, hle, htail, hlast, hserved⟩ := Pipe.taken_of_callAll_ok h
    have hreplies : replies = answers zero values calls := by
      simpa [Waiting.held, Waiting.last?, hlast] using hserved.replies_eq zero
    refine ⟨values, tail, hlog, hle, ?_, hreplies⟩
    obtain ⟨rfl, hfull | rfl⟩ | hno := htail
    · exact .inl ⟨rfl, .inl hfull⟩
    · obtain ⟨hnexts, hflag⟩ := hserved.running rfl
      exact .inl ⟨rfl, .inr ⟨hflag, hnexts⟩⟩
    · exact .inr hno
  · intro e m' log h
    exact Pipe.taken_of_callAll_error h

end YieldMachine
