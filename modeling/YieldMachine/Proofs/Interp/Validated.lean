import YieldMachine.Proofs.Interp.Terminating

/-!
# Validated tables

Validation looks at the last operation of each state only.  In a table that passes it no state
hands control past its end, whatever its conditions and comparisons give, and no consumer that
runs the table is ever told that a state fell through.
-/

namespace YieldMachine

section Consumers

variable {σ γ α : Type} {I : σ → Prop} {s : Supply σ γ α}

theorem prime_unfallen {advance : γ → Eff σ ((Bool × α) × γ)} (w : Waiting α)
    (h : ∀ g, NeverFalls I (advance g)) (g : γ) : NeverFalls I (w.prime advance g) := by
  cases w with
  | none => exact h g
  | some answer => exact .pure _

theorem Pipe.answer_unfallen (zero : α) (limit : Int) (taken : Nat) (inner : Pipe γ α)
    {pull : Eff σ (Option α × Pipe γ α)} (h : NeverFalls I pull) :
    NeverFalls I (Pipe.answer zero limit taken inner pull) := by
  unfold Pipe.answer
  split
  · exact .pure _
  · refine h.bind fun answer => ?_
    split <;> exact .pure _

theorem Pipe.pull_unfallen (hs : s.NeverFalls I) (zero : α) (p : Pipe γ α) :
    NeverFalls I (p.pull s zero) := by
  induction p with
  | source g =>
      refine (hs g).1.bind fun answer => ?_
      split
      split
      · exact (hs _).2.bind fun _ => .pure _
      · exact .pure _
  | take limit taken waiting inner ih =>
      exact (prime_unfallen waiting (fun _ => answer_unfallen zero limit taken inner ih) _).bind
        fun _ => .pure _

theorem Pipe.supply_unfallen (hs : s.NeverFalls I) (zero : α) :
    (Pipe.supply s zero).NeverFalls I := by
  intro p
  cases p with
  | source g => exact ⟨(hs g).1.bind fun _ => .pure _, (hs g).2.bind fun _ => .pure _⟩
  | take limit taken waiting inner =>
      have hanswer := answer_unfallen zero limit taken inner (inner.pull_unfallen hs zero)
      exact ⟨(prime_unfallen waiting (fun _ => hanswer) _).bind fun _ => .pure _,
        (prime_unfallen waiting (fun _ => hanswer) _).bind fun _ => .pure _⟩

theorem drain_unfallen (hs : s.NeverFalls I) (n : Nat) (acc : Array α) (g : γ) :
    NeverFalls I (s.drain n acc g) := by
  induction n generalizing acc g with
  | zero => exact .throw rfl
  | succ n ih =>
      refine (hs g).1.bind fun answer => ?_
      split
      split
      · exact (hs _).2.bind fun _ => ih _ _
      · exact .pure _

theorem firstOf_unfallen (hs : s.NeverFalls I) (count : Int) (n : Nat) (acc : Array α)
    (g : γ) : NeverFalls I (s.firstOf count n acc g) := by
  induction n generalizing acc g with
  | zero => exact .throw rfl
  | succ n ih =>
      refine (hs g).1.bind fun answer => ?_
      split
      split
      · refine (hs _).2.bind ?_
        rintro ⟨value, g'⟩
        dsimp only
        split
        · exact .pure _
        · exact ih _ _
      · exact .pure _

theorem Request.answer_unfallen (hs : s.NeverFalls I) (zero : α) (n : Nat) (p : Pipe γ α)
    (r : Request) : NeverFalls I (r.answer s zero n p) := by
  have hpipe := Pipe.supply_unfallen hs zero
  cases r with
  | hasNext => exact (hpipe p).1.bind fun _ => .pure _
  | next => exact (hpipe p).2.bind fun _ => .pure _
  | collect => exact (drain_unfallen hpipe n #[] p).bind fun _ => .pure _
  | loop count => exact (firstOf_unfallen hpipe count n #[] p).bind fun _ => .pure _
  | limit count => exact .pure _
  | collectFirst count =>
      exact (drain_unfallen hpipe n #[] (p.limitTo count)).bind fun _ => .pure _

/-- A consumer of a generator that never falls through never sees a fall. -/
theorem answerAll_unfallen (hs : s.NeverFalls I) (zero : α) (n : Nat) (p : Pipe γ α)
    (rs : List Request) : NeverFalls I (answerAll s zero n p rs) := by
  induction rs generalizing p with
  | nil => exact .pure _
  | cons r rs ih =>
      exact (r.answer_unfallen hs zero n p).bind fun _ => (ih _).bind fun _ => .pure _

end Consumers

theorem terminate_of_validate {name : String} {states : List (List Op)}
    (h : validate name states = .ok ()) : ∀ ops ∈ states, opsTerminate ops = true := by
  unfold validate at h
  split at h
  · cases h
  · rename_i hnone
    exact terminate_of_firstIncomplete hnone

/-- In a table that passes validation no path leads to the end of a state, however its
conditions and comparisons turn out, so a run of its operations that gives a result gives a
transfer.  A consumer that starts the table from any arguments and makes any requests of it is
never told that a state fell through. -/
theorem Holder.validated_never_falls (h : Holder) (hvalid : validate h.name h.states = .ok ()) :
    (∀ ops ∈ h.states, ¬ OpsPass ops ∧
      ∀ (s : Session) (states : Array (List Op)) (fuel : Nat) (m m' : Memory)
        (result : Option (Bounce TableStep Value)),
        runOps s states fuel ops m = .ok result m' → ∃ b, result = some b) ∧
    ∀ (host : Host) (fuel depth : Nat) (args : Bindings) (rs : List Request),
      NeverFalls Heap.Terminating (do
        let id ← h.start host fuel depth args
        answerAll (heapSupply host fuel depth) .nil fuel (.source id) rs) := by
  have hterm := terminate_of_validate hvalid
  constructor
  · intro ops hops
    refine ⟨fun hpass => ?_, fun s states fuel m m' result hrun => ?_⟩
    · have hfalse := hpass.terminate_eq_false
      rw [hterm ops hops] at hfalse
      cases hfalse
    · exact Option.isSome_iff_exists.mp (runOps_isSome (hterm ops hops) hrun)
  · intro host fuel depth args rs
    exact (Holder.start_unfallen hterm host fuel depth args).bind fun id =>
      answerAll_unfallen (heapSupply_unfallen host fuel depth) .nil fuel (.source id) rs

/-- A table given by hand, whose only state is a dispatch with its default in the middle, two
arms that never match, and a choice within an arm. -/
def branching : Holder where
  name := "branching"
  recv := "__g"
  runtime := "yieldgen"
  elem := .name "int"
  typeParams := .absent
  fields := [("n", .name "int")]
  params := ["n"]
  types := []
  states :=
    [[.when (.name "true") [],
      .dispatch (.sel (.name "__g") "n")
        [.case [] [.finish],
          .default
            [.choose (.binary .lt (.sel (.name "__g") "n") (.lit .int "3"))
              [.exec (.incDec true (.sel (.name "__g") "n")), .jump 0 (.sel (.name "__g") "n")]
              [.finish]],
          .case [.lit .int "0", .lit .int "0"] [.jump 0 .missing],
          .case [.lit .int "0"] [.finish]]]]

theorem branching_never_falls :
    validate branching.name branching.states = .ok () ∧
    (∀ ops ∈ branching.states, ¬ OpsPass ops ∧
      ∀ (s : Session) (states : Array (List Op)) (fuel : Nat) (m m' : Memory)
        (result : Option (Bounce TableStep Value)),
        runOps s states fuel ops m = .ok result m' → ∃ b, result = some b) ∧
    ∀ (host : Host) (fuel depth : Nat) (args : Bindings) (rs : List Request),
      NeverFalls Heap.Terminating (do
        let id ← branching.start host fuel depth args
        answerAll (heapSupply host fuel depth) .nil fuel (.source id) rs) := by
  have hvalid : validate branching.name branching.states = .ok () := by decide
  exact ⟨hvalid, Holder.validated_never_falls branching hvalid⟩

end YieldMachine
