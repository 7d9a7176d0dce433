import YieldMachine.Proofs.Scheduler.Aging

/-!
# What a resumed thread stands at

A thread gains priority with every selection that passes it over, and loses what it gained when it
is selected.  A thread that another one hands over to is resumed without being selected, and keeps
what it gained.
-/

namespace YieldMachine.Scheduler

/-- How often each thread was passed over after a selection, given how often before it. -/
def passes (s : Scheduler) (passed : Nat → Nat) (i : Nat) : Nat :=
  if s.selectByPriority.1 = some i then 0
  else if s.Schedules i then passed i + 1
  else passed i

/-- The schedulers that calls and the steps of runs lead to, with how many selections passed each
thread over since it was made or selected. -/
inductive Passed : (Nat → Nat) → Scheduler → Prop where
  | empty : Passed (fun _ => 0) .empty
  | build {passed : Nat → Nat} {s s' : Scheduler} {slot id : String} {priority : Int}
      {script : Script} {primed : Bool} (before : Passed passed s)
      (fits : priority ≤ maxPriority)
      (built : s.build slot id priority script primed = .ok s') : Passed passed s'
  | add {passed : Nat → Nat} {s s' : Scheduler} {thread : Option Nat} (before : Passed passed s)
      (added : s.add thread = .ok s') : Passed passed s'
  | drop {passed : Nat → Nat} {s : Scheduler} (before : Passed passed s) (id : String) :
      Passed passed (s.drop id)
  | select {passed : Nat → Nat} {s : Scheduler} (before : Passed passed s) :
      Passed (s.passes passed) s.selectByPriority.2
  | prime {passed : Nat → Nat} {s : Scheduler} (before : Passed passed s) (i : Nat) :
      Passed passed (s.prime i)
  | take {passed : Nat → Nat} {s : Scheduler} (before : Passed passed s) (i : Nat) :
      Passed passed (s.take i)

/-- Whether a signal hands over to the given thread, which is scheduled. -/
def HandsOver (s : Scheduler) (signal : Signal) (i : Nat) : Prop :=
  signal.target?.bind s.member? = some i

section Steadiness

variable {s s' : Scheduler}

theorem feed_steady (s : Scheduler) (i : Nat) (next : Feed) :
    Steady s (s.update i ({ · with feed := next })) :=
  update_steady (f := ({ · with feed := next })) (fun _ => rfl) (fun _ => rfl) s i

theorem note_steady (s : Scheduler) (e : LogEntry) : Steady s (s.note e) :=
  ⟨fun _ => rfl, fun _ => rfl⟩

theorem spawn_steady (s : Scheduler) (slot : String) : Steady s (s.spawn slot) := by
  unfold spawn
  split
  · rename_i hadded
    exact add_steady hadded
  · exact note_steady s _

theorem spawnAll_steady (s : Scheduler) (slots : List String) : Steady s (s.spawnAll slots) :=
  List.foldlRecOn slots _ (.refl s) fun s' hs' slot _ => hs'.trans (spawn_steady s' slot)

theorem compute_steady (s : Scheduler) (i : Nat) : Steady s (s.compute i) := by
  unfold compute
  split
  · exact .refl s
  · rename_i t _
    dsimp only
    split
    · exact (spawnAll_steady s _).trans (feed_steady _ i _)
    · exact ((note_steady s (.computed t.id)).trans (spawnAll_steady _ _)).trans
        (feed_steady _ i _)

theorem prime_steady (s : Scheduler) (i : Nat) : Steady s (s.prime i) := by
  unfold prime
  split
  · split
    · exact compute_steady s i
    · exact .refl s
  · exact .refl s

theorem take_steady (s : Scheduler) (i : Nat) : Steady s (s.take i) := by
  unfold take
  split
  · exact .refl s
  · split
    · exact compute_steady s i
    · exact feed_steady s i _

/-- A new thread stands at the priority that it is made with. -/
theorem build_steady {slot id : String} {priority : Int} {script : Script} {primed : Bool}
    (h : s.build slot id priority script primed = .ok s') :
    priority ≠ maxPriority ∧ ∀ i,
      (i = s.threads.size → s'.base i = priority ∧ s'.standing i = priority) ∧
      (i ≠ s.threads.size → s'.base i = s.base i ∧ s'.standing i = s.standing i) := by
  unfold build at h
  split at h
  · cases h
  split at h
  · cases h
  rename_i hpriority
  refine ⟨hpriority, fun i => ?_⟩
  have hsteady : Steady
      { s with threads := s.threads.push ⟨id, priority, priority, 0, ⟨script, primed, none⟩⟩ }
      s' := by
    obtain rfl := Except.ok.inj h
    cases primed with
    | false => exact ⟨fun _ => rfl, fun _ => rfl⟩
    | true =>
        have hcomputed := compute_steady
          { s with threads := s.threads.push ⟨id, priority, priority, 0, ⟨script, true, none⟩⟩ }
          s.threads.size
        exact ⟨hcomputed.base, hcomputed.standing⟩
  rw [hsteady.base, hsteady.standing, base, standing, Array.getElem?_push]
  constructor
  · intro hi
    rw [if_pos hi]
    exact ⟨rfl, rfl⟩
  · intro hi
    rw [if_neg hi]
    exact ⟨rfl, rfl⟩

end Steadiness

section Counting

variable {passed : Nat → Nat} {s s' : Scheduler}

theorem Passed.reached (h : Passed passed s) : Reached s := by
  induction h with
  | empty => exact .empty
  | build _ fits built ih => exact ih.build fits built
  | add _ added ih => exact ih.add added
  | drop _ id ih => exact ih.drop id
  | select _ ih => exact ih.select
  | prime _ i ih => exact ih.prime i
  | take _ i ih => exact ih.take i

theorem Reached.exists_passed (h : Reached s) : ∃ passed, Passed passed s := by
  induction h with
  | empty => exact ⟨_, .empty⟩
  | build _ fits built ih => exact ih.imp fun _ before => before.build fits built
  | add _ added ih => exact ih.imp fun _ before => before.add added
  | drop _ id ih => exact ih.imp fun _ before => before.drop id
  | select _ ih =>
      obtain ⟨_, before⟩ := ih
      exact ⟨_, before.select⟩
  | prime _ i ih => exact ih.imp fun _ before => before.prime i
  | take _ i ih => exact ih.imp fun _ before => before.take i

/-- Whether every thread stands at its own priority and what it gained by being passed over. -/
def Gained (passed : Nat → Nat) (s : Scheduler) : Prop :=
  ∀ i, s.base i < maxPriority ∧ s.standing i = min (s.base i + passed i) maxPriority

theorem Gained.steady (h : Gained passed s) (hsteady : Steady s s') : Gained passed s' := by
  intro i
  rw [hsteady.base, hsteady.standing]
  exact h i

theorem Gained.build {slot id : String} {priority : Int} {script : Script} {primed : Bool}
    (h : Gained passed s) (hfits : priority ≤ maxPriority)
    (hbuilt : s.build slot id priority script primed = .ok s') : Gained passed s' := by
  obtain ⟨hpriority, hthreads⟩ := build_steady hbuilt
  intro i
  by_cases hi : i = s.threads.size
  · -- nothing that was not made was passed over
    have hnever := (h i).2
    have habsent : s.threads[i]? = none := by simp [hi]
    simp only [base, standing, habsent, Option.map_none, Option.getD_none] at hnever
    rw [((hthreads i).1 hi).1, ((hthreads i).1 hi).2]
    have : (0 : Int) < maxPriority := by decide
    omega
  · rw [((hthreads i).2 hi).1, ((hthreads i).2 hi).2]
    exact h i

theorem Gained.select (h : Gained passed s) (hranked : s.Ranked) :
    Gained (s.passes passed) s.selectByPriority.2 := by
  by_cases hmembers : s.members = []
  · have hnone : s.selectByPriority = (none, s) := by
      rw [selectByPriority, hranked.first?_eq_none.mpr hmembers]
    intro i
    have hout : ¬ s.Schedules i := fun hi => hi.members_ne_nil hmembers
    rw [passes, hnone, if_neg (Option.some_ne_none i).symm, if_neg hout]
    exact h i
  · obtain ⟨selected, s', hchoice⟩ := hranked.exists_selects hmembers
    have hselects := hranked.selects hchoice
    intro i
    rw [passes, hchoice, hselects.base]
    refine ⟨(h i).1, ?_⟩
    by_cases hi : i = selected
    · subst hi
      rw [if_pos rfl, hselects.falls]
      have := (h i).1
      omega
    · rw [if_neg fun heq => hi (Option.some.inj heq).symm]
      by_cases hmember : s.Schedules i
      · rw [if_pos hmember, hselects.gains i hmember hi, (h i).2]
        omega
      · rw [if_neg hmember, hselects.keeps i hmember]
        exact (h i).2

theorem Passed.gained (h : Passed passed s) : Gained passed s := by
  induction h with
  | empty =>
      intro i
      have : (0 : Int) < maxPriority := by decide
      simp [base, standing, Scheduler.empty]
      omega
  | build _ fits built ih => exact ih.build fits built
  | add _ added ih => exact ih.steady (add_steady added)
  | drop _ id ih => exact ih
  | select before ih => exact ih.select before.reached.ranked
  | prime _ i ih => exact ih.steady (prime_steady _ i)
  | take _ i ih => exact ih.steady (take_steady _ i)

/-- A thread that is resumed by priority stands at its own priority.  A thread that another one
hands over to keeps what it gained from the selections that passed it over, and so stands at its
own priority exactly if there were none. -/
theorem Passed.resumed_standing (h : Passed passed s) {sender : Option String} {signal : Signal}
    {i : Nat} (hnext : s.next sender signal = (some i, s')) :
    (¬ s.HandsOver signal i → s'.standing i = s'.base i) ∧
      (s.HandsOver signal i → s'.standing i = min (s'.base i + passed i) maxPriority ∧
        (s'.standing i = s'.base i ↔ passed i = 0)) := by
  have hselected : ∀ {t : Scheduler}, t.Ranked → t.selectByPriority = (some i, s') →
      s'.standing i = s'.base i := by
    intro t ht hchoice
    have hselects := ht.selects hchoice
    rw [hselects.falls, hselects.base]
  have hranked := h.reached.ranked
  cases signal with
  | quit => cases hnext
  | proceed => exact ⟨fun _ => hselected hranked hnext, nofun⟩
  | remove =>
      refine ⟨fun _ => ?_, nofun⟩
      cases sender with
      | none => exact hselected hranked hnext
      | some id => exact hselected (hranked.drop id) hnext
  | switch id =>
      unfold Scheduler.next at hnext
      dsimp only at hnext
      split at hnext
      · rename_i j hmember
        cases hnext
        have hgained := h.gained i
        refine ⟨fun hother => absurd hmember hother, fun _ => ⟨hgained.2, ?_⟩⟩
        omega
      · rename_i habsent
        refine ⟨fun _ => hselected hranked hnext, fun hhands => ?_⟩
        exact absurd (habsent.symm.trans hhands) nofun

end Counting

/-- Two threads of the same priority, of which the first one hands over to the other one. -/
def handing : Scheduler where
  threads := #[⟨"a", 0, 0, 0, ⟨.ofSignals [.switch "b", .proceed], false, none⟩⟩,
    ⟨"b", 0, 0, 1, ⟨.ofSignals [.proceed, .proceed], false, none⟩⟩]
  members := [("a", 0), ("b", 1)]
  slots := [("b", 1), ("a", 0)]
  added := 2
  log := #[]

/-- The two threads after the first one handed over. -/
def handed : Scheduler := (handing.selectByPriority.2.prime 0).take 0

theorem handed_resumed_standing :
    Passed (handing.passes fun _ => 0) handed ∧
      handed.next (some "a") (.switch "b") = (some 1, handed) ∧
      handed.HandsOver (.switch "b") 1 ∧ handed.standing 1 = 1 := by
  have hhanding : Passed (fun _ => 0) handing := calls_keep .empty .build .add
    [("a", 0, .ofSignals [.switch "b", .proceed]),
      ("b", 0, .ofSignals [.proceed, .proceed])] [0, 1] (by decide) rfl
  have hhanded : Passed (handing.passes fun _ => 0) handed := (hhanding.select.prime 0).take 0
  have hnext : handed.next (some "a") (.switch "b") = (some 1, handed) := rfl
  have hhands : handed.HandsOver (.switch "b") 1 := rfl
  refine ⟨hhanded, hnext, hhands, ?_⟩
  rw [((hhanded.resumed_standing hnext).2 hhands).1]
  decide

/-- A run of the two threads resumes the second one while it stands above its own priority. -/
theorem handing_resumes_above : Reached handing ∧
    ∃ s, turn (fun _ => false) .proceed none handing = (.goOn (.switch "b") (some "a"), s) ∧
      s.next (some "a") (.switch "b") = (some 1, s) ∧ s.standing 1 ≠ s.base 1 := by
  constructor
  · exact .of_calls [("a", 0, .ofSignals [.switch "b", .proceed]),
      ("b", 0, .ofSignals [.proceed, .proceed])] [0, 1] (by decide) rfl
  · exact ⟨handed, rfl, rfl, by decide⟩

end YieldMachine.Scheduler
