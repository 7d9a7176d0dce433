import YieldMachine.Proofs.Scheduler.Feeds

/-!
# Turns of a run

A turn that goes on takes one signal from one member, or drops one member that is at its
end.  Both use up some of what the scheduler can still do, so that every run ends.  `Runs`
lists what the turns of a run did, one after the other.
-/

namespace YieldMachine.Scheduler

/-- What happens to the threads of a scheduler. -/
inductive Happening where
  | added (thread : Nat)
  | took (thread : Nat) (signal : Signal)
  | ended (thread : Nat)
  /-- a run is over -/
  | returned (ending : Ending)
  deriving DecidableEq

/-- The signal that a turn acts on, given what the turn before it did. -/
def pending : Option Happening → Signal
  | some (.took _ signal) => signal
  | _ => .proceed

/-- The identifier of the thread whose signal a turn acts on. -/
def sender? (s : Scheduler) : Option Happening → Option String
  | some (.took i _) => s.ids[i]?
  | _ => none

/-- The members that are left once the turn before is acted on: a thread that sent its
removal is gone. -/
def kept (s : Scheduler) : Option Happening → List (String × Nat)
  | some (.took i .remove) => s.members.filter (·.2 != i)
  | _ => s.members

/-- The turn after the one that did `last`. -/
def turnAfter (cancelled : Scheduler → Bool) (last : Option Happening) (s : Scheduler) :
    Turn × Scheduler :=
  turn cancelled (pending last) (s.sender? last) s

/-- What a turn that goes on does, while threads may be added: a signal of a member is handed
over, or a member at its end is dropped.  All other signals stay where they are. -/
inductive Turned (s : Scheduler) (last : Option Happening) :
    List Nat → Happening → Scheduler → Prop where
  | took {i : Nat} {signal : Signal} {fresh : List (String × Nat)} {s' : Scheduler}
      (member : i ∈ (s.kept last).map Prod.snd)
      (taken : s.signals i = signal :: s'.signals i)
      (others : ∀ j, j ≠ i → s'.signals j = s.signals j)
      (members : s'.members = s.kept last ++ fresh) :
      Turned s last (fresh.map Prod.snd) (.took i signal) s'
  | ended {i : Nat} {fresh : List (String × Nat)} {s' : Scheduler}
      (member : i ∈ (s.kept last).map Prod.snd)
      (exhausted : s.signals i = [])
      (others : ∀ j, s'.signals j = s.signals j)
      (members : s'.members = (s.kept last).filter (·.2 != i) ++ fresh) :
      Turned s last (fresh.map Prod.snd) (.ended i) s'

/-- What a turn that does not go on does. -/
inductive Stopped (cancelled : Scheduler → Bool) (s : Scheduler) (last : Option Happening) :
    Ending → Scheduler → Prop where
  | empty (members : s.members = []) : Stopped cancelled s last .finished s
  | cancelled (asked : cancelled s = true) : Stopped cancelled s last .cancelled s
  | quit {i : Nat} (sent : last = some (.took i .quit)) : Stopped cancelled s last .finished s
  | unmanned {s' : Scheduler} (left : s.kept last = []) (members : s'.members = [])
      (signals : ∀ j, s'.signals j = s.signals j) : Stopped cancelled s last .finished s'

/-- Whether the thread that the last turn took a signal from is still a member. -/
def Follows (s : Scheduler) (last : Option Happening) : Prop :=
  ∀ i signal, last = some (.took i signal) → s.Schedules i

section Keeping

variable {s s' : Scheduler} {last : Option Happening}

theorem Sound.of_sublist (h : s.Sound) (hmembers : s'.members.Sublist s.members)
    (halike : Alike s s') : s'.Sound where
  named m hm := by
    rw [halike.ids]
    exact h.named m (hmembers.subset hm)
  distinct := h.distinct.sublist (hmembers.map Prod.fst)
  settled f hf := h.settled f (halike.feeds ▸ hf)

theorem Sound.join (h : s.Sound) {fresh : List (String × Nat)} (hjoins : s.Joins fresh)
    (hmembers : s'.members = s.members ++ fresh) (hids : s'.ids = s.ids)
    (hsettled : ∀ f ∈ s'.feeds, f.Settled) : s'.Sound where
  named m hm := by
    rw [hmembers, List.mem_append] at hm
    rw [hids]
    exact hm.elim (h.named m) (hjoins.named m)
  distinct := by
    rw [hmembers, List.map_append]
    refine h.distinct.append hjoins.distinct ?_
    intro id hold hnew
    obtain ⟨m, hm, rfl⟩ := List.mem_map.mp hnew
    exact hjoins.fresh m hm hold
  settled := hsettled

/-- Members that joined after a thread are others than it. -/
theorem Sound.filter_fresh (h : s.Sound) {members fresh : List (String × Nat)} {id : String}
    {i : Nat} (hmembers : s.members = members ++ fresh) (hi : (id, i) ∈ members) :
    fresh.filter (·.2 != i) = fresh := by
  rw [List.filter_eq_self]
  intro m hm
  rw [bne_iff_ne]
  rintro rfl
  have hdistinct := h.distinct
  rw [hmembers, List.map_append, List.nodup_append] at hdistinct
  have hname : m.1 = id := Option.some.inj
    ((h.named m (hmembers ▸ List.mem_append_right _ hm)).symm.trans
      (h.named _ (hmembers ▸ List.mem_append_left _ hi)))
  exact hdistinct.2.2 id (List.mem_map_of_mem hi) m.1 (List.mem_map_of_mem hm) hname.symm

theorem Sound.settled_set (h : s.Sound) {i : Nat} {f : Feed} (hf : f.Settled)
    (hfeeds : s'.feeds = s.feeds.set i f) : ∀ g ∈ s'.feeds, g.Settled := by
  intro g hg
  rw [hfeeds] at hg
  obtain hg | rfl := List.mem_or_eq_of_mem_set hg
  · exact h.settled g hg
  · exact hf

theorem sum_set {f : Feed} {i : Nat} (feeds : List Feed) (h : feeds[i]? = some f) (g : Feed) :
    ((feeds.set i g).map Feed.weight).sum + f.weight = (feeds.map Feed.weight).sum + g.weight := by
  induction feeds generalizing i with
  | nil => simp at h
  | cons a feeds ih =>
      cases i with
      | zero =>
          obtain rfl : a = f := by simpa using h
          simp only [List.set_cons_zero, List.map_cons, List.sum_cons]
          omega
      | succ i =>
          have := ih (i := i) (by simpa using h)
          simp only [List.set_cons_succ, List.map_cons, List.sum_cons]
          omega

theorem signals_set_self {f : Feed} {i : Nat} (hi : i < s.feeds.length)
    (hfeeds : s'.feeds = s.feeds.set i f) : s'.signals i = f.signals := by
  simp [signals, hfeeds, hi]

theorem signals_set_of_ne {f : Feed} {i j : Nat} (hj : j ≠ i)
    (hfeeds : s'.feeds = s.feeds.set i f) : s'.signals j = s.signals j := by
  simp [signals, hfeeds, List.getElem?_set_ne hj.symm]

theorem kept_sublist (s : Scheduler) (last : Option Happening) :
    (s.kept last).Sublist s.members := by
  unfold kept
  split
  · exact List.filter_sublist
  · exact List.Sublist.refl _

/-- The decision of a turn: who is left, and which of them goes on. -/
structure Decided (s : Scheduler) (last : Option Happening) (result : Option Nat × Scheduler) :
    Prop where
  alike : Alike s result.2
  members : result.2.members = s.kept last
  chosen : ∀ i, result.1 = some i → i ∈ (s.kept last).map Prod.snd
  unchosen : result.1 = none →
    s.kept last = [] ∨ (∃ i, last = some (.took i .quit)) ∧ result.2 = s

/-- A choice among the members after one may have been dropped. -/
theorem Picks.decided {s₁ : Scheduler} {result : Option Nat × Scheduler} (h : s₁.Picks result)
    (halike : Alike s s₁) (hmembers : s₁.members = s.kept last) : s.Decided last result where
  alike := halike.trans h.alike
  members := h.members.trans hmembers
  chosen i hi := hmembers ▸ h.chosen i hi
  unchosen hnone := .inl (hmembers.symm.trans (h.unchosen hnone))

theorem Sound.next_decided (hs : s.Sound) (hlast : s.Follows last) :
    s.Decided last (s.next (s.sender? last) (pending last)) := by
  have hselect : s.members = s.kept last → s.Decided last s.selectByPriority :=
    hs.selectByPriority_picks.decided (.refl s)
  match last, hselect, hlast with
  | none, hselect, _ => exact hselect rfl
  | some (.added _), hselect, _ => exact hselect rfl
  | some (.ended _), hselect, _ => exact hselect rfl
  | some (.returned _), hselect, _ => exact hselect rfl
  | some (.took i .proceed), hselect, _ => exact hselect rfl
  | some (.took i .quit), _, _ =>
      exact ⟨.refl s, rfl, by simp [next, pending], fun _ => .inr ⟨⟨i, rfl⟩, rfl⟩⟩
  | some (.took i .remove), _, hlast =>
      -- the sender is a member, so that no other thread goes by its identifier
      obtain ⟨id, hmem, hid⟩ := hs.exists_name (hlast i .remove rfl)
      have hdrop : (s.drop id).members = s.members.filter (·.2 != i) := hs.filter_name hmem
      have hsound : (s.drop id).Sound := hs.of_sublist (by
        rw [hdrop]
        exact List.filter_sublist) ⟨rfl, rfl⟩
      have hnext : s.next (s.sender? (some (.took i .remove))) (pending (some (.took i .remove)))
          = (s.drop id).selectByPriority := by
        simp [next, sender?, pending, hid]
      rw [hnext]
      exact hsound.selectByPriority_picks.decided ⟨rfl, rfl⟩ hdrop
  | some (.took i (.switch id)), hselect, _ =>
      simp only [next, pending]
      cases hmember : s.member? id with
      | none => exact hselect rfl
      | some j =>
          refine ⟨.refl s, rfl, ?_, by simp⟩
          rintro _ ⟨⟩
          obtain ⟨before, after, hmembers, -⟩ := List.lookup_eq_some_iff.mp hmember
          have hmem : (id, j) ∈ s.members := by simp [hmembers]
          exact List.mem_map_of_mem hmem

end Keeping

section OneTurn

variable {s : Scheduler} {last : Option Happening} {cancelled : Scheduler → Bool} {i : Nat}

/-- What a member does once it is chosen: it hands over a signal or is at its end. -/
inductive Chosen (s : Scheduler) (i : Nat) : Prop where
  | took (signal : Signal) (fresh : List (String × Nat))
      (ahead : (s.prime i).ahead? i = some signal)
      (taken : s.signals i = signal :: ((s.prime i).take i).signals i)
      (others : ∀ j, j ≠ i → ((s.prime i).take i).signals j = s.signals j)
      (members : ((s.prime i).take i).members = s.members ++ fresh)
      (sound : ((s.prime i).take i).Sound)
      (ids : ((s.prime i).take i).ids = s.ids)
      (weight : ((s.prime i).take i).weight < s.weight)
  | ended (fresh : List (String × Nat))
      (ahead : (s.prime i).ahead? i = none)
      (exhausted : s.signals i = [])
      (others : ∀ j, (s.prime i).signals j = s.signals j)
      (members : (s.prime i).members = s.members ++ fresh)
      (sound : (s.prime i).Sound)
      (weight : (s.prime i).weight ≤ s.weight)

theorem Sound.ids_prime (hs : s.Sound) (hi : s.Schedules i) : (s.prime i).ids = s.ids := by
  obtain ⟨t, ht, -⟩ := hs.exists_thread hi
  have hf : s.feeds[i]? = some t.feed := by rw [feeds_getElem?, ht]; rfl
  obtain ⟨-, -, -, -, hids, -⟩ := prime_spec hf
  exact hids

theorem Sound.chosen (hs : s.Sound) (hi : s.Schedules i) : s.Chosen i := by
  obtain ⟨t, ht, -⟩ := hs.exists_thread hi
  have hf : s.feeds[i]? = some t.feed := by rw [feeds_getElem?, ht]; rfl
  have hlt : i < s.feeds.length := (List.getElem?_eq_some_iff.mp hf).1
  have hsettled := hs.settled _ (List.mem_of_getElem? hf)
  obtain ⟨fresh₁, hjoins₁, hmembers₁, hfeeds₁, hids₁, hweight₁⟩ := prime_spec hf
  have hf₁ : (s.prime i).feeds[i]? = some t.feed.asked := by simp [hfeeds₁, hlt]
  have hs₁ := hs.join hjoins₁ hmembers₁ hids₁ (hs.settled_set hsettled.asked hfeeds₁)
  have hsum₁ := sum_set s.feeds hf t.feed.asked
  have hahead : (s.prime i).ahead? i = t.feed.asked.ahead.join := by
    rw [feeds_getElem?, Option.map_eq_some_iff] at hf₁
    obtain ⟨t₁, ht₁, hfeed₁⟩ := hf₁
    simp [ahead?, ht₁, hfeed₁]
  have hsignals : s.signals i = t.feed.signals := by simp [signals, hf]
  have hsignals₁ : (s.prime i).signals i = t.feed.signals :=
    (signals_set_self hlt hfeeds₁).trans t.feed.signals_asked
  cases hjoin : t.feed.asked.ahead.join with
  | none =>
      have hend := Feed.signals_of_ended hsettled hjoin
      refine .ended fresh₁ (hahead.trans hjoin) (hsignals.trans hend) ?_ hmembers₁ hs₁ ?_
      · intro j
        by_cases hj : j = i
        · rw [hj, hsignals, hsignals₁]
        · exact signals_set_of_ne hj hfeeds₁
      · simp only [weight, length, hmembers₁, hfeeds₁, List.length_append]
        omega
  | some signal =>
      obtain ⟨fresh₂, hjoins₂, hmembers₂, hfeeds₂, hids₂, hweight₂⟩ :=
        take_spec hf₁ (by rw [hjoin]; rfl)
      have hsum₂ := sum_set (s.prime i).feeds hf₁ t.feed.asked.handed
      have hlt₁ : i < (s.prime i).feeds.length := (List.getElem?_eq_some_iff.mp hf₁).1
      refine .took signal (fresh₁ ++ fresh₂) (hahead.trans hjoin) ?_ ?_ ?_ ?_ ?_ ?_
      · rw [hsignals, signals_set_self hlt₁ hfeeds₂, ← t.feed.signals_asked]
        exact Feed.signals_of_ahead hjoin
      · intro j hj
        rw [signals_set_of_ne hj hfeeds₂, signals_set_of_ne hj hfeeds₁]
      · rw [hmembers₂, hmembers₁, List.append_assoc]
      · exact hs₁.join hjoins₂ hmembers₂ hids₂
          (hs₁.settled_set t.feed.asked.settled_handed hfeeds₂)
      · exact hids₂.trans hids₁
      · simp only [weight, length, hmembers₂, hmembers₁, hfeeds₂, List.length_append]
        rw [hfeeds₁] at hsum₂ ⊢
        omega

section Choice

variable {s₁ : Scheduler} {signal : Signal} {sender : Option String}

theorem turn_unchosen (hmembers : s.members ≠ []) (hgo : cancelled s = false)
    (hnext : s.next sender signal = (none, s₁)) :
    turn cancelled signal sender s = (.ended .finished, s₁) := by
  simp [turn, hmembers, hgo, hnext]

theorem turn_took {taken : Signal} {id : String} (hmembers : s.members ≠ [])
    (hgo : cancelled s = false) (hnext : s.next sender signal = (some i, s₁))
    (hid : (s₁.prime i).ids[i]? = some id) (hahead : (s₁.prime i).ahead? i = some taken) :
    turn cancelled signal sender s = (.goOn taken (some id), (s₁.prime i).take i) := by
  rw [ids_getElem?] at hid
  simp [turn, hmembers, hgo, hnext, hahead, hid]

theorem turn_ended {id : String} (hmembers : s.members ≠ []) (hgo : cancelled s = false)
    (hnext : s.next sender signal = (some i, s₁)) (hid : (s₁.prime i).ids[i]? = some id)
    (hahead : (s₁.prime i).ahead? i = none) :
    turn cancelled signal sender s = (.goOn .proceed none, (s₁.prime i).drop id) := by
  rw [ids_getElem?] at hid
  simp [turn, hmembers, hgo, hnext, hahead, hid]

end Choice

/-- What the turn after `last` does to a sound scheduler: it ends the run, or goes on and
uses up some of what can still be done. -/
theorem Sound.turnAfter_cases (hs : s.Sound) (hlast : s.Follows last)
    (cancelled : Scheduler → Bool) :
    (∃ ending s', s.turnAfter cancelled last = (.ended ending, s') ∧
        Stopped cancelled s last ending s' ∧ s'.Sound) ∨
      ∃ added what s', s.turnAfter cancelled last =
          (.goOn (pending (some what)) (s'.sender? (some what)), s') ∧
        s.Turned last added what s' ∧ s'.Sound ∧ s'.Follows (some what) ∧
        s'.weight < s.weight := by
  by_cases hempty : s.members = []
  · refine .inl ⟨.finished, s, ?_, .empty hempty, hs⟩
    simp [turnAfter, turn, hempty]
  by_cases hcancelled : cancelled s = true
  · refine .inl ⟨.cancelled, s, ?_, .cancelled hcancelled, hs⟩
    simp [turnAfter, turn, hempty, hcancelled]
  rw [Bool.not_eq_true] at hcancelled
  obtain ⟨halike, hmembers, hchosen, hunchosen⟩ := hs.next_decided hlast
  cases hnext : s.next (s.sender? last) (pending last) with
  | mk choice s₁ =>
      rw [hnext] at halike hmembers hchosen hunchosen
      have hs₁ : s₁.Sound := hs.of_sublist (hmembers ▸ s.kept_sublist last) halike
      have hweight : s₁.weight ≤ s.weight := by
        have := (hmembers ▸ s.kept_sublist last : s₁.members.Sublist s.members).length_le
        simpa [weight, length, halike.feeds] using this
      cases choice with
      | none =>
          refine .inl ⟨.finished, s₁, turn_unchosen hempty hcancelled hnext, ?_, hs₁⟩
          obtain hkept | ⟨⟨i, hquit⟩, rfl⟩ := hunchosen rfl
          · exact .unmanned hkept (hmembers.trans hkept) halike.signals
          · exact .quit hquit
      | some i =>
          right
          have hi : s₁.Schedules i := by
            rw [Schedules, hmembers]
            exact hchosen i rfl
          obtain ⟨id, hmem, hid⟩ := hs₁.exists_name hi
          have hprime : (s₁.prime i).ids[i]? = some id := by rw [hs₁.ids_prime hi, hid]
          cases hs₁.chosen hi with
          | took signal fresh hahead htaken hothers hmembers' hsound hids hweight' =>
              have hmember' : ((s₁.prime i).take i).Schedules i := by
                rw [Schedules, hmembers', List.map_append]
                exact List.mem_append_left _ hi
              refine ⟨fresh.map Prod.snd, .took i signal, (s₁.prime i).take i, ?_, ?_, hsound, ?_,
                by omega⟩
              · rw [turnAfter, turn_took hempty hcancelled hnext hprime hahead]
                simp [pending, sender?, hids, hid]
              · refine .took (hchosen i rfl) ?_ ?_ ?_
                · rw [← halike.signals, htaken]
                · intro j hj
                  rw [hothers j hj, halike.signals]
                · rw [hmembers', hmembers]
              · rintro j taken ⟨⟩
                exact hmember'
          | ended fresh hahead hexhausted hothers hmembers' hsound hweight' =>
              have hmem' : (id, i) ∈ (s₁.prime i).members :=
                hmembers' ▸ List.mem_append_left _ hmem
              have hdrop : ((s₁.prime i).drop id).members =
                  (s.kept last).filter (·.2 != i) ++ fresh := by
                rw [← hmembers, ← hsound.filter_fresh hmembers' hmem, ← List.filter_append,
                  ← hmembers']
                exact hsound.filter_name hmem'
              have hfewer : ((s₁.prime i).drop id).members.length < (s₁.prime i).members.length :=
                List.length_filter_lt_length_iff_exists.mpr ⟨_, hmem', by simp⟩
              refine ⟨fresh.map Prod.snd, .ended i, (s₁.prime i).drop id, ?_, ?_, ?_, ?_, ?_⟩
              · exact turn_ended hempty hcancelled hnext hprime hahead
              · refine .ended (hchosen i rfl) ?_ ?_ hdrop
                · rw [← halike.signals, hexhausted]
                · exact fun j => (hothers j).trans (halike.signals j)
              · exact hsound.of_sublist List.filter_sublist ⟨rfl, rfl⟩
              · rintro j taken ⟨⟩
              · have : ((s₁.prime i).drop id).weight < (s₁.prime i).weight :=
                  Nat.add_lt_add_left hfewer _
                omega

end OneTurn

/-- The turns of a run after the one that did `last`: what they did, how the run ended and
what it left. -/
inductive Runs (cancelled : Scheduler → Bool) :
    Option Happening → Scheduler → List Happening → Ending → Scheduler → Prop where
  | stop {last : Option Happening} {s s' : Scheduler} {ending : Ending}
      (turn : s.turnAfter cancelled last = (.ended ending, s'))
      (stopped : Stopped cancelled s last ending s') :
      Runs cancelled last s [] ending s'
  | goOn {last : Option Happening} {s s₁ s' : Scheduler} {added : List Nat} {what : Happening}
      {happenings : List Happening} {ending : Ending}
      (turn : s.turnAfter cancelled last =
        (.goOn (pending (some what)) (s₁.sender? (some what)), s₁))
      (turned : s.Turned last added what s₁)
      (rest : Runs cancelled (some what) s₁ happenings ending s') :
      Runs cancelled last s (added.map .added ++ what :: happenings) ending s'

/-- The signal that was taken from a thread. -/
def Happening.takenFrom (i : Nat) : Happening → Option Signal
  | .took j signal => if j = i then some signal else none
  | _ => none

/-- Whether a thread is resumed: it hands over a signal or finds that it is at its end. -/
def Happening.Resumes (i : Nat) : Happening → Prop
  | .took j _ => j = i
  | .ended j => j = i
  | _ => False

section WholeRun

variable {cancelled : Scheduler → Bool} {last : Option Happening} {s s' : Scheduler}
  {happenings : List Happening} {ending : Ending}

/-- The turns after a state can be taken to their end. -/
theorem Sound.exists_runs (hs : s.Sound) (hlast : s.Follows last) (cancelled : Scheduler → Bool) :
    ∃ happenings ending s', Runs cancelled last s happenings ending s' := by
  -- each turn that goes on uses up some weight
  induction hweight : s.weight using Nat.strongRecOn generalizing s last with
  | ind n ih =>
      obtain ⟨ending, s', hturn, hstopped, -⟩ |
        ⟨added, what, s₁, hturn, hturned, hs₁, hnext, hlt⟩ :=
        hs.turnAfter_cases hlast cancelled
      · exact ⟨[], ending, s', .stop hturn hstopped⟩
      · obtain ⟨happenings, ending, s', hruns⟩ := ih s₁.weight (hweight ▸ hlt) hs₁ hnext rfl
        exact ⟨_, ending, s', .goOn hturn hturned hruns⟩

/-- Turns are taken in the order in which they are listed. -/
theorem Runs.turns_eq (h : Runs cancelled last s happenings ending s') :
    ∃ bound, ∀ fuel ≥ bound,
      turns cancelled fuel (pending last) (s.sender? last) s = (ending, s') := by
  induction h with
  | @stop last s s' ending hturn _ =>
      rw [turnAfter] at hturn
      refine ⟨1, fun fuel hfuel => ?_⟩
      obtain ⟨fuel, rfl⟩ := Nat.exists_eq_add_of_le hfuel
      rw [Nat.add_comm, turns, hturn]
  | @goOn last s s₁ s' added what happenings ending hturn _ _ ih =>
      rw [turnAfter] at hturn
      obtain ⟨bound, hbound⟩ := ih
      refine ⟨bound + 1, fun fuel hfuel => ?_⟩
      obtain ⟨fuel, rfl⟩ := Nat.exists_eq_add_of_le hfuel
      rw [Nat.add_right_comm, turns, hturn]
      exact hbound _ (Nat.le_add_right ..)

theorem Runs.run_eq (h : Runs cancelled none s happenings ending s') :
    ∃ bound, ∀ fuel ≥ bound, s.run cancelled fuel = (ending, s') :=
  h.turns_eq

theorem Turned.follows {added : List Nat} {what : Happening} (h : s.Turned last added what s') :
    s'.Follows (some what) := by
  rintro i signal hwhat
  obtain rfl := Option.some.inj hwhat
  cases h with
  | took hmember _ _ hmembers =>
      rw [Schedules, hmembers, List.map_append]
      exact List.mem_append_left _ hmember

theorem Runs.sound (h : Runs cancelled last s happenings ending s') (hs : s.Sound)
    (hlast : s.Follows last) : s'.Sound := by
  induction h with
  | stop hturn _ =>
      obtain ⟨_, _, hturn', -, hs'⟩ | ⟨_, _, _, hturn', -⟩ := hs.turnAfter_cases hlast cancelled
      · rw [hturn] at hturn'
        cases hturn'
        exact hs'
      · rw [hturn] at hturn'
        cases hturn'
  | goOn hturn hturned _ ih =>
      refine ih ?_ hturned.follows
      obtain ⟨_, _, hturn', -⟩ | ⟨_, _, _, hturn', -, hs₁, -⟩ := hs.turnAfter_cases hlast cancelled
      · rw [hturn] at hturn'
        cases hturn'
      · rw [hturn, Prod.mk.injEq] at hturn'
        exact hturn'.2 ▸ hs₁

/-- An element of two lists in a row stands in the first or in the second one. -/
theorem split_append {α : Type} {old new before after : List α} {a : α}
    (h : old ++ new = before ++ a :: after) :
    (∃ middle, old = before ++ a :: middle ∧ after = middle ++ new) ∨
      ∃ middle, before = old ++ middle ∧ new = middle ++ a :: after := by
  obtain ⟨middle, hbefore, hnew⟩ | ⟨middle, hold, hnew⟩ := List.append_eq_append_iff.mp h
  · exact .inr ⟨middle, hbefore, hnew⟩
  · cases middle with
    | nil => exact .inr ⟨[], by simpa using hold.symm, hnew.symm⟩
    | cons _ middle =>
        obtain ⟨rfl, hafter⟩ := List.cons.inj hnew
        exact .inl ⟨middle, hold, hafter⟩

/-- Where a happening that is no addition stands among those of a turn and of the turns
after it. -/
theorem split_turn {added : List Nat} {what e : Happening} {before after : List Happening}
    (hsplit : added.map .added ++ what :: happenings = before ++ e :: after)
    (he : ∀ j, e ≠ .added j) :
    (what = e ∧ happenings = after) ∨
      ∃ middle,
        before = added.map .added ++ what :: middle ∧ happenings = middle ++ e :: after := by
  obtain ⟨middle, hmap, -⟩ | ⟨middle, rfl, htail⟩ := split_append hsplit
  · have hmem : e ∈ added.map Happening.added := by simp [hmap]
    obtain ⟨j, -, rfl⟩ := List.mem_map.mp hmem
    exact (he j rfl).elim
  · cases middle with
    | nil => exact .inl (List.cons.inj htail)
    | cons _ middle =>
        obtain ⟨rfl, hrest⟩ := List.cons.inj htail
        exact .inr ⟨middle, rfl, hrest⟩

/-- The turns after one that took a signal of a thread, which is still a member then. -/
theorem Runs.after_took (h : Runs cancelled last s happenings ending s') {i : Nat}
    {signal : Signal} {before after : List Happening}
    (hsplit : happenings = before ++ .took i signal :: after) :
    ∃ s₁, Runs cancelled (some (.took i signal)) s₁ after ending s' ∧ s₁.Schedules i := by
  induction h generalizing before with
  | stop _ _ => simp at hsplit
  | @goOn _ _ s₁ _ _ _ _ _ _ hturned hrest ih =>
      obtain ⟨rfl, rfl⟩ | ⟨middle, -, htail⟩ := split_turn hsplit (by simp)
      · exact ⟨s₁, hrest, hturned.follows i signal rfl⟩
      · exact ih htail

theorem Turned.resumed {added : List Nat} {what : Happening} (h : s.Turned last added what s')
    {i : Nat} (hwhat : what.Resumes i) : i ∈ (s.kept last).map Prod.snd := by
  cases h with
  | took hmember => exact hwhat ▸ hmember
  | ended hmember => exact hwhat ▸ hmember

/-- Whoever is a member after a turn was one before or is added by it. -/
theorem Turned.kept_or_added {added : List Nat} {what : Happening}
    (h : s.Turned last added what s') {i : Nat} (hi : s'.Schedules i) :
    i ∈ (s.kept last).map Prod.snd ∨ i ∈ added := by
  cases h with
  | took _ _ _ hmembers =>
      rw [Schedules, hmembers, List.map_append, List.mem_append] at hi
      exact hi
  | ended _ _ _ hmembers =>
      rw [Schedules, hmembers, List.map_append, List.mem_append] at hi
      exact hi.imp_left fun hkept => (List.filter_sublist.map _).subset hkept

theorem schedules_of_kept {i : Nat} (h : i ∈ (s.kept last).map Prod.snd) : s.Schedules i :=
  ((s.kept_sublist last).map _).subset h

/-- A thread that is not kept is resumed only after it was added. -/
theorem Runs.added_of_resumes (h : Runs cancelled last s happenings ending s') {i : Nat}
    (hi : i ∉ (s.kept last).map Prod.snd) {before after : List Happening} {e : Happening}
    (hsplit : happenings = before ++ e :: after) (he : e.Resumes i) : .added i ∈ before := by
  have hother : ∀ j, e ≠ .added j := by
    rintro j rfl
    exact he
  induction h generalizing before with
  | stop _ _ => simp at hsplit
  | @goOn _ _ s₁ _ added what _ _ _ hturned _ ih =>
      obtain ⟨rfl, -⟩ | ⟨middle, rfl, htail⟩ := split_turn hsplit hother
      · exact (hi (hturned.resumed he)).elim
      · by_cases hadded : i ∈ added
        · exact List.mem_append_left _ (List.mem_map_of_mem hadded)
        · have hkept : i ∉ (s₁.kept (some what)).map Prod.snd := fun hkept =>
            (hturned.kept_or_added (schedules_of_kept hkept)).elim hi hadded
          exact List.mem_append_right _ (List.mem_cons_of_mem _ (ih hkept htail))

/-- A thread that is not kept is a member at the end only if it was added, unless the run
is cancelled before it acts on the last signal. -/
theorem Runs.added_of_schedules (h : Runs cancelled last s happenings ending s') {i : Nat}
    (hi : i ∉ (s.kept last).map Prod.snd) (hi' : s'.Schedules i) :
    .added i ∈ happenings ∨ happenings = [] ∧ ending = .cancelled ∧ s.Schedules i := by
  induction h with
  | stop _ hstopped =>
      cases hstopped with
      | empty hmembers => simp [Schedules, hmembers] at hi'
      | cancelled _ => exact .inr ⟨rfl, rfl, hi'⟩
      | quit hsent =>
          subst hsent
          exact (hi hi').elim
      | unmanned _ hmembers _ => simp [Schedules, hmembers] at hi'
  | @goOn _ _ s₁ _ added what _ _ _ hturned _ ih =>
      by_cases hadded : i ∈ added
      · exact .inl (List.mem_append_left _ (List.mem_map_of_mem hadded))
      · have hnot : ¬ s₁.Schedules i := fun hsched =>
          (hturned.kept_or_added hsched).elim hi hadded
        obtain hmem | ⟨-, -, hsched⟩ := ih (fun hkept => hnot (schedules_of_kept hkept)) hi'
        · exact .inl (List.mem_append_right _ (List.mem_cons_of_mem _ hmem))
        · exact (hnot hsched).elim

/-- Only the thread that sent its removal is not kept. -/
theorem mem_kept {i : Nat} (hi : s.Schedules i) (hlast : last ≠ some (.took i .remove)) :
    i ∈ (s.kept last).map Prod.snd := by
  unfold kept
  split
  · rename_i j
    obtain ⟨m, hm, rfl⟩ := List.mem_map.mp hi
    refine List.mem_map_of_mem (List.mem_filter.mpr ⟨hm, ?_⟩)
    rw [bne_iff_ne]
    rintro rfl
    exact hlast rfl
  · exact hi

/-- A thread leaves in a turn that finds it at its end, or in the one after it sent its
removal. -/
theorem Turned.schedules_or_left {added : List Nat} {what : Happening}
    (h : s.Turned last added what s') {i : Nat} (hi : s.Schedules i ∨ i ∈ added) :
    s'.Schedules i ∨ what = .ended i ∨ last = some (.took i .remove) := by
  by_cases hremoved : last = some (.took i .remove)
  · exact .inr (.inr hremoved)
  cases h with
  | took _ _ _ hmembers =>
      left
      rw [Schedules, hmembers, List.map_append, List.mem_append]
      exact hi.imp_left (mem_kept · hremoved)
  | @ended j _ _ _ _ _ hmembers =>
      by_cases hj : i = j
      · exact .inr (.inl (hj ▸ rfl))
      · left
        rw [Schedules, hmembers, List.map_append, List.mem_append]
        refine hi.imp_left fun hsched => ?_
        obtain ⟨m, hm, rfl⟩ := List.mem_map.mp (mem_kept hsched hremoved)
        exact List.mem_map_of_mem (List.mem_filter.mpr ⟨hm, by simpa using hj⟩)

theorem Stopped.schedules_or_left (h : Stopped cancelled s last ending s') {i : Nat}
    (hi : s.Schedules i) : s'.Schedules i ∨ last = some (.took i .remove) := by
  cases h with
  | empty _ => exact .inl hi
  | cancelled _ => exact .inl hi
  | quit _ => exact .inl hi
  | unmanned hleft _ _ =>
      right
      by_contra hlast
      simpa [hleft] using mem_kept hi hlast

theorem Turned.ne_added {added : List Nat} {what : Happening} (h : s.Turned last added what s')
    (i : Nat) : what ≠ .added i := by
  cases h <;> simp

/-- A thread that was a member or became one still is one, unless it was at its end or sent
its removal. -/
theorem Runs.schedules_or_left (h : Runs cancelled last s happenings ending s') {i : Nat}
    (hi : s.Schedules i ∨ .added i ∈ happenings) :
    s'.Schedules i ∨ .ended i ∈ happenings ∨ .took i .remove ∈ happenings ∨
      last = some (.took i .remove) := by
  induction h with
  | stop _ hstopped =>
      have hsched := hi.resolve_right (by simp)
      exact (hstopped.schedules_or_left hsched).imp_right fun hlast => .inr (.inr hlast)
  | @goOn last s s₁ _ added what happenings _ _ hturned _ ih =>
      have hmoved : (s.Schedules i ∨ i ∈ added) ∨ .added i ∈ happenings := by
        simpa [(hturned.ne_added i).symm, or_assoc] using hi
      have hstays : (s₁.Schedules i ∨ .added i ∈ happenings) ∨ what = .ended i ∨
          last = some (.took i .remove) := by
        obtain hnow | hlater := hmoved
        · exact (hturned.schedules_or_left hnow).imp_left .inl
        · exact .inl (.inr hlater)
      obtain hstays | rfl | rfl := hstays
      · obtain hsched | hended | hremoved | hwhat := ih hstays
        · exact .inl hsched
        · exact .inr (.inl (by simp [hended]))
        · exact .inr (.inr (.inl (by simp [hremoved])))
        · obtain rfl := Option.some.inj hwhat
          simp
      · simp
      · simp

theorem filterMap_takenFrom_added (added : List Nat) (i : Nat) :
    (added.map Happening.added).filterMap (Happening.takenFrom i) = [] := by
  simp [Happening.takenFrom]

theorem Turned.signals {added : List Nat} {what : Happening} (h : s.Turned last added what s')
    (i : Nat) : s.signals i = (what.takenFrom i).toList ++ s'.signals i := by
  cases h with
  | @took j signal fresh _ hmember htaken hothers _ =>
      by_cases hi : j = i
      · subst hi
        simpa [Happening.takenFrom] using htaken
      · simp [Happening.takenFrom, hi, hothers i (Ne.symm hi)]
  | ended _ _ hothers _ => simp [Happening.takenFrom, hothers i]

theorem Stopped.signals (h : Stopped cancelled s last ending s') (i : Nat) :
    s'.signals i = s.signals i := by
  cases h with
  | empty _ => rfl
  | cancelled _ => rfl
  | quit _ => rfl
  | unmanned _ _ hsignals => exact hsignals i

/-- The signals that a run takes from a thread are those that the thread hands over next. -/
theorem Runs.signals (h : Runs cancelled last s happenings ending s') (i : Nat) :
    s.signals i = happenings.filterMap (Happening.takenFrom i) ++ s'.signals i := by
  induction h with
  | stop _ hstopped => simp [hstopped.signals i]
  | @goOn _ _ _ _ added what happenings _ _ hturned _ ih =>
      rw [hturned.signals i, ih, List.filterMap_append, filterMap_takenFrom_added,
        List.nil_append, List.filterMap_cons]
      cases what.takenFrom i <;> simp

/-- A run that finishes leaves no member unless the signal to stop came last. -/
theorem Runs.finished (h : Runs cancelled last s happenings .finished s') :
    s'.members = [] ∨ ∃ i, happenings.getLast?.or last = some (.took i .quit) := by
  generalize hending : Ending.finished = ending at h
  induction h with
  | stop _ hstopped =>
      cases hstopped with
      | empty hmembers => exact .inl hmembers
      | cancelled _ => cases hending
      | quit hsent => exact .inr ⟨_, hsent⟩
      | unmanned _ hmembers _ => exact .inl hmembers
  | @goOn _ _ _ _ _ what happenings _ _ _ _ ih =>
      refine (ih hending).imp id ?_
      rintro ⟨i, hlast⟩
      refine ⟨i, ?_⟩
      cases happenings with
      | nil => simpa using hlast
      | cons e happenings => simpa [List.getLast?_cons] using hlast

/-- A run that nobody cancels finishes. -/
theorem Runs.eq_finished (h : Runs cancelled last s happenings ending s')
    (hgo : ∀ s, cancelled s = false) : ending = .finished := by
  induction h with
  | stop _ hstopped =>
      cases hstopped with
      | cancelled hasked => simp [hgo] at hasked
      | _ => rfl
  | goOn _ _ _ ih => exact ih

end WholeRun

end YieldMachine.Scheduler
