import YieldMachine.Proofs.Scheduler.Aging

/-!
# Threads of equal priority take turns

Threads of one priority are selected in the order in which they were added, again and again, as
long as the priority leaves room for all of them to wait.  A thread stops gaining priority at the
greatest one, so that with less room only the first threads take turns, and the others wait
forever.
-/

namespace YieldMachine.Scheduler

/-- How many selections passed a thread over since it was selected, after `k` selections in which
the first `m` threads took turns. -/
def waited (m k place : Nat) : Nat :=
  if place < k % m then k % m - 1 - place
  else if k < m ∨ m ≤ place then k
  else m + k % m - 1 - place

section Turns

variable {m k place : Nat}

theorem succ_mod (hm : 0 < m) : (k + 1) % m = if k % m + 1 = m then 0 else k % m + 1 := by
  have hlt := Nat.mod_lt k hm
  rw [← Nat.mod_add_mod]
  split
  · rename_i hlast
    rw [hlast, Nat.mod_self]
  · exact Nat.mod_eq_of_lt (by omega)

theorem waited_eq (hm : 0 < m) (h : k ≤ place ∨ m ≤ place) : waited m k place = k := by
  have hlt := Nat.mod_lt k hm
  have hle := Nat.mod_le k m
  unfold waited
  split_ifs <;> omega

/-- The thread whose turn it is waited for all others that take turns, or from the start. -/
theorem waited_turn (hm : 0 < m) : waited m k (k % m) = min k (m - 1) := by
  have hlt := Nat.mod_lt k hm
  have hfirst : k < m → k % m = k := Nat.mod_eq_of_lt
  unfold waited
  split_ifs <;> omega

/-- A thread that was selected already waited less than the one whose turn it is. -/
theorem waited_lt (hplace : place < m) (hpast : place < k) (hne : place ≠ k % m) :
    waited m k place < waited m k (k % m) := by
  have hlt := Nat.mod_lt k (Nat.zero_lt_of_lt hplace)
  have hfirst : k < m → k % m = k := Nat.mod_eq_of_lt
  rw [waited_turn (Nat.zero_lt_of_lt hplace)]
  unfold waited
  split_ifs <;> omega

theorem waited_succ_turn (hm : 0 < m) : waited m (k + 1) (k % m) = 0 := by
  have hlt := Nat.mod_lt k hm
  have hle := Nat.mod_le k m
  unfold waited
  rw [succ_mod hm]
  split_ifs <;> omega

theorem waited_succ (hm : 0 < m) (hne : place ≠ k % m) :
    waited m (k + 1) place = waited m k place + 1 := by
  have hlt := Nat.mod_lt k hm
  have hfirst : k < m → k % m = k := Nat.mod_eq_of_lt
  unfold waited
  rw [succ_mod hm]
  split_ifs <;> omega

end Turns

section Adding

variable {s s' : Scheduler}

/-- Threads that are added one after the other. -/
structure Joined (s : Scheduler) (order : List Nat) (s' : Scheduler) : Prop where
  ranked : s'.Ranked
  members : s'.members.map Prod.snd = s.members.map Prod.snd ++ order
  steady : Steady s s'
  rank : ∀ a (ha : a < order.length), s'.rank order[a] = s.added + a
  others : ∀ j, j ∉ order → s'.rank j = s.rank j

theorem Ranked.joined (h : s.Ranked) {order : List Nat} (hadded : s.addAll order = .ok s') :
    s.Joined order s' := by
  induction order generalizing s with
  | nil =>
      cases hadded
      exact ⟨h, by simp, .refl _, nofun, fun _ _ => rfl⟩
  | cons i order ih =>
      obtain ⟨joined, hjoined, hrest⟩ := addAll_cons hadded
      have hlater := ih (h.add hjoined) hrest
      obtain ⟨_, id, heq, hid, -, -, hmembers⟩ := add_spec hjoined
      obtain rfl := Option.some.inj heq
      have hall : s'.members.map Prod.snd = s.members.map Prod.snd ++ i :: order := by
        rw [hlater.members, hmembers]
        simp
      have hnew : i ∉ order := by
        have hnodup := hlater.ranked.nodup
        rw [hall, List.nodup_append, List.nodup_cons] at hnodup
        exact hnodup.2.1.1
      constructor
      · exact hlater.ranked
      · exact hall
      · exact (add_steady hjoined).trans hlater.steady
      · intro a ha
        cases a with
        | zero =>
            rw [ids_getElem?, Option.map_eq_some_iff] at hid
            obtain ⟨t, ht, -⟩ := hid
            rw [List.getElem_cons_zero, hlater.others i hnew, rank, getElem?_add hjoined, ht]
            simp
        | succ a =>
            rw [List.getElem_cons_succ, hlater.rank a (Nat.lt_of_succ_lt_succ ha),
              added_add hjoined]
            omega
      · intro j hj
        rw [List.mem_cons, not_or] at hj
        rw [hlater.others j hj.2, rank, rank, getElem?_add hjoined]
        simp [Ne.symm hj.1]

end Adding

/-- Whether the members have one priority, stand at it and were added in the given order. -/
structure Lined (s : Scheduler) (order : List Nat) (priority : Int) : Prop where
  ranked : s.Ranked
  members : s.members.map Prod.snd = order
  base : ∀ i ∈ order, s.base i = priority
  standing : ∀ i ∈ order, s.standing i = priority
  ordered : ∀ a b (ha : a < order.length) (hb : b < order.length),
    s.rank order[a] < s.rank order[b] ↔ a < b

/-- How many of a number of threads of one priority take turns: as many as can wait for each other
before one of them reaches the greatest priority. -/
def turnTakers (count : Nat) (priority : Int) : Nat := min count (maxPriority - priority + 1).toNat

section Rotating

variable {s : Scheduler} {order : List Nat} {priority : Int} {k : Nat}

theorem Lined.nodup (h : s.Lined order priority) : order.Nodup := h.members ▸ h.ranked.nodup

theorem Lined.schedules (h : s.Lined order priority) (i : Nat) : s.Schedules i ↔ i ∈ order := by
  rw [Schedules, h.members]

theorem Lined.members_ne_nil (h : s.Lined order priority) (hne : order ≠ []) :
    s.members ≠ [] := by
  rintro hempty
  have hmembers := h.members
  rw [hempty] at hmembers
  exact hne hmembers.symm

theorem Lined.priority_le (h : s.Lined order priority) (hne : order ≠ []) :
    priority ≤ maxPriority := by
  obtain ⟨i, hi⟩ := List.exists_mem_of_ne_nil order hne
  have hbound := (h.ranked.standing_bounds ((h.schedules i).mpr hi)).2
  rwa [h.standing i hi] at hbound

theorem Lined.turnTakers_pos (h : s.Lined order priority) (hne : order ≠ []) :
    0 < turnTakers order.length priority := by
  have := h.priority_le hne
  have := List.length_pos_of_ne_nil hne
  unfold turnTakers
  omega

/-- Whether every thread has gained what it gains in turns, after `k` selections. -/
def Turning (s : Scheduler) (order : List Nat) (priority : Int) (k : Nat) : Prop :=
  ∀ a (ha : a < order.length), (s.selecting k).standing order[a] =
    min (priority + waited (turnTakers order.length priority) k a) maxPriority

theorem Lined.turning_zero (h : s.Lined order priority) (hne : order ≠ []) :
    s.Turning order priority 0 := by
  intro a ha
  have := h.priority_le hne
  rw [waited_eq (h.turnTakers_pos hne) (.inl (Nat.zero_le a)), selecting,
    h.standing _ (List.getElem_mem ha)]
  omega

/-- The next thread in turn goes before the others: it waited longer, or it was added first of
those that waited as long. -/
theorem Lined.selected_of_turning (h : s.Lined order priority) (hne : order ≠ [])
    (hk : s.Turning order priority k) :
    s.selected k = order[k % turnTakers order.length priority]? := by
  have hm := h.turnTakers_pos hne
  have hturn := Nat.mod_lt k hm
  have hcount : turnTakers order.length priority ≤ order.length := Nat.min_le_left _ _
  obtain ⟨i, hi, hselects⟩ := h.ranked.exists_selected (h.members_ne_nil hne) k
  have hmem : i ∈ order := (h.schedules i).mp ((schedules_selecting k i).mp hselects.member)
  obtain ⟨b, hb, rfl⟩ := List.getElem_of_mem hmem
  have hc : k % turnTakers order.length priority < order.length := by omega
  rw [hi, List.getElem?_eq_getElem hc, Option.some.injEq, h.nodup.getElem_inj_iff]
  by_contra hother
  have hleads := hselects.leads _ ((schedules_selecting k _).mpr
    ((h.schedules _).mpr (List.getElem_mem hc))) fun heq =>
      hother (h.nodup.getElem_inj_iff.mp heq).symm
  rw [hk b hb, hk _ hc, h.ranked.rank_selecting, h.ranked.rank_selecting, h.ordered,
    waited_turn hm] at hleads
  have hroom : (turnTakers order.length priority : Int) ≤ maxPriority - priority + 1 := by
    have := h.priority_le hne
    unfold turnTakers
    omega
  by_cases hpast : b < turnTakers order.length priority ∧ b < k
  · have hless := waited_lt hpast.1 hpast.2 hother
    rw [waited_turn hm] at hless
    omega
  · have hfirst : k < turnTakers order.length priority →
        k % turnTakers order.length priority = k := Nat.mod_eq_of_lt
    have hshort : turnTakers order.length priority < order.length →
        (turnTakers order.length priority : Int) = maxPriority - priority + 1 := by
      unfold turnTakers
      omega
    rw [waited_eq hm (by omega)] at hleads
    omega

theorem Lined.turning_succ (h : s.Lined order priority) (hne : order ≠ [])
    (hk : s.Turning order priority k) : s.Turning order priority (k + 1) := by
  intro a ha
  have hm := h.turnTakers_pos hne
  have hpriority := h.priority_le hne
  have hturn := Nat.mod_lt k hm
  have hcount : turnTakers order.length priority ≤ order.length := Nat.min_le_left _ _
  have hc : k % turnTakers order.length priority < order.length := by omega
  have hselected := h.selected_of_turning hne hk
  rw [List.getElem?_eq_getElem hc] at hselected
  have hselects := h.ranked.selects_selected hselected
  have hmember : (s.selecting k).Schedules order[a] :=
    (schedules_selecting k _).mpr ((h.schedules _).mpr (List.getElem_mem ha))
  by_cases hturns : a = k % turnTakers order.length priority
  · subst hturns
    rw [hselects.falls, h.ranked.base_selecting, h.base _ (List.getElem_mem ha),
      waited_succ_turn hm]
    omega
  · rw [hselects.gains _ hmember fun heq => hturns (h.nodup.getElem_inj_iff.mp heq), hk a ha,
      waited_succ hm hturns]
    omega

theorem Lined.turning (h : s.Lined order priority) (hne : order ≠ []) (k : Nat) :
    s.Turning order priority k := by
  induction k with
  | zero => exact h.turning_zero hne
  | succ k ih => exact h.turning_succ hne ih

end Rotating

/-- Threads of one priority that are added one after the other are lined up. -/
theorem Ranked.lined {s s' : Scheduler} {order : List Nat} {priority : Int} (h : s.Ranked)
    (hempty : s.members = [])
    (hfresh : ∀ i ∈ order, s.base i = priority ∧ s.standing i = priority)
    (hadded : s.addAll order = .ok s') : s'.Lined order priority := by
  have hjoined := h.joined hadded
  constructor
  · exact hjoined.ranked
  · rw [hjoined.members, hempty]
    rfl
  · intro i hi
    rw [hjoined.steady.base, (hfresh i hi).1]
  · intro i hi
    rw [hjoined.steady.standing, (hfresh i hi).2]
  · intro a b ha hb
    rw [hjoined.rank a ha, hjoined.rank b hb]
    exact Nat.add_lt_add_iff_left

/-- Threads of one priority are selected in the order in which they were added, again and again,
as far as the priority leaves room for them to wait: those for which there is none are never
selected.  All of them take turns exactly if the last one can wait for the others. -/
theorem Ranked.selected_in_turn {s s' : Scheduler} {order : List Nat} {priority : Int}
    (h : s.Ranked) (hempty : s.members = [])
    (hfresh : ∀ i ∈ order, s.base i = priority ∧ s.standing i = priority)
    (hadded : s.addAll order = .ok s') (hne : order ≠ []) :
    (∀ k, s'.selected k = order[k % turnTakers order.length priority]?) ∧
      ((∀ k, s'.selected k = order[k % order.length]?) ↔
        priority + order.length ≤ maxPriority + 1) := by
  have hlined := h.lined hempty hfresh hadded
  have hturns := fun k => hlined.selected_of_turning hne (hlined.turning hne k)
  have hpos := hlined.turnTakers_pos hne
  refine ⟨hturns, fun hall => ?_, fun hroom k => ?_⟩
  · by_contra hcrowded
    have hroom : turnTakers order.length priority ≤ (maxPriority - priority + 1).toNat :=
      Nat.min_le_right _ _
    have hshort : turnTakers order.length priority < order.length := by omega
    -- the first thread left out is passed over for the very first one
    have hsame := (hturns (turnTakers order.length priority)).symm.trans (hall _)
    rw [Nat.mod_self, Nat.mod_eq_of_lt hshort, List.getElem?_eq_getElem (by omega),
      List.getElem?_eq_getElem hshort, Option.some.injEq, hlined.nodup.getElem_inj_iff] at hsame
    omega
  · have hcount : turnTakers order.length priority = order.length := Nat.min_eq_left (by omega)
    rw [hturns, hcount]

/-- Three threads of the greatest priority that a thread can be made with. -/
def crowd : Scheduler where
  threads := #[⟨"x", maxPriority - 1, maxPriority - 1, 0, ⟨.ofSignals [], false, none⟩⟩,
    ⟨"y", maxPriority - 1, maxPriority - 1, 0, ⟨.ofSignals [], false, none⟩⟩,
    ⟨"z", maxPriority - 1, maxPriority - 1, 0, ⟨.ofSignals [], false, none⟩⟩]
  members := []
  slots := [("z", 2), ("y", 1), ("x", 0)]
  added := 0
  log := #[]

/-- The three threads after they were added. -/
def crowded : Scheduler where
  threads := #[⟨"x", maxPriority - 1, maxPriority - 1, 0, ⟨.ofSignals [], false, none⟩⟩,
    ⟨"y", maxPriority - 1, maxPriority - 1, 1, ⟨.ofSignals [], false, none⟩⟩,
    ⟨"z", maxPriority - 1, maxPriority - 1, 2, ⟨.ofSignals [], false, none⟩⟩]
  members := [("x", 0), ("y", 1), ("z", 2)]
  slots := crowd.slots
  added := 3
  log := #[]

theorem crowded_selected_in_turn : crowd.Ranked ∧ crowd.members = [] ∧
    (∀ i ∈ [0, 1, 2], crowd.base i = maxPriority - 1 ∧ crowd.standing i = maxPriority - 1) ∧
      crowd.addAll [0, 1, 2] = .ok crowded ∧ ∀ k, crowded.selected k = [0, 1, 2][k % 2]? := by
  have hranked : crowd.Ranked := (Reached.of_calls
    [("x", maxPriority - 1, .ofSignals []), ("y", maxPriority - 1, .ofSignals []),
      ("z", maxPriority - 1, .ofSignals [])] []
    (by decide) rfl).ranked
  have hfresh : ∀ i ∈ [0, 1, 2],
      crowd.base i = maxPriority - 1 ∧ crowd.standing i = maxPriority - 1 := by decide
  exact ⟨hranked, rfl, hfresh, rfl, (hranked.selected_in_turn rfl hfresh rfl (by decide)).1⟩

/-- The third of three threads that were made and added is not selected third. -/
theorem crowded_out_of_turn : (empty.buildAll [("x", maxPriority - 1, .ofSignals []),
      ("y", maxPriority - 1, .ofSignals []), ("z", maxPriority - 1, .ofSignals [])] >>=
        (·.addAll [0, 1, 2])) =
        .ok crowded ∧
    ¬ ∀ k, crowded.selected k = [0, 1, 2][k % 3]? :=
  ⟨rfl, fun hturns => absurd (hturns 2) (by decide)⟩

end YieldMachine.Scheduler
