import Mathlib.Data.Finset.Card
import Mathlib.Tactic.WLOG
import YieldMachine.Proofs.Scheduler.Selection

/-!
# Aging bounds waiting

A selection by priority lets every thread that it passes over gain on the one that it selects.
`Selects` says what one selection does to the priorities of all threads.  In a run of selections a
waiting thread therefore gains priority with every one of them, a selected one regains it no
faster, and so no thread is passed over for long.
-/

namespace YieldMachine.Scheduler

/-- The priority that a thread was made with. -/
def base (s : Scheduler) (i : Nat) : Int := (s.threads[i]?.map (·.priority)).getD 0

/-- The current priority of a thread. -/
def standing (s : Scheduler) (i : Nat) : Int := (s.threads[i]?.map (·.current)).getD 0

/-- The place of a thread in the order of additions. -/
def rank (s : Scheduler) (i : Nat) : Nat := (s.threads[i]?.map (·.order)).getD 0

instance (s : Scheduler) (i : Nat) : Decidable (s.Schedules i) :=
  inferInstanceAs (Decidable (i ∈ s.members.map Prod.snd))

/-- What the selection of a thread does: it goes before all other members, falls back to its own
priority, and lets the others gain priority. -/
structure Selects (s : Scheduler) (i : Nat) (s' : Scheduler) : Prop where
  member : s.Schedules i
  members : s'.members = s.members
  leads : ∀ j, s.Schedules j → j ≠ i →
    s.standing j < s.standing i ∨ s.standing j = s.standing i ∧ s.rank i < s.rank j
  base : ∀ j, s'.base j = s.base j
  rank : ∀ j, s'.rank j = s.rank j
  falls : s'.standing i = s.base i
  gains : ∀ j, s.Schedules j → j ≠ i → s'.standing j = min (s.standing j + 1) maxPriority
  keeps : ∀ j, ¬ s.Schedules j → s'.standing j = s.standing j

/-- The scheduler after a number of selections by priority. -/
def selecting (s : Scheduler) : Nat → Scheduler
  | 0 => s
  | k + 1 => (s.selecting k).selectByPriority.2

/-- The thread that is selected after a number of selections. -/
def selected (s : Scheduler) (k : Nat) : Option Nat := (s.selecting k).selectByPriority.1

section Calls

variable {s s' s'' : Scheduler}

/-- Makes threads with the given identifiers, priorities and scripts. -/
def buildAll (s : Scheduler) : List (String × Int × Script) → Except ThreadError Scheduler
  | [] => .ok s
  | (id, priority, script) :: threads => do
    (← s.build id id priority script false).buildAll threads

/-- Adds threads in the given order. -/
def addAll (s : Scheduler) : List Nat → Except ThreadError Scheduler
  | [] => .ok s
  | i :: order => do (← s.add (some i)).addAll order

theorem addAll_cons {i : Nat} {order : List Nat} (h : s.addAll (i :: order) = .ok s') :
    ∃ joined, s.add (some i) = .ok joined ∧ joined.addAll order = .ok s' := by
  cases hjoined : s.add (some i) with
  | error e =>
      rw [addAll, hjoined] at h
      cases h
  | ok joined =>
      rw [addAll, hjoined] at h
      exact ⟨joined, rfl, h⟩

/-- What holds of a new scheduler, and is kept when a thread is made or added, holds after all
such calls. -/
theorem calls_keep {P : Scheduler → Prop} (hempty : P empty)
    (hbuild : ∀ {s s' : Scheduler} {slot id : String} {priority : Int} {script : Script}
      {primed : Bool}, P s → priority ≤ maxPriority →
        s.build slot id priority script primed = .ok s' → P s')
    (hadd : ∀ {s s' : Scheduler} {thread : Option Nat}, P s → s.add thread = .ok s' → P s')
    (threads : List (String × Int × Script)) (order : List Nat)
    (hfits : ∀ t ∈ threads, t.2.1 ≤ maxPriority)
    (hcalls : (empty.buildAll threads >>= (·.addAll order)) = .ok s) : P s := by
  have hadded : ∀ order (made : Scheduler), P made → made.addAll order = .ok s → P s := by
    intro order
    induction order with
    | nil =>
        intro made hmade hok
        cases hok
        exact hmade
    | cons i order ih =>
        intro made hmade hok
        obtain ⟨joined, hjoined, hrest⟩ := addAll_cons hok
        exact ih joined (hadd hmade hjoined) hrest
  generalize empty = made at hempty hcalls
  induction threads generalizing made with
  | nil => exact hadded order made hempty hcalls
  | cons t threads ih =>
      obtain ⟨id, priority, script⟩ := t
      rw [List.forall_mem_cons] at hfits
      cases hbuilt : made.build id id priority script false with
      | error e =>
          rw [buildAll, hbuilt] at hcalls
          cases hcalls
      | ok next =>
          rw [buildAll, hbuilt] at hcalls
          exact ih hfits.2 next (hbuild hempty hfits.1 hbuilt) hcalls

theorem Reached.of_calls (threads : List (String × Int × Script)) (order : List Nat)
    (hfits : ∀ t ∈ threads, t.2.1 ≤ maxPriority)
    (hcalls : (Scheduler.empty.buildAll threads >>= (·.addAll order)) = .ok s) : Reached s :=
  calls_keep .empty .build .add threads order hfits hcalls

/-- Whether all threads have the same priorities in two schedulers. -/
structure Steady (s s' : Scheduler) : Prop where
  base : ∀ i, s'.base i = s.base i
  standing : ∀ i, s'.standing i = s.standing i

theorem Steady.refl (s : Scheduler) : Steady s s := ⟨fun _ => rfl, fun _ => rfl⟩

theorem Steady.trans (h : Steady s s') (h' : Steady s' s'') : Steady s s'' :=
  ⟨fun i => (h'.base i).trans (h.base i), fun i => (h'.standing i).trans (h.standing i)⟩

/-- A change of a thread in something else than its priorities. -/
theorem update_steady {f : Thread → Thread} (hpriority : ∀ t, (f t).priority = t.priority)
    (hcurrent : ∀ t, (f t).current = t.current) (s : Scheduler) (i : Nat) :
    Steady s (s.update i f) := by
  constructor
  · intro j
    rw [Scheduler.base, Scheduler.base, getElem?_update, Option.map_map]
    congr 2
    funext t
    simp only [Function.comp_apply]
    split
    · exact hpriority t
    · rfl
  · intro j
    rw [Scheduler.standing, Scheduler.standing, getElem?_update, Option.map_map]
    congr 2
    funext t
    simp only [Function.comp_apply]
    split
    · exact hcurrent t
    · rfl

theorem add_steady {thread : Option Nat} (h : s.add thread = .ok s') : Steady s s' := by
  obtain ⟨i, _, rfl, -⟩ := add_spec h
  have hsame := update_steady (f := ({ · with order := s.added })) (fun _ => rfl) (fun _ => rfl) s i
  constructor
  · intro j
    rw [Scheduler.base, threads_add h]
    exact hsame.base j
  · intro j
    rw [Scheduler.standing, threads_add h]
    exact hsame.standing j

end Calls

section OneSelection

variable {s s' : Scheduler} {i : Nat}

theorem base_eq {t : Thread} (h : s.threads[i]? = some t) : s.base i = t.priority := by
  simp [base, h]

theorem standing_eq {t : Thread} (h : s.threads[i]? = some t) : s.standing i = t.current := by
  simp [standing, h]

theorem rank_eq {t : Thread} (h : s.threads[i]? = some t) : s.rank i = t.order := by
  simp [rank, h]

/-- No thread is a member twice, as it has one identifier only. -/
theorem Ranked.nodup (h : s.Ranked) : (s.members.map Prod.snd).Nodup := by
  have hids : (s.members.map Prod.snd).map (fun i => (s.threads[i]?.map (·.id)).getD "") =
      s.members.map Prod.fst := by
    rw [List.map_map]
    apply List.map_congr_left
    intro m hm
    obtain ⟨t, ht, hid⟩ := h.named m hm
    simp [ht, hid]
  apply List.Nodup.of_map (fun i => (s.threads[i]?.map (·.id)).getD "")
  rw [hids]
  exact h.distinct

theorem Ranked.exists_thread (h : s.Ranked) (hi : s.Schedules i) :
    ∃ t, s.threads[i]? = some t := by
  obtain ⟨m, hm, rfl⟩ := List.mem_map.mp hi
  obtain ⟨t, ht, -⟩ := h.named m hm
  exact ⟨t, ht⟩

theorem Ranked.standing_bounds (h : s.Ranked) (hi : s.Schedules i) :
    s.base i ≤ s.standing i ∧ s.standing i ≤ maxPriority := by
  obtain ⟨t, ht⟩ := h.exists_thread hi
  rw [base_eq ht, standing_eq ht]
  exact h.bounded t (Array.mem_of_getElem? ht)

/-- The threads of a list of members gain priority once each, except for the selected one. -/
theorem getElem?_foldl_aged (selected : Nat) (l : List (String × Nat))
    (hl : (l.map Prod.snd).Nodup) (s : Scheduler) (j : Nat) :
    (l.foldl (fun s m => if m.2 = selected then s else s.update m.2 Thread.aged) s).threads[j]? =
      s.threads[j]?.map fun t =>
        if j ∈ l.map Prod.snd ∧ j ≠ selected then Thread.aged t else t := by
  induction l generalizing s with
  | nil => simp
  | cons m l ih =>
      rw [List.map_cons, List.nodup_cons] at hl
      rw [List.foldl_cons, ih hl.2]
      by_cases hm : m.2 = selected
      · have hmem : j ∈ (m :: l).map Prod.snd ∧ j ≠ selected ↔
            j ∈ l.map Prod.snd ∧ j ≠ selected := by
          rw [List.map_cons, List.mem_cons, hm]
          tauto
        simp only [hm, if_true, hmem]
      · rw [if_neg hm, getElem?_update, Option.map_map]
        congr 1
        funext t
        by_cases hj : m.2 = j
        · subst hj
          simp [hl.1, hm]
        · have hmem : j ∈ (m :: l).map Prod.snd ↔ j ∈ l.map Prod.snd := by
            rw [List.map_cons, List.mem_cons]
            exact or_iff_right (Ne.symm hj)
          simp only [Function.comp_apply, if_neg hj, hmem]

/-- What a selection does to each thread. -/
theorem Ranked.getElem?_age (h : s.Ranked) (selected j : Nat) :
    (s.age selected).threads[j]? = s.threads[j]?.map fun t =>
      if j = selected then { t with current := t.priority }
      else if s.Schedules j then Thread.aged t else t := by
  have hage : s.age selected =
      (s.members.foldl (fun s m => if m.2 = selected then s else s.update m.2 Thread.aged) s).update
        selected fun t => { t with current := t.priority } := rfl
  rw [hage, getElem?_update, getElem?_foldl_aged selected s.members h.nodup, Option.map_map]
  congr 1
  funext t
  by_cases hj : j = selected
  · simp [hj]
  · simp only [Function.comp_apply, if_neg (Ne.symm hj), if_neg hj]
    exact if_congr (and_iff_left hj) rfl rfl

theorem Thread.priority_aged (t : Thread) : (Thread.aged t).priority = t.priority := by
  unfold Thread.aged
  split <;> rfl

theorem Thread.order_aged (t : Thread) : (Thread.aged t).order = t.order := by
  unfold Thread.aged
  split <;> rfl

theorem Thread.current_aged {t : Thread} (ht : t.current ≤ maxPriority) :
    (Thread.aged t).current = min (t.current + 1) maxPriority := by
  unfold Thread.aged
  split
  · simp only
    omega
  · omega

theorem Ranked.base_age (h : s.Ranked) (selected j : Nat) :
    (s.age selected).base j = s.base j := by
  rw [base, base, h.getElem?_age, Option.map_map]
  congr 2
  funext t
  simp only [Function.comp_apply]
  split
  · rfl
  · split
    · exact Thread.priority_aged t
    · rfl

theorem Ranked.rank_age (h : s.Ranked) (selected j : Nat) :
    (s.age selected).rank j = s.rank j := by
  rw [rank, rank, h.getElem?_age, Option.map_map]
  congr 2
  funext t
  simp only [Function.comp_apply]
  split
  · rfl
  · split
    · exact Thread.order_aged t
    · rfl

theorem Ranked.standing_age (h : s.Ranked) {j : Nat} {t : Thread} (ht : s.threads[j]? = some t)
    (selected : Nat) : (s.age selected).standing j =
      if j = selected then t.priority
      else if s.Schedules j then (Thread.aged t).current else t.current := by
  rw [standing, h.getElem?_age, ht, Option.map_some, Option.map_some, Option.getD_some]
  split
  · rfl
  · split <;> rfl

theorem Ranked.selects (h : s.Ranked) (hi : s.selectByPriority = (some i, s')) :
    s.Selects i s' := by
  obtain ⟨hleads, rfl⟩ : s.Leads i ∧ s.age i = s' := by
    unfold selectByPriority at hi
    split at hi
    · cases hi
    · rename_i hfirst
      cases hi
      exact ⟨h.leads_of_first? hfirst, rfl⟩
  obtain ⟨t, hmem, hothers⟩ := hleads
  obtain ⟨hmember, ht⟩ := mem_scheduled.mp hmem
  constructor
  · exact hmember
  · exact s.members_age i
  · intro j hj hne
    obtain ⟨u, hu⟩ := h.exists_thread hj
    rw [standing_eq ht, standing_eq hu, rank_eq ht, rank_eq hu]
    exact hothers j u (mem_scheduled.mpr ⟨hj, hu⟩) hne
  · exact h.base_age i
  · exact h.rank_age i
  · rw [h.standing_age ht, if_pos rfl, base_eq ht]
  · intro j hj hne
    obtain ⟨u, hu⟩ := h.exists_thread hj
    have hmax : u.current ≤ maxPriority := standing_eq hu ▸ (h.standing_bounds hj).2
    rw [h.standing_age hu, if_neg hne, if_pos hj, Thread.current_aged hmax, standing_eq hu]
  · intro j hj
    have hne : j ≠ i := fun heq => hj (heq ▸ hmember)
    cases hu : s.threads[j]? with
    | none => simp [standing, h.getElem?_age, hu]
    | some u => rw [h.standing_age hu, if_neg hne, if_neg hj, standing_eq hu]

/-- As long as there are members, one of them is selected. -/
theorem Ranked.exists_selects (h : s.Ranked) (hmembers : s.members ≠ []) :
    ∃ i s', s.selectByPriority = (some i, s') := by
  unfold selectByPriority
  cases hfirst : s.first? with
  | none => exact absurd (h.first?_eq_none.mp hfirst) hmembers
  | some i => exact ⟨i, s.age i, rfl⟩

theorem Schedules.members_ne_nil (h : s.Schedules i) : s.members ≠ [] :=
  fun hempty => by simp [Schedules, hempty] at h

theorem members_select (s : Scheduler) : s.selectByPriority.2.members = s.members := by
  unfold selectByPriority
  split
  · rfl
  · exact s.members_age _

end OneSelection

section ManySelections

variable {s : Scheduler} {i : Nat}

theorem Ranked.selecting (h : s.Ranked) (k : Nat) : (s.selecting k).Ranked := by
  induction k with
  | zero => exact h
  | succ k ih => exact ih.select

theorem members_selecting (s : Scheduler) (k : Nat) : (s.selecting k).members = s.members := by
  induction k with
  | zero => rfl
  | succ k ih => exact (members_select _).trans ih

theorem schedules_selecting (k j : Nat) : (s.selecting k).Schedules j ↔ s.Schedules j := by
  rw [Schedules, Schedules, members_selecting]

theorem selecting_add (s : Scheduler) (m k : Nat) :
    (s.selecting m).selecting k = s.selecting (m + k) := by
  induction k with
  | zero => rfl
  | succ k ih => rw [Scheduler.selecting, ih, ← Nat.add_assoc, Scheduler.selecting]

theorem selected_add (s : Scheduler) (m k : Nat) :
    (s.selecting m).selected k = s.selected (m + k) := by
  rw [selected, selected, selecting_add]

theorem Ranked.selects_selected (h : s.Ranked) {k : Nat} (hi : s.selected k = some i) :
    (s.selecting k).Selects i (s.selecting (k + 1)) :=
  (h.selecting k).selects (Prod.ext hi rfl)

theorem Ranked.exists_selected (h : s.Ranked) (hmembers : s.members ≠ []) (k : Nat) :
    ∃ i, s.selected k = some i ∧ (s.selecting k).Selects i (s.selecting (k + 1)) := by
  obtain ⟨i, s', hi⟩ := (h.selecting k).exists_selects (by rwa [members_selecting])
  have hselected : s.selected k = some i := congrArg Prod.fst hi
  exact ⟨i, hselected, h.selects_selected hselected⟩

/-- What no selection changes stays the same. -/
theorem Ranked.selecting_keeps {α : Type} {f : Scheduler → α} (h : s.Ranked)
    (hf : ∀ s i s', Selects s i s' → f s' = f s) (k : Nat) : f (s.selecting k) = f s := by
  by_cases hmembers : s.members = []
  · have hnone : ∀ k, s.selecting k = s := by
      intro k
      induction k with
      | zero => rfl
      | succ k ih => rw [Scheduler.selecting, ih, selectByPriority, h.first?_eq_none.mpr hmembers]
    rw [hnone]
  · induction k with
    | zero => rfl
    | succ k ih =>
        obtain ⟨i, -, hselects⟩ := h.exists_selected hmembers k
        rw [hf _ i _ hselects, ih]

theorem Ranked.base_selecting (h : s.Ranked) (k j : Nat) : (s.selecting k).base j = s.base j :=
  h.selecting_keeps (fun _ _ _ hselects => hselects.base j) k

theorem Ranked.rank_selecting (h : s.Ranked) (k j : Nat) : (s.selecting k).rank j = s.rank j :=
  h.selecting_keeps (fun _ _ _ hselects => hselects.rank j) k

/-- A thread that is passed over gains priority with every selection. -/
theorem Ranked.le_standing_of_waiting (h : s.Ranked) (hi : s.Schedules i) {k : Nat}
    (hwaits : ∀ m < k, s.selected m ≠ some i) :
    min (s.base i + k) maxPriority ≤ (s.selecting k).standing i := by
  induction k with
  | zero =>
      have := (h.standing_bounds hi).1
      rw [Scheduler.selecting]
      omega
  | succ k ih =>
      have hbefore := ih fun m hm => hwaits m (Nat.lt_succ_of_lt hm)
      obtain ⟨j, hj, hselects⟩ := h.exists_selected hi.members_ne_nil k
      have hne : i ≠ j := by
        rintro rfl
        exact hwaits k (Nat.lt_succ_self k) hj
      rw [hselects.gains i ((schedules_selecting k i).mpr hi) hne]
      omega

/-- A thread that was selected regains its priority by one with every selection, at most. -/
theorem Ranked.standing_le_of_selected (h : s.Ranked) {m : Nat} (hi : s.selected m = some i)
    (d : Nat) : (s.selecting (m + 1 + d)).standing i ≤ s.base i + d := by
  have hfirst := h.selects_selected hi
  have hmember : s.Schedules i := (schedules_selecting m i).mp hfirst.member
  induction d with
  | zero =>
      have hfalls := hfirst.falls
      rw [h.base_selecting] at hfalls
      simp [hfalls]
  | succ d ih =>
      obtain ⟨j, -, hselects⟩ := h.exists_selected hmember.members_ne_nil (m + 1 + d)
      have hnow : (s.selecting (m + 1 + d)).Schedules i := (schedules_selecting _ i).mpr hmember
      rw [← Nat.add_assoc]
      by_cases hj : i = j
      · subst hj
        rw [hselects.falls, h.base_selecting]
        omega
      · rw [hselects.gains i hnow hj]
        omega

/-- Once a waiting thread has caught up with the greatest priority, a thread that is selected does
not go before it again. -/
theorem Ranked.selected_ne_of_waiting (h : s.Ranked) (hi : s.Schedules i) {greatest : Int}
    (hgreatest : ∀ j, s.Schedules j → s.base j ≤ greatest)
    (hroom : greatest + s.length ≤ maxPriority) {m k : Nat} (hmk : m < k)
    (hcaught : greatest ≤ s.base i + m) (hk : greatest - s.base i + s.length > k)
    (hwaits : ∀ m ≤ k, s.selected m ≠ some i) : s.selected k ≠ s.selected m := by
  intro heq
  obtain ⟨j, hj, hselects⟩ := h.exists_selected hi.members_ne_nil k
  have hne : i ≠ j := by
    rintro rfl
    exact hwaits k (Nat.le_refl k) hj
  have hleads := hselects.leads i ((schedules_selecting k i).mpr hi) hne
  have hwaiting := h.le_standing_of_waiting hi fun m hm => hwaits m (Nat.le_of_lt hm)
  obtain ⟨d, rfl⟩ := Nat.exists_eq_add_of_lt hmk
  have hregained := h.standing_le_of_selected (heq.symm.trans hj) d
  have hbase := hgreatest j ((schedules_selecting _ j).mp hselects.member)
  rw [Nat.add_right_comm] at hleads hwaiting
  omega

theorem Ranked.exists_selected_lt (h : s.Ranked) (hi : s.Schedules i) {greatest : Int}
    (hgreatest : ∀ j, s.Schedules j → s.base j ≤ greatest)
    (hroom : greatest + s.length ≤ maxPriority) :
    ∃ k < (greatest - s.base i).toNat + s.length, s.selected k = some i := by
  by_contra hnever
  push Not at hnever
  have hbase := hgreatest i hi
  -- once the thread has caught up, the selections are among the other members, of which there are
  -- too few to pick a new one every time
  let others : Finset Nat := (s.members.map Prod.snd).toFinset.erase i
  have hcard : (others.image some).card < (Finset.range s.length).card := by
    rw [Finset.card_image_of_injective _ (Option.some_injective _), Finset.card_range,
      Finset.card_erase_of_mem (List.mem_toFinset.mpr hi), List.toFinset_card_of_nodup h.nodup,
      List.length_map]
    exact Nat.sub_lt (List.length_pos_of_ne_nil hi.members_ne_nil) Nat.one_pos
  have hmaps : ∀ k ∈ Finset.range s.length,
      s.selected ((greatest - s.base i).toNat + k) ∈ others.image some := by
    intro k hk
    have hlt := Finset.mem_range.mp hk
    obtain ⟨j, hj, hselects⟩ :=
      h.exists_selected hi.members_ne_nil ((greatest - s.base i).toNat + k)
    have hmember : s.Schedules j := (schedules_selecting _ j).mp hselects.member
    have hother : j ≠ i := by
      rintro rfl
      exact hnever _ (Nat.add_lt_add_left hlt _) hj
    exact Finset.mem_image.mpr
      ⟨j, Finset.mem_erase.mpr ⟨hother, List.mem_toFinset.mpr hmember⟩, hj.symm⟩
  obtain ⟨a, ha, b, hb, hne, heq⟩ := Finset.exists_ne_map_eq_of_card_lt_of_maps_to hcard hmaps
  wlog hab : a < b generalizing a b
  · exact this b hb a ha hne.symm heq.symm (by omega)
  rw [Finset.mem_range] at hb
  exact h.selected_ne_of_waiting hi hgreatest hroom (Nat.add_lt_add_left hab _) (by omega)
    (by omega) (fun m hm => hnever m (by omega)) heq.symm

/-- Aging bounds waiting: of consecutive selections, as many as a member lies below the greatest
priority and one for each member, at least one selects that member. -/
theorem Ranked.selected_within (h : s.Ranked) (hi : s.Schedules i) {greatest : Int}
    (hgreatest : ∀ j, s.Schedules j → s.base j ≤ greatest)
    (hroom : greatest + s.length ≤ maxPriority) (start : Nat) :
    ∃ k, start ≤ k ∧ k < start + ((greatest - s.base i).toNat + s.length) ∧
      s.selected k = some i := by
  have hlength : (s.selecting start).length = s.length :=
    congrArg List.length (members_selecting s start)
  have hmember : (s.selecting start).Schedules i := (schedules_selecting start i).mpr hi
  have hgreatest' : ∀ j, (s.selecting start).Schedules j →
      (s.selecting start).base j ≤ greatest := by
    intro j hj
    rw [h.base_selecting]
    exact hgreatest j ((schedules_selecting start j).mp hj)
  obtain ⟨k, hk, hselected⟩ :=
    (h.selecting start).exists_selected_lt hmember hgreatest' (by rwa [hlength])
  rw [h.base_selecting, hlength] at hk
  rw [selected_add] at hselected
  exact ⟨start + k, Nat.le_add_right start k, Nat.add_lt_add_left hk start, hselected⟩

end ManySelections

/-- Two threads that start two apart. -/
def uneven : Scheduler where
  threads := #[⟨"high", 2, 2, 0, ⟨.ofSignals [], false, none⟩⟩,
    ⟨"low", 0, 0, 1, ⟨.ofSignals [], false, none⟩⟩]
  members := [("high", 0), ("low", 1)]
  slots := [("low", 1), ("high", 0)]
  added := 2
  log := #[]

theorem uneven_selected_within : uneven.Ranked ∧ uneven.Schedules 1 ∧
    (∀ j, uneven.Schedules j → uneven.base j ≤ 2) ∧ (2 : Int) + uneven.length ≤ maxPriority ∧
      ∀ start, ∃ k, start ≤ k ∧ k < start + 4 ∧ uneven.selected k = some 1 := by
  have hranked : uneven.Ranked :=
    (Reached.of_calls [("high", 2, .ofSignals []), ("low", 0, .ofSignals [])] [0, 1]
      (by decide) rfl).ranked
  have hgreatest : ∀ j, uneven.Schedules j → uneven.base j ≤ 2 := by
    intro j hj
    obtain rfl | rfl : j = 0 ∨ j = 1 := by simpa [Schedules, uneven] using hj
    · decide
    · decide
  have hroom : (2 : Int) + uneven.length ≤ maxPriority := by decide
  have hmember : uneven.Schedules 1 := by decide
  exact ⟨hranked, hmember, hgreatest, hroom, hranked.selected_within hmember hgreatest hroom⟩

end YieldMachine.Scheduler
