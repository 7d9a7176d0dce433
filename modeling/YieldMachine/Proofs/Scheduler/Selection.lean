import Mathlib.Data.List.Perm.Basic
import YieldMachine.Proofs.Scheduler.Feeds

/-!
# Selection in any order

The members of a scheduler may be visited in any order when a thread is selected.  What makes the
choice unique is that no two of them have the same place in the order of additions, which every
step of a scheduler keeps.
-/

namespace YieldMachine.Scheduler

/-- The schedulers that calls and the steps of runs lead to: threads are made and added, and a run
drops threads, selects among them, and asks them for elements.  A priority is a machine word. -/
inductive Reached : Scheduler → Prop where
  | empty : Reached .empty
  | build {s s' : Scheduler} {slot id : String} {priority : Int} {script : Script}
      {primed : Bool} (reached : Reached s) (fits : priority ≤ maxPriority)
      (built : s.build slot id priority script primed = .ok s') : Reached s'
  | add {s s' : Scheduler} {thread : Option Nat} (reached : Reached s)
      (added : s.add thread = .ok s') : Reached s'
  | drop {s : Scheduler} (reached : Reached s) (id : String) : Reached (s.drop id)
  | select {s : Scheduler} (reached : Reached s) : Reached s.selectByPriority.2
  | prime {s : Scheduler} (reached : Reached s) (i : Nat) : Reached (s.prime i)
  | take {s : Scheduler} (reached : Reached s) (i : Nat) : Reached (s.take i)

/-- Whether the members are listed under their own identifiers, each once, no two were added at
the same time, and no thread lost priority or gained too much. -/
structure Ranked (s : Scheduler) : Prop where
  named : ∀ m ∈ s.members, ∃ t, s.threads[m.2]? = some t ∧ t.id = m.1
  distinct : (s.members.map Prod.fst).Nodup
  ordered : ∀ i t j u, (i, t) ∈ s.scheduled → (j, u) ∈ s.scheduled → t.order = u.order → i = j
  added : ∀ i t, (i, t) ∈ s.scheduled → t.order < s.added
  bounded : ∀ t ∈ s.threads, t.priority ≤ t.current ∧ t.current ≤ maxPriority

/-- Lets the threads other than the selected one gain priority, visiting members in the given
order. -/
def ageVisiting (s : Scheduler) (aged : List (String × Nat)) (selected : Nat) : Scheduler :=
  let s := aged.foldl (fun s (_, i) => if i = selected then s else s.update i Thread.aged) s
  s.update selected fun t => { t with current := t.priority }

/-- Selects a thread by priority when the members are visited in one order to find the thread,
and in another one to let the others gain priority. -/
def selectVisiting (s : Scheduler) (seen aged : List (String × Nat)) : Option Nat × Scheduler :=
  match first? { s with members := seen } with
  | none => (none, s)
  | some i => (some i, s.ageVisiting aged i)

/-- Whether a thread is scheduled and goes before all others: it has the greatest current
priority, and was added first among those that have it. -/
def Leads (s : Scheduler) (i : Nat) : Prop :=
  ∃ t, (i, t) ∈ s.scheduled ∧ ∀ j u, (j, u) ∈ s.scheduled → j ≠ i →
    u.current < t.current ∨ u.current = t.current ∧ t.order < u.order

section Steps

variable {s s' : Scheduler}

theorem getElem?_update (s : Scheduler) (i j : Nat) (f : Thread → Thread) :
    (s.update i f).threads[j]? = s.threads[j]?.map fun t => if i = j then f t else t := by
  rw [update, Array.getElem?_modify]
  by_cases h : i = j <;> simp [h]

theorem mem_scheduled_update {i j : Nat} {f : Thread → Thread} {u : Thread} :
    (j, u) ∈ (s.update i f).scheduled ↔
      ∃ t, (j, t) ∈ s.scheduled ∧ (if i = j then f t else t) = u := by
  have hschedules : (s.update i f).Schedules j ↔ s.Schedules j := .rfl
  simp only [mem_scheduled, getElem?_update, Option.map_eq_some_iff, hschedules, and_assoc,
    exists_and_left]

/-- Changing a thread in what is not its rank, or within the bounds of priorities. -/
theorem Ranked.update (h : s.Ranked) (i : Nat) {f : Thread → Thread}
    (hid : ∀ t, (f t).id = t.id) (horder : ∀ t, (f t).order = t.order)
    (hbounded : ∀ t, t.priority ≤ t.current ∧ t.current ≤ maxPriority →
      (f t).priority ≤ (f t).current ∧ (f t).current ≤ maxPriority) : (s.update i f).Ranked where
  named m hm := by
    obtain ⟨t, ht, hname⟩ := h.named m hm
    refine ⟨if i = m.2 then f t else t, ?_, ?_⟩
    · rw [getElem?_update, ht, Option.map_some]
    · split
      · rw [hid, hname]
      · exact hname
  distinct := h.distinct
  ordered j u k v hj hk heq := by
    obtain ⟨t, ht, rfl⟩ := mem_scheduled_update.mp hj
    obtain ⟨t', ht', rfl⟩ := mem_scheduled_update.mp hk
    refine h.ordered j t k t' ht ht' ?_
    simpa only [apply_ite Thread.order, horder, ite_self] using heq
  added j u hj := by
    obtain ⟨t, ht, rfl⟩ := mem_scheduled_update.mp hj
    show _ < s.added
    simpa only [apply_ite Thread.order, horder, ite_self] using h.added j t ht
  bounded u hu := by
    obtain ⟨j, hj⟩ := Array.mem_iff_getElem?.mp hu
    rw [getElem?_update] at hj
    obtain ⟨t, ht, rfl⟩ := Option.map_eq_some_iff.mp hj
    have hbound := h.bounded t (Array.mem_of_getElem? ht)
    split
    · exact hbounded t hbound
    · exact hbound

/-- Giving a thread another feed. -/
theorem Ranked.feed (h : s.Ranked) (i : Nat) (f : Feed) :
    (s.update i ({ · with feed := f })).Ranked :=
  h.update i (fun _ => rfl) (fun _ => rfl) fun _ hbound => hbound

theorem Ranked.note (h : s.Ranked) (e : LogEntry) : (s.note e).Ranked :=
  ⟨h.named, h.distinct, h.ordered, h.added, h.bounded⟩

theorem Ranked.drop (h : s.Ranked) (id : String) : (s.drop id).Ranked := by
  have hmem : ∀ {j : Nat} {t : Thread}, (j, t) ∈ (s.drop id).scheduled → (j, t) ∈ s.scheduled := by
    intro j t hj
    obtain ⟨hschedules, ht⟩ := mem_scheduled.mp hj
    obtain ⟨m, hm, rfl⟩ := List.mem_map.mp hschedules
    exact mem_scheduled.mpr ⟨List.mem_map_of_mem (List.mem_of_mem_filter hm), ht⟩
  exact ⟨fun m hm => h.named m (List.mem_of_mem_filter hm),
    h.distinct.sublist (List.filter_sublist.map _),
    fun i t j u hi hj => h.ordered i t j u (hmem hi) (hmem hj),
    fun i t hi => h.added i t (hmem hi), h.bounded⟩

theorem threads_add {i : Nat} (h : s.add (some i) = .ok s') :
    s'.threads = (s.update i ({ · with order := s.added })).threads := by
  unfold Scheduler.add at h
  split at h
  · cases h
  · rename_i j t hthread
    obtain ⟨u, -, heq⟩ := Option.map_eq_some_iff.mp hthread
    obtain rfl : i = j := (Prod.mk.inj heq).1
    split at h
    · cases h
    · obtain rfl := Except.ok.inj h
      rfl

theorem added_add {thread : Option Nat} (h : s.add thread = .ok s') :
    s'.added = s.added + 1 := by
  unfold Scheduler.add at h
  split at h
  · cases h
  · split at h
    · cases h
    · obtain rfl := Except.ok.inj h
      rfl

theorem getElem?_add {i : Nat} (h : s.add (some i) = .ok s') (j : Nat) : s'.threads[j]? =
    s.threads[j]?.map fun u => if i = j then { u with order := s.added } else u := by
  rw [threads_add h]
  exact getElem?_update s i j _

/-- What is scheduled after a thread was added. -/
theorem mem_scheduled_add {i : Nat} (h : s.add (some i) = .ok s') {j : Nat} {u : Thread}
    (hj : (j, u) ∈ s'.scheduled) : (j, u) ∈ s.scheduled ∨ j = i ∧ u.order = s.added := by
  obtain ⟨_, id, heq, -, -, -, hmembers⟩ := add_spec h
  obtain rfl := Option.some.inj heq
  obtain ⟨hschedules, hu⟩ := mem_scheduled.mp hj
  rw [Schedules, hmembers, List.map_append, List.mem_append] at hschedules
  rw [getElem?_add h, Option.map_eq_some_iff] at hu
  obtain ⟨u', hu', rfl⟩ := hu
  by_cases hij : i = j
  · exact .inr ⟨hij.symm, by rw [if_pos hij]⟩
  · rw [if_neg hij]
    refine .inl (mem_scheduled.mpr ⟨hschedules.resolve_right fun hi => hij ?_, hu'⟩)
    simpa [eq_comm] using hi

/-- A thread that is added gets a place of its own, behind all others. -/
theorem Ranked.add (h : s.Ranked) {thread : Option Nat} (hadd : s.add thread = .ok s') :
    s'.Ranked := by
  obtain ⟨i, id, rfl, hid, hnew, -, hmembers⟩ := add_spec hadd
  rw [ids_getElem?, Option.map_eq_some_iff] at hid
  obtain ⟨t, ht, rfl⟩ := hid
  have hadded : s'.added = s.added + 1 := added_add hadd
  refine ⟨fun m hm => ?_, ?_, ?_, ?_, ?_⟩
  · rw [hmembers, List.mem_append, List.mem_singleton] at hm
    obtain hm | rfl := hm
    · obtain ⟨u, hu, hname⟩ := h.named m hm
      refine ⟨_, by rw [getElem?_add hadd, hu, Option.map_some], ?_⟩
      split <;> exact hname
    · exact ⟨_, by rw [getElem?_add hadd, ht, Option.map_some], by rw [if_pos rfl]⟩
  · rw [hmembers, List.map_append, List.nodup_append']
    exact ⟨h.distinct, List.nodup_singleton _, by simpa using hnew⟩
  · intro j u k v hj hk heq
    obtain hj | ⟨rfl, hu⟩ := mem_scheduled_add hadd hj <;>
      obtain hk | ⟨rfl, hv⟩ := mem_scheduled_add hadd hk
    · exact h.ordered j u k v hj hk heq
    · have := h.added j u hj
      omega
    · have := h.added k v hk
      omega
    · rfl
  · intro j u hj
    obtain hj | ⟨-, hu⟩ := mem_scheduled_add hadd hj
    · have := h.added j u hj
      omega
    · omega
  · intro u hu
    obtain ⟨j, hj⟩ := Array.mem_iff_getElem?.mp hu
    rw [getElem?_add hadd] at hj
    obtain ⟨u', hu', rfl⟩ := Option.map_eq_some_iff.mp hj
    have hbound := h.bounded u' (Array.mem_of_getElem? hu')
    split <;> exact hbound

theorem Ranked.spawn (h : s.Ranked) (slot : String) : (s.spawn slot).Ranked := by
  unfold Scheduler.spawn
  split
  · rename_i hadd
    exact h.add hadd
  · exact h.note _

theorem Ranked.spawnAll (h : s.Ranked) (slots : List String) : (s.spawnAll slots).Ranked :=
  List.foldlRecOn slots _ h fun _ hs slot _ => hs.spawn slot

theorem Ranked.compute (h : s.Ranked) (i : Nat) : (s.compute i).Ranked := by
  unfold Scheduler.compute
  split
  · exact h
  · dsimp only
    split
    · exact (h.spawnAll _).feed i _
    · exact ((h.note _).spawnAll _).feed i _

theorem Ranked.prime (h : s.Ranked) (i : Nat) : (s.prime i).Ranked := by
  unfold Scheduler.prime
  split
  · split
    · exact h.compute i
    · exact h
  · exact h

theorem Ranked.take (h : s.Ranked) (i : Nat) : (s.take i).Ranked := by
  unfold Scheduler.take
  split
  · exact h
  · split
    · exact h.compute i
    · exact h.feed i _

/-- Making a thread schedules nothing. -/
theorem Ranked.push (h : s.Ranked) {t : Thread}
    (ht : t.priority ≤ t.current ∧ t.current ≤ maxPriority) :
    ({ s with threads := s.threads.push t } : Scheduler).Ranked := by
  have hold : ∀ {i : Nat} {u : Thread}, s.threads[i]? = some u →
      (s.threads.push t)[i]? = some u := by
    intro i u hu
    have hlt : i < s.threads.size := (Array.getElem?_eq_some_iff.mp hu).1
    rw [Array.getElem?_push, if_neg (Nat.ne_of_lt hlt), hu]
  have hmem : ∀ {i : Nat} {u : Thread},
      (i, u) ∈ ({ s with threads := s.threads.push t } : Scheduler).scheduled →
        (i, u) ∈ s.scheduled := by
    intro i u hi
    obtain ⟨hschedules, hu⟩ := mem_scheduled.mp hi
    obtain ⟨m, hm, rfl⟩ := List.mem_map.mp hschedules
    obtain ⟨u', hu', -⟩ := h.named m hm
    obtain rfl : u' = u := Option.some.inj ((hold hu').symm.trans hu)
    exact mem_scheduled.mpr ⟨List.mem_map_of_mem hm, hu'⟩
  refine ⟨fun m hm => ?_, h.distinct, fun i u j v hi hj => h.ordered i u j v (hmem hi) (hmem hj),
    fun i u hi => h.added i u (hmem hi), fun u hu => ?_⟩
  · obtain ⟨u, hu, hname⟩ := h.named m hm
    exact ⟨u, hold hu, hname⟩
  · obtain hu | rfl := Array.mem_push.mp hu
    · exact h.bounded u hu
    · exact ht

theorem Ranked.build (h : s.Ranked) {slot id : String} {priority : Int} {script : Script}
    {primed : Bool} (hfits : priority ≤ maxPriority)
    (hbuild : s.build slot id priority script primed = .ok s') : s'.Ranked := by
  unfold Scheduler.build at hbuild
  split at hbuild
  · cases hbuild
  split at hbuild
  · cases hbuild
  have hpush := h.push (t := ⟨id, priority, priority, 0, ⟨script, primed, none⟩⟩)
    ⟨Int.le_refl _, hfits⟩
  obtain rfl := Except.ok.inj hbuild
  cases primed with
  | false => exact ⟨hpush.named, hpush.distinct, hpush.ordered, hpush.added, hpush.bounded⟩
  | true =>
      have hcompute := hpush.compute s.threads.size
      exact ⟨hcompute.named, hcompute.distinct, hcompute.ordered, hcompute.added,
        hcompute.bounded⟩

/-- Gaining priority stops at the greatest one. -/
theorem Ranked.aged (h : s.Ranked) (i : Nat) : (s.update i Thread.aged).Ranked := by
  refine h.update i (fun t => ?_) (fun t => ?_) fun t hbound => ?_ <;> unfold Thread.aged
  · split <;> rfl
  · split <;> rfl
  · split
    · simp only
      omega
    · exact hbound

theorem Ranked.age (h : s.Ranked) (i : Nat) : (s.age i).Ranked :=
  age_induct h i (fun _ j h => h.aged j) fun _ h =>
    h.update i (fun _ => rfl) (fun _ => rfl) fun _ hbound =>
      ⟨Int.le_refl _, Int.le_trans hbound.1 hbound.2⟩

theorem Ranked.select (h : s.Ranked) : s.selectByPriority.2.Ranked := by
  unfold selectByPriority
  split
  · exact h
  · exact h.age _

theorem ranked_empty : empty.Ranked where
  named _ hm := absurd hm List.not_mem_nil
  distinct := List.nodup_nil
  ordered _ _ _ _ hi := absurd hi List.not_mem_nil
  added _ _ hi := absurd hi List.not_mem_nil
  bounded _ ht := absurd ht (Array.not_mem_empty _)

theorem Reached.ranked (h : Reached s) : s.Ranked := by
  induction h with
  | empty => exact ranked_empty
  | build _ hfits hbuilt ih => exact ih.build hfits hbuilt
  | add _ hadded ih => exact ih.add hadded
  | drop _ id ih => exact ih.drop id
  | select _ ih => exact ih.select
  | prime _ i ih => exact ih.prime i
  | take _ i ih => exact ih.take i

/-- A run goes through such schedulers only. -/
theorem Reached.next (h : Reached s) (previous : Option String) (signal : Signal) :
    Reached (s.next previous signal).2 := by
  cases signal with
  | quit => exact h
  | remove =>
      cases previous with
      | none => exact h.select
      | some id => exact (h.drop id).select
  | switch id =>
      unfold Scheduler.next
      dsimp only
      split
      · exact h
      · exact h.select
  | proceed => exact h.select

theorem Reached.turn (h : Reached s) (cancelled : Scheduler → Bool) (signal : Signal)
    (sender : Option String) : Reached (turn cancelled signal sender s).2 := by
  have hnext := h.next sender signal
  unfold Scheduler.turn
  split
  · exact h
  split
  · exact h
  cases hchoice : s.next sender signal with
  | mk choice s₁ =>
      rw [hchoice] at hnext
      cases choice with
      | none => exact hnext
      | some i =>
          dsimp only
          split
          · exact (hnext.prime i).drop _
          · exact (hnext.prime i).take i

theorem Reached.run (h : Reached s) (cancelled : Scheduler → Bool) (fuel : Nat) :
    Reached (s.run cancelled fuel).2 := by
  have hturns : ∀ (signal : Signal) (sender : Option String) (s : Scheduler), Reached s →
      Reached (turns cancelled fuel signal sender s).2 := by
    induction fuel with
    | zero => exact fun _ _ _ h => h
    | succ fuel ih =>
        intro signal sender s h
        have hturn := h.turn cancelled signal sender
        unfold turns
        cases hresult : Scheduler.turn cancelled signal sender s with
        | mk turned s₁ =>
            rw [hresult] at hturn
            cases turned with
            | ended ending => exact hturn
            | goOn signal sender => exact ih signal sender s₁ hturn
  exact hturns _ _ s h

end Steps

section Choice

variable {s : Scheduler}

theorem precedes_iff {a b : Thread} : precedes a b = true ↔
    b.current < a.current ∨ a.current = b.current ∧ a.order < b.order := by
  simp [precedes]

/-- No candidate goes before the best one. -/
theorem not_precedes_foldl {l : List (Nat × Thread)} {best : Option (Nat × Thread)}
    {b : Nat × Thread} (h : l.foldl better best = some b) :
    (∀ c ∈ l, ¬ precedes c.2 b.2 = true) ∧ ∀ c, best = some c → ¬ precedes c.2 b.2 = true := by
  induction l generalizing best with
  | nil =>
      refine ⟨nofun, fun c hc => ?_⟩
      obtain rfl : c = b := Option.some.inj (hc.symm.trans h)
      rw [precedes_iff]
      omega
  | cons a l ih =>
      obtain ⟨hl, hbest⟩ := ih h
      cases best with
      | none => exact ⟨List.forall_mem_cons.mpr ⟨hbest a rfl, hl⟩, nofun⟩
      | some c =>
          -- of the two candidates one is kept, and the other one does not go before it
          have hboth : ¬ precedes a.2 b.2 = true ∧ ¬ precedes c.2 b.2 = true := by
            by_cases hac : precedes a.2 c.2 = true
            · have ha := hbest a (by simp [better, hac])
              rw [precedes_iff] at hac ha ⊢
              rw [precedes_iff]
              omega
            · have hc := hbest c (by simp [better, hac])
              rw [precedes_iff] at hac hc ⊢
              rw [precedes_iff]
              omega
          refine ⟨List.forall_mem_cons.mpr ⟨hboth.1, hl⟩, fun c' hc' => ?_⟩
          obtain rfl := Option.some.inj hc'
          exact hboth.2

theorem Leads.unique {i j : Nat} (hi : s.Leads i) (hj : s.Leads j) : i = j := by
  obtain ⟨t, ht, hfirst⟩ := hi
  obtain ⟨u, hu, hfirst'⟩ := hj
  by_contra hne
  have := hfirst j u hu (Ne.symm hne)
  have := hfirst' i t ht hne
  omega

theorem Ranked.leads_of_first? (h : s.Ranked) {i : Nat} (hi : s.first? = some i) : s.Leads i := by
  obtain ⟨⟨_, t⟩, hbest, rfl⟩ := Option.map_eq_some_iff.mp hi
  have hmem := ((foldl_better s.scheduled none).1 _ hbest).resolve_right nofun
  refine ⟨t, hmem, fun j u hu hne => ?_⟩
  have hleast : ¬ precedes u t = true := (not_precedes_foldl hbest).1 (j, u) hu
  have hdistinct : u.order ≠ t.order := fun heq => hne (h.ordered j u _ t hu hmem heq)
  rw [precedes_iff] at hleast
  omega

theorem Ranked.first?_eq_some (h : s.Ranked) {i : Nat} : s.first? = some i ↔ s.Leads i := by
  refine ⟨h.leads_of_first?, fun hi => ?_⟩
  cases hfirst : s.first? with
  | some j => rw [(h.leads_of_first? hfirst).unique hi]
  | none =>
      obtain ⟨t, hmem, -⟩ := hi
      rw [((foldl_better s.scheduled none).2 (Option.map_eq_none_iff.mp hfirst)).1] at hmem
      cases hmem

theorem Ranked.first?_eq_none (h : s.Ranked) : s.first? = none ↔ s.members = [] := by
  refine ⟨fun hnone => List.eq_nil_iff_forall_not_mem.mpr fun m hm => ?_, fun hempty => ?_⟩
  · obtain ⟨t, ht, -⟩ := h.named m hm
    have hmem : (m.2, t) ∈ s.scheduled := mem_scheduled.mpr ⟨List.mem_map_of_mem hm, ht⟩
    rw [((foldl_better s.scheduled none).2 (Option.map_eq_none_iff.mp hnone)).1] at hmem
    cases hmem
  · simp [first?, scheduled, hempty]

theorem mem_scheduled_perm {seen : List (String × Nat)} (hseen : seen.Perm s.members)
    {i : Nat} {t : Thread} :
    (i, t) ∈ ({ s with members := seen } : Scheduler).scheduled ↔ (i, t) ∈ s.scheduled := by
  rw [mem_scheduled, mem_scheduled, Schedules, Schedules]
  exact and_congr_left fun _ => (hseen.map _).mem_iff

theorem Ranked.perm (h : s.Ranked) {seen : List (String × Nat)} (hseen : seen.Perm s.members) :
    ({ s with members := seen } : Scheduler).Ranked where
  named m hm := h.named m (hseen.mem_iff.mp hm)
  distinct := (hseen.map _).nodup_iff.mpr h.distinct
  ordered i t j u hi hj :=
    h.ordered i t j u ((mem_scheduled_perm hseen).mp hi) ((mem_scheduled_perm hseen).mp hj)
  added i t hi := h.added i t ((mem_scheduled_perm hseen).mp hi)
  bounded := h.bounded

/-- The first thread is the same in whatever order the members are visited. -/
theorem Ranked.first?_perm (h : s.Ranked) {seen : List (String × Nat)}
    (hseen : seen.Perm s.members) : first? { s with members := seen } = s.first? := by
  refine Option.ext fun i => ?_
  rw [(h.perm hseen).first?_eq_some, h.first?_eq_some]
  simp only [Leads, mem_scheduled_perm hseen]

theorem update_comm (s : Scheduler) (i j : Nat) (f : Thread → Thread) :
    (s.update i f).update j f = (s.update j f).update i f := by
  have hthreads : ((s.update i f).update j f).threads = ((s.update j f).update i f).threads := by
    refine Array.ext_getElem? fun k => ?_
    simp only [getElem?_update, Option.map_map, Function.comp_def]
    congr 1
    funext t
    split <;> split <;> rfl
  exact congrArg (fun threads => { s with threads := threads }) hthreads

/-- Threads gain the same priority in whatever order they are visited. -/
theorem ageVisiting_perm {aged : List (String × Nat)} (haged : aged.Perm s.members)
    (selected : Nat) : s.ageVisiting aged selected = s.age selected := by
  have : RightCommutative fun (s : Scheduler) (m : String × Nat) =>
      if m.2 = selected then s else s.update m.2 Thread.aged := by
    refine ⟨fun s m n => ?_⟩
    by_cases hm : m.2 = selected <;> by_cases hn : n.2 = selected <;>
      simp only [hm, hn, if_true, if_false]
    exact s.update_comm _ _ _
  exact congrArg (fun s : Scheduler => s.update selected fun t => { t with current := t.priority })
    (haged.foldl_eq s)

/-- Selection does not depend on the order in which the members are visited: it selects the
scheduled thread with the greatest current priority, the one added first among those, and there
is none only when no thread is scheduled. -/
theorem Reached.selectVisiting_eq (h : Reached s) :
    s.Ranked ∧
      (∀ seen aged : List (String × Nat), seen.Perm s.members → aged.Perm s.members →
        s.selectVisiting seen aged = s.selectByPriority) ∧
      (∀ i, s.selectByPriority.1 = some i ↔ s.Leads i) ∧
      (s.selectByPriority.1 = none ↔ s.members = []) := by
  have hranked := h.ranked
  have hchoice : s.selectByPriority.1 = s.first? := by
    unfold selectByPriority
    split <;> simp_all
  refine ⟨hranked, fun seen aged hseen haged => ?_, fun i => ?_, ?_⟩
  · unfold selectVisiting selectByPriority
    rw [hranked.first?_perm hseen]
    cases s.first? with
    | none => rfl
    | some i => simp only [ageVisiting_perm haged]
  · rw [hchoice, hranked.first?_eq_some]
  · rw [hchoice, hranked.first?_eq_none]

/-- Two threads of the same priority, of which the first one was added first. -/
def tied : Scheduler where
  threads := #[⟨"first", 3, 3, 0, ⟨.ofSignals [.proceed], false, none⟩⟩,
    ⟨"second", 3, 3, 1, ⟨.ofSignals [.proceed], false, none⟩⟩]
  members := [("first", 0), ("second", 1)]
  slots := [("b", 1), ("a", 0)]
  added := 2
  log := #[]

theorem tied_selectVisiting : Reached tied ∧
    ∀ seen aged : List (String × Nat), seen.Perm tied.members → aged.Perm tied.members →
      (tied.selectVisiting seen aged).1 = some 0 := by
  have hfirst : empty.build "a" "first" 3 (.ofSignals [.proceed]) false =
      .ok ⟨tied.threads.pop, [], [("a", 0)], 0, #[]⟩ := rfl
  have hsecond : build ⟨tied.threads.pop, [], [("a", 0)], 0, #[]⟩ "b" "second" 3
      (.ofSignals [.proceed]) false =
        .ok ⟨tied.threads.modify 1 ({ · with order := 0 }), [], tied.slots, 0, #[]⟩ := rfl
  have haddFirst : add ⟨tied.threads.modify 1 ({ · with order := 0 }), [], tied.slots, 0, #[]⟩
      (some 0) = .ok ⟨tied.threads.modify 1 ({ · with order := 0 }), [("first", 0)], tied.slots,
        1, #[]⟩ := rfl
  have haddSecond : add ⟨tied.threads.modify 1 ({ · with order := 0 }), [("first", 0)], tied.slots,
      1, #[]⟩ (some 1) = .ok tied := rfl
  have hreached : Reached tied :=
    .add (.add (.build (.build .empty (by decide) hfirst) (by decide) hsecond) haddFirst)
      haddSecond
  obtain ⟨-, hselect, -⟩ := Reached.selectVisiting_eq hreached
  exact ⟨hreached, fun seen aged hseen haged => by rw [hselect seen aged hseen haged]; rfl⟩

end Choice

end YieldMachine.Scheduler
