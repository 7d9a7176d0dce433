import Mathlib.Algebra.GroupWithZero.Nat
import Mathlib.Data.List.Nodup
import YieldMachine.Scheduler.Run

/-!
# What the scheduler does to its threads

Of a thread only its identifier and the signals it has not handed over matter for the
course of a run, and of a scheduler which threads are members.  This module says for every
operation of a scheduler what it does to these.
-/

namespace YieldMachine

/-- The signals that a script gives. -/
def Script.signals (script : Script) : List Signal := script.cues.map Cue.signal

/-- How much a script can still do: start threads, and give signals. -/
def Script.weight (script : Script) : Nat :=
  (script.cues.map fun cue => cue.starts.length + 1).sum + script.final.length

theorem Script.signals_eq (script : Script) :
    script.signals = (script.cues.head?.map Cue.signal).toList ++ script.tail.signals := by
  obtain ⟨cues, final⟩ := script
  cases cues <;> rfl

theorem Script.weight_eq (script : Script) :
    script.weight =
      script.starts.length + script.cues.head?.toList.length + script.tail.weight := by
  obtain ⟨cues, final⟩ := script
  cases cues with
  | nil => simp [weight, starts, tail]
  | cons cue cues =>
      simp only [weight, starts, tail, List.map_cons, List.sum_cons, List.head?_cons,
        Option.toList_some, List.length_singleton]
      omega

namespace Feed

/-- The signals that a thread has not handed over yet. -/
def signals (f : Feed) : List Signal := f.ahead.join.toList ++ f.rest.signals

/-- Whether a thread that is at its end has used up its script. -/
def Settled (f : Feed) : Prop := f.ahead = some none → f.rest = ⟨[], []⟩

/-- The feed after it was asked whether there is an element. -/
def asked (f : Feed) : Feed := if f.ahead.isNone then f.computed else f

/-- The feed after its element was handed over. -/
def handed (f : Feed) : Feed := if f.primed then f.computed else { f with ahead := none }

/-- How much a feed can still do: run its script, and hand over the signal that is there. -/
def weight (f : Feed) : Nat := f.rest.weight + f.ahead.join.toList.length

theorem settled_computed (f : Feed) : f.computed.Settled := by
  intro hahead
  obtain ⟨⟨cues, final⟩, primed, ahead⟩ := f
  cases cues with
  | nil => rfl
  | cons cue cues => simp [computed] at hahead

theorem Settled.asked {f : Feed} (h : f.Settled) : f.asked.Settled := by
  unfold Feed.asked
  split
  · exact f.settled_computed
  · exact h

theorem settled_handed (f : Feed) : f.handed.Settled := by
  unfold handed
  split
  · exact f.settled_computed
  · intro h
    simp at h

/-- The signals after the one that is computed are those of the script. -/
theorem signals_computed (f : Feed) : f.computed.signals = f.rest.signals := by
  rw [f.rest.signals_eq]
  rfl

theorem signals_asked (f : Feed) : f.asked.signals = f.signals := by
  unfold asked
  split
  · rename_i hahead
    rw [f.signals_computed, signals, Option.isNone_iff_eq_none.mp hahead]
    rfl
  · rfl

theorem signals_handed (f : Feed) : f.handed.signals = f.rest.signals := by
  unfold handed
  split
  · exact f.signals_computed
  · simp [signals]

/-- Handing over takes the first signal. -/
theorem signals_of_ahead {f : Feed} {signal : Signal} (h : f.ahead.join = some signal) :
    f.signals = signal :: f.handed.signals := by
  rw [signals_handed]
  simp [signals, h]

/-- A thread that was asked and has no element is at its end. -/
theorem signals_of_ended {f : Feed} (hf : f.Settled) (h : f.asked.ahead.join = none) :
    f.signals = [] := by
  have hahead : f.asked.ahead = some none := by
    obtain ⟨⟨cues, final⟩, primed, ahead⟩ := f
    cases ahead with
    | some result => simpa [asked] using h
    | none =>
        cases cues with
        | nil => rfl
        | cons cue cues => simp [asked, computed] at h
  rw [← signals_asked]
  simp [signals, Script.signals, h, hf.asked hahead]

/-- Computing uses up the threads that it starts. -/
theorem weight_computed (f : Feed) :
    f.computed.weight + f.rest.starts.length = f.rest.weight := by
  rw [f.rest.weight_eq]
  simp only [weight, computed, Option.join_some, Option.toList_map, List.length_map]
  omega

end Feed

namespace Scheduler

/-- The feeds of all threads. -/
def feeds (s : Scheduler) : List Feed := s.threads.toList.map (·.feed)

/-- The identifiers of all threads. -/
def ids (s : Scheduler) : List String := s.threads.toList.map (·.id)

/-- The signals that a thread has not handed over yet. -/
def signals (s : Scheduler) (i : Nat) : List Signal := (s.feeds[i]?.map Feed.signals).getD []

/-- Whether a thread is scheduled. -/
def Schedules (s : Scheduler) (i : Nat) : Prop := i ∈ s.members.map Prod.snd

/-- How much a scheduler can still do. -/
def weight (s : Scheduler) : Nat := (s.feeds.map Feed.weight).sum + s.length

/-- Whether the members are listed under their own identifiers, each once, and all feeds
are settled. -/
structure Sound (s : Scheduler) : Prop where
  named : ∀ m ∈ s.members, s.ids[m.2]? = some m.1
  distinct : (s.members.map Prod.fst).Nodup
  settled : ∀ f ∈ s.feeds, f.Settled

/-- Whether two schedulers have the same threads, up to priorities. -/
structure Alike (s s' : Scheduler) : Prop where
  feeds : s'.feeds = s.feeds
  ids : s'.ids = s.ids

namespace Alike

variable {s s' s'' : Scheduler}

theorem refl (s : Scheduler) : Alike s s := ⟨rfl, rfl⟩

theorem trans (h : Alike s s') (h' : Alike s' s'') : Alike s s'' :=
  ⟨h'.feeds.trans h.feeds, h'.ids.trans h.ids⟩

theorem signals (h : Alike s s') (i : Nat) : s'.signals i = s.signals i := by
  rw [Scheduler.signals, Scheduler.signals, h.feeds]

end Alike

section Members

variable {s : Scheduler}

theorem Sound.index_of_name (h : s.Sound) {id : String} {i j : Nat}
    (hi : (id, i) ∈ s.members) (hj : (id, j) ∈ s.members) : i = j :=
  congrArg Prod.snd (List.inj_on_of_nodup_map h.distinct hi hj rfl)

/-- Dropping the identifier of a member drops that member. -/
theorem Sound.filter_name (h : s.Sound) {id : String} {i : Nat} (hi : (id, i) ∈ s.members) :
    s.members.filter (·.1 != id) = s.members.filter (·.2 != i) := by
  apply List.filter_congr
  rintro ⟨id', j⟩ hj
  rw [Bool.eq_iff_iff, bne_iff_ne, bne_iff_ne]
  apply not_congr
  constructor
  · rintro rfl
    exact h.index_of_name hj hi
  · rintro rfl
    exact Option.some.inj ((h.named _ hj).symm.trans (h.named _ hi))

theorem Sound.exists_name (h : s.Sound) {i : Nat} (hi : s.Schedules i) :
    ∃ id, (id, i) ∈ s.members ∧ s.ids[i]? = some id := by
  obtain ⟨⟨id, j⟩, hmem, rfl⟩ := List.mem_map.mp hi
  exact ⟨id, hmem, h.named _ hmem⟩

theorem ids_getElem? (s : Scheduler) (i : Nat) : s.ids[i]? = s.threads[i]?.map (·.id) := by
  simp [ids]

theorem feeds_getElem? (s : Scheduler) (i : Nat) : s.feeds[i]? = s.threads[i]?.map (·.feed) := by
  simp [feeds]

theorem Sound.exists_thread (h : s.Sound) {i : Nat} (hi : s.Schedules i) :
    ∃ t, s.threads[i]? = some t ∧ (t.id, i) ∈ s.members := by
  obtain ⟨id, hmem, hid⟩ := h.exists_name hi
  rw [ids_getElem?, Option.map_eq_some_iff] at hid
  obtain ⟨t, ht, rfl⟩ := hid
  exact ⟨t, ht, hmem⟩

end Members

section Updates

variable {s : Scheduler} {i : Nat} {f : Thread → Thread}

theorem map_modify {α β : Type} (l : List α) (i : Nat) (f : α → α) (g : α → β)
    (h : ∀ a, g (f a) = g a) : (l.modify i f).map g = l.map g := by
  apply List.ext_getElem?
  intro j
  simp only [List.getElem?_map, List.getElem?_modify]
  cases l[j]? with
  | none => rfl
  | some a => by_cases hj : i = j <;> simp [hj, h]

/-- A change that touches neither identifier nor feed. -/
theorem update_alike (hid : ∀ t, (f t).id = t.id) (hfeed : ∀ t, (f t).feed = t.feed) :
    Alike s (s.update i f) where
  feeds := by simp [feeds, update, map_modify _ _ _ _ hfeed]
  ids := by simp [ids, update, map_modify _ _ _ _ hid]

/-- Giving a thread another feed. -/
theorem update_feed (g : Feed) (s : Scheduler) (i : Nat) :
    (s.update i ({ · with feed := g })).feeds = s.feeds.set i g ∧
      (s.update i ({ · with feed := g })).ids = s.ids := by
  constructor
  · apply List.ext_getElem?
    intro j
    by_cases hj : i = j
    · subst hj
      simp [feeds, update, List.getElem?_set_self', Function.comp_def]
    · simp [feeds, update, List.getElem?_set_ne hj, hj]
  · simp [ids, update, map_modify]

/-- What every change to a thread keeps is kept when threads gain priority. -/
theorem age_induct {P : Scheduler → Prop} {s : Scheduler} (h : P s) (selected : Nat)
    (haged : ∀ s i, P s → P (s.update i Thread.aged))
    (hreset : ∀ s, P s → P (s.update selected fun t => { t with current := t.priority })) :
    P (s.age selected) := by
  refine hreset _ (List.foldlRecOn s.members _ h fun s' hs' m _ => ?_)
  by_cases hm : m.2 = selected
  · simpa only [hm, if_true] using hs'
  · simpa only [hm, if_false] using haged s' m.2 hs'

theorem age_alike (s : Scheduler) (selected : Nat) : Alike s (s.age selected) := by
  have haged : ∀ (s' : Scheduler) (i : Nat), Alike s s' → Alike s (s'.update i Thread.aged) := by
    intro s' i h
    refine h.trans (update_alike ?_ ?_) <;> intro t <;> unfold Thread.aged <;> split <;> rfl
  exact age_induct (.refl s) selected haged fun _ h =>
    h.trans (update_alike (fun _ => rfl) fun _ => rfl)

theorem members_age (s : Scheduler) (selected : Nat) : (s.age selected).members = s.members :=
  age_induct (P := fun s' => s'.members = s.members) rfl selected (fun _ _ h => h) fun _ h => h

end Updates

section Selection

variable {s : Scheduler}

theorem foldl_better (l : List (Nat × Thread)) (best : Option (Nat × Thread)) :
    (∀ b, l.foldl better best = some b → b ∈ l ∨ best = some b) ∧
      (l.foldl better best = none → l = [] ∧ best = none) := by
  induction l generalizing best with
  | nil => simp
  | cons a l ih =>
      have hbetter : better best a = some a ∨ better best a = best ∧ best ≠ none := by
        cases best with
        | none => exact .inl rfl
        | some b =>
            unfold better
            by_cases h : precedes a.2 b.2 = true
            · exact .inl (by simp [h])
            · exact .inr (by simp [h])
      rw [List.foldl_cons]
      constructor
      · intro b hb
        obtain hmem | hbest := (ih _).1 b hb
        · exact .inl (List.mem_cons_of_mem _ hmem)
        · obtain ha | ⟨hsame, -⟩ := hbetter
          · rw [ha] at hbest
            obtain rfl := Option.some.inj hbest
            exact .inl List.mem_cons_self
          · exact .inr (hsame.symm.trans hbest)
      · intro hnone
        have hlast := ((ih _).2 hnone).2
        obtain ha | ⟨hsame, hne⟩ := hbetter
        · rw [ha] at hlast
          cases hlast
        · exact (hne (hsame.symm.trans hlast)).elim

theorem mem_scheduled {i : Nat} {t : Thread} :
    (i, t) ∈ s.scheduled ↔ s.Schedules i ∧ s.threads[i]? = some t := by
  simp only [scheduled, Schedules, List.mem_filterMap, List.mem_map, Option.map_eq_some_iff,
    Prod.mk.injEq, Prod.exists, exists_eq_right]
  constructor
  · rintro ⟨id, j, hmem, u, hu, rfl, rfl⟩
    exact ⟨⟨id, hmem⟩, hu⟩
  · rintro ⟨⟨id, hmem⟩, ht⟩
    exact ⟨id, i, hmem, t, ht, rfl, rfl⟩

/-- A choice among the members, which is empty only where there is none. -/
structure Picks (s : Scheduler) (result : Option Nat × Scheduler) : Prop where
  alike : Alike s result.2
  members : result.2.members = s.members
  chosen : ∀ i, result.1 = some i → s.Schedules i
  unchosen : result.1 = none → s.members = []

theorem Sound.selectByPriority_picks (h : s.Sound) : s.Picks s.selectByPriority := by
  unfold selectByPriority
  cases hfirst : s.first? with
  | some i =>
      refine ⟨s.age_alike i, s.members_age i, ?_, by simp⟩
      rintro _ ⟨⟩
      obtain ⟨⟨_, t⟩, hbest, rfl⟩ := Option.map_eq_some_iff.mp hfirst
      obtain hmem | hnone := (foldl_better s.scheduled none).1 _ hbest
      · exact (mem_scheduled.mp hmem).1
      · cases hnone
  | none =>
      refine ⟨.refl s, rfl, by simp, fun _ => ?_⟩
      have hempty := ((foldl_better s.scheduled none).2 (Option.map_eq_none_iff.mp hfirst)).1
      rw [List.eq_nil_iff_forall_not_mem] at hempty ⊢
      rintro ⟨id, i⟩ hmem
      obtain ⟨t, ht, -⟩ := h.exists_thread (List.mem_map_of_mem hmem)
      exact hempty _ (mem_scheduled.mpr ⟨List.mem_map_of_mem hmem, ht⟩)

end Selection

section Adding

variable {s s' : Scheduler} {thread : Option Nat}

/-- What a successful addition does: the thread was no member and is one now. -/
theorem add_spec (h : s.add thread = .ok s') :
    ∃ i id, thread = some i ∧ s.ids[i]? = some id ∧ id ∉ s.members.map Prod.fst ∧
      Alike s s' ∧ s'.members = s.members ++ [(id, i)] := by
  unfold add at h
  split at h
  · cases h
  · rename_i i t hthread
    split at h
    · cases h
    · rename_i hnew
      obtain ⟨j, rfl, ht⟩ := Option.bind_eq_some_iff.mp hthread
      obtain ⟨u, hu, heq⟩ := Option.map_eq_some_iff.mp ht
      obtain ⟨rfl, rfl⟩ := Prod.mk.inj heq
      obtain rfl := Except.ok.inj h
      refine ⟨j, u.id, rfl, by rw [ids_getElem?, hu]; rfl, ?_, ?_, rfl⟩
      · intro hmem
        apply hnew
        obtain ⟨⟨_, k⟩, hk, rfl⟩ := List.mem_map.mp hmem
        rw [member?, List.lookup_isSome_iff]
        exact ⟨_, hk, by simp⟩
      · obtain ⟨hfeeds, hids⟩ := update_alike (s := s) (i := j)
          (f := ({ · with order := s.added })) (fun _ => rfl) fun _ => rfl
        exact ⟨hfeeds, hids⟩

/-- Members that join a scheduler: new identifiers of threads that exist. -/
structure Joins (s : Scheduler) (fresh : List (String × Nat)) : Prop where
  named : ∀ m ∈ fresh, s.ids[m.2]? = some m.1
  distinct : (fresh.map Prod.fst).Nodup
  fresh : ∀ m ∈ fresh, m.1 ∉ s.members.map Prod.fst

theorem Joins.nil (s : Scheduler) : s.Joins [] :=
  ⟨by simp, by simp, by simp⟩

theorem Joins.single {id : String} {i : Nat} (hid : s.ids[i]? = some id)
    (hnew : id ∉ s.members.map Prod.fst) : s.Joins [(id, i)] :=
  ⟨by simpa using hid, by simp, by simpa using hnew⟩

/-- Members that join after others did. -/
theorem Joins.append {fresh fresh' : List (String × Nat)} (h : s.Joins fresh)
    (hmembers : s'.members = s.members ++ fresh) (hids : s'.ids = s.ids) (h' : s'.Joins fresh') :
    s.Joins (fresh ++ fresh') where
  named m hm := by
    obtain hm | hm := List.mem_append.mp hm
    · exact h.named m hm
    · exact hids ▸ h'.named m hm
  distinct := by
    rw [List.map_append]
    refine h.distinct.append h'.distinct fun id hold hnew => ?_
    obtain ⟨m, hm, rfl⟩ := List.mem_map.mp hnew
    refine h'.fresh m hm ?_
    rw [hmembers, List.map_append]
    exact List.mem_append_right _ hold
  fresh m hm hold := by
    obtain hm | hm := List.mem_append.mp hm
    · exact h.fresh m hm hold
    · refine h'.fresh m hm ?_
      rw [hmembers, List.map_append]
      exact List.mem_append_left _ hold

theorem spawn_spec (s : Scheduler) (slot : String) :
    ∃ fresh, s.Joins fresh ∧ fresh.length ≤ 1 ∧ Alike s (s.spawn slot) ∧
      (s.spawn slot).members = s.members ++ fresh := by
  unfold spawn
  split
  · rename_i s' hadd
    obtain ⟨i, id, -, hid, hnew, halike, hmembers⟩ := add_spec hadd
    exact ⟨[(id, i)], .single hid hnew, Nat.le_refl 1, halike, hmembers⟩
  · exact ⟨[], .nil s, by simp, ⟨rfl, rfl⟩, by simp [note]⟩

/-- At most as many members join as threads are started. -/
theorem spawnAll_spec (s : Scheduler) (slots : List String) :
    ∃ fresh, s.Joins fresh ∧ fresh.length ≤ slots.length ∧ Alike s (s.spawnAll slots) ∧
      (s.spawnAll slots).members = s.members ++ fresh := by
  induction slots generalizing s with
  | nil => exact ⟨[], .nil s, Nat.le_refl 0, .refl s, (List.append_nil _).symm⟩
  | cons slot slots ih =>
      obtain ⟨fresh, hjoins, hlen, halike, hmembers⟩ := s.spawn_spec slot
      obtain ⟨fresh', hjoins', hlen', halike', hmembers'⟩ := ih (s.spawn slot)
      refine ⟨fresh ++ fresh', hjoins.append hmembers halike.ids hjoins', ?_,
        halike.trans halike', ?_⟩
      · rw [List.length_append, List.length_cons]
        omega
      · rw [← List.append_assoc, ← hmembers]
        exact hmembers'

end Adding

section Computing

variable {s : Scheduler} {i : Nat} {f : Feed}

/-- What computing an element of a thread does: its script gets shorter, and the threads are
started that come before the next signal. -/
theorem compute_spec (hf : s.feeds[i]? = some f) :
    ∃ fresh, s.Joins fresh ∧ fresh.length ≤ f.rest.starts.length ∧
      (s.compute i).members = s.members ++ fresh ∧
      (s.compute i).feeds = s.feeds.set i f.computed ∧ (s.compute i).ids = s.ids := by
  rw [feeds_getElem?, Option.map_eq_some_iff] at hf
  obtain ⟨t, ht, rfl⟩ := hf
  have hnoted : ∃ noted : Scheduler,
      s.compute i = (noted.spawnAll t.feed.rest.starts).update i
        ({ · with feed := t.feed.computed }) ∧
      noted.members = s.members ∧ Alike s noted := by
    unfold compute
    rw [ht]
    by_cases hcues : t.feed.rest.cues.isEmpty = true
    · exact ⟨s, by simp only [hcues, if_true], rfl, .refl s⟩
    · exact ⟨s.note (.computed t.id), by simp only [hcues]; rfl, rfl, ⟨rfl, rfl⟩⟩
  obtain ⟨noted, hcompute, hmembers, halike⟩ := hnoted
  obtain ⟨fresh, hjoins, hlen, hspawned, hmembers'⟩ := noted.spawnAll_spec t.feed.rest.starts
  obtain ⟨hfeeds, hids⟩ := update_feed t.feed.computed (noted.spawnAll t.feed.rest.starts) i
  rw [hcompute]
  refine ⟨fresh, ⟨?_, hjoins.distinct, ?_⟩, hlen, hmembers ▸ hmembers', ?_, ?_⟩
  · exact halike.ids ▸ hjoins.named
  · exact hmembers ▸ hjoins.fresh
  · rw [hfeeds, (halike.trans hspawned).feeds]
  · rw [hids, (halike.trans hspawned).ids]

theorem prime_spec (hf : s.feeds[i]? = some f) :
    ∃ fresh, s.Joins fresh ∧ (s.prime i).members = s.members ++ fresh ∧
      (s.prime i).feeds = s.feeds.set i f.asked ∧ (s.prime i).ids = s.ids ∧
      f.asked.weight + fresh.length ≤ f.weight := by
  have hthread := hf
  rw [feeds_getElem?, Option.map_eq_some_iff] at hthread
  obtain ⟨t, ht, rfl⟩ := hthread
  unfold prime Feed.asked
  rw [ht]
  by_cases hahead : t.feed.ahead.isNone = true
  · simp only [hahead, if_true]
    obtain ⟨fresh, hjoins, hlen, hmembers, hfeeds, hids⟩ := compute_spec hf
    refine ⟨fresh, hjoins, hmembers, hfeeds, hids, ?_⟩
    have := t.feed.weight_computed
    unfold Feed.weight at this ⊢
    omega
  · simp only [hahead]
    refine ⟨[], .nil s, by simp, ?_, rfl, by simp⟩
    obtain ⟨hlt, hself⟩ := List.getElem?_eq_some_iff.mp hf
    simp [← hself]

theorem take_spec (hf : s.feeds[i]? = some f) (hahead : f.ahead.join.isSome = true) :
    ∃ fresh, s.Joins fresh ∧ (s.take i).members = s.members ++ fresh ∧
      (s.take i).feeds = s.feeds.set i f.handed ∧ (s.take i).ids = s.ids ∧
      f.handed.weight + fresh.length < f.weight := by
  obtain ⟨signal, hsignal⟩ := Option.isSome_iff_exists.mp hahead
  have hthread := hf
  rw [feeds_getElem?, Option.map_eq_some_iff] at hthread
  obtain ⟨t, ht, rfl⟩ := hthread
  unfold take Feed.handed
  rw [ht]
  by_cases hprimed : t.feed.primed = true
  · simp only [hprimed, if_true]
    obtain ⟨fresh, hjoins, hlen, hmembers, hfeeds, hids⟩ := compute_spec hf
    refine ⟨fresh, hjoins, hmembers, hfeeds, hids, ?_⟩
    have hweight := t.feed.weight_computed
    have : t.feed.weight = t.feed.rest.weight + 1 := by simp [Feed.weight, hsignal]
    omega
  · simp only [if_neg hprimed]
    obtain ⟨hfeeds, hids⟩ := update_feed { t.feed with ahead := none } s i
    refine ⟨[], .nil s, by simp [update], hfeeds, hids, ?_⟩
    simp [Feed.weight, hsignal]

end Computing

end Scheduler

end YieldMachine
