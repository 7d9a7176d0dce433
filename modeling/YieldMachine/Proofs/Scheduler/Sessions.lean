import YieldMachine.Proofs.Scheduler.Turns

/-!
# Sessions with a scheduler

A session makes threads, adds them and runs the scheduler, again and again.  A run that
nobody cancels ends, and hands over the signals of every thread in their order.  A thread
that sent its removal stays out until it is added again, provided that the run is not
cancelled in the moment after.
-/

namespace YieldMachine.Scheduler

/-- What happened in the calls that led to a scheduler. -/
inductive History : List Happening → Scheduler → Prop where
  | empty : History [] .empty
  | build {es : List Happening} {s s' : Scheduler} {slot id : String} {priority : Int}
      {script : Script} {primed : Bool} (history : History es s)
      (built : s.build slot id priority script primed = .ok s') :
      History (es ++ ((s'.members.drop s.length).map Prod.snd).map .added) s'
  | add {es : List Happening} {s s' : Scheduler} {i : Nat} (history : History es s)
      (added : s.add (some i) = .ok s') : History (es ++ [.added i]) s'
  | run {es happenings : List Happening} {s s' : Scheduler} {cancelled : Scheduler → Bool}
      {ending : Ending} (history : History es s)
      (runs : Runs cancelled none s happenings ending s') :
      History (es ++ (happenings ++ [.returned ending])) s'

section Calls

variable {s s' : Scheduler}

theorem Sound.push (hs : s.Sound) {t : Thread} (ht : t.feed.Settled) :
    ({ s with threads := s.threads.push t } : Scheduler).Sound where
  named m hm := by
    have hname := hs.named m hm
    have hlt : m.2 < s.ids.length := (List.getElem?_eq_some_iff.mp hname).1
    have hids : ({ s with threads := s.threads.push t } : Scheduler).ids = s.ids ++ [t.id] := by
      simp [ids]
    rw [hids, List.getElem?_append_left hlt, hname]
  distinct := hs.distinct
  settled f hf := by
    rw [feeds, Array.toList_push, List.map_append, List.mem_append] at hf
    obtain hf | hf := hf
    · exact hs.settled f hf
    · obtain rfl : f = t.feed := by simpa using hf
      exact ht

/-- Computing keeps a scheduler sound; it may start threads. -/
theorem Sound.compute (hs : s.Sound) {i : Nat} {f : Feed} (hf : s.feeds[i]? = some f) :
    (s.compute i).Sound ∧ ∃ fresh, (s.compute i).members = s.members ++ fresh := by
  obtain ⟨fresh, hjoins, -, hmembers, hfeeds, hids⟩ := compute_spec hf
  exact ⟨hs.join hjoins hmembers hids (hs.settled_set f.settled_computed hfeeds), fresh, hmembers⟩

theorem Sound.build (hs : s.Sound) {slot id : String} {priority : Int} {script : Script}
    {primed : Bool} (h : s.build slot id priority script primed = .ok s') :
    s'.Sound ∧ ∃ fresh, s'.members = s.members ++ fresh := by
  unfold Scheduler.build at h
  split at h
  · cases h
  split at h
  · cases h
  have hpush := hs.push (t := ⟨id, priority, priority, 0, ⟨script, primed, none⟩⟩) nofun
  cases primed with
  | false =>
      obtain rfl := Except.ok.inj h
      exact ⟨⟨hpush.named, hpush.distinct, hpush.settled⟩, [], by simp⟩
  | true =>
      obtain rfl := Except.ok.inj h
      obtain ⟨hsound, hmembers⟩ := hpush.compute (i := s.threads.size)
        (f := ⟨script, true, none⟩) (by simp [feeds])
      exact ⟨⟨hsound.named, hsound.distinct, hsound.settled⟩, hmembers⟩

theorem Sound.add (hs : s.Sound) {thread : Option Nat} (h : s.add thread = .ok s') : s'.Sound := by
  obtain ⟨i, id, -, hid, hnew, halike, hmembers⟩ := add_spec h
  refine hs.join (.single hid hnew) hmembers halike.ids ?_
  rw [halike.feeds]
  exact hs.settled

end Calls

theorem Follows.none (s : Scheduler) : s.Follows none := nofun

theorem History.sound {es : List Happening} {s : Scheduler} (h : History es s) : s.Sound := by
  induction h with
  | empty => exact ⟨nofun, List.nodup_nil, nofun⟩
  | build _ hbuilt ih => exact (ih.build hbuilt).1
  | add _ hadded ih => exact ih.add hadded
  | run _ hruns ih => exact hruns.sound ih (.none _)

/-- For a session, making a thread and adding one are the same: members join. -/
@[elab_as_elim]
theorem History.grows {motive : ∀ es s, History es s → Prop} (empty : motive [] .empty .empty)
    (grow : ∀ {es s s' fresh} (history : History es s)
      (grown : History (es ++ (fresh.map Prod.snd).map .added) s'),
      s'.members = s.members ++ fresh → motive es s history → motive _ s' grown)
    (run : ∀ {es happenings s s' cancelled ending} (history : History es s)
      (runs : Runs cancelled none s happenings ending s'),
      motive es s history → motive _ s' (history.run runs))
    {es : List Happening} {s : Scheduler} (h : History es s) : motive es s h := by
  induction h with
  | empty => exact empty
  | @build _ s s' _ _ _ _ _ history built ih =>
      obtain ⟨-, fresh, hmembers⟩ := history.sound.build built
      obtain rfl : s'.members.drop s.length = fresh := hmembers ▸ List.drop_left
      exact grow history (history.build built) hmembers ih
  | @add es s s' i history added ih =>
      obtain ⟨_, id, ⟨⟩, -, -, -, hmembers⟩ := add_spec added
      exact @grow es s s' [(id, i)] history (history.add added) hmembers ih
  | run history runs ih => exact run history runs ih

/-- A run that nobody cancels ends: no thread is left, or the signal to stop came last.
It takes the signals of each thread in their order, and a thread leaves only at its end or
by its removal. -/
theorem History.run_finishes {es : List Happening} {s : Scheduler} (h : History es s) :
    ∃ happenings s', (∃ bound, ∀ fuel ≥ bound, s.run (fun _ => false) fuel = (.finished, s')) ∧
      Runs (fun _ => false) none s happenings .finished s' ∧
      (s'.length = 0 ∨ ∃ i, happenings.getLast? = some (.took i .quit)) ∧
      (∀ i, s.signals i = happenings.filterMap (Happening.takenFrom i) ++ s'.signals i) ∧
      ∀ i, s.Schedules i ∨ .added i ∈ happenings →
        s'.Schedules i ∨ .ended i ∈ happenings ∨ .took i .remove ∈ happenings := by
  obtain ⟨happenings, ending, s', hruns⟩ := h.sound.exists_runs (.none s) fun _ => false
  obtain rfl := hruns.eq_finished fun _ => rfl
  refine ⟨happenings, s', hruns.run_eq, hruns, ?_, hruns.signals, ?_⟩
  · exact hruns.finished.imp (by simp [length, ·]) (by simp)
  · intro i hi
    simpa using hruns.schedules_or_left hi

/-- What the first of two threads does: it starts the other one and hands over to it, tries to
start it again and hands over by priority, and starts it once more at its end. -/
def relayed : Script := ⟨[⟨["next"], .switch "second"⟩, ⟨["next"], .proceed⟩], ["next"]⟩

/-- Two threads, of which the scheduled one starts the other. -/
def relay : Scheduler where
  threads := #[⟨"first", 1, 1, 0, ⟨relayed, false, none⟩⟩,
    ⟨"second", 0, 0, 0, ⟨.ofSignals [.proceed, .remove], false, none⟩⟩]
  members := [("first", 0)]
  slots := [("next", 1), ("start", 0)]
  added := 1
  log := #[]

theorem relay_finishes : History [.added 0] relay ∧
    ∃ happenings s', (∃ bound, ∀ fuel ≥ bound,
        relay.run (fun _ => false) fuel = (.finished, s')) ∧
      Runs (fun _ => false) none relay happenings .finished s' ∧
      (s'.length = 0 ∨ ∃ i, happenings.getLast? = some (.took i .quit)) ∧
      (∀ i, relay.signals i = happenings.filterMap (Happening.takenFrom i) ++ s'.signals i) ∧
      ∀ i, relay.Schedules i ∨ .added i ∈ happenings →
        s'.Schedules i ∨ .ended i ∈ happenings ∨ .took i .remove ∈ happenings := by
  have hfirst : empty.build "start" "first" 1 relayed false =
        .ok ⟨relay.threads.pop, [], [("start", 0)], 0, #[]⟩ := rfl
  have hsecond : build ⟨relay.threads.pop, [], [("start", 0)], 0, #[]⟩ "next" "second" 0
      (.ofSignals [.proceed, .remove]) false = .ok { relay with members := [], added := 0 } := rfl
  have hhistory : History [.added 0] relay := .add (.build (.build .empty hfirst) hsecond) rfl
  exact ⟨hhistory, hhistory.run_finishes⟩

/-- Whether a thread that sent its removal is left alone until it is added again, unless the
run is cancelled in the moment after. -/
structure Respects (i : Nat) (es : List Happening) (s : Scheduler) : Prop where
  resumed : ∀ before between e after,
    es = before ++ .took i .remove :: (between ++ e :: after) → e.Resumes i →
      .added i ∈ between ∨ between.head? = some (.returned .cancelled)
  scheduled : ∀ before between,
    es = before ++ .took i .remove :: between → s.Schedules i →
      .added i ∈ between ∨ between.head? = some (.returned .cancelled)

section Removal

variable {i : Nat} {es new : List Happening} {s s' : Scheduler}

theorem head?_append_of_some {l l' : List Happening} {e : Happening} (h : l.head? = some e) :
    (l ++ l').head? = some e := by
  simp [List.head?_append, h]

/-- Two parts of a session, the first of which does not end with the removal. -/
theorem Respects.append (h : Respects i es s) (hnew : Respects i new s')
    (hresumed : ¬ s.Schedules i → ∀ before e after, new = before ++ e :: after →
      e.Resumes i → .added i ∈ before)
    (hscheduled : ¬ s.Schedules i → s'.Schedules i → .added i ∈ new) :
    Respects i (es ++ new) s' where
  resumed before between e after hsplit he := by
    obtain ⟨old, hes, htail⟩ | ⟨middle, -, htail⟩ := split_append hsplit
    · obtain ⟨rest, rfl, -⟩ | ⟨rest, rfl, hrest⟩ := split_append htail.symm
      · exact h.resumed before between e rest hes he
      · by_cases hi : s.Schedules i
        · exact (h.scheduled before old hes hi).imp (List.mem_append_left _) head?_append_of_some
        · exact .inl (List.mem_append_right _ (hresumed hi rest e after hrest he))
    · exact hnew.resumed middle between e after htail he
  scheduled before between hsplit hi' := by
    obtain ⟨old, hes, rfl⟩ | ⟨middle, -, htail⟩ := split_append hsplit
    · by_cases hi : s.Schedules i
      · exact (h.scheduled before old hes hi).imp (List.mem_append_left _) head?_append_of_some
      · exact .inl (List.mem_append_right _ (hscheduled hi hi'))
    · exact hnew.scheduled middle between htail hi'

/-- Additions take no signal. -/
theorem Respects.of_added {added : List Nat} : Respects i (added.map .added) s where
  resumed before between e after hsplit _ := by
    have hmem : .took i .remove ∈ added.map Happening.added := by simp [hsplit]
    simp at hmem
  scheduled before between hsplit _ := by
    have hmem : .took i .remove ∈ added.map Happening.added := by simp [hsplit]
    simp at hmem

theorem Respects.join (h : Respects i es s) {fresh : List (String × Nat)}
    (hmembers : s'.members = s.members ++ fresh) :
    Respects i (es ++ (fresh.map Prod.snd).map .added) s' := by
  refine h.append .of_added ?_ ?_
  · intro _ before e after hsplit he
    have hmem : e ∈ (fresh.map Prod.snd).map Happening.added := by simp [hsplit]
    obtain ⟨j, -, rfl⟩ := List.mem_map.mp hmem
    exact he.elim
  · intro hi hi'
    rw [Schedules, hmembers, List.map_append, List.mem_append] at hi'
    exact List.mem_map_of_mem (hi'.resolve_left hi)

/-- The turns after the removal of a thread, with the end of the run. -/
theorem Runs.after_remove {cancelled : Scheduler → Bool} {last : Option Happening}
    {happenings before between : List Happening} {ending : Ending}
    (h : Runs cancelled last s happenings ending s')
    (hsplit : happenings ++ [.returned ending] = before ++ .took i .remove :: between) :
    ∃ rest s₁, between = rest ++ [.returned ending] ∧
      Runs cancelled (some (.took i .remove)) s₁ rest ending s' ∧ s₁.Schedules i := by
  obtain ⟨rest, htaken, rfl⟩ | ⟨middle, -, htail⟩ := split_append hsplit
  · obtain ⟨s₁, hrest, hi⟩ := h.after_took htaken
    exact ⟨rest, s₁, rfl, hrest, hi⟩
  · have hmem : Happening.took i .remove ∈ [Happening.returned ending] := by simp [htail]
    simp at hmem

theorem not_mem_kept_remove (s : Scheduler) (i : Nat) :
    i ∉ (s.kept (some (.took i .remove))).map Prod.snd := by
  simp [kept]

theorem Runs.respects {cancelled : Scheduler → Bool} {happenings : List Happening}
    {ending : Ending} (h : Runs cancelled none s happenings ending s') :
    Respects i (happenings ++ [.returned ending]) s' where
  resumed before between e after hsplit he := by
    obtain ⟨rest, s₁, hbetween, hrest, -⟩ := h.after_remove hsplit
    obtain ⟨middle, rfl, -⟩ | ⟨middle, -, htail⟩ := split_append hbetween.symm
    · exact .inl (hrest.added_of_resumes (s₁.not_mem_kept_remove i) rfl he)
    · have hmem : e ∈ [Happening.returned ending] := by simp [htail]
      obtain rfl := List.mem_singleton.mp hmem
      exact he.elim
  scheduled before between hsplit hi' := by
    obtain ⟨rest, s₁, rfl, hrest, -⟩ := h.after_remove hsplit
    obtain hadded | ⟨rfl, rfl, -⟩ := hrest.added_of_schedules (s₁.not_mem_kept_remove i) hi'
    · exact .inl (List.mem_append_left _ hadded)
    · exact .inr rfl

theorem History.respects (h : History es s) (i : Nat) : Respects i es s := by
  induction h using History.grows with
  | empty => exact ⟨by simp, by simp⟩
  | grow _ _ hmembers ih => exact ih.join hmembers
  | @run _ happenings s _ _ ending _ hruns ih =>
      refine ih.append hruns.respects ?_ ?_
      · intro hi before e after hsplit he
        obtain ⟨middle, hhappenings, -⟩ | ⟨middle, -, htail⟩ := split_append hsplit
        · exact hruns.added_of_resumes hi hhappenings he
        · have hmem : e ∈ [Happening.returned ending] := by simp [htail]
          obtain rfl := List.mem_singleton.mp hmem
          exact he.elim
      · intro hi hi'
        obtain hadded | ⟨-, -, hsched⟩ := hruns.added_of_schedules hi hi'
        · exact List.mem_append_left _ hadded
        · exact (hi hsched).elim

theorem split_added {added : List Nat} {before after : List Happening} {e : Happening}
    (hsplit : es ++ added.map .added = before ++ e :: after) (he : ∀ j, e ≠ .added j) :
    ∃ middle, es = before ++ e :: middle ∧ after = middle ++ added.map .added := by
  obtain hold | ⟨middle, -, hadded⟩ := split_append hsplit
  · exact hold
  · have hmem : e ∈ added.map Happening.added := by simp [hadded]
    obtain ⟨j, -, rfl⟩ := List.mem_map.mp hmem
    exact (he j rfl).elim

/-- A session pauses between runs only. -/
theorem History.ne_took_last (h : History es s) {signal : Signal} {before : List Happening} :
    es ≠ before ++ [.took i signal] := by
  induction h using History.grows generalizing before with
  | empty => simp
  | grow _ _ _ ih =>
      intro hsplit
      obtain ⟨middle, hes, hnil⟩ := split_added hsplit (by simp)
      obtain ⟨rfl, -⟩ := List.nil_eq_append_iff.mp hnil
      exact ih hes
  | run _ _ _ =>
      rw [← List.append_assoc]
      intro hsplit
      have hlast := List.append_inj_right' hsplit rfl
      simp at hlast

/-- A run that is cancelled before its first turn changes nothing. -/
theorem Runs.eq_of_cancelled {cancelled : Scheduler → Bool} {last : Option Happening}
    (h : Runs cancelled last s [] .cancelled s') : s' = s := by
  generalize hnone : ([] : List Happening) = happenings at h
  cases h with
  | stop _ hstopped =>
      cases hstopped
      rfl
  | goOn _ _ _ => simp at hnone

/-- A run that is cancelled in the moment after a thread sent its removal leaves it in. -/
theorem History.schedules_of_cancelled (h : History es s) {before : List Happening}
    (hes : es = before ++ [.took i .remove, .returned .cancelled]) : s.Schedules i := by
  induction h using History.grows generalizing before with
  | empty => simp at hes
  | grow _ _ hmembers ih =>
      rw [Schedules, hmembers, List.map_append]
      obtain ⟨middle, hold, hlast⟩ := split_added hes (by simp)
      cases middle with
      | nil =>
          have hmem : Happening.returned .cancelled ∈ [Happening.returned .cancelled] := by simp
          rw [hlast] at hmem
          simp at hmem
      | cons _ middle =>
          obtain ⟨rfl, hnil⟩ := List.cons.inj hlast
          obtain ⟨rfl, -⟩ := List.nil_eq_append_iff.mp hnil
          exact List.mem_append_left _ (ih hold)
  | @run es happenings s s' _ ending history hruns _ =>
      have hsplit : (es ++ happenings) ++ [Happening.returned ending] =
          (before ++ [.took i .remove]) ++ [.returned .cancelled] := by
        simpa using hes
      have hending : ending = .cancelled := by simpa using List.append_inj_right' hsplit rfl
      subst hending
      obtain ⟨middle, hold, hnil⟩ | ⟨middle, -, hhappenings⟩ :=
        split_append (List.append_inj_left' hsplit rfl)
      · obtain ⟨rfl, -⟩ := List.nil_eq_append_iff.mp hnil
        exact (history.ne_took_last hold).elim
      · obtain ⟨s₁, hrest, hi⟩ := hruns.after_took hhappenings
        rw [hrest.eq_of_cancelled]
        exact hi

end Removal

/-- A thread that sent its removal is resumed only after it was added again, or where the run
was cancelled in the moment after, for then the removal is lost. -/
theorem History.resumed_after_remove {es : List Happening} {s : Scheduler} (h : History es s) :
    (∀ before between after i e, es = before ++ .took i .remove :: (between ++ e :: after) →
        e.Resumes i → .added i ∈ between ∨ between.head? = some (.returned .cancelled)) ∧
      ∀ before i, es = before ++ [.took i .remove, .returned .cancelled] → s.Schedules i :=
  ⟨fun before between after i e => (h.respects i).resumed before between e after,
    fun _ _ hes => h.schedules_of_cancelled hes⟩

/-- A scheduler with a single thread that has some signals to send. -/
def solo (script : List Signal) (log : Array LogEntry) : Scheduler :=
  ⟨#[⟨"solo", 0, 0, 0, ⟨.ofSignals script, false, none⟩⟩], [("solo", 0)], [("solo", 0)], 1, log⟩

theorem solo_history (script : List Signal) : History [.added 0] (solo script #[]) := by
  have hbuilt : empty.build "solo" "solo" 0 (.ofSignals script) false =
      .ok { solo script #[] with members := [], added := 0 } := rfl
  exact .add (.build .empty hbuilt) rfl

/-- A run that is cancelled after the first signal. -/
theorem solo_runs (signal : Signal) (script : List Signal) (log : Array LogEntry) :
    Runs (fun s => log.size < s.log.size) none (solo (signal :: script) log) [.took 0 signal]
      .cancelled (solo script (log.push (.computed "solo"))) := by
  have hturn : (solo (signal :: script) log).turnAfter (fun s => log.size < s.log.size) none =
      (.goOn signal (some "solo"), solo script (log.push (.computed "solo"))) := by
    have hnext : (solo (signal :: script) log).next none .proceed =
        (some 0, solo (signal :: script) log) := rfl
    have hahead : ((solo (signal :: script) log).prime 0).ahead? 0 = some signal := rfl
    exact turn_took (by simp [solo]) (by simp [solo]) hnext rfl hahead
  have hothers : ∀ j, j ≠ 0 → (solo script (log.push (.computed "solo"))).signals j =
      (solo (signal :: script) log).signals j := by
    rintro (_ | j) hj
    · exact absurd rfl hj
    · rfl
  have hstop : (solo script (log.push (.computed "solo"))).turnAfter
      (fun s => log.size < s.log.size) (some (.took 0 signal)) =
        (.ended .cancelled, solo script (log.push (.computed "solo"))) := by
    simp [turnAfter, turn, solo]
  exact .goOn hturn (.took (by simp [solo, kept]) rfl hothers (List.append_nil _).symm)
    (.stop hstop (.cancelled (by simp [solo])))

/-- A session in which the removal of the only thread is lost. -/
theorem solo_cancelled_history : History
    [.added 0, .took 0 .remove, .returned .cancelled, .took 0 .proceed, .returned .cancelled]
    (solo [] #[.computed "solo", .computed "solo"]) :=
  ((solo_history [.remove, .proceed]).run (solo_runs ..)).run (solo_runs ..)

theorem solo_resumed_after_remove :
    History [.added 0, .took 0 .remove, .returned .cancelled]
        (solo [.proceed] #[.computed "solo"]) ∧
      (solo [.proceed] #[.computed "solo"]).Schedules 0 := by
  have hhistory := (solo_history [.remove, .proceed]).run (solo_runs ..)
  exact ⟨hhistory, hhistory.resumed_after_remove.2 [.added 0] 0 rfl⟩

/-- A thread goes on after its removal although it was not added again. -/
theorem exists_resumed_after_remove : ∃ es s, History es s ∧ ∃ before between after i e,
    es = before ++ .took i .remove :: (between ++ e :: after) ∧ e.Resumes i ∧
      .added i ∉ between :=
  ⟨_, _, solo_cancelled_history, [.added 0], [.returned .cancelled], [.returned .cancelled], 0,
    .took 0 .proceed, rfl, rfl, by decide⟩

end YieldMachine.Scheduler
