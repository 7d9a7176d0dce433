import Mathlib.Data.List.Dedup
import YieldMachine.Proofs.Lowering.Tables
import YieldMachine.Proofs.Simulation.Events
import YieldMachine.Proofs.Simulation.Lowered

/-!
# Lowering preserves meaning

A new holder keeps the parameters in fields of the same names, which is how a generator body
begins.  From there the table does what the body does, so that both have the same events.
-/

namespace YieldMachine

open Lowering Behaviour Draft

section Parameters

/-- The names that parameters give fields to. -/
def fieldNames (fs : List Field) : List String := (fs.flatMap Field.names).filter (· != "_")

theorem find?_foldl_withRename (names : List String) (env : StateEnv) (x : String) :
    (names.foldl (fun env name => env.withRename name ⟨name, true⟩) env).find? x =
      if x ∈ names then some ⟨x, true⟩ else env.find? x := by
  induction names generalizing env with
  | nil => simp
  | cons name names ih =>
      rw [List.foldl_cons, ih]
      by_cases hmem : x ∈ names
      · simp [hmem]
      · by_cases hx : x = name
        · subst hx
          simp [hmem, Env.find?, Env.withRename]
        · simp [hmem, hx, Env.find?, Env.withRename, Renames.find?_insert_of_ne]

/-- The fields of parameters keep their names. -/
theorem lowerParams_ok {fs : List Field} {env env' : StateEnv} {d d' : Draft}
    (h : lowerParams fs env d = .ok (env', d')) :
    (∀ x, env'.find? x = if x ∈ fieldNames fs then some ⟨x, true⟩ else env.find? x) ∧
      ∀ x ∈ fieldNames fs, x ∈ d'.used ∧ x ∈ d'.fields.map Prod.fst := by
  induction fs generalizing env d with
  | nil =>
      cases h
      simp [fieldNames]
  | cons f fs ih =>
      rw [lowerParams, bind_ok] at h
      obtain ⟨env₁, d₁, hfirst, hrest⟩ := h
      obtain ⟨hfind, hkept⟩ := ih hrest
      have hext := ((lowerParams_ensures (E := fun _ => True) fs env₁).ok hrest).1.2
      cases hfirst
      have hnames : fieldNames (f :: fs) = f.names.filter (· != "_") ++ fieldNames fs := by
        simp [fieldNames]
      refine ⟨fun x => ?_, fun x hx => ?_⟩
      · rw [hfind, find?_foldl_withRename, hnames]
        by_cases hmem : x ∈ fieldNames fs <;> simp [hmem]
      · rw [hnames, List.mem_append] at hx
        rcases hx with hx | hx
        · refine ⟨hext.used.subset (List.mem_append_left _ hx),
            (hext.fields.map Prod.fst).subset ?_⟩
          simp only [List.map_append, List.map_map, List.mem_append]
          exact .inr (by simpa [Function.comp_def] using hx)
        · exact hkept x hx

variable {fn : Routine} {args : Bindings}

theorem lookup_foldl_put (b given : Bindings) (x : String) :
    (given.foldl (fun b p => Bindings.put b p.1 p.2) b).lookup x =
      (given.reverse.lookup x).or (b.lookup x) := by
  induction given generalizing b with
  | nil => simp
  | cons p given ih =>
      obtain ⟨name, value⟩ := p
      rw [List.foldl_cons, ih, Bindings.lookup_put, List.reverse_cons, List.lookup_append]
      by_cases hx : x = name
      · subst hx
        cases given.reverse.lookup x <;> simp
      · have hne : (x == name) = false := by simpa using hx
        cases given.reverse.lookup x <;> simp [hx, List.lookup_cons, hne]

theorem lookup_map_self {α : Type} (names : List String) (value : String → α) (x : String) :
    (names.map fun y => (y, value y)).lookup x = if x ∈ names then some (value x) else none := by
  induction names with
  | nil => simp
  | cons name names ih =>
      by_cases hx : x = name
      · subst hx
        simp
      · have hne : (x == name) = false := by simpa using hx
        simp [List.lookup_cons, hne, ih, hx]

theorem Holder.initial_eq (h : Holder) (args : Bindings) :
    h.initial args = (((h.fields.map Prod.fst).map fun y => (y, Value.nil)) ++ args).foldl
      (fun b p => Bindings.put b p.1 p.2) [] := by
  rw [List.map_map]
  rfl

/-- The value that a field of a new holder has. -/
theorem Holder.lookup_initial (h : Holder) {f : String} (hf : f ∈ h.fields.map Prod.fst) :
    (h.initial args).lookup f = some ((args.reverse.lookup f).getD .nil) := by
  rw [h.initial_eq, lookup_foldl_put, List.reverse_append, List.lookup_append, ← List.map_reverse,
    lookup_map_self, if_pos (List.mem_reverse.mpr hf)]
  cases args.reverse.lookup f <;> simp

/-- How the fields of a new holder are used: they hold the parameters. -/
def Routine.ground (fn : Routine) (fields : List String) : Ground :=
  ⟨fields, [fn.parameters.dedup.map fun x => (x, x)], []⟩

theorem Routine.field?_ground (fields : List String) (x : String) :
    (fn.ground fields).layout.field? x = if x ∈ fn.parameters then some x else none := by
  simp [Routine.ground, lookup_map_self, List.mem_dedup]

theorem Routine.taken_ground (fields : List String) :
    (fn.ground fields).taken = fn.parameters.dedup := by
  simp [Ground.taken, Routine.ground, Function.comp_def]

/-- The fields of a new holder hold the parameters. -/
theorem Routine.frame_stored (h : Holder) (args : Bindings)
    (hparams : ∀ x ∈ fn.parameters, x ∈ h.fields.map Prod.fst) :
    Stored (fn.ground (h.fields.map Prod.fst)) [fn.frame args] (h.initial args) where
  frames := by
    refine .cons (fun x => ?_) .nil
    rw [Routine.frame, lookup_map_self, lookup_map_self]
    by_cases hx : x ∈ fn.parameters
    · simp [hx, List.mem_dedup, h.lookup_initial (hparams x hx)]
    · simp [hx, List.mem_dedup]
  present f hf := by simp [h.lookup_initial hf]
  known f hf := hparams f (by simpa [Routine.ground, Function.comp_def, List.mem_dedup] using hf)
  distinct := by
    rw [Routine.taken_ground]
    exact List.nodup_dedup _
  pinned := by simp [Routine.ground]

/-- A body begins with its parameters in fields. -/
theorem Routine.ground_fits {env : StateEnv} {d : Draft} {fields : List String}
    (hreserved : ∀ x ∈ fn.parameters, x ∉ reservedNames)
    (hfind : ∀ x, env.find? x = if x ∈ fn.parameters then some ⟨x, true⟩ else none)
    (hused : ∀ x ∈ fn.parameters, x ∈ d.used) :
    (fn.ground fields).Fits (Scopes.visible [fn.parameters] fn.runtime) env d where
  resolves :=
    { plain := fun x t ht hfield => by
        rw [show Renames.find? env.renames x = _ from hfind x] at ht
        split at ht
        · cases ht
          cases hfield
        · cases ht
      field := fun x t ht _ => by
        rw [show Renames.find? env.renames x = _ from hfind x] at ht
        split at ht
        · rename_i hx
          cases ht
          refine ⟨by simpa [Scopes.visible] using hx, hreserved x hx, ?_,
            Nesting.not_binds_nil x, by rw [Routine.field?_ground, if_pos hx]⟩
          rintro rfl
          simp [Routine.parameters] at hx
        · cases ht
      stored := fun x f hf _ => by
        rw [Routine.field?_ground] at hf
        rw [show Renames.find? env.renames x = _ from hfind x]
        split at hf
        · rename_i hx
          cases hf
          rw [if_pos hx]
        · cases hf
      blank := by simp [Routine.field?_ground, Routine.parameters] }
  used f hf := hused f (by simpa [Routine.taken_ground, List.mem_dedup] using hf)
  room := by simp [Routine.ground]

end Parameters

section Whole

variable {fn : Routine} {split : Nat → Flow → Bool} {holder : Holder}

/-- The table of a holder as it is run. -/
def Holder.setting (h : Holder) (around : Environs) (n : Nat) : Setting :=
  ⟨⟨h.recv, h.runtime, around⟩, h.states, h.fields.map Prod.fst, n⟩

/-- Entering the state that finishes a generator ends it. -/
theorem Holder.Complete.enter_end (h : holder.Complete) (around : Environs)
    (n rounds : Nat) {α : Type} (a : α) {m mt : Memory} (hheap : mt.heap = m.heap) :
    (holder.setting around n).Sim rounds (Course.done a m)
      ((holder.setting around n).enter endState mt) := by
  have hget : holder.states.getD endState [] = [.finish] := by
    rw [List.getD_eq_getElem?_getD, h.finish]
    rfl
  refine Setting.Sim.enter (List.getElem?_eq_some_iff.mp h.finish).1 ?_
  unfold Setting.resume
  rw [show (holder.setting around n).states = holder.states from rfl, hget, List.drop_zero,
    running_finish]
  exact ⟨1, mt, (reaches_now _).delay mt, hheap⟩

theorem Holder.Complete.ready (h : holder.Complete) (hrecv : holder.recv = receiverName)
    (hruntime : holder.runtime ≠ iteratorName) (around : Environs) (n : Nat) :
    (holder.setting around n).Ready where
  recv := hrecv
  runtime := hruntime
  jumps q goal value hjump := by
    change .jump goal value ∈ opsParts (holder.states.getD q []) at hjump
    by_cases hq : q = endState
    · subst hq
      rw [List.getD_eq_getElem?_getD, h.finish] at hjump
      simp [opsParts, Op.parts] at hjump
    · cases hops : holder.states[q]? with
      | none =>
          rw [List.getD_eq_getElem?_getD, hops] at hjump
          simp [opsParts] at hjump
      | some ops =>
          rw [List.getD_eq_getElem?_getD, hops] at hjump
          exact h.fits q ops hq hops _ hjump

theorem Draft.Within.self (d : Draft) : d.Within d.states (d.fields.map Prod.fst) where
  ops _ := List.prefix_refl _
  size := Nat.le_refl _
  fields _ hf := hf

/-- The table of a generator simulates its body. -/
theorem Routine.course_simulated (hfn : fn.WellFormed)
    (hsplit : ∀ n s, s.modifiesControlFlow = true → split n s = true)
    (h : fn.lowerWith split = .ok holder) (around : Environs) (n : Nat)
    (args : Bindings) (heap : Heap) :
    (holder.setting around n).Sim n (fn.course around n args heap)
      ((holder.setting around n).enter entryState ⟨holder.initial args, [], heap⟩) := by
  obtain ⟨hregular, hreserved, hruntime, hplain⟩ := hfn
  have hcomplete : holder.Complete := (Routine.lowerWith_complete (E := fun _ => True) split
    (fun _ _ => trivial) (.of_parts _ (flows_regular_parts fn.body hregular))).1 holder h
  obtain ⟨d, hbody, rfl⟩ := Routine.lowerWith_ok h
  rw [Routine.lowerBody, bind_ok] at hbody
  obtain ⟨env, d₁, hparams, hbody⟩ := hbody
  rw [newState_bind] at hbody
  obtain ⟨hfind, hkept⟩ := lowerParams_ok hparams
  obtain ⟨⟨hstates, hext⟩, hsame⟩ := (lowerParams_ensures (E := fun _ => True) _ _).ok hparams
  have hsize : d₁.size = 2 := by
    rw [Draft.size, hstates]
    rfl
  have hready : d₁.Ready entryState := ⟨[], by rw [hstates]; rfl, isOpen_nil⟩
  have hwithin := (Draft.Within.self (d.append endState .finish)).of_append
  have hfits : (fn.ground ((d.append endState .finish).fields.map Prod.fst)).Fits
      (Scopes.visible [fn.parameters] fn.runtime) env d₁ :=
    Routine.ground_fits hreserved hfind fun x hx => (hkept x hx).1
  have hstands : (((d.append endState .finish).holder fn).setting around n).Stands
      (fn.ground ((d.append endState .finish).fields.map Prod.fst))
      ⟨[fn.parameters], false, false, []⟩ env d₁ entryState :=
    ⟨Draft.initial_sound.of_states hstates, hsame.fits (Env.start_fits.mono hext.size_le), hready,
      hfits, rfl⟩
  have hlowered : FlowsLowered (((d.append endState .finish).holder fn).setting around n)
      ⟨fn.name, fn.runtime, split⟩ ⟨[fn.parameters], false, false, []⟩ fn.body :=
    flows_lowered (hcomplete.ready rfl hruntime around n) hsplit fn.body hregular hplain
  have hruns := hlowered hstands.reserve d₁.ready_reserve (by rw [hsize]; decide)
    (ops_new _) hbody hwithin
  have hext' := (lowerStmts_after hregular hstands.reserve.sound hstands.reserve.targets
    hstands.reserve.ready d₁.ready_reserve (by rw [hsize]; decide) hbody).2.1
  have hfields : ∀ x ∈ fn.parameters, x ∈ (d.append endState .finish).fields.map Prod.fst :=
    fun x hx => (hext'.fields.map Prod.fst).subset (hkept x hx).2
  have hentry : d₁.reserve.ops entryState = [] := by
    rw [ops_reserve, ops_of_states hstates]
    rfl
  rw [hentry, hsame.1] at hruns
  have hend : ∀ (c : Ending) (m mt : Memory), mt.heap = m.heap →
      (((d.append endState .finish).holder fn).setting around n).Sim n (.done c m)
        ((((d.append endState .finish).holder fn).setting around n).enter endState mt) :=
    fun c m mt hheap => hcomplete.enter_end around n n c hheap
  have hbreak : ∀ l, env.break? l = none := fun l => by
    rw [Env.break?, hsame.2.1]
    rfl
  have hcontinue : ∀ l, env.continue? l = none := fun l => by
    rw [Env.continue?, hsame.2.2.1]
    rfl
  have hlt : entryState < (d.append endState .finish).size := by
    rw [size_append]
    exact Nat.lt_of_lt_of_le hstands.reserve.ready.lt hext'.size_le
  have hlinked : Linked (fn.ground ((d.append endState .finish).fields.map Prod.fst)) []
      ⟨[], [fn.frame args], heap⟩
      ⟨((d.append endState .finish).holder fn).initial args, [], heap⟩ :=
    ⟨rfl, rfl, rfl, Routine.frame_stored ((d.append endState .finish).holder fn) args hfields⟩
  have hrun := (hruns.enter hlt) (K := fun c m => .done c m) (Nat.le_refl n)
    (fun _ => ⟨fun l goal _ _ hgoal => by simp [hbreak l] at hgoal,
      fun l goal _ _ hgoal => by simp [hcontinue l] at hgoal, fun m mt hm => hend _ _ _ hm.heap⟩)
    (fun m mt hm => hend _ _ _ hm.heap) hlinked
  rw [Course.bind_done_right] at hrun
  exact hrun

/-- With any choice of the statements to split that has all that change the control flow, a
generator has the same events as its table. -/
theorem Routine.lowerWith_events (hfn : fn.WellFormed)
    (hsplit : ∀ n s, s.modifiesControlFlow = true → split n s = true)
    (h : fn.lowerWith split = .ok holder) (around : Environs) (args : Bindings)
    (heap : Heap) (changes : List (Heap → Heap)) (events : List Event) :
    Settles (fun n => fn.events around n args heap changes) events ↔
      Settles (fun n => holder.events around n args heap changes) events :=
  settles_iff (fun n => Routine.course_simulated hfn hsplit h around n args heap) changes events

/-- A generator that counts up to its parameter and leaves out one number. -/
def counting : Routine where
  name := "counting"
  recv := none
  typeParams := .absent
  params := .list [.mk ["n"] (.name "int") none]
  elem := .name "int"
  runtime := "yieldgen"
  body :=
    [.loop (.declare ⟨["i"], [.own (.name "int")], [.lit .int "0"], true⟩)
      (.binary .lt (.name "i") (.name "n")) (.simple (.incDec true (.name "i")))
      [.ite (.binary .eq (.name "i") (.lit .int "2")) [.cont ""] .missing, .yield (.name "i")]]

theorem counting_wellFormed : counting.WellFormed := by
  have hparams : counting.parameters = ["n"] := by decide
  have hnames : "i" ∉ unreadNames ∧ "n" ∉ unreadNames ∧ "i" ∉ reservedNames ∧
      "n" ∉ reservedNames := by decide
  refine ⟨?_, ?_, by decide, ?_⟩
  · rw [Routine.Regular, hparams]
    refine ⟨⟨⟨rfl, by decide, ?_⟩, ⟨rfl, rfl, trivial⟩, ?_⟩, trivial⟩
    · simp [VarDecl.reusedFrom, VarDecl.reuses, VarDecl.typeAt?, Expr.isMissing, Expr.name]
    · simp [flowsRegular, Flow.Regular, Place.inLoop, Place.inner, Flow.isMissing]
  · rw [hparams]
    simpa using hnames.2.2.2
  · rw [hparams]
    simp [counting, flowsPlain, Flow.Plain, Flow.PlainPart, VarDecl.Plain, Expr.Clear, exprsClear,
      Expr.name, Stmt.Clear, hnames]

/-- Lowering preserves meaning: a well-formed generator is lowered to a holder that hands over
the same values, leaves the heap the same way at each of them, and ends in the same way.  Besides
its structure, `Routine.WellFormed` asks for plain names: no variable has a name that the evaluator
knows by itself, is called or stands where a type is written, and a `var` with values inside a
simple statement declares one name. -/
theorem Routine.lower_preserves_events (hfn : fn.WellFormed) :
    ∃ h, fn.lower = .ok h ∧ ∀ (around : Environs) (args : Bindings) (heap : Heap)
      (changes : List (Heap → Heap)) (events : List Event),
      Settles (fun n => fn.events around n args heap changes) events ↔
        Settles (fun n => h.events around n args heap changes) events := by
  obtain ⟨h, hlower⟩ := Routine.exists_lowerWith hfn.1 fun _ s => s.modifiesControlFlow
  exact ⟨h, hlower, Routine.lowerWith_events hfn (fun _ _ hs => hs) hlower⟩

theorem counting_preserves_events :
    ∃ h, counting.lower = .ok h ∧ ∀ (around : Environs) (args : Bindings)
      (heap : Heap) (changes : List (Heap → Heap)) (events : List Event),
      Settles (fun n => counting.events around n args heap changes) events ↔
        Settles (fun n => h.events around n args heap changes) events :=
  Routine.lower_preserves_events counting_wellFormed

/-- Splitting a statement that could be copied makes no difference. -/
theorem Routine.events_eq_of_split (hfn : fn.WellFormed)
    (hsplit : ∀ n s, s.modifiesControlFlow = true → split n s = true) :
    ∃ h h', fn.lower = .ok h ∧ fn.lowerWith split = .ok h' ∧
      ∀ (around : Environs) (args : Bindings) (heap : Heap)
        (changes : List (Heap → Heap)) (events : List Event),
        Settles (fun n => h.events around n args heap changes) events ↔
          Settles (fun n => h'.events around n args heap changes) events := by
  obtain ⟨h, hlower⟩ := Routine.exists_lowerWith hfn.1 fun _ s => s.modifiesControlFlow
  obtain ⟨h', hlower'⟩ := Routine.exists_lowerWith hfn.1 split
  refine ⟨h, h', hlower, hlower', fun around args heap changes events => ?_⟩
  rw [← Routine.lowerWith_events hfn (fun _ _ hs => hs) hlower,
    Routine.lowerWith_events hfn hsplit hlower']

/-- Splitting all statements of a generator, where only some have to be. -/
theorem counting_events_eq_of_split :
    ∃ h h', counting.lower = .ok h ∧ counting.lowerWith (fun _ _ => true) = .ok h' ∧
      ∀ (around : Environs) (args : Bindings) (heap : Heap)
        (changes : List (Heap → Heap)) (events : List Event),
        Settles (fun n => h.events around n args heap changes) events ↔
          Settles (fun n => h'.events around n args heap changes) events :=
  Routine.events_eq_of_split counting_wellFormed fun _ _ _ => rfl

end Whole

end YieldMachine
