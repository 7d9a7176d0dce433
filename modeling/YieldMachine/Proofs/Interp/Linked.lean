import YieldMachine.Proofs.Interp.Bounded
import YieldMachine.Proofs.Interp.Storage
import YieldMachine.Proofs.Meaning.WellFormed

/-!
# Two memories with the same variables

A table keeps most variables in fields, and only those of the statement it executes in
scopes.  `Linked` relates such a memory to one that keeps all variables in scopes.  `Sync`
says that two computations take linked memories to linked memories.
-/

namespace YieldMachine

/-- What one scope of a table stands for: the number of scopes on the other side, their
variables, and values of hidden variables. -/
structure Local where
  rows : Nat
  names : List String
  pins : Bindings

/-- Whether a scope of a table holds the variables of the given scopes. -/
structure Local.Holds (l : Local) (rows : List Bindings) (frame : Bindings) : Prop where
  length : rows.length = l.rows
  agree : ∀ x ∉ unreadNames, frame.lookup x = findLocal rows x
  names : ∀ x ∉ unreadNames, (findLocal rows x).isSome = true ↔ x ∈ l.names
  hidden : ∀ x ∈ hiddenNames, frame.lookup x = l.pins.lookup x

/-- What the scopes of a table stand for, the innermost first. -/
abbrev Nesting := List Local

/-- Whether a name is a variable of one of the scopes. -/
def Nesting.Binds (shape : Nesting) (x : String) : Prop := ∃ l ∈ shape, x ∈ l.names

/-- Declares names in the innermost scope. -/
def Nesting.bind (shape : Nesting) (names : List String) : Nesting :=
  match shape with
  | [] => []
  | l :: shape => { l with names := names ++ l.names } :: shape

/-- Whether scopes and fields of a table together hold the variables of `frames`. -/
def Overlap (g : Ground) (fields : Bindings) : Nesting → List Bindings → List Bindings → Prop
  | [], frames, locals => locals = [] ∧ Stored g frames fields
  | l :: shape, frames, locals =>
    ∃ rows rest frame others, frames = rows ++ rest ∧ locals = frame :: others ∧
      l.Holds rows frame ∧ Overlap g fields shape rest others

/-- Whether the memory of a table holds what `m` holds in its scopes. -/
structure Linked (g : Ground) (shape : Nesting) (m mt : Memory) : Prop where
  fields : m.fields = []
  heap : mt.heap = m.heap
  frames : Overlap g mt.fields shape m.frames mt.frames

theorem mem_unreadNames_of_hidden {x : String} (h : x ∈ hiddenNames) : x ∈ unreadNames :=
  List.mem_cons_of_mem _ h

theorem mem_reservedNames_of_hidden {x : String} (h : x ∈ hiddenNames) : x ∈ reservedNames :=
  List.mem_append_right _ h

namespace Local.Holds

variable {l : Local} {rows : List Bindings} {frame : Bindings}

/-- Assigning a variable on both sides. -/
theorem assign (h : l.Holds rows frame) {x : String} (hx : x ∉ unreadNames) {v : Value}
    {rows' : List Bindings} (hrows : assignFrames x v rows = some rows') :
    l.Holds rows' (frame.update x v) := by
  obtain ⟨hlen, hfind⟩ := assignFrames_spec hrows
  have hbound : ∃ w, findLocal rows x = some w := by
    cases hw : findLocal rows x with
    | some w => exact ⟨w, rfl⟩
    | none =>
        rw [assignFrames_eq_none.mpr hw] at hrows
        cases hrows
  obtain ⟨w, hw⟩ := hbound
  refine ⟨by rw [hlen, h.length], ?_, ?_, ?_⟩
  · intro y hy
    rw [Bindings.lookup_update, hfind, h.agree y hy]
    split
    · rename_i hyx
      simp [hyx, hw]
    · rfl
  · intro y hy
    rw [hfind, ← h.names y hy]
    split
    · rename_i hyx
      simp [hyx, hw]
    · rfl
  · intro y hy
    have hne : y ≠ x := by
      rintro rfl
      exact hx (mem_unreadNames_of_hidden hy)
    rw [Bindings.lookup_update_of_ne _ _ hne]
    exact h.hidden y hy

/-- Declaring a variable on both sides. -/
theorem bind {row : Bindings} (h : l.Holds (row :: rows) frame) {x : String}
    (hx : x ∉ hiddenNames) (v : Value) :
    Local.Holds { l with names := x :: l.names } (row.put x v :: rows) (frame.put x v) := by
  have hput : ∀ y, findLocal (row.put x v :: rows) y =
      if y = x then some v else findLocal (row :: rows) y := by
    intro y
    rw [findLocal_cons, Bindings.lookup_put, findLocal_cons]
    split <;> rfl
  refine ⟨h.length, ?_, ?_, ?_⟩
  · intro y hy
    rw [hput, Bindings.lookup_put, h.agree y hy]
  · intro y hy
    rw [hput, List.mem_cons, ← h.names y hy]
    split
    · rename_i hyx
      simp [hyx]
    · rename_i hyx
      simp [hyx]
  · intro y hy
    have hne : y ≠ x := by
      rintro rfl
      exact hx hy
    rw [Bindings.lookup_put, if_neg hne]
    exact h.hidden y hy

/-- Binding the blank name on the side of the table only. -/
theorem bindBlank (h : l.Holds rows frame) (v : Value) : l.Holds rows (frame.put "_" v) := by
  have hlookup : ∀ y, y ≠ "_" → (frame.put "_" v).lookup y = frame.lookup y := by
    intro y hy
    rw [Bindings.lookup_put, if_neg hy]
  refine ⟨h.length, ?_, h.names, ?_⟩
  · intro y hy
    rw [hlookup y fun hblank => hy (by simp [hblank, unreadNames])]
    exact h.agree y hy
  · intro y hy
    rw [hlookup y ?_]
    · exact h.hidden y hy
    · rintro rfl
      revert hy
      decide

/-- A hidden variable on the side of the table only. -/
theorem bindHidden (h : l.Holds rows frame) {x : String} (hx : x ∈ hiddenNames) (v : Value)
    (hpins : ∀ y, y ≠ x → l.pins.lookup y = none) :
    Local.Holds { l with pins := [(x, v)] } rows (frame.put x v) := by
  refine ⟨h.length, ?_, h.names, ?_⟩
  · intro y hy
    have hne : y ≠ x := by
      rintro rfl
      exact hy (mem_unreadNames_of_hidden hx)
    rw [Bindings.lookup_put, if_neg hne]
    exact h.agree y hy
  · intro y hy
    rw [Bindings.lookup_put]
    by_cases hyx : y = x
    · simp [hyx]
    · have hne : (y == x) = false := by simpa using hyx
      rw [if_neg hyx, h.hidden y hy, hpins y hyx]
      simp [List.lookup_cons, hne]

end Local.Holds

namespace Overlap

variable {g : Ground} {fields : Bindings} {shape : Nesting} {frames locals : List Bindings}

/-- A variable of the scopes of a table has the same value on both sides. -/
theorem findLocal_of_binds (h : Overlap g fields shape frames locals) {x : String}
    (hx : x ∉ unreadNames) (hb : shape.Binds x) :
    findLocal locals x = findLocal frames x := by
  induction shape generalizing frames locals with
  | nil =>
      obtain ⟨l, hl, -⟩ := hb
      cases hl
  | cons l shape ih =>
      obtain ⟨rows, rest, frame, others, rfl, rfl, hholds, hrest⟩ := h
      rw [findLocal_cons, findLocal_append, hholds.agree x hx]
      cases hrows : findLocal rows x with
      | some v => rfl
      | none =>
          obtain ⟨l', hl', hmem⟩ := hb
          have hne : x ∉ l.names := by
            rw [← hholds.names x hx, hrows]
            simp
          rcases List.mem_cons.mp hl' with rfl | hl'
          · exact absurd hmem hne
          · simpa using ih hrest ⟨l', hl', hmem⟩

/-- Any other name is no variable of the table, and on the other side the variable that
its field holds. -/
theorem findLocal_of_not_binds (h : Overlap g fields shape frames locals) {x : String}
    (hx : x ∉ unreadNames) (hb : ¬ shape.Binds x) :
    findLocal locals x = none ∧
      findLocal frames x = (g.layout.field? x).bind fun f => fields.lookup f := by
  induction shape generalizing frames locals with
  | nil =>
      obtain ⟨rfl, hstored⟩ := h
      exact ⟨rfl, hstored.findLocal_eq x⟩
  | cons l shape ih =>
      obtain ⟨rows, rest, frame, others, rfl, rfl, hholds, hrest⟩ := h
      have hhead : x ∉ l.names := fun hmem => hb ⟨l, .head _, hmem⟩
      have hrows : findLocal rows x = none := by
        rw [← hholds.names x hx] at hhead
        exact Option.not_isSome_iff_eq_none.mp hhead
      have htail : ¬ Nesting.Binds shape x := fun ⟨l', hl', hmem⟩ => hb ⟨l', .tail _ hl', hmem⟩
      obtain ⟨hnone, hfield⟩ := ih hrest htail
      rw [findLocal_cons, findLocal_append, hholds.agree x hx, hrows, hnone, hfield]
      exact ⟨rfl, rfl⟩

/-- Assigning a variable of the scopes of a table. -/
theorem assign_of_binds (h : Overlap g fields shape frames locals) {x : String}
    (hx : x ∉ unreadNames) (hb : shape.Binds x) (v : Value) :
    ∃ frames' locals', assignFrames x v frames = some frames' ∧
      assignFrames x v locals = some locals' ∧ Overlap g fields shape frames' locals' := by
  induction shape generalizing frames locals with
  | nil =>
      obtain ⟨l, hl, -⟩ := hb
      cases hl
  | cons l shape ih =>
      obtain ⟨rows, rest, frame, others, rfl, rfl, hholds, hrest⟩ := h
      rw [assignFrames_append, assignFrames, hholds.agree x hx]
      cases hrows : assignFrames x v rows with
      | some rows' =>
          have hsome : (findLocal rows x).isSome = true := by
            cases hw : findLocal rows x with
            | some w => rfl
            | none =>
                rw [assignFrames_eq_none.mpr hw] at hrows
                cases hrows
          rw [if_pos hsome]
          exact ⟨_, _, rfl, rfl, rows', rest, _, others, rfl, rfl, hholds.assign hx hrows, hrest⟩
      | none =>
          have hnone : findLocal rows x = none := assignFrames_eq_none.mp hrows
          have hne : x ∉ l.names := by
            rw [← hholds.names x hx, hnone]
            simp
          have htail : Nesting.Binds shape x := by
            obtain ⟨l', hl', hmem⟩ := hb
            rcases List.mem_cons.mp hl' with rfl | hl'
            · exact absurd hmem hne
            · exact ⟨l', hl', hmem⟩
          obtain ⟨frames', locals', hframes, hlocals, hover⟩ := ih hrest htail
          refine ⟨rows ++ frames', frame :: locals', by simp [hframes], ?_,
            rows, frames', frame, locals', rfl, rfl, hholds, hover⟩
          rw [hnone]
          simp [hlocals]

/-- Assigning a variable that a field holds. -/
theorem assign_of_field (h : Overlap g fields shape frames locals) {x f : String}
    (hx : x ∉ unreadNames) (hb : ¬ shape.Binds x) (hf : g.layout.field? x = some f)
    (v : Value) :
    ∃ frames', assignFrames x v frames = some frames' ∧
      Overlap g (fields.update f v) shape frames' locals := by
  induction shape generalizing frames locals with
  | nil =>
      obtain ⟨rfl, hstored⟩ := h
      obtain ⟨frames', hassign, hstored'⟩ := hstored.assign hf v
      exact ⟨frames', hassign, rfl, hstored'⟩
  | cons l shape ih =>
      obtain ⟨rows, rest, frame, others, rfl, rfl, hholds, hrest⟩ := h
      have hhead : x ∉ l.names := fun hmem => hb ⟨l, .head _, hmem⟩
      have hrows : findLocal rows x = none := by
        rw [← hholds.names x hx] at hhead
        exact Option.not_isSome_iff_eq_none.mp hhead
      have htail : ¬ Nesting.Binds shape x := fun ⟨l', hl', hmem⟩ => hb ⟨l', .tail _ hl', hmem⟩
      obtain ⟨frames', hassign, hover⟩ := ih hrest htail
      refine ⟨rows ++ frames', ?_, rows, frames', frame, others, rfl, rfl, hholds, hover⟩
      rw [assignFrames_append, assignFrames_eq_none.mpr hrows, hassign]
      rfl

end Overlap

end YieldMachine
