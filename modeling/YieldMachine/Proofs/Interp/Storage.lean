import Mathlib.Data.List.Forall2
import YieldMachine.Interp.Exec

/-!
# Variables kept in fields

A layout says for every scope which field holds each of its variables.  `Stored` says
that the fields of a machine hold the variables of nested scopes in this way, and that
some fields, which no variable uses, hold given values.
-/

namespace YieldMachine

namespace Bindings

theorem lookup_update (b : Bindings) (x y : String) (v : Value) :
    (b.update x v).lookup y = if y = x then (b.lookup y).map fun _ => v else b.lookup y := by
  induction b with
  | nil => simp [update]
  | cons p b ih =>
      obtain ⟨z, w⟩ := p
      simp only [update, List.map_cons] at ih ⊢
      by_cases hzx : z = x
      · subst hzx
        by_cases hyz : y = z
        · simp [hyz]
        · have hne : (y == z) = false := by simpa using hyz
          simpa [List.lookup_cons, hne, hyz] using ih
      · have hzx' : (z == x) = false := by simpa using hzx
        by_cases hyz : y = z
        · simp [hyz, hzx]
        · have hne : (y == z) = false := by simpa using hyz
          simpa [List.lookup_cons, hne, hzx'] using ih

@[simp]
theorem lookup_update_self (b : Bindings) (x : String) (v : Value) :
    (b.update x v).lookup x = (b.lookup x).map fun _ => v := by
  simp [lookup_update]

theorem lookup_update_of_ne (b : Bindings) {x y : String} (v : Value) (h : y ≠ x) :
    (b.update x v).lookup y = b.lookup y := by
  simp [lookup_update, h]

theorem lookup_put (b : Bindings) (x y : String) (v : Value) :
    (b.put x v).lookup y = if y = x then some v else b.lookup y := by
  unfold put
  split
  · rename_i h
    obtain ⟨w, hw⟩ := Option.isSome_iff_exists.mp h
    rw [lookup_update]
    split
    · rename_i hyx
      simp [hyx, hw]
    · rfl
  · by_cases hyx : y = x
    · simp [hyx]
    · have hne : (y == x) = false := by simpa using hyx
      simp [List.lookup_cons, hne, hyx]

end Bindings

/-- The value of a name in nested scopes, the innermost first. -/
def findLocal (frames : List Bindings) (x : String) : Option Value :=
  frames.findSome? (·.lookup x)

@[simp]
theorem findLocal_nil (x : String) : findLocal [] x = none := rfl

@[simp]
theorem findLocal_cons (frame : Bindings) (frames : List Bindings) (x : String) :
    findLocal (frame :: frames) x = (frame.lookup x).or (findLocal frames x) := by
  unfold findLocal
  rw [List.findSome?_cons]
  cases frame.lookup x <;> rfl

theorem findLocal_append (rows frames : List Bindings) (x : String) :
    findLocal (rows ++ frames) x = (findLocal rows x).or (findLocal frames x) := by
  unfold findLocal
  exact List.findSome?_append

theorem local?_eq_findLocal (v : View) (x : String) : v.local? x = findLocal v.frames x := rfl

/-- Assigning changes the innermost variable of the name only. -/
theorem assignFrames_append (x : String) (v : Value) (rows frames : List Bindings) :
    assignFrames x v (rows ++ frames) =
      match assignFrames x v rows with
      | some rows => some (rows ++ frames)
      | none => (assignFrames x v frames).map (rows ++ ·) := by
  induction rows with
  | nil =>
      simp only [List.nil_append, assignFrames]
      cases assignFrames x v frames <;> rfl
  | cons row rows ih =>
      simp only [List.cons_append, assignFrames]
      split
      · rfl
      · rw [ih]
        cases assignFrames x v rows with
        | some rows' => rfl
        | none => cases assignFrames x v frames <;> rfl

theorem assignFrames_eq_none {x : String} {v : Value} {frames : List Bindings} :
    assignFrames x v frames = none ↔ findLocal frames x = none := by
  induction frames with
  | nil => simp [assignFrames]
  | cons frame frames ih =>
      rw [assignFrames, findLocal_cons]
      cases hf : frame.lookup x with
      | none => simp [ih]
      | some w => simp

/-- What the scopes hold after an assignment. -/
theorem assignFrames_spec
    {x : String} {v : Value} {frames frames' : List Bindings}
    (h : assignFrames x v frames = some frames') :
    frames'.length = frames.length ∧
      ∀ y, findLocal frames' y = if y = x then some v else findLocal frames y := by
  induction frames generalizing frames' with
  | nil => simp [assignFrames] at h
  | cons frame frames ih =>
      rw [assignFrames] at h
      split at h
      · rename_i hsome
        obtain ⟨w, hw⟩ := Option.isSome_iff_exists.mp hsome
        obtain rfl := Option.some.inj h
        refine ⟨rfl, fun y => ?_⟩
        rw [findLocal_cons, Bindings.lookup_update, findLocal_cons]
        split
        · rename_i hy
          simp [hy, hw]
        · rfl
      · rename_i hnone
        obtain ⟨rest, hrest, rfl⟩ := Option.map_eq_some_iff.mp h
        obtain ⟨hlen, hfind⟩ := ih hrest
        refine ⟨by simp [hlen], fun y => ?_⟩
        rw [findLocal_cons, findLocal_cons, hfind]
        split
        · rename_i hy
          have : frame.lookup y = none := by
            rw [hy]
            exact Option.not_isSome_iff_eq_none.mp hnone
          simp [this]
        · rfl

/-- For each scope, the field of each of its variables. -/
abbrev Layout := List (List (String × String))

/-- The field of the innermost variable of a name. -/
def Layout.field? (layout : Layout) (x : String) : Option String :=
  layout.findSome? (·.lookup x)

@[simp]
theorem Layout.field?_nil (x : String) : Layout.field? [] x = none := rfl

@[simp]
theorem Layout.field?_cons (names : List (String × String)) (layout : Layout) (x : String) :
    Layout.field? (names :: layout) x = (names.lookup x).or (Layout.field? layout x) := by
  unfold Layout.field?
  rw [List.findSome?_cons]
  cases names.lookup x <;> rfl

/-- The fields of a layout. -/
def Layout.fields (layout : Layout) : List String := layout.flatten.map Prod.snd

@[simp]
theorem Layout.fields_nil : Layout.fields [] = [] := rfl

@[simp]
theorem Layout.fields_cons (names : List (String × String)) (layout : Layout) :
    Layout.fields (names :: layout) = names.map Prod.snd ++ Layout.fields layout := by
  simp [fields]

theorem mem_map_snd_of_lookup {α β : Type} [BEq α] [LawfulBEq α] {l : List (α × β)} {x : α}
    {b : β} (h : l.lookup x = some b) : b ∈ l.map Prod.snd := by
  obtain ⟨l₁, l₂, rfl, -⟩ := List.lookup_eq_some_iff.mp h
  simp

theorem Layout.mem_fields_of_field? {layout : Layout} {x f : String}
    (h : layout.field? x = some f) : f ∈ layout.fields := by
  induction layout with
  | nil => simp at h
  | cons names layout ih =>
      rw [field?_cons] at h
      rw [fields_cons, List.mem_append]
      cases hn : names.lookup x with
      | some g =>
          rw [hn] at h
          obtain rfl : g = f := by simpa using h
          exact .inl (mem_map_snd_of_lookup hn)
      | none =>
          rw [hn] at h
          exact .inr (ih (by simpa using h))

/-- What the fields of a machine are used for: all fields there are, the variables they
hold, and the fields that keep a fixed value. -/
structure Ground where
  fields : List String
  layout : Layout
  pins : Bindings

namespace Ground

/-- The fields in use. -/
def taken (g : Ground) : List String := g.layout.fields ++ g.pins.map Prod.fst

/-- With a new innermost scope. -/
def push (g : Ground) : Ground := { g with layout := [] :: g.layout }

/-- With a variable of the innermost scope in a field. -/
def declare (g : Ground) (x f : String) : Ground :=
  { g with
    layout :=
      match g.layout with
      | [] => []
      | names :: layout => ((x, f) :: names) :: layout }

/-- With a field that keeps a value. -/
def pin (g : Ground) (f : String) (v : Value) : Ground := { g with pins := (f, v) :: g.pins }

end Ground

/-- Whether the fields hold the variables of a scope. -/
def StoredFrame (fields : Bindings) (names : List (String × String)) (frame : Bindings) : Prop :=
  ∀ x, frame.lookup x = (names.lookup x).bind fun f => fields.lookup f

/-- Whether the fields hold the variables of all scopes and the fixed values. -/
structure Stored (g : Ground) (frames : List Bindings) (fields : Bindings) : Prop where
  frames : List.Forall₂ (StoredFrame fields) g.layout frames
  present : ∀ f ∈ g.fields, (fields.lookup f).isSome = true
  known : ∀ f ∈ g.layout.fields, f ∈ g.fields
  distinct : g.taken.Nodup
  pinned : ∀ p ∈ g.pins, fields.lookup p.1 = some p.2

/-- A field that does not belong to a scope can change. -/
theorem StoredFrame.update
    {fields : Bindings} {names : List (String × String)} {frame : Bindings} {f : String}
    (h : StoredFrame fields names frame) (hf : f ∉ names.map Prod.snd) (v : Value) :
    StoredFrame (fields.update f v) names frame := by
  intro x
  rw [h x]
  cases hx : names.lookup x with
  | none => rfl
  | some g =>
      have hne : g ≠ f := by
        rintro rfl
        exact hf (mem_map_snd_of_lookup hx)
      simp [Bindings.lookup_update_of_ne _ _ hne]

theorem storedFrames_update
    {fields : Bindings} {layout : Layout} {frames : List Bindings} {f : String}
    (h : List.Forall₂ (StoredFrame fields) layout frames) (hf : f ∉ layout.fields)
    (v : Value) : List.Forall₂ (StoredFrame (fields.update f v)) layout frames := by
  induction h with
  | nil => exact .nil
  | cons hframe _ ih =>
      rw [Layout.fields_cons, List.mem_append, not_or] at hf
      exact .cons (hframe.update hf.1 v) (ih hf.2)

/-- Two variables of one scope have different fields. -/
theorem lookup_inj_of_nodup
    {names : List (String × String)} (h : (names.map Prod.snd).Nodup) {x y f : String}
    (hx : names.lookup x = some f) (hy : names.lookup y = some f) : x = y := by
  induction names with
  | nil => simp at hx
  | cons p names ih =>
      obtain ⟨z, g⟩ := p
      rw [List.map_cons, List.nodup_cons] at h
      rw [List.lookup_cons] at hx hy
      by_cases hxz : x = z <;> by_cases hyz : y = z
      · rw [hxz, hyz]
      · simp only [hxz, beq_self_eq_true, Option.some.injEq] at hx
        simp only [beq_eq_false_iff_ne.mpr hyz] at hy
        exact absurd (mem_map_snd_of_lookup (hx ▸ hy)) h.1
      · simp only [hyz, beq_self_eq_true, Option.some.injEq] at hy
        simp only [beq_eq_false_iff_ne.mpr hxz] at hx
        exact absurd (mem_map_snd_of_lookup (hy ▸ hx)) h.1
      · simp only [beq_eq_false_iff_ne.mpr hxz] at hx
        simp only [beq_eq_false_iff_ne.mpr hyz] at hy
        exact ih h.2 hx hy

/-- Assigning a stored variable is changing its field. -/
theorem storedFrames_assign
    {fields : Bindings} {layout : Layout} {frames : List Bindings} {x f : String} (v : Value)
    (h : List.Forall₂ (StoredFrame fields) layout frames)
    (hset : ∀ f ∈ layout.fields, (fields.lookup f).isSome = true)
    (hnodup : layout.fields.Nodup) (hx : layout.field? x = some f) :
    ∃ frames', assignFrames x v frames = some frames' ∧
      List.Forall₂ (StoredFrame (fields.update f v)) layout frames' := by
  induction h with
  | nil => simp at hx
  | @cons names frame layout frames hframe hframes ih =>
      rw [Layout.fields_cons] at hset hnodup
      obtain ⟨hnames, hlayout, hdisj⟩ := List.nodup_append.mp hnodup
      rw [Layout.field?_cons] at hx
      rw [assignFrames]
      cases hn : names.lookup x with
      | some g =>
          rw [hn] at hx
          obtain rfl : g = f := by simpa using hx
          have hmem := mem_map_snd_of_lookup hn
          have hval : (fields.lookup g).isSome = true := hset g (by simp [hmem])
          have hsome : (frame.lookup x).isSome = true := by
            rw [hframe x, hn]
            exact hval
          rw [if_pos hsome]
          refine ⟨_, rfl, .cons ?_ (storedFrames_update hframes ?_ v)⟩
          · intro y
            rw [Bindings.lookup_update, hframe y]
            split
            · rename_i hy
              subst hy
              simp [hn]
            · rename_i hy
              cases hny : names.lookup y with
              | none => rfl
              | some e =>
                  have hne : e ≠ g := by
                    rintro rfl
                    exact hy (lookup_inj_of_nodup hnames hny hn)
                  simp [Bindings.lookup_update_of_ne _ _ hne]
          · intro hg
            exact hdisj g hmem g hg rfl
      | none =>
          rw [hn] at hx
          have hx' : Layout.field? layout x = some f := by simpa using hx
          have hnone : ¬ (frame.lookup x).isSome = true := by simp [hframe x, hn]
          rw [if_neg hnone]
          obtain ⟨frames', hassign, hstored⟩ :=
            ih (fun g hg => hset g (by simp [hg])) hlayout hx'
          refine ⟨frame :: frames', by simp [hassign], .cons (hframe.update ?_ v) hstored⟩
          intro hf
          exact hdisj f hf f (Layout.mem_fields_of_field? hx') rfl

namespace Stored

variable {g : Ground} {frames : List Bindings} {fields : Bindings}

theorem present_of_taken (h : Stored g frames fields) {f : String} (hf : f ∈ g.layout.fields) :
    (fields.lookup f).isSome = true :=
  h.present f (h.known f hf)

/-- The value of a variable is that of its field. -/
theorem findLocal_eq (h : Stored g frames fields) (x : String) :
    findLocal frames x = (g.layout.field? x).bind fun f => fields.lookup f := by
  have hset : ∀ f ∈ g.layout.fields, (fields.lookup f).isSome = true :=
    fun f hf => h.present_of_taken hf
  have hframes := h.frames
  clear h
  generalize g.layout = layout at hset hframes
  induction hframes with
  | nil => rfl
  | @cons names frame layout frames hframe _ ih =>
      rw [Layout.fields_cons] at hset
      rw [findLocal_cons, Layout.field?_cons, hframe x]
      cases hn : names.lookup x with
      | none =>
          simpa using ih fun f hf => hset f (by simp [hf])
      | some f =>
          obtain ⟨v, hv⟩ :=
            Option.isSome_iff_exists.mp (hset f (by simp [mem_map_snd_of_lookup hn]))
          simp [hv]

/-- A change of one field keeps all fields. -/
theorem present_update {f : String} (v : Value)
    (h : ∀ f ∈ g.fields, (fields.lookup f).isSome = true) :
    ∀ f' ∈ g.fields, ((fields.update f v).lookup f').isSome = true := by
  intro f' hf'
  rw [Bindings.lookup_update]
  split
  · simpa using h f' hf'
  · exact h f' hf'

/-- A variable that is assigned stays stored once its field is changed. -/
theorem assign (h : Stored g frames fields) {x f : String} (hx : g.layout.field? x = some f)
    (v : Value) :
    ∃ frames', assignFrames x v frames = some frames' ∧
      Stored g frames' (fields.update f v) := by
  obtain ⟨hlayout, -, hdisj⟩ := List.nodup_append.mp h.distinct
  obtain ⟨frames', hassign, hframes⟩ :=
    storedFrames_assign v h.frames (fun f hf => h.present_of_taken hf) hlayout hx
  refine ⟨frames', hassign, hframes, present_update v h.present, h.known, h.distinct, ?_⟩
  intro p hp
  have hne : p.1 ≠ f := by
    intro heq
    exact hdisj f (Layout.mem_fields_of_field? hx) p.1 (List.mem_map_of_mem hp) heq.symm
  rw [Bindings.lookup_update_of_ne _ _ hne]
  exact h.pinned p hp

/-- A new scope holds nothing. -/
theorem push (h : Stored g frames fields) : Stored g.push ([] :: frames) fields where
  frames := .cons (fun _ => rfl) h.frames
  present := h.present
  known := h.known
  distinct := h.distinct
  pinned := h.pinned

/-- What is left when the innermost scope ends. -/
theorem pop {names : List (String × String)} {layout : Layout}
    (h : Stored { g with layout := names :: layout } frames fields) :
    Stored { g with layout := layout } frames.tail fields := by
  obtain ⟨hframes, hpresent, hknown, hdistinct, hpinned⟩ := h
  cases hframes with
  | cons _ hrest =>
      refine ⟨hrest, hpresent, ?_, ?_, hpinned⟩
      · intro f hf
        exact hknown f (by simp [hf])
      · refine hdistinct.sublist ?_
        simp only [Ground.taken, Layout.fields_cons, List.append_assoc]
        exact List.sublist_append_right _ _

/-- A variable of the innermost scope that gets a field of its own. -/
theorem declare {frame : Bindings} (h : Stored g (frame :: frames) fields) {x f : String}
    (hf : f ∈ g.fields) (hfree : f ∉ g.taken) (v : Value) :
    Stored (g.declare x f) (frame.put x v :: frames) (fields.update f v) := by
  obtain ⟨all, layout, pins⟩ := g
  obtain ⟨hframes, hpresent, hknown, hdistinct, hpinned⟩ := h
  cases hframes with
  | @cons names _ layout _ hframe hrest =>
      simp only [Ground.taken, Layout.fields_cons, List.append_assoc, List.mem_append,
        not_or] at hfree
      obtain ⟨hnames, hlayout, hpins⟩ := hfree
      refine ⟨.cons ?_ (storedFrames_update hrest hlayout v), present_update v hpresent, ?_, ?_, ?_⟩
      · intro y
        rw [Bindings.lookup_put]
        obtain ⟨w, hw⟩ := Option.isSome_iff_exists.mp (hpresent f hf)
        by_cases hy : y = x
        · simp [hy, hw]
        · have hne : (y == x) = false := by simpa using hy
          rw [if_neg hy, List.lookup_cons, hne]
          exact hframe.update hnames v y
      · intro f' hf'
        simp only [Ground.declare, Layout.fields_cons, List.map_cons, List.cons_append,
          List.mem_cons] at hf'
        rcases hf' with rfl | hf'
        · exact hf
        · exact hknown f' (by simpa using hf')
      · simp only [Ground.taken, Ground.declare, Layout.fields_cons, List.map_cons,
          List.cons_append, List.nodup_cons, List.append_assoc]
        refine ⟨by simp [hnames, hlayout, hpins], ?_⟩
        simpa [Ground.taken] using hdistinct
      · intro p hp
        have hne : p.1 ≠ f := by
          rintro rfl
          exact hpins (List.mem_map_of_mem hp)
        rw [Bindings.lookup_update_of_ne _ _ hne]
        exact hpinned p hp

/-- A free field that from now on keeps a value. -/
theorem pin (h : Stored g frames fields) {f : String} (hf : f ∈ g.fields) (hfree : f ∉ g.taken)
    (v : Value) : Stored (g.pin f v) frames (fields.update f v) := by
  simp only [Ground.taken, List.mem_append, not_or] at hfree
  refine ⟨storedFrames_update h.frames hfree.1 v, present_update v h.present, h.known, ?_, ?_⟩
  · have hperm : (g.pin f v).taken.Perm (f :: g.taken) := by
      simp only [Ground.taken, Ground.pin, List.map_cons]
      exact List.perm_middle
    rw [hperm.nodup_iff, List.nodup_cons]
    exact ⟨by simp [Ground.taken, hfree], h.distinct⟩
  · intro p hp
    obtain ⟨w, hw⟩ := Option.isSome_iff_exists.mp (h.present f hf)
    rcases List.mem_cons.mp hp with rfl | hmem
    · simp [hw]
    · have hne : p.1 ≠ f := by
        rintro rfl
        exact hfree.2 (List.mem_map_of_mem hmem)
      rw [Bindings.lookup_update_of_ne _ _ hne]
      exact h.pinned p hmem

/-- A field that no longer has to keep its value. -/
theorem unpin {f : String} {v : Value} (h : Stored (g.pin f v) frames fields) :
    Stored g frames fields := by
  refine ⟨h.frames, h.present, h.known, ?_, fun p hp => h.pinned p (.tail _ hp)⟩
  refine h.distinct.sublist ?_
  simp only [Ground.taken, Ground.pin, List.map_cons]
  exact (List.sublist_cons_self _ _).append_left _

end Stored

end YieldMachine
