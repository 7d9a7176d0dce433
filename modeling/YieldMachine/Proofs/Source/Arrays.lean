import YieldMachine.Proofs.Meaning.Places
import YieldMachine.Proofs.Source.Preserved

/-!
# Ranging over an array

A range statement over an array becomes a walk over the slice of the whole array, which has the
elements of the array itself.  In the language of `Places` such a walk is a loop over the positions
of the place where the array is kept: a turn binds the element that is there when the turn begins.
So it sees what the turns before it, or the consumer, wrote to its position; an element that nobody
wrote is the one that the array had when the loop began.
-/

namespace YieldMachine.Source

open Places (Datum Location Operand Part Store)

/-- The elements of an array after some writes. -/
def written (cells : List Datum) : List (Nat × Datum) → List Datum
  | [] => cells
  | (i, value) :: writes => written (cells.set i value) writes

/-- The element at a position after some writes: the value of the last write there, or else what
was there before. -/
def elementAfter (cells : List Datum) (writes : List (Nat × Datum)) (k : Nat) : Option Datum :=
  match writes.reverse.find? fun write => write.1 == k with
  | some write => some write.2
  | none => cells[k]?

section Writes

variable {cells : List Datum} {writes : List (Nat × Datum)} {k : Nat}

@[simp]
theorem length_written : (written cells writes).length = cells.length := by
  induction writes generalizing cells with
  | nil => rfl
  | cons write writes ih => rw [written, ih, List.length_set]

theorem written_append (more : List (Nat × Datum)) :
    written cells (writes ++ more) = written (written cells writes) more := by
  induction writes generalizing cells with
  | nil => rfl
  | cons write writes ih => exact ih

theorem elementAfter_cons (i : Nat) (value : Datum) (hk : k < cells.length) :
    elementAfter cells ((i, value) :: writes) k = elementAfter (cells.set i value) writes k := by
  unfold elementAfter
  rw [List.reverse_cons, List.find?_append]
  cases writes.reverse.find? fun write => write.1 == k with
  | some write => rfl
  | none =>
      by_cases hi : i = k
      · subst hi
        simp [List.getElem?_set_self hk]
      · simp [hi, List.getElem?_set_ne hi]

theorem getElem?_written (hk : k < cells.length) :
    (written cells writes)[k]? = elementAfter cells writes k := by
  induction writes generalizing cells with
  | nil => rfl
  | cons write writes ih =>
      obtain ⟨i, value⟩ := write
      rw [written, elementAfter_cons i value hk]
      exact ih (by rwa [List.length_set])

end Writes

/-- Reads an element of the array that is kept in a place. -/
def readElement (l : Location) (k : Nat) : Places.language.Eff Datum :=
  Places.looking fun s => Places.found (Places.read? s (l.inner (.element k)))

/-- Binds a position and an element to the key and the value of a walk. -/
def bindPosition (header : YieldMachine.Walk) (names : Places.language.Names) (k : Nat)
    (element : Datum) : Places.language.Eff Places.language.Names :=
  Places.language.bindRow header.define (header.key, header.keyType)
    (header.value, header.valueType) (.int (Int64.ofNat k), element) names

/-- Binds a position of an array that is kept in a place, and the element that is there. -/
def bindElement (header : YieldMachine.Walk) (l : Location) (names : Places.language.Names)
    (k : Nat) : Places.language.Eff Places.language.Names := do
  let element ← readElement l k
  bindPosition header names k element

/-- A loop over the positions of an array with `count` elements that is kept in a place.  Each turn
begins with binding its position and the element there. -/
def overPositions (runtime : String) (n : Nat) (header : YieldMachine.Walk) (body : List Flow)
    (l : Location) (count : Nat) (labels : List String) (names : Places.language.Names) :
    Places.language.Action (Ending × Places.language.Names) := do
  let e ← Domain.turns .normal (Ending.afterBody labels) (fun k => pure (decide (k < count)))
    (fun k => do
      let inner ← bindElement header l names k
      return ((← Flow.performAll Places.language runtime n body inner).1, k + 1))
    pure n 0
  return (e, names)

theorem bindElement_of_read {header : YieldMachine.Walk} {l : Location}
    {names : Places.language.Names} {k : Nat} {t : Store} {v : Datum}
    (h : Places.read? t (l.inner (.element k)) = some v) :
    bindElement header l names k t = bindPosition header names k v t := by
  have hread : readElement l k t = .ok v t := by
    simp only [readElement, Places.looking, h]
    rfl
  show EStateM.bind (readElement l k) _ t = _
  simp only [EStateM.bind, hread]

section Walks

variable {runtime : String} {n : Nat} {header : YieldMachine.Walk} {body : List Flow}
  {l : Location} {names : Places.language.Names} {s : Store} {cells : List Datum}

/-- A walk over the elements of an array that is kept in a place. -/
theorem turns_kept (labels : List String) (count k : Nat) :
    Domain.Alike Eq
      (Domain.turns (D := Places.language.toDomain) .normal (Ending.afterBody labels)
        Places.language.hasNext
        (fun walk => do
          let (row, walk) ← Places.language.next walk
          let inner ← Places.language.bindRow header.define (header.key, header.keyType)
            (header.value, header.valueType) row names
          return ((← Flow.performAll Places.language runtime n body inner).1, walk))
        pure n (.kept l 0 ⟨count, k⟩))
      (Domain.turns .normal (Ending.afterBody labels) (fun k => pure (decide (k < count)))
        (fun k => do
          let inner ← bindElement header l names k
          return ((← Flow.performAll Places.language runtime n body inner).1, k + 1))
        pure n k) := by
  refine Domain.Alike.turns (T := fun walk k => walk = .kept l 0 ⟨count, k⟩) rfl ?_ ?_ ?_ ?_ n rfl
  · rintro e _ rfl
    cases he : e.afterBody labels with
    | none => exact .inl ⟨rfl, rfl⟩
    | some c => exact .inr ⟨c, c, rfl, rfl, rfl⟩
  · rintro _ k rfl
    rfl
  · rintro _ k rfl s t hagain
    have hk : k < count := by
      obtain ⟨hlt, -⟩ := EStateM.Result.ok.inj hagain
      exact of_decide_eq_true hlt
    have hnext : Places.Walk.next t (.kept l 0 ⟨count, k⟩) = (do
        let element ← Places.found (Places.read? t (l.inner (.element k)))
        return ((.int (Int64.ofNat k), element), .kept l 0 ⟨count, k + 1⟩)) := by
      simp only [Places.Walk.next, SliceCursor.next, hk, if_true, Nat.zero_add]
      cases Places.read? t (l.inner (.element k)) <;> rfl
    rw [bindElement, Domain.Action.lift_bind, Domain.Action.bind_assoc]
    show (Progress.bind (.ofResult (Places.looking (fun s => Places.Walk.next s _) t)) _).Alike _
      (Progress.bind (.ofResult (readElement l k t)) _)
    simp only [Places.looking, readElement, hnext]
    cases Places.read? t (l.inner (.element k)) with
    | none => exact .halted _ _
    | some element =>
        refine Domain.Alike.first (Places.language.bindRow header.define
          (header.key, header.keyType) (header.value, header.valueType)
          (.int (Int64.ofNat k), element) names) (fun inner => ?_) t
        refine (Domain.Alike.refl (Flow.performAll Places.language runtime n body inner)).bind
          fun a b hab => ?_
        exact .pure ⟨congrArg Prod.fst hab, rfl⟩
  · rintro walk k h
    exact .pure h

/-- Evaluating the slice of a whole array finds the place where the array is kept. -/
theorem value_wholeSlice {x : YieldMachine.Expr}
    (hoperand : Places.operand names s x = .ok (.location l))
    (hread : Places.read? s l = some (.array cells)) :
    Places.value names s (wholeSlice x) = .ok (.slice l 0 cells.length cells.length) := by
  have hwhole : (Operand.location l).whole s = .ok (l, 0, cells.length, cells.length) := by
    simp only [Operand.whole, Operand.datum, hread]
    rfl
  have hslice : (Operand.location l).slice s none none =
      .ok (.slice l 0 cells.length cells.length) := by
    simp only [Operand.slice, hwhole]
    rfl
  simp only [Places.value, wholeSlice, Places.operand, hoperand]
  show (do (← (do return Operand.value (← (Operand.location l).slice s none none) :
    Places.Result Operand)).datum s : Places.Result Datum) = _
  rw [hslice]
  rfl

/-- A walk over the slice of a whole array is a loop over the positions of the array. -/
theorem perform_walk_array {ctx : Context} {x : YieldMachine.Expr}
    (hx : header.x = ctx.adapter "Slice" (wholeSlice x))
    (hoperand : Places.operand names s x = .ok (.location l))
    (hread : Places.read? s l = some (.array cells)) (labels : List String) :
    (Flow.walk header body).perform Places.language ctx.runtime n labels names s =
      overPositions ctx.runtime n header body l cells.length labels names s := by
  have hloop : Domain.Alike Eq _ (overPositions ctx.runtime n header body l cells.length labels
      names) :=
    (turns_kept labels cells.length 0).bind fun e e' he => .pure (congrArg (·, names) he)
  refine Eq.trans ?_ (hloop s).eq_of_eq
  rw [Flow.perform, hx, ctx.operand_adapter rfl]
  show Progress.bind (.ofResult (Places.looking (fun s => Places.value names s (wholeSlice x)) s))
    _ = _
  simp only [Places.looking, value_wholeSlice hoperand hread]
  rfl

end Walks

section Operands

open Places (Result)

variable {names : Places.language.Names} {s : Store}

/-- An operand that can have its address taken is kept in a place. -/
theorem operand_addressable (e : YieldMachine.Expr) (h : addressable e = true) {o : Operand}
    (ho : Places.operand names s e = .ok o) : o.Anchored := by
  cases e with
  | ident x kept =>
      simp only [Places.operand] at ho
      split at ho
      · cases ho
        trivial
      · obtain ⟨d, hd, hvalue⟩ := Result.bind_eq_ok.mp ho
        obtain rfl := Except.ok.inj hvalue
        exact Places.constant_anchored hd
  | sel x member =>
      obtain ⟨o', hx, hfield⟩ := Result.bind_eq_ok.mp ho
      exact (operand_addressable x h hx).field hfield
  | index x i =>
      obtain ⟨o', hx, hrest⟩ := Result.bind_eq_ok.mp ho
      obtain ⟨oi, -, hrest⟩ := Result.bind_eq_ok.mp hrest
      obtain ⟨k, -, helement⟩ := Result.bind_eq_ok.mp hrest
      exact (operand_addressable x h hx).element helement
  | star x =>
      obtain ⟨o', -, htarget⟩ := Result.bind_eq_ok.mp ho
      exact Operand.target_anchored htarget
  | paren x => exact operand_addressable x h ho
  | _ => cases h

/-- Assigning to an element through an expression for the array writes to the place where the array
is kept. -/
theorem run_set_element {l : Location} {x i e : YieldMachine.Expr} {cells : List Datum} {j : Int64}
    {v : Datum} (hx : Places.operand names s x = .ok (.location l))
    (hread : Places.read? s l = some (.array cells)) (hi : Places.value names s i = .ok (.int j))
    (hj : 0 ≤ j.toInt ∧ j.toInt < cells.length) (he : Places.value names s e = .ok v) :
    ∃ t, Places.run names s (.assign .set [.index x i] [e]) = .ok t ∧
      Places.read? t l = some (.array (cells.set j.toInt.toNat v)) := by
  obtain ⟨t, hwrite, ht⟩ := Places.write?_element hread (by omega : j.toInt.toNat < cells.length) v
  refine ⟨t, ?_, ht⟩
  obtain ⟨oi, hoi, hdatum⟩ := Result.bind_eq_ok.mp hi
  have hint : oi.int s = .ok j := by
    simp only [Operand.int, hdatum]
    rfl
  have helement : (Operand.location l).element s j =
      .ok (.location (l.inner (.element j.toInt.toNat))) := by
    have hindex : Operand.index j cells.length = .ok j.toInt.toNat := if_pos hj
    simp only [Operand.element, Operand.datum, hread]
    show (do return Operand.location (l.inner (.element (← Operand.index j cells.length))) :
      Result Operand) = _
    rw [hindex]
    rfl
  have htarget : Places.operand names s (.index x i) =
      .ok (.location (l.inner (.element j.toInt.toNat))) := by
    simp only [Places.operand, hx, hoi]
    show (do (Operand.location l).element s (← oi.int s) : Result Operand) = _
    rw [hint]
    exact helement
  have hassigned : Places.assigned? names s (.index x i) =
      .ok (some (l.inner (.element j.toInt.toNat))) := by
    simp only [Places.assigned?, htarget]
    rfl
  simp only [Places.run, Places.assignAll, List.mapM_cons, List.mapM_nil, he, hassigned]
  show (do Places.writeAll (← Places.found (Places.write? s _ v)) [] : Result Store) = _
  rw [hwrite]
  rfl

end Operands

/-- A loop over an array walks over the slice of the whole array. -/
theorem Context.iteration_array {ctx : Context} {x : Expr} {t : Typed} {element : Ty}
    {it : Iteration} (hseq : x.runtimeArg? "Seq" = none) (htyped : x.typed = some t)
    (hshape : t.shape = .array element) (h : ctx.iteration x = .ok it) :
    it = ⟨ctx.adapter "Slice" (wholeSlice x.erase), indexType, element⟩ ∧
      addressable x.erase = true := by
  simp only [Context.iteration, hseq, htyped, Context.iterationOver, hshape] at h
  split at h
  · cases h
  · split at h
    · cases h
      exact ⟨rfl, ‹_›⟩
    · cases h

/-- An array variable with two numbers. -/
def pairArray : Expr :=
  .mk ⟨⟨6, 17⟩, some ⟨.array 2 indexType, .array indexType⟩, false⟩ (.ident ⟨"arr", ⟨6, 17⟩, none⟩)

/-- The statement `for _, v := range arr { arr[1] = 5; yieldgen.Yield(v) }`. -/
def overPair : StmtForm :=
  .range (untyped (.ident ⟨"_", ⟨6, 6⟩, none⟩)) (untyped (.ident ⟨"v", ⟨6, 9⟩, none⟩)) .define
    pairArray
    [.mk ⟨7, 3⟩ (.assign .set [untyped (.index pairArray (untyped (.lit .int "1")))]
        [untyped (.lit .int "5")]),
      .mk ⟨8, 3⟩ (.expr (yieldOf (untyped (.ident ⟨"v", ⟨8, 18⟩, none⟩))))]

/-- The variable of the array. -/
def pairNames : Places.language.Names := [("arr", 0)]

/-- The array `[1, 2]` in its variable. -/
def pairStore : Store := [.array [.int 1, .int 2]]

end YieldMachine.Source
