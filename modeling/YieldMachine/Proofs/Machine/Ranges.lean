import Mathlib.Data.Finmap
import YieldMachine.Machine.Adapter
import YieldMachine.Proofs.Machine.Generators
import YieldMachine.Proofs.Text.Runes

/-!
# Cursors walk like range loops

A consumer asks a cursor as often as it likes, takes a row only once it was told that there is
one, and changes the state between its requests.  `Rounds.expect` says what it gets when the rows
are those that the rounds of a range loop bind.  Every cursor answers in this way from its start
on: it gives each row once, in order, says that it is at its end after the last one, and neither
reads out of range nor counts past the limit of its numbers.
-/

namespace YieldMachine

variable {σ γ α κ ν ρ : Type}

/-- What is done with a cursor, and what happens to the state meanwhile. -/
inductive Use (σ : Type) where
  | hasNext
  | next
  | change (f : σ → σ)

/-- Answers the requests among some uses, one after the other. -/
def Supply.useAll (s : Supply σ γ ρ) : γ → List (Use σ) → Eff σ (List (Reply ρ) × γ)
  | g, [] => pure ([], g)
  | g, .hasNext :: us => do
    let (has, g) ← s.hasNext g
    let (replies, g) ← s.useAll g us
    return (.flag has :: replies, g)
  | g, .next :: us => do
    let (row, g) ← s.next g
    let (replies, g) ← s.useAll g us
    return (.element row :: replies, g)
  | g, .change f :: us => do
    modify f
    s.useAll g us

/-- What the rounds of a range loop bind, by the state they find; nothing once the loop is
over. -/
abbrev Rounds (σ ρ : Type) := Nat → σ → Option ρ

/-- What some uses give from a round on, with the round and the state after them.  Nothing if a
row is taken without having been told that there is one; `asked` says whether it was. -/
def Rounds.expect (R : Rounds σ ρ) :
    Bool → Nat → σ → List (Use σ) → Option (List (Reply ρ) × Nat × σ)
  | _, k, m, [] => some ([], k, m)
  | _, k, m, .hasNext :: us => do
    let (replies, last) ← R.expect (R k m).isSome k m us
    return (.flag (R k m).isSome :: replies, last)
  | asked, k, m, .next :: us => do
    guard asked
    let row ← R k m
    let (replies, last) ← R.expect false (k + 1) m us
    return (.element row :: replies, last)
  | asked, k, m, .change f :: us => R.expect asked k (f m) us

/-- Whether a cursor answers as the rounds of a range loop say, changes nothing of the state, and
stands right after each row. -/
def Supply.Ranges (s : Supply σ γ ρ) (R : Rounds σ ρ) (stands : Nat → γ → Prop) (g : γ)
    (m : σ) : Prop :=
  ∀ uses replies k m', R.expect false 0 m uses = some (replies, k, m') →
    ∃ g', s.useAll g uses m = .ok (replies, g') m' ∧ stands k g'

/-- Cursors keep to a range loop if asking and taking a row do, wherever they stand. -/
theorem Supply.ranges_of_stands {s : Supply σ γ ρ} {R : Rounds σ ρ} {stands : Nat → γ → Prop}
    (hask : ∀ k g m, stands k g →
      ∃ g', s.hasNext g m = .ok ((R k m).isSome, g') m ∧ stands k g')
    (hnext : ∀ k g m row, stands k g → R k m = some row →
      ∃ g', s.next g m = .ok (row, g') m ∧ stands (k + 1) g')
    {g : γ} (h : stands 0 g) (m : σ) : s.Ranges R stands g m := by
  intro uses
  generalize false = asked
  generalize 0 = start at h ⊢
  induction uses generalizing asked start g m with
  | nil =>
      rintro replies k m' hexpect
      cases hexpect
      exact ⟨g, rfl, h⟩
  | cons use us ih =>
      rintro replies k m' hexpect
      cases use with
      | hasNext =>
          obtain ⟨⟨rest, last⟩, hrest, heq⟩ := Option.bind_eq_some_iff.mp hexpect
          cases heq
          obtain ⟨g₁, hg₁, hstands⟩ := hask start g m h
          obtain ⟨g', hg', hlast⟩ := ih m _ start hstands _ _ _ hrest
          refine ⟨g', ?_, hlast⟩
          simp only [useAll, eff_bind_apply, hg₁, hg', eff_pure_apply]
      | next =>
          obtain ⟨-, -, hexpect⟩ := Option.bind_eq_some_iff.mp hexpect
          obtain ⟨row, hrow, hexpect⟩ := Option.bind_eq_some_iff.mp hexpect
          obtain ⟨⟨rest, last⟩, hrest, heq⟩ := Option.bind_eq_some_iff.mp hexpect
          cases heq
          obtain ⟨g₁, hg₁, hstands⟩ := hnext start g m row h hrow
          obtain ⟨g', hg', hlast⟩ := ih m _ (start + 1) hstands _ _ _ hrest
          refine ⟨g', ?_, hlast⟩
          simp only [useAll, eff_bind_apply, hg₁, hg', eff_pure_apply]
      | change f =>
          obtain ⟨g', hg', hlast⟩ := ih (f m) asked start h _ _ _ hexpect
          exact ⟨g', hg', hlast⟩

namespace SliceCursor

/-- A range loop over a list binds each position, and the element that is there by then. -/
def rounds (α : Type) (n : Nat) : Rounds (Vector α n) (Nat × α) := fun k elements =>
  elements[k]?.map (k, ·)

theorem ranges (n : Nat) (elements : Vector α n) :
    (supply α n).Ranges (rounds α n) (fun k c => c = ⟨n, k⟩ ∧ k ≤ n) (start n) elements := by
  apply Supply.ranges_of_stands
  · rintro k _ m ⟨rfl, hk⟩
    have hasked : hasNext ⟨n, k⟩ = (rounds α n k m).isSome := by
      rw [Bool.eq_iff_iff]
      simp [hasNext, rounds]
    exact ⟨_, by rw [← hasked]; rfl, rfl, hk⟩
  · rintro k _ m row ⟨rfl, hk⟩ hrow
    obtain ⟨value, hvalue, rfl⟩ := Option.map_eq_some_iff.mp hrow
    have hlt : k < n := by
      by_contra hge
      rw [Vector.getElem?_eq_none (by omega)] at hvalue
      cases hvalue
    refine ⟨⟨n, k + 1⟩, ?_, rfl, hlt⟩
    simp only [supply, eff_get_bind, next, hlt, if_true, hvalue, Option.map_some]
    rfl
  · exact ⟨rfl, Nat.zero_le n⟩

end SliceCursor

namespace MapCursor

theorem snapshot_eq_toArray (entries : List (κ × ν)) : snapshot entries = entries.toArray := by
  simp [snapshot]

/-- The entries of a map in an order in which a loop may meet them: each of them once. -/
def Meets (m : Finmap fun _ : κ => ν) (order : List (κ × ν)) : Prop :=
  m.entries = order.map fun entry => (⟨entry.1, entry.2⟩ : Sigma fun _ : κ => ν)

instance [DecidableEq κ] [DecidableEq ν] (m : Finmap fun _ : κ => ν) (order : List (κ × ν)) :
    Decidable (Meets m order) :=
  inferInstanceAs (Decidable (_ = _))

namespace Meets

variable {m : Finmap fun _ : κ => ν} {order : List (κ × ν)}

theorem mem_entries_iff (h : Meets m order) {key : κ} {value : ν} :
    ⟨key, value⟩ ∈ m.entries ↔ (key, value) ∈ order := by
  rw [h, Multiset.mem_coe, List.mem_map]
  constructor
  · rintro ⟨entry, hentry, heq⟩
    cases heq
    exact hentry
  · exact fun hmem => ⟨_, hmem, rfl⟩

theorem nodup (h : Meets m order) : order.Nodup :=
  (Multiset.coe_nodup.mp (h ▸ m.nodup_entries)).of_map _

theorem length_eq_card (h : Meets m order) : order.length = m.keys.card := by
  have hentries : order.length = m.entries.card := by simp [show m.entries = _ from h]
  rw [hentries, ← Multiset.card_map Sigma.fst]
  rfl

/-- What a map holds at a key is met in one place, and nothing else is met. -/
theorem lookup_eq_some_iff [DecidableEq κ] (h : Meets m order) (key : κ) (value : ν) :
    m.lookup key = some value ↔ ∃! k : Nat, order[k]? = some (key, value) := by
  rw [Finmap.lookup_eq_some_iff, h.mem_entries_iff, List.mem_iff_getElem?]
  constructor
  · rintro ⟨k, hk⟩
    refine ⟨k, hk, fun other hother => ?_⟩
    have hlt : other < order.length := (List.getElem?_eq_some_iff.mp hother).1
    exact (List.getElem?_inj hlt h.nodup).mp (hother.trans hk.symm)
  · exact ExistsUnique.exists

end Meets

/-- Where a cursor stands after some rows: it holds the entries that it was made with. -/
def Stands (order : List (κ × ν)) (k : Nat) (c : MapCursor κ ν) : Prop := c = ⟨order.toArray, k⟩

/-- The cursor keeps to the entries it was made with, in the order they were read in, whatever
becomes of the map. -/
theorem ranges (order : List (κ × ν)) (m : σ) :
    (supply σ κ ν).Ranges (fun k _ => order[k]?) (Stands order) (start order) m := by
  apply Supply.ranges_of_stands
  · rintro k _ m rfl
    have hasked : hasNext ⟨order.toArray, k⟩ = order[k]?.isSome := by
      rw [Bool.eq_iff_iff]
      simp [hasNext]
    exact ⟨_, by rw [← hasked]; rfl, rfl⟩
  · rintro k _ m row rfl hrow
    refine ⟨⟨order.toArray, k + 1⟩, ?_, rfl⟩
    have hread : order.toArray[k]? = some row := by rw [List.getElem?_toArray, hrow]
    simp only [supply, next, hread]
    rfl
  · exact congrArg (fun items => (⟨items, 0⟩ : MapCursor κ ν)) (snapshot_eq_toArray order)

end MapCursor

namespace TextCursor

/-- The cursor always stands where the next piece starts, or at the end of the bytes. -/
theorem ranges {bytes : Bytes} {rows : List (Nat × Nat)} (hrows : Tiles bytes 0 rows) (m : σ) :
    (supply σ).Ranges (fun k _ => rows[k]?)
      (fun k c => ∃ offset, c = ⟨bytes.drop offset, offset⟩ ∧ Tiles bytes offset (rows.drop k))
      (start bytes) m := by
  apply Supply.ranges_of_stands
  · rintro k _ m ⟨offset, rfl, htiles⟩
    have hasked : hasNext ⟨bytes.drop offset, offset⟩ = rows[k]?.isSome := by
      have hend : bytes.length ≤ offset ↔ rows.length ≤ k := by
        rw [htiles.eq_nil_iff, List.drop_eq_nil_iff]
      rw [Bool.eq_iff_iff]
      simp [hasNext, hend]
    exact ⟨_, by rw [← hasked]; rfl, offset, rfl, htiles⟩
  · rintro k _ m row ⟨offset, rfl, htiles⟩ hrow
    obtain ⟨hlt, rfl⟩ := List.getElem?_eq_some_iff.mp hrow
    rw [List.drop_eq_getElem_cons hlt] at htiles
    obtain ⟨-, rune, width, hrow, -, hread, hrest⟩ := htiles.of_cons
    refine ⟨⟨bytes.drop (offset + width), offset + width⟩, ?_, _, rfl, hrest⟩
    simp only [supply, next, hread, hrow, List.drop_drop, eff_pure_apply]
  · exact ⟨0, rfl, hrows⟩

end TextCursor

namespace ChanCursor

/-- What a cursor holds after some rows: it may have received the next element. -/
def Holds (elements : List α) (k : Nat) (c : ChanCursor α) : Prop :=
  (c.queue = elements.drop k ∧ c.waiting = none) ∨
    (c.queue = elements.drop (k + 1) ∧ c.waiting = some elements[k]?)

theorem Holds.prime {elements : List α} {k : Nat} {c : ChanCursor α} (h : Holds elements k c) :
    c.prime = ⟨elements.drop (k + 1), some elements[k]?⟩ := by
  obtain ⟨queue, waiting⟩ := c
  rcases h with ⟨rfl, rfl⟩ | ⟨rfl, rfl⟩
  · simp [ChanCursor.prime]
  · rfl

theorem ranges (zero : α) (elements : List α) (m : σ) :
    (supply σ zero).Ranges (fun k _ => elements[k]?.map (·, ())) (Holds elements)
      (start elements) m := by
  apply Supply.ranges_of_stands
  · intro k c m hc
    refine ⟨c.prime, ?_, .inr ?_⟩
    · simp [supply, hasNext, hc.prime]
    · simp [hc.prime]
  · intro k c m row hc hrow
    obtain ⟨value, hvalue, rfl⟩ := Option.map_eq_some_iff.mp hrow
    refine ⟨⟨elements.drop (k + 1), none⟩, ?_, .inl ⟨rfl, rfl⟩⟩
    simp [supply, next, hc.prime, hvalue]
  · exact .inl ⟨rfl, rfl⟩

end ChanCursor

namespace CountCursor

/-- A range loop over a number binds all numbers from 0 up to it. -/
def rounds (σ : Type) (limit : Int) : Rounds σ (Int × Unit) := fun k _ =>
  if k < limit then some (k, ()) else none

/-- The type of a number has all numbers between 0 and it. -/
theorem wrap_eq_of_le {width : IntWidth} {limit n : Int} (hlimit : width.wrap limit = limit)
    (hn : 0 ≤ n) (hle : n ≤ limit) : width.wrap n = n := by
  obtain ⟨bits, signed⟩ := width
  have hpos : 0 < Nat.pow 2 bits := Nat.two_pow_pos bits
  cases signed with
  | true =>
      simp only [IntWidth.wrap, if_true] at hlimit ⊢
      have hlt : limit < ((Nat.pow 2 bits : Nat) + 1) / 2 := hlimit ▸ Int.bmod_lt hpos
      exact Int.bmod_eq_of_le (by omega) (by omega)
  | false =>
      simp only [IntWidth.wrap, Bool.false_eq_true, if_false] at hlimit ⊢
      have hlt : limit < Nat.pow 2 bits :=
        hlimit ▸ Int.emod_lt_of_pos limit (Int.natCast_pos.mpr hpos)
      exact Int.emod_eq_of_lt hn (by omega)

/-- The cursor stands at the number of rows that it gave, which no type wraps around. -/
theorem ranges {width : IntWidth} {limit : Int} (hlimit : width.wrap limit = limit) (m : σ) :
    (supply σ).Ranges (rounds σ limit)
      (fun k c => c = ⟨width, limit, k⟩ ∧ (k = 0 ∨ (k : Int) ≤ limit)) (start width limit) m := by
  apply Supply.ranges_of_stands
  · rintro k _ m ⟨rfl, hk⟩
    have hasked : hasNext ⟨width, limit, k⟩ = (rounds σ limit k m).isSome := by
      rw [Bool.eq_iff_iff]
      simp [hasNext, rounds]
    exact ⟨_, by rw [← hasked]; rfl, rfl, hk⟩
  · rintro k _ m row ⟨rfl, hk⟩ hrow
    have hlt : (k : Int) < limit := by
      by_contra hge
      rw [rounds, if_neg hge] at hrow
      cases hrow
    rw [rounds, if_pos hlt] at hrow
    cases hrow
    have hwrap : width.wrap (k + 1) = k + 1 := wrap_eq_of_le hlimit (by omega) (by omega)
    refine ⟨⟨width, limit, k + 1⟩, ?_, by push_cast; rfl, .inr (by push_cast; omega)⟩
    simp [supply, next, hwrap]
  · exact ⟨rfl, .inl rfl⟩

end CountCursor

/-- A reply with changed elements. -/
def Reply.map (f : α → ρ) : Reply α → Reply ρ
  | .flag b => .flag b
  | .element value => .element (f value)
  | .collected values => .collected (values.map f)
  | .looped values => .looped (values.map f)
  | .limited => .limited

namespace Known

/-- What is known of changed elements. -/
def map (f : α → ρ) : Known α → Known ρ
  | .unknown => .unknown
  | .more => .more
  | .ended => .ended
  | .item value K => .item (f value) (K.map f)

variable (f : α → ρ) (K : Known α)

theorem has?_map : (K.map f).has? = K.has? := by
  cases K <;> rfl

theorem items_map : (K.map f).items = K.items.map f := by
  induction K with
  | item value K ih => exact congrArg (f value :: ·) ih
  | _ => rfl

theorem limit_map (n : Nat) : (K.map f).limit n = (K.limit n).map f := by
  induction K generalizing n with
  | item value K ih =>
      cases n with
      | zero => rfl
      | succ n => exact congrArg (item (f value)) (ih n)
  | _ => cases n <;> rfl

theorem split_map (n : Nat) :
    (K.map f).split n = (K.split n).map fun (values, K) => (values.map f, K.map f) := by
  induction K generalizing n with
  | item value K ih =>
      cases n with
      | zero => rfl
      | succ n =>
          simp only [map, split, ih, Option.map_map]
          rfl
  | _ => cases n <;> rfl

end Known

theorem Request.expect_map (f : α → ρ) (K : Known α) (r : Request) :
    r.expect (K.map f) = (r.expect K).map fun (reply, K) => (reply.map f, K.map f) := by
  cases r with
  | hasNext =>
      simp only [expect, Known.has?_map, Option.map_map]
      rfl
  | next => cases K <;> rfl
  | collect =>
      simp only [expect, Known.items_map, List.length_map, Known.split_map, Option.map_map]
      rfl
  | loop n =>
      simp only [expect, Known.split_map, Option.map_map]
      split
      · rw [Option.map_map]
        rfl
      · rfl
  | limit n => simp [expect, Known.limit_map, Reply.map]
  | collectFirst n =>
      simp only [expect, Known.split_map, Option.map_map]
      rfl

theorem expectAll_map (f : α → ρ) (K : Known α) (rs : List Request) :
    expectAll (K.map f) rs = (expectAll K rs).map (List.map (Reply.map f)) := by
  induction rs generalizing K with
  | nil => rfl
  | cons r rs ih =>
      simp only [expectAll, Request.expect_map, Option.bind_eq_bind, Option.bind_map]
      cases r.expect K with
      | none => rfl
      | some answer =>
          simp only [Option.bind_some, Function.comp_apply, ih]
          cases expectAll answer.2 rs <;> rfl

namespace Supply

variable {s : Supply σ γ α} {g : γ} {m : σ} {K : Known α}

theorem each_hasNext : s.each.hasNext g = s.hasNext g := rfl

theorem each_next : s.each.next g = do
    let (value, g) ← s.next g
    return ((value, ()), g) := rfl

/-- A cursor over a generator hands on what the generator says, whatever that is. -/
theorem each_useAll (s : Supply σ γ α) (uses : List (Use σ)) (g : γ) :
    s.each.useAll g uses = do
      let (replies, g) ← s.useAll g uses
      return (replies.map (Reply.map (·, ())), g) := by
  induction uses generalizing g with
  | nil => rfl
  | cons use us ih =>
      cases use with
      | hasNext => simp [useAll, ih, each_hasNext, Reply.map]
      | next => simp [useAll, ih, each_next, Reply.map]
      | change f => simp [useAll, ih]

theorem Lawful.each (hs : s.Lawful) : s.each.Lawful where
  ask_again h := hs.ask_again h
  next_asks h := by
    rw [each_hasNext] at h
    simp only [each_next, eff_bind_apply, hs.next_asks h]

theorem Holds.each (h : s.Holds g m K) : s.each.Holds g m (K.map (·, ())) := by
  induction h with
  | unknown g m => exact .unknown g m
  | more hask => exact .more hask
  | ended hask => exact .ended hask
  | item hask hnext _ ih =>
      refine .item hask ?_ ih
      simp only [Supply.each, eff_bind_apply, hnext, eff_pure_apply]

/-- A cursor over a generator gives the elements of its stream. -/
theorem Lawful.each_answerAll (hs : s.Lawful) (h : s.Holds g m K) (zero : α)
    {rs : List Request} {replies : List (Reply α)} (hreplies : expectAll K rs = some replies)
    {fuel : Nat} (hfuel : K.items.length < fuel) :
    ∃ m', answerAll s.each (zero, ()) fuel (.source g) rs m =
      .ok (replies.map (Reply.map (·, ()))) m' := by
  have hholds : (Pipe.supply s.each (zero, ())).Holds (.source g) m (K.map (·, ())) :=
    Pipe.holds_source.mpr h.each
  have hexpect : expectAll (K.map (·, ())) rs = some (replies.map (Reply.map (·, ()))) := by
    rw [expectAll_map, hreplies, Option.map_some]
  exact answerAll_of_expectAll hs.each hholds hexpect (by simpa [Known.items_map] using hfuel)

end Supply

/-- Every new cursor answers as the rounds of a range loop say, however often it is asked and
whatever happens in between.  It gives the elements of a list that are there by then, in order;
each entry that a map holds at the start, once, in any order that a loop over it may have, whatever
becomes of the map; the pieces that a byte string falls into; the elements of a closed channel; the
numbers below a limit; and what a generator gives, which are the elements of its stream.  No cursor
reads out of range, and no number is wrapped around. -/
theorem cursors_range :
    (∀ (α : Type) (n : Nat) (elements : Vector α n),
      (SliceCursor.supply α n).Ranges (SliceCursor.rounds α n) (fun k c => c = ⟨n, k⟩ ∧ k ≤ n)
        (.start n) elements) ∧
    (∀ (κ ν : Type) [DecidableEq κ] (m : Finmap fun _ : κ => ν) (order : List (κ × ν)),
      MapCursor.Meets m order →
        (MapCursor.supply (Finmap fun _ : κ => ν) κ ν).Ranges (fun k _ => order[k]?)
          (MapCursor.Stands order) (.start order) m ∧
        order.length = m.keys.card ∧
        ∀ key value, m.lookup key = some value ↔ ∃! k : Nat, order[k]? = some (key, value)) ∧
    (∀ (σ : Type) (bytes : Bytes) (m : σ), ∃ rows, Tiles bytes 0 rows ∧
      (TextCursor.supply σ).Ranges (fun k _ => rows[k]?)
        (fun k c => ∃ offset, c = ⟨bytes.drop offset, offset⟩ ∧
          Tiles bytes offset (rows.drop k)) (.start bytes) m) ∧
    (∀ (σ α : Type) (zero : α) (elements : List α) (m : σ),
      (ChanCursor.supply σ zero).Ranges (fun k _ => elements[k]?.map (·, ()))
        (ChanCursor.Holds elements) (.start elements) m) ∧
    (∀ (σ : Type) (width : IntWidth) (limit : Int) (m : σ), width.wrap limit = limit →
      (CountCursor.supply σ).Ranges (CountCursor.rounds σ limit)
        (fun k c => c = ⟨width, limit, k⟩ ∧ (k = 0 ∨ (k : Int) ≤ limit)) (.start width limit) m) ∧
    (∀ (σ γ α : Type) (s : Supply σ γ α) (g : γ),
      (∀ uses, s.each.useAll g uses = do
        let (replies, g) ← s.useAll g uses
        return (replies.map (Reply.map (·, ())), g)) ∧
      (∀ (m : σ) (K : Known α) (zero : α) (rs : List Request) (replies : List (Reply α)),
        s.Lawful → s.Holds g m K → expectAll K rs = some replies →
        ∃ bound, ∀ fuel, bound ≤ fuel → ∃ m',
          answerAll s.each (zero, ()) fuel (.source g) rs m =
            .ok (replies.map (Reply.map (·, ()))) m')) := by
  refine ⟨fun α n elements => SliceCursor.ranges n elements,
    fun κ ν _ m order h =>
      ⟨MapCursor.ranges order m, h.length_eq_card, h.lookup_eq_some_iff⟩, ?_,
    fun σ α zero elements m => ChanCursor.ranges zero elements m,
    fun σ width limit m hlimit => CountCursor.ranges hlimit m, ?_⟩
  · intro σ bytes m
    obtain ⟨rows, hrows⟩ := Tiles.exists_rows (Nat.zero_le bytes.length)
    exact ⟨rows, hrows, TextCursor.ranges hrows m⟩
  · intro σ γ α s g
    refine ⟨fun uses => Supply.each_useAll s uses g, ?_⟩
    intro m K zero rs replies hs hholds hreplies
    exact ⟨K.items.length + 1, fun fuel hfuel =>
      hs.each_answerAll hholds zero hreplies (by omega)⟩

/-- A generator that counts its state down. -/
def countdown : Supply Nat (Waiting Nat) Nat := .ofAdvance do
  let n ← get
  set (n - 1)
  return (decide (0 < n), n)

theorem countdown_holds : countdown.Holds none 1 (.item 1 .ended) :=
  .item rfl rfl (.ended rfl)

/-- Numbers of eight bits are counted up to the largest one, entries are read in any order, and a
generator may stand behind a cursor. -/
theorem largest_byte_ranges :
    (CountCursor.supply Unit).Ranges (CountCursor.rounds Unit 127)
      (fun k c => c = ⟨⟨8, true⟩, 127, k⟩ ∧ (k = 0 ∨ (k : Int) ≤ 127)) (.start ⟨8, true⟩ 127) () ∧
    (MapCursor.supply (Finmap fun _ : Nat => Bool) Nat Bool).Ranges
      (fun k _ => [(2, true), (1, false)][k]?) (MapCursor.Stands [(2, true), (1, false)])
      (.start [(2, true), (1, false)]) (Finmap.insert 1 false (Finmap.singleton 2 true)) ∧
    ∃ bound, ∀ fuel, bound ≤ fuel → ∃ m',
      answerAll countdown.each (0, ()) fuel (.source none) [.hasNext, .next, .hasNext] 1 =
        .ok [.flag true, .element (1, ()), .flag false] m' :=
  ⟨cursors_range.2.2.2.2.1 Unit ⟨8, true⟩ 127 () (by decide),
    (cursors_range.2.1 Nat Bool _ [(2, true), (1, false)] (by decide)).1,
    (cursors_range.2.2.2.2.2 Nat (Waiting Nat) Nat countdown none).2 1 (.item 1 .ended) 0
      [.hasNext, .next, .hasNext] [.flag true, .element 1, .flag false]
      (Supply.ofAdvance_lawful _) countdown_holds rfl⟩

end YieldMachine
