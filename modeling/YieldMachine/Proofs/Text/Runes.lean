import Mathlib.Data.List.Infix
import YieldMachine.Text.Utf8

/-!
# The code points of a byte string

`decodeRune` reads the character whose UTF-8 form the bytes start with.  Where they start with the
form of no character, it reads the replacement character and one byte.  `Tiles` cuts a byte string
into such pieces.
-/

namespace YieldMachine

open String (utf8EncodeChar)

/-- The pieces that a byte string falls into from an offset on, each with the offset it starts
at: characters, and stray bytes that start the form of no character. -/
inductive Tiles (bytes : Bytes) : Nat → List (Nat × Nat) → Prop
  | done : Tiles bytes bytes.length []
  | char {offset : Nat} {rows : List (Nat × Nat)} (c : Char) :
      utf8EncodeChar c <+: bytes.drop offset →
      Tiles bytes (offset + (utf8EncodeChar c).length) rows →
      Tiles bytes offset ((offset, c.toNat) :: rows)
  | stray {offset : Nat} {rows : List (Nat × Nat)} :
      offset < bytes.length → (∀ c, ¬utf8EncodeChar c <+: bytes.drop offset) →
      Tiles bytes (offset + 1) rows →
      Tiles bytes offset ((offset, replacementRune) :: rows)

theorem continuation?_eq_some_iff {low high n : Nat} {b : UInt8} :
    continuation? low high b = some n ↔ low ≤ b.toNat ∧ b.toNat ≤ high ∧ n = b.toNat % 64 := by
  grind [continuation?]

section Forms

variable {first rune width : Nat} {rest : Bytes}

theorem multibyte?_two {b : UInt8} {tail : Bytes} (hfirst : 0xC2 ≤ first ∧ first ≤ 0xDF)
    (hb : 0x80 ≤ b.toNat ∧ b.toNat ≤ 0xBF) :
    multibyte? first (b :: tail) = some (first % 32 * 64 + b.toNat % 64, 2) := by
  have hrange : secondRange first = (0x80, 0xBF) := by grind [secondRange]
  simp [multibyte?, hfirst, hrange, continuation?, hb]

theorem multibyte?_three {b c : UInt8} {tail : Bytes} (hfirst : 0xE0 ≤ first ∧ first ≤ 0xEF)
    (hb : (secondRange first).1 ≤ b.toNat ∧ b.toNat ≤ (secondRange first).2)
    (hc : 0x80 ≤ c.toNat ∧ c.toNat ≤ 0xBF) :
    multibyte? first (b :: c :: tail) =
      some (first % 16 * 4096 + b.toNat % 64 * 64 + c.toNat % 64, 3) := by
  have hnot : ¬(0xC2 ≤ first ∧ first ≤ 0xDF) := by omega
  simp [multibyte?, hfirst, hnot, continuation?, hb, hc]

theorem multibyte?_four {b c d : UInt8} {tail : Bytes} (hfirst : 0xF0 ≤ first ∧ first ≤ 0xF4)
    (hb : (secondRange first).1 ≤ b.toNat ∧ b.toNat ≤ (secondRange first).2)
    (hc : 0x80 ≤ c.toNat ∧ c.toNat ≤ 0xBF) (hd : 0x80 ≤ d.toNat ∧ d.toNat ≤ 0xBF) :
    multibyte? first (b :: c :: d :: tail) =
      some (first % 8 * 262144 + b.toNat % 64 * 4096 + c.toNat % 64 * 64 + d.toNat % 64, 4) := by
  have hnot : ¬(0xC2 ≤ first ∧ first ≤ 0xDF) := by omega
  have hnot' : ¬(0xE0 ≤ first ∧ first ≤ 0xEF) := by omega
  simp [multibyte?, hfirst, hnot, hnot', continuation?, hb, hc, hd]

/-- Only these three forms are read. -/
theorem multibyte?_cases (h : multibyte? first rest = some (rune, width)) :
    (0xC2 ≤ first ∧ first ≤ 0xDF ∧ ∃ b tail, rest = b :: tail ∧
      0x80 ≤ b.toNat ∧ b.toNat ≤ 0xBF) ∨
    (0xE0 ≤ first ∧ first ≤ 0xEF ∧ ∃ b c tail, rest = b :: c :: tail ∧
      (secondRange first).1 ≤ b.toNat ∧ b.toNat ≤ (secondRange first).2 ∧
      0x80 ≤ c.toNat ∧ c.toNat ≤ 0xBF) ∨
    (0xF0 ≤ first ∧ first ≤ 0xF4 ∧ ∃ b c d tail, rest = b :: c :: d :: tail ∧
      (secondRange first).1 ≤ b.toNat ∧ b.toNat ≤ (secondRange first).2 ∧
      0x80 ≤ c.toNat ∧ c.toNat ≤ 0xBF ∧ 0x80 ≤ d.toNat ∧ d.toNat ≤ 0xBF) := by
  simp only [multibyte?, Option.bind_eq_bind, Option.pure_def] at h
  split at h
  next hfirst =>
    have hrange : secondRange first = (0x80, 0xBF) := by grind [secondRange]
    cases rest with
    | nil => cases h
    | cons b tail =>
        obtain ⟨n, hn, -⟩ := Option.bind_eq_some_iff.mp h
        rw [continuation?_eq_some_iff, hrange] at hn
        exact .inl ⟨hfirst.1, hfirst.2, b, tail, rfl, hn.1, hn.2.1⟩
  next =>
    split at h
    next hfirst =>
      rcases rest with _ | ⟨b, _ | ⟨c, tail⟩⟩
      · cases h
      · cases h
      · obtain ⟨n, hn, h⟩ := Option.bind_eq_some_iff.mp h
        obtain ⟨k, hk, -⟩ := Option.bind_eq_some_iff.mp h
        rw [continuation?_eq_some_iff] at hn hk
        exact .inr (.inl ⟨hfirst.1, hfirst.2, b, c, tail, rfl, hn.1, hn.2.1, hk.1, hk.2.1⟩)
    next =>
      split at h
      next hfirst =>
        rcases rest with _ | ⟨b, _ | ⟨c, _ | ⟨d, tail⟩⟩⟩
        · cases h
        · cases h
        · cases h
        · obtain ⟨n, hn, h⟩ := Option.bind_eq_some_iff.mp h
          obtain ⟨k, hk, h⟩ := Option.bind_eq_some_iff.mp h
          obtain ⟨l, hl, -⟩ := Option.bind_eq_some_iff.mp h
          rw [continuation?_eq_some_iff] at hn hk hl
          exact .inr (.inr ⟨hfirst.1, hfirst.2, b, c, d, tail, rfl, hn.1, hn.2.1, hk.1, hk.2.1,
            hl.1, hl.2.1⟩)
      next => cases h

end Forms

section Characters

theorem toNat_ofNat_of_lt {n : Nat} (h : n < 256) : (UInt8.ofNat n).toNat = n := by
  rw [UInt8.toNat_ofNat', Nat.mod_eq_of_lt h]

/-- The form of a character, by its size. -/
theorem utf8EncodeChar_cases (c : Char) :
    (c.toNat ≤ 0x7F ∧ ∃ a, utf8EncodeChar c = [a] ∧ a.toNat = c.toNat) ∨
    (0x7F < c.toNat ∧ c.toNat ≤ 0x7FF ∧ ∃ a b, utf8EncodeChar c = [a, b] ∧
      a.toNat = c.toNat / 64 + 0xC0 ∧ b.toNat = c.toNat % 64 + 0x80) ∨
    (0x7FF < c.toNat ∧ c.toNat ≤ 0xFFFF ∧ ∃ a b d, utf8EncodeChar c = [a, b, d] ∧
      a.toNat = c.toNat / 4096 + 0xE0 ∧ b.toNat = c.toNat / 64 % 64 + 0x80 ∧
      d.toNat = c.toNat % 64 + 0x80) ∨
    (0xFFFF < c.toNat ∧ ∃ a b d e, utf8EncodeChar c = [a, b, d, e] ∧
      a.toNat = c.toNat / 262144 + 0xF0 ∧ b.toNat = c.toNat / 4096 % 64 + 0x80 ∧
      d.toNat = c.toNat / 64 % 64 + 0x80 ∧ e.toNat = c.toNat % 64 + 0x80) := by
  have hvalid : c.toNat.isValidChar := c.valid
  have henc : utf8EncodeChar c =
      if c.toNat ≤ 127 then [.ofNat c.toNat]
      else if c.toNat ≤ 2047 then [.ofNat (c.toNat / 64 % 32 + 192), .ofNat (c.toNat % 64 + 128)]
      else if c.toNat ≤ 65535 then
        [.ofNat (c.toNat / 4096 % 16 + 224), .ofNat (c.toNat / 64 % 64 + 128),
          .ofNat (c.toNat % 64 + 128)]
      else
        [.ofNat (c.toNat / 262144 % 8 + 240), .ofNat (c.toNat / 4096 % 64 + 128),
          .ofNat (c.toNat / 64 % 64 + 128), .ofNat (c.toNat % 64 + 128)] := rfl
  generalize c.toNat = v at henc hvalid ⊢
  split at henc
  next h1 =>
    exact .inl ⟨h1, _, henc, toNat_ofNat_of_lt (by omega)⟩
  next h1 =>
    split at henc
    next h2 =>
      refine .inr (.inl ⟨by omega, h2, _, _, henc, ?_, ?_⟩) <;>
        exact (toNat_ofNat_of_lt (by omega)).trans (by omega)
    next h2 =>
      split at henc
      next h3 =>
        refine .inr (.inr (.inl ⟨by omega, h3, _, _, _, henc, ?_, ?_, ?_⟩)) <;>
          exact (toNat_ofNat_of_lt (by omega)).trans (by omega)
      next h3 =>
        refine .inr (.inr (.inr ⟨by omega, _, _, _, _, henc, ?_, ?_, ?_, ?_⟩)) <;>
          exact (toNat_ofNat_of_lt (by omega)).trans (by omega)

theorem decodeRune_of_multibyte? {a : UInt8} {rest : Bytes} {r : Nat × Nat} (ha : 0x80 ≤ a.toNat)
    (h : multibyte? a.toNat rest = some r) : decodeRune (a :: rest) = r := by
  rw [decodeRune, if_neg (by omega), h, Option.getD_some]

/-- Reading gives the character that the bytes start with, and its width. -/
theorem decodeRune_utf8EncodeChar (c : Char) (rest : Bytes) :
    decodeRune (utf8EncodeChar c ++ rest) = (c.toNat, (utf8EncodeChar c).length) := by
  have hvalid : c.toNat.isValidChar := c.valid
  rcases utf8EncodeChar_cases c with ⟨hc, a, henc, ha⟩ | ⟨hlow, hc, a, b, henc, ha, hb⟩ |
    ⟨hlow, hc, a, b, d, henc, ha, hb, hd⟩ | ⟨hlow, a, b, d, e, henc, ha, hb, hd, he⟩ <;>
    rw [henc]
  · show decodeRune (a :: rest) = _
    rw [decodeRune, if_pos (by omega), ha]
    rfl
  · have hmulti : multibyte? a.toNat (b :: rest) = _ := multibyte?_two (by omega) (by omega)
    refine (decodeRune_of_multibyte? (by omega) hmulti).trans (Prod.ext ?_ rfl)
    show a.toNat % 32 * 64 + b.toNat % 64 = c.toNat
    omega
  · have hrange : (secondRange a.toNat).1 ≤ b.toNat ∧ b.toNat ≤ (secondRange a.toNat).2 := by
      grind [secondRange]
    have hmulti : multibyte? a.toNat (b :: d :: rest) = _ :=
      multibyte?_three (by omega) hrange (by omega)
    refine (decodeRune_of_multibyte? (by omega) hmulti).trans (Prod.ext ?_ rfl)
    show a.toNat % 16 * 4096 + b.toNat % 64 * 64 + d.toNat % 64 = c.toNat
    omega
  · have hrange : (secondRange a.toNat).1 ≤ b.toNat ∧ b.toNat ≤ (secondRange a.toNat).2 := by
      grind [secondRange]
    have hmulti : multibyte? a.toNat (b :: d :: e :: rest) = _ :=
      multibyte?_four (by omega) hrange (by omega) (by omega)
    refine (decodeRune_of_multibyte? (by omega) hmulti).trans (Prod.ext ?_ rfl)
    show a.toNat % 8 * 262144 + b.toNat % 64 * 4096 + d.toNat % 64 * 64 + e.toNat % 64 = c.toNat
    omega

theorem exists_char_toNat {v : Nat} (h : v.isValidChar) : ∃ c : Char, c.toNat = v :=
  ⟨Char.ofNatAux v h, rfl⟩

/-- The parts of a number of which all but the first have six bits. -/
theorem sixBit_parts {v x y z w : Nat} (hy : y < 64) (hz : z < 64) (hw : w < 64)
    (hv : v = x * 262144 + y * 4096 + z * 64 + w) :
    v / 262144 = x ∧ v / 4096 % 64 = y ∧ v / 64 % 64 = z ∧ v % 64 = w := by
  omega

/-- A byte after the first one has six bits of its own. -/
theorem continuation_bits {b : UInt8} (hlow : 0x80 ≤ b.toNat) (hhigh : b.toNat ≤ 0xBF) :
    b.toNat % 64 + 0x80 = b.toNat := by
  omega

/-- Where a character is read, the bytes start with its form. -/
theorem exists_utf8EncodeChar_prefix {a : UInt8} {rest : Bytes} {r : Nat × Nat}
    (h : multibyte? a.toNat rest = some r) : ∃ c, utf8EncodeChar c <+: a :: rest := by
  rcases multibyte?_cases h with ⟨hlow, hhigh, b, tail, rfl, hb⟩ |
    ⟨hlow, hhigh, b, d, tail, rfl, hfirst, hsecond, hd⟩ |
    ⟨hlow, hhigh, b, d, e, tail, rfl, hfirst, hsecond, hd, hdhigh, he⟩
  · obtain ⟨c, hc⟩ := exists_char_toNat
      (by omega : (a.toNat % 32 * 64 + b.toNat % 64).isValidChar)
    rcases utf8EncodeChar_cases c with ⟨_, _⟩ | ⟨_, _, a', b', henc, ha', hb'⟩ | ⟨_, _⟩ | ⟨_, _⟩
    · omega
    · rw [← UInt8.toNat_inj.mp (by omega : a'.toNat = a.toNat),
        ← UInt8.toNat_inj.mp (by omega : b'.toNat = b.toNat)]
      exact ⟨c, henc ▸ List.prefix_append _ _⟩
    · omega
    · omega
  · have hlead : a.toNat % 16 + 0xE0 = a.toNat := by omega
    have hb : 0x80 ≤ b.toNat ∧ b.toNat ≤ 0xBF := by grind [secondRange]
    have hsize : 0x7FF < a.toNat % 16 * 4096 + b.toNat % 64 * 64 + d.toNat % 64 ∧
        (a.toNat % 16 * 4096 + b.toNat % 64 * 64 + d.toNat % 64).isValidChar := by
      have hbounds : (a.toNat = 0xE0 → 0xA0 ≤ b.toNat) ∧ (a.toNat = 0xED → b.toNat ≤ 0x9F) := by
        grind [secondRange]
      omega
    obtain ⟨c, hc⟩ := exists_char_toNat hsize.2
    rcases utf8EncodeChar_cases c with ⟨_, _⟩ | ⟨_, _, _⟩ |
      ⟨_, _, a', b', d', henc, ha', hb', hd'⟩ | ⟨_, _⟩
    · omega
    · omega
    · rw [← UInt8.toNat_inj.mp (by omega : a'.toNat = a.toNat),
        ← UInt8.toNat_inj.mp (by omega : b'.toNat = b.toNat),
        ← UInt8.toNat_inj.mp (by omega : d'.toNat = d.toNat)]
      exact ⟨c, henc ▸ List.prefix_append _ _⟩
    · omega
  · have hlead : a.toNat % 8 + 0xF0 = a.toNat := by omega
    have hb : 0x80 ≤ b.toNat ∧ b.toNat ≤ 0xBF := by grind [secondRange]
    have hsize :
        0xFFFF < a.toNat % 8 * 262144 + b.toNat % 64 * 4096 + d.toNat % 64 * 64 + e.toNat % 64 ∧
        (a.toNat % 8 * 262144 + b.toNat % 64 * 4096 + d.toNat % 64 * 64 +
          e.toNat % 64).isValidChar := by
      have hbounds : (a.toNat = 0xF0 → 0x90 ≤ b.toNat) ∧ (a.toNat = 0xF4 → b.toNat ≤ 0x8F) := by
        grind [secondRange]
      omega
    obtain ⟨c, hc⟩ := exists_char_toNat hsize.2
    rcases utf8EncodeChar_cases c with ⟨_, _⟩ | ⟨_, _, _⟩ | ⟨_, _, _⟩ |
      ⟨_, a', b', d', e', henc, ha', hb', hd', he'⟩
    · omega
    · omega
    · omega
    · obtain ⟨hx, hy, hz, hw⟩ := sixBit_parts (Nat.mod_lt b.toNat (by decide))
        (Nat.mod_lt d.toNat (by decide)) (Nat.mod_lt e.toNat (by decide)) hc
      rw [hx, hlead] at ha'
      rw [hy, continuation_bits hb.1 hb.2] at hb'
      rw [hz, continuation_bits hd hdhigh] at hd'
      rw [hw, continuation_bits he.1 he.2] at he'
      rw [← UInt8.toNat_inj.mp ha', ← UInt8.toNat_inj.mp hb', ← UInt8.toNat_inj.mp hd',
        ← UInt8.toNat_inj.mp he']
      exact ⟨c, henc ▸ List.prefix_append _ _⟩

/-- A byte that starts the form of no character stands for the replacement character. -/
theorem decodeRune_stray {a : UInt8} {rest : Bytes}
    (h : ∀ c, ¬utf8EncodeChar c <+: a :: rest) : decodeRune (a :: rest) = (replacementRune, 1) := by
  have hascii : ¬a.toNat < 0x80 := by
    intro ha
    obtain ⟨c, hc⟩ := exists_char_toNat (.inl (by omega) : a.toNat.isValidChar)
    rcases utf8EncodeChar_cases c with ⟨_, a', henc, ha'⟩ | ⟨_, _⟩ | ⟨_, _⟩ | ⟨_, _⟩
    · refine h c (henc ▸ ?_)
      rw [UInt8.toNat_inj.mp (ha'.trans hc)]
      exact List.prefix_append [a] rest
    all_goals omega
  cases hmulti : multibyte? a.toNat rest with
  | none => rw [decodeRune, if_neg hascii, hmulti, Option.getD_none]
  | some r =>
      obtain ⟨c, hc⟩ := exists_utf8EncodeChar_prefix hmulti
      exact absurd hc (h c)

end Characters

namespace Tiles

variable {bytes : Bytes} {offset : Nat} {rows : List (Nat × Nat)}

theorem offset_le (h : Tiles bytes offset rows) : offset ≤ bytes.length := by
  induction h with
  | done => exact Nat.le_refl _
  | char c hprefix hrest ih => omega
  | stray hlt _ _ _ => exact hlt.le

/-- A row is what is read at its offset, and the rows after it start where the reading ends. -/
theorem of_cons {row : Nat × Nat} (h : Tiles bytes offset (row :: rows)) :
    offset < bytes.length ∧ ∃ rune width, row = (offset, rune) ∧ 1 ≤ width ∧
      decodeRune (bytes.drop offset) = (rune, width) ∧ Tiles bytes (offset + width) rows := by
  cases h with
  | char c hprefix hrest =>
      obtain ⟨rest, hstart⟩ := hprefix
      have hpos : 0 < (utf8EncodeChar c).length :=
        List.length_pos_iff.mpr String.utf8EncodeChar_ne_nil
      have hle := hrest.offset_le
      refine ⟨by omega, _, _, rfl, hpos, ?_, hrest⟩
      rw [← hstart, decodeRune_utf8EncodeChar]
  | stray hlt hnone hrest =>
      refine ⟨hlt, _, 1, rfl, Nat.le_refl 1, ?_, hrest⟩
      rw [List.drop_eq_getElem_cons hlt] at hnone ⊢
      exact decodeRune_stray hnone

/-- There are no more rows at the end of the bytes only. -/
theorem eq_nil_iff (h : Tiles bytes offset rows) : bytes.length ≤ offset ↔ rows = [] := by
  constructor
  · intro hend
    cases rows with
    | nil => rfl
    | cons row rows => exact absurd h.of_cons.1 (by omega)
  · rintro rfl
    cases h
    exact Nat.le_refl _

/-- Every byte string falls into pieces. -/
theorem exists_rows (h : offset ≤ bytes.length) : ∃ rows, Tiles bytes offset rows := by
  induction hn : bytes.length - offset using Nat.strongRecOn generalizing offset with
  | ind n ih =>
      rcases h.eq_or_lt with rfl | hlt
      · exact ⟨[], .done⟩
      by_cases hchar : ∃ c, utf8EncodeChar c <+: bytes.drop offset
      · obtain ⟨c, hc⟩ := hchar
        have hpos : 0 < (utf8EncodeChar c).length :=
          List.length_pos_iff.mpr String.utf8EncodeChar_ne_nil
        have hle := hc.length_le
        rw [List.length_drop] at hle
        obtain ⟨rows, hrows⟩ := ih (bytes.length - (offset + (utf8EncodeChar c).length))
          (by omega) (by omega) rfl
        exact ⟨_, .char c hc hrows⟩
      · obtain ⟨rows, hrows⟩ := ih (bytes.length - (offset + 1)) (by omega) (by omega) rfl
        exact ⟨_, .stray hlt (not_exists.mp hchar) hrows⟩

end Tiles

end YieldMachine
