/-!
# Byte strings

Texts of a running generator are byte strings, which need not be valid UTF-8.
`decodeRune` reads one code point; a byte that starts no valid sequence stands for
the replacement character, one byte wide.
-/

namespace YieldMachine

/-- A byte string. -/
abbrev Bytes := List UInt8

/-- The replacement character. -/
def replacementRune : Nat := 0xFFFD

/-- The bytes of a text. -/
def bytesOf (s : String) : Bytes := s.toUTF8.toList

/-- The text with the given bytes, if they are valid. -/
def textOf? (bs : Bytes) : Option String := String.fromUTF8? (ByteArray.mk bs.toArray)

/-- The payload of a continuation byte in the given range. -/
def continuation? (low high : Nat) (b : UInt8) : Option Nat :=
  if low ≤ b.toNat ∧ b.toNat ≤ high then some (b.toNat % 64) else none

/-- The range of the second byte of a sequence, by its first byte: overlong forms,
surrogates and values past the last code point are left out. -/
def secondRange (first : Nat) : Nat × Nat :=
  if first = 0xE0 then (0xA0, 0xBF)
  else if first = 0xED then (0x80, 0x9F)
  else if first = 0xF0 then (0x90, 0xBF)
  else if first = 0xF4 then (0x80, 0x8F)
  else (0x80, 0xBF)

/-- The code point of a sequence of two or more bytes, with its width. -/
def multibyte? (first : Nat) (rest : Bytes) : Option (Nat × Nat) :=
  let (low, high) := secondRange first
  if 0xC2 ≤ first ∧ first ≤ 0xDF then
    match rest with
    | b :: _ => return ((first % 32) * 64 + (← continuation? low high b), 2)
    | _ => none
  else if 0xE0 ≤ first ∧ first ≤ 0xEF then
    match rest with
    | b :: c :: _ =>
      return ((first % 16) * 4096 + (← continuation? low high b) * 64
        + (← continuation? 0x80 0xBF c), 3)
    | _ => none
  else if 0xF0 ≤ first ∧ first ≤ 0xF4 then
    match rest with
    | b :: c :: d :: _ =>
      return ((first % 8) * 262144 + (← continuation? low high b) * 4096
        + (← continuation? 0x80 0xBF c) * 64 + (← continuation? 0x80 0xBF d), 4)
    | _ => none
  else none

/-- The first code point of a byte string and its width, which is 0 at the end only. -/
def decodeRune : Bytes → Nat × Nat
  | [] => (replacementRune, 0)
  | b :: rest =>
    if b.toNat < 0x80 then (b.toNat, 1)
    else (multibyte? b.toNat rest).getD (replacementRune, 1)

/-- The byte string order. -/
def bytesLt : Bytes → Bytes → Bool
  | _, [] => false
  | [], _ :: _ => true
  | a :: as, b :: bs => if a = b then bytesLt as bs else a < b

/-- The value of a hexadecimal digit. -/
def hexValue? (c : Char) : Option Nat :=
  if '0' ≤ c ∧ c ≤ '9' then some (c.toNat - 48)
  else if 'a' ≤ c ∧ c ≤ 'f' then some (c.toNat - 87)
  else if 'A' ≤ c ∧ c ≤ 'F' then some (c.toNat - 55)
  else none

/-- The hexadecimal digit of a value below 16. -/
def hexDigit (n : Nat) : Char := if n < 10 then Char.ofNat (48 + n) else Char.ofNat (87 + n)

/-- The bytes of a byte string as hexadecimal digits. -/
def hexOf (bs : Bytes) : String :=
  String.ofList (bs.flatMap fun b => [hexDigit (b.toNat / 16), hexDigit (b.toNat % 16)])

/-- The byte string that pairs of hexadecimal digits stand for. -/
def bytesOfHex? : List Char → Option Bytes
  | [] => some []
  | a :: b :: rest =>
    return UInt8.ofNat ((← hexValue? a) * 16 + (← hexValue? b)) :: (← bytesOfHex? rest)
  | [_] => none

end YieldMachine
