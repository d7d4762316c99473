/-
# UTF-8 with replacements

The bytes of a character are a first byte, which says how many follow, and following bytes in `80`–`BF`.
The second byte is held to a narrower range where the character could be written with fewer bytes, is a
surrogate or is beyond `U+10FFFF`:

| first byte | following | second byte |
| --- | ---: | --- |
| `00`–`7F` | 0 | |
| `C2`–`DF` | 1 | any |
| `E0` | 2 | `A0`–`BF` |
| `E1`–`EC`, `EE`, `EF` | 2 | any |
| `ED` | 2 | `80`–`9F` |
| `F0` | 3 | `90`–`BF` |
| `F1`–`F3` | 3 | any |
| `F4` | 3 | `80`–`8F` |

Every text of bytes can be read. A byte that begins no character becomes `U+FFFD`, and so does the longest
beginning of a character that is not gone on with; the byte behind it is read afresh.
-/

namespace Tariff
namespace Utf8

/-- The character that stands for bytes that are none. -/
def replacement : Char := '\ufffd'

/-- A character of which bytes are owed. -/
structure Pending where
  /-- The bytes owed behind the next one. -/
  more : Nat
  /-- The least that the next byte may be. -/
  low : Nat := 0x80
  /-- The greatest that the next byte may be. -/
  high : Nat := 0xBF
  /-- The bits so far. -/
  bits : Nat

/-- What is owed behind a first byte that is not a character of its own. -/
def Pending.ofFirst? (b : Nat) : Option Pending :=
  if 0xC2 ≤ b ∧ b ≤ 0xDF then some { more := 0, bits := b - 0xC0 }
  else if b = 0xE0 then some { more := 1, low := 0xA0, bits := 0 }
  else if b = 0xED then some { more := 1, high := 0x9F, bits := 0xD }
  else if 0xE1 ≤ b ∧ b ≤ 0xEF then some { more := 1, bits := b - 0xE0 }
  else if b = 0xF0 then some { more := 2, low := 0x90, bits := 0 }
  else if 0xF1 ≤ b ∧ b ≤ 0xF3 then some { more := 2, bits := b - 0xF0 }
  else if b = 0xF4 then some { more := 2, high := 0x8F, bits := 4 }
  else none

/-- Characters, last one first, and perhaps one that is not complete. -/
structure Reading where
  chars : List Char := []
  pending : Option Pending := none

namespace Reading

/-- Go on with a byte where a character begins. -/
def first (chars : List Char) (b : Nat) : Reading :=
  if b < 0x80 then ⟨Char.ofNat b :: chars, none⟩
  else match Pending.ofFirst? b with
    | some p => ⟨chars, some p⟩
    | none => ⟨replacement :: chars, none⟩

/-- The next byte. -/
def next (r : Reading) (byte : UInt8) : Reading :=
  let b := byte.toNat
  match r.pending with
  | none => first r.chars b
  | some p =>
    if p.low ≤ b ∧ b ≤ p.high then
      let bits := 64 * p.bits + (b - 0x80)
      match p.more with
      | 0 => ⟨Char.ofNat bits :: r.chars, none⟩
      | more + 1 => ⟨r.chars, some { more := more, bits := bits }⟩
    else first (replacement :: r.chars) b

/-- All characters at the end of the bytes. -/
def finish (r : Reading) : List Char :=
  match r.pending with
  | none => r.chars.reverse
  | some _ => (replacement :: r.chars).reverse

end Reading

/-- The characters that bytes write. -/
def decode (bytes : List UInt8) : List Char := (bytes.foldl Reading.next {}).finish

/-- Too many bytes for a character, a surrogate, a value beyond the last character, and beginnings. -/
example : decode [0xC3, 0xA9] = ['é'] ∧ decode [0xF0, 0x9F, 0x98, 0x80] = ['😀']
    ∧ decode [0xC0, 0x80] = [replacement, replacement]
    ∧ decode [0xED, 0xA0, 0x80] = [replacement, replacement, replacement]
    ∧ decode [0xF4, 0x90, 0x80, 0x80] = [replacement, replacement, replacement, replacement]
    ∧ decode [0xE2, 0x82] = [replacement] ∧ decode [0xE2, 0x28] = [replacement, '('] := by
  decide

end Utf8
end Tariff
