/-
# Strings of canonical text read back

Between quotes a character stands for itself, behind a backslash, as a 16-bit unit, or as two of them
(`Json.Token.Escape`), and in each form the reader takes it for one character (`Json.Token.string?_escape`). A
closing quote is none of these forms, so from a text that begins with a string both the string and what stands
behind it are known (`Json.stringText_append_inj`).

| character | written as |
| --- | --- |
| `a` | `a` |
| line feed | `\n` |
| `U+00E9` | `\u00e9` |
| `U+1F600` | `\ud83d\ude00` |
-/

import Tariff.Json.Canonical
import Tariff.Json.Reader

namespace Tariff
namespace Json
namespace Token

/-- A hexadecimal digit is read as the number it was written for. -/
theorem hexValue?_hexChar {d : Nat} (h : d < 16) : hexValue? (hexChar d) = some d := by
  have : ∀ d < 16, hexValue? (hexChar d) = some d := by decide
  exact this d h

/-- Four hexadecimal digits write their unit. -/
theorem unitEscape_eq {n : Nat} (h : n < 65536) :
    ∃ a b c d, unitEscape n = ['\\', 'u', a, b, c, d] ∧ unit? a b c d = some n := by
  refine ⟨hexChar (n / 16 / 16 / 16 % 16), hexChar (n / 16 / 16 % 16), hexChar (n / 16 % 16), hexChar (n % 16),
    rfl, ?_⟩
  have hdigit (k : Nat) : hexValue? (hexChar (k % 16)) = some (k % 16) :=
    hexValue?_hexChar (Nat.mod_lt k (by decide))
  simp only [unit?, hdigit, bind, Option.bind_some, pure, Option.some.injEq]
  omega

section

variable {a b c d : Char} {n : Nat} (acc rest : List Char)

/-- A 16-bit unit that is no first half of a pair is a character. -/
theorem string?_unit (h : unit? a b c d = some n) (hn : n < 0xD800 ∨ 0xDBFF < n) :
    string? acc none ('\\' :: 'u' :: a :: b :: c :: d :: rest) = string? (unitChar n :: acc) none rest := by
  have hsingle : ¬ (0xD800 ≤ n ∧ n ≤ 0xDBFF) := by omega
  simp [string?, h, hsingle]

/-- The first half of a pair is kept until the second comes. -/
theorem string?_high (h : unit? a b c d = some n) (hn : 0xD800 ≤ n) (hn' : n ≤ 0xDBFF) :
    string? acc none ('\\' :: 'u' :: a :: b :: c :: d :: rest) = string? acc (some n) rest := by
  simp [string?, h, hn, hn']

/-- The second half makes a character with the first. -/
theorem string?_low (h : unit? a b c d = some n) (hn : 0xDC00 ≤ n) (hn' : n ≤ 0xDFFF) (high : Nat) :
    string? acc (some high) ('\\' :: 'u' :: a :: b :: c :: d :: rest) =
      string? (Char.ofNat (0x10000 + (high - 0xD800) * 1024 + (n - 0xDC00)) :: acc) none rest := by
  simp [string?, h, hn, hn']

end

/-- The ways in which a character is written between quotes. -/
inductive Escape (c : Char) : List Char → Prop where
  | short {e : Char} (h : shortEscape? e = some c) : Escape c ['\\', e]
  | itself (h : 32 ≤ c.toNat) (hquote : c ≠ '"') (hslash : c ≠ '\\') : Escape c [c]
  | unit (h : c.toNat < 65536) : Escape c (unitEscape c.toNat)
  | pair (h : 65536 ≤ c.toNat) : Escape c
      (unitEscape (0xD800 + (c.toNat - 65536) / 1024) ++ unitEscape (0xDC00 + (c.toNat - 65536) % 1024))

/-- Every character is written in one of the forms that are read. -/
theorem escape_escapeAscii (c : Char) : Escape c (escapeAscii c) := by
  unfold escapeAscii
  iterate 7
    split
    · rename_i h
      subst h
      exact .short rfl
  split
  · rename_i hquote hslash _ _ _ _ _ h
    exact .itself h.1 hquote hslash
  split
  · rename_i h
    exact .unit h
  · rename_i h
    exact .pair (Nat.le_of_not_lt h)

/-- **A character that is written between quotes is read again.** One case for each form; a character beyond 16
bits is put together from the two halves of its pair. -/
theorem string?_escape {c : Char} {escape : List Char} (h : Escape c escape) (acc cs : List Char) :
    string? acc none (escape ++ cs) = string? (c :: acc) none cs := by
  cases h with
  | @short e h =>
    have hu : e ≠ 'u' := by
      rintro rfl
      simp [shortEscape?] at h
    rw [List.cons_append, List.cons_append, List.nil_append, string?]
    · simp only [h]
      rfl
    · intros
      exact hu ‹_›
  | itself h hquote hslash =>
    rw [List.cons_append, List.nil_append, string?]
    · rw [if_neg (by omega)]
      rfl
    · exact hquote
    · intros
      exact hslash ‹_›
    · intros
      exact hslash ‹_›
  | unit h =>
    obtain ⟨a, b, d, e, heq, hunit⟩ := unitEscape_eq h
    -- A character is no surrogate, so its unit is not taken for half of a pair.
    have hvalid : c.toNat < 0xD800 ∨ 0xDFFF < c.toNat := c.valid.imp_right And.left
    have hchar : unitChar c.toNat = c := by
      rw [unitChar, if_neg (by omega), Char.ofNat_toNat]
    rw [heq]
    exact (string?_unit acc cs hunit (by omega)).trans (by rw [hchar])
  | pair h =>
    have hvalid : c.toNat < 0x110000 := by
      have := c.valid
      unfold UInt32.isValidChar Nat.isValidChar at this
      have h2 : c.toNat = c.val.toNat := rfl
      omega
    obtain ⟨a, b, d, e, heq, hunit⟩ := @unitEscape_eq (0xD800 + (c.toNat - 65536) / 1024) (by omega)
    obtain ⟨a', b', d', e', heq', hunit'⟩ := @unitEscape_eq (0xDC00 + (c.toNat - 65536) % 1024) (by omega)
    -- Ten bits come from each half.
    have hchar : 0x10000 + (0xD800 + (c.toNat - 65536) / 1024 - 0xD800) * 1024 +
        (0xDC00 + (c.toNat - 65536) % 1024 - 0xDC00) = c.toNat := by omega
    rw [heq, heq']
    refine (string?_high acc _ hunit (by omega) (by omega)).trans ?_
    refine (string?_low acc cs hunit' (by omega) (by omega) _).trans ?_
    rw [hchar, Char.ofNat_toNat]

/-- **What is written between quotes is read back**, up to the closing quote; the induction is on the
characters, since each is read for itself. -/
theorem string?_flatMap (cs acc rest : List Char) :
    string? acc none (cs.flatMap escapeAscii ++ '"' :: rest) = some (String.ofList (acc.reverse ++ cs), rest) := by
  induction cs generalizing acc with
  | nil =>
    rw [List.flatMap_nil, List.nil_append, List.append_nil, string?]
    rfl
  | cons c cs ih =>
    rw [List.flatMap_cons, List.append_assoc, string?_escape (escape_escapeAscii c), ih, List.reverse_cons,
      List.append_assoc, List.singleton_append]

end Token

/-- A string is written between quotes, character by character. -/
theorem toList_stringText (s : String) :
    (stringText s).toList = '"' :: (s.toList.flatMap escapeAscii ++ ['"']) := by
  rw [stringText, String.toList_ofList, List.cons_append]

/-- **A string is read off the text that begins with it.** What stands behind the closing quote is handed on
untouched. -/
theorem scan?_stringText_append (s : String) (rest : List Char) :
    Token.scan? ((stringText s).toList ++ rest) = some (.text s, rest) := by
  rw [toList_stringText, List.cons_append, List.append_assoc, List.singleton_append, Token.scan?,
    Token.string?_flatMap, List.reverse_nil, List.nil_append, String.ofList_toList]
  rfl

/-- **A text that begins with a string tells the string and what stands behind it.** -/
theorem stringText_append_inj {s t : String} {r r' : List Char}
    (h : (stringText s).toList ++ r = (stringText t).toList ++ r') : s = t ∧ r = r' := by
  have hscan := scan?_stringText_append s r
  rw [h, scan?_stringText_append] at hscan
  simpa [eq_comm] using hscan

end Json
end Tariff
