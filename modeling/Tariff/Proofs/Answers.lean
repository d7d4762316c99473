/-
# Which paths stop a calculation

A key goes into a list by position. One made of digit characters that writes no whole number stops the
calculation: it has a character that is no decimal digit, such as `²`, or more digits than a number may
have (`isBadIndex`). A path is *blocked* if one of its keys does that (`Json.Blocked`), and these are all
the paths that stop a calculation (`Json.exists_atPath_eq_error_iff`).
-/

import Tariff.Answers
import Tariff.Proofs.Number.Literal
import Tariff.Proofs.Outcome
import Tariff.Proofs.Text

namespace Tariff
namespace Numeral

/-! ### Digit characters as a whole number -/

/-- The value of a decimal digit, of whatever script, is below ten. -/
theorem decimalValue?_lt {c : Char} {d : Nat} (h : decimalValue? c = some d) : d < 10 := by
  obtain ⟨z, hz, rfl⟩ := Option.map_eq_some_iff.1 h
  have hrange := List.find?_some hz
  simp only [Bool.and_eq_true, decide_eq_true_eq] at hrange
  omega

theorem isSome_decimalValue?_of_isDigit {c : Char} (h : c.isDigit) : (decimalValue? c).isSome := by
  simp only [Char.isDigit, ge_iff_le, Bool.and_eq_true, decide_eq_true_eq] at h
  rw [decimalValue?, Option.isSome_map, List.find?_isSome]
  refine ⟨48, by decide, ?_⟩
  have hlo : 48 ≤ c.toNat := h.1
  have hhi : c.toNat ≤ 57 := h.2
  simp [hlo, hhi]

/-- A digit character as it is read. -/
theorem isDigit_plainDigit (c : Char) :
    (((decimalValue? c).map digitChar).getD c).isDigit = (decimalValue? c).isSome := by
  cases h : decimalValue? c with
  | some d => exact isDigit_digitChar (decimalValue?_lt h)
  | none =>
    rw [Option.map_none, Option.getD_none, Option.isSome_none, ← Bool.not_eq_true]
    intro hdigit
    simpa [h] using isSome_decimalValue?_of_isDigit hdigit

/-- Writing a digit character plainly gives no other kind of character. -/
theorem plainDigit_ne {c other : Char} (h : isDigitChar c) (hother : isDigitChar other = false) :
    ((decimalValue? c).map digitChar).getD c ≠ other := by
  rintro rfl
  cases hc : decimalValue? c with
  | some d =>
    have := isSome_decimalValue?_of_isDigit (isDigit_digitChar (decimalValue?_lt hc))
    simp [hc, isDigitChar, this] at hother
  | none => simp [hc, h] at hother

/-- Without underscores there is nothing to ungroup. -/
theorem ungroup_eq_some {cs : List Char} (h : ∀ c ∈ cs, c ≠ '_') (afterDigit : Bool) :
    ungroup afterDigit cs = some cs := by
  induction cs generalizing afterDigit with
  | nil => rfl
  | cons c cs ih =>
    rw [ungroup, ih (fun c hc => h c (List.mem_cons_of_mem _ hc))]
    · rfl
    · exact fun hc => h c List.mem_cons_self hc

theorem unpad_eq_self {cs : List Char} (h : ∀ c ∈ cs, isPadding c = false) : unpad cs = cs := by
  have hdrop {cs : List Char} (h : ∀ c ∈ cs, isPadding c = false) : cs.dropWhile isPadding = cs := by
    cases cs with
    | nil => rfl
    | cons c cs => rw [List.dropWhile_cons_of_neg (by simp [h c List.mem_cons_self])]
  rw [unpad, hdrop h, hdrop fun c hc => h c (List.mem_reverse.1 hc), List.reverse_reverse]

/-! ### A key of digit characters -/

section DigitKey

variable {s : String} (h : ∀ c ∈ s.toList, isDigitChar c)

include h

/-- A text of digit characters, written plainly, has no character of another kind. -/
theorem ne_of_mem_plainDigits {other : Char} (hother : isDigitChar other = false) :
    ∀ c ∈ plainDigits s.toList, c ≠ other := by
  intro c hc
  obtain ⟨d, hd, rfl⟩ := List.mem_map.1 hc
  exact plainDigit_ne (h d hd) hother

/-- A text of digit characters has no padding and no underscores, so only its digits are changed, to plain ones.
-/
theorem normalise_of_isDigitChar : normalise s = some (plainDigits s.toList) := by
  have hunpad : unpad s.toList = s.toList :=
    unpad_eq_self fun c hc => by simp [isPadding, isBlank_eq_false_of_isDigitChar (h c hc)]
  rw [normalise, hunpad]
  exact ungroup_eq_some (ne_of_mem_plainDigits h (by decide +kernel)) false

/-- No digit character is a sign. -/
theorem signed_plainDigits : signed (plainDigits s.toList) = (false, plainDigits s.toList) := by
  have hminus : ∀ c ∈ plainDigits s.toList, c ≠ '-' := ne_of_mem_plainDigits h (by decide +kernel)
  have hplus : ∀ c ∈ plainDigits s.toList, c ≠ '+' := ne_of_mem_plainDigits h (by decide +kernel)
  unfold signed
  split
  · rename_i rest heq
    exact absurd rfl (hminus '-' (heq ▸ List.mem_cons_self))
  · rename_i rest heq
    exact absurd rfl (hplus '+' (heq ▸ List.mem_cons_self))
  · rfl

/-- **Digit characters write a whole number just if each is a decimal digit and they are few enough.** So
superscripts do not, nor do more digits than a number may have. -/
theorem isSome_int?_iff (hne : s.toList ≠ []) : (int? s).isSome ↔
    (∀ c ∈ s.toList, (decimalValue? c).isSome) ∧ s.toList.length ≤ longest := by
  have hdigits : (plainDigits s.toList).all Char.isDigit =
      s.toList.all fun c => (decimalValue? c).isSome := by
    rw [plainDigits, List.all_map]
    exact congrArg s.toList.all (funext isDigit_plainDigit)
  have hlength : (plainDigits s.toList).length = s.toList.length := List.length_map _
  have hplainne : plainDigits s.toList ≠ [] := by simpa [plainDigits] using hne
  rw [int?, normalise_of_isDigitChar h]
  simp only [Option.bind_eq_bind, Option.bind_some, signed_plainDigits h, hlength]
  simp [hdigits, hplainne]

/-- Digit characters write a whole number unless one of them is no decimal digit or there are too many. -/
theorem int?_eq_none_iff (hne : s.toList ≠ []) :
    int? s = none ↔ (∃ c ∈ s.toList, decimalValue? c = none) ∨ longest < s.toList.length := by
  rw [← Option.not_isSome_iff_eq_none, isSome_int?_iff h hne, Classical.not_and_iff_not_or_not,
    Nat.not_le]
  simp

end DigitKey

end Numeral

/-- Whether a key into a list is made of digit characters and is no position. -/
def isBadIndex (key : String) : Bool :=
  key.toList.all isDigitChar &&
    (key.toList.any (fun c => (decimalValue? c).isNone) || Numeral.longest < key.toList.length)

example : isBadIndex "²" ∧ ¬ isBadIndex "2" ∧ ¬ isBadIndex "x²" ∧ ¬ isBadIndex "" := by decide +kernel

namespace Json

/-! ### Paths -/

/-- A bad position is a key of digit characters that writes no whole number. -/
theorem isBadIndex_iff {key : String} : isBadIndex key ↔
    (key.toList ≠ [] ∧ key.toList.all isDigitChar) ∧ Numeral.int? key = none := by
  unfold isBadIndex
  by_cases hdigits : key.toList.all isDigitChar
  · by_cases hne : key.toList = []
    · simp [hne]
    · simp [hdigits, hne, Numeral.int?_eq_none_iff (List.all_eq_true.1 hdigits) hne]
  · simp [hdigits]

/-- One step of a walk stops only in a list, at a key that is a bad position. -/
theorem child_eq_error_iff {v : Json} {key : String} {h : Halt} :
    v.child key = .error h ↔ (∃ items, v = .list items) ∧ isBadIndex key ∧ h = .badIndex key := by
  rw [isBadIndex_iff]
  cases v with
  | list items =>
    rw [child]
    split
    · rename_i hkey
      cases Numeral.int? key with
      | some i => simp
      | none => simp [hkey, eq_comm]
    · rename_i hkey
      exact iff_of_false nofun fun hbad => hkey hbad.2.1.1
  | _ => simp [child]

/-- Some key of a path goes into a list and is no position. -/
inductive Blocked : List String → Json → Prop where
  | here {key : String} {rest : List String} {items : List Json} (h : isBadIndex key) :
      Blocked (key :: rest) (.list items)
  | within {key : String} {rest : List String} {v w : Json} (h : v.child key = .ok (some w))
      (hw : Blocked rest w) : Blocked (key :: rest) v

/-- **A walk stops just if its path is blocked**: one of its keys is a bad position in a list that the keys
before it lead to. -/
theorem exists_walk_eq_error_iff {keys : List String} {v : Json} :
    (∃ h, v.walk keys = .error h) ↔ Blocked keys v := by
  induction keys generalizing v with
  | nil =>
    constructor
    · rintro ⟨_, ⟨⟩⟩
    · nofun
  | cons key rest ih =>
    simp only [walk, bind_eq_error_iff, child_eq_error_iff]
    constructor
    · rintro ⟨h, ⟨⟨items, rfl⟩, hbad, -⟩ | ⟨w, hw, hrest⟩⟩
      · exact .here hbad
      · cases w with
        | none => simp [pure, Except.pure] at hrest
        | some w => exact .within hw (ih.1 ⟨h, hrest⟩)
    · intro hblocked
      cases hblocked with
      | here hbad => exact ⟨_, .inl ⟨⟨_, rfl⟩, hbad, rfl⟩⟩
      | within hw hrest =>
        obtain ⟨h, hrest⟩ := ih.2 hrest
        exact ⟨h, .inr ⟨_, hw, hrest⟩⟩

/-- **A path stops a calculation just if it is blocked.** Missing keys, null and scalars on the way do not stop
it: they lead to nothing, which counts as zero later. -/
theorem exists_atPath_eq_error_iff {path : String} {v : Json} :
    (∃ h, v.atPath path = .error h) ↔ Blocked (pathKeys path) v :=
  exists_walk_eq_error_iff

end Json
end Tariff
