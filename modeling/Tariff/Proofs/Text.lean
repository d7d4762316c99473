/-
# Characters of a kind

What holds of every code point in the ranges of a character set holds of every character in it
(`CharRanges.forall_of_has`), so that a fact about a kind of characters is checked by going through its
ranges. What has been trimmed stays as it is when it is trimmed again (`trimChars_trimChars`). A run of
characters ends where the first of another kind stands (`takeWhile_run`, `dropWhile_run`).
-/

import Tariff.Text.Blank
import Tariff.Text.Digit

namespace Tariff

/-- A number that a set of ranges holds is in one of them. -/
theorem CharRanges.exists_of_holds {ranges : CharRanges} {n : Nat} (h : ranges.holds n) :
    ∃ range ∈ ranges, ∃ k < range.2 + 1 - range.1, n = range.1 + k := by
  induction ranges with
  | nil => simp [holds] at h
  | cons range rest ih =>
    obtain ⟨lo, hi⟩ := range
    rw [holds] at h
    split at h
    · simp at h
    · rcases Bool.or_eq_true_iff.1 h with hn | hn
      · have hn : n ≤ hi := by simpa using hn
        exact ⟨(lo, hi), List.mem_cons_self, n - lo, by simp only; omega, by simp only; omega⟩
      · obtain ⟨range, hrange, hk⟩ := ih hn
        exact ⟨range, List.mem_cons_of_mem _ hrange, hk⟩

/-- What holds of every character of some ranges can be checked character by character, by their numbers. -/
theorem CharRanges.forall_of_has {ranges : CharRanges} {P : Char → Bool}
    (h : ∀ range ∈ ranges, ∀ k < range.2 + 1 - range.1, P (Char.ofNat (range.1 + k))) {c : Char}
    (hc : ranges.has c) : P c := by
  obtain ⟨range, hrange, k, hk, hn⟩ := exists_of_holds hc
  rw [← Char.ofNat_toNat c, hn]
  exact h range hrange k hk

/-- White space is no digit in any script. -/
theorem isBlank_eq_false_of_isDigitChar {c : Char} (h : isDigitChar c) : isBlank c = false := by
  rw [← Bool.not_eq_true]
  intro hblank
  have := CharRanges.forall_of_has (P := fun c => !isDigitChar c) (by decide +kernel) hblank
  simp [h] at this

/-! ### White space at the ends -/

/-- Without white space at the front, a text begins with another character. -/
theorem head?_trimFront (cs : List Char) : ∀ c, (trimFront cs).head? = some c → isBlank c = false := by
  intro c hc
  have := List.head?_dropWhile_not isBlank cs
  rw [trimFront] at hc
  simpa [hc] using this

theorem trimFront_eq_self {cs : List Char} (h : ∀ c, cs.head? = some c → isBlank c = false) :
    trimFront cs = cs := by
  cases cs with
  | nil => rfl
  | cons c cs => rw [trimFront, List.dropWhile_cons_of_neg (by simp [h c rfl])]

/-- What is trimmed at both ends begins with no white space. -/
theorem trimFront_trimChars (cs : List Char) : trimFront (trimChars cs) = trimChars cs := by
  refine trimFront_eq_self fun c hc => head?_trimFront cs c ?_
  have hprefix : trimChars cs <+: trimFront cs := by
    rw [← List.reverse_suffix, trimChars, List.reverse_reverse]
    exact List.dropWhile_suffix _
  obtain ⟨rest, hrest⟩ := hprefix
  rw [← hrest, List.head?_append, hc]
  rfl

/-- Trimming twice is trimming once. -/
theorem trimChars_trimChars (cs : List Char) : trimChars (trimChars cs) = trimChars cs := by
  have hback : trimFront (trimChars cs).reverse = (trimChars cs).reverse := by
    rw [trimChars, List.reverse_reverse]
    exact trimFront_eq_self (head?_trimFront _)
  rw [trimChars, trimFront_trimChars, hback, List.reverse_reverse]

/-- A text without white space at its ends is trimmed. -/
theorem trimChars_eq_self {cs : List Char} (hfront : ∀ c, cs.head? = some c → isBlank c = false)
    (hback : ∀ c, cs.getLast? = some c → isBlank c = false) : trimChars cs = cs := by
  rw [trimChars, trimFront_eq_self hfront, trimFront_eq_self fun c hc => hback c (by simpa using hc),
    List.reverse_reverse]

/-- White space alone is trimmed to nothing. -/
theorem trimChars_of_forall_isBlank {cs : List Char} (h : ∀ c ∈ cs, isBlank c) : trimChars cs = [] := by
  have hfront : trimFront (cs ++ []) = [] := List.dropWhile_append_of_pos h
  rw [List.append_nil] at hfront
  rw [trimChars, hfront]
  rfl

/-- What begins with no white space still begins so when it is trimmed. -/
theorem head?_trimChars {cs : List Char} {c : Char} (h : cs.head? = some c) (hc : isBlank c = false) :
    (trimChars cs).head? = some c := by
  obtain ⟨rest, rfl⟩ : ∃ rest, cs = c :: rest := by
    cases cs with
    | nil => cases h
    | cons d rest => exact ⟨rest, by rw [Option.some.inj h]⟩
  have hfront : trimFront (c :: rest) = c :: rest := trimFront_eq_self fun d hd => Option.some.inj hd ▸ hc
  rw [trimChars, hfront, trimFront, List.reverse_cons, List.dropWhile_append]
  split
  · simp [hc]
  · simp

/-! ### Runs of characters -/

variable {α : Type} {p : α → Bool} {run rest : List α}

/-- A run ends where a character comes that is no part of it. -/
theorem takeWhile_run (h : ∀ a ∈ run, p a) (hr : ∀ a ∈ rest.head?, p a = false) :
    (run ++ rest).takeWhile p = run := by
  rw [List.takeWhile_append_of_pos h]
  cases rest with
  | nil => simp
  | cons a rest => simp [hr a rfl]

theorem dropWhile_run (h : ∀ a ∈ run, p a) (hr : ∀ a ∈ rest.head?, p a = false) :
    (run ++ rest).dropWhile p = rest := by
  rw [List.dropWhile_append_of_pos h]
  cases rest with
  | nil => rfl
  | cons a rest => simp [hr a rfl]

/-- Every list begins with a run, which may be empty. -/
theorem exists_run (p : α → Bool) (xs : List α) :
    ∃ run rest, xs = run ++ rest ∧ (∀ a ∈ run, p a) ∧ ∀ a ∈ rest.head?, p a = false := by
  refine ⟨_, _, List.takeWhile_append_dropWhile.symm, List.all_eq_true.1 List.all_takeWhile, fun a ha => ?_⟩
  have := List.head?_dropWhile_not p xs
  rwa [ha] at this

end Tariff
