/-
# Which texts are formulas

A text is read as a formula just if its characters are admissible, it has from 1 to `tokenLimit` tokens,
and these have a derivation in which every function gets as many arguments as it takes and which is
nested at most `nestingLimit` deep. There is then no other derivation, and the tree read is the tree of
that one (`parse_eq_ok_iff`).

A text that has a derivation and still is not read exceeds one of the two limits (`parse_eq_of_derives`);
so for such texts being read and keeping within the limits (`WithinLimits`) are the same.
-/

import Tariff.Proofs.Formula.Reading

namespace Tariff
namespace Formula

/-- The reader of a whole formula takes exactly the derivations of formulas that are nested at most
`nestingLimit` deep. -/
theorem exact_formula : Exact .conditional nestingLimit (conditional (inside nestingLimit)) :=
  exact_conditional (exactInside nestingLimit)

/-- **Tokens are read just if there are from 1 to `tokenLimit` of them and they have a derivation** that is
nested at most `nestingLimit` deep and has a tree; that tree is what is read. -/
theorem ofTokens_eq_ok_iff {ts : List Token} {e : Expr} :
    ofTokens ts = .ok e ↔ 1 ≤ ts.length ∧ ts.length ≤ tokenLimit ∧ ∃ d : Sentence (List Char),
      d.yield = ts.map Token.terminal ∧ d.nesting ≤ nestingLimit ∧ d.tree? numberValue = some e := by
  unfold ofTokens
  constructor
  · intro h
    split at h
    · simp at h
    · split at h
      · simp at h
      · rename_i hlong hempty
        split at h
        · simp at h
        · rename_i e' hread
          obtain rfl := Except.ok.inj h
          obtain ⟨d, used, rfl, hy, hn, hx⟩ := exact_formula.sound hread
          rw [List.append_nil] at hlong hempty ⊢
          refine ⟨?_, by omega, d, hy.symm, hn, hx⟩
          cases used with
          | nil => simp at hempty
          | cons => simp
        · simp at h
  · rintro ⟨hpos, hlong, d, hy, hn, hx⟩
    have hne : ts.isEmpty = false := by cases ts <;> simp_all
    have hread := exact_formula.complete d [] hy.symm hx (Construct.endsBefore_nil _)
    rw [List.append_nil, if_pos hn] at hread
    simp [Nat.not_lt.2 hlong, hne, hread]

/-- Tokens with a derivation of a formula are read unless they exceed a limit. -/
theorem ofTokens_eq_of_derives {ts : List Token} (d : Sentence (List Char))
    (hy : d.yield = ts.map Token.terminal) {e : Expr} (hx : d.tree? numberValue = some e) :
    ofTokens ts = if tokenLimit < ts.length then .error .tooLong
      else if d.nesting ≤ nestingLimit then .ok e else .error .tooDeep := by
  obtain ⟨t, ys, hcons, -⟩ := exists_yield_eq_cons d (by simp)
  have hne : ts.isEmpty = false := by
    cases ts with
    | nil => simp [hcons] at hy
    | cons => rfl
  have hread := exact_formula.complete d [] hy.symm hx (Construct.endsBefore_nil _)
  rw [List.append_nil] at hread
  rw [ofTokens, hread]
  simp only [hne, Bool.false_eq_true, ↓reduceIte]
  split
  · rfl
  · by_cases hn : d.nesting ≤ nestingLimit
    · simp [hn]
    · simp [hn]

/-- Both steps have to pass: every character is admissible, and the text can be cut into lexemes. -/
theorem tokens_eq_ok_iff {cs : List Char} {ts : List Token} :
    tokens cs = .ok ts ↔ firstForeign? none 0 0 cs = none ∧ tokensFrom 0 cs = .ok ts := by
  unfold tokens
  cases firstForeign? none 0 0 cs with
  | some => simp
  | none =>
    cases tokensFrom 0 cs with
    | error => simp
    | ok => simp

/-- A text is derived: its characters are admissible and its terminals are those of the derivation. -/
def Derives (source : String) (d : Sentence (List Char)) : Prop :=
  firstForeign? none 0 0 source.toList = none ∧
    ∃ ts, tokensFrom 0 source.toList = .ok ts ∧ d.yield = ts.map Token.terminal

/-- A text keeps within the limits: it has few enough tokens, and a derivation of them is not nested too
deep. -/
def WithinLimits (source : String) : Prop :=
  ∀ ts, tokensFrom 0 source.toList = .ok ts → ts.length ≤ tokenLimit ∧
    ∀ d : Sentence (List Char), d.yield = ts.map Token.terminal → d.nesting ≤ nestingLimit

/-- What is read is derived. -/
theorem exists_derives_of_parse {source : String} {e : Expr} (h : parse source = .ok e) :
    ∃ d, Derives source d ∧ d.callsFit := by
  obtain ⟨ts, hts, hread⟩ := bind_eq_ok_iff.1 h
  obtain ⟨hforeign, hlex⟩ := tokens_eq_ok_iff.1 hts
  obtain ⟨-, -, d, hy, -, hx⟩ := ofTokens_eq_ok_iff.1 hread
  exact ⟨d, ⟨hforeign, ts, hlex, hy⟩, by rw [← d.isSome_tree? numberValue, hx]; rfl⟩

/-- A text that is derived is read unless it exceeds a limit. -/
theorem parse_eq_of_derives {source : String} {d : Sentence (List Char)} (h : Derives source d)
    {e : Expr} (hx : d.tree? numberValue = some e) :
    parse source = if tokenLimit < d.yield.length then .error .tooLong
      else if d.nesting ≤ nestingLimit then .ok e else .error .tooDeep := by
  obtain ⟨hforeign, ts, hts, hy⟩ := h
  rw [parse, tokens_eq_ok_iff.2 ⟨hforeign, hts⟩, ok_bind, ofTokens_eq_of_derives d hy hx, hy,
    List.length_map]

/-- For a text that is derived, the limits are conditions on its derivation, of which there is only one. -/
theorem withinLimits_iff {source : String} {d : Sentence (List Char)} (h : Derives source d) :
    WithinLimits source ↔ d.yield.length ≤ tokenLimit ∧ d.nesting ≤ nestingLimit := by
  obtain ⟨-, ts, hts, hy⟩ := h
  rw [hy, List.length_map]
  constructor
  · intro hlimits
    obtain ⟨hlong, hdeep⟩ := hlimits ts hts
    exact ⟨hlong, hdeep d hy⟩
  · rintro ⟨hlong, hdeep⟩ ts' hts'
    obtain rfl := Except.ok.inj (hts.symm.trans hts')
    refine ⟨hlong, fun d' hy' => ?_⟩
    rwa [Derivation.yield_injective (hy'.trans hy.symm)]

/-- Nothing but a limit keeps a text that is derived from being read. -/
theorem exists_parse_iff_withinLimits {source : String} {d : Sentence (List Char)}
    (h : Derives source d) (hfit : d.callsFit) :
    (∃ e, parse source = .ok e) ↔ WithinLimits source := by
  obtain ⟨e, hx⟩ := Option.isSome_iff_exists.1 ((d.isSome_tree? numberValue).trans hfit)
  rw [withinLimits_iff h, parse_eq_of_derives h hx]
  by_cases hlong : tokenLimit < d.yield.length
  · simp [hlong, Nat.not_le.2 hlong]
  · by_cases hdeep : d.nesting ≤ nestingLimit
    · simp [hlong, hdeep, Nat.not_lt.1 hlong]
    · simp [hlong, hdeep]

/-- If a text is derived and its calls fit, then a fault can be one of the two limits only. -/
theorem limit_of_parse_eq_error {source : String} {d : Sentence (List Char)} (h : Derives source d)
    (hfit : d.callsFit) {fault : Fault} (hfault : parse source = .error fault) :
    fault = .tooLong ∨ fault = .tooDeep := by
  obtain ⟨e, hx⟩ := Option.isSome_iff_exists.1 ((d.isSome_tree? numberValue).trans hfit)
  rw [parse_eq_of_derives h hx] at hfault
  split at hfault
  · exact .inl (Except.error.inj hfault).symm
  · split at hfault
    · simp at hfault
    · exact .inr (Except.error.inj hfault).symm

/-- **Reading accepts exactly the grammar.** The characters are admissible, there are from 1 to
`tokenLimit` tokens, and these have a derivation, of which there is only one; its calls fit, it is
nested at most `nestingLimit` deep, and what is read is its tree. -/
theorem parse_eq_ok_iff (source : String) (e : Expr) :
    parse source = .ok e ↔ firstForeign? none 0 0 source.toList = none ∧
      ∃ ts, tokensFrom 0 source.toList = .ok ts ∧ 1 ≤ ts.length ∧ ts.length ≤ tokenLimit ∧
        ∃ d : Sentence (List Char), d.yield = ts.map Token.terminal ∧
          (∀ d' : Sentence (List Char), d'.yield = ts.map Token.terminal → d' = d) ∧
            d.callsFit ∧ d.nesting ≤ nestingLimit ∧ d.tree? numberValue = some e := by
  rw [parse, bind_eq_ok_iff]
  constructor
  · rintro ⟨ts, hts, h⟩
    obtain ⟨hforeign, hlex⟩ := tokens_eq_ok_iff.1 hts
    obtain ⟨hpos, hlong, d, hy, hn, hx⟩ := ofTokens_eq_ok_iff.1 h
    have hfit : d.callsFit := by rw [← d.isSome_tree? numberValue, hx]; rfl
    exact ⟨hforeign, ts, hlex, hpos, hlong, d, hy,
      fun d' hy' => Derivation.yield_injective (hy'.trans hy.symm), hfit, hn, hx⟩
  · rintro ⟨hforeign, ts, hlex, hpos, hlong, d, hy, -, -, hn, hx⟩
    exact ⟨ts, tokens_eq_ok_iff.2 ⟨hforeign, hlex⟩, ofTokens_eq_ok_iff.2 ⟨hpos, hlong, d, hy, hn, hx⟩⟩

end Formula
end Tariff
