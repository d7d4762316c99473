/-
# Valid formulas at run time

A formula is checked at zero and priced at other values. Whether it is one does not depend on the values:
if the text at zero is read, the text with any finite values filled in is derived, trimmed or not. Where
no value is negative it is derived just as at zero. But a negative value takes one token more than zero,
and one level more, so the limits on tokens and nesting may be exceeded by a text that keeps within them
at zero. That is all that can go wrong in reading a valid formula (`parse_fill_of_isValid`), and it does
go wrong for some (`not_forall_parse_fill`).
-/

import Tariff.Catalog.Check
import Tariff.Proofs.Formula.Acceptance
import Tariff.Proofs.Formula.Regrouping
import Tariff.Proofs.Formula.Trimming
import Tariff.Proofs.Formula.Zeros
import Tariff.Proofs.Pricing.Raw

namespace Tariff
namespace Formula

variable {values zeros : List (String × Binary64)} {ps : List Piece}

/-! ### From zero to other values -/

/-- An operand with what is filled in for its placeholder, if that has no sign. -/
def Slotted.text (values : List (String × Binary64)) : Slotted → List Char
  | number text => text
  | slot before inside after =>
    match lookup? (String.ofList (trimChars inside)) values with
    | some (.finite false m) => before ++ m.literal ++ after
    | _ => []

/-- Without signs, operands stay operands. -/
theorem flatMap_spell_of_coversUnsigned {us : List (Terminal Slotted)} (hv : CoversUnsigned values ps)
    (hcut : Cut ps us) :
    us.flatMap (Terminal.expand (Slotted.spell values)) = us.map (Terminal.map (Slotted.text values)) := by
  have hterminal : ∀ u ∈ us, u.expand (Slotted.spell values) = [u.map (Slotted.text values)] := by
    intro u hu
    cases u with
    | name => rfl
    | symbol => rfl
    | operand a =>
      cases a with
      | number => rfl
      | slot before inside after =>
        obtain ⟨m, hx⟩ := hv inside (hcut.slot_mem hu)
        simp [Terminal.expand, Terminal.map, Slotted.spell, Slotted.text, hx]
  rw [List.flatMap_def, List.map_congr_left hterminal, ← List.flatMap_def, List.map_eq_flatMap]

/-- Whatever is filled in for an operand is an operation. -/
theorem isOperation_spell {a : Slotted} (ha : ∀ before inside after, a = .slot before inside after →
      ∃ s m, lookup? (String.ofList (trimChars inside)) values = some (.finite s m))
    {rest : List (Terminal (List Char))} (hrest : GoesOn rest) :
    IsOperation (a.spell values ++ rest) := by
  cases a with
  | number text => exact .operand text hrest
  | slot before inside after =>
    obtain ⟨s, m, hx⟩ := ha before inside after rfl
    cases s with
    | false =>
      simp only [Slotted.spell, hx]
      exact .operand _ hrest
    | true =>
      have hnegative : IsOperation (.symbol .minus :: .operand (m.literal ++ after) :: rest) :=
        (IsOperation.operand _ hrest).sign rfl
      cases before with
      | nil => simpa [Slotted.spell, hx] using hnegative
      | cons c before =>
        have hgoes : GoesOn (.symbol .minus :: .operand (m.literal ++ after) :: rest) :=
          .inr ⟨.minus, .minus, _, rfl, rfl, .operand _ hrest⟩
        simpa [Slotted.spell, hx] using IsOperation.operand (c :: before) hgoes

/-- At zero no value has a minus sign, so signs do not come in when a formula is checked. -/
theorem AtZero.coversUnsigned (h : AtZero zeros ps) : CoversUnsigned zeros ps :=
  fun inside hi => ⟨.zero, h inside hi⟩

/-- **A text that can be derived at zero can be derived at every finite value,** and without signs just
as it is at zero. -/
theorem exists_derives_fill {source : String} {blanks : List Char} (hb : ∀ c ∈ blanks, isBlank c)
    (hz : AtZero zeros (pieces source.toList)) (hv : Covers values (pieces source.toList))
    {position : Nat} {ts : List Token}
    (hts : tokensFrom position ((pieces source.toList).flatMap (Piece.fill zeros) ++ blanks) = .ok ts)
    {d : Sentence (List Char)} (hd : d.yield = ts.map Token.terminal) (hfit : d.callsFit) :
    ∃ d' : Sentence (List Char), Derives (fill values source) d' ∧ d'.callsFit ∧
      (CoversUnsigned values (pieces source.toList) →
        d'.yield.length = d.yield.length ∧ d'.nesting = d.nesting) := by
  obtain ⟨us, hcut, hterminals⟩ := cut_of_zeros hb hz hts (hd ▸ d.spaced_yield)
    fun text ht => d.isFunctionName_of_mem_yield (hd ▸ ht)
  rw [flatMap_spell_of_coversUnsigned hz.coversUnsigned hcut, ← hd] at hterminals
  -- From the derivation at zero back to the one of the template, and from there to the values.
  obtain ⟨d₁, rfl, hfit₁, -, hnesting₁⟩ := d.exists_of_yield_map (Slotted.text zeros) hterminals.symm
  obtain ⟨d₂, hd₂, hfit₂⟩ : d₁.Expands (Slotted.spell values) := by
    refine d₁.expands (fun a ha rest hrest => isOperation_spell ?_ hrest) (hfit₁.trans hfit)
    rintro before inside after rfl
    exact hv inside (hcut.slot_mem ha)
  obtain ⟨ts', hts', hterminals'⟩ := hcut.spells hv 0
  refine ⟨d₂, ⟨?_, ts', ?_, hd₂.trans hterminals'.symm⟩, hfit₂, fun hunsigned => ?_⟩
  · rw [fill, String.toList_ofList]
    exact hcut.firstForeign?_fill hv (.inr rfl) 0
  · rw [fill, String.toList_ofList]
    exact hts'
  · rw [flatMap_spell_of_coversUnsigned hunsigned hcut] at hd₂
    obtain ⟨d₃, hd₃, -, -, hnesting₃⟩ := d₂.exists_of_yield_map (Slotted.text values) hd₂.symm
    obtain rfl := Derivation.yield_injective hd₃
    rw [hd₂, hterminals, List.length_map, List.length_map]
    exact ⟨rfl, hnesting₃.symm.trans hnesting₁⟩

end Formula

/-! ### Valid rules -/

open Formula

/-- The text that a formula is checked by has every placeholder at zero. -/
theorem atZero_placeholders (formula : String) :
    AtZero ((placeholders formula).map fun name => (name, .zero)) (pieces formula.toList) :=
  everySlot_of_placeholders fun _ hname => lookup?_map_of_mem hname _

/-- A formula whose text at zero is read can be derived at every finite value once trimmed; without
signs it keeps within the limits. -/
theorem exists_derives_of_atZero {formula : String} {e : Expr}
    (h : parse (Check.atZero formula) = .ok e) {values : List (String × Binary64)}
    (hv : Covers values (pieces (trim formula).toList)) :
    ∃ d : Sentence (List Char), Derives (fill values (trim formula)) d ∧ d.callsFit ∧
      (CoversUnsigned values (pieces (trim formula).toList) →
        WithinLimits (fill values (trim formula))) := by
  obtain ⟨d, hderives, hfit⟩ := exists_derives_of_parse h
  have hlimits := (exists_parse_iff_withinLimits hderives hfit).1 ⟨e, h⟩
  obtain ⟨hlong, hdeep⟩ := (withinLimits_iff hderives).1 hlimits
  obtain ⟨-, ts, hts, hd⟩ := hderives
  have hz := atZero_placeholders formula
  obtain ⟨front, back, hcut, hfront, hback⟩ := exists_pieces_eq formula.toList
  have htrim : trimChars formula.toList = (trim formula).toList := by rw [trim, String.toList_ofList]
  rw [Check.atZero, fill, String.toList_ofList, hcut, List.flatMap_append, List.flatMap_append,
    flatMap_fill_map_char, flatMap_fill_map_char, tokensFrom_blank_append hfront, htrim] at hts
  rw [hcut, htrim] at hz
  obtain ⟨d', hderives', hfit', hsame⟩ := exists_derives_fill hback hz.drop.left hv hts hd hfit
  refine ⟨d', hderives', hfit', fun hunsigned => (withinLimits_iff hderives').2 ?_⟩
  obtain ⟨hlength, hnesting⟩ := hsame hunsigned
  exact ⟨hlength ▸ hlong, hnesting ▸ hdeep⟩

/-- The formula of a valid rule is read at zero. -/
theorem exists_parse_atZero {r : Rule} {earlier : Option (List String)} {rulePrefix : String}
    (hmethod : Method.ofName? r.method = some .formula) (hne : r.formula.isEmpty = false)
    (hvalid : (r.check earlier rulePrefix).isValid) :
    ∃ e, parse (Check.atZero r.formula) = .ok e := by
  have herrors : Check.formulaErrors r.formula = [] := by
    have := List.isEmpty_iff.1 hvalid
    simp only [Rule.check, Check.methodFindings, hmethod, hne, Bool.false_eq_true, ↓reduceIte,
      List.append_eq_nil_iff] at this
    exact this.2
  unfold Check.formulaErrors at herrors
  cases h : parse (Check.atZero r.formula) with
  | ok e => exact ⟨e, rfl⟩
  | error fault => simp [h] at herrors

/-- How a formula fails that is derived with its values: its number is not finite, or its text exceeds a
limit. -/
def LimitedFailure (filled : String) (f : Failure) : Prop :=
  (∃ x, f = .notFinite x) ∨
    (f = .invalid .tooLong ∨ f = .invalid .tooDeep) ∧ ¬ WithinLimits filled

/-- A formula that is derived fails for a limit or for a value that is not finite, and for nothing else. -/
theorem limitedFailure_of_evaluate {source : String} {d : Sentence (List Char)} (h : Derives source d)
    (hfit : d.callsFit) {f : Failure} (hf : evaluate source = .error f) : LimitedFailure source f := by
  unfold evaluate at hf
  split at hf
  · unfold Expr.price at hf
    split at hf
    · simp at hf
    · exact .inl ⟨_, (Except.error.inj hf).symm⟩
  · rename_i fault hfault
    obtain rfl := Except.error.inj hf
    refine .inr ⟨?_, fun hlimits => ?_⟩
    · exact (limit_of_parse_eq_error h hfit hfault).imp (congrArg _) (congrArg _)
    · obtain ⟨e, he⟩ := (exists_parse_iff_withinLimits h hfit).2 hlimits
      simp [hfault] at he

/-- The price of a formula is what its text comes to with the values that its names resolve to. -/
theorem byFormula_eq {r : Rule} (hne : (trim r.formula).isEmpty = false) {sources : Sources}
    {j j' : Journal} {values : List (String × Binary64)}
    (h : sources.resolveAll (some r.id) (placeholders (trim r.formula)) j = .ok (values, j')) :
    (∃ x journal, evaluate (fill values (trim r.formula)) = .ok x ∧
        r.byFormula sources j = .ok ⟨x, .evaluated, journal⟩) ∨
      ∃ f journal, evaluate (fill values (trim r.formula)) = .error f ∧
        r.byFormula sources j = .ok ⟨.zero, .failed, journal⟩ := by
  cases hx : evaluate (fill values (trim r.formula)) with
  | ok x => exact .inl ⟨x, _, rfl, (Rule.FormulaGives.number hne h hx).byFormula_eq⟩
  | error f => exact .inr ⟨f, _, rfl, (Rule.FormulaGives.failure hne h hx).byFormula_eq⟩

/-- **A valid formula is read at every finite value unless its text exceeds a limit,** which takes a
negative value; and so in a pass it fails for its limits or for its number only. -/
theorem parse_fill_of_isValid {r : Rule} {earlier : Option (List String)} {rulePrefix : String}
    (hmethod : Method.ofName? r.method = some .formula) (hne : (trim r.formula).isEmpty = false)
    (hvalid : (r.check earlier rulePrefix).isValid) {values : List (String × Binary64)}
    (hv : ∀ name ∈ placeholders (trim r.formula), ∃ x, lookup? name values = some x ∧ x.isFinite) :
    ((∃ e, parse (fill values (trim r.formula)) = .ok e) ↔
        WithinLimits (fill values (trim r.formula))) ∧
      ((∀ name ∈ placeholders (trim r.formula), ∃ m, lookup? name values = some (.finite false m)) →
        ∃ e, parse (fill values (trim r.formula)) = .ok e) ∧
      (∀ fault, parse (fill values (trim r.formula)) = .error fault →
        fault = .tooLong ∨ fault = .tooDeep) ∧
      ∀ (sources : Sources) (j j' : Journal),
        sources.resolveAll (some r.id) (placeholders (trim r.formula)) j = .ok (values, j') →
          (∃ x journal, r.byFormula sources j = .ok ⟨x, .evaluated, journal⟩) ∨
            ∃ f journal, evaluate (fill values (trim r.formula)) = .error f ∧
              r.byFormula sources j = .ok ⟨.zero, .failed, journal⟩ ∧
                LimitedFailure (fill values (trim r.formula)) f := by
  have hformula : r.formula.isEmpty = false := by
    rw [← Bool.not_eq_true]
    intro hempty
    rw [String.isEmpty_iff.1 hempty] at hne
    revert hne
    decide
  -- The check has read the formula at zero; its derivation is made over for the other values.
  obtain ⟨e, he⟩ := exists_parse_atZero hmethod hformula hvalid
  obtain ⟨d, hd, hfit, hunsigned⟩ := exists_derives_of_atZero he (covers_of_placeholders hv)
  have hread := exists_parse_iff_withinLimits hd hfit
  refine ⟨hread, fun h => hread.2 (hunsigned (everySlot_of_placeholders h)),
    fun fault => limit_of_parse_eq_error hd hfit, ?_⟩
  intro sources j j' hresolve
  obtain ⟨x, journal, -, hx⟩ | ⟨f, journal, hf, hfailed⟩ := byFormula_eq hne hresolve
  · exact .inl ⟨x, journal, hx⟩
  · exact .inr ⟨f, journal, hf, hfailed, limitedFailure_of_evaluate hd hfit hf⟩

/-- A formula in which a placeholder comes right behind a digit. -/
def gluedRule : Rule := { id := "glued", formula := " 3 * 1\x7b\x7bx\x7d\x7d " }

/-- It stays a formula when a negative value cuts the digit off. -/
theorem withinLimits_fill_gluedRule :
    WithinLimits (fill [("x", .ofInt (-5))] (trim gluedRule.formula)) := by
  have hplaceholders : placeholders (trim gluedRule.formula) = ["x"] := by decide +kernel
  have hfinite : (Binary64.ofInt (-5)).isFinite := by decide +kernel
  have hv := finite_of_placeholders_eq hplaceholders hfinite
  have hvalid : (gluedRule.check none "pricingRule.").isValid := by decide +kernel
  have hread : (parse (fill [("x", .ofInt (-5))] (trim gluedRule.formula))).isOk := by decide +kernel
  obtain ⟨hlimits, -⟩ := parse_fill_of_isValid rfl (by decide +kernel) hvalid hv
  exact hlimits.1 (isOk_iff.1 hread)

/-- A formula nested as deep as may be. -/
def deepRule : Rule := { id := "deep", formula := "".pushn '-' 50 ++ "\x7b\x7bx\x7d\x7d" }

/-- **A valid formula need not be read at every finite value:** the sign of a negative one takes a level
of its own. -/
theorem not_forall_parse_fill : ¬ ∀ (r : Rule) (values : List (String × Binary64)),
    Method.ofName? r.method = some .formula → (trim r.formula).isEmpty = false →
      (r.check none "pricingRule.").isValid →
        (∀ name ∈ placeholders (trim r.formula), ∃ x, lookup? name values = some x ∧ x.isFinite) →
          ∃ e, parse (fill values (trim r.formula)) = .ok e := by
  intro hclaim
  have hplaceholders : placeholders (trim deepRule.formula) = ["x"] := by decide +kernel
  have hfinite : (Binary64.ofInt (-1)).isFinite := by decide +kernel
  have hv := finite_of_placeholders_eq hplaceholders hfinite
  have hvalid : (deepRule.check none "pricingRule.").isValid := by decide +kernel
  have hread := isOk_iff.2 (hclaim deepRule _ rfl (by decide +kernel) hvalid hv)
  revert hread
  decide +kernel

end Tariff
