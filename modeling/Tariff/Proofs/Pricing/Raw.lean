/-
# What a raw price comes from

Pricing a rule gives a raw price, an outcome and a journal in a few ways, and these say all that it does: for a rule
by formula `Rule.FormulaGives`, for any other `Rule.FullGives` before the discount and `Rule.MethodGives` behind it.
What holds of a raw price is shown by going through them.

| rule | raw price | outcome |
| --- | --- | --- |
| by formula, without one | zero | evaluated |
| by formula | its number | evaluated |
| by formula, which fails | zero | failed |
| per unit, with quantity and unit price | their product, less the discount | evaluated |
| any other | its base price, less the discount | evaluated |
-/

import Tariff.Pricing.Pass
import Tariff.Proofs.Outcome

namespace Tariff

namespace Rule

variable {r : Rule} {setting : Setting} {j : Journal} {raw : Raw}

/-! ### By formula -/

/-- What a formula gives, unless pricing stops at its names. -/
inductive FormulaGives (r : Rule) (s : Sources) (j : Journal) : Raw → Prop where
  | blank (h : (trim r.formula).isEmpty) :
      FormulaGives r s j ⟨.zero, .evaluated, j.record [r.entry "Formula" "empty expression" (some "0")]⟩
  | number {values : List (String × Binary64)} {j' : Journal} {x : Binary64} (h : (trim r.formula).isEmpty = false)
      (hvalues : s.resolveAll (some r.id) (Formula.placeholders (trim r.formula)) j = .ok (values, j'))
      (hx : Formula.evaluate (Formula.fill values (trim r.formula)) = .ok x) :
      FormulaGives r s j
        ⟨x, .evaluated, j'.record [r.entry "Formula" (Formula.fill values (trim r.formula)) none]⟩
  | failure {values : List (String × Binary64)} {j' : Journal} {f : Formula.Failure}
      (h : (trim r.formula).isEmpty = false)
      (hvalues : s.resolveAll (some r.id) (Formula.placeholders (trim r.formula)) j = .ok (values, j'))
      (hf : Formula.evaluate (Formula.fill values (trim r.formula)) = .error f) :
      FormulaGives r s j ⟨.zero, .failed,
        ((j'.record [r.entry "Formula" (Formula.fill values (trim r.formula)) none]).warn
          ("Rule '" ++ r.id ++ "' failed: " ++ f.message (Formula.fill values (trim r.formula)))).record
            [r.entry f.kind (f.message (Formula.fill values (trim r.formula))) (some "0")]⟩

/-- What pricing by formula comes to is one of the ways in which a formula gives a price. -/
theorem formulaGives_of_byFormula {s : Sources} (h : r.byFormula s j = .ok raw) : r.FormulaGives s j raw := by
  unfold byFormula at h
  dsimp only at h
  split at h
  · rename_i hempty
    obtain rfl := Except.ok.inj h
    exact .blank hempty
  · rename_i hne
    rw [Bool.not_eq_true] at hne
    obtain ⟨⟨values, j'⟩, hvalues, h⟩ := bind_eq_ok_iff.1 h
    dsimp only at h
    split at h
    · rename_i x hx
      obtain rfl := Except.ok.inj h
      exact .number hne hvalues hx
    · rename_i f hf
      obtain rfl := Except.ok.inj h
      exact .failure hne hvalues hf

/-- Each way in which a formula gives a price is what pricing comes to. -/
theorem FormulaGives.byFormula_eq {s : Sources} (h : r.FormulaGives s j raw) : r.byFormula s j = .ok raw := by
  unfold byFormula
  cases h with
  | blank hempty => rw [if_pos hempty]
  | number hne hvalues hx =>
    rw [if_neg (by simp [hne]), hvalues, ok_bind]
    dsimp only
    rw [hx]
    rfl
  | failure hne hvalues hf =>
    rw [if_neg (by simp [hne]), hvalues, ok_bind]
    dsimp only
    rw [hf]
    rfl

/-! ### By any other method -/

/-- The full price of a rule that is not a formula. -/
inductive FullGives (r : Rule) (answers : Json) (j : Journal) : Binary64 → Journal → Prop where
  | units {field : String} {unit n : Binary64} (hmethod : Method.ofName? r.method = some .perUnit)
      (hterms : r.unitTerms? = some (field, unit)) (hn : quantity answers field = .ok n) :
      FullGives r answers j (n * unit) (j.record [r.entry "Per Unit"
        (n.brief ++ " " ++ (nonEmpty? r.unitName).getD "units" ++ " × " ++ unit.brief) (some (n * unit).amount)])
  | noUnits (hmethod : Method.ofName? r.method = some .perUnit) (hterms : r.unitTerms? = none) :
      FullGives r answers j r.basePrice (j.record [r.entry "Per Unit"
        "no quantity source or unit price, using base price" (some r.basePrice.amount)])
  | simple (hmethod : Method.ofName? r.method = some .simple) : FullGives r answers j r.basePrice j
  | unknown (hunit : Method.ofName? r.method ≠ some .perUnit) (hsimple : Method.ofName? r.method ≠ some .simple) :
      FullGives r answers j r.basePrice (j.warn
        ("Rule '" ++ r.id ++ "' has unknown calculation method '" ++ r.method ++ "', using base price"))

/-- What pricing in full comes to is one of the ways in which a rule gives its full amount. -/
theorem fullGives_of_undiscounted {answers : Json} {x : Binary64} {j' : Journal}
    (h : r.undiscounted answers j = .ok (x, j')) : r.FullGives answers j x j' := by
  unfold undiscounted at h
  split at h
  · rename_i hmethod
    obtain ⟨⟨price, entries⟩, hprice, h⟩ := bind_eq_ok_iff.1 h
    obtain ⟨rfl, rfl⟩ := Prod.mk.inj (Except.ok.inj h)
    unfold byUnit at hprice
    split at hprice
    · rename_i hterms
      obtain ⟨n, hn, hprice⟩ := bind_eq_ok_iff.1 hprice
      obtain ⟨rfl, rfl⟩ := Prod.mk.inj (Except.ok.inj hprice)
      exact .units hmethod hterms hn
    · rename_i hterms
      obtain ⟨rfl, rfl⟩ := Prod.mk.inj (Except.ok.inj hprice)
      exact .noUnits hmethod hterms
  · rename_i hmethod
    obtain ⟨rfl, rfl⟩ := Prod.mk.inj (Except.ok.inj h)
    exact .simple hmethod
  · rename_i hunit hsimple
    obtain ⟨rfl, rfl⟩ := Prod.mk.inj (Except.ok.inj h)
    exact .unknown hunit hsimple

/-- Whether the discount of a rule is taken off. -/
def isDiscounted (r : Rule) (setting : Setting) : Bool :=
  setting.discounts && r.isDiscountable && r.discount.isPositive

/-- What the discount makes of the full price. -/
inductive MethodGives (r : Rule) (setting : Setting) (j : Journal) : Raw → Prop where
  | full {x : Binary64} {j' : Journal} (hx : r.FullGives setting.answers j x j') (h : r.isDiscounted setting = false) :
      MethodGives r setting j ⟨x, .evaluated, j'⟩
  | discounted {x : Binary64} {j' : Journal} (hx : r.FullGives setting.answers j x j') (h : r.isDiscounted setting) :
      MethodGives r setting j ⟨x * (Binary64.one - r.discount), .evaluated, j'.record [r.entry "Discount"
        (r.discount.percent ++ " (" ++ setting.terms.discountService ++ " selected)")
        (some (x * (Binary64.one - r.discount)).amount)]⟩

/-- What pricing by method comes to is one of the ways in which a method gives a price. -/
theorem methodGives_of_byMethod (h : r.byMethod setting j = .ok raw) : r.MethodGives setting j raw := by
  obtain ⟨⟨x, j'⟩, hx, h⟩ := bind_eq_ok_iff.1 h
  have hfull := fullGives_of_undiscounted hx
  dsimp only at h
  split at h
  · rename_i hdiscounted
    obtain rfl := Except.ok.inj h
    exact .discounted hfull hdiscounted
  · rename_i hno
    obtain rfl := Except.ok.inj h
    exact .full hfull (Bool.not_eq_true _ ▸ hno)

/-! ### Any raw price -/

/-- **A raw price is given by a formula or by another method.** This takes the place of unfolding how rules are
priced in everything that follows. -/
theorem gives_of_raw {ledger : Ledger} (h : r.raw setting ledger j = .ok raw) :
    Method.ofName? r.method = some .formula ∧
        r.FormulaGives ⟨setting.answers, ledger, setting.services, setting.terms⟩ j raw ∨
      Method.ofName? r.method ≠ some .formula ∧ r.MethodGives setting j raw := by
  unfold Rule.raw at h
  split at h
  · rename_i hmethod
    exact .inl ⟨hmethod, formulaGives_of_byFormula h⟩
  · rename_i hmethod
    exact .inr ⟨hmethod, methodGives_of_byMethod h⟩

/-- Only formulas fail: any other method evaluates its rule. -/
theorem MethodGives.outcome_eq (h : r.MethodGives setting j raw) : raw.outcome = .evaluated := by
  cases h with
  | full => rfl
  | discounted => rfl

/-- A rule that is priced is evaluated or fails. -/
theorem outcome_of_raw {ledger : Ledger} (h : r.raw setting ledger j = .ok raw) :
    raw.outcome = .evaluated ∨ raw.outcome = .failed := by
  rcases gives_of_raw h with ⟨-, hgives⟩ | ⟨-, hgives⟩
  · cases hgives with
    | blank => exact .inl rfl
    | number => exact .inl rfl
    | failure => exact .inr rfl
  · exact .inl hgives.outcome_eq

/-- A rule that is priced is not skipped. -/
theorem skipped_ne_outcome {ledger : Ledger} (h : r.raw setting ledger j = .ok raw) :
    Outcome.skipped ≠ raw.outcome := by
  rcases outcome_of_raw h with houtcome | houtcome <;> simp [houtcome]

end Rule
end Tariff
