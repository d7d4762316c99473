/-
# Which prices are no numbers

The number of a formula is finite and every quantity is, but base prices, unit prices and shares are what the catalog
says, and that may be `nan` or infinite. Neither the bounds nor the rounding make a number of `nan`, and rounding
refuses infinities. So the prices of a pass are finite but for rules that lose their number (`Rule.LosesNumber`):

| price before the discount | discount | price |
| --- | --- | --- |
| base price `nan` | any | `nan` |
| any quantity at `nan` | any | `nan` |
| no quantity at `inf` | any | `nan` |
| zero | infinite | `nan` |
| infinite | all of it | `nan` |
-/

import Tariff.Proofs.Catalog.Loading
import Tariff.Proofs.Number.HalfCent
import Tariff.Proofs.Number.Nan
import Tariff.Proofs.Pricing.Bookkeeping
import Tariff.Proofs.Pricing.Forward

namespace Tariff

open Binary64

namespace Rule

variable {r : Rule} {setting : Setting}

/-- Clamping neither makes a `nan` nor takes one away: comparisons with it are false. -/
theorem isNan_clamp (lowest highest : Option Binary64) (x : Binary64) :
    (clamp lowest highest x).isNan = x.isNan := by
  have hraised (low : Binary64) : (if x.lt low then low else x).isNan = x.isNan := by
    split
    · rename_i hlt
      rw [(isNan_of_lt hlt).1, (isNan_of_lt hlt).2]
    · rfl
  have hlowered (high y : Binary64) : (if high.lt y then high else y).isNan = y.isNan := by
    split
    · rename_i hlt
      rw [(isNan_of_lt hlt).1, (isNan_of_lt hlt).2]
    · rfl
  cases lowest <;> cases highest <;> simp [clamp, hraised, hlowered]

/-! ### Rules that are not formulas -/

/-- What a rule that is not a formula is priced at before its discount. -/
def fullPrice (r : Rule) (answers : Json) : Except Halt Binary64 :=
  match Method.ofName? r.method, r.unitTerms? with
  | some .perUnit, some (field, unit) => do return (← quantity answers field) * unit
  | _, _ => .ok r.basePrice

/-- Without a unit price and a quantity, the full price is the base price. -/
theorem fullPrice_of_base {answers : Json} (h : Method.ofName? r.method = some .perUnit → r.unitTerms? = none) :
    r.fullPrice answers = .ok r.basePrice := by
  unfold fullPrice
  split
  · rename_i hmethod hterms
    cases (h hmethod).symm.trans hterms
  · rfl

/-- With them it is their product. -/
theorem fullPrice_of_unit {answers : Json} {field : String} {unit n : Binary64}
    (hmethod : Method.ofName? r.method = some .perUnit) (hterms : r.unitTerms? = some (field, unit))
    (hn : quantity answers field = .ok n) : r.fullPrice answers = .ok (n * unit) := by
  simp only [fullPrice, hmethod, hterms]
  exact bind_eq_ok_iff.2 ⟨n, hn, rfl⟩

/-- What is priced in full is the full price. -/
theorem FullGives.fullPrice_eq {answers : Json} {j j' : Journal} {x : Binary64} (h : r.FullGives answers j x j') :
    r.fullPrice answers = .ok x := by
  cases h with
  | units hmethod hterms hn => exact fullPrice_of_unit hmethod hterms hn
  | noUnits _ hterms => exact fullPrice_of_base fun _ => hterms
  | simple hmethod => exact fullPrice_of_base fun hunit => by cases hmethod.symm.trans hunit
  | unknown hunit _ => exact fullPrice_of_base fun hmethod => absurd hmethod hunit

/-- What the discount makes of the full price. -/
theorem MethodGives.exists_fullPrice {j : Journal} {raw : Raw} (h : r.MethodGives setting j raw) :
    ∃ x, r.fullPrice setting.answers = .ok x ∧
      raw.value = if r.isDiscounted setting then x * (one - r.discount) else x := by
  cases h with
  | @full x _ hx hno => exact ⟨x, hx.fullPrice_eq, (if_neg (by simp [hno])).symm⟩
  | @discounted x _ hx hdiscounted => exact ⟨x, hx.fullPrice_eq, (if_pos hdiscounted).symm⟩

/-- **A quantity is finite**: answers are read as finite numbers, and none counts as zero. -/
theorem isFinite_quantity {answers : Json} {field : String} {n : Binary64}
    (h : quantity answers field = .ok n) : n.isFinite := by
  obtain ⟨found, -, h⟩ := bind_eq_ok_iff.1 h
  obtain rfl := Except.ok.inj h
  cases found with
  | none => rfl
  | some v => exact v.isFinite_number

/-- The ways in which a rule that is not a formula comes to no number. -/
inductive LosesNumber (r : Rule) (setting : Setting) : Prop where
  | basePrice (hmethod : Method.ofName? r.method ≠ some .formula)
      (hbase : Method.ofName? r.method = some .perUnit → r.unitTerms? = none) (h : r.basePrice = .nan)
  | unitPrice {field : String} {n : Binary64} (hmethod : Method.ofName? r.method = some .perUnit)
      (hterms : r.unitTerms? = some (field, .nan)) (hn : quantity setting.answers field = .ok n)
  | noQuantity {field : String} {negative : Bool} {n : Binary64}
      (hmethod : Method.ofName? r.method = some .perUnit)
      (hterms : r.unitTerms? = some (field, .infinite negative))
      (hn : quantity setting.answers field = .ok n) (h : n.isZero)
  | endlessDiscount {x : Binary64} (hmethod : Method.ofName? r.method ≠ some .formula)
      (hfull : r.fullPrice setting.answers = .ok x) (hdiscounted : r.isDiscounted setting)
      (hx : x.isZero) (h : r.discount = .infinite false)
  | wholeDiscount {negative : Bool} (hmethod : Method.ofName? r.method ≠ some .formula)
      (hfull : r.fullPrice setting.answers = .ok (.infinite negative)) (hdiscounted : r.isDiscounted setting)
      (h : r.discount = .one)

/-- The full price of a rule is no number if the base price or the unit price is none, or if nothing is counted at an
infinite unit price. -/
theorem losesNumber_of_fullPrice (hmethod : Method.ofName? r.method ≠ some .formula)
    (h : r.fullPrice setting.answers = .ok .nan) : r.LosesNumber setting := by
  unfold fullPrice at h
  split at h
  · rename_i field unit hunit hterms
    obtain ⟨n, hn, h⟩ := bind_eq_ok_iff.1 h
    have hfinite := isFinite_quantity hn
    rcases mul_eq_nan_iff.1 (Except.ok.inj h) with rfl | rfl | ⟨hzero, negative, rfl⟩ | ⟨⟨negative, rfl⟩, -⟩
    · cases hfinite
    · exact .unitPrice hunit hterms hn
    · exact .noQuantity hunit hterms hn hzero
    · cases hfinite
  · rename_i hbase
    refine .basePrice hmethod (fun hunit => ?_) (Except.ok.inj h)
    cases hterms : r.unitTerms? with
    | none => rfl
    | some terms => exact absurd hterms (hbase terms.1 terms.2 hunit)

/-- **A rule that is not a formula has the raw price `nan` just if it loses its number.** Its full price is a
base price or a product, and the discount is a product again. -/
theorem MethodGives.value_eq_nan_iff (hmethod : Method.ofName? r.method ≠ some .formula) {j : Journal} {raw : Raw}
    (h : r.MethodGives setting j raw) : raw.value = .nan ↔ r.LosesNumber setting := by
  obtain ⟨x, hfull, hvalue⟩ := h.exists_fullPrice
  -- Only a positive discount is taken off, so it is not `nan` itself.
  have hpositive (hdiscounted : r.isDiscounted setting) : r.discount.isPositive := by
    simp only [isDiscounted, Bool.and_eq_true] at hdiscounted
    exact hdiscounted.2
  rw [hvalue]
  constructor
  · intro hnan
    split at hnan
    · rename_i hdiscounted
      rcases (mul_one_sub_eq_nan_iff (hpositive hdiscounted)).1 hnan with
        rfl | ⟨hzero, hinfinite⟩ | ⟨⟨negative, rfl⟩, hone⟩
      · exact losesNumber_of_fullPrice hmethod hfull
      · exact .endlessDiscount hmethod hfull hdiscounted hzero hinfinite
      · exact .wholeDiscount hmethod hfull hdiscounted hone
    · rw [hnan] at hfull
      exact losesNumber_of_fullPrice hmethod hfull
  · have hkept (hx : x = .nan) : (if r.isDiscounted setting then x * (one - r.discount) else x) = .nan := by
      rw [hx]
      split <;> rfl
    have hsame {y : Binary64} (hy : r.fullPrice setting.answers = .ok y) : x = y :=
      Except.ok.inj (hfull.symm.trans hy)
    rintro (⟨-, hbase, hnan⟩ | ⟨hunit, hterms, hn⟩ | ⟨hunit, hterms, hn, hzero⟩ |
      ⟨-, hx, hdiscounted, hzero, hinfinite⟩ | ⟨-, hx, hdiscounted, hone⟩)
    · exact hkept ((hsame (fullPrice_of_base hbase)).trans hnan)
    · exact hkept ((hsame (fullPrice_of_unit hunit hterms hn)).trans (mul_eq_nan_iff.2 (.inr (.inl rfl))))
    · exact hkept ((hsame (fullPrice_of_unit hunit hterms hn)).trans
        (mul_eq_nan_iff.2 (.inr (.inr (.inl ⟨hzero, _, rfl⟩)))))
    · rw [if_pos hdiscounted, hsame hx]
      exact (mul_one_sub_eq_nan_iff (hpositive hdiscounted)).2 (.inr (.inl ⟨hzero, hinfinite⟩))
    · rw [if_pos hdiscounted, hsame hx]
      exact (mul_one_sub_eq_nan_iff (hpositive hdiscounted)).2 (.inr (.inr ⟨⟨_, rfl⟩, hone⟩))

/-! ### All rules -/

/-- A formula never loses its number, as a result that is not finite makes it fail. -/
theorem not_losesNumber_of_formula (h : Method.ofName? r.method = some .formula) : ¬ r.LosesNumber setting := by
  rintro (⟨hmethod, -, -⟩ | ⟨hunit, -, -⟩ | ⟨hunit, -, -, -⟩ | ⟨hmethod, -, -, -, -⟩ | ⟨hmethod, -, -, -⟩)
  · exact hmethod h
  · cases h.symm.trans hunit
  · cases h.symm.trans hunit
  · exact hmethod h
  · exact hmethod h

/-- **The raw price is `nan` just if the rule loses its number.** A formula never has `nan` for its value, as
evaluation refuses it. -/
theorem value_eq_nan_iff_of_raw {ledger : Ledger} {j : Journal} {raw : Raw} (h : r.raw setting ledger j = .ok raw) :
    raw.value = .nan ↔ r.LosesNumber setting := by
  rcases gives_of_raw h with ⟨hmethod, hgives⟩ | ⟨hmethod, hgives⟩
  · refine iff_of_false (fun hnan => ?_) (not_losesNumber_of_formula hmethod)
    have hfinite : raw.value.isFinite := by
      cases hgives with
      | blank => rfl
      | number _ _ hx => exact Formula.isFinite_of_evaluate hx
      | failure => rfl
    rw [hnan] at hfinite
    cases hfinite
  · exact hgives.value_eq_nan_iff hmethod

end Rule

/-- There is only one `nan`. -/
theorem Binary64.isNan_iff {x : Binary64} : x.isNan ↔ x = .nan := by
  cases x <;> simp [isNan]

namespace Pass

variable {setting : Setting} {q : Pass} {rules : List Rule}

/-- **A price is a finite number unless its rule loses its number,** and then it is `nan`. Infinite prices do
not occur, since they cannot be rounded to cents and stop the pass. -/
theorem isFinite_price_iff (h : run setting rules = .ok q) {price : Price} (hprice : price ∈ q.ledger.prices) :
    ∃ r, Rule.first? rules price.ruleId = some r ∧ (price.value.isFinite ↔ ¬ r.LosesNumber setting) ∧
      (price.value.isFinite ∨ price.value = .nan) := by
  obtain ⟨r, hfirst, -⟩ := (books_of_run h).prices price hprice
  obtain ⟨hid, before, after, rfl, hnew⟩ := Rule.first?_eq_some_iff.1 hfirst
  have hfound := Ledger.find?_of_mem hprice
  rw [← hid] at hfound
  rcases applies_or_skipped h hnew with happlies | ⟨-, hnone⟩
  · obtain ⟨p, raw, value, -, -, hraw, -, hvalue, hvalued, -⟩ := exists_raw_of_run h hnew happlies
    obtain rfl : price = r.price value := Option.some.inj (hfound.symm.trans hvalued)
    have hround := cents_eq_ok_iff.1 hvalue
    have hfinite : value.isFinite = !raw.value.isNan := by
      rw [isFinite_of_roundMoney hround, Rule.isNan_clamp]
    refine ⟨r, hfirst, ?_, ?_⟩
    · rw [← Rule.value_eq_nan_iff_of_raw hraw, ← isNan_iff, Rule.price, hfinite, Bool.not_eq_true',
        Bool.not_eq_true]
    · cases hnan : raw.value.isNan with
      | false => exact .inl (by rw [Rule.price, hfinite, hnan]; rfl)
      | true => exact .inr (isNan_iff.1 (by rw [Rule.price, isNan_of_roundMoney hround, Rule.isNan_clamp, hnan]))
  · cases hnone.symm.trans hfound

/-- A base price that is no number beside one that is. -/
def feeRules : List Rule :=
  [{ id := "rent", method := "simple", basePrice := .ofNat 40 }, { id := "fee", method := "simple", basePrice := .nan }]

/-- Of two base prices one is a number and its price is finite; the other one is `nan` and stays it. -/
theorem isFinite_price_feeRules :
    ∃ q rent fee, run ⟨.object [], [], none, {}⟩ feeRules = .ok q ∧ q.ledger.prices = [rent, fee] ∧
      rent.value.isFinite ∧ fee.value = .nan := by
  have hreturns : (run ⟨.object [], [], none, {}⟩ feeRules).toOption.map (fun q => q.ledger.prices) =
      some [⟨"rent", .ofNat 40, none, none, none⟩, ⟨"fee", .nan, none, none, none⟩] := by decide +kernel
  obtain ⟨q, hq, hprices⟩ := exists_of_toOption_map hreturns
  obtain ⟨r, hr, hrent, -⟩ := isFinite_price_iff hq (by rw [hprices]; exact List.mem_cons_self)
  obtain ⟨f, hf, hfee, hnan⟩ := isFinite_price_iff hq (by rw [hprices]; exact List.mem_cons_of_mem _ List.mem_cons_self)
  obtain rfl := Option.some.inj hr
  obtain rfl := Option.some.inj hf
  refine ⟨q, _, _, hq, hprices, hrent.2 ?_, hnan.resolve_left fun hfinite => hfee.1 hfinite ?_⟩
  · rintro (⟨-, -, h⟩ | ⟨h, -, -⟩ | ⟨h, -, -, -⟩ | ⟨-, -, h, -, -⟩ | ⟨-, -, h, -⟩)
    all_goals
      revert h
      decide +kernel
  · exact .basePrice (by decide) nofun rfl

/-- The files of a catalog with such a price; `Nan` is no word for a blank cell but it writes a number. -/
def feeFiles : CatalogFiles where
  rules := ⟨"pricing_rules.csv", "pricing_rules.csv",
    some "rule_id,calculation_method,base_price\nfee,simple,Nan\n".toUTF8⟩
  services := ⟨"services.csv", "services.csv", some "service_id\n".toUTF8⟩

/-- **Not every price by a catalog that can be loaded is a finite number.** -/
theorem not_forall_isFinite_price : ¬ ∀ (files : CatalogFiles) (c : Catalog) (setting : Setting) (q : Pass),
    files.load = .ok c → setting.services = c.services → run setting c.rules = .ok q →
      ∀ price ∈ q.ledger.prices, price.value.isFinite := by
  intro hall
  have hloads : feeFiles.load.toOption.map (fun c => (run ⟨.object [], c.services, none, {}⟩ c.rules).toOption.map
      fun q => q.ledger.prices) = some (some [⟨"fee", .nan, none, none, none⟩]) := by decide +kernel
  obtain ⟨c, hload, hreturns⟩ := exists_of_toOption_map hloads
  obtain ⟨q, hq, hprices⟩ := exists_of_toOption_map hreturns
  have hfinite := hall feeFiles c _ q hload rfl hq ⟨"fee", .nan, none, none, none⟩
    (by rw [hprices]; exact List.mem_cons_self)
  cases hfinite

end Pass
end Tariff
