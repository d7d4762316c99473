/-
# Filters written and read

A filter has one canonical object: every key in its first spelling, every set as its ascending list, the fee as a
number. Reading that object gives the filter again, empty sets and all, since a list that is there never counts as
missing. Only a fee of negative zero is read as positive zero (`Filter.ofJson_toJson`), so a second reading changes
nothing. No zero raises a total, and the fee has no part in which prices are accepted, so the canonical object of a
filter means what the filter was written as (`Filter.canonical_form`).

| written | canonical |
| --- | --- |
| `null`, or an object without keys | the default sets and `0.0` |
| `include_types` | `includeTypes` |
| both spellings, the first one null | the second one |
| `["b", "a", "b"]` | `["a", "b"]` |
| `[]` | `[]` |
| a fee of `null`, `false`, `""` or `-0.0` | `0.0` |
| a fee of `"-0"` | `-0.0`, and read again `0.0` |
-/

import Mathlib.Data.List.Forall2
import Tariff.Pricing.Total
import Tariff.Proofs.Number.Sums
import Tariff.Proofs.Outcome

namespace Tariff

namespace Filter

/-! ### Sets -/

/-- A list of texts is read back as it was written. -/
theorem texts?_map_text (xs : List String) : texts? (xs.map .text) = some xs := by
  induction xs with
  | nil => rfl
  | cons x rest ih => rw [List.map_cons, texts?, ih, Option.map_some]

/-- The names of a set are read as that set, whatever the default is. -/
theorem pickSet_ofTexts {data : Json} {key other : String} {s default : NameSet}
    (h : data.get? key = some (.ofTexts s.names)) : pickSet data key other default = .ok s := by
  have hpick : pick data key other = some (.list (s.names.map .text)) := by
    simp only [pick, h]
    rfl
  rw [pickSet, hpick]
  dsimp only
  rw [texts?_map_text]
  exact congrArg Except.ok s.ofList_names

/-! ### Fees -/

/-- A filter whose fee, if it is zero, is positive zero. -/
def withoutSign (f : Filter) : Filter :=
  { f with minimumFee := if f.minimumFee.isZero then .zero else f.minimumFee }

/-- A minimum fee of zero loses its sign when it is read. -/
theorem withoutSign_of_isZero {f : Filter} (h : f.minimumFee.isZero) :
    f.withoutSign = { f with minimumFee := .zero } := by
  rw [withoutSign, if_pos h]

/-- Any other minimum fee is kept. -/
theorem withoutSign_of_not_isZero {f : Filter} (h : f.minimumFee.isZero = false) : f.withoutSign = f := by
  rw [withoutSign, if_neg (by simp [h])]

/-- Taking the sign off twice is taking it off once, so a filter that has been read and written is stable. -/
theorem withoutSign_withoutSign (f : Filter) : f.withoutSign.withoutSign = f.withoutSign := by
  cases h : f.minimumFee.isZero with
  | false => rw [withoutSign_of_not_isZero h, withoutSign_of_not_isZero h]
  | true =>
    have hzero : Binary64.zero.isZero := by decide +kernel
    rw [withoutSign_of_isZero h]
    exact withoutSign_of_isZero (f := { f with minimumFee := .zero }) hzero

/-- A number is read as a fee; a negative zero as zero. -/
theorem fee_real (x : Binary64) : fee (.real x) = .ok (if x.isZero then .zero else x) := by
  rw [fee, Json.isBlankValue]
  split <;> rfl

/-- **A canonical object is read as its filter,** but for the sign of a fee of zero. Each key is found in its
first spelling, so defaults do not come in. -/
theorem ofJson_toJson (f : Filter) : ofJson f.toJson = .ok f.withoutSign := by
  unfold ofJson toJson
  dsimp only
  rw [ok_bind, pickSet_ofTexts rfl, ok_bind, pickSet_ofTexts rfl, ok_bind, pickSet_ofTexts rfl, ok_bind,
    pickSet_ofTexts rfl, ok_bind]
  have hfee : pick f.toJson "minimumFee" "minimum_fee" = some (.real f.minimumFee) := rfl
  rw [toJson] at hfee
  rw [hfee, Option.getD_some, fee_real]
  rfl

/-! ### Filters and objects up to the sign of zero -/

/-- Two filters with the same sets, and with fees that are equal as numbers. -/
structure Equals (f g : Filter) : Prop where
  includeTypes : f.includeTypes = g.includeTypes
  excludeTypes : f.excludeTypes = g.excludeTypes
  includeBillings : f.includeBillings = g.includeBillings
  excludeBillings : f.excludeBillings = g.excludeBillings
  minimumFee : f.minimumFee.eq g.minimumFee

end Filter

namespace Json

/-- Two fields with the same key and the same value, or with numbers for values that are equal as such. -/
def SameField (a b : String × Json) : Prop :=
  a.1 = b.1 ∧ (a.2 = b.2 ∨ ∃ x y : Binary64, a.2 = .real x ∧ b.2 = .real y ∧ x.eq y)

/-- Two objects with the same fields in the same order, numbers compared as numbers. -/
def SameObject : Json → Json → Prop
  | .object fields, .object others => List.Forall₂ SameField fields others
  | _, _ => False

theorem SameField.refl (a : String × Json) : SameField a a := ⟨rfl, .inl rfl⟩

end Json

namespace Filter

/-- Filters that are equal are written as the same object, up to a sign of zero. -/
theorem Equals.sameObject {f g : Filter} (h : f.Equals g) : Json.SameObject f.toJson g.toJson := by
  rw [toJson, toJson, h.includeTypes, h.excludeTypes, h.includeBillings, h.excludeBillings]
  refine .cons (.refl _) (.cons (.refl _) (.cons (.refl _) (.cons (.refl _) (.cons ⟨rfl, ?_⟩ .nil))))
  exact .inr ⟨_, _, rfl, rfl, h.minimumFee⟩

/-- Without the sign of a zero a filter is equal to what it was, as `0.0` and `-0.0` are. -/
theorem equals_withoutSign {f : Filter} (h : f.minimumFee.isNan = false) : f.Equals f.withoutSign := by
  cases hzero : f.minimumFee.isZero with
  | true =>
    rw [withoutSign_of_isZero hzero]
    exact ⟨rfl, rfl, rfl, rfl, hzero⟩
  | false =>
    rw [withoutSign_of_not_isZero hzero]
    obtain ⟨a, ha⟩ := Option.isSome_iff_exists.1 (Binary64.rank_isSome h)
    exact ⟨rfl, rfl, rfl, rfl, by simp [Binary64.eq, ha]⟩

/-! ### What a filter means -/

/-- **A zero of either sign raises no total.** Only a positive minimum fee does, so dropping the sign makes no
difference to a price. -/
theorem serviceTotal_withoutSign (f : Filter) (l : Ledger) (service : String) :
    l.serviceTotal service f.withoutSign = l.serviceTotal service f := by
  cases hzero : f.minimumFee.isZero with
  | false => rw [withoutSign_of_not_isZero hzero]
  | true =>
    obtain ⟨s, hs⟩ := Binary64.eq_zero_of_isZero hzero
    have hnone : f.minimumFee.isPositive = false := by
      rw [hs]
      cases s <;> decide +kernel
    have hnone' : Binary64.zero.isPositive = false := by decide +kernel
    have hcounted : l.counted service { f with minimumFee := .zero } = l.counted service f := rfl
    simp only [withoutSign_of_isZero hzero, Ledger.serviceTotal, hcounted, hnone, hnone', Bool.false_and,
      Bool.false_eq_true, if_false]

/-- **A filter and its canonical object.** The canonical object of what is read is read as the same filter, and has
itself for its canonical object. So what was read and its canonical object accept the same prices, and make the same
totals, however it was spelled. -/
theorem canonical_form {d : Json} {f : Filter} (h : ofJson d = .ok f) (hfee : f.minimumFee.isNan = false) :
    ∃ g, ofJson f.toJson = .ok g ∧ f.Equals g ∧ Json.SameObject f.toJson g.toJson ∧ ofJson g.toJson = .ok g ∧
      (∀ p, (ofJson f.toJson).map (fun read => read.accepts p) = (ofJson d).map fun read => read.accepts p) ∧
      ∀ (l : Ledger) (service : String),
        (ofJson f.toJson).map (l.serviceTotal service) = (ofJson d).map (l.serviceTotal service) := by
  have hequals := equals_withoutSign hfee
  refine ⟨_, ofJson_toJson f, hequals, hequals.sameObject, ?_, fun p => ?_, fun l service => ?_⟩
  · rw [ofJson_toJson, withoutSign_withoutSign]
  · rw [ofJson_toJson, h]
    rfl
  · rw [ofJson_toJson, h, Except.map, Except.map, serviceTotal_withoutSign]

/-- Both spellings, a repeated entry, an empty set and a fee of negative zero. -/
def mixedFilter : Json := .object [
  ("includeTypes", .null),
  ("include_types", .ofTexts ["Discount", "Add-on", "Discount"]),
  ("includeBillingFrequencies", .ofTexts []),
  ("include_billing_frequencies", .ofTexts ["Monthly"]),
  ("minimum_fee", .text "-0")]

/-- The empty set stays empty, and only the sign of the fee is lost. -/
theorem canonical_form_mixedFilter : ∃ f g, ofJson mixedFilter = .ok f ∧ f.minimumFee.isNan = false ∧
    f.includeTypes.names = ["Add-on", "Discount"] ∧ f.includeBillings.names = [] ∧
    ofJson f.toJson = .ok g ∧ f.Equals g ∧ f.minimumFee = .finite true .zero ∧ g.minimumFee = .zero := by
  have hread : (ofJson mixedFilter).toOption.map (fun f =>
      (f.includeTypes.names, f.includeBillings.names, f.minimumFee)) =
        some (["Add-on", "Discount"], [], .finite true .zero) := by
    decide +kernel
  obtain ⟨f, hf, hparts⟩ := exists_of_toOption_map hread
  obtain ⟨htypes, hbillings, hfee⟩ : f.includeTypes.names = ["Add-on", "Discount"] ∧ f.includeBillings.names = [] ∧
      f.minimumFee = .finite true .zero := by
    simpa using hparts
  have hnan : f.minimumFee.isNan = false := by
    rw [hfee]
    rfl
  obtain ⟨g, hg, hequals, -⟩ := canonical_form hf hnan
  refine ⟨f, g, hf, hnan, htypes, hbillings, hg, hequals, hfee, ?_⟩
  have hzero : f.minimumFee.isZero := by
    rw [hfee]
    decide +kernel
  rw [ofJson_toJson, withoutSign_of_isZero hzero] at hg
  rw [← Except.ok.inj hg]

end Filter
end Tariff
