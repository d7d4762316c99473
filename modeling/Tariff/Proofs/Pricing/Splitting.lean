/-
# A total taken apart by billing frequency

A service may have one row for each billing frequency instead of one for all, and each row narrows its filter to its
own. What the rows add up is then what the one row would have added up, taken apart: each price goes to the row of its
frequency and to no other, and the order of the ledger is kept (`Ledger.counted_by_billing`). Only the minimum fee does
not split, since every row raises its own total to it.

| filter | adds up |
| --- | --- |
| any | the prices of the service that it accepts |
| narrowed to an included frequency | those of them that are billed so |
| narrowed to one that is not included, or excluded | nothing |
| narrowed to one and then to another | nothing |
-/

import Mathlib.Data.List.Nodup
import Tariff.Proofs.Number.Nan
import Tariff.Proofs.Pricing.Fees
import Tariff.Proofs.Pricing.Isolation

namespace Tariff

namespace Filter

/-- A filter narrowed to several frequencies, one after the other. -/
def narrowedToEach (f : Filter) (billings : List String) : Filter :=
  billings.foldl (fun g billing => g.narrowedTo billing) f

/-- Narrowing leaves the minimum fee. -/
theorem minimumFee_narrowedToEach (f : Filter) (billings : List String) :
    (f.narrowedToEach billings).minimumFee = f.minimumFee := by
  induction billings generalizing f with
  | nil => rfl
  | cons billing rest ih => exact ih (f.narrowedTo billing)

/-- What a filter accepts has one of the included frequencies, and none of the excluded ones. -/
theorem exists_billing_of_accepts {f : Filter} {p : Price} (h : f.accepts p) :
    ∃ billing, p.billing = some billing ∧ f.includeBillings.has billing ∧ f.excludeBillings.has billing = false := by
  simp only [accepts, Bool.and_eq_true, Bool.not_eq_true'] at h
  obtain ⟨⟨-, hincluded⟩, hexcluded⟩ := h
  cases hbilling : p.billing with
  | none =>
    rw [hbilling] at hincluded
    cases hincluded
  | some billing =>
    rw [hbilling] at hincluded hexcluded
    exact ⟨billing, rfl, hincluded, hexcluded⟩

end Filter

namespace Ledger

variable {l : Ledger} {service : String} {f : Filter}

/-- Where prices name services, a total counts those of its service that its filter accepts. -/
theorem counted_of_namesServices (hnamed : l.namesServices) (service : String) (f : Filter) :
    l.counted service f = l.prices.filter fun p => p.service = some service && f.accepts p := by
  rw [counted, if_pos hnamed]

/-- **Under a narrowed filter a total adds up the prices of that frequency.** They are those that it counts
under the filter itself and that have the frequency, in the same order. -/
theorem counted_narrowedTo (hnamed : l.namesServices) (service : String) (f : Filter) (billing : String) :
    l.counted service (f.narrowedTo billing) = (l.counted service f).filter fun p => p.billing = some billing := by
  rw [counted_of_namesServices hnamed, counted_of_namesServices hnamed, List.filter_filter]
  refine List.filter_congr fun p _ => ?_
  rw [Filter.accepts_narrowedTo]
  ac_rfl

/-- What is counted has a billing, one that is included and not excluded. -/
theorem exists_billing_of_mem_counted (hnamed : l.namesServices) {p : Price} (h : p ∈ l.counted service f) :
    ∃ billing, p.billing = some billing ∧ f.includeBillings.has billing ∧ f.excludeBillings.has billing = false := by
  rw [counted_of_namesServices hnamed, List.mem_filter, Bool.and_eq_true] at h
  exact Filter.exists_billing_of_accepts h.2.2

/-- **The included frequencies take a total apart,** losing and repeating nothing. Each price that is counted
has one frequency, and that is among the included ones. -/
theorem flatMap_counted_perm (hnamed : l.namesServices) (service : String) (f : Filter) :
    (f.includeBillings.names.flatMap fun billing => l.counted service (f.narrowedTo billing)).Perm
      (l.counted service f) := by
  have hkeys : (f.includeBillings.names.map some).Nodup :=
    f.includeBillings.nodup_names.map fun _ _ => Option.some.inj
  have hlisted : ∀ p ∈ l.counted service f, p.billing ∈ f.includeBillings.names.map some := by
    intro p hp
    obtain ⟨billing, hbilling, hincluded, -⟩ := exists_billing_of_mem_counted hnamed hp
    rw [hbilling]
    exact List.mem_map_of_mem (List.contains_iff_mem.1 hincluded)
  have hsorted := flatMap_filter_perm Price.billing hkeys hlisted
  rw [List.flatMap_map] at hsorted
  simp only [counted_narrowedTo hnamed]
  exact hsorted

/-- Totals narrowed to different billings count no price in common, as each has one billing. -/
theorem disjoint_counted_narrowedTo (hnamed : l.namesServices) (service : String) (f : Filter) {billing other : String}
    (hne : billing ≠ other) :
    (l.counted service (f.narrowedTo billing)).Disjoint (l.counted service (f.narrowedTo other)) := by
  intro p hp hp'
  rw [counted_narrowedTo hnamed, List.mem_filter, decide_eq_true_eq] at hp hp'
  exact hne (Option.some.inj (hp.2.symm.trans hp'.2))

/-- A frequency that is not included, or is excluded, has nothing to add up. -/
theorem counted_narrowedTo_eq_nil (hnamed : l.namesServices) (service : String) {billing : String}
    (h : f.includeBillings.has billing = false ∨ f.excludeBillings.has billing) :
    l.counted service (f.narrowedTo billing) = [] := by
  rw [counted_narrowedTo hnamed, List.filter_eq_nil_iff]
  intro p hp hbilling
  obtain ⟨own, hown, hincluded, hexcluded⟩ := exists_billing_of_mem_counted hnamed hp
  obtain rfl := Option.some.inj (hown.symm.trans (of_decide_eq_true hbilling))
  rcases h with h | h
  · rw [hincluded] at h
    cases h
  · rw [hexcluded] at h
    cases h

/-- The second of two frequencies is not among those that the first one leaves. -/
theorem counted_narrowedTo_narrowedTo (hnamed : l.namesServices) (service : String) (f : Filter)
    {billing other : String} (hne : billing ≠ other) :
    l.counted service ((f.narrowedTo billing).narrowedTo other) = [] := by
  refine counted_narrowedTo_eq_nil hnamed service (.inl ?_)
  rw [Filter.has_includeBillings_narrowedTo, decide_eq_false hne.symm, Bool.and_false]

theorem mem_prices_of_mem_counted {p : Price} (h : p ∈ l.counted service f) : p ∈ l.prices := by
  unfold counted at h
  split at h
  · exact (List.mem_filter.1 h).1
  · exact (List.mem_filter.1 h).1

/-- **A total that is not refused is at least the minimum fee.** It is raised to it after rounding, and stays as
it is where it is larger. -/
theorem minimumFee_le_serviceTotal (hfee : f.minimumFee.isPositive) (hfinite : ∀ p ∈ l.prices, p.value.isFinite)
    {total : Binary64} {entries : List Entry} (h : l.serviceTotal service f = .ok (total, entries)) :
    f.minimumFee.le total := by
  obtain ⟨rounded, hrounded, rfl⟩ := serviceTotal_eq_ok h
  have hsum : (Binary64.sum ((l.counted service f).map Price.value)).isNan = false := by
    refine Binary64.isNan_sum fun x hx => ?_
    obtain ⟨p, hp, rfl⟩ := List.mem_map.1 hx
    exact hfinite p (mem_prices_of_mem_counted hp)
  exact Binary64.le_raisedTo ((Binary64.isNan_of_roundMoney (cents_eq_ok_iff.1 hrounded)).trans hsum) hfee

/-- **A total taken apart by billing frequency.** What a total adds up is what the totals narrowed to its included
frequencies add up, each price once and in the order of the ledger. Narrowing to a frequency that is not included or is
excluded leaves nothing to add up, nor does narrowing to one and then to another. However often the filter is narrowed,
the total is at least a positive minimum fee, unless it is refused for its size. -/
theorem counted_by_billing (hnamed : l.namesServices) (service : String) (f : Filter) :
    (l.counted service f).Sublist l.prices ∧
    (∀ billing, l.counted service (f.narrowedTo billing) =
      (l.counted service f).filter fun p => p.billing = some billing) ∧
    (f.includeBillings.names.flatMap fun billing => l.counted service (f.narrowedTo billing)).Perm
      (l.counted service f) ∧
    (∀ billing other, billing ≠ other →
      (l.counted service (f.narrowedTo billing)).Disjoint (l.counted service (f.narrowedTo other))) ∧
    (∀ billing, f.includeBillings.has billing = false ∨ f.excludeBillings.has billing →
      l.counted service (f.narrowedTo billing) = []) ∧
    (∀ billing other, billing ≠ other → l.counted service ((f.narrowedTo billing).narrowedTo other) = []) ∧
    (f.minimumFee.isPositive → (∀ p ∈ l.prices, p.value.isFinite) → ∀ billings : List String,
      (Binary64.sum ((l.counted service (f.narrowedToEach billings)).map Price.value)).IsBeyondCents ∨
        ∃ total entries, l.serviceTotal service (f.narrowedToEach billings) = .ok (total, entries) ∧
          f.minimumFee.le total) := by
  refine ⟨?_, counted_narrowedTo hnamed service f, flatMap_counted_perm hnamed service f,
    fun _ _ => disjoint_counted_narrowedTo hnamed service f, fun _ => counted_narrowedTo_eq_nil hnamed service,
    fun _ _ => counted_narrowedTo_narrowedTo hnamed service f, fun hfee hfinite billings => ?_⟩
  · rw [counted_of_namesServices hnamed]
    exact List.filter_sublist
  · rw [← f.minimumFee_narrowedToEach billings] at hfee ⊢
    cases htotal : l.serviceTotal service (f.narrowedToEach billings) with
    | error halt => exact .inl (exists_serviceTotal_eq_error_iff.1 ⟨halt, htotal⟩)
    | ok found => exact .inr ⟨found.1, found.2, rfl, minimumFee_le_serviceTotal hfee hfinite htotal⟩

/-- Prices of two services. -/
def roomLedger : Ledger where
  prices := [
    ⟨"rent", .ofNat 50, some "room", some "Base Service", some "Monthly"⟩,
    ⟨"key", .ofNat 20, some "room", some "Add-on", some "One-Time Fee"⟩,
    ⟨"bulb", .ofNat 5, some "lamp", some "Add-on", some "Monthly"⟩,
    ⟨"heat", .ofNat 9, some "room", some "Add-on", some "Monthly"⟩]
  unique := by decide

/-- The default filter with a minimum fee above either total of the room. -/
def roomFilter : Filter := { minimumFee := .ofNat 70 }

/-- Two prices of the room go to one frequency and one to the other, and the total of the two is raised. -/
theorem counted_by_billing_roomLedger :
    roomLedger.namesServices ∧ (roomLedger.counted "room" roomFilter).map Price.ruleId = ["rent", "key", "heat"] ∧
    (roomLedger.counted "room" (roomFilter.narrowedTo "Monthly")).map Price.ruleId = ["rent", "heat"] ∧
    (roomFilter.includeBillings.names.flatMap fun billing =>
      roomLedger.counted "room" (roomFilter.narrowedTo billing)).Perm (roomLedger.counted "room" roomFilter) ∧
    ∃ total entries, roomLedger.serviceTotal "room" (roomFilter.narrowedToEach ["Monthly"]) = .ok (total, entries) ∧
      roomFilter.minimumFee.le total := by
  have hnamed : roomLedger.namesServices := by decide
  have hrounded : (cents (Binary64.sum
      ((roomLedger.counted "room" (roomFilter.narrowedToEach ["Monthly"])).map Price.value))).isOk := by
    decide +kernel
  obtain ⟨-, hnarrowed, hperm, -, -, -, hfee⟩ := counted_by_billing hnamed "room" roomFilter
  refine ⟨hnamed, by decide +kernel, ?_, hperm, ?_⟩
  · rw [hnarrowed]
    decide +kernel
  · refine (hfee (by decide +kernel) (by decide +kernel) ["Monthly"]).resolve_left fun hbeyond => ?_
    obtain ⟨halt, herror⟩ := exists_cents_eq_error_iff.2 hbeyond
    rw [herror] at hrounded
    cases hrounded

end Ledger
end Tariff
