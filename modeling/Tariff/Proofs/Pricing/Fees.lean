/-
# Fees and totals agree

A line and a named total may say the same thing: the prices of a service under one frequency. They come to it in
different ways, the total by a filter and the line by columns.

| | what is added up | then |
| --- | --- | --- |
| total | the prices that the filter accepts, zeros too | rounded, raised to the minimum fee |
| line | the prices of the column that are not zero | raised by each row that applies, rounded |

If one active row alone has the frequency and its filter accepts what is in the column, the total of that row,
rounded, is the fee of the column (`Quote.total_agrees_with_line`), whatever the minimum fee is.
-/

import Tariff.Proofs.Number.Money
import Tariff.Proofs.Number.Sums
import Tariff.Proofs.Pricing.Lines
import Tariff.Proofs.Pricing.Totals

namespace Tariff

/-- A price has a frequency just if it is billed under the name of that frequency. -/
theorem Frequency.bind_ofName?_eq_some_iff {billing : Option String} {f : Frequency} :
    billing.bind ofName? = some f ↔ billing = some f.name := by
  rw [Option.bind_eq_some_iff]
  constructor
  · rintro ⟨name, rfl, hname⟩
    have hfound := List.find?_some hname
    rw [decide_eq_true_eq] at hfound
    rw [hfound]
  · rintro rfl
    exact ⟨f.name, rfl, by cases f <;> rfl⟩

namespace Fees

/-- Fees are rounded frequency by frequency. -/
theorem at_cents {fees rounded : Fees} (h : fees.cents = .ok rounded) (f : Frequency) :
    Tariff.cents (fees.at_ f) = .ok (rounded.at_ f) := by
  obtain ⟨monthly, hmonthly, h⟩ := bind_eq_ok_iff.1 h
  obtain ⟨oneTime, honeTime, h⟩ := bind_eq_ok_iff.1 h
  obtain ⟨annual, hannual, h⟩ := bind_eq_ok_iff.1 h
  obtain rfl := Except.ok.inj h
  cases f with
  | monthly => exact hmonthly
  | oneTime => exact honeTime
  | annual => exact hannual

end Fees

namespace Breakdown

variable {rows : List Service} {prices : List Price} {service : String} {f : Frequency}

/-- The fee of a frequency is the sum of the prices with that frequency. -/
theorem at_sums (service : String) (prices : List Price) (f : Frequency) :
    (sums service prices).at_ f = sum service prices f := by
  cases f <;> rfl

/-! ### Minimum fees -/

/-- Whether a row may raise a column of the line of a service. -/
def raises (service : String) (f : Frequency) (row : Service) : Bool :=
  row.id = service && row.isActive && row.billing = some f.name

/-- The minimum fees that a column of a line is raised to, one after the other. -/
def minimums (rows : List Service) (service : String) (f : Frequency) : List Binary64 :=
  (rows.filter (raises service f)).map fun row => row.effectiveFilter.minimumFee

/-- A service raises the fees of its frequencies to its minimum and leaves the others. -/
theorem at_raise (service : String) (acc : Fees × List Entry) (row : Service) (f : Frequency) :
    (raise service acc row).1.at_ f =
      if raises service f row then (acc.1.at_ f).raisedTo row.effectiveFilter.minimumFee else acc.1.at_ f := by
  have hbilling : (row.billing = some f.name) ↔ row.billing.bind Frequency.ofName? = some f :=
    Frequency.bind_ofName?_eq_some_iff.symm
  unfold raise raises Binary64.raisedTo
  simp only [hbilling]
  cases row.billing.bind Frequency.ofName? with
  | none => simp
  | some g =>
    cases row.id = service && row.isActive with
    | false => simp
    | true =>
      simp only [Bool.true_and, decide_eq_true_eq, Option.some.injEq]
      by_cases hg : g = f
      · subst hg
        rw [if_pos rfl]
        split
        · rw [Fees.at_set, if_pos rfl]
        · rfl
      · rw [if_neg hg]
        split
        · rw [Fees.at_set, if_neg hg]
        · rfl

/-- **Each column is raised on its own,** by the rows that apply to it. So a fee is a matter of one frequency,
whatever the rows do to the others. -/
theorem at_foldl_raise (rows : List Service) (service : String) (acc : Fees × List Entry) (f : Frequency) :
    (rows.foldl (raise service) acc).1.at_ f =
      (minimums rows service f).foldl Binary64.raisedTo (acc.1.at_ f) := by
  induction rows generalizing acc with
  | nil => rfl
  | cons row rows ih =>
    rw [List.foldl_cons, ih, at_raise]
    unfold minimums
    cases happlies : raises service f row with
    | true => rw [List.filter_cons_of_pos happlies, List.map_cons, List.foldl_cons, if_pos rfl]
    | false => rw [List.filter_cons_of_neg (by simp [happlies]), if_neg Bool.false_ne_true]

/-- The fee of a column is its sum, raised to the minimum fees and rounded. -/
theorem Shows.fee {line : Line} (h : Shows rows prices line) (f : Frequency) :
    cents ((minimums rows line.service f).foldl Binary64.raisedTo (sum line.service prices f)) =
      .ok (line.fees.at_ f) := by
  rw [← at_sums, ← at_foldl_raise rows line.service (sums line.service prices, [])]
  exact Fees.at_cents h.fees f

/-- A row that alone has a frequency gives its column the only minimum fee. -/
theorem minimums_eq_singleton {before after : List Service} {row : Service} (hactive : row.isActive)
    (hbilling : row.billing = some f.name)
    (honly : ∀ other ∈ before ++ after, other.isActive → other.id = row.id → other.billing ≠ some f.name) :
    minimums (before ++ row :: after) row.id f = [row.effectiveFilter.minimumFee] := by
  have hraises : raises row.id f row := by simp [raises, hactive, hbilling]
  have hothers : ∀ other ∈ before ++ after, ¬ raises row.id f other := by
    intro other hother happlies
    simp only [raises, Bool.and_eq_true, decide_eq_true_eq] at happlies
    exact honly other hother happlies.1.2 happlies.1.1 happlies.2
  have hbefore : before.filter (raises row.id f) = [] :=
    List.filter_eq_nil_iff.2 fun other hother => hothers other (List.mem_append_left _ hother)
  have hafter : after.filter (raises row.id f) = [] :=
    List.filter_eq_nil_iff.2 fun other hother => hothers other (List.mem_append_right _ hother)
  rw [minimums, List.filter_append, List.filter_cons_of_pos hraises, hbefore, hafter, List.nil_append,
    List.map_singleton]

/-- A price that counts for a service names one. -/
theorem namesServices_of_counted {l : Ledger} (h : counted service l.prices ≠ []) : l.namesServices := by
  obtain ⟨p, hp⟩ := List.exists_mem_of_ne_nil _ h
  obtain ⟨hp, hcolumn⟩ := List.mem_filter.1 hp
  refine List.any_eq_true.2 ⟨p, hp, ?_⟩
  by_cases hservice : p.service = some service
  · rw [hservice]
    rfl
  · simp [column?, hservice] at hcolumn

end Breakdown

/-! ### A filter of one frequency -/

/-- A filter narrowed to a billing includes that one, if it did before, and no other. -/
theorem Filter.has_includeBillings_narrowedTo (f : Filter) (billing other : String) :
    (f.narrowedTo billing).includeBillings.has other = (f.includeBillings.has other && other = billing) := by
  rw [narrowedTo]
  dsimp only
  split
  · rename_i hlisted
    by_cases heq : other = billing
    · simp [NameSet.has_ofList, heq, hlisted]
    · simp [NameSet.has_ofList, heq]
  · rename_i hunlisted
    by_cases heq : other = billing
    · simp [NameSet.has_empty, heq, hunlisted]
    · simp [NameSet.has_empty, heq]

/-- **Narrowing a filter keeps what it accepts of that frequency.** Types, tags and what is excluded stay as
they are. -/
theorem Filter.accepts_narrowedTo (f : Filter) (billing : String) (p : Price) :
    (f.narrowedTo billing).accepts p = (f.accepts p && p.billing = some billing) := by
  have hlisted : listed (f.narrowedTo billing).includeBillings p.billing =
      (listed f.includeBillings p.billing && p.billing = some billing) := by
    cases p.billing with
    | none => rfl
    | some other => simp only [listed, has_includeBillings_narrowedTo, Option.some.injEq]
  simp only [accepts, hlisted]
  simp only [narrowedTo]
  ac_rfl

/-- What a narrowed filter accepts is billed so. -/
theorem Filter.billing_of_accepts {filter : Filter} {billing : String} {p : Price}
    (h : (filter.narrowedTo billing).accepts p) : p.billing = some billing := by
  rw [accepts_narrowedTo, Bool.and_eq_true, decide_eq_true_eq] at h
  exact h.2

/-- The filter of a row accepts no frequency but that of the row. -/
theorem Service.billing_of_accepts {row : Service} {f : Frequency} {p : Price}
    (hbilling : row.billing = some f.name) (h : row.effectiveFilter.accepts p) : p.billing = some f.name := by
  have hnamed : nonEmpty? row.billing = some f.name :=
    nonEmpty?_eq_some_iff.2 ⟨hbilling, by cases f <;> decide⟩
  unfold effectiveFilter at h
  rw [hnamed] at h
  exact Filter.billing_of_accepts h

/-- A total is the rounded sum, raised to the minimum fee. -/
theorem Ledger.serviceTotal_eq_ok {l : Ledger} {service : String} {filter : Filter} {total : Binary64}
    {entries : List Entry} (h : l.serviceTotal service filter = .ok (total, entries)) :
    ∃ rounded, cents (Binary64.sum ((l.counted service filter).map Price.value)) = .ok rounded ∧
      total = rounded.raisedTo filter.minimumFee := by
  obtain ⟨rounded, hrounded, h⟩ := bind_eq_ok_iff.1 h
  refine ⟨rounded, hrounded, ?_⟩
  dsimp only at h
  rw [Binary64.raisedTo]
  split at h
  · rename_i hraised
    rw [if_pos hraised]
    exact (Prod.mk.inj (Except.ok.inj h)).1.symm
  · rename_i hraised
    rw [if_neg hraised]
    exact (Prod.mk.inj (Except.ok.inj h)).1.symm

/-- Under a filter that accepts what is in a column, and nothing else, a total adds up the column. -/
theorem Ledger.sum_counted {l : Ledger} {row : Service} {f : Frequency} (hnamed : l.namesServices)
    (hbilling : row.billing = some f.name)
    (haccepts : ∀ p ∈ l.prices, p.service = some row.id → p.value.isZero = false → p.billing = some f.name →
      row.effectiveFilter.accepts p) :
    Binary64.sum ((l.counted row.id row.effectiveFilter).map Price.value) =
      Breakdown.sum row.id l.prices f := by
  have hcolumn : (l.counted row.id row.effectiveFilter).filter (fun p => !p.value.isZero) =
      l.prices.filter fun p => Breakdown.column? row.id p = some f := by
    rw [Ledger.counted, if_pos hnamed, List.filter_filter]
    refine List.filter_congr fun p hp => ?_
    rw [Bool.eq_iff_iff, decide_eq_true_eq, Breakdown.column?]
    by_cases hservice : p.service = some row.id
    · cases hzero : p.value.isZero with
      | true => simp
      | false =>
        have hown : row.effectiveFilter.accepts p ↔ p.billing = some f.name :=
          ⟨Service.billing_of_accepts hbilling, haccepts p hp hservice hzero⟩
        simp [hservice, hown, Frequency.bind_ofName?_eq_some_iff]
    · simp [hservice]
  rw [← Binary64.sum_filter_isZero, List.filter_map, Breakdown.sum, ← hcolumn]
  rfl

namespace Quote

/-- **A total agrees with a line.** Of an active row that bears its name first, that alone of the active rows of
its service has its frequency, and whose filter accepts each price of the service under that frequency that is
not zero, the rounded total is the fee on the line of the service, whatever the minimum fee is. -/
theorem total_agrees_with_line {catalog : Catalog} {terms : Terms} {answers : Json} {selection : Selection}
    {q : Quote} (h : calculate catalog terms answers selection = .ok q) {name : String}
    {before after : List Service} {row : Service} (hrows : catalog.services = before ++ row :: after)
    (hactive : row.isActive) (hname : nonEmpty? row.total = some name) (htrim : trim name = name)
    (hrule : Sources.afterPrefix? terms.rulePrefix name = none) (hrate : name ≠ terms.rateName)
    (hfirst : ∀ other ∈ before, nonEmpty? other.total ≠ some name)
    {f : Frequency} (hbilling : row.billing = some f.name)
    (honly : ∀ other ∈ before ++ after, other.isActive → other.id = row.id → other.billing ≠ some f.name)
    (haccepts : ∀ p ∈ q.prices, p.service = some row.id → p.value.isZero = false → p.billing = some f.name →
      row.effectiveFilter.accepts p)
    {line : Line} (hline : line ∈ q.lines) (hservice : line.service = row.id) :
    ∃ total, lookup? name q.totals = some total ∧ cents total = .ok (line.fees.at_ f) := by
  obtain ⟨p, total, entries, hrun, -, htotal, hlookup⟩ :=
    lookup?_totals_of_first h hrows hactive hname htrim hrule hrate hfirst
  obtain ⟨p', hrun', hprices, -, noted, hlines⟩ := exists_pass_of_calculate h
  obtain rfl : p' = p := Except.ok.inj (hrun'.symm.trans hrun)
  have hshows := (Breakdown.lines_eq_ok hlines).2 line hline
  -- The same sum, raised and rounded on the line, rounded and raised in the total.
  have hfee : cents ((Breakdown.sum row.id p'.ledger.prices f).raisedTo row.effectiveFilter.minimumFee) =
      .ok (line.fees.at_ f) := by
    have hcolumn := hshows.fee f
    rwa [hservice, hrows, Breakdown.minimums_eq_singleton hactive hbilling honly] at hcolumn
  obtain ⟨rounded, hrounded, rfl⟩ := Ledger.serviceTotal_eq_ok htotal
  rw [Ledger.sum_counted (Breakdown.namesServices_of_counted hshows.counted_ne_nil) hbilling
    (hprices ▸ haccepts)] at hrounded
  exact ⟨_, hlookup, cents_raisedTo hrounded hfee⟩

/-- Three prices of one service, two of them monthly, and a minimum fee between their sum and its rounding up. -/
def clinicCatalog : Catalog where
  rules := [
    { id := "visit", method := "simple", basePrice := Decimal.toBinary64 ⟨false, 1, -1⟩, service := some "clinic",
      category := some Category.baseService, billing := some Billing.monthly },
    { id := "file", method := "simple", basePrice := .ofNat 7, service := some "clinic",
      category := some Category.baseService, billing := some Billing.annual },
    { id := "phone", method := "simple", basePrice := Decimal.toBinary64 ⟨false, 2, -1⟩, service := some "clinic",
      category := some Category.addOn, billing := some Billing.monthly }]
  services := [
    { id := "clinic", total := some "clinicTotal" },
    { id := "clinic", total := some "clinicMonthly", billing := some Billing.monthly,
      filter := some { minimumFee := Decimal.toBinary64 ⟨false, 302, -3⟩ } }]

/-- A clinic with a minimum above its monthly prices: the total and the line both show the minimum. -/
theorem total_agrees_with_line_clinicCatalog :
    ∃ q line total, calculate clinicCatalog {} (.object []) none = .ok q ∧ line ∈ q.lines ∧
      line.service = "clinic" ∧ lookup? "clinicMonthly" q.totals = some total ∧
      cents total = .ok line.fees.monthly := by
  let row : Service :=
    { id := "clinic", total := some "clinicMonthly", billing := some Billing.monthly,
      filter := some { minimumFee := Decimal.toBinary64 ⟨false, 302, -3⟩ } }
  have hquote : (calculate clinicCatalog {} (.object []) none).toOption.map (fun q =>
      (q.prices.all fun p => p.billing ≠ some Billing.monthly || row.effectiveFilter.accepts p,
        q.lines.map Line.service)) = some (true, ["clinic"]) := by
    decide +kernel
  obtain ⟨q, hq, hquote⟩ := exists_of_toOption_map hquote
  obtain ⟨haccepts, hservices⟩ := Prod.mk.inj hquote
  obtain ⟨line, hline, hservice⟩ : ∃ line ∈ q.lines, line.service = "clinic" :=
    List.mem_map.1 (hservices ▸ List.mem_singleton_self _)
  have hrows : clinicCatalog.services = [{ id := "clinic", total := some "clinicTotal" }] ++ row :: [] := rfl
  have htrim : trim "clinicMonthly" = "clinicMonthly" := by decide +kernel
  have hcolumn : ∀ p ∈ q.prices, p.service = some row.id → p.value.isZero = false →
      p.billing = some Frequency.monthly.name → row.effectiveFilter.accepts p := by
    intro p hp _ _ hbilling
    have hbilling' : p.billing = some Billing.monthly := hbilling
    simpa [hbilling'] using List.all_eq_true.1 haccepts p hp
  obtain ⟨total, hlookup, hcents⟩ :=
    total_agrees_with_line hq hrows rfl rfl htrim (by decide +kernel) (by decide) (by decide)
      (f := .monthly) rfl (by decide) hcolumn hline hservice
  exact ⟨q, line, total, hq, hline, hservice, hlookup, hcents⟩

end Quote
end Tariff
