/-
# The totals of a quote

A quote does not add up an active service row but resolves the name of its total, and a name stands for the
total of the first row that bears it (`Quote.lookup?_totals`), whether that row is active or not. So an active
row reports its own total where no row before it bears the name (`Quote.total_of_active`), and where an inactive
one does, it reports the total of that one (`shadowedCatalog`).

| the first row with the name | reported under the name |
| --- | --- |
| the active row itself | its total |
| an earlier active row | the total of that row, for both |
| an earlier inactive row | the total of that row, which itself reports nothing |
-/

import Tariff.Proofs.Pricing.Composition
import Tariff.Proofs.Pricing.Lookup

namespace Tariff

namespace Sources

/-- What the name of a total is resolved to. -/
theorem serviceTotal_of_resolve {s : Sources} {name : String} {row : Service} {ruleId : Option String}
    {x : Binary64} {j k : Journal} (htrim : trim name = name)
    (hrule : afterPrefix? s.terms.rulePrefix name = none) (hrate : name ≠ s.terms.rateName)
    (hrow : s.totalNamed? name = some row) (h : s.resolve name ruleId j = .ok (x, k)) :
    ∃ entries, s.ledger.serviceTotal row.id row.effectiveFilter = .ok (x, entries) := by
  rw [resolve_eq, htrim, find_of_total hrule hrate hrow] at h
  cases htotal : s.ledger.serviceTotal row.id row.effectiveFilter with
  | error halt =>
    rw [htotal] at h
    exact absurd h nofun
  | ok total =>
    rw [htotal] at h
    obtain ⟨rfl, -⟩ := Prod.mk.inj (Except.ok.inj h)
    exact ⟨total.2, rfl⟩

end Sources

namespace Quote

variable {catalog : Catalog} {terms : Terms} {answers : Json} {selection : Selection} {q : Quote} {name : String}

/-- The total under a name is what the name is resolved to, if it is among the names, and else what it was. -/
theorem lookup?_resolveTotals {s : Sources} {names : List String} {totals totals' : List (String × Binary64)}
    {j j' : Journal} (h : resolveTotals s names totals j = .ok (totals', j')) (name : String) :
    (∃ x k k', s.resolve name none k = .ok (x, k') ∧ lookup? name totals' = some x) ∨
      name ∉ names ∧ lookup? name totals' = lookup? name totals := by
  induction names generalizing totals j with
  | nil =>
    obtain ⟨rfl, -⟩ := Prod.mk.inj (Except.ok.inj h)
    exact .inr ⟨List.not_mem_nil, rfl⟩
  | cons first names ih =>
    obtain ⟨⟨x, k⟩, hresolve, h⟩ := bind_eq_ok_iff.1 h
    rcases ih h with hlater | ⟨hname, hlookup⟩
    · exact .inl hlater
    · by_cases hfirst : first = name
      · subst hfirst
        exact .inl ⟨x, j, k, hresolve, hlookup.trans (lookup?_assign_self first x totals)⟩
      · refine .inr ⟨?_, hlookup.trans (lookup?_assign_of_ne hfirst x totals)⟩
        exact fun hmem => hname ((List.mem_cons.1 hmem).resolve_left (Ne.symm hfirst))

/-- A total is reported just if an active service has that name for it. -/
theorem mem_reported_iff {rows : List Service} :
    name ∈ reported rows ↔ ∃ row ∈ rows, row.isActive ∧ nonEmpty? row.total = some name := by
  simp [reported, and_assoc]

/-- **A reported total is that of the first row with its name,** active or not. Which names are reported is
asked of the active rows, and each is then looked up among all of them. -/
theorem lookup?_totals (h : calculate catalog terms answers selection = .ok q)
    (hname : name ∈ reported catalog.services) (htrim : trim name = name)
    (hrule : Sources.afterPrefix? terms.rulePrefix name = none) (hrate : name ≠ terms.rateName) :
    ∃ p row total entries,
      Pass.run ⟨givenAnswers answers, catalog.services, selection, terms⟩ catalog.rules = .ok p ∧
        q.prices = p.ledger.prices ∧
        catalog.services.find? (fun row => nonEmpty? row.total = some name) = some row ∧
        p.ledger.serviceTotal row.id row.effectiveFilter = .ok (total, entries) ∧
        lookup? name q.totals = some total := by
  obtain ⟨p, hrun, hprices, ⟨j, j', htotals⟩, -⟩ := exists_pass_of_calculate h
  obtain ⟨total, k, k', hresolve, hlookup⟩ :=
    (lookup?_resolveTotals htotals name).resolve_right fun hmissing => hmissing.1 hname
  have hnamed : (catalog.services.find? fun row => nonEmpty? row.total = some name).isSome := by
    obtain ⟨row, hrow, -, htotal⟩ := mem_reported_iff.1 hname
    exact List.find?_isSome.2 ⟨row, hrow, decide_eq_true htotal⟩
  obtain ⟨row, hrow⟩ := Option.isSome_iff_exists.1 hnamed
  let s : Sources := ⟨givenAnswers answers, p.ledger, catalog.services, terms⟩
  obtain ⟨entries, htotal⟩ := Sources.serviceTotal_of_resolve (s := s) htrim hrule hrate hrow hresolve
  exact ⟨p, row, total, entries, hrun, hprices, hrow, htotal, hlookup⟩

/-- The first row with a name is the one that no row before it shares the name with. -/
theorem find?_total_eq_some {before after : List Service} {row : Service}
    (hname : nonEmpty? row.total = some name) (hfirst : ∀ other ∈ before, nonEmpty? other.total ≠ some name) :
    (before ++ row :: after).find? (fun row => nonEmpty? row.total = some name) = some row := by
  rw [List.find?_append, List.find?_eq_none.2 (by simpa using hfirst), Option.none_or,
    List.find?_cons_of_pos (by simpa using hname)]

/-- An active row reports its own total if it bears its name first. -/
theorem lookup?_totals_of_first (h : calculate catalog terms answers selection = .ok q)
    {before after : List Service} {row : Service} (hrows : catalog.services = before ++ row :: after)
    (hactive : row.isActive) (hname : nonEmpty? row.total = some name) (htrim : trim name = name)
    (hrule : Sources.afterPrefix? terms.rulePrefix name = none) (hrate : name ≠ terms.rateName)
    (hfirst : ∀ other ∈ before, nonEmpty? other.total ≠ some name) :
    ∃ p total entries,
      Pass.run ⟨givenAnswers answers, catalog.services, selection, terms⟩ catalog.rules = .ok p ∧
        q.prices = p.ledger.prices ∧
        p.ledger.serviceTotal row.id row.effectiveFilter = .ok (total, entries) ∧
        lookup? name q.totals = some total := by
  have hreported : name ∈ reported catalog.services :=
    mem_reported_iff.2 ⟨row, by simp [hrows], hactive, hname⟩
  obtain ⟨p, found, total, entries, hrun, hprices, hfound, htotal, hlookup⟩ :=
    lookup?_totals h hreported htrim hrule hrate
  rw [hrows, find?_total_eq_some hname hfirst] at hfound
  obtain rfl := Option.some.inj hfound
  exact ⟨p, total, entries, hrun, hprices, htotal, hlookup⟩

/-- **An active row reports its own total** if no other active row bears the name and no inactive row before it
does. -/
theorem total_of_active (h : calculate catalog terms answers selection = .ok q)
    {before after : List Service} {row : Service} (hrows : catalog.services = before ++ row :: after)
    (hactive : row.isActive) (hname : nonEmpty? row.total = some name) (htrim : trim name = name)
    (hrule : Sources.afterPrefix? terms.rulePrefix name = none) (hrate : name ≠ terms.rateName)
    (hdistinct : ∀ other ∈ before ++ after, other.isActive → nonEmpty? other.total ≠ some name)
    (hshadow : ∀ other ∈ before, other.isActive = false → nonEmpty? other.total ≠ some name) :
    ∃ p total entries,
      Pass.run ⟨givenAnswers answers, catalog.services, selection, terms⟩ catalog.rules = .ok p ∧
        q.prices = p.ledger.prices ∧
        p.ledger.serviceTotal row.id row.effectiveFilter = .ok (total, entries) ∧
        lookup? name q.totals = some total := by
  have hfirst : ∀ other ∈ before, nonEmpty? other.total ≠ some name := by
    intro other hother
    cases hstate : other.isActive with
    | true => exact hdistinct other (List.mem_append_left _ hother) hstate
    | false => exact hshadow other hother hstate
  exact lookup?_totals_of_first h hrows hactive hname htrim hrule hrate hfirst

/-- Two rules of two services, each with its total; a third row, inactive, bears the name of the last one behind
it. -/
def wingsCatalog : Catalog where
  rules := [
    { id := "n", method := "simple", basePrice := .ofNat 10, service := some "north",
      category := some Category.baseService, billing := some Billing.monthly },
    { id := "s", method := "simple", basePrice := .ofNat 20, service := some "south",
      category := some Category.baseService, billing := some Billing.monthly }]
  services := [{ id := "north", total := some "northTotal", isActive := false },
    { id := "south", total := some "southTotal" }, { id := "north", total := some "southTotal", isActive := false }]

/-- Of two wings each has its own name for its total, and gets its own. -/
theorem total_of_active_wingsCatalog :
    ∃ q p total entries, calculate wingsCatalog {} (.object []) none = .ok q ∧
      Pass.run ⟨.object [], wingsCatalog.services, none, {}⟩ wingsCatalog.rules = .ok p ∧
      q.prices = p.ledger.prices ∧ p.ledger.serviceTotal "south" {} = .ok (total, entries) ∧
      lookup? "southTotal" q.totals = some total := by
  have hnamed : (calculate wingsCatalog {} (.object []) none).toOption.map (fun q => q.totals.map Prod.fst) =
      some ["southTotal"] := by
    decide +kernel
  obtain ⟨q, hq, -⟩ := exists_of_toOption_map hnamed
  have hrows : wingsCatalog.services = [{ id := "north", total := some "northTotal", isActive := false }] ++
    { id := "south", total := some "southTotal" } ::
      [{ id := "north", total := some "southTotal", isActive := false }] := rfl
  have htrim : trim "southTotal" = "southTotal" := by decide +kernel
  obtain ⟨p, total, entries, hrun, hprices, htotal, hlookup⟩ :=
    total_of_active hq hrows rfl rfl htrim (by decide +kernel) (by decide) (by decide) (by decide)
  exact ⟨q, p, total, entries, hq, hrun, hprices, htotal, hlookup⟩

/-- The same rules; an inactive row bears the name of the active one in front of it. -/
def shadowedCatalog : Catalog where
  rules := wingsCatalog.rules
  services := [{ id := "north", total := some "wing", isActive := false }, { id := "south", total := some "wing" }]

/-- **An inactive row takes the place of an active one** that bears its name behind it: the quote reports the
total of the inactive row. -/
theorem not_forall_total_of_active :
    ¬ ∀ (catalog : Catalog) (terms : Terms) (answers : Json) (selection : Selection) (q : Quote)
      (before after : List Service) (row : Service) (name : String),
      calculate catalog terms answers selection = .ok q → catalog.services = before ++ row :: after →
      row.isActive → nonEmpty? row.total = some name → trim name = name →
      Sources.afterPrefix? terms.rulePrefix name = none → name ≠ terms.rateName →
      (∀ other ∈ before ++ after, other.isActive → nonEmpty? other.total ≠ some name) →
      ∃ p total entries,
        Pass.run ⟨givenAnswers answers, catalog.services, selection, terms⟩ catalog.rules = .ok p ∧
          q.prices = p.ledger.prices ∧
          p.ledger.serviceTotal row.id row.effectiveFilter = .ok (total, entries) ∧
          lookup? name q.totals = some total := by
  intro h
  -- The total of the northern wing is reported, which is not active, and not that of the southern one.
  have hreported : (calculate shadowedCatalog {} (.object []) none).toOption.map
      (fun q => lookup? "wing" q.totals) = some (some (.ofNat 10)) := by
    decide +kernel
  have howned : (Pass.run ⟨.object [], shadowedCatalog.services, none, {}⟩ shadowedCatalog.rules).toOption.map
      (fun p => (p.ledger.serviceTotal "south" {}).toOption.map Prod.fst) = some (some (.ofNat 20)) := by
    decide +kernel
  obtain ⟨q, hq, hten⟩ := exists_of_toOption_map hreported
  obtain ⟨p', hrun', htwenty⟩ := exists_of_toOption_map howned
  obtain ⟨p, total, entries, hrun, -, htotal, hlookup⟩ :=
    h shadowedCatalog {} (.object []) none q [{ id := "north", total := some "wing", isActive := false }] []
      { id := "south", total := some "wing" } "wing" hq rfl rfl rfl (by decide +kernel) (by decide +kernel)
      (by decide) (by decide)
  obtain rfl : p' = p := Except.ok.inj (hrun'.symm.trans hrun)
  obtain ⟨south, hsouth, htwenty⟩ := exists_of_toOption_map htwenty
  obtain rfl : south = (total, entries) := Except.ok.inj (hsouth.symm.trans htotal)
  exact absurd ((Option.some.inj (hten.symm.trans hlookup)).trans htwenty) (by decide +kernel)

end Quote
end Tariff
