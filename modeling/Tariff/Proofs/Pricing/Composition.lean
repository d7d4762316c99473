/-
# What a quote is made of

A quote rests on one pass over the rules. Its prices are those of the pass's ledger, its totals are the
reported names resolved on that ledger, and its lines are the breakdown of those prices
(`Quote.exists_pass_of_calculate`). Whatever is proved of a part of a quote starts from there.
-/

import Tariff.Pricing.Quote
import Tariff.Proofs.Outcome

namespace Tariff
namespace Quote

variable {setting : Setting} {q : Quote}

/-- How the parts of a quote come from a ledger. -/
structure RestsOn (setting : Setting) (l : Ledger) (q : Quote) : Prop where
  prices : q.prices = l.prices
  totals : ∃ j j', resolveTotals ⟨setting.answers, l, setting.services, setting.terms⟩
    (reported setting.services) [] j = .ok (q.totals, j')
  lines : ∃ noted, Breakdown.ofPrices setting.services l.prices = .ok (q.lines, noted)

/-- A quote rests on the ledger of its pass: its prices, lines and totals are taken from there. -/
theorem restsOn_of_ofPass {p : Pass} (h : ofPass setting p = .ok q) : RestsOn setting p.ledger q := by
  unfold ofPass at h
  obtain ⟨⟨totals, j⟩, htotals, h⟩ := bind_eq_ok_iff.1 h
  obtain ⟨⟨lines, noted⟩, hlines, h⟩ := bind_eq_ok_iff.1 h
  obtain ⟨monthly, -, h⟩ := bind_eq_ok_iff.1 h
  obtain ⟨oneTime, -, h⟩ := bind_eq_ok_iff.1 h
  obtain ⟨annual, -, h⟩ := bind_eq_ok_iff.1 h
  obtain ⟨year, -, h⟩ := bind_eq_ok_iff.1 h
  obtain rfl := Except.ok.inj h
  exact ⟨rfl, ⟨_, _, htotals⟩, ⟨_, hlines⟩⟩

/-- **A quote rests on the ledger of its pass.** So what is proved of passes can be said of prices, lines and
totals of a quote. -/
theorem exists_pass_of_calculate {catalog : Catalog} {terms : Terms} {answers : Json} {selection : Selection}
    (h : calculate catalog terms answers selection = .ok q) :
    ∃ p, Pass.run ⟨givenAnswers answers, catalog.services, selection, terms⟩ catalog.rules = .ok p ∧
      RestsOn ⟨givenAnswers answers, catalog.services, selection, terms⟩ p.ledger q := by
  obtain ⟨p, hrun, hquote⟩ := bind_eq_ok_iff.1 h
  exact ⟨p, hrun, restsOn_of_ofPass hquote⟩

end Quote
end Tariff
