/-
# The books of a pass

A pass keeps two accounts of its rules, the outcomes and the ledger, and adds to them at different places. At
every rule they agree (`Pass.Books`): each id seen has one outcome, which the first rule with that id has
brought about, and the ledger has the ids that have not been skipped, in the same order.

| the next rule | outcomes | ledger |
| --- | --- | --- |
| its id has been seen | | |
| it does not apply | its id, skipped | |
| it is priced | its id, evaluated or failed | its price |
-/

import Mathlib.Data.List.Nodup
import Tariff.Proofs.Pricing.Raw
import Tariff.Proofs.Pricing.Step

namespace Tariff

/-! ### The first rule with an id -/

namespace Rule

/-- The first rule with an id. -/
def first? (rules : List Rule) (id : String) : Option Rule := rules.find? fun r => r.id = id

/-- There is no first rule with an id just if no rule has that id. -/
theorem first?_eq_none_iff {rules : List Rule} {id : String} :
    first? rules id = none ↔ id ∉ rules.map Rule.id := by
  simp [first?]

/-- Each id among the rules has a first rule. -/
theorem exists_first?_of_mem {rules : List Rule} {id : String} (h : id ∈ rules.map Rule.id) :
    ∃ r, first? rules id = some r :=
  Option.ne_none_iff_exists'.1 fun hnone => first?_eq_none_iff.1 hnone h

/-- The first rule with an id is one of the rules and has that id. -/
theorem mem_of_first? {rules : List Rule} {id : String} {r : Rule} (h : first? rules id = some r) :
    r ∈ rules ∧ r.id = id :=
  ⟨List.mem_of_find?_eq_some h, by simpa using List.find?_some h⟩

/-- Rules behind it change nothing about the first rule with an id. -/
theorem first?_append_of_eq_some {rules : List Rule} {id : String} {r : Rule}
    (h : first? rules id = some r) (more : List Rule) : first? (rules ++ more) id = some r := by
  rw [first?, List.find?_append, ← first?, h, Option.some_or]

/-- A rule with another id behind the rest changes no first place. -/
theorem first?_concat_of_ne {r : Rule} {id : String} (h : r.id ≠ id) (rules : List Rule) :
    first? (rules ++ [r]) id = first? rules id := by
  simp [first?, h]

/-- A rule with a new id is the first one with it. -/
theorem first?_concat_of_notMem {rules : List Rule} {r : Rule} (h : r.id ∉ rules.map Rule.id) :
    first? (rules ++ [r]) r.id = some r := by
  rw [first?, List.find?_append, ← first?, first?_eq_none_iff.2 h, Option.none_or]
  simp

/-- A rule with an id that has come before is not the first one with it. -/
theorem first?_concat_of_mem {rules : List Rule} {r : Rule} (h : r.id ∈ rules.map Rule.id) (id : String) :
    first? (rules ++ [r]) id = first? rules id := by
  by_cases hid : r.id = id
  · subst hid
    obtain ⟨s, hs⟩ := exists_first?_of_mem h
    rw [hs]
    exact first?_append_of_eq_some hs [r]
  · exact first?_concat_of_ne hid rules

/-- Before the first rule with an id no rule has it. -/
theorem first?_eq_some_iff {rules : List Rule} {id : String} {r : Rule} : first? rules id = some r ↔
    r.id = id ∧ ∃ before after, rules = before ++ r :: after ∧ r.id ∉ before.map Rule.id := by
  rw [first?, List.find?_eq_some_iff_append, decide_eq_true_iff]
  refine and_congr_right fun hid => exists_congr fun before => exists_congr fun after =>
    and_congr_right fun _ => ?_
  simp [hid]

end Rule

/-- A price is what its rule is found under. -/
theorem Ledger.find?_of_mem {l : Ledger} {price : Price} (h : price ∈ l.prices) :
    l.find? price.ruleId = some price := by
  have hsome : (l.find? price.ruleId).isSome := by
    rw [find?, List.find?_isSome]
    exact ⟨price, h, by simp⟩
  obtain ⟨other, hother⟩ := Option.isSome_iff_exists.1 hsome
  have hid : other.ruleId = price.ruleId := by simpa using List.find?_some hother
  rw [hother, List.inj_on_of_nodup_map l.unique (List.mem_of_find?_eq_some hother) h hid]

/-- A price is entered just if its rule has none yet. -/
theorem Ledger.isSome_add?_iff {l : Ledger} {price : Price} :
    (l.add? price).isSome ↔ l.has price.ruleId = false := by
  unfold add?
  split
  · simp [*]
  · simp [*]

namespace Pass

variable {setting : Setting} {p p' : Pass} {r : Rule} {rules : List Rule}

/-- The accounts that a pass keeps of the rules it has been over. -/
structure Books (setting : Setting) (rules : List Rule) (p : Pass) : Prop where
  /-- Each id has one outcome, in the order of their first places. -/
  ids : p.ids = Formula.firsts (rules.map Rule.id)
  /-- The ids with a price are those evaluated or failed, in the same order. -/
  priced : p.ledger.prices.map Price.ruleId =
    (p.outcomes.filter fun o => o.2 = .evaluated ∨ o.2 = .failed).map Prod.fst
  /-- An id is skipped just if the first rule with it does not apply. -/
  skipped : ∀ id, (id, .skipped) ∈ p.outcomes ↔ ∃ r verdict, Rule.first? rules id = some r ∧
    r.verdict setting.selection setting.answers = .ok verdict ∧ verdict.applies = false
  /-- A price carries the data of the first rule with its id. -/
  prices : ∀ price ∈ p.ledger.prices, ∃ r, Rule.first? rules price.ruleId = some r ∧
    price = r.price price.value

/-- Before the first rule the books are in order, with nothing in them. -/
theorem books_empty (setting : Setting) : Books setting [] {} where
  ids := rfl
  priced := rfl
  skipped id := by simp [Rule.first?]
  prices := nofun

/-- An id that has not been seen has not been skipped. -/
theorem notMem_outcomes (h : p.hasSeen r.id = false) (outcome : Outcome) :
    (r.id, outcome) ∉ p.outcomes := by
  intro hmem
  have : r.id ∈ p.ids := List.mem_map_of_mem hmem
  rw [ids, ← isSome_lookup?] at this
  simp [hasSeen, this] at h

/-- **A step keeps the books.** One case for each way in which a step can go: the rule has come up, is left out,
or is priced, with or without success. -/
theorem Next.books (h : Next setting p r p') (hrun : run setting rules = .ok p) (hbooks : p.Books setting rules) :
    p'.Books setting (rules ++ [r]) where
  ids := by
    rw [h.ids_eq (pricesIds_of_run hrun), hbooks.ids, List.map_append, List.map_singleton, Formula.firsts_concat]
  priced := by
    cases h with
    | duplicate => exact hbooks.priced
    | skipped => simp [hbooks.priced]
    | priced hseen hnew hv happlies hraw =>
      have houtcome := Rule.outcome_of_raw hraw
      simp [Ledger.prices_push, hbooks.priced, houtcome, Rule.price]
  skipped id := by
    cases h with
    | duplicate hseen =>
      rw [Rule.first?_concat_of_mem ((hasSeen_iff_of_run hrun).1 hseen)]
      exact hbooks.skipped id
    | skipped hseen hv happlies =>
      have hnew := (hasSeen_eq_false_iff hrun).1 hseen
      by_cases hid : r.id = id
      · subst hid
        rw [Rule.first?_concat_of_notMem hnew]
        exact iff_of_true (by simp) ⟨r, _, rfl, hv, happlies⟩
      · rw [Rule.first?_concat_of_ne hid, ← hbooks.skipped]
        simp [Ne.symm hid]
    -- Neither side holds of a rule that is priced: its outcome is another one, and its verdict was that it applies.
    | priced hseen _ hv happlies hraw =>
      have hnew := (hasSeen_eq_false_iff hrun).1 hseen
      have houtcome : Outcome.skipped ≠ _ := Rule.skipped_ne_outcome hraw
      by_cases hid : r.id = id
      · subst hid
        rw [Rule.first?_concat_of_notMem hnew]
        refine iff_of_false ?_ ?_
        · simp [notMem_outcomes hseen, houtcome]
        · rintro ⟨s, verdict, ⟨⟩, hverdict, hno⟩
          obtain rfl := Except.ok.inj (hv.symm.trans hverdict)
          simp [happlies] at hno
      · rw [Rule.first?_concat_of_ne hid, ← hbooks.skipped]
        simp [Ne.symm hid]
  prices := by
    -- The prices that are there keep their first rules, since the new rule stands behind these.
    have hkeep : ∀ price ∈ p.ledger.prices, ∃ s, Rule.first? (rules ++ [r]) price.ruleId = some s ∧
        price = s.price price.value := by
      intro price hprice
      obtain ⟨s, hs, heq⟩ := hbooks.prices price hprice
      exact ⟨s, Rule.first?_append_of_eq_some hs [r], heq⟩
    cases h with
    | duplicate => exact hkeep
    | skipped => exact hkeep
    | priced hseen hnew =>
      intro price hprice
      rcases List.mem_append.1 hprice with hprice | hprice
      · exact hkeep price hprice
      · obtain rfl := List.mem_singleton.1 hprice
        exact ⟨r, Rule.first?_concat_of_notMem ((hasSeen_eq_false_iff hrun).1 hseen), rfl⟩

/-- **Every pass keeps its books**, by induction on its steps; a pass over the rules so far is a pass too, so
this holds at any time on the way. -/
theorem books_of_run (h : run setting rules = .ok p) : p.Books setting rules := by
  refine run_induction (books_empty setting) ?_ h
  intro earlier p r p' hrun hbooks hnext
  exact hnext.books hrun hbooks

/-- What a step adds to the ledger can be added. -/
theorem Next.ledger_eq (h : Next setting p r p') :
    p'.ledger = p.ledger ∨ ∃ value, p.ledger.add? (r.price value) = some p'.ledger := by
  cases h with
  | duplicate => exact .inl rfl
  | skipped => exact .inl rfl
  | @priced _ _ value _ hnew => exact .inr ⟨value, dif_pos hnew⟩

/-- **A pass keeps its books at every rule.** Each id seen has one outcome; the ledger has the ids evaluated
or failed, once each and in that order; an id is skipped just if the first rule with it does not apply; a
price carries the data of that rule; and no id is ever added to the ledger twice. -/
theorem keeps_books (h : run setting rules = .ok p) :
    p.Books setting rules ∧ p.ids.Nodup ∧
      (∀ r : Rule, r.id ∉ rules.map Rule.id → ∀ value, (p.ledger.add? (r.price value)).isSome) ∧
      ∀ r p', step setting p r = .ok p' →
        p'.ledger = p.ledger ∨ ∃ value, p.ledger.add? (r.price value) = some p'.ledger := by
  have hbooks := books_of_run h
  refine ⟨hbooks, ?_, fun r hnew value => ?_, fun r p' hstep => (step_eq_ok_iff.1 hstep).ledger_eq⟩
  · rw [hbooks.ids]
    exact Formula.nodup_firsts _
  · exact Ledger.isSome_add?_iff.2 (has_of_hasSeen_eq_false ((hasSeen_eq_false_iff h).2 hnew))

/-- A rule that is priced, one that is skipped and one that fails, each with another of its id behind it. -/
def pairedRules : List Rule := [
  { id := "priced", formula := "1" }, { id := "skipped", formula := "2", isActive := false },
  { id := "failed", formula := "(" }, { id := "skipped", formula := "3" }, { id := "failed", formula := "4" },
  { id := "priced", formula := "5" }]

/-- A pass with each of the three outcomes, over rules of which two have one id. -/
theorem keeps_books_pairedRules :
    ∃ p, run ⟨.object [], [], none, {}⟩ pairedRules = .ok p ∧
      p.outcomes = [("priced", .evaluated), ("skipped", .skipped), ("failed", .failed)] ∧
      p.Books ⟨.object [], [], none, {}⟩ pairedRules := by
  have houtcomes : (run ⟨.object [], [], none, {}⟩ pairedRules).toOption.map outcomes =
      some [("priced", .evaluated), ("skipped", .skipped), ("failed", .failed)] := by decide +kernel
  cases hrun : run ⟨.object [], [], none, {}⟩ pairedRules with
  | error h => simp [hrun, Except.toOption] at houtcomes
  | ok p =>
    rw [hrun] at houtcomes
    exact ⟨p, rfl, Option.some.inj houtcomes, (keeps_books hrun).1⟩

end Pass
end Tariff
