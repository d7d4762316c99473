/-
# A pass looks forward only

What a pass has come to at a rule stays so, whatever rules follow: the prices, outcomes, entries and
warnings there are the first ones of the whole pass (`Pass.Continues`), and so no price depends on the
rules behind it. A formula that refers to a rule gets the price of that rule if it stands further up and has
been priced, and zero with a warning otherwise:

| rule referred to | number | warning |
| --- | --- | --- |
| further up, priced | its price | |
| further up, skipped | zero | not evaluated yet |
| the rule itself | zero | not evaluated yet |
| further down, or nowhere | zero | not evaluated yet |
-/

import Tariff.Proofs.Pricing.Isolation
import Tariff.Proofs.Pricing.Notes
import Tariff.Proofs.Pricing.Raw

namespace Tariff

open Formula

/-! ### One pass after another -/

/-- A rule is not found in a ledger just if it has no price there. -/
theorem Ledger.find?_eq_none_iff {l : Ledger} {id : String} : l.find? id = none ↔ l.has id = false := by
  simp [find?, has]

namespace Pass

variable {setting : Setting} {p q p' : Pass} {r : Rule}

/-- A pass goes on from another: it has all that the other has at its beginning, and the rules that had an
outcome keep their prices. -/
structure Continues (p q : Pass) : Prop where
  prices : p.ledger.prices <+: q.ledger.prices
  outcomes : p.outcomes <+: q.outcomes
  journal : p.journal.Extends q.journal
  settled : ∀ id ∈ p.ids, q.ledger.find? id = p.ledger.find? id

theorem Continues.refl (p : Pass) : p.Continues p :=
  ⟨List.prefix_rfl, List.prefix_rfl, p.journal.extends_refl, fun _ _ => rfl⟩

/-- Ids that have come up stay. -/
theorem Continues.mem_ids (h : p.Continues q) {id : String} (hid : id ∈ p.ids) : id ∈ q.ids :=
  (h.outcomes.map Prod.fst).subset hid

theorem Continues.trans (h : p.Continues q) (h' : q.Continues p') : p.Continues p' where
  prices := h.prices.trans h'.prices
  outcomes := h.outcomes.trans h'.outcomes
  journal := h.journal.trans h'.journal
  settled id hid := (h'.settled id (h.mem_ids hid)).trans (h.settled id hid)

/-- An outcome stays. -/
theorem Continues.lookup?_outcomes (h : p.Continues q) {id : String} (hid : id ∈ p.ids) :
    lookup? id q.outcomes = lookup? id p.outcomes := by
  obtain ⟨more, hmore⟩ := h.outcomes
  obtain ⟨outcome, houtcome⟩ := Option.isSome_iff_exists.1 (isSome_lookup?.2 hid)
  rw [← hmore, lookup?_append, houtcome, Option.some_or]

/-- **A step goes on from the pass that it is made from.** Prices and outcomes are added behind those that are
there, and none is changed. -/
theorem Next.continues (h : Next setting p r p') (hp : p.PricesIds) : p.Continues p' := by
  cases h with
  | duplicate =>
    exact ⟨List.prefix_rfl, List.prefix_rfl,
      (p.journal.extends_warn _).trans (Journal.extends_record _ _), fun _ _ => rfl⟩
  | skipped =>
    exact ⟨List.prefix_rfl, List.prefix_append _ _, p.journal.extends_record _, fun _ _ => rfl⟩
  | priced hseen hnew hv happlies hraw =>
    obtain ⟨_, notes, -, rfl, -⟩ := (r.writes_raw setting p.ledger).exists_notes hraw
    refine ⟨List.prefix_append _ _, List.prefix_append _ _,
      (p.journal.extends_addAll notes).trans (Journal.extends_record _ _), fun id hid => ?_⟩
    have hne : r.id ≠ id := by
      rintro rfl
      rw [← hasSeen_iff hp, hseen] at hid
      exact Bool.false_ne_true hid
    exact (Ledger.find?_push p.ledger _ hnew id).trans (if_neg hne)

/-- **A pass goes on from the pass over every first part of its rules.** So later rules have no say in what
earlier ones come to. -/
theorem exists_continues {earlier later : List Rule} (h : run setting (earlier ++ later) = .ok q) :
    ∃ p, run setting earlier = .ok p ∧ p.Continues q := by
  -- Said of every first part, so that it goes through from one pass to the next.
  have hparts : ∀ first, first <+: earlier ++ later →
      ∃ p, run setting first = .ok p ∧ p.Continues q := by
    refine run_induction (motive := fun rules q => ∀ first, first <+: rules →
      ∃ p, run setting first = .ok p ∧ p.Continues q) ?_ ?_ h
    · intro first hfirst
      obtain rfl := List.prefix_nil.1 hfirst
      exact ⟨{}, rfl, .refl _⟩
    · intro done p r p' hrun hparts hnext first hfirst
      rcases List.prefix_concat_iff.1 hfirst with rfl | hfirst
      · exact ⟨p', run_concat_eq_ok_iff.2 ⟨p, hrun, hnext⟩, .refl p'⟩
      · obtain ⟨b, hb, hcontinues⟩ := hparts first hfirst
        exact ⟨b, hb, hcontinues.trans (hnext.continues (pricesIds_of_run hrun))⟩
  exact hparts earlier (List.prefix_append _ _)

/-- The rules of a first part have the prices and outcomes that they have without the others. -/
theorem exists_run_of_append {earlier later : List Rule} (h : run setting (earlier ++ later) = .ok q) :
    ∃ p, run setting earlier = .ok p ∧ ∀ s ∈ earlier, q.ledger.find? s.id = p.ledger.find? s.id ∧
      lookup? s.id q.outcomes = lookup? s.id p.outcomes := by
  obtain ⟨p, hp, hq⟩ := exists_continues h
  refine ⟨p, hp, fun s hs => ?_⟩
  have hid : s.id ∈ p.ids := by
    rw [ids_of_run hp, mem_firsts]
    exact List.mem_map_of_mem hs
  exact ⟨hq.settled s.id hid, hq.lookup?_outcomes hid⟩

end Pass

/-! ### References to rules -/

namespace Sources

variable {s : Sources} {ruleId : Option String}

/-- What a reference to a rule comes to, with what is noted. -/
theorem resolve_reference {name id : String} (h : afterPrefix? s.terms.rulePrefix (trim name) = some id)
    (j : Journal) :
    s.resolve name ruleId j = match s.ledger.find? id with
      | some price => .ok (price.value, j.record
        [⟨"Resolve", braced (trim name) ++ " from " ++ "computed price",
          some price.value.brief, ruleId⟩])
      | none => .ok (.zero, (j.warn (Unresolved.notPriced (trim name) id).message).record
        [⟨"ForwardReference", braced name ++ " defaulted", some "0", ruleId⟩]) := by
  rw [resolve_eq, find_of_reference h]
  cases s.ledger.find? id with
  | some price => rfl
  | none => rfl

/-- Each of several names is looked up once, and what is found is its value. -/
theorem exists_resolve_of_resolveAll {names : List String} {j j' : Journal}
    {values : List (String × Binary64)} (h : s.resolveAll ruleId names j = .ok (values, j'))
    {name : String} (hname : name ∈ names) :
    ∃ x before after, lookup? name values = some x ∧ s.resolve name ruleId before = .ok (x, after) ∧
      after.Extends j' := by
  induction names generalizing j values with
  | nil => simp at hname
  | cons other names ih =>
    obtain ⟨x, xs, after, hx, hxs, rfl⟩ := resolveAll_cons_eq_ok_iff.1 h
    obtain ⟨_, notes, -, hlast, -⟩ := (s.writes_resolveAll ruleId names).exists_notes hxs
    by_cases heq : other = name
    · subst heq
      refine ⟨x, j, after, by simp [lookup?], hx, ?_⟩
      rw [(Prod.mk.inj hlast).2]
      exact after.extends_addAll notes
    · obtain ⟨y, before', after', hy, hresolve, hextends⟩ :=
        ih hxs ((List.mem_cons.1 hname).resolve_left fun hn => heq hn.symm)
      exact ⟨y, before', after', by rw [lookup?, if_neg heq, hy], hresolve, hextends⟩

end Sources

namespace Rule

variable {setting : Setting}

/-- What the names in the formula of a rule stand for when a pass comes to it. -/
def readings (r : Rule) (setting : Setting) (p : Pass) :
    Except Halt (List (String × Binary64) × Journal) :=
  Sources.resolveAll ⟨setting.answers, p.ledger, setting.services, setting.terms⟩ (some r.id)
    (placeholders (trim r.formula)) p.journal

/-- The number of a formula with values for its names, zero if it fails. -/
def filledNumber (r : Rule) (values : List (String × Binary64)) : Binary64 :=
  (evaluate (fill values (trim r.formula))).toOption.getD .zero

/-- The raw price by formula is its number at what its names stand for. -/
theorem exists_readings_of_byFormula {r : Rule} {s : Sources} {j : Journal} {raw : Raw}
    (h : r.byFormula s j = .ok raw) :
    ∃ values j', s.resolveAll (some r.id) (placeholders (trim r.formula)) j = .ok (values, j') ∧
      raw.value = r.filledNumber values ∧ j'.Extends raw.journal := by
  cases formulaGives_of_byFormula h with
  | blank hempty =>
    have hnumber : (evaluate (fill [] "")).toOption = none := by decide +kernel
    refine ⟨[], j, by rw [placeholders_eq_nil hempty]; rfl, ?_, j.extends_record _⟩
    rw [filledNumber, String.isEmpty_iff.1 hempty, hnumber]
    rfl
  | @number values j' x _ hvalues hx =>
    exact ⟨values, j', hvalues, by rw [filledNumber, hx]; rfl, j'.extends_record _⟩
  | @failure values j' f _ hvalues hf =>
    refine ⟨values, j', hvalues, by rw [filledNumber, hf]; rfl, ?_⟩
    exact ((j'.extends_record _).trans (Journal.extends_warn _ _)).trans (Journal.extends_record _ _)

end Rule

namespace Pass

variable {setting : Setting} {p q : Pass} {r : Rule}

/-- The price that a rule has in a pass if it is one of the rules further up. -/
def priceAmong? (q : Pass) (earlier : List Rule) (id : String) : Option Price :=
  if id ∈ earlier.map Rule.id then q.ledger.find? id else none

/-- Values for the names of a rule stand for the prices of the rules further up: a reference to any other
rule stands for zero and has left a warning. -/
def RefersBack (setting : Setting) (q : Pass) (earlier : List Rule) (r : Rule)
    (values : List (String × Binary64)) : Prop :=
  ∀ name ∈ placeholders (trim r.formula), ∀ id,
    Sources.afterPrefix? setting.terms.rulePrefix name = some id →
      match q.priceAmong? earlier id with
      | some price => lookup? name values = some price.value
      | none => lookup? name values = some .zero ∧
          (Unresolved.notPriced name id).message ∈ q.journal.warnings ∧
          r.entry "ForwardReference" (Sources.braced name ++ " defaulted") (some "0") ∈ q.journal.entries

/-- **Among earlier rules, later ones do not show**: the price found for an id is the one there was when those
rules had been taken. -/
theorem priceAmong?_eq_find? {earlier : List Rule} (hrun : run setting earlier = .ok p)
    (h : p.Continues q) (id : String) : q.priceAmong? earlier id = p.ledger.find? id := by
  have hids : id ∈ p.ids ↔ id ∈ earlier.map Rule.id := by rw [ids_of_run hrun, mem_firsts]
  unfold priceAmong?
  split
  · rename_i hid
    exact h.settled id (hids.2 hid)
  · rename_i hid
    rw [eq_comm, Ledger.find?_eq_none_iff, ← Bool.not_eq_true]
    exact fun hhas => hid (hids.1 (pricesIds_of_run hrun id hhas))

/-- What a whole pass has come to at a rule that comes first with its id: one step from the pass over the rules
further up. -/
theorem exists_next_of_run {before after : List Rule} (h : run setting (before ++ r :: after) = .ok q)
    (hnew : r.id ∉ before.map Rule.id) :
    ∃ p p', run setting before = .ok p ∧ p.hasSeen r.id = false ∧ p.Continues q ∧ Next setting p r p' ∧
      p'.Continues q := by
  rw [← List.singleton_append, ← List.append_assoc] at h
  obtain ⟨p', hp', hcontinues⟩ := exists_continues h
  obtain ⟨p, hp, hnext⟩ := run_concat_eq_ok_iff.1 hp'
  exact ⟨p, p', hp, (hasSeen_eq_false_iff hp).2 hnew, (hnext.continues (pricesIds_of_run hp)).trans hcontinues,
    hnext, hcontinues⟩

/-- A rule that has not come up has no outcome yet. -/
theorem lookup?_outcomes_eq_none (h : p.hasSeen r.id = false) : lookup? r.id p.outcomes = none := by
  simp only [hasSeen, Bool.or_eq_false_iff, Option.isSome_eq_false_iff, Option.isNone_iff_eq_none] at h
  exact h.1

/-- How a rule that comes first with its id and applies is priced: from what the pass over the rules further
up has come to. -/
theorem exists_raw_of_run {before after : List Rule} (h : run setting (before ++ r :: after) = .ok q)
    (hnew : r.id ∉ before.map Rule.id) (happlies : r.Applies setting) :
    ∃ p raw value, run setting before = .ok p ∧ p.Continues q ∧
      r.raw setting p.ledger p.journal = .ok raw ∧ raw.journal.Extends q.journal ∧
      cents (Rule.clamp r.lowest r.highest raw.value) = .ok value ∧
      q.ledger.find? r.id = some (r.price value) ∧ lookup? r.id q.outcomes = some raw.outcome := by
  obtain ⟨p, p', hp, hunseen, hbefore, hnext, hcontinues⟩ := exists_next_of_run h hnew
  cases hnext with
  | duplicate hseen => simp [hunseen] at hseen
  | skipped _ hv hno =>
    obtain ⟨verdict, hverdict, hyes⟩ := happlies
    obtain rfl := Except.ok.inj (hv.symm.trans hverdict)
    simp [hno] at hyes
  | @priced verdict raw value _ hfree _ _ hraw hvalue =>
    have hfound : (p.ledger.push (r.price value) hfree).find? r.id = some (r.price value) :=
      (Ledger.find?_push ..).trans (if_pos rfl)
    have houtcome : lookup? r.id (p.outcomes ++ [(r.id, raw.outcome)]) = some raw.outcome := by
      simp [lookup?_append, lookup?_outcomes_eq_none hunseen, lookup?]
    have hmem : r.id ∈ ids ⟨p.ledger.push (r.price value) hfree, p.outcomes ++ [(r.id, raw.outcome)],
        raw.journal.record (r.priceEntries raw.value value verdict.reason)⟩ := by simp [ids]
    exact ⟨p, raw, value, hp, hbefore, hraw, (raw.journal.extends_record _).trans hcontinues.journal,
      hvalue, (hcontinues.settled r.id hmem).trans hfound, (hcontinues.lookup?_outcomes hmem).trans houtcome⟩

/-- A rule that comes first with its id applies unless it is skipped, and what is skipped has no price. -/
theorem applies_or_skipped {before after : List Rule} (h : run setting (before ++ r :: after) = .ok q)
    (hnew : r.id ∉ before.map Rule.id) :
    r.Applies setting ∨ lookup? r.id q.outcomes = some .skipped ∧ q.ledger.find? r.id = none := by
  obtain ⟨p, p', hp, hunseen, -, hnext, hcontinues⟩ := exists_next_of_run h hnew
  cases hnext with
  | duplicate hseen => simp [hunseen] at hseen
  | @skipped verdict =>
    refine .inr ?_
    have houtcome : lookup? r.id (p.outcomes ++ [(r.id, Outcome.skipped)]) = some .skipped := by
      simp [lookup?_append, lookup?_outcomes_eq_none hunseen, lookup?]
    have hmem : r.id ∈ ids ⟨p.ledger, p.outcomes ++ [(r.id, .skipped)],
        p.journal.record [r.entry "Skip" verdict.reason none]⟩ := by simp [ids]
    have hfree : p.ledger.find? r.id = none :=
      Ledger.find?_eq_none_iff.2 (has_of_hasSeen_eq_false hunseen)
    exact ⟨(hcontinues.lookup?_outcomes hmem).trans houtcome, (hcontinues.settled r.id hmem).trans hfree⟩
  | @priced verdict _ _ _ _ hv happlies => exact .inl ⟨verdict, hv, happlies⟩

/-- What the names of a formula stand for refers back. -/
theorem refersBack_of_readings {earlier : List Rule} (hrun : run setting earlier = .ok p)
    (hcontinues : p.Continues q) {values : List (String × Binary64)} {j : Journal}
    (h : r.readings setting p = .ok (values, j)) (hj : j.Extends q.journal) :
    RefersBack setting q earlier r values := by
  intro name hname id hreference
  obtain ⟨x, before, after, hx, hresolve, hextends⟩ := Sources.exists_resolve_of_resolveAll h hname
  rw [← trim_of_mem_placeholders hname] at hreference
  rw [Sources.resolve_reference (s := ⟨setting.answers, p.ledger, setting.services, setting.terms⟩) hreference,
    trim_of_mem_placeholders hname] at hresolve
  rw [priceAmong?_eq_find? hrun hcontinues]
  have hq := hextends.trans hj
  dsimp only at hresolve
  cases hprice : p.ledger.find? id with
  | some price =>
    rw [hprice] at hresolve
    rw [hx, ← (Prod.mk.inj (Except.ok.inj hresolve)).1]
  | none =>
    rw [hprice] at hresolve
    obtain ⟨rfl, rfl⟩ := Prod.mk.inj (Except.ok.inj hresolve)
    exact ⟨hx, hq.2.subset (Journal.mem_warnings_warn before _),
      hq.1.subset (List.mem_append_right _ List.mem_cons_self)⟩

/-- **A pass looks forward only.** What it is over some rules is the beginning of what it is over more. So the
price of a rule is the same whatever rules come behind it, and where the price is calculated by a formula,
the names in that stand for what the pass over the rules further up has come to: a reference for the price of
a rule among those, and for zero, with a warning, if there is none. -/
theorem forward_only {earlier later : List Rule} (h : run setting (earlier ++ later) = .ok q) :
    (∃ p, run setting earlier = .ok p ∧ p.ledger.prices <+: q.ledger.prices ∧ p.outcomes <+: q.outcomes ∧
      p.journal.entries <+: q.journal.entries ∧ p.journal.warnings <+: q.journal.warnings) ∧
    (∀ later' q', run setting (earlier ++ later') = .ok q' → ∀ r ∈ earlier,
      q'.ledger.find? r.id = q.ledger.find? r.id ∧
        lookup? r.id q'.outcomes = lookup? r.id q.outcomes) ∧
    ∀ before r after, earlier = before ++ r :: after → r.id ∉ before.map Rule.id →
      r.Applies setting → Method.ofName? r.method = some .formula →
        ∃ p values j value, run setting before = .ok p ∧ r.readings setting p = .ok (values, j) ∧
          cents (Rule.clamp r.lowest r.highest (r.filledNumber values)) = .ok value ∧
          q.ledger.find? r.id = some (r.price value) ∧ RefersBack setting q before r values := by
  obtain ⟨p, hp, hq⟩ := exists_continues h
  refine ⟨⟨p, hp, hq.prices, hq.outcomes, hq.journal.1, hq.journal.2⟩, ?_, ?_⟩
  · intro later' q' h' r hr
    obtain ⟨p, hp, hsame⟩ := exists_run_of_append h
    obtain ⟨p', hp', hsame'⟩ := exists_run_of_append h'
    obtain rfl := Except.ok.inj (hp.symm.trans hp')
    exact ⟨(hsame' r hr).1.trans (hsame r hr).1.symm, (hsame' r hr).2.trans (hsame r hr).2.symm⟩
  · rintro before r after rfl hnew happlies hmethod
    rw [List.append_assoc, List.cons_append] at h
    obtain ⟨b, raw, value, hb, hcontinues, hraw, hjournal, hvalue, hprice, -⟩ :=
      exists_raw_of_run h hnew happlies
    rw [Rule.raw, if_pos hmethod] at hraw
    obtain ⟨values, j, hvalues, hnumber, hj⟩ := Rule.exists_readings_of_byFormula hraw
    rw [hnumber] at hvalue
    exact ⟨b, values, j, value, hb, hvalues, hvalue, hprice,
      refersBack_of_readings hb hcontinues hvalues (hj.trans hjournal)⟩

/-- A rule that adds up itself, a rule further up and one further down. -/
def mixedRule : Rule := {
  id := "mixed"
  formula := "\x7b\x7bpricingRule.base\x7d\x7d + \x7b\x7bpricingRule.mixed\x7d\x7d" ++
    " + \x7b\x7bpricingRule.late\x7d\x7d" }

/-- Of the three, only the rule further up counts. -/
theorem refersBack_mixedRule :
    ∃ q p values j value, run ⟨.object [], [], none, {}⟩
        ([{ id := "base", formula := "40" }, mixedRule] ++ [{ id := "late", formula := "7" }]) = .ok q ∧
      run ⟨.object [], [], none, {}⟩ [{ id := "base", formula := "40" }] = .ok p ∧
      mixedRule.readings ⟨.object [], [], none, {}⟩ p = .ok (values, j) ∧
      q.ledger.find? "mixed" = some (mixedRule.price value) ∧
      RefersBack ⟨.object [], [], none, {}⟩ q [{ id := "base", formula := "40" }] mixedRule values := by
  have hreturns : (run ⟨.object [], [], none, {}⟩
      ([{ id := "base", formula := "40" }, mixedRule] ++ [{ id := "late", formula := "7" }])).isOk := by
    decide +kernel
  obtain ⟨q, hq⟩ := isOk_iff.1 hreturns
  obtain ⟨-, -, hformula⟩ := forward_only hq
  obtain ⟨p, values, j, value, hp, hvalues, -, hprice, hrefers⟩ := hformula
    [{ id := "base", formula := "40" }] mixedRule [] rfl (by decide) ⟨⟨true, "default"⟩, rfl, rfl⟩ rfl
  exact ⟨q, p, values, j, value, hq, hp, hvalues, hprice, hrefers⟩

end Pass
end Tariff
