/-
# What a quote depends on

A quote depends on answers only through what its catalog names: the answers at the trigger and quantity
fields of its rules, and those that the names in its formulas may stand for. Two sets of answers that agree
there (`Catalog.ReadsAlike`) give the same quote, or stop it in the same way (`Alike`).

Answers give a number to a name of their own only (`IsAnswerName`): not to a reference to a rule, nor to the
recurring rate, nor to a total.

| name | number depends on answers |
| --- | --- |
| begins with the rule prefix | no |
| the recurring rate's | no |
| the total of a service row | no |
| any other | yes, at that path and that very name |

There is one way around it. A total is reported under its name as its row has it and looked up under that name
without white space at its ends, which may be another one (`paddedCatalog`).
-/

import Tariff.Pricing.Quote
import Tariff.Proofs.Names
import Tariff.Proofs.Pricing.Lookup

namespace Tariff

/-! ### Calculations that come to the same -/

/-- What stops a calculation, but for which key or amount it is. -/
inductive Halt.Kind where
  | badIndex | unroundable
  deriving DecidableEq

def Halt.kind : Halt → Halt.Kind
  | badIndex _ => .badIndex
  | unroundable _ => .unroundable

/-- Two calculations give the same result or are stopped in the same way. -/
inductive Alike {α : Type} : Except Halt α → Except Halt α → Prop where
  | ok (a : α) : Alike (.ok a) (.ok a)
  | error {h k : Halt} (hkind : h.kind = k.kind) : Alike (.error h) (.error k)

namespace Alike

variable {α β : Type}

theorem refl (x : Except Halt α) : Alike x x := by
  cases x with
  | error h => exact .error rfl
  | ok a => exact .ok a

theorem of_eq {x y : Except Halt α} (h : x = y) : Alike x y := h ▸ refl x

/-- The same result, if any. -/
theorem toOption_eq {x y : Except Halt α} (h : Alike x y) : x.toOption = y.toOption := by
  cases h with
  | ok a => rfl
  | error => rfl

/-- Steps that are alike, with what follows alike, are alike together. -/
theorem bind {x y : Except Halt α} {f g : α → Except Halt β} (h : Alike x y)
    (hfg : ∀ a, Alike (f a) (g a)) : Alike (x >>= f) (y >>= g) := by
  cases h with
  | ok a => exact hfg a
  | error hkind => exact .error hkind

/-- Going through a list with steps that are alike comes to outcomes that are alike. -/
theorem foldlM {f g : β → α → Except Halt β} {xs : List α} (h : ∀ x ∈ xs, ∀ b, Alike (f b x) (g b x))
    (b : β) : Alike (xs.foldlM f b) (xs.foldlM g b) := by
  induction xs generalizing b with
  | nil => exact refl _
  | cons x xs ih =>
    rw [List.foldlM_cons, List.foldlM_cons]
    exact (h x List.mem_cons_self b).bind (ih fun y hy => h y (List.mem_cons_of_mem _ hy))

end Alike

/-! ### Answers and names -/

/-- Two sets of answers have the same at a path. -/
def SameAt (a b : Json) (path : String) : Prop := Alike (a.atPath path) (b.atPath path)

/-- Two sets of answers have the same for a name, both at its path and at the name itself. -/
structure SameFor (a b : Json) (name : String) : Prop where
  path : SameAt a b name
  root : a.get? name = b.get? name

variable {a b : Json} {terms : Terms} {services : List Service}

namespace Sources

variable {ledger : Ledger} {name : String} {ruleId : Option String}

/-- The number of any other name is independent of answers. -/
theorem find_eq_of_not_isAnswerName (h : ¬ IsAnswerName terms services name) :
    find ⟨a, ledger, services, terms⟩ name = find ⟨b, ledger, services, terms⟩ name := by
  -- The place of the name is the same with other answers.
  let t : Sources := ⟨b, ledger, services, terms⟩
  cases place ⟨a, ledger, services, terms⟩ name with
  | reference hrule => exact (find_of_reference hrule).trans (find_of_reference (s := t) hrule).symm
  | rate hrule hname => exact (find_of_rate hrule hname).trans (find_of_rate (s := t) hrule hname).symm
  | total hrule hname hrow =>
    exact (find_of_total hrule hname hrow).trans (find_of_total (s := t) hrule hname hrow).symm
  | answer hname => exact absurd hname h

/-- A name that is no answer's is looked up in the ledger and the services, so other answers make no difference
to it. -/
theorem resolve_eq_of_not_isAnswerName (h : ¬ IsAnswerName terms services (trim name)) (j : Journal) :
    resolve ⟨a, ledger, services, terms⟩ name ruleId j =
      resolve ⟨b, ledger, services, terms⟩ name ruleId j := by
  rw [resolve_eq, resolve_eq, find_eq_of_not_isAnswerName (b := b) h]

/-- What an answer's own name comes to. -/
theorem resolve_of_isAnswerName (h : IsAnswerName terms services (trim name)) (j : Journal) :
    resolve ⟨a, ledger, services, terms⟩ name ruleId j =
      (answer? ⟨a, ledger, services, terms⟩ (trim name) >>= fun
      | some v => .ok (v.number, j.record
          [⟨"Resolve", braced (trim name) ++ " from " ++ "answers", some v.number.brief, ruleId⟩])
      | none => .ok (.zero, (j.warn (Unresolved.unknown (trim name)).message).record
          [⟨"UnresolvedVariable", braced name ++ " defaulted", some "0", ruleId⟩])) := by
  rw [resolve_eq, find_of_answer h]
  cases answer? ⟨a, ledger, services, terms⟩ (trim name) with
  | error halt => rfl
  | ok found =>
    cases found with
    | none => rfl
    | some v => rfl

/-- An answer that is the same for both is looked up alike: the number is the same, or both lookups stop. -/
theorem alike_answer? (h : SameFor a b name) :
    Alike (answer? ⟨a, ledger, services, terms⟩ name) (answer? ⟨b, ledger, services, terms⟩ name) := by
  unfold answer?
  dsimp only
  rw [h.root]
  split
  · exact Alike.bind h.path fun nested => .refl _
  · exact .refl _

/-- **A name comes to the same under answers that have the same for it,** if answers give it a number. All other
names are looked up without the answers. -/
theorem alike_resolve (h : IsAnswerName terms services (trim name) → SameFor a b (trim name)) (j : Journal) :
    Alike (resolve ⟨a, ledger, services, terms⟩ name ruleId j)
      (resolve ⟨b, ledger, services, terms⟩ name ruleId j) := by
  by_cases hname : IsAnswerName terms services (trim name)
  · rw [resolve_of_isAnswerName hname, resolve_of_isAnswerName hname]
    exact (alike_answer? (h hname)).bind fun found => .refl _
  · exact .of_eq (resolve_eq_of_not_isAnswerName hname j)

/-- The names of a formula are looked up alike if each that is an answer's has the same answer for both. -/
theorem alike_resolveAll {names : List String}
    (h : ∀ name ∈ names, IsAnswerName terms services (trim name) → SameFor a b (trim name)) (j : Journal) :
    Alike (resolveAll ⟨a, ledger, services, terms⟩ ruleId names j)
      (resolveAll ⟨b, ledger, services, terms⟩ ruleId names j) := by
  induction names generalizing j with
  | nil => exact .refl _
  | cons name names ih =>
    refine (alike_resolve (h name List.mem_cons_self) j).bind fun found => ?_
    refine (ih (fun other hother => h other (List.mem_cons_of_mem _ hother)) found.2).bind fun rest => ?_
    exact .refl _

end Sources

/-! ### Rules -/

/-- Two sets of answers have the same wherever a rule reads them. -/
structure Rule.ReadsAlike (terms : Terms) (services : List Service) (a b : Json) (r : Rule) : Prop where
  trigger : ∀ field, r.triggerField = some field → SameAt a b field
  quantity : ∀ field, r.quantityField = some field → SameAt a b field
  formula : Method.ofName? r.method = some .formula →
    ∀ name ∈ Formula.placeholders (trim r.formula), IsAnswerName terms services name → SameFor a b name

namespace Rule

variable {r : Rule} {selection : Selection}

/-- A trigger is checked alike if its field has the same answer for both. -/
theorem alike_triggerCheck (h : r.ReadsAlike terms services a b) :
    Alike (r.triggerCheck a) (r.triggerCheck b) := by
  unfold triggerCheck
  split
  · exact .refl _
  · rename_i field operator htrigger
    have hfield : r.triggerField = some field := by
      unfold trigger? at htrigger
      split at htrigger
      · rename_i hfield _
        obtain ⟨rfl, -⟩ := Prod.mk.inj (Option.some.inj htrigger)
        exact (nonEmpty?_eq_some_iff.1 hfield).1
      · simp at htrigger
    have hholds : Alike (Trigger.holds a field (r.required.getD "") operator)
        (Trigger.holds b field (r.required.getD "") operator) :=
      Alike.bind (h.trigger field hfield) fun found => .refl _
    exact hholds.bind fun met => .refl _

/-- Whether a rule applies depends on its trigger field alone. -/
theorem alike_verdict (h : r.ReadsAlike terms services a b) :
    Alike (r.verdict selection a) (r.verdict selection b) := by
  unfold verdict
  split
  · exact .refl _
  · split
    · exact .refl _
    · exact (alike_triggerCheck h).bind fun found => .refl _

/-- A quantity is priced alike if its field has the same answer for both. -/
theorem alike_byUnit (h : r.ReadsAlike terms services a b) : Alike (r.byUnit a) (r.byUnit b) := by
  unfold byUnit
  split
  · rename_i field unit hterms
    have hfield : r.quantityField = some field := by
      unfold unitTerms? at hterms
      split at hterms
      · rename_i hfield _
        split at hterms
        · simp at hterms
        · obtain ⟨rfl, -⟩ := Prod.mk.inj (Option.some.inj hterms)
          exact (nonEmpty?_eq_some_iff.1 hfield).1
      · simp at hterms
    have hquantity : Alike (Rule.quantity a field) (Rule.quantity b field) :=
      Alike.bind (h.quantity field hfield) fun found => .refl _
    exact hquantity.bind fun quantity => .refl _
  · exact .refl _

/-- The full amount is alike, for a price per unit by its quantity and otherwise without a look at the answers.
-/
theorem alike_undiscounted (h : r.ReadsAlike terms services a b) (j : Journal) :
    Alike (r.undiscounted a j) (r.undiscounted b j) := by
  unfold undiscounted
  split
  · exact (alike_byUnit h).bind fun priced => .refl _
  · exact .refl _
  · exact .refl _

/-- The discounted amount is alike too, as the discount does not come from the answers. -/
theorem alike_byMethod (h : r.ReadsAlike terms services a b) (j : Journal) :
    Alike (r.byMethod ⟨a, services, selection, terms⟩ j) (r.byMethod ⟨b, services, selection, terms⟩ j) :=
  (alike_undiscounted h j).bind fun _ => .refl _

/-- A formula is priced alike if its names are looked up alike. -/
theorem alike_byFormula (h : r.ReadsAlike terms services a b)
    (hmethod : Method.ofName? r.method = some .formula) (ledger : Ledger) (j : Journal) :
    Alike (r.byFormula ⟨a, ledger, services, terms⟩ j) (r.byFormula ⟨b, ledger, services, terms⟩ j) := by
  unfold byFormula
  dsimp only
  split
  · exact .refl _
  · refine (Sources.alike_resolveAll ?_ j).bind fun values => .refl _
    intro name hname
    rw [Formula.trim_of_mem_placeholders hname]
    exact h.formula hmethod name hname

/-- **The raw price of a rule is the same under answers that it reads alike.** What it reads are the names of
its formula, if that is its method, or the field of its quantity. -/
theorem alike_raw (h : r.ReadsAlike terms services a b) (ledger : Ledger) (j : Journal) :
    Alike (r.raw ⟨a, services, selection, terms⟩ ledger j)
      (r.raw ⟨b, services, selection, terms⟩ ledger j) := by
  unfold raw
  split
  · rename_i hmethod
    exact alike_byFormula h hmethod ledger j
  · exact alike_byMethod h j

end Rule

/-! ### Passes and quotes -/

namespace Pass

variable {selection : Selection} {rules : List Rule}

/-- **One rule is taken alike** if all that it reads of the answers is the same for both. -/
theorem alike_step {r : Rule} (h : r.ReadsAlike terms services a b) (p : Pass) :
    Alike (step ⟨a, services, selection, terms⟩ p r) (step ⟨b, services, selection, terms⟩ p r) := by
  unfold step
  split
  · exact .refl _
  · refine (Rule.alike_verdict h).bind fun verdict => ?_
    split
    · exact (Rule.alike_raw h p.ledger p.journal).bind fun raw => .refl _
    · exact .refl _

/-- **All rules are taken alike** if each reads the same of both; the induction is on the rules, with ledger and
journal the same at every step. -/
theorem alike_run (h : ∀ r ∈ rules, r.ReadsAlike terms services a b) :
    Alike (run ⟨a, services, selection, terms⟩ rules) (run ⟨b, services, selection, terms⟩ rules) :=
  Alike.foldlM (fun r hr => alike_step (h r hr)) {}

end Pass

/-- Two sets of answers have the same for each reported total that is looked up under an answer's name. -/
def TotalsAlike (terms : Terms) (services : List Service) (a b : Json) : Prop :=
  ∀ total ∈ Quote.reported services, IsAnswerName terms services (trim total) → SameFor a b (trim total)

/-- A total without white space at its ends is never looked up under an answer's name. -/
theorem not_isAnswerName_of_mem_reported {total : String} (h : total ∈ Quote.reported services) :
    ¬ IsAnswerName terms services total := by
  obtain ⟨row, hrow, htotal⟩ := List.mem_filterMap.1 h
  exact fun hname => hname.2.2 row (List.mem_filter.1 hrow).1 htotal

/-- Names of totals without white space at their ends are found as totals, so no answer is looked up for them.
-/
theorem totalsAlike_of_trim (h : ∀ total ∈ Quote.reported services, trim total = total) :
    TotalsAlike terms services a b := by
  intro total htotal hname
  rw [h total htotal] at hname
  exact absurd hname (not_isAnswerName_of_mem_reported htotal)

namespace Quote

variable {selection : Selection}

/-- Totals are looked up alike under the same condition as the names of a formula. -/
theorem alike_resolveTotals {ledger : Ledger} {names : List String}
    (h : ∀ name ∈ names, IsAnswerName terms services (trim name) → SameFor a b (trim name))
    (totals : List (String × Binary64)) (j : Journal) :
    Alike (resolveTotals ⟨a, ledger, services, terms⟩ names totals j)
      (resolveTotals ⟨b, ledger, services, terms⟩ names totals j) := by
  induction names generalizing totals j with
  | nil => exact .refl _
  | cons name names ih =>
    refine (Sources.alike_resolve (h name List.mem_cons_self) j).bind fun found => ?_
    exact ih (fun other hother => h other (List.mem_cons_of_mem _ hother)) _ _

/-- A quote is composed alike from a pass if its totals are. -/
theorem alike_ofPass (h : TotalsAlike terms services a b) (p : Pass) :
    Alike (ofPass ⟨a, services, selection, terms⟩ p) (ofPass ⟨b, services, selection, terms⟩ p) := by
  unfold ofPass
  dsimp only
  exact (alike_resolveTotals h [] p.journal).bind fun totals => .refl _

/-- **A quote depends on answers only where its catalog names them.** Answers that each rule reads alike, and
that have the same for each reported total that is looked up under an answer's name, give the same quote or
stop it in the same way. No answers have a part in what a reference to a rule, the recurring rate or a total
comes to. -/
theorem calculate_alike {catalog : Catalog}
    (h : ∀ r ∈ catalog.rules, r.ReadsAlike terms catalog.services (givenAnswers a) (givenAnswers b))
    (htotals : TotalsAlike terms catalog.services (givenAnswers a) (givenAnswers b)) :
    Alike (calculate catalog terms a selection) (calculate catalog terms b selection) ∧
      ∀ (c d : Json) (ledger : Ledger) (name : String) (ruleId : Option String) (j : Journal),
        ¬ IsAnswerName terms catalog.services (trim name) →
          Sources.resolve ⟨c, ledger, catalog.services, terms⟩ name ruleId j =
            Sources.resolve ⟨d, ledger, catalog.services, terms⟩ name ruleId j := by
  constructor
  · exact (Pass.alike_run h).bind fun p => alike_ofPass htotals p
  · intro c d ledger name ruleId j hname
    exact Sources.resolve_eq_of_not_isAnswerName hname j

/-- A rule that reads an answer, and one that reads the first one's price and a total if there is an answer. -/
def deskCatalog : Catalog where
  rules := [
    { id := "seats", formula := "40 * \x7b\x7bseats\x7d\x7d", service := some "desk" },
    { id := "sum", formula := "\x7b\x7bpricingRule.seats\x7d\x7d + \x7b\x7bdeskTotal\x7d\x7d",
      triggerField := some "wanted", operator := some "isNotEmpty" }]
  services := [{ id := "desk", total := some "deskTotal" }]

/-- Answers cannot set the price or the total that are read. -/
theorem calculate_alike_deskCatalog :
    Alike (calculate deskCatalog {} (.object [("seats", .int 2), ("wanted", .bool true)]) none)
      (calculate deskCatalog {} (.object [("seats", .int 2), ("wanted", .bool true), ("pricingRule.seats", .int 7),
        ("deskTotal", .int 9)]) none) := by
  refine (calculate_alike ?_ ?_).1
  · intro r hr
    rcases List.mem_cons.1 hr with rfl | hr
    · refine ⟨nofun, nofun, fun _ name hname _ => ?_⟩
      have hnames : Formula.placeholders (trim "40 * \x7b\x7bseats\x7d\x7d") = ["seats"] := by
        decide +kernel
      rw [hnames] at hname
      obtain rfl := List.mem_singleton.1 hname
      exact ⟨.of_eq rfl, rfl⟩
    · obtain rfl := List.mem_singleton.1 hr
      have hnone : ∀ name ∈ Formula.placeholders
          (trim "\x7b\x7bpricingRule.seats\x7d\x7d + \x7b\x7bdeskTotal\x7d\x7d"),
          ¬ IsAnswerName {} deskCatalog.services name := by decide +kernel
      refine ⟨?_, nofun, fun _ name hname hanswer => absurd hanswer (hnone name hname)⟩
      intro field hfield
      obtain rfl := Option.some.inj hfield
      exact .of_eq rfl
  · exact totalsAlike_of_trim (by decide +kernel)

/-- A service whose total has white space around its name. -/
def paddedCatalog : Catalog where
  rules := [
    { id := "rent", method := "simple", basePrice := .ofNat 50, service := some "desk",
      category := some Category.baseService, billing := some Billing.monthly }]
  services := [{ id := "desk", total := some " deskTotal " }]

/-- **A total with white space around its name is read from answers,** though no rule reads them and it names
a service. -/
theorem not_forall_calculate_alike :
    ¬ ∀ (catalog : Catalog) (terms : Terms) (a b : Json) (selection : Selection),
      (∀ r ∈ catalog.rules, r.ReadsAlike terms catalog.services (givenAnswers a) (givenAnswers b)) →
        Alike (calculate catalog terms a selection) (calculate catalog terms b selection) := by
  intro h
  have halike := h paddedCatalog {} (.object []) (.object [("deskTotal", .int 1)]) none (by
    intro r hr
    obtain rfl := List.mem_singleton.1 hr
    exact ⟨nofun, nofun, fun hmethod => absurd hmethod (by decide)⟩)
  have htotals := congrArg (Option.map totals) halike.toOption_eq
  have hdiffer : (calculate paddedCatalog {} (.object []) none).toOption.map totals ≠
      (calculate paddedCatalog {} (.object [("deskTotal", .int 1)]) none).toOption.map totals := by
    decide +kernel
  exact hdiffer htotals

end Quote
end Tariff
