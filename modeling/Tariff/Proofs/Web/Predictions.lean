/-
# Trying a formula

A formula can be tried on answers, without a rule. What is answered says what a pass comes to over a single rule with
that formula and nothing else that would change its price (`Rule.IsBare`), on the same answers and services
(`exists_predicted_pass`).

| answered | in the pass |
| --- | --- |
| `valid` is true | the rule is evaluated |
| `valid` is false | the rule fails |
| `value` | the price, once rounded to cents |
| `warnings` | the warnings, before the one of a failure |

The pass trims the formula first and the trial does not. Names are trimmed either way, and the white space around a
formula makes no difference to its number, so both have the same placeholders, look the same names up in the same
places, and come to the same number or to none.
-/

import Tariff.Proofs.Formula.Margins
import Tariff.Proofs.Number.Money
import Tariff.Proofs.Pricing.Raw
import Tariff.Proofs.Pricing.Resolution
import Tariff.Proofs.Web.Trials

namespace Tariff

/-! ### The answer -/

namespace Web

/-- A request that can be read is answered by trying its formula on the book that is there. -/
theorem respond_formula {o : Office} {b : Book} (hbook : o.book = some b) {body : Option Json} {f : FormulaForm}
    (hform : formulaForm body = some f) :
    (respond o (post "/expressions/evaluate" body)).2 = tryFormula o.terms b f := by
  have hroute : (Route.ofPath "/expressions/evaluate").find? (fun route => route.method = "POST") =
      some .tryFormula := by
    decide
  rw [respond_post hbook hroute]
  simp only [answer, post, hform, withForm]

namespace Response

theorem isWritable_ofTexts (xs : List String) : isWritable (.ofTexts xs) := by
  rw [Json.ofTexts, isWritable]
  induction xs with
  | nil => rfl
  | cons x xs ih => simp [areWritable, isWritable, ih]

/-- Finite numbers under their names can be written. -/
theorem fieldsWritable_reals {values : List (String × Binary64)} (h : ∀ v ∈ values, v.2.isFinite) :
    fieldsWritable (values.map fun v => (v.1, .real v.2)) := by
  induction values with
  | nil => rfl
  | cons v values ih =>
    obtain ⟨hv, hvalues⟩ := List.forall_mem_cons.1 h
    rw [List.map_cons, fieldsWritable, isWritable, hv, ih hvalues, Bool.and_self]

/-- An answer that can be written is a success with that content. -/
theorem success?_ok {v : Json} (h : isWritable v) : (ok v).success? = some v := by
  rw [ok, if_pos h]
  rfl

end Response

/-- What is answered on a formula: its number, if it has one, and the warnings about its names. -/
structure Reports (v : Json) (number : Option Binary64) (warnings : List String) : Prop where
  valid : v.get? "valid" = some (.bool number.isSome)
  value : v.get? "value" = some (.ofReal? number)
  warnings : v.get? "warnings" = some (.ofTexts warnings)

/-- **A formula whose names have finite numbers is answered.** -/
theorem exists_reports_of_resolveAll {terms : Terms} {b : Book} {f : FormulaForm} {values : List (String × Binary64)}
    {j : Journal} (hvalues : Sources.resolveAll ⟨f.answers, .empty, b.catalog.services, terms⟩ none
      (Formula.placeholders f.formula) {} = .ok (values, j)) (hfinite : ∀ v ∈ values, v.2.isFinite) :
    ∃ v, (tryFormula terms b f).success? = some v ∧
      Reports v (Formula.evaluate (Formula.fill values f.formula)).toOption j.warnings := by
  have hnames := Response.isWritable_ofTexts (Formula.placeholders f.formula)
  have hwarnings := Response.isWritable_ofTexts j.warnings
  have hreals := Response.fieldsWritable_reals hfinite
  rw [tryFormula, hvalues]
  dsimp only [answered]
  cases hx : Formula.evaluate (Formula.fill values f.formula) with
  | ok x =>
    have hnumber : x.isFinite := Formula.isFinite_of_evaluate hx
    refine ⟨_, Response.success?_ok ?_, rfl, rfl, rfl⟩
    simp [Response.isWritable, Response.fieldsWritable, hnames, hwarnings, hreals, hnumber]
  | error fault =>
    refine ⟨_, Response.success?_ok ?_, rfl, rfl, rfl⟩
    simp [Response.isWritable, Response.fieldsWritable, hnames, hwarnings, hreals]

end Web

/-! ### The pass -/

namespace Rule

/-- An active rule by formula that nothing else makes a difference to: no bounds, no service and no trigger. The formula
may have other white space around it. -/
structure IsBare (r : Rule) (formula : String) : Prop where
  formula : trim r.formula = trim formula
  method : Method.ofName? r.method = some .formula
  active : r.isActive
  lowest : r.lowest = none
  highest : r.highest = none
  service : nonEmpty? r.service = none
  trigger : r.trigger? = none

/-- The warning about a formula that fails. -/
def failureText (r : Rule) (message : String) : String := "Rule '" ++ r.id ++ "' failed: " ++ message

/-- The warning of a failed rule is no warning about a name, so the two are told apart in a pass. -/
theorem failureText_ne_message (r : Rule) (message : String) (u : Unresolved) : r.failureText message ≠ u.message := by
  intro heq
  have hhead := congrArg (fun text => text.toList.head?) heq
  cases u <;> simp [failureText, Unresolved.message, String.toList_append] at hhead

variable {r : Rule} {setting : Setting} {formula : String}

/-- A bare rule always applies, and for no special reason: it has no service and no trigger. -/
theorem IsBare.verdict_eq (hr : r.IsBare formula) (selection : Selection) (answers : Json) :
    r.verdict selection answers = .ok ⟨true, "default"⟩ := by
  have hservice : r.serviceCheck selection = none := by
    cases selection <;> simp [serviceCheck, hr.service]
  have htrigger : r.triggerCheck answers = .ok none := by rw [triggerCheck, hr.trigger]
  rw [verdict, hr.active, hservice, htrigger]
  rfl

/-- A pass over such a rule alone comes to its raw price, rounded to cents. -/
theorem IsBare.exists_run (hr : r.IsBare formula) {raw : Raw} {value : Binary64}
    (hraw : r.raw setting .empty {} = .ok raw) (hvalue : raw.value.roundMoney = some value) :
    ∃ p, Pass.run setting [r] = .ok p ∧ p.outcomes = [(r.id, raw.outcome)] ∧
      p.ledger.find? r.id = some (r.price value) ∧ p.journal.warnings = raw.journal.warnings := by
  have hclamp : cents (clamp r.lowest r.highest raw.value) = .ok value := by
    rw [hr.lowest, hr.highest, cents_eq_ok_iff]
    exact hvalue
  have hnext := Pass.Next.priced (p := {}) rfl rfl (hr.verdict_eq setting.selection setting.answers) rfl hraw hclamp
  refine ⟨_, Pass.run_singleton_eq_ok_iff.2 hnext, rfl, ?_, rfl⟩
  simp [Ledger.find?, Ledger.push, Ledger.empty, price]

section

variable (setting) {values : List (String × Binary64)} {j : Journal} (hr : r.IsBare formula) (hne : trim formula ≠ "")
  (hvalues : Sources.resolveAll ⟨setting.answers, .empty, setting.services, setting.terms⟩ none
    (Formula.placeholders formula) {} = .ok (values, j))

include hr hvalues

/-- The pass looks up the names that the trial looks up. -/
theorem IsBare.exists_resolveAll :
    ∃ k, Sources.resolveAll ⟨setting.answers, .empty, setting.services, setting.terms⟩ (some r.id)
        (Formula.placeholders (trim r.formula)) {} = .ok (values, k) ∧ k.warnings = j.warnings ∧
      ∀ text ∈ k.warnings, ∃ u, Unresolved.message u = text := by
  rw [hr.formula, Formula.placeholders_trim]
  exact Sources.exists_resolveAll_of_empty hvalues (some r.id)

include hne

/-- **The pass finds the number that the trial finds,** with the same warnings. The one fills the formula in
after trimming it, the other as it is written. -/
theorem IsBare.exists_raw_of_evaluate {x : Binary64}
    (hx : (Formula.evaluate (Formula.fill values formula)).toOption = some x) :
    ∃ raw, r.raw setting .empty {} = .ok raw ∧ raw.value = x ∧ raw.outcome = .evaluated ∧
      raw.journal.warnings = j.warnings := by
  obtain ⟨k, hk, hwarnings, -⟩ := hr.exists_resolveAll setting hvalues
  have hsome : (trim r.formula).isEmpty = false := by simpa [hr.formula] using hne
  rw [← Formula.toOption_evaluate_fill_trim, ← hr.formula] at hx
  have hnumber := FormulaGives.number hsome hk (toOption_eq_some_iff.1 hx)
  exact ⟨_, by rw [raw, if_pos hr.method, hnumber.byFormula_eq], rfl, rfl, hwarnings⟩

/-- **The pass finds none where the trial finds none,** and warns of it behind the same warnings. The fault that
is named may be at another position, since trimming moves it. -/
theorem IsBare.exists_raw_of_not_evaluate
    (hx : (Formula.evaluate (Formula.fill values formula)).toOption = none) :
    ∃ raw, r.raw setting .empty {} = .ok raw ∧ raw.value = .zero ∧ raw.outcome = .failed ∧
      ∃ message, raw.journal.warnings = j.warnings ++ [r.failureText message] := by
  obtain ⟨k, hk, hwarnings, hmessages⟩ := hr.exists_resolveAll setting hvalues
  have hsome : (trim r.formula).isEmpty = false := by simpa [hr.formula] using hne
  rw [← Formula.toOption_evaluate_fill_trim, ← hr.formula] at hx
  obtain ⟨fault, hfault⟩ := toOption_eq_none_iff.1 hx
  have hfailure := FormulaGives.failure hsome hk hfault
  refine ⟨_, by rw [raw, if_pos hr.method, hfailure.byFormula_eq], rfl, rfl,
    fault.message (Formula.fill values (trim r.formula)), ?_⟩
  refine (Sources.warnings_warn _ _).trans ?_
  rw [Sources.collect, if_neg]
  · exact congrArg (· ++ _) hwarnings
  · -- No message about a name is the one about the failure.
    rw [List.contains_iff_mem]
    intro hmem
    obtain ⟨u, hu⟩ := hmessages _ hmem
    exact r.failureText_ne_message _ u hu.symm

end

end Rule

/-! ### Both -/

namespace Web

/-- **What is answered on a formula says what a pass over a rule comes to.** -/
structure Predicts (r : Rule) (v : Json) (p : Pass) : Prop where
  settled : v.get? "valid" = some (.bool true) ∨ v.get? "valid" = some (.bool false)
  valid_iff : v.get? "valid" = some (.bool true) ↔ p.outcomes = [(r.id, .evaluated)]
  invalid_iff : v.get? "valid" = some (.bool false) ↔ p.outcomes = [(r.id, .failed)]
  price : v.get? "valid" = some (.bool true) → ∃ x c, v.get? "value" = some (.real x) ∧ x.roundMoney = some c ∧
    p.ledger.find? r.id = some (r.price c)
  warnings : ∃ texts, v.get? "warnings" = some (.ofTexts texts) ∧
    (p.outcomes = [(r.id, .evaluated)] ∧ p.journal.warnings = texts ∨
      p.outcomes = [(r.id, .failed)] ∧ ∃ message, p.journal.warnings = texts ++ [r.failureText message])

/-- **Trying a formula predicts its price:** whether a rule with it is evaluated, the price of the rule and the warnings
of the pass, wherever its names have finite numbers and its own number can be rounded. -/
theorem exists_predicted_pass {o : Office} {b : Book} (hbook : o.book = some b) {body : Json} {f : FormulaForm}
    (hform : formulaForm (some body) = some f) (hne : trim f.formula ≠ "") {values : List (String × Binary64)}
    {j : Journal} (hvalues : Sources.resolveAll ⟨f.answers, .empty, b.catalog.services, o.terms⟩ none
      (Formula.placeholders f.formula) {} = .ok (values, j)) (hfinite : ∀ v ∈ values, v.2.isFinite)
    (hround : ∀ x, Formula.evaluate (Formula.fill values f.formula) = .ok x → ¬ x.IsBeyondCents)
    {r : Rule} (hr : r.IsBare f.formula) (selection : Selection) :
    ∃ v p, (respond o (post "/expressions/evaluate" (some body))).2.success? = some v ∧
      Pass.run ⟨f.answers, b.catalog.services, selection, o.terms⟩ [r] = .ok p ∧ Predicts r v p := by
  rw [respond_formula hbook hform]
  obtain ⟨v, hv, hreports⟩ := exists_reports_of_resolveAll hvalues hfinite
  cases hx : (Formula.evaluate (Formula.fill values f.formula)).toOption with
  | some x =>
    rw [hx] at hreports
    have hvalid : v.get? "valid" = some (.bool true) := hreports.valid
    obtain ⟨raw, hraw, rfl, houtcome, hwarnings⟩ :=
      hr.exists_raw_of_evaluate ⟨f.answers, b.catalog.services, selection, o.terms⟩ hne hvalues hx
    -- A value of the formula is not too large for cents by assumption, so it becomes a price.
    obtain ⟨c, hc⟩ := Option.ne_none_iff_exists'.1 fun hnone =>
      hround raw.value (toOption_eq_some_iff.1 hx) ((Binary64.roundMoney_eq_none_iff raw.value).1 hnone)
    obtain ⟨p, hp, hout, hprice, hjournal⟩ := hr.exists_run hraw hc
    rw [houtcome] at hout
    refine ⟨v, p, hv, hp, .inl hvalid, by simp [hvalid, hout], by simp [hvalid, hout], fun _ => ?_, ?_⟩
    · exact ⟨raw.value, c, hreports.value, hc, hprice⟩
    · exact ⟨j.warnings, hreports.warnings, .inl ⟨hout, hjournal.trans hwarnings⟩⟩
  | none =>
    rw [hx] at hreports
    have hvalid : v.get? "valid" = some (.bool false) := hreports.valid
    obtain ⟨raw, hraw, hzero, houtcome, message, hwarnings⟩ :=
      hr.exists_raw_of_not_evaluate ⟨f.answers, b.catalog.services, selection, o.terms⟩ hne hvalues hx
    -- Without a value the rule fails, and its price is the zero that is put in.
    have hc : raw.value.roundMoney = some .zero := by rw [hzero]; decide +kernel
    obtain ⟨p, hp, hout, -, hjournal⟩ := hr.exists_run hraw hc
    rw [houtcome] at hout
    refine ⟨v, p, hv, hp, .inr hvalid, by simp [hvalid, hout], by simp [hvalid, hout], by simp [hvalid], ?_⟩
    exact ⟨j.warnings, hreports.warnings, .inr ⟨hout, message, hjournal.trans hwarnings⟩⟩

/-- Tips that are written as text, shared among eight, with white space around the formula. -/
def tipForm : FormulaForm where
  formula := " \x7b\x7btips.0\x7d\x7d / 8 + \x7b\x7bbonus\x7d\x7d\n"
  answers := .object [("tips", .list [.text "1"])]

/-- The request with this form. -/
def tipBody : Json := .object [("expression", .text tipForm.formula), ("answers", tipForm.answers)]

def tipRule : Rule := { id := "share", formula := "\x7b\x7btips.0\x7d\x7d / 8 + \x7b\x7bbonus\x7d\x7d" }

/-- One of the names has no number, and the share is rounded up from half a cent. -/
theorem exists_predicted_pass_tipRule : ∃ v p,
    (respond benchOffice (post "/expressions/evaluate" (some tipBody))).2.success? = some v ∧
    Pass.run ⟨tipForm.answers, benchCatalog.services, none, benchOffice.terms⟩ [tipRule] = .ok p ∧
    Predicts tipRule v p ∧
    p.ledger.prices.map Price.value = [Decimal.toBinary64 ⟨false, 13, -2⟩] ∧ p.journal.warnings.length = 1 := by
  obtain ⟨hfound, hrun⟩ :
      ((Sources.resolveAll ⟨tipForm.answers, .empty, benchCatalog.services, benchOffice.terms⟩ none
        (Formula.placeholders tipForm.formula) {}).toOption.map fun found =>
          (found.1.all (fun v => v.2.isFinite),
            (Formula.evaluate (Formula.fill found.1 tipForm.formula)).toOption.bind Binary64.roundMoney)) =
        some (true, some (Decimal.toBinary64 ⟨false, 13, -2⟩)) ∧
      ((Pass.run ⟨tipForm.answers, benchCatalog.services, none, benchOffice.terms⟩ [tipRule]).toOption.map fun p =>
        (p.ledger.prices.map Price.value, p.journal.warnings.length)) =
          some ([Decimal.toBinary64 ⟨false, 13, -2⟩], 1) := by
    decide +kernel
  obtain ⟨⟨values, j⟩, hvalues, hfound⟩ := exists_of_toOption_map hfound
  obtain ⟨hfinite, hnumber⟩ := Prod.mk.inj hfound
  have hround (x : Binary64) (hx : Formula.evaluate (Formula.fill values tipForm.formula) = .ok x) :
      ¬ x.IsBeyondCents := by
    rw [toOption_eq_some_iff.2 hx, Option.bind_some] at hnumber
    rw [← x.roundMoney_eq_none_iff, hnumber]
    exact Option.some_ne_none _
  have hbare : tipRule.IsBare tipForm.formula := ⟨by decide +kernel, rfl, rfl, rfl, rfl, rfl, rfl⟩
  have hform : formulaForm (some tipBody) = some tipForm := rfl
  have hbook : benchOffice.book = some ⟨benchCatalog, benchCatalog.fingerprint⟩ := rfl
  obtain ⟨v, p, hv, hp, hpredicts⟩ := exists_predicted_pass hbook hform (by decide +kernel) hvalues
    (by simpa using hfinite) hround hbare none
  rw [hp] at hrun
  obtain ⟨hprices, hwarnings⟩ := Prod.mk.inj (Option.some.inj hrun)
  exact ⟨v, p, hv, hp, hpredicts, hprices, hwarnings⟩

end Web
end Tariff
