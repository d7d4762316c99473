/-
# Trials and quotes

A rule of the catalog can be tried on answers, and the answers can be quoted. Both run a pass over the whole catalog
and report the price of the rule in it, the trial alone and the quote among all prices. So they report one value as
long as both selections treat the rules up to that one alike (`tried_eq_quoted`).

They need not: a quote without services of its own takes a list named `services` among the answers as the selection,
and a trial does not look there (`not_forall_tried_eq_quoted`).

| services in the request | `services` among the answers | selection of the trial | selection of the quote |
| --- | --- | --- | --- |
| a list | anything | that list | that list |
| none | a list | none | that list |
| none | anything else, or nothing | none | none |
-/

import Tariff.Proofs.Pricing.Composition
import Tariff.Proofs.Pricing.Treatment
import Tariff.Proofs.Web.Responses

namespace Tariff
namespace Web

/-! ### Trials -/

section

variable {terms : Terms} {b : Book} {id : String} {answers body : Json} {services : Option (List String)}

/-- **A trial of a rule of the catalog reports its price in the pass over the catalog.** The pass goes over all
rules, so what the rule refers to has been priced as in a quote. -/
theorem exists_pass_of_tryRule (h : (tryRule terms b ⟨some id, none, answers, services⟩).success? = some body) :
    id ∈ b.catalog.rules.map Rule.id ∧
      ∃ p, Pass.run ⟨Quote.givenAnswers answers, b.catalog.services, services, terms⟩ b.catalog.rules = .ok p ∧
        body.get? "value" = some (Response.writable (.ofReal? ((p.ledger.find? id).map Price.value))) := by
  unfold tryRule trialRules at h
  dsimp only at h
  cases hid : nonEmpty? (some id) with
  | none =>
    rw [hid] at h
    cases h
  | some given =>
    obtain rfl : id = given := Option.some.inj (nonEmpty?_eq_some_iff.1 hid).1
    rw [hid] at h
    dsimp only at h
    split at h
    · rename_i response heq
      split at heq
      · cases heq
      · obtain rfl := Except.error.inj heq
        cases h
    · rename_i rules id' heq
      split at heq
      · rename_i hany
        obtain ⟨rfl, rfl⟩ := Prod.mk.inj (Except.ok.inj heq)
        refine ⟨by simpa using hany, ?_⟩
        -- The rule is there, so the catalog is priced as it is.
        cases hrun : Pass.run ⟨Quote.givenAnswers answers, b.catalog.services, services, terms⟩ b.catalog.rules with
        | error halt =>
          rw [hrun] at h
          cases h
        | ok p =>
          rw [hrun] at h
          obtain ⟨-, rfl⟩ := Response.success?_ok_eq_some h
          exact ⟨p, rfl, rfl⟩
      · cases heq

/-! ### Quotes -/

/-- **A quote that is answered lists the prices of its pass, all of them finite.** One that is not finite cannot
be written, and the answer would have broken off. -/
theorem exists_quote_of_quote {f : QuoteForm} (h : (quote terms b f).success? = some body) :
    ∃ q, Quote.calculate b.catalog terms f.answers (chosen f) = .ok q ∧
      body.get? "prices" = some (.list (q.prices.map Quote.priceJson)) ∧
        ∀ price ∈ q.prices, price.value.isFinite := by
  unfold quote Book.quote at h
  cases hquote : Quote.calculate b.catalog terms f.answers (chosen f) with
  | error halt =>
    rw [hquote] at h
    cases h
  | ok q =>
    rw [hquote] at h
    obtain ⟨hwritable, rfl⟩ := Response.success?_ok_eq_some h
    refine ⟨q, rfl, rfl, fun price hprice => ?_⟩
    have hprices : Response.isWritable (.list (q.prices.map Quote.priceJson)) := by
      exact Response.isWritable_of_get? hwritable (show Json.get? "prices" _ = _ from rfl)
    have hvalue : (Quote.priceJson price).get? "value" = some (.real price.value) := rfl
    exact Response.isWritable_of_get? (Response.isWritable_of_mem hprices (List.mem_map_of_mem hprice)) hvalue

/-- The entry of a rule in a list of prices. -/
def entryOf? (id : String) (prices : List Json) : Option Json :=
  prices.find? fun price => match price.get? "ruleId" with
    | some (.text other) => other = id
    | _ => false

/-- The value of a rule among the prices of a quote. -/
def quotedValue? (id : String) (body : Json) : Option Json :=
  match body.get? "prices" with
  | some (.list prices) => (entryOf? id prices).bind (Json.get? "value")
  | _ => none

/-- The value of a rule among the prices of a quote is that of its price. -/
theorem quotedValue?_eq {q : Quote} (h : body.get? "prices" = some (.list (q.prices.map Quote.priceJson)))
    (id : String) : quotedValue? id body = (q.prices.find? fun p => p.ruleId = id).map fun p => .real p.value := by
  have hentry : entryOf? id (q.prices.map Quote.priceJson) =
      (q.prices.find? fun p => p.ruleId = id).map Quote.priceJson := by
    rw [entryOf?, List.find?_map]
    rfl
  rw [quotedValue?, h]
  dsimp only
  rw [hentry]
  cases q.prices.find? fun p => p.ruleId = id with
  | none => rfl
  | some price => rfl

end

/-! ### Both -/

/-- **A trial of a rule and a quote report one value for it,** if the selection of the request and the one that the
quote takes treat the rules up to that one alike: in particular if the request has services, or if the answers have
no list of that name. The trial reports null just if the quote has no price for the rule. -/
theorem tried_eq_quoted {o : Office} {b : Book} (hbook : o.book = some b) {id : String} {answers : Json}
    {services : Option (List String)}
    (halike : ∀ r ∈ Rule.upTo b.catalog.rules id,
      Selection.TreatsAlike services (chosen ⟨answers, services⟩) o.terms.discountService r)
    {trialBody quoteBody tried quoted : Json}
    (htrialForm : trialForm (some trialBody) = some ⟨some id, none, answers, services⟩)
    (hquoteForm : quoteForm (some quoteBody) = some ⟨answers, services⟩)
    (htried : (respond o (post "/api/rules/test" (some trialBody))).2.success? = some tried)
    (hquoted : (respond o (post "/quote" (some quoteBody))).2.success? = some quoted) :
    tried.get? "value" = some ((quotedValue? id quoted).getD .null) ∧
      (tried.get? "value" = some .null ↔ quotedValue? id quoted = none) := by
  rw [respond_trial hbook htrialForm] at htried
  rw [respond_quote hbook hquoteForm] at hquoted
  obtain ⟨hid, p, hp, hvalue⟩ := exists_pass_of_tryRule htried
  obtain ⟨q, hq, hprices, hfinite⟩ := exists_quote_of_quote hquoted
  obtain ⟨p', hp', hrests⟩ := Quote.exists_pass_of_calculate hq
  -- The two passes select differently, but treat all rules alike on which the price depends.
  have hsame : p.ledger.find? id = p'.ledger.find? id := Pass.find?_of_treatsAlike hp hp' hid halike
  have hfound : quotedValue? id quoted = (p.ledger.find? id).map fun price => .real price.value := by
    rw [quotedValue?_eq hprices, hrests.prices, hsame]
    rfl
  rw [hvalue, hfound]
  cases hprice : p.ledger.find? id with
  | none => exact ⟨rfl, by simp [Json.ofReal?, Response.writable]⟩
  | some price =>
    have hmem : price ∈ q.prices := by
      rw [hrests.prices]
      exact List.mem_of_find?_eq_some (hsame ▸ hprice)
    have hwritable : Response.writable (.ofReal? (some price.value)) = .real price.value := by
      simp [Json.ofReal?, Response.writable, hfinite price hmem]
    simp only [Option.map_some, hwritable, Option.getD_some, true_and]
    simp

/-- Files with a rule of one service in front of a rule of another. -/
def benchFiles : CatalogFiles where
  rules := ⟨"pricing_rules.csv", "data/pricing_rules.csv", some
    "rule_id,service_id,calculation_method,base_price\nrent,desk,simple,50\nbulb,lamp,simple,5\n".toUTF8⟩
  services := ⟨"services.csv", "data/services.csv", some "service_id\ndesk\n".toUTF8⟩

def benchCatalog : Catalog where
  rules := [
    { id := "rent", title := "rent", service := some "desk", method := "simple", basePrice := .ofNat 50 },
    { id := "bulb", title := "bulb", service := some "lamp", method := "simple", basePrice := .ofNat 5 }]
  services := [{ id := "desk", title := "desk" }]

/-- The files hold this catalog, which the witness below starts from. -/
theorem load_benchFiles : benchFiles.load = .ok benchCatalog := by
  have hload : benchFiles.load.toOption = some benchCatalog := by decide +kernel
  cases h : benchFiles.load with
  | error fault => simp [h, Except.toOption] at hload
  | ok c => rw [h] at hload; exact congrArg _ (Option.some.inj hload)

/-- The office in which these files have been loaded. -/
def benchOffice : Office where
  directory := "data"
  files := benchFiles
  terms := {}
  book := some ⟨benchCatalog, benchCatalog.fingerprint⟩

/-- A request for a quote on answers alone. -/
def quoteOn (answers : Json) : Json := .object [("answers", answers)]

/-- A request to try a rule on answers alone. -/
def trialOn (id : String) (answers : Json) : Json := .object [("rule_id", .text id), ("answers", answers)]

/-- Answers with a list of services. -/
def listing (services : List String) : Json := .object [("services", .ofTexts services)]

/-- The answers select the service of the first rule and not that of the second. -/
theorem tried_eq_quoted_benchOffice : ∃ b tried quoted, benchOffice.book = some b ∧
    (∀ r ∈ Rule.upTo b.catalog.rules "rent",
      Selection.TreatsAlike none (chosen ⟨listing ["desk"], none⟩) benchOffice.terms.discountService r) ∧
    trialForm (some (trialOn "rent" (listing ["desk"]))) = some ⟨some "rent", none, listing ["desk"], none⟩ ∧
    quoteForm (some (quoteOn (listing ["desk"]))) = some ⟨listing ["desk"], none⟩ ∧
    (respond benchOffice (post "/api/rules/test" (some (trialOn "rent" (listing ["desk"]))))).2.success? = some tried ∧
    (respond benchOffice (post "/quote" (some (quoteOn (listing ["desk"]))))).2.success? = some quoted ∧
    quotedValue? "rent" quoted ≠ none ∧
    tried.get? "value" = some ((quotedValue? "rent" quoted).getD .null) := by
  obtain ⟨htrial, hprice⟩ :
      (respond benchOffice (post "/api/rules/test" (some (trialOn "rent" (listing ["desk"]))))).2.success?.isSome ∧
        (respond benchOffice (post "/quote" (some (quoteOn (listing ["desk"]))))).2.success?.map
          (fun v => (quotedValue? "rent" v).isSome) = some true := by
    decide +kernel
  obtain ⟨tried, htried⟩ := Option.isSome_iff_exists.1 htrial
  obtain ⟨quoted, hquoted, hsome⟩ := Option.map_eq_some_iff.1 hprice
  have halike : ∀ r ∈ Rule.upTo benchCatalog.rules "rent",
      Selection.TreatsAlike none (chosen ⟨listing ["desk"], none⟩) benchOffice.terms.discountService r := by
    have hupTo : Rule.upTo benchCatalog.rules "rent" =
        [{ id := "rent", title := "rent", service := some "desk", method := "simple", basePrice := .ofNat 50 }] := by
      rfl
    rw [hupTo]
    intro r hr
    obtain rfl := List.mem_singleton.1 hr
    exact ⟨fun _ => by decide, fun _ hdiscountable => by cases hdiscountable⟩
  exact ⟨_, tried, quoted, rfl, halike, rfl, rfl, htried, hquoted, by rw [← Option.isSome_iff_ne_none, hsome],
    (tried_eq_quoted rfl halike rfl rfl htried hquoted).1⟩

/-- **A trial and a quote need not agree on a rule:** the answers select no service, and only the quote heeds them. -/
theorem not_forall_tried_eq_quoted : ¬ ∀ (o : Office) (b : Book) (id : String) (answers : Json)
    (services : Option (List String)) (trialBody quoteBody tried quoted : Json), o.book = some b →
      o.files.load = .ok b.catalog →
      trialForm (some trialBody) = some ⟨some id, none, answers, services⟩ →
      quoteForm (some quoteBody) = some ⟨answers, services⟩ →
      (respond o (post "/api/rules/test" (some trialBody))).2.success? = some tried →
      (respond o (post "/quote" (some quoteBody))).2.success? = some quoted →
      tried.get? "value" = some ((quotedValue? id quoted).getD .null) := by
  intro hall
  obtain ⟨hvalue, hprice⟩ :
      (respond benchOffice (post "/api/rules/test" (some (trialOn "rent" (listing []))))).2.success?.map
        (fun v => (v.get? "value").map Json.isBlankValue) = some (some false) ∧
      (respond benchOffice (post "/quote" (some (quoteOn (listing []))))).2.success?.map
        (fun v => (quotedValue? "rent" v).isNone) = some true := by
    decide +kernel
  obtain ⟨tried, htried, hblank⟩ := Option.map_eq_some_iff.1 hvalue
  obtain ⟨quoted, hquoted, hnone⟩ := Option.map_eq_some_iff.1 hprice
  have hnull := hall benchOffice _ "rent" _ none _ _ tried quoted rfl load_benchFiles rfl rfl htried hquoted
  rw [Option.isNone_iff_eq_none.1 hnone] at hnull
  rw [hnull] at hblank
  cases hblank

end Web
end Tariff
