/-
# What clients can ask for

| request | answer |
| --- | --- |
| `GET /` | that the service is there |
| `GET /system/status` | the size and the fingerprint of the catalogs |
| `POST /quote` | a quote |
| `POST /expressions/evaluate` | the number of a formula with its placeholders |
| `GET /api/rules` | the rules, perhaps only active ones or those of a service |
| `GET /api/rules/{id}` | a rule |
| `POST /api/rules/validate` | the findings on a rule |
| `POST /api/rules/test` | what a pass makes of one rule |
| `POST /api/rules/reload` | the catalogs are loaded again |

A calculation that is halted breaks the answer off. Rules, findings on a rule and trials of a rule are
answers of fixed form; all others are of free form.
-/

import Tariff.Book
import Tariff.Catalog.Check
import Tariff.Web.Form
import Tariff.Web.Message

namespace Tariff
namespace Web

open Response (broken unprocessable)

/-- Answer from a result, or break off. -/
def answered {ε α : Type} (result : Except ε α) (answer : α → Response) : Response :=
  match result with
  | .ok a => answer a
  | .error _ => broken

/-- Answer from a form, or refuse the request. -/
def withForm {α : Type} (form : Option α) (answer : α → Response) : Response :=
  match form with
  | some f => answer f
  | none => unprocessable

def welcome : Response :=
  .ok (.object [("status", .text "online"), ("message", .text "Quote Engine API Active")])

def status (directory : String) (b : Book) : Response :=
  let rules := b.catalog.rules
  .ok (.object [
    ("engine_active", .bool true),
    ("rules_count", .int rules.length),
    ("active_rules", .int (rules.filter Rule.isActive).length),
    ("services_count", .int b.catalog.services.length),
    ("catalog_hash", .text b.fingerprint),
    ("data_dir", .text directory)])

/-- The selection of a quote: the one given, else a list among the answers. -/
def chosen (f : QuoteForm) : Selection :=
  match f.services with
  | some services => some services
  | none =>
    match f.answers.get? "services" with
    | some (.list items) => some (items.map Json.display)
    | _ => none

/-- The fields of an object with others behind them. -/
def extended (v : Json) (more : List (String × Json)) : Json :=
  match v with
  | .object fields => .object (fields ++ more)
  | v => v

/-- A quote with the fingerprint of its catalogs. -/
def quoteJson (q : Quote) (fingerprint : String) : Json :=
  extended q.toJson [("catalogHash", .text fingerprint)]

def quote (terms : Terms) (b : Book) (f : QuoteForm) : Response :=
  answered (b.quote terms f.answers (chosen f)) fun (q, fingerprint) =>
    .ok (extended (quoteJson q fingerprint) [("hasPricing", .bool (Quote.hasPricing q.totals q.fees))])

/-- The number of a formula, its placeholders resolved without any computed price. -/
def tryFormula (terms : Terms) (b : Book) (f : FormulaForm) : Response :=
  let sources : Sources := ⟨f.answers, .empty, b.catalog.services, terms⟩
  let names := Formula.placeholders f.formula
  answered (sources.resolveAll none names {}) fun (values, j) =>
    let filled := Formula.fill values f.formula
    let common := [
      ("placeholders", Json.ofTexts names),
      ("values", .object (values.map fun (name, x) => (name, .real x))),
      ("substituted", .text filled),
      ("warnings", .ofTexts j.warnings)]
    match Formula.evaluate filled with
    | .ok x => .ok (.object (common ++ [("value", .real x), ("valid", .bool true)]))
    | .error fault => .ok (.object (common ++ [("value", .null), ("valid", .bool false),
        ("error", .text (fault.message filled))]))

/-- The rules, inactive ones only if wanted, and only those of a service if one is given. -/
def listRules (b : Book) (parameters : List (String × String)) : Response :=
  let wanted := match lookup? "include_inactive" parameters with
    | some s => Field.word s
    | none => some true
  let service := lookup? "service_id" parameters
  withForm wanted fun withInactive =>
    let listed := b.catalog.rules.filter fun r =>
      (withInactive || r.isActive) && (service.isNone || r.service = service)
    .fixedForm (.list (listed.map Rule.record))

def missingRule (id : String) : Response := .detail 404 (.text ("Rule '" ++ id ++ "' not found"))

def showRule (b : Book) (id : String) : Response :=
  match b.catalog.rules.find? fun r => r.id = id with
  | some r => .fixedForm r.record
  | none => missingRule id

/-- The findings on a rule in the place of the catalog rule with its id, or behind all others. -/
def checkRule (terms : Terms) (b : Book) (r : Rule) : Response :=
  let earlier := (b.catalog.rules.map Rule.id).takeWhile (· ≠ r.id)
  let findings := r.check (some earlier) terms.rulePrefix
  .fixedForm (.object [
    ("valid", .bool findings.isValid),
    ("errors", .ofTexts findings.errors),
    ("warnings", .ofTexts findings.warnings),
    ("placeholders", .ofTexts findings.placeholders)])

/-- Rules with one in the place of those with its id, or behind all others. -/
def withRule (rules : List Rule) (r : Rule) : List Rule :=
  if rules.any fun other => other.id = r.id then
    rules.map fun other => if other.id = r.id then r else other
  else rules ++ [r]

/-- The rules of a trial and the id of the rule that is tried, or why there is no trial. -/
def trialRules (terms : Terms) (rules : List Rule) (f : TrialForm) :
    Except Response (List Rule × String) :=
  match f.rule with
  | some r =>
    let findings := r.check none terms.rulePrefix
    if findings.isValid then .ok (withRule rules r, r.id)
    else .error (.detail 400 (.object [("errors", .ofTexts findings.errors)]))
  | none =>
    match nonEmpty? f.ruleId with
    | some id =>
      if rules.any fun r => r.id = id then .ok (rules, id) else .error (missingRule id)
    | none => .error (.detail 400 (.text "Provide rule_id or rule"))

def entryJson (e : Entry) : Json :=
  .object [("step", .text e.step), ("description", .text e.description), ("value", .ofText? e.value),
    ("rule_id", .ofText? e.ruleId)]

/-- What a pass makes of one rule. -/
def tryRule (terms : Terms) (b : Book) (f : TrialForm) : Response :=
  match trialRules terms b.catalog.rules f with
  | .error response => response
  | .ok (rules, id) =>
    let setting : Setting :=
      ⟨Quote.givenAnswers f.answers, b.catalog.services, f.services, terms⟩
    answered (Pass.run setting rules) fun pass =>
      .fixedForm (.object [
        ("rule_id", .text id),
        ("outcome", .text (((lookup? id pass.outcomes).getD .skipped).name)),
        ("value", .ofReal? ((pass.ledger.find? id).map Price.value)),
        ("trace", .list ((pass.journal.entries.filter fun e => e.ruleId = some id).map entryJson)),
        ("warnings", .ofTexts pass.journal.warnings)])

/-- Load the catalogs again. -/
def reload (o : Office) : Office × Response :=
  match o.act .reload with
  | (o, .loaded b) =>
    (o, .ok (.object [
      ("success", .bool true),
      ("rules_count", .int b.catalog.rules.length),
      ("services_count", .int b.catalog.services.length),
      ("catalog_hash", .text b.fingerprint)]))
  | (o, .fault fault) =>
    (o, match fault.message? with
      | some message => .detail 500 (.text message)
      | none => broken)
  | (o, _) => (o, broken)

end Web
end Tariff
