/-
# Trying a rule of one's own

A trial takes a rule of the catalog by its id, or a rule with all its fields. The fields of a rule say all of it
(`ruleForm_record`), so a rule of the catalog is tried alike either way, as long as its numbers can be written and
it would be accepted. With its fields it also takes the place of the rules with its id further down, but those come too
late to make a difference. A rule with an id of its own comes behind the catalog, where no other price depends on it
(`tried_as_stored`).

| request | rules of the pass |
| --- | --- |
| an id of the catalog | the catalog |
| the fields of a rule with such an id | the catalog, that rule in the place of each with the id |
| the fields of a rule with another id | the catalog, and that rule behind it |
-/

import Tariff.Proofs.Pricing.Duplicates
import Tariff.Proofs.Pricing.Forward
import Tariff.Proofs.Web.Responses

namespace Tariff

namespace Rule

/-- The numbers among the fields of a rule. -/
def numbers (r : Rule) : List Binary64 :=
  r.lowest.toList ++ r.highest.toList ++ r.unitPrice.toList ++ [r.basePrice, r.discount]

/-- The ids of earlier rules make no difference to the errors. -/
theorem errors_check (r : Rule) (earlier : Option (List String)) (rulePrefix : String) :
    (r.check earlier rulePrefix).errors = (r.check none rulePrefix).errors := by
  have hmethod : (Check.methodFindings r earlier rulePrefix).errors =
      (Check.methodFindings r none rulePrefix).errors := by
    unfold Check.methodFindings
    split
    · split
      · rfl
      · rfl
    · rfl
    · rfl
  rw [check, check, hmethod]

/-- A rule that is accepted has an id. -/
theorem id_ne_empty_of_isValid {r : Rule} {earlier : Option (List String)} {rulePrefix : String}
    (h : (r.check earlier rulePrefix).isValid) : r.id ≠ "" := by
  intro hempty
  simp [check, Findings.isValid, Check.idErrors, Check.note, hempty] at h

end Rule

namespace Web

/-! ### The fields of a rule -/

namespace Field

/-- A text that was written, or null, is read back. -/
theorem orNull_text_ofText? (s : Option String) : orNull text (.ofText? s) = some s := by
  cases s <;> rfl

/-- A number that was written, or null, is read back. -/
theorem orNull_number_ofReal? (x : Option Binary64) : orNull number (.ofReal? x) = some x := by
  cases x <;> rfl

end Field

/-- A field of a request that is there and can be read is what it is read as. -/
theorem optional_of_get? {α : Type} {body v : Json} {key : String} {field : Field α} {default x : α}
    (hget : body.get? key = some v) (hread : field v = some x) : optional body key field default = some x := by
  rw [optional, hget]
  exact hread

/-- **The fields of a rule are read as that rule.** So a client who was given a rule can send it back for a
trial without losing anything. -/
theorem ruleForm_record (r : Rule) : ruleForm r.record = some r := by
  rw [ruleForm]
  refine Option.bind_eq_some_iff.2 ⟨r.record, rfl, ?_⟩
  refine Option.bind_eq_some_iff.2 ⟨r.id, rfl, ?_⟩
  -- Every other field is found under its key, and read as what it was written for.
  iterate 18
    refine Option.bind_eq_some_iff.2 ⟨_, optional_of_get? rfl
      (by first | exact Field.orNull_text_ofText? _ | exact Field.orNull_number_ofReal? _ | rfl), ?_⟩
  rfl

namespace Response

theorem isWritable_ofText? (s : Option String) : isWritable (.ofText? s) := by
  cases s <;> rfl

theorem isWritable_ofReal? {x : Option Binary64} (h : ∀ y ∈ x.toList, y.isFinite) : isWritable (.ofReal? x) := by
  cases x with
  | none => rfl
  | some x => exact h x (by simp)

/-- A rule can be written if its numbers are finite; all else in it are texts and truth values. -/
theorem isWritable_record {r : Rule} (h : ∀ x ∈ r.numbers, x.isFinite) : isWritable r.record := by
  simp only [Rule.numbers, List.forall_mem_append, List.forall_mem_cons] at h
  obtain ⟨⟨⟨hlowest, hhighest⟩, hunit⟩, hbase, hdiscount, -⟩ := h
  simp [Rule.record, isWritable, fieldsWritable, isWritable_ofText?, isWritable_ofReal? hlowest,
    isWritable_ofReal? hhighest, isWritable_ofReal? hunit, hbase, hdiscount]

end Response

/-! ### The request -/

section

variable {α : Type} {key k : String} {fields : List (String × Json)}

theorem optional_cons_self (v : Json) (field : Field α) (default : α) :
    optional (.object ((key, v) :: fields)) key field default = field v := by
  rw [optional, Json.get?, lookup?, if_pos rfl]

/-- A field with another key is passed over. -/
theorem optional_cons_of_ne (h : k ≠ key) (v : Json) (field : Field α) (default : α) :
    optional (.object ((k, v) :: fields)) key field default = optional (.object fields) key field default := by
  rw [optional, Json.get?, lookup?, if_neg h, ← Json.get?, ← optional]

/-- A field that is not in the request has its default. -/
theorem optional_of_forall_ne (h : ∀ f ∈ fields, f.1 ≠ key) (field : Field α) (default : α) :
    optional (.object fields) key field default = some default := by
  have hnone : Json.get? key (.object fields) = none := by
    rw [Json.get?, ← Option.not_isSome_iff_eq_none, isSome_lookup?, List.mem_map]
    rintro ⟨f, hf, hkey⟩
    exact h f hf hkey
  rw [optional, hnone]

end

/-- What a rule is tried on: answers and services. -/
def trialGround (body : Json) : Option (Json × Option (List String)) := do
  return (← optional body "answers" Field.answers (.object []),
    ← optional body "services" (Field.orNull Field.texts) none)

/-- A request for a trial is its id or its rule, and the ground that the rule is tried on. -/
theorem trialForm_eq {fields : List (String × Json)} {ruleId : Option String} {rule : Option Rule}
    (hid : optional (.object fields) "rule_id" (Field.orNull Field.text) none = some ruleId)
    (hrule : optional (.object fields) "rule" (Field.orNull ruleForm) none = some rule) :
    trialForm (some (.object fields)) =
      (trialGround (.object fields)).map fun ground => ⟨ruleId, rule, ground.1, ground.2⟩ := by
  rw [trialForm, object?]
  simp only [Option.bind_eq_bind, Option.bind_some, hid, hrule, trialGround, Option.map_bind, Function.comp_def]
  rfl

/-- Fields other than answers and services do not matter to the ground. -/
theorem trialGround_cons {k : String} (hanswers : k ≠ "answers") (hservices : k ≠ "services") (v : Json)
    (fields : List (String × Json)) : trialGround (.object ((k, v) :: fields)) = trialGround (.object fields) := by
  rw [trialGround, optional_cons_of_ne hanswers, optional_cons_of_ne hservices, ← trialGround]

section

variable {rest : List (String × Json)} (hrest : ∀ field ∈ rest, field.1 ≠ "rule" ∧ field.1 ≠ "rule_id")

include hrest

/-- A trial by id. -/
theorem trialForm_ruleId (id : String) : trialForm (some (.object (("rule_id", .text id) :: rest))) =
    (trialGround (.object rest)).map fun ground => ⟨some id, none, ground.1, ground.2⟩ := by
  have hid : optional (.object (("rule_id", .text id) :: rest)) "rule_id" (Field.orNull Field.text) none =
      some (some id) := optional_cons_self ..
  have hrule : optional (.object (("rule_id", .text id) :: rest)) "rule" (Field.orNull ruleForm) none = some none := by
    rw [optional_cons_of_ne (by decide), optional_of_forall_ne fun field hfield => (hrest field hfield).1]
  rw [trialForm_eq hid hrule, trialGround_cons (by decide) (by decide)]

/-- A trial with the fields of a rule. -/
theorem trialForm_rule (r : Rule) : trialForm (some (.object (("rule", r.record) :: rest))) =
    (trialGround (.object rest)).map fun ground => ⟨none, some r, ground.1, ground.2⟩ := by
  have hid : optional (.object (("rule", r.record) :: rest)) "rule_id" (Field.orNull Field.text) none = some none := by
    rw [optional_cons_of_ne (by decide), optional_of_forall_ne fun field hfield => (hrest field hfield).2]
  have hrule : optional (.object (("rule", r.record) :: rest)) "rule" (Field.orNull ruleForm) none =
      some (some r) := by
    rw [optional_cons_self]
    exact congrArg (Option.map some) (ruleForm_record r)
  rw [trialForm_eq hid hrule, trialGround_cons (by decide) (by decide)]

end

/-! ### The rules of the pass -/

variable {rules : List Rule} {r : Rule}

/-- A rule whose id is taken stands in for every rule with that id. -/
theorem withRule_of_mem (h : r.id ∈ rules.map Rule.id) :
    withRule rules r = rules.map fun other => if other.id = r.id then r else other := by
  rw [withRule, if_pos]
  simpa using h

/-- A rule whose id is free comes behind all others. -/
theorem withRule_of_notMem (h : r.id ∉ rules.map Rule.id) : withRule rules r = rules ++ [r] := by
  rw [withRule, if_neg]
  simpa using h

/-- **To put the first rule with its id in the place of all others with it** leaves the first rules as they are. -/
theorem sameFirsts_withRule (h : Rule.first? rules r.id = some r) : Rule.SameFirsts (withRule rules r) rules := by
  have hid (other : Rule) : (if other.id = r.id then r else other).id = other.id := by
    split
    · rename_i heq
      exact heq.symm
    · rfl
  rw [withRule_of_mem (List.mem_map_of_mem (Rule.mem_of_first? h).1)]
  refine ⟨?_, fun id => ?_⟩
  · rw [List.map_map]
    exact List.map_congr_left fun other _ => hid other
  · have hfound : Rule.first? (rules.map fun other => if other.id = r.id then r else other) id =
        (Rule.first? rules id).map fun other => if other.id = r.id then r else other := by
      rw [Rule.first?, List.find?_map]
      simp only [Function.comp_def, hid, Rule.first?]
    rw [hfound]
    cases hfirst : Rule.first? rules id with
    | none => rfl
    | some s =>
      obtain ⟨-, rfl⟩ := Rule.mem_of_first? hfirst
      rw [Option.map_some]
      split
      · rename_i heq
        rw [heq, h] at hfirst
        rw [Option.some.inj hfirst]
      · rfl

variable {terms : Terms} {b : Book}

/-- A rule that is sent with its fields and accepted is tried in the catalog so changed. -/
theorem eq_withRule_of_trialRules {f : TrialForm} (hrule : f.rule = some r) {tried : List Rule} {id : String}
    (h : trialRules terms rules f = .ok (tried, id)) : tried = withRule rules r ∧ id = r.id := by
  rw [trialRules, hrule] at h
  dsimp only at h
  split at h
  · obtain ⟨rfl, rfl⟩ := Prod.mk.inj (Except.ok.inj h)
    exact ⟨rfl, rfl⟩
  · cases h

/-- **A rule of the catalog is tried alike by its id and by its fields.** Sent by its fields it stands in the
place of every rule with its id, and those further down come too late anyway. -/
theorem tryRule_rule (hfirst : Rule.first? b.catalog.rules r.id = some r) {earlier : Option (List String)}
    (hvalid : (r.check earlier terms.rulePrefix).isValid) (answers : Json) (services : Option (List String)) :
    tryRule terms b ⟨none, some r, answers, services⟩ = tryRule terms b ⟨some r.id, none, answers, services⟩ := by
  have hrule : trialRules terms b.catalog.rules ⟨none, some r, answers, services⟩ =
      .ok (withRule b.catalog.rules r, r.id) := by
    rw [Findings.isValid, Rule.errors_check, ← Findings.isValid] at hvalid
    rw [trialRules]
    exact if_pos hvalid
  have hid : trialRules terms b.catalog.rules ⟨some r.id, none, answers, services⟩ = .ok (b.catalog.rules, r.id) := by
    have hgiven : nonEmpty? (some r.id) = some r.id :=
      nonEmpty?_eq_some_iff.2 ⟨rfl, Rule.id_ne_empty_of_isValid hvalid⟩
    rw [trialRules, hgiven]
    exact if_pos (List.any_eq_true.2 ⟨r, (Rule.mem_of_first? hfirst).1, by simp⟩)
  rw [tryRule, tryRule, hrule, hid]
  dsimp only
  rw [Pass.run_eq_of_sameFirsts _ (sameFirsts_withRule hfirst)]

/-- **A stored rule can be tried by its id or by its fields,** on any answers and services: the response is the same,
if its numbers are finite and it is valid. Rules further down with its id make no difference. And a rule with an id that
is not in the catalog leaves the prices and outcomes of the catalog as they are without it. -/
theorem tried_as_stored {o : Office} (hbook : o.book = some b) :
    (∀ id r earlier rest, Rule.first? b.catalog.rules id = some r → (∀ x ∈ r.numbers, x.isFinite) →
      (r.check earlier o.terms.rulePrefix).isValid → (∀ field ∈ rest, field.1 ≠ "rule" ∧ field.1 ≠ "rule_id") →
        respond o (post "/api/rules/test" (some (.object (("rule", Response.writable r.record) :: rest)))) =
          respond o (post "/api/rules/test" (some (.object (("rule_id", .text id) :: rest))))) ∧
    ∀ (f : TrialForm) r rules id q, f.rule = some r → r.id ∉ b.catalog.rules.map Rule.id →
      trialRules o.terms b.catalog.rules f = .ok (rules, id) →
      Pass.run ⟨Quote.givenAnswers f.answers, b.catalog.services, f.services, o.terms⟩ rules = .ok q →
        ∃ p, Pass.run ⟨Quote.givenAnswers f.answers, b.catalog.services, f.services, o.terms⟩ b.catalog.rules = .ok p ∧
          ∀ s ∈ b.catalog.rules, q.ledger.find? s.id = p.ledger.find? s.id ∧
            lookup? s.id q.outcomes = lookup? s.id p.outcomes := by
  have hroute : (Route.ofPath "/api/rules/test").find? (fun route => route.method = "POST") = some .tryRule := by
    decide
  refine ⟨fun id r earlier rest hfirst hfinite hvalid hrest => ?_, fun f r rules id q hrule hnew hrules hrun => ?_⟩
  · obtain ⟨-, rfl⟩ := Rule.mem_of_first? hfirst
    rw [Response.writable_of_isWritable _ (Response.isWritable_record hfinite), respond_post hbook hroute,
      respond_post hbook hroute]
    simp only [answer, post, trialForm_rule hrest, trialForm_ruleId hrest]
    cases trialGround (.object rest) with
    | none => rfl
    | some ground => simp only [Option.map_some, withForm, tryRule_rule hfirst hvalid]
  · obtain ⟨rfl, -⟩ := eq_withRule_of_trialRules hrule hrules
    rw [withRule_of_notMem hnew] at hrun
    exact Pass.exists_run_of_append hrun

/-- A rent, a share of it, and another rent that comes too late. -/
def rentCatalog : Catalog where
  rules := [
    { id := "rent", method := "simple", basePrice := .ofNat 50 },
    { id := "share", formula := "\x7b\x7bpricingRule.rent\x7d\x7d / 10" },
    { id := "rent", method := "simple", basePrice := .ofNat 70 }]
  services := []

/-- An office with these rules, whose files are gone. -/
def rentOffice : Office :=
  { Office.ofFiles "data" "data/pricing_rules.csv" "data/services.csv" {} none none with
    book := some ⟨rentCatalog, rentCatalog.fingerprint⟩ }

/-- A rule that is not among them and refers to one that is. -/
def feeRule : Rule := { id := "fee", formula := "\x7b\x7bpricingRule.rent\x7d\x7d * 2" }

/-- The first rent takes the place of the other one and is tried as by its id; a fee behind both changes neither. -/
theorem tried_as_stored_rentOffice :
    ∃ r q p, Rule.first? rentCatalog.rules "rent" = some r ∧ withRule rentCatalog.rules r ≠ rentCatalog.rules ∧
      (respond rentOffice (post "/api/rules/test" (some (.object [("rule", Response.writable r.record)])))).2.status =
        200 ∧
      respond rentOffice (post "/api/rules/test" (some (.object [("rule", Response.writable r.record)]))) =
        respond rentOffice (post "/api/rules/test" (some (.object [("rule_id", .text "rent")]))) ∧
      Pass.run ⟨Quote.givenAnswers (.object []), [], none, {}⟩ (rentCatalog.rules ++ [feeRule]) = .ok q ∧
      Pass.run ⟨Quote.givenAnswers (.object []), [], none, {}⟩ rentCatalog.rules = .ok p ∧
      ∀ s ∈ rentCatalog.rules, q.ledger.find? s.id = p.ledger.find? s.id ∧
        lookup? s.id q.outcomes = lookup? s.id p.outcomes := by
  have hbook : rentOffice.book = some ⟨rentCatalog, rentCatalog.fingerprint⟩ := rfl
  obtain ⟨hstored, hown⟩ := tried_as_stored hbook
  have hfirst : Rule.first? rentCatalog.rules "rent" =
      some { id := "rent", method := "simple", basePrice := .ofNat 50 } := rfl
  obtain ⟨hanswered, hruns⟩ :
      (respond rentOffice (post "/api/rules/test" (some (.object [("rule_id", .text "rent")])))).2.status = 200 ∧
        (Pass.run ⟨Quote.givenAnswers (.object []), [], none, {}⟩ (rentCatalog.rules ++ [feeRule])).isOk := by
    decide +kernel
  have hsame := hstored "rent" _ none [] hfirst (by decide +kernel) (by decide +kernel) nofun
  obtain ⟨q, hq⟩ := isOk_iff.1 hruns
  have hnew : feeRule.id ∉ rentCatalog.rules.map Rule.id := by decide
  have hrules : trialRules {} rentCatalog.rules ⟨none, some feeRule, .object [], none⟩ =
      .ok (rentCatalog.rules ++ [feeRule], "fee") := by
    rw [trialRules, ← withRule_of_notMem hnew]
    exact if_pos (by decide +kernel)
  obtain ⟨p, hp, hprices⟩ := hown ⟨none, some feeRule, .object [], none⟩ feeRule _ "fee" q rfl hnew hrules hq
  exact ⟨_, q, p, hfirst, by decide +kernel, hsame ▸ hanswered, hsame, hq, hp, hprices⟩

end Web
end Tariff
