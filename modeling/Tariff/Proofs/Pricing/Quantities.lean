/-
# Quantities and placeholders

The quantity of a per-unit rule is the answer at a path, and so is the number of a placeholder with that path for its
name, if answers give it one. They are found in two ways. The quantity is walked to, key by key; a name with a point in
it is walked as well, but where that leads to nothing it is tried once more, whole, as the name of an answer.

| path | answers | quantity | placeholder |
| --- | --- | --- | --- |
| `tax.states` | `tax`, with `3` under `states` | `3` | `3` |
| `tax.states` | `tax`, with null under `states` | `0` | `0` |
| `tax.states` | `3` under the name `tax.states` | `0` | `3` |

Only answers of the last kind are read otherwise (`Rule.IsReadWhole`). With any others a formula that multiplies the
placeholder by the unit price may stand for a per-unit rule and the other way round, wherever the rule stands in a
catalog (`Rule.Interchangeable`), unless a discount is taken off the per-unit price, which formulas never have, or the
path has a closing brace, which ends a placeholder.
-/

import Tariff.Proofs.Formula.Products
import Tariff.Proofs.Pricing.Dependence
import Tariff.Proofs.Pricing.Finite
import Tariff.Proofs.Pricing.Treatment
import Mathlib.Data.List.Forall2

namespace Tariff

/-! ### The number at a path -/

/-- Null counts as zero, as no answer at all does. -/
theorem Json.map_number_given (found : Option Json) :
    ((Sources.given found).map number).getD .zero = (found.map number).getD .zero := by
  rcases found with _ | (_ | _) <;> rfl

/-- A path without a point is a single key. -/
theorem pathKeys_of_no_point {path : String} (h : ¬ path.toList.contains '.') : pathKeys path = [path] := by
  have hsplit : ∀ cs : List Char, '.' ∉ cs → splitAtChar '.' cs = [cs] := by
    intro cs
    induction cs with
    | nil => exact fun _ => rfl
    | cons c cs ih =>
      intro hmem
      have hc : c ≠ '.' := fun hc => hmem (hc ▸ List.mem_cons_self)
      rw [splitAtChar, if_neg hc, ih fun hm => hmem (List.mem_cons_of_mem _ hm)]
  rw [pathKeys, hsplit _ (by simpa using h), List.map_singleton, String.ofList_toList]

namespace Rule

/-- A path that leads to nothing, while its whole text is the name of an answer with a number other than zero. -/
def IsReadWhole (answers : Json) (path : String) : Prop :=
  path.toList.contains '.' ∧ (∃ nested, answers.atPath path = .ok nested ∧ Sources.given nested = none) ∧
    ∃ v, answers.get? path = some v ∧ v.number ≠ .zero

/-- The quantity at a path is the number of what the walk finds there, and zero where it finds nothing. It stops
just where the walk does, and never looks for a field with the whole path as its name. -/
theorem quantity_eq_map (answers : Json) (path : String) :
    quantity answers path = (answers.atPath path).map fun found => (found.map Json.number).getD .zero := by
  rw [quantity]
  cases answers.atPath path with
  | error halt => rfl
  | ok found => rfl

end Rule

namespace Sources

variable {a : Json} {fields : List (String × Json)} {ledger : Ledger} {services : List Service} {terms : Terms}
  {name : String}

/-- The number of a name that answers give one is that of the answer it stands for. -/
theorem map_fst_resolve (h : IsAnswerName terms services (trim name)) (ruleId : Option String) (j : Journal) :
    (resolve ⟨a, ledger, services, terms⟩ name ruleId j).map Prod.fst =
      (answer? ⟨a, ledger, services, terms⟩ (trim name)).map fun found => (found.map Json.number).getD .zero := by
  rw [resolve_of_isAnswerName h]
  cases answer? ⟨a, ledger, services, terms⟩ (trim name) with
  | error halt => rfl
  | ok found => cases found <;> rfl

/-- **A placeholder reads the quantity,** unless its name is read whole. A quantity is always walked to, and a
placeholder falls back on the field with the whole name. -/
theorem map_fst_resolve_eq_quantity_iff (htrim : trim name = name) (h : IsAnswerName terms services name)
    (ruleId : Option String) (j : Journal) :
    (resolve ⟨.object fields, ledger, services, terms⟩ name ruleId j).map Prod.fst =
      Rule.quantity (.object fields) name ↔ ¬ Rule.IsReadWhole (.object fields) name := by
  rw [map_fst_resolve (by rwa [htrim]), htrim, Rule.quantity_eq_map]
  by_cases hpoint : name.toList.contains '.'
  · cases hpath : (Json.object fields).atPath name with
    | error halt =>
      rw [answer?_of_point_error hpoint hpath]
      simp [Rule.IsReadWhole, hpath, Except.map]
    | ok nested =>
      rw [answer?_of_point hpoint hpath]
      simp only [Except.map, Except.ok.injEq]
      cases hgiven : given nested with
      | some v =>
        rw [← Json.map_number_given nested, hgiven, Option.some_or]
        simp [Rule.IsReadWhole, hpath, hgiven]
      | none =>
        rw [← Json.map_number_given nested, hgiven, Option.none_or, Json.map_number_given]
        cases hroot : (Json.object fields).get? name with
        | none => simp [Rule.IsReadWhole, hroot]
        | some v => simp only [Rule.IsReadWhole, hpoint, hpath, hroot]; simp [hgiven]
  · have hpath : (Json.object fields).atPath name = .ok ((Json.object fields).get? name) := by
      rw [Json.atPath, pathKeys_of_no_point hpoint, Json.walk, Json.child, ok_bind, Json.get?]
      cases lookup? name fields <;> rfl
    rw [answer?_of_no_point hpoint, hpath]
    simp only [Except.map, Json.map_number_given, true_iff]
    exact fun hwhole => hpoint hwhole.1

/-- **Read whole, a placeholder reads another answer:** it has the number of the answer with its name, while the walk
to the quantity leads to nothing, so that the quantity is zero. Neither of them is an error. -/
theorem map_fst_resolve_of_isReadWhole (htrim : trim name = name) (h : IsAnswerName terms services name)
    (hwhole : Rule.IsReadWhole (.object fields) name) :
    ∃ v, (Json.object fields).get? name = some v ∧ v.number ≠ .zero ∧
      Rule.quantity (.object fields) name = .ok .zero ∧
      ∀ ledger ruleId j,
        (resolve ⟨.object fields, ledger, services, terms⟩ name ruleId j).map Prod.fst = .ok v.number := by
  obtain ⟨hpoint, ⟨nested, hpath, hgiven⟩, v, hroot, hv⟩ := hwhole
  refine ⟨v, hroot, hv, ?_, fun ledger ruleId j => ?_⟩
  · -- What a walk finds without giving it is nothing or null, and neither has a number.
    rw [Rule.quantity_eq_map, hpath, Except.map, ← Json.map_number_given nested, hgiven, Option.map_none,
      Option.getD_none]
  · rw [map_fst_resolve (by rwa [htrim]), htrim, answer?_of_point hpoint hpath, hgiven, Option.none_or, Except.map,
      Json.map_number_given, hroot, Option.map_some, Option.getD_some]

end Sources

/-! ### Rules that may stand for each other -/

/-- The part of a raw price that goes into the books. -/
def Raw.booked (raw : Raw) : Binary64 × Outcome := (raw.value, raw.outcome)

namespace Rule

/-- Two rules that differ in the way of calculating only and come to the same raw price, whatever prices and notes
there are. -/
structure GivesAlike (setting : Setting) (r s : Rule) : Prop where
  reworded : ∃ method formula, s = { r with method := method, formula := formula }
  raw : ∀ ledger j k, (r.raw setting ledger j).map Raw.booked = (s.raw setting ledger k).map Raw.booked

variable {setting : Setting} {r s : Rule}

theorem GivesAlike.refl (setting : Setting) (r : Rule) : GivesAlike setting r r where
  reworded := ⟨r.method, r.formula, rfl⟩
  raw := by
    intro ledger j k
    obtain ⟨written, -, hrun⟩ := r.writes_raw setting ledger
    rw [hrun, hrun]
    cases written <;> rfl

theorem GivesAlike.symm (h : GivesAlike setting r s) : GivesAlike setting s r where
  reworded := by
    obtain ⟨method, formula, rfl⟩ := h.reworded
    exact ⟨r.method, r.formula, rfl⟩
  raw ledger j k := (h.raw ledger k j).symm

end Rule

namespace Pass

variable {setting : Setting} {p q p' : Pass} {r s : Rule} {rules others : List Rule}

/-- **A rule that gives alike adds the same to the books.** -/
theorem Next.exists_of_givesAlike (h : Next setting p r p') (halike : r.GivesAlike setting s) (hq : p.SameBooks q) :
    ∃ q', Next setting q s q' ∧ p'.SameBooks q' := by
  obtain ⟨method, formula, rfl⟩ := halike.reworded
  cases h with
  | duplicate hseen =>
    exact ⟨_, .duplicate ((hq.hasSeen r.id).trans hseen), hq.ledger, hq.outcomes⟩
  | skipped hseen hv happlies =>
    refine ⟨_, .skipped ((hq.hasSeen r.id).trans hseen) hv happlies, hq.ledger, ?_⟩
    simp only [hq.outcomes]
  | @priced verdict raw value hseen hnew hv happlies hraw hvalue =>
    have hother := halike.raw p.ledger p.journal q.journal
    rw [hraw, hq.ledger] at hother
    obtain ⟨raw', hraw', hbooked⟩ := map_eq_ok_iff.1 hother.symm
    obtain ⟨hsame, houtcome⟩ := Prod.mk.inj hbooked
    have hotherNew : q.ledger.has r.id = false := hq.ledger ▸ hnew
    refine ⟨_, .priced (r := { r with method := method, formula := formula }) ((hq.hasSeen r.id).trans hseen) hotherNew
      hv happlies hraw' (hsame ▸ hvalue), ?_, ?_⟩
    · simp only [hq.ledger]
      rfl
    · simp only [hq.outcomes, houtcome]

/-- **Rules that give alike, one by one, keep the same books.** By induction on the rules, with the same prices
on both sides at every step. -/
theorem exists_foldlM_of_givesAlike (h : List.Forall₂ (Rule.GivesAlike setting) rules others) (hq : p.SameBooks q)
    (hrun : rules.foldlM (step setting) p = .ok p') :
    ∃ q', others.foldlM (step setting) q = .ok q' ∧ p'.SameBooks q' := by
  induction h generalizing p q with
  | nil =>
    obtain rfl := Except.ok.inj hrun
    exact ⟨q, rfl, hq⟩
  | cons halike _ ih =>
    rw [List.foldlM_cons] at hrun
    obtain ⟨p₁, hp₁, hrun⟩ := bind_eq_ok_iff.1 hrun
    obtain ⟨q₁, hq₁, hbooks⟩ := (step_eq_ok_iff.1 hp₁).exists_of_givesAlike halike hq
    obtain ⟨q', hq', hbooks'⟩ := ih hbooks hrun
    exact ⟨q', by rw [List.foldlM_cons, step_eq_ok_iff.2 hq₁, ok_bind, hq'], hbooks'⟩

end Pass

/-- A rule may stand for another one in any catalog: the pass comes to the same prices and outcomes. -/
def Rule.Interchangeable (setting : Setting) (r s : Rule) : Prop :=
  ∀ before after : List Rule,
    (∀ p, Pass.run setting (before ++ r :: after) = .ok p →
      ∃ q, Pass.run setting (before ++ s :: after) = .ok q ∧ p.SameBooks q) ∧
    ∀ q, Pass.run setting (before ++ s :: after) = .ok q →
      ∃ p, Pass.run setting (before ++ r :: after) = .ok p ∧ q.SameBooks p

namespace Rule

variable {setting : Setting} {r s : Rule}

/-- **Rules that give alike may stand for each other**: wherever they are in a catalog, all prices and outcomes
come out the same. -/
theorem GivesAlike.interchangeable (h : GivesAlike setting r s) : Interchangeable setting r s := by
  intro before after
  have hsame (rules : List Rule) : List.Forall₂ (GivesAlike setting) rules rules :=
    List.forall₂_same.2 fun r _ => .refl setting r
  have hrules {r s : Rule} (h : GivesAlike setting r s) :
      List.Forall₂ (GivesAlike setting) (before ++ r :: after) (before ++ s :: after) :=
    List.rel_append (hsame before) (.cons h (hsame after))
  exact ⟨fun p hp => Pass.exists_foldlM_of_givesAlike (hrules h) ⟨rfl, rfl⟩ hp,
    fun q hq => Pass.exists_foldlM_of_givesAlike (hrules h.symm) ⟨rfl, rfl⟩ hq⟩

/-- A rule that multiplies a placeholder by a factor instead of its own way of calculating. -/
def scaling (r : Rule) (name factor : String) : Rule :=
  { r with method := "formula", formula := Formula.scaled name factor }

variable {path factor : String} {u n : Binary64}

/-- The raw price of a per-unit rule without a discount. -/
theorem map_booked_raw_of_units (hmethod : Method.ofName? r.method = some .perUnit)
    (hterms : r.unitTerms? = some (path, u)) (hdiscount : r.isDiscounted setting = false)
    (hn : quantity setting.answers path = .ok n) (ledger : Ledger) (j : Journal) :
    (r.raw setting ledger j).map Raw.booked = .ok (n * u, .evaluated) := by
  have hformula : Method.ofName? r.method ≠ some .formula := by simp [hmethod]
  unfold isDiscounted at hdiscount
  rw [raw, if_neg hformula, byMethod, undiscounted]
  simp only [hmethod, byUnit, hterms, hn, ok_bind, pure, Except.pure, hdiscount]
  rfl

/-- The raw price of a formula that multiplies a placeholder. -/
theorem map_booked_raw_scaling (hne : path ≠ "") (htrim : trim path = path) (hpath : '\x7d' ∉ path.toList)
    (hfactor : Formula.IsSpelling factor u) (hn : n.isFinite) (hproduct : (n * u).isFinite) {ledger : Ledger}
    (hresolve : ∀ j, (Sources.resolve ⟨setting.answers, ledger, setting.services, setting.terms⟩ path (some r.id) j).map
      Prod.fst = .ok n) (j : Journal) :
    ((r.scaling path factor).raw setting ledger j).map Raw.booked = .ok (n * u, .evaluated) := by
  obtain ⟨⟨x, j'⟩, hx, rfl⟩ := map_eq_ok_iff.1 (hresolve j)
  have hmethod : Method.ofName? (r.scaling path factor).method = some .formula := rfl
  have hformula : trim (r.scaling path factor).formula = Formula.scaled path factor := Formula.trim_scaled hfactor
  have hsome : (trim (r.scaling path factor).formula).isEmpty = false := by
    rw [hformula, ← Bool.not_eq_true, String.isEmpty_iff, ← String.toList_eq_nil_iff, Formula.toList_scaled]
    simp
  have hvalues : Sources.resolveAll ⟨setting.answers, ledger, setting.services, setting.terms⟩ (some r.id)
      (Formula.placeholders (trim (r.scaling path factor).formula)) j = .ok ([(path, x)], j') := by
    rw [hformula, Formula.placeholders_scaled hne htrim hpath hfactor]
    simp only [Sources.resolveAll, hx, ok_bind, pure, Except.pure]
  have hprice : Formula.evaluate (Formula.fill [(path, x)] (trim (r.scaling path factor).formula)) = .ok (x * u) := by
    rw [hformula, Formula.evaluate_scaled hne htrim hpath hfactor hn hproduct]
  rw [raw, if_pos hmethod, (FormulaGives.number hsome hvalues hprice).byFormula_eq]
  rfl

/-- A rule that multiplies the answer at a path by a unit price. -/
structure IsPerUnit (r : Rule) (path : String) (u : Binary64) : Prop where
  method : Method.ofName? r.method = some .perUnit
  field : r.quantityField = some path
  price : r.unitPrice = some u
  charged : u.isZero = false

/-- A rule per unit has its unit price and the path to its quantity. -/
theorem IsPerUnit.unitTerms? (h : r.IsPerUnit path u) (hne : path ≠ "") : r.unitTerms? = some (path, u) := by
  have hfield : nonEmpty? r.quantityField = some path := nonEmpty?_eq_some_iff.2 ⟨h.field, hne⟩
  simp [Rule.unitTerms?, hfield, h.price, h.charged]

/-- **Quantities and placeholders read the same answer,** unless the path leads to nothing and is the name of an answer;
then the placeholder has the number of that answer and the quantity is zero. In all other cases a formula that
multiplies the placeholder by the unit price may stand for a per-unit rule that has no discount. -/
theorem reads_alike {fields : List (String × Json)} {path : String} {services : List Service} {terms : Terms}
    (hne : path ≠ "") (htrim : trim path = path) (hname : IsAnswerName terms services path) :
    (∀ ledger ruleId j,
      (Sources.resolve ⟨.object fields, ledger, services, terms⟩ path ruleId j).map Prod.fst =
        quantity (.object fields) path ↔ ¬ IsReadWhole (.object fields) path) ∧
    (IsReadWhole (.object fields) path →
      ∃ v, (Json.object fields).get? path = some v ∧ v.number ≠ .zero ∧ quantity (.object fields) path = .ok .zero ∧
        ∀ ledger ruleId j,
          (Sources.resolve ⟨.object fields, ledger, services, terms⟩ path ruleId j).map Prod.fst = .ok v.number) ∧
    (¬ IsReadWhole (.object fields) path → '\x7d' ∉ path.toList →
      ∀ (selection : Selection) (r : Rule) (u n : Binary64) (factor : String), r.IsPerUnit path u →
        r.isDiscounted ⟨.object fields, services, selection, terms⟩ = false →
        quantity (.object fields) path = .ok n → (n * u).isFinite → Formula.IsSpelling factor u →
        Interchangeable ⟨.object fields, services, selection, terms⟩ r (r.scaling path factor)) := by
  refine ⟨fun ledger ruleId j => Sources.map_fst_resolve_eq_quantity_iff htrim hname ruleId j,
    fun hwhole => Sources.map_fst_resolve_of_isReadWhole htrim hname hwhole, ?_⟩
  intro hwhole hbrace selection r u n factor hr hdiscount hn hproduct hfactor
  refine GivesAlike.interchangeable ⟨⟨_, _, rfl⟩, fun ledger j k => ?_⟩
  rw [map_booked_raw_of_units hr.method (hr.unitTerms? hne) hdiscount hn]
  refine (map_booked_raw_scaling hne htrim hbrace hfactor (isFinite_quantity hn) hproduct (fun j => ?_) k).symm
  rw [(Sources.map_fst_resolve_eq_quantity_iff htrim hname _ j).2 hwhole, hn]

/-- Two filings in a list, the second one a correction. -/
def filings : List (String × Json) := [("tax", .object [("filings", .list [.int 1, .text " -3 "])])]

/-- A rule that gives back `2.5` a filing. -/
def filingRule : Rule :=
  { id := "filing", method := "per-unit", quantityField := some "tax.filings.1",
    unitPrice := some (Decimal.toBinary64 ⟨true, 25, -1⟩) }

/-- The path leads to the second filing, whose number both rules multiply. Without filings, but with an answer that has
the path for its name, the placeholder reads that answer and the quantity is zero. -/
theorem reads_alike_filings :
    (∀ ledger ruleId j, (Sources.resolve ⟨.object filings, ledger, [], {}⟩ "tax.filings.1" ruleId j).map Prod.fst =
      quantity (.object filings) "tax.filings.1") ∧
    Interchangeable ⟨.object filings, [], none, {}⟩ filingRule (filingRule.scaling "tax.filings.1" "-2.50") ∧
    quantity (.object [("tax.filings.1", .int 5)]) "tax.filings.1" = .ok .zero ∧
    ∀ ledger ruleId j, (Sources.resolve ⟨.object [("tax.filings.1", .int 5)], ledger, [], {}⟩ "tax.filings.1" ruleId
      j).map Prod.fst = .ok (Json.int 5).number := by
  have hname : IsAnswerName {} [] "tax.filings.1" := by decide +kernel
  have htrim : trim "tax.filings.1" = "tax.filings.1" := by decide +kernel
  obtain ⟨hsame, -, hcharge⟩ := @reads_alike filings "tax.filings.1" [] {} (by decide) htrim hname
  have hnot : ¬ IsReadWhole (.object filings) "tax.filings.1" := by
    rintro ⟨-, -, v, hv, -⟩
    cases hv
  have hn : quantity (.object filings) "tax.filings.1" = .ok (Json.text " -3 ").number := rfl
  have hfactor : Formula.IsSpelling "-2.50" (Decimal.toBinary64 ⟨true, 25, -1⟩) :=
    ⟨true, ['2', '.', '5', '0'], rfl, @Numeral.Positional.point ['2'] ['5', '0'] (.inl (by decide)) (by simp) (by simp),
      by decide +kernel⟩
  obtain ⟨-, hapart, -⟩ := @reads_alike [("tax.filings.1", .int 5)] "tax.filings.1" [] {} (by decide) htrim hname
  have hwhole : IsReadWhole (.object [("tax.filings.1", .int 5)]) "tax.filings.1" :=
    ⟨by decide, ⟨none, rfl, rfl⟩, .int 5, rfl, by decide +kernel⟩
  obtain ⟨v, hv, -, hzero, hread⟩ := hapart hwhole
  obtain rfl : Json.int 5 = v := Option.some.inj hv
  exact ⟨fun ledger ruleId j => (hsame ledger ruleId j).2 hnot,
    hcharge hnot (by decide) none filingRule _ _ _ ⟨rfl, rfl, rfl, by decide +kernel⟩ (by decide +kernel) hn
      (by decide +kernel) hfactor, hzero, hread⟩

/-- Rules that may stand for each other have the same price. -/
theorem Interchangeable.prices_eq (h : Interchangeable setting r s) :
    (Pass.run setting [r]).toOption.map (fun p => p.ledger.prices) =
      (Pass.run setting [s]).toOption.map fun p => p.ledger.prices := by
  obtain ⟨hforth, hback⟩ := h [] []
  cases hr : Pass.run setting [r] with
  | ok p =>
    obtain ⟨q, hq, hbooks⟩ := hforth p hr
    rw [List.nil_append] at hq
    rw [hq]
    exact congrArg (fun l => some l.prices) hbooks.ledger
  | error halt =>
    cases hs : Pass.run setting [s] with
    | ok q =>
      obtain ⟨p, hp, -⟩ := hback q hs
      cases hr.symm.trans hp
    | error halt' => rfl

/-- A rule that charges five for each of the answer at a path, and has a discount of a half. -/
def seatRule (path : String) : Rule :=
  { id := "seats", method := "per-unit", quantityField := some path, unitPrice := some (.ofNat 5)
    isDiscountable := true, discount := Decimal.toBinary64 ⟨false, 5, -1⟩ }

/-- **The same answer is read or charged apart in three ways:** by a path that is the name of an answer, by a discount,
and by a brace in the path. -/
theorem not_forall_reads_alike :
    (¬ ∀ (fields : List (String × Json)) (path : String) (services : List Service) (terms : Terms), path ≠ "" →
      trim path = path → IsAnswerName terms services path → ∀ ledger ruleId j,
        (Sources.resolve ⟨.object fields, ledger, services, terms⟩ path ruleId j).map Prod.fst =
          quantity (.object fields) path) ∧
    (¬ ∀ (setting : Setting) (r : Rule) (path factor : String) (u n : Binary64), path ≠ "" → trim path = path →
      IsAnswerName setting.terms setting.services path → ¬ IsReadWhole setting.answers path → '\x7d' ∉ path.toList →
      r.IsPerUnit path u → quantity setting.answers path = .ok n → (n * u).isFinite → Formula.IsSpelling factor u →
        Interchangeable setting r (r.scaling path factor)) ∧
    ¬ ∀ (setting : Setting) (r : Rule) (path factor : String) (u n : Binary64), path ≠ "" → trim path = path →
      IsAnswerName setting.terms setting.services path → ¬ IsReadWhole setting.answers path →
      r.isDiscounted setting = false → r.IsPerUnit path u → quantity setting.answers path = .ok n →
      (n * u).isFinite → Formula.IsSpelling factor u → Interchangeable setting r (r.scaling path factor) := by
  have hfactor : Formula.IsSpelling (Binary64.ofNat 5).literal (.ofNat 5) :=
    Formula.isSpelling_literal (by decide +kernel)
  have hseats (path : String) : (seatRule path).IsPerUnit path (.ofNat 5) := ⟨rfl, rfl, rfl, by decide +kernel⟩
  have hnot (fields : List (String × Json)) (path : String) (h : path.toList.contains '.' = false) :
      ¬ IsReadWhole (.object fields) path := fun hwhole => Bool.false_ne_true (h.symm.trans hwhole.1)
  refine ⟨fun hclaim => ?_, fun hclaim => ?_, fun hclaim => ?_⟩
  · have hname : IsAnswerName {} [] "a.b" := by decide +kernel
    have hsame := hclaim [("a.b", .int 5)] "a.b" [] {} (by decide) (by decide +kernel) hname .empty none {}
    have happart := congrArg Except.toOption hsame
    revert happart
    decide +kernel
  · have hsame := (hclaim ⟨.object [("seats", .int 2)], [], some ["advisory"], {}⟩ (seatRule "seats") "seats" _ _
      (Json.int 2).number (by decide) (by decide +kernel) (by decide +kernel) (hnot _ _ (by decide)) (by decide)
      (hseats "seats") rfl (by decide +kernel) hfactor).prices_eq
    revert hsame
    decide +kernel
  · have hsame := (hclaim ⟨.object [("a\x7db", .int 2)], [], none, {}⟩ (seatRule "a\x7db") "a\x7db" _ _
      (Json.int 2).number (by decide) (by decide +kernel) (by decide +kernel) (hnot _ _ (by decide)) (by decide +kernel)
      (hseats "a\x7db") rfl (by decide +kernel) hfactor).prices_eq
    revert hsame
    decide +kernel

end Rule
end Tariff
