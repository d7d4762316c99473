/-
# What stops a pass

A formula that fails counts zero and the pass goes on. But a rule can also stop the whole pass, and then
no rule of the catalog has an outcome. It does so in one of these ways (`Rule.Stops`) and in no other:

| what | stops if |
| --- | --- |
| the trigger, unless the rule is refused before | its path is blocked |
| a placeholder of a formula that applies | its path is blocked, or it is a total beyond cents |
| the quantity of a per-unit rule that applies | its path is blocked |
| the price of a rule that applies | it is beyond cents when it is within its bounds |

A path is blocked where a key such as `²` goes into a list (`Json.Blocked`), and an amount is beyond cents
from `10 ^ 26` on (`Binary64.IsBeyondCents`).
-/

import Tariff.Proofs.Answers
import Tariff.Proofs.Number.Cents
import Tariff.Proofs.Pricing.Lookup
import Tariff.Proofs.Pricing.Step

namespace Tariff

/-- Rounding to cents stops a calculation just from `10 ^ 26` on, and says which number could not be rounded. -/
theorem cents_eq_error_iff {x : Binary64} {h : Halt} :
    cents x = .error h ↔ x.IsBeyondCents ∧ h = .unroundable x := by
  rw [← x.roundMoney_eq_none_iff, cents]
  cases x.roundMoney with
  | some y => simp
  | none => simp [eq_comm]

/-- Rounding to cents stops a calculation just at numbers that would have more than 28 digits with their cents.
-/
theorem exists_cents_eq_error_iff {x : Binary64} : (∃ h, cents x = .error h) ↔ x.IsBeyondCents := by
  simp [cents_eq_error_iff]

/-! ### Variables -/

namespace Ledger

/-- A total stops a calculation just if the prices that it counts add up to more than can be rounded to cents.
The minimum fee comes in afterwards, so it neither causes nor prevents this. -/
theorem exists_serviceTotal_eq_error_iff {l : Ledger} {service : String} {f : Filter} :
    (∃ h, l.serviceTotal service f = .error h) ↔
      (Binary64.sum ((l.counted service f).map Price.value)).IsBeyondCents := by
  rw [← exists_cents_eq_error_iff]
  refine exists_bind_eq_error_iff_of_isOk fun total => ?_
  dsimp only
  by_cases hlow : f.minimumFee.isPositive && total.lt f.minimumFee
  · rw [if_pos hlow]
    rfl
  · rw [if_neg hlow]
    rfl

/-- The recurring rate stops a calculation just if it is taken from prices, which means that they add up to
something positive, and that sum cannot be rounded. -/
theorem exists_recurringRate_eq_error_iff {l : Ledger} {tag : String} (fallback : Binary64) :
    (∃ h, l.recurringRate tag fallback = .error h) ↔
      (Binary64.sum ((l.tagged tag).map Price.value)).isPositive ∧
        (Binary64.sum ((l.tagged tag).map Price.value)).IsBeyondCents := by
  rw [← exists_cents_eq_error_iff]
  unfold recurringRate
  dsimp only
  split
  · rename_i hpositive
    simp only [hpositive, true_and]
    exact exists_bind_eq_error_iff_of_isOk fun rate => rfl
  · rename_i hpositive
    simp [pure, Except.pure, hpositive]

end Ledger

namespace Sources

variable {s : Sources} {name : String}

/-- How looking up a trimmed name stops a calculation. -/
inductive Stops (s : Sources) (name : String) : Prop where
  | rate (hrule : afterPrefix? s.terms.rulePrefix name = none) (hname : name = s.terms.rateName)
      (hpositive : (Binary64.sum ((s.ledger.tagged s.terms.rateTag).map Price.value)).isPositive)
      (h : (Binary64.sum ((s.ledger.tagged s.terms.rateTag).map Price.value)).IsBeyondCents)
  | total {row : Service} (hrule : afterPrefix? s.terms.rulePrefix name = none)
      (hname : name ≠ s.terms.rateName) (hrow : s.totalNamed? name = some row)
      (h : (Binary64.sum ((s.ledger.counted row.id row.effectiveFilter).map Price.value)).IsBeyondCents)
  | answer (hrule : afterPrefix? s.terms.rulePrefix name = none) (hname : name ≠ s.terms.rateName)
      (hrow : s.totalNamed? name = none) (hpath : name.toList.contains '.')
      (h : Json.Blocked (pathKeys name) s.answers)

/-- An answer stops a calculation just if its name is a path that is blocked; a name without a point is looked
up whole and never stops. -/
theorem exists_answer?_eq_error_iff :
    (∃ h, s.answer? name = .error h) ↔
      name.toList.contains '.' ∧ Json.Blocked (pathKeys name) s.answers := by
  rw [← Json.exists_atPath_eq_error_iff]
  unfold answer?
  dsimp only
  by_cases hpath : name.toList.contains '.'
  · simp only [hpath, true_and]
    refine exists_bind_eq_error_iff_of_isOk fun nested => ?_
    split
    · split <;> rfl
    · split <;> rfl
    · rfl
  · simp only [hpath, Bool.false_eq_true, ↓reduceIte, false_and, iff_false]
    rintro ⟨h, hno⟩
    revert hno
    cases s.answers.get? name with
    | none => nofun
    | some v => cases v <;> nofun

/-- **What stops a lookup**: the total or the rate that the name stands for, or a blocked path if it stands for
an answer. References to rules never do. -/
theorem exists_find_eq_halt_iff : (∃ h, s.find name = .error (.halt h)) ↔ s.Stops name := by
  constructor
  · rintro ⟨h, hfind⟩
    -- Where the name is looked up decides what can stop it; a reference is found in the ledger or has no price.
    cases s.place name with
    | reference hrule =>
      rw [find_of_reference hrule] at hfind
      split at hfind <;> simp at hfind
    | rate hrule hname =>
      rw [find_of_rate hrule hname] at hfind
      split at hfind
      · simp at hfind
      · rename_i hrate
        obtain ⟨hpositive, hbeyond⟩ := (Ledger.exists_recurringRate_eq_error_iff _).1 ⟨_, hrate⟩
        exact .rate hrule hname hpositive hbeyond
    | total hrule hname hrow =>
      rw [find_of_total hrule hname hrow] at hfind
      split at hfind
      · simp at hfind
      · rename_i htotal
        exact .total hrule hname hrow (Ledger.exists_serviceTotal_eq_error_iff.1 ⟨_, htotal⟩)
    | answer hname =>
      rw [find_of_answer hname] at hfind
      split at hfind
      · simp at hfind
      · simp at hfind
      · rename_i hanswer
        obtain ⟨hpath, hblocked⟩ := exists_answer?_eq_error_iff.1 ⟨_, hanswer⟩
        exact .answer hname.1 hname.2.1 (totalNamed?_eq_none_iff.2 hname.2.2) hpath hblocked
  · rintro (⟨hrule, hname, hpositive, h⟩ | ⟨hrule, hname, hrow, h⟩ | ⟨hrule, hname, hrow, hpath, h⟩)
    · obtain ⟨halt, hrate⟩ := (Ledger.exists_recurringRate_eq_error_iff s.terms.rateFallback).2
        ⟨hpositive, h⟩
      exact ⟨halt, by rw [find_of_rate hrule hname, hrate]⟩
    · obtain ⟨halt, htotal⟩ := Ledger.exists_serviceTotal_eq_error_iff.2 h
      exact ⟨halt, by rw [find_of_total hrule hname hrow, htotal]⟩
    · obtain ⟨halt, hanswer⟩ := exists_answer?_eq_error_iff.2 ⟨hpath, h⟩
      exact ⟨halt, by rw [find_of_answer ⟨hrule, hname, totalNamed?_eq_none_iff.1 hrow⟩, hanswer]⟩

/-- A placeholder stops a calculation just if the lookup of its name, trimmed, does; a name without a number has
zero instead. -/
theorem exists_resolve_eq_error_iff (name : String) (ruleId : Option String) (j : Journal) :
    (∃ h, s.resolve name ruleId j = .error h) ↔ s.Stops (trim name) := by
  rw [← exists_find_eq_halt_iff]
  refine exists_congr fun h => ?_
  rw [resolve_eq]
  cases s.find (trim name) with
  | ok found => simp
  | error fault => cases fault <;> simp

/-- The placeholders of a formula stop a calculation just if one of them does. What is noted for those before it
makes no difference, since a lookup does not read the journal. -/
theorem exists_resolveAll_eq_error_iff (ruleId : Option String) (names : List String) (j : Journal) :
    (∃ h, s.resolveAll ruleId names j = .error h) ↔ ∃ name ∈ names, s.Stops (trim name) := by
  induction names generalizing j with
  | nil => simp [resolveAll]
  | cons name names ih =>
    have hfirst := exists_resolve_eq_error_iff (s := s) name ruleId j
    rw [resolveAll]
    simp only [List.mem_cons, exists_eq_or_imp, ← hfirst]
    cases s.resolve name ruleId j with
    | error h => simp [error_bind]
    | ok found =>
      simp only [ok_bind, reduceCtorEq, exists_false, false_or]
      rw [← ih found.2]
      exact exists_bind_eq_error_iff_of_isOk fun _ => rfl

end Sources

/-! ### Rules -/

namespace Rule

variable {r : Rule} {setting : Setting}

/-- Whether a rule gets as far as its trigger: it is active and its service is not refused. -/
def isOffered (r : Rule) (selection : Selection) : Bool :=
  r.isActive && (r.serviceCheck selection).all Verdict.applies

/-- A trigger stops a calculation just if the path to its answer is blocked: no operator fails on an answer,
whatever it holds. -/
theorem exists_holds_eq_error_iff {answers : Json} {field required operator : String} :
    (∃ h, Trigger.holds answers field required operator = .error h) ↔
      Json.Blocked (pathKeys field) answers := by
  rw [← Json.exists_atPath_eq_error_iff]
  refine exists_bind_eq_error_iff_of_isOk fun found => ?_
  split <;> rfl

/-- The check of a trigger stops a calculation just if there is a trigger and its path is blocked. -/
theorem exists_triggerCheck_eq_error_iff {answers : Json} :
    (∃ h, r.triggerCheck answers = .error h) ↔
      ∃ field operator, r.trigger? = some (field, operator) ∧ Json.Blocked (pathKeys field) answers := by
  unfold triggerCheck
  cases r.trigger? with
  | none => simp
  | some trigger =>
    obtain ⟨field, operator⟩ := trigger
    refine (exists_bind_eq_error_iff_of_isOk fun _ => rfl).trans (exists_holds_eq_error_iff.trans ?_)
    constructor
    · exact fun hblocked => ⟨field, operator, rfl, hblocked⟩
    · rintro ⟨_, _, ⟨⟩, hblocked⟩
      exact hblocked

/-- Whether a rule applies cannot be said just if its service lets it through and the path of its trigger is
blocked. The service is looked at first. -/
theorem exists_verdict_eq_error_iff {selection : Selection} {answers : Json} :
    (∃ h, r.verdict selection answers = .error h) ↔ r.isOffered selection ∧
      ∃ field operator, r.trigger? = some (field, operator) ∧ Json.Blocked (pathKeys field) answers := by
  rw [← exists_triggerCheck_eq_error_iff]
  unfold verdict isOffered
  cases r.isActive with
  | false => simp
  | true =>
    match r.serviceCheck selection with
    | some ⟨false, reason⟩ => simp
    | some ⟨true, reason⟩ =>
      simp only [Bool.not_true, Bool.false_eq_true, ↓reduceIte, Option.all_some, Bool.and_self, true_and]
      refine exists_bind_eq_error_iff_of_isOk fun byTrigger => ?_
      split <;> rfl
    | none =>
      simp only [Bool.not_true, Bool.false_eq_true, ↓reduceIte, Option.all_none, Bool.and_self, true_and]
      refine exists_bind_eq_error_iff_of_isOk fun byTrigger => ?_
      split <;> rfl

/-- Whether a rule applies. -/
def Applies (r : Rule) (setting : Setting) : Prop :=
  ∃ verdict, r.verdict setting.selection setting.answers = .ok verdict ∧ verdict.applies

theorem placeholders_eq_nil {source : String} (h : source.isEmpty) : Formula.placeholders source = [] := by
  rw [String.isEmpty_iff.1 h]
  decide +kernel

/-- Pricing by formula stops a calculation just if a placeholder does. A formula that cannot be read or has no
finite value makes the rule fail, and the calculation goes on. -/
theorem exists_byFormula_eq_error_iff {s : Sources} {j : Journal} :
    (∃ h, r.byFormula s j = .error h) ↔
      ∃ name ∈ Formula.placeholders (trim r.formula), s.Stops (trim name) := by
  unfold byFormula
  dsimp only
  by_cases hempty : (trim r.formula).isEmpty
  · rw [if_pos hempty, placeholders_eq_nil hempty]
    simp
  · rw [if_neg hempty, ← Sources.exists_resolveAll_eq_error_iff (some r.id) _ j]
    refine exists_bind_eq_error_iff_of_isOk fun found => ?_
    split <;> rfl

/-- Pricing per unit stops a calculation just if the path to the quantity is blocked. -/
theorem exists_byUnit_eq_error_iff {answers : Json} :
    (∃ h, r.byUnit answers = .error h) ↔
      ∃ field unit, r.unitTerms? = some (field, unit) ∧ Json.Blocked (pathKeys field) answers := by
  unfold byUnit
  cases r.unitTerms? with
  | none => simp
  | some terms =>
    obtain ⟨field, unit⟩ := terms
    have hquantity : (∃ h, quantity answers field = .error h) ↔ Json.Blocked (pathKeys field) answers := by
      rw [← Json.exists_atPath_eq_error_iff]
      exact exists_bind_eq_error_iff_of_isOk fun found => rfl
    refine (exists_bind_eq_error_iff_of_isOk fun _ => rfl).trans (hquantity.trans ?_)
    constructor
    · exact fun hblocked => ⟨field, unit, rfl, hblocked⟩
    · rintro ⟨_, _, ⟨⟩, hblocked⟩
      exact hblocked

/-- The full amount of a rule stops a calculation just if it is priced per unit and the path to the quantity is
blocked. -/
theorem exists_undiscounted_eq_error_iff {answers : Json} {j : Journal} :
    (∃ h, r.undiscounted answers j = .error h) ↔ Method.ofName? r.method = some .perUnit ∧
      ∃ field unit, r.unitTerms? = some (field, unit) ∧ Json.Blocked (pathKeys field) answers := by
  rw [← exists_byUnit_eq_error_iff]
  unfold undiscounted
  split
  · rename_i hmethod
    simp only [hmethod, true_and]
    exact exists_bind_eq_error_iff_of_isOk fun price => rfl
  · rename_i hmethod
    simp [hmethod]
  · rename_i hunit hsimple
    simp only [reduceCtorEq, exists_false, false_iff]
    exact fun h => hunit h.1

/-- Taking the discount off stops nothing, so with it the amount stops a calculation just where the full amount
does. -/
theorem exists_byMethod_eq_error_iff {j : Journal} :
    (∃ h, r.byMethod setting j = .error h) ↔ Method.ofName? r.method = some .perUnit ∧
      ∃ field unit, r.unitTerms? = some (field, unit) ∧ Json.Blocked (pathKeys field) setting.answers := by
  rw [← exists_undiscounted_eq_error_iff (j := j)]
  refine exists_bind_eq_error_iff_of_isOk fun ⟨price, j⟩ => ?_
  dsimp only
  split <;> rfl

/-- How a rule stops the pass that comes to it. -/
inductive Stops (r : Rule) (setting : Setting) (p : Pass) : Prop where
  | trigger {field operator : String} (hoffered : r.isOffered setting.selection)
      (htrigger : r.trigger? = some (field, operator)) (h : Json.Blocked (pathKeys field) setting.answers)
  | placeholder {name : String} (happlies : r.Applies setting)
      (hmethod : Method.ofName? r.method = some .formula)
      (hname : name ∈ Formula.placeholders (trim r.formula))
      (h : Sources.Stops ⟨setting.answers, p.ledger, setting.services, setting.terms⟩ (trim name))
  | quantity {field : String} {unit : Binary64} (happlies : r.Applies setting)
      (hmethod : Method.ofName? r.method = some .perUnit) (hunit : r.unitTerms? = some (field, unit))
      (h : Json.Blocked (pathKeys field) setting.answers)
  | amount {raw : Raw} (happlies : r.Applies setting)
      (hraw : r.raw setting p.ledger p.journal = .ok raw)
      (h : (clamp r.lowest r.highest raw.value).IsBeyondCents)

/-- **What stops the price of a rule before it is rounded**: a placeholder, if it is priced by formula, or a
blocked path to the quantity, if it is priced per unit. -/
theorem exists_raw_eq_error_iff {ledger : Ledger} {j : Journal} :
    (∃ h, r.raw setting ledger j = .error h) ↔
      (Method.ofName? r.method = some .formula ∧ ∃ name ∈ Formula.placeholders (trim r.formula),
        Sources.Stops ⟨setting.answers, ledger, setting.services, setting.terms⟩ (trim name)) ∨
      Method.ofName? r.method = some .perUnit ∧ ∃ field unit, r.unitTerms? = some (field, unit) ∧
        Json.Blocked (pathKeys field) setting.answers := by
  unfold raw
  split
  · rename_i hmethod
    rw [exists_byFormula_eq_error_iff]
    simp [hmethod]
  · rename_i hmethod
    rw [exists_byMethod_eq_error_iff]
    simp [hmethod]

/-- **A rule stops a pass in three ways**: it cannot be said whether it applies, its price cannot be found, or
the price cannot be rounded to cents after clamping. -/
theorem stops_iff {p : Pass} :
    r.Stops setting p ↔ (∃ h, r.verdict setting.selection setting.answers = .error h) ∨
      r.Applies setting ∧ ((∃ h, r.raw setting p.ledger p.journal = .error h) ∨
        ∃ raw, r.raw setting p.ledger p.journal = .ok raw ∧
          (clamp r.lowest r.highest raw.value).IsBeyondCents) := by
  rw [exists_verdict_eq_error_iff, exists_raw_eq_error_iff]
  constructor
  · intro hstops
    cases hstops with
    | trigger hoffered htrigger hblocked => exact .inl ⟨hoffered, _, _, htrigger, hblocked⟩
    | placeholder happlies hmethod hname h => exact .inr ⟨happlies, .inl (.inl ⟨hmethod, _, hname, h⟩)⟩
    | quantity happlies hmethod hunit hblocked =>
      exact .inr ⟨happlies, .inl (.inr ⟨hmethod, _, _, hunit, hblocked⟩)⟩
    | amount happlies hraw hbeyond => exact .inr ⟨happlies, .inr ⟨_, hraw, hbeyond⟩⟩
  · rintro (⟨hoffered, _, _, htrigger, hblocked⟩ |
      ⟨happlies, (⟨hmethod, _, hname, h⟩ | ⟨hmethod, _, _, hunit, hblocked⟩) | ⟨_, hraw, hbeyond⟩⟩)
    · exact .trigger hoffered htrigger hblocked
    · exact .placeholder happlies hmethod hname h
    · exact .quantity happlies hmethod hunit hblocked
    · exact .amount happlies hraw hbeyond

end Rule

namespace Pass

variable {setting : Setting} {p : Pass} {r : Rule}

/-- Entering a price stops a pass just if the price cannot be found or, once clamped, cannot be rounded. -/
theorem exists_price_eq_error_iff {reason : String} {hnew : p.ledger.has r.id = false} :
    (∃ h, p.price setting r reason hnew = .error h) ↔
      (∃ h, r.raw setting p.ledger p.journal = .error h) ∨
        ∃ raw, r.raw setting p.ledger p.journal = .ok raw ∧
          (Rule.clamp r.lowest r.highest raw.value).IsBeyondCents := by
  unfold price
  cases r.raw setting p.ledger p.journal with
  | error h => simp [error_bind]
  | ok raw =>
    simp only [ok_bind, reduceCtorEq, exists_false, false_or, Except.ok.injEq, exists_eq_left']
    rw [← exists_cents_eq_error_iff]
    exact exists_bind_eq_error_iff_of_isOk fun value => rfl

/-- **A step stops the pass just if its rule is new and stops it.** A rule whose id has come up is passed over
before anything of it is looked at. -/
theorem exists_step_eq_error_iff :
    (∃ h, step setting p r = .error h) ↔ p.hasSeen r.id = false ∧ r.Stops setting p := by
  unfold step
  by_cases hseen : p.hasSeen r.id
  · rw [dif_pos hseen]
    simp [hseen]
  rw [dif_neg hseen, exists_bind_eq_error_iff, Rule.stops_iff]
  rw [Bool.not_eq_true] at hseen
  simp only [hseen, true_and]
  refine or_congr_right ⟨?_, ?_⟩
  · rintro ⟨verdict, hv, herror⟩
    split at herror
    · rename_i happlies
      exact ⟨⟨verdict, hv, happlies⟩, exists_price_eq_error_iff.1 herror⟩
    · simp [pure, Except.pure] at herror
  · rintro ⟨⟨verdict, hv, happlies⟩, hprice⟩
    refine ⟨verdict, hv, ?_⟩
    rw [if_pos happlies]
    exact exists_price_eq_error_iff.2 hprice

/-- Going on with a pass that nothing stops. -/
theorem exists_foldlM_step (earlier : List Rule) {rules : List Rule} (hrun : run setting earlier = .ok p)
    (h : ∀ before r after q, earlier ++ rules = before ++ r :: after → run setting before = .ok q →
      r.id ∉ before.map Rule.id → ¬ r.Stops setting q) :
    ∃ p', rules.foldlM (step setting) p = .ok p' := by
  induction rules generalizing p earlier with
  | nil => exact ⟨p, rfl⟩
  | cons r rules ih =>
    cases hstep : step setting p r with
    | error halt =>
      obtain ⟨hnew, hstops⟩ := exists_step_eq_error_iff.1 ⟨halt, hstep⟩
      exact absurd hstops (h earlier r rules p rfl hrun ((hasSeen_eq_false_iff hrun).1 hnew))
    | ok q =>
      have hrunq := run_concat_eq_ok_iff.2 ⟨p, hrun, step_eq_ok_iff.1 hstep⟩
      obtain ⟨p', hp'⟩ := ih (earlier ++ [r]) hrunq (by simpa using h)
      exact ⟨p', by rw [List.foldlM_cons, hstep, ok_bind, hp']⟩

/-- **A pass returns, with one outcome for each rule id, just if no rule stops it** when it comes to a
rule with a new id. -/
theorem exists_run_iff (setting : Setting) (rules : List Rule) :
    (∃ p, run setting rules = .ok p ∧ p.outcomes.map Prod.fst = Formula.firsts (rules.map Rule.id)) ↔
      ∀ earlier r later p, rules = earlier ++ r :: later → run setting earlier = .ok p →
        r.id ∉ earlier.map Rule.id → ¬ r.Stops setting p := by
  constructor
  · rintro ⟨p', hp', -⟩ earlier r later p rfl hrun hnew hstops
    obtain ⟨halt, hstep⟩ := exists_step_eq_error_iff.2 ⟨(hasSeen_eq_false_iff hrun).2 hnew, hstops⟩
    rw [run_append, hrun] at hp'
    have hrest : (r :: later).foldlM (step setting) p = .ok p' := hp'
    rw [List.foldlM_cons] at hrest
    obtain ⟨q, hq, -⟩ := bind_eq_ok_iff.1 hrest
    simp [hstep] at hq
  · intro h
    obtain ⟨p, hp⟩ := exists_foldlM_step [] rfl h
    exact ⟨p, hp, ids_of_run hp⟩

/-- **One rule may take the results of all others away:** the first rule here is priced beyond cents, and
the second has no outcome. -/
theorem not_forall_exists_run : ¬ ∀ (setting : Setting) (rules : List Rule), ∃ p,
    run setting rules = .ok p ∧ p.outcomes.map Prod.fst = Formula.firsts (rules.map Rule.id) := by
  intro hclaim
  obtain ⟨p, hp, -⟩ := hclaim ⟨.object [], [], none, {}⟩
    [{ id := "a", method := "simple", basePrice := Decimal.toBinary64 ⟨false, 1, 30⟩ },
      { id := "b", formula := "1" }]
  have hread := isOk_iff.2 ⟨p, hp⟩
  revert hread
  decide +kernel

end Pass
end Tariff
