/-
# Where a name is looked up

A name is looked up in the first of four places that fits (`Sources.Place`), and each place has a law of what is
found there. Whatever is proved of a lookup goes through these cases.

| place | fits | what is found |
| --- | --- | --- |
| `reference` | the name begins with the rule prefix | the price of that rule |
| `rate` | it is the recurring rate's | the recurring rate |
| `total` | it is the total of a service row | that total |
| `answer` | any other | the answer of that name |
-/

import Tariff.Pricing.Variable
import Tariff.Proofs.Outcome

namespace Tariff

/-- A name that answers may give a number: no reference to a rule, not the recurring rate's and no total. -/
def IsAnswerName (terms : Terms) (services : List Service) (name : String) : Prop :=
  Sources.afterPrefix? terms.rulePrefix name = none ∧ name ≠ terms.rateName ∧
    ∀ row ∈ services, nonEmpty? row.total ≠ some name

instance (terms : Terms) (services : List Service) (name : String) :
    Decidable (IsAnswerName terms services name) :=
  inferInstanceAs (Decidable (_ ∧ _ ∧ _))

namespace Sources

variable {s : Sources} {name : String}

/-- The place where a name is looked up. -/
inductive Place (s : Sources) (name : String) : Prop where
  | reference {id : String} (h : afterPrefix? s.terms.rulePrefix name = some id)
  | rate (hrule : afterPrefix? s.terms.rulePrefix name = none) (hname : name = s.terms.rateName)
  | total {row : Service} (hrule : afterPrefix? s.terms.rulePrefix name = none)
      (hname : name ≠ s.terms.rateName) (hrow : s.totalNamed? name = some row)
  | answer (h : IsAnswerName s.terms s.services name)

/-- A name is that of no total just if no service, active or not, reports its total under it. -/
theorem totalNamed?_eq_none_iff :
    s.totalNamed? name = none ↔ ∀ row ∈ s.services, nonEmpty? row.total ≠ some name := by
  simp [totalNamed?]

/-- **A name has its place.** It refers to a rule, or is the name of the rate, or of a total, or of an answer;
each of these is what the ones before it are not. -/
theorem place (s : Sources) (name : String) : s.Place name := by
  cases hrule : afterPrefix? s.terms.rulePrefix name with
  | some id => exact .reference hrule
  | none =>
    by_cases hname : name = s.terms.rateName
    · exact .rate hrule hname
    · cases hrow : s.totalNamed? name with
      | some row => exact .total hrule hname hrow
      | none => exact .answer ⟨hrule, hname, totalNamed?_eq_none_iff.1 hrow⟩

/-- A reference to a rule is looked up in the ledger, before anything else of that name. -/
theorem find_of_reference {id : String} (h : afterPrefix? s.terms.rulePrefix name = some id) :
    s.find name = match s.ledger.find? id with
      | some price => .ok ⟨price.value, "computed price", []⟩
      | none => .error (.unresolved (.notPriced name id)) := by
  cases hprice : s.ledger.find? id with
  | some price => simp only [find, h, hprice]
  | none => simp only [find, h, hprice]

/-- The name of the recurring rate comes second. -/
theorem find_of_rate (hrule : afterPrefix? s.terms.rulePrefix name = none) (hname : name = s.terms.rateName) :
    s.find name = match s.ledger.recurringRate s.terms.rateTag s.terms.rateFallback with
      | .ok (rate, entries) => .ok ⟨rate, "recurring rate", entries⟩
      | .error halt => .error (.halt halt) := by
  cases hrate : s.ledger.recurringRate s.terms.rateTag s.terms.rateFallback with
  | ok rate => simp only [find, hrule, if_pos hname, hrate]
  | error halt => simp only [find, hrule, if_pos hname, hrate]

/-- The name of a total comes third; the first service of the catalog with that name has it. -/
theorem find_of_total {row : Service} (hrule : afterPrefix? s.terms.rulePrefix name = none)
    (hname : name ≠ s.terms.rateName) (hrow : s.totalNamed? name = some row) :
    s.find name = match s.ledger.serviceTotal row.id row.effectiveFilter with
      | .ok (total, entries) => .ok ⟨total, "service total (" ++ row.id ++ ")", entries⟩
      | .error halt => .error (.halt halt) := by
  cases htotal : s.ledger.serviceTotal row.id row.effectiveFilter with
  | ok total => simp only [find, hrule, if_neg hname, hrow, htotal]
  | error halt => simp only [find, hrule, if_neg hname, hrow, htotal]

/-- Any other name is looked up among the answers. -/
theorem find_of_answer (h : IsAnswerName s.terms s.services name) :
    s.find name = match s.answer? name with
      | .ok (some v) => .ok ⟨v.number, "answers", []⟩
      | .ok none => .error (.unresolved (.unknown name))
      | .error halt => .error (.halt halt) := by
  obtain ⟨hrule, hname, htotal⟩ := h
  have hrow := totalNamed?_eq_none_iff.2 htotal
  cases hanswer : s.answer? name with
  | error halt => simp only [find, hrule, if_neg hname, hrow, hanswer]
  | ok found =>
    cases found with
    | some v => simp only [find, hrule, if_neg hname, hrow, hanswer]
    | none => simp only [find, hrule, if_neg hname, hrow, hanswer]

/-! ### Answers -/

/-- An answer that is there, where null is none. -/
def given : Option Json → Option Json
  | none | some .null => none
  | found => found

/-- An answer is given if it is there and not null. -/
theorem given_eq_some_iff {found : Option Json} {v : Json} : given found = some v ↔ found = some v ∧ v ≠ .null := by
  cases found with
  | none => simp [given]
  | some w =>
    cases w with
    | null =>
      simp only [given, reduceCtorEq, Option.some.injEq, false_iff, not_and, Classical.not_not]
      exact Eq.symm
    | _ =>
      simp only [given, Option.some.injEq]
      exact ⟨fun h => ⟨h, by rintro rfl; cases h⟩, And.left⟩

/-- A name without a point is the name of an answer. -/
theorem answer?_of_no_point (h : ¬ name.toList.contains '.') : s.answer? name = .ok (given (s.answers.get? name)) := by
  unfold answer? given
  rw [if_neg h, pure_bind]
  rcases s.answers.get? name with _ | (_ | _) <;> rfl

/-- Where a walk stops, so does the lookup: a field with the whole name is not tried then. -/
theorem answer?_of_point_error (h : name.toList.contains '.') {halt : Halt}
    (hpath : s.answers.atPath name = .error halt) : s.answer? name = .error halt := by
  unfold answer?
  rw [if_pos h, hpath, error_bind]

/-- A path is walked, and where it leads to nothing it is tried as the name of an answer. -/
theorem answer?_of_point (h : name.toList.contains '.') {nested : Option Json}
    (hnested : s.answers.atPath name = .ok nested) :
    s.answer? name = .ok ((given nested).or (given (s.answers.get? name))) := by
  unfold answer?
  rw [if_pos h, hnested, ok_bind]
  rcases nested with _ | nested
  · rcases s.answers.get? name with _ | (_ | _) <;> rfl
  · cases nested with
    | null => rcases s.answers.get? name with _ | (_ | _) <;> rfl
    | _ => rfl

/-! ### Names -/

/-- **Resolving a name is finding the number of the trimmed name,** or zero with a warning. Only what stops a
calculation is handed on. -/
theorem resolve_eq (s : Sources) (name : String) (ruleId : Option String) (j : Journal) :
    s.resolve name ruleId j = match s.find (trim name) with
      | .ok found => .ok (found.value, j.record (found.entries ++
          [⟨"Resolve", braced (trim name) ++ " from " ++ found.source, some found.value.brief, ruleId⟩]))
      | .error (.halt h) => .error h
      | .error (.unresolved u) =>
        .ok (.zero, (j.warn u.message).record [⟨u.kind, braced name ++ " defaulted", some "0", ruleId⟩]) := by
  unfold resolve resolveStrict
  dsimp only
  cases s.find (trim name) with
  | ok found => rfl
  | error fault => cases fault <;> rfl

/-- Several names are resolved one after the other. -/
theorem resolveAll_cons_eq_ok_iff {names : List String} {ruleId : Option String} {j k : Journal}
    {values : List (String × Binary64)} : s.resolveAll ruleId (name :: names) j = .ok (values, k) ↔
      ∃ x xs j', s.resolve name ruleId j = .ok (x, j') ∧ s.resolveAll ruleId names j' = .ok (xs, k) ∧
        values = (name, x) :: xs := by
  constructor
  · intro h
    obtain ⟨⟨x, j'⟩, hx, h⟩ := bind_eq_ok_iff.1 h
    obtain ⟨⟨xs, k'⟩, hxs, h⟩ := bind_eq_ok_iff.1 h
    obtain ⟨rfl, rfl⟩ := Prod.mk.inj (Except.ok.inj h)
    exact ⟨x, xs, j', hx, hxs, rfl⟩
  · rintro ⟨x, xs, j', hx, hxs, rfl⟩
    exact bind_eq_ok_iff.2 ⟨(x, j'), hx, bind_eq_ok_iff.2 ⟨(xs, k), hxs, rfl⟩⟩

end Sources
end Tariff
