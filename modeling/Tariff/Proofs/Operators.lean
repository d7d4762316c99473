/-
# The operators of a trigger agree with each other

Eleven operators ask about one answer, and what one of them says binds the others:

| the answer found | what holds |
| --- | --- |
| any | one of `isEmpty` and `isNotEmpty` |
| none, null, empty text or an empty list | `isEmpty` and nothing else |
| any other | one of `equals`, `notEquals` and one of `contains`, `notContains`; `includes` with `contains` |
| an amount, as the requirement is | one of `lessThan` and `greaterThanOrEqual`, one of `greaterThan` and `lessThanOrEqual` |
| no amount, or none required | none of these four |

So every operator but `includes` has an opposite, and an answer that is there meets one of the two
(`Trigger.met_opposite`). For comparisons this needs two amounts, neither of them `nan`: the digits, points and hyphens
that are left of a text name no number, and what they write is a decimal (`Trigger.isNan_of_amount?`).
-/

import Tariff.Proofs.Amounts

namespace Tariff

/-- The number next to a decimal is finite or infinite. -/
theorem Decimal.isNan_toBinary64 (d : Decimal) : d.toBinary64.isNan = false := by
  have hratio (num den : Nat) : (Binary64.ofRatio d.negative num den).isNan = false := by
    unfold Binary64.ofRatio
    split <;> rfl
  unfold toBinary64
  repeat' split
  all_goals first | rfl | exact hratio _ _

/-! ### Opposites -/

namespace Comparison

def opposite : Comparison → Comparison
  | less => atLeast
  | atMost => greater
  | greater => atMost
  | atLeast => less

/-- Of two opposite comparisons of numbers exactly one holds. -/
theorem holds_opposite {x y : Binary64} (hx : x.isNan = false) (hy : y.isNan = false) (c : Comparison) :
    c.opposite.holds x y = !c.holds x y := by
  cases c with
  | less => simp [opposite, holds, Binary64.lt_eq_not_le hx hy]
  | atMost => simp [opposite, holds, Binary64.lt_eq_not_le hy hx]
  | greater => simp [opposite, holds, Binary64.lt_eq_not_le hy hx]
  | atLeast => simp [opposite, holds, Binary64.lt_eq_not_le hx hy]

end Comparison

/-- The operator that asks for the contrary; `includes` is another word for `contains`. -/
def Operator.opposite : Operator → Operator
  | isEmpty => isNotEmpty
  | isNotEmpty => isEmpty
  | equals => notEquals
  | notEquals => equals
  | contains | includes => notContains
  | notContains => contains
  | compares c => compares c.opposite

namespace Trigger

/-- **No amount is `nan`.** -/
theorem isNan_of_amount? {s : String} {x : Binary64} (h : amount? s = some x) : x.isNan = false := by
  rw [amount?_eq, Option.map_eq_some_iff] at h
  obtain ⟨d, -, rfl⟩ := h
  exact d.isNan_toBinary64

/-- Without two amounts no comparison holds. -/
theorem met_compares_eq_false {required : String} {v : Json}
    (h : amount? v.wording = none ∨ amount? required = none) (c : Comparison) :
    met (.compares c) required v = false := by
  rcases h with h | h
  · exact met_compares_of_none h required c
  · cases hx : amount? v.wording <;> simp [met, hx, h]

/-- An operator that no comparison is, or one between two amounts. -/
def Settles (op : Operator) (required : String) (v : Json) : Prop :=
  ∀ c, op = .compares c → (amount? v.wording).isSome ∧ (amount? required).isSome

/-- **An answer meets an operator or its opposite, and not both.** -/
theorem met_opposite {op : Operator} {required : String} {v : Json} (h : Settles op required v) :
    met op.opposite required v = !met op required v := by
  cases op with
  | isEmpty => rfl
  | isNotEmpty => rfl
  | equals => rfl
  | notEquals => simp [Operator.opposite, met]
  | contains => rfl
  | includes => rfl
  | notContains => simp [Operator.opposite, met]
  | compares c =>
    obtain ⟨hx, hy⟩ := h c rfl
    obtain ⟨x, hx⟩ := Option.isSome_iff_exists.1 hx
    obtain ⟨y, hy⟩ := Option.isSome_iff_exists.1 hy
    rw [Operator.opposite, met_compares hx hy, met_compares hx hy,
      Comparison.holds_opposite (isNan_of_amount? hx) (isNan_of_amount? hy)]

/-- What is below an amount is at most that amount. -/
theorem met_atMost_of_less {required : String} {v : Json} (h : met (.compares .less) required v) :
    met (.compares .atMost) required v := by
  unfold met at h ⊢
  dsimp only at h ⊢
  split at h
  · exact Binary64.le_of_lt h
  · cases h

/-! ### Answers that are there and answers that are not -/

/-- What is no answer is no amount. -/
theorem amount?_of_isUnanswered {v : Json} (h : v.isUnanswered) : amount? v.wording = none := by
  cases v with
  | null => decide +kernel
  | text s =>
    obtain rfl : s = "" := by simpa [Json.isUnanswered] using h
    decide +kernel
  | list items =>
    obtain rfl : items = [] := by simpa [Json.isUnanswered] using h
    decide +kernel
  | bool b => cases h
  | int n => cases h
  | real x => cases h
  | object fields => cases h

/-- Without an answer only `isEmpty` holds. -/
theorem decides_of_unanswered {found : Option Json} (h : found.all Json.isUnanswered) (op : Operator)
    (required : String) : decides op required found = decide (op = .isEmpty) := by
  cases found with
  | none => rfl
  | some v => exact if_pos h

/-- With an answer an operator asks whether the answer meets it. -/
theorem exists_of_answered {found : Option Json} (h : found.all Json.isUnanswered = false) :
    ∃ v, found = some v ∧ ∀ op required, decides op required found = met op required v := by
  cases found with
  | none => cases h
  | some v => exact ⟨v, rfl, fun op required => if_neg (by simpa using h)⟩

/-- `isEmpty` says whether there is no answer, or an empty one. -/
theorem decides_isEmpty (required : String) (found : Option Json) :
    decides .isEmpty required found = found.all Json.isUnanswered := by
  cases h : found.all Json.isUnanswered with
  | true => rw [decides_of_unanswered h, decide_eq_true rfl]
  | false =>
    obtain ⟨v, -, hdecides⟩ := exists_of_answered h
    exact hdecides _ _

/-- `isNotEmpty` says the contrary. -/
theorem decides_isNotEmpty (required : String) (found : Option Json) :
    decides .isNotEmpty required found = !found.all Json.isUnanswered := by
  cases h : found.all Json.isUnanswered with
  | true => rw [decides_of_unanswered h, decide_eq_false (by decide), Bool.not_true]
  | false =>
    obtain ⟨v, -, hdecides⟩ := exists_of_answered h
    exact hdecides _ _

/-- An answer found that is an amount is an answer. -/
theorem decides_of_amount {required : String} {v : Json} (h : (amount? v.wording).isSome) (op : Operator) :
    decides op required (some v) = met op required v := by
  refine if_neg fun hunanswered => ?_
  rw [amount?_of_isUnanswered hunanswered] at h
  cases h

/-! ### All operators together -/

/-- What the operators say of one answer found and one requirement, each under its name. -/
structure Consistent (found : Option Json) (required : String) (tells : String → Bool) : Prop where
  isEmpty : tells "isEmpty" = found.all Json.isUnanswered
  isNotEmpty : tells "isNotEmpty" = !tells "isEmpty"
  unanswered : tells "isEmpty" → ∀ operator ≠ "isEmpty", tells operator = false
  equals : tells "isNotEmpty" → tells "notEquals" = !tells "equals"
  includes : tells "isNotEmpty" → tells "includes" = tells "contains"
  contains : tells "isNotEmpty" → tells "notContains" = !tells "contains"
  compared : ∀ v, found = some v → (amount? v.wording).isSome → (amount? required).isSome →
    tells "greaterThanOrEqual" = !tells "lessThan" ∧ tells "lessThanOrEqual" = !tells "greaterThan" ∧
      (tells "lessThan" → tells "lessThanOrEqual")
  uncompared : ∀ v, found = some v → amount? v.wording = none ∨ amount? required = none →
    ∀ operator ∈ ["lessThan", "lessThanOrEqual", "greaterThan", "greaterThanOrEqual"], tells operator = false
  unknown : ∀ operator ∉ Operator.all.map Operator.name, tells operator = false

/-- What the operator of a name, if there is one, says of an answer found. -/
def verdict (found : Option Json) (required operator : String) : Bool :=
  (Operator.ofName? operator).any fun op => decides op required found

/-- A trigger says what its operator says of the answer found; finding it is all that can fail. -/
theorem holds_eq_verdict {answers : Json} {field : String} {found : Option Json}
    (h : answers.atPath field = .ok found) (required operator : String) :
    holds answers field required operator = .ok (verdict found required operator) := by
  rw [holds, h, ok_bind, verdict]
  cases Operator.ofName? operator <;> rfl

/-- Every operator is found under its own name. -/
theorem verdict_name (found : Option Json) (required : String) (op : Operator) :
    verdict found required op.name = decides op required found := by
  rw [verdict, Operator.ofName?_name, Option.any_some]

/-- Only a name of an operator says anything. -/
theorem exists_of_verdict {found : Option Json} {required operator : String} (h : verdict found required operator) :
    ∃ op : Operator, op ∈ Operator.all ∧ op.name = operator ∧ decides op required found := by
  rw [verdict, Option.any_eq_true] at h
  obtain ⟨op, hname, hdecides⟩ := h
  exact ⟨op, List.mem_of_find?_eq_some hname, by simpa using List.find?_some hname, hdecides⟩

/-- An answer that is there and not empty is what all other operators look at. -/
theorem verdict_of_answered {found : Option Json} (required : String) (h : verdict found required "isNotEmpty") :
    ∃ v, found = some v ∧ ∀ op : Operator, verdict found required op.name = met op required v := by
  have hempty : found.all Json.isUnanswered = false := by
    simpa [show "isNotEmpty" = Operator.isNotEmpty.name from rfl, verdict_name, decides_isNotEmpty] using h
  obtain ⟨v, hv, hdecides⟩ := exists_of_answered hempty
  exact ⟨v, hv, fun op => by rw [verdict_name, hdecides]⟩

/-- Of such an answer an operator and its opposite say contrary things, a comparison if both sides have amounts.
-/
theorem verdict_opposite {found : Option Json} {required : String} {v : Json}
    (htells : ∀ op : Operator, verdict found required op.name = met op required v) (op : Operator)
    (h : Settles op required v) : verdict found required op.opposite.name = !verdict found required op.name := by
  rw [htells, htells, met_opposite h]

/-- **The operators say consistent things of an answer.** By cases: nothing found, an answer that counts as
empty, or another one, with an amount or without. -/
theorem consistent_verdict (found : Option Json) (required : String) :
    Consistent found required (verdict found required) where
  isEmpty := (verdict_name found required .isEmpty).trans (decides_isEmpty required found)
  isNotEmpty := by
    show verdict found required Operator.isNotEmpty.name = !verdict found required Operator.isEmpty.name
    rw [verdict_name, verdict_name, decides_isEmpty, decides_isNotEmpty]
  unanswered := by
    intro hempty operator hother
    rw [show "isEmpty" = Operator.isEmpty.name from rfl, verdict_name, decides_isEmpty] at hempty
    refine Bool.eq_false_iff.2 fun htells => hother ?_
    obtain ⟨op, -, rfl, hdecides⟩ := exists_of_verdict htells
    rw [decides_of_unanswered hempty, decide_eq_true_eq] at hdecides
    rw [hdecides]
    rfl
  equals := by
    intro hanswered
    obtain ⟨v, -, htells⟩ := verdict_of_answered required hanswered
    exact verdict_opposite htells .equals nofun
  includes := by
    intro hanswered
    obtain ⟨v, -, htells⟩ := verdict_of_answered required hanswered
    exact (htells .includes).trans (htells .contains).symm
  contains := by
    intro hanswered
    obtain ⟨v, -, htells⟩ := verdict_of_answered required hanswered
    exact verdict_opposite htells .contains nofun
  compared := by
    rintro v rfl hx hy
    -- An answer with an amount is not empty, so the operators say what is met.
    have htells (op : Operator) : verdict (some v) required op.name = met op required v := by
      rw [verdict_name, decides_of_amount hx]
    refine ⟨verdict_opposite htells (.compares .less) fun _ _ => ⟨hx, hy⟩,
      verdict_opposite htells (.compares .greater) fun _ _ => ⟨hx, hy⟩, fun hless => ?_⟩
    exact (htells (.compares .atMost)).trans (met_atMost_of_less ((htells (.compares .less)).symm.trans hless))
  uncompared := by
    rintro v rfl hamount operator hmem
    -- Where an amount is missing no comparison is met, whichever of the four it is.
    have htells (c : Comparison) : verdict (some v) required (Operator.compares c).name = false := by
      rw [verdict_name, decides]
      split
      · rfl
      · exact met_compares_eq_false hamount c
    simp only [List.mem_cons, List.not_mem_nil, or_false] at hmem
    rcases hmem with rfl | rfl | rfl | rfl
    · exact htells .less
    · exact htells .atMost
    · exact htells .greater
    · exact htells .atLeast
  unknown := by
    intro operator hmem
    refine Bool.eq_false_iff.2 fun htells => hmem ?_
    obtain ⟨op, hop, rfl, -⟩ := exists_of_verdict htells
    exact List.mem_map_of_mem hop

/-- **The trigger operators form a consistent family.** Wherever the path of a trigger field can be walked, every
operator says yes or no, and what they say of the same answer and requirement is consistent. -/
theorem exists_consistent {answers : Json} {field : String} {found : Option Json}
    (h : answers.atPath field = .ok found) (required : String) :
    ∃ tells : String → Bool, (∀ operator, holds answers field required operator = .ok (tells operator)) ∧
      Consistent found required tells :=
  ⟨verdict found required, holds_eq_verdict h required, consistent_verdict found required⟩

/-- An amount of money in a list, at a position. -/
theorem exists_consistent_fees : ∃ tells : String → Bool,
    (∀ operator, holds (.object [("fees", .list [.null, .text "$1,250.00"])]) "fees.1" "1250" operator =
      .ok (tells operator)) ∧ Consistent (some (.text "$1,250.00")) "1250" tells :=
  exists_consistent rfl "1250"

end Trigger
end Tariff
