/-
# What a name comes to

Looking up a name should never fail: it gives the number that the sources provide, and zero with a warning if they
provide none. Five sources provide numbers (`Sources.Provides`), no two of them for one name.

| source | of names | the number |
| --- | --- | --- |
| price | with the rule prefix | the price of that rule, if it has one |
| rate | the recurring rate's | the rate |
| total | of the total of a service row | the total |
| path | any other, with a point | the answer there, unless null |
| root | any other | the answer of that name, unless null, and unless there is one at the path |

It fails in three ways all the same (`Sources.Stops`): a key such as `²` is no position in a list, and a rate or a
total may be beyond cents. Everything said above holds of a name just if it does none of these three
(`Sources.resolves_iff`).

Which rule asks makes no difference to what is found, nor to the names that are warned of (`Sources.Warns`).
-/

import Tariff.Proofs.Pricing.Isolation

namespace Tariff
namespace Sources

variable {s : Sources} {name : String}

/-- The number that the sources provide for a trimmed name. -/
inductive Provides (s : Sources) (name : String) : Binary64 → Prop where
  | price {id : String} {p : Price} (hrule : afterPrefix? s.terms.rulePrefix name = some id)
      (h : s.ledger.find? id = some p) : Provides s name p.value
  | rate {x : Binary64} {entries : List Entry} (hrule : afterPrefix? s.terms.rulePrefix name = none)
      (hname : name = s.terms.rateName)
      (h : s.ledger.recurringRate s.terms.rateTag s.terms.rateFallback = .ok (x, entries)) : Provides s name x
  | total {row : Service} {x : Binary64} {entries : List Entry}
      (hrule : afterPrefix? s.terms.rulePrefix name = none) (hname : name ≠ s.terms.rateName)
      (hrow : s.totalNamed? name = some row)
      (h : s.ledger.serviceTotal row.id row.effectiveFilter = .ok (x, entries)) : Provides s name x
  | path {v : Json} (hname : IsAnswerName s.terms s.services name) (hpoint : name.toList.contains '.')
      (h : s.answers.atPath name = .ok (some v)) (hv : v ≠ .null) : Provides s name v.number
  | root {v : Json} (hname : IsAnswerName s.terms s.services name)
      (hpath : name.toList.contains '.' → ∃ nested, s.answers.atPath name = .ok nested ∧ given nested = none)
      (h : s.answers.get? name = some v) (hv : v ≠ .null) : Provides s name v.number

/-- What is said of a name without a number. -/
def excuse (s : Sources) (name : String) : Unresolved :=
  match afterPrefix? s.terms.rulePrefix name with
  | some id => .notPriced name id
  | none => .unknown name

/-- **A name with a point is an answer in two ways**: by the walk along its path or, if that finds nothing or
null, as a field with the whole name. A name without a point is one in the second way only. -/
theorem answer?_eq_some_iff {v : Json} : s.answer? name = .ok (some v) ↔
    (name.toList.contains '.' ∧ s.answers.atPath name = .ok (some v) ∧ v ≠ .null) ∨
      (name.toList.contains '.' → ∃ nested, s.answers.atPath name = .ok nested ∧ given nested = none) ∧
        s.answers.get? name = some v ∧ v ≠ .null := by
  have hor {x y : Option Json} : x.or y = some v ↔ x = some v ∨ x = none ∧ y = some v := by
    cases x <;> simp
  by_cases hpoint : name.toList.contains '.'
  · simp only [hpoint, true_and, forall_const]
    cases hnested : s.answers.atPath name with
    | error halt =>
      rw [answer?_of_point_error hpoint hnested]
      simp
    | ok nested =>
      rw [answer?_of_point hpoint hnested, Except.ok.injEq, hor, given_eq_some_iff, given_eq_some_iff]
      simp
  · rw [answer?_of_no_point hpoint, Except.ok.injEq, given_eq_some_iff]
    simp only [hpoint, Bool.false_eq_true, false_and, false_or, false_implies, true_and]

/-- **The sources provide what is found.** One rule for each place that a name can have, in the order in which
they are tried. -/
theorem provides_iff {x : Binary64} :
    s.Provides name x ↔ ∃ found, s.find name = .ok found ∧ found.value = x := by
  constructor
  · intro hprovides
    cases hprovides with
    | price hrule hp => exact ⟨_, by rw [find_of_reference hrule, hp], rfl⟩
    | rate hrule hname hrate => exact ⟨_, by rw [find_of_rate hrule hname, hrate], rfl⟩
    | total hrule hname hrow htotal => exact ⟨_, by rw [find_of_total hrule hname hrow, htotal], rfl⟩
    | path hname hpoint hpath hv =>
      exact ⟨_, by rw [find_of_answer hname, answer?_eq_some_iff.2 (.inl ⟨hpoint, hpath, hv⟩)], rfl⟩
    | root hname hpath hroot hv =>
      exact ⟨_, by rw [find_of_answer hname, answer?_eq_some_iff.2 (.inr ⟨hpath, hroot, hv⟩)], rfl⟩
  · rintro ⟨found, hfind, rfl⟩
    -- The place of the name says where it was looked up, and what was found there.
    cases s.place name with
    | reference hrule =>
      rw [find_of_reference hrule] at hfind
      split at hfind
      · rename_i hp
        obtain rfl := Except.ok.inj hfind
        exact .price hrule hp
      · cases hfind
    | rate hrule hname =>
      rw [find_of_rate hrule hname] at hfind
      split at hfind
      · rename_i hrate
        obtain rfl := Except.ok.inj hfind
        exact .rate hrule hname hrate
      · cases hfind
    | total hrule hname hrow =>
      rw [find_of_total hrule hname hrow] at hfind
      split at hfind
      · rename_i htotal
        obtain rfl := Except.ok.inj hfind
        exact .total hrule hname hrow htotal
      · cases hfind
    | answer hname =>
      rw [find_of_answer hname] at hfind
      split at hfind
      · rename_i hanswer
        obtain rfl := Except.ok.inj hfind
        rcases answer?_eq_some_iff.1 hanswer with ⟨hpoint, hpath, hv⟩ | ⟨hpath, hroot, hv⟩
        · exact .path hname hpoint hpath hv
        · exact .root hname hpath hroot hv
      · cases hfind
      · cases hfind

/-- The reason why a name has no number is told from the name alone. -/
theorem eq_excuse_of_find {u : Unresolved} (h : s.find name = .error (.unresolved u)) : u = s.excuse name := by
  unfold excuse
  cases s.place name with
  | reference hrule =>
    rw [find_of_reference hrule] at h
    split at h
    · cases h
    · cases h
      rw [hrule]
  | rate hrule hname =>
    rw [find_of_rate hrule hname] at h
    split at h <;> cases h
  | total hrule hname hrow =>
    rw [find_of_total hrule hname hrow] at h
    split at h <;> cases h
  | answer hname =>
    rw [find_of_answer hname] at h
    split at h
    · cases h
    · cases h
      rw [hname.1]
    · cases h

/-- **What a name comes to:** the number that the sources provide, without a warning, and zero with a warning if they
provide none; strictly resolved, a name fails only for want of a number. -/
structure Resolves (s : Sources) (name : String) (ruleId : Option String) (j : Journal) : Prop where
  isOk : ∃ x j', s.resolve name ruleId j = .ok (x, j')
  provided : ∀ x, s.Provides (trim name) x → ∃ entries, s.resolve name ruleId j = .ok (x, j.record entries)
  defaulted : (∀ x, ¬ s.Provides (trim name) x) → s.resolve name ruleId j = .ok (.zero,
    (j.warn (s.excuse (trim name)).message).record
      [⟨(s.excuse (trim name)).kind, braced name ++ " defaulted", some "0", ruleId⟩])
  strict : ∀ fault, s.resolveStrict name ruleId j = .error fault → fault = .unresolved (s.excuse (trim name))

/-- A name that is found has its number, with an entry that says where from. -/
theorem resolve_of_find {found : Found} (h : s.find (trim name) = .ok found) (ruleId : Option String) (j : Journal) :
    s.resolve name ruleId j = .ok (found.value, j.record (found.entries ++
      [⟨"Resolve", braced (trim name) ++ " from " ++ found.source, some found.value.brief, ruleId⟩])) := by
  rw [resolve_eq, h]

/-- A name without a number has zero, with a warning and an entry that says so. -/
theorem resolve_of_find_error {u : Unresolved} (h : s.find (trim name) = .error (.unresolved u))
    (ruleId : Option String) (j : Journal) : s.resolve name ruleId j =
      .ok (.zero, (j.warn u.message).record [⟨u.kind, braced name ++ " defaulted", some "0", ruleId⟩]) := by
  rw [resolve_eq, h]

/-- A strict lookup fails for the reason that the lookup does. -/
theorem find_of_resolveStrict {fault : LookupFault} {ruleId : Option String} {j : Journal}
    (h : s.resolveStrict name ruleId j = .error fault) : s.find (trim name) = .error fault := by
  unfold resolveStrict at h
  dsimp only at h
  rcases bind_eq_error_iff.1 h with hfind | ⟨found, -, hdone⟩
  · exact hfind
  · cases hdone

/-- **Resolution never fails**, but where a key of a path is no position in a list and where a rate or a total is beyond
cents. -/
theorem resolves_iff (s : Sources) (name : String) (ruleId : Option String) (j : Journal) :
    s.Resolves name ruleId j ↔ ¬ s.Stops (trim name) := by
  constructor
  · intro hresolves hstops
    obtain ⟨x, j', hok⟩ := hresolves.isOk
    obtain ⟨halt, herror⟩ := (exists_resolve_eq_error_iff name ruleId j).2 hstops
    cases hok.symm.trans herror
  · intro hstops
    -- All that is promised of a lookup follows from what is found under the trimmed name.
    cases hfind : s.find (trim name) with
    | ok found =>
      have hresolve := resolve_of_find hfind ruleId j
      refine ⟨⟨_, _, hresolve⟩, fun x hx => ?_, fun hnone => ?_, fun fault hfault => ?_⟩
      · obtain ⟨found', hfind', rfl⟩ := provides_iff.1 hx
        obtain rfl := Except.ok.inj (hfind.symm.trans hfind')
        exact ⟨_, hresolve⟩
      · exact absurd (provides_iff.2 ⟨found, hfind, rfl⟩) (hnone _)
      · cases hfind.symm.trans (find_of_resolveStrict hfault)
    | error fault =>
      cases fault with
      | halt halt => exact absurd (exists_find_eq_halt_iff.1 ⟨halt, hfind⟩) hstops
      | unresolved u =>
        obtain rfl := eq_excuse_of_find hfind
        have hresolve := resolve_of_find_error hfind ruleId j
        refine ⟨⟨_, _, hresolve⟩, fun x hx => ?_, fun _ => hresolve, fun fault hfault => ?_⟩
        · obtain ⟨found, hfound, -⟩ := provides_iff.1 hx
          cases hfind.symm.trans hfound
        · exact Except.error.inj ((find_of_resolveStrict hfault).symm.trans hfind)

/-- **A key may make a lookup fail:** `²` is a digit character, and no position in a list. -/
theorem not_forall_resolves :
    ¬ ∀ (s : Sources) (name : String) (ruleId : Option String) (j : Journal), s.Resolves name ruleId j := by
  intro hclaim
  obtain ⟨x, j, hx⟩ := (hclaim ⟨.object [("items", .list [.int 1])], .empty, [], {}⟩ "items.²" none {}).isOk
  have hok := isOk_iff.2 ⟨_, hx⟩
  revert hok
  decide +kernel

/-! ### Warnings -/

/-- A text at the end of others, unless it is among them. -/
def collect (seen : List String) (text : String) : List String := if seen.contains text then seen else seen ++ [text]

/-- A warning is given once: one that is there already is not added. -/
theorem warnings_warn (j : Journal) (text : String) : (j.warn text).warnings = collect j.warnings text := by
  unfold Journal.warn collect
  split <;> rfl

/-- Looking up gives a number, or several, and warns of what has none, the same whichever rule asks and whatever has
been noted. -/
def Warns {α : Type} (run : Option String → Journal → Except Halt (α × Journal)) (found : α)
    (missing : List Unresolved) : Prop :=
  ∀ ruleId j, ∃ k, run ruleId j = .ok (found, k) ∧
    k.warnings = (missing.map Unresolved.message).foldl collect j.warnings

/-- What a lookup warns of does not depend on the journal. -/
theorem exists_warns_of_resolve {ruleId : Option String} {j k : Journal} {x : Binary64}
    (h : s.resolve name ruleId j = .ok (x, k)) : ∃ missing, Warns (s.resolve name) x missing := by
  cases hfind : s.find (trim name) with
  | ok found =>
    obtain ⟨rfl, -⟩ := Prod.mk.inj (Except.ok.inj ((resolve_of_find hfind ruleId j).symm.trans h))
    exact ⟨[], fun ruleId j => ⟨_, resolve_of_find hfind ruleId j, rfl⟩⟩
  | error fault =>
    cases fault with
    | halt halt =>
      rw [resolve_eq, hfind] at h
      cases h
    | unresolved u =>
      obtain ⟨rfl, -⟩ := Prod.mk.inj (Except.ok.inj ((resolve_of_find_error hfind ruleId j).symm.trans h))
      exact ⟨[u], fun ruleId j => ⟨_, resolve_of_find_error hfind ruleId j, warnings_warn j _⟩⟩

/-- **Several names are looked up one by one,** and all that is missing is warned of in turn. What is warned of
depends neither on the journal nor on what was missing before. -/
theorem exists_warns_of_resolveAll {ruleId : Option String} {names : List String} {j k : Journal}
    {values : List (String × Binary64)} (h : s.resolveAll ruleId names j = .ok (values, k)) :
    ∃ missing, Warns (fun ruleId => s.resolveAll ruleId names) values missing := by
  induction names generalizing j k values with
  | nil =>
    obtain ⟨rfl, -⟩ := Prod.mk.inj (Except.ok.inj h)
    exact ⟨[], fun _ j => ⟨j, rfl, rfl⟩⟩
  | cons name rest ih =>
    obtain ⟨x, xs, j', hx, hxs, rfl⟩ := resolveAll_cons_eq_ok_iff.1 h
    obtain ⟨missing, hfirst⟩ := exists_warns_of_resolve hx
    obtain ⟨others, hrest⟩ := ih hxs
    refine ⟨missing ++ others, fun ruleId j => ?_⟩
    obtain ⟨k₁, hk₁, hwarnings⟩ := hfirst ruleId j
    obtain ⟨k₂, hk₂, hwarnings'⟩ := hrest ruleId k₁
    refine ⟨k₂, resolveAll_cons_eq_ok_iff.2 ⟨x, xs, k₁, hk₁, hk₂, rfl⟩, ?_⟩
    rw [hwarnings', hwarnings, List.map_append, List.foldl_append]

/-- A new journal gets the same warnings whichever rule asks, each about a name without a number. -/
theorem exists_resolveAll_of_empty {ruleId : Option String} {names : List String} {j : Journal}
    {values : List (String × Binary64)} (h : s.resolveAll ruleId names {} = .ok (values, j)) (other : Option String) :
    ∃ k, s.resolveAll other names {} = .ok (values, k) ∧ k.warnings = j.warnings ∧
      ∀ text ∈ k.warnings, ∃ u, Unresolved.message u = text := by
  obtain ⟨missing, hwarns⟩ := exists_warns_of_resolveAll h
  obtain ⟨j', hj', hwarned⟩ := hwarns ruleId {}
  obtain rfl : j = j' := (Prod.mk.inj (Except.ok.inj (h.symm.trans hj'))).2
  obtain ⟨k, hk, hwarnings⟩ := hwarns other {}
  have hfirsts : k.warnings = Formula.firsts (missing.map Unresolved.message) := hwarnings
  refine ⟨k, hk, hwarnings.trans hwarned.symm, fun text htext => ?_⟩
  rw [hfirsts, Formula.mem_firsts] at htext
  obtain ⟨u, -, hu⟩ := List.mem_map.1 htext
  exact ⟨u, hu⟩

end Sources
end Tariff
