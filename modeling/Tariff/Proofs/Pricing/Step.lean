/-
# What a step of a pass does

A step that gives a pass again does one of three things (`Pass.Next`): it ignores a rule whose id has been
seen, it skips a rule that does not apply, or it prices the rule. The rules that have an outcome are the
ids seen so far in the order of their first places, and only they have prices; this is kept by every step
and so holds of every pass (`Pass.ids_of_run`).
-/

import Tariff.Pricing.Pass
import Tariff.Proofs.Names
import Tariff.Proofs.Outcome

namespace Tariff

/-- What pricing a rule notes, from its raw price and its price. -/
def Rule.priceEntries (r : Rule) (raw value : Binary64) (reason : String) : List Entry :=
  (if value.eq raw then []
    else [r.entry "Clamp/Round" (raw.brief ++ " → " ++ value.amount) none]) ++
    [r.entry "Price" (r.label ++ " (" ++ reason ++ ")") (some value.amount)]

namespace Pass

variable {setting : Setting} {p p' : Pass} {r : Rule}

/-- What the next rule makes of a pass, unless it stops it. -/
inductive Next (setting : Setting) (p : Pass) (r : Rule) : Pass → Prop where
  | duplicate (h : p.hasSeen r.id) :
      Next setting p r { p with
        journal := (p.journal.warn ("Duplicate rule id '" ++ r.id ++ "' ignored")).record
          [r.entry "Skip" "duplicate rule id" none] }
  | skipped {verdict : Verdict} (h : p.hasSeen r.id = false)
      (hv : r.verdict setting.selection setting.answers = .ok verdict) (happlies : verdict.applies = false) :
      Next setting p r { p with
        outcomes := p.outcomes ++ [(r.id, .skipped)]
        journal := p.journal.record [r.entry "Skip" verdict.reason none] }
  | priced {verdict : Verdict} {raw : Raw} {value : Binary64} (h : p.hasSeen r.id = false)
      (hnew : p.ledger.has r.id = false)
      (hv : r.verdict setting.selection setting.answers = .ok verdict) (happlies : verdict.applies)
      (hraw : r.raw setting p.ledger p.journal = .ok raw)
      (hvalue : cents (Rule.clamp r.lowest r.highest raw.value) = .ok value) :
      Next setting p r {
        ledger := p.ledger.push (r.price value) hnew
        outcomes := p.outcomes ++ [(r.id, raw.outcome)]
        journal := raw.journal.record (r.priceEntries raw.value value verdict.reason) }

/-- A rule that has not come up has no price. -/
theorem has_of_hasSeen_eq_false (h : p.hasSeen r.id = false) : p.ledger.has r.id = false := by
  simp only [hasSeen, Bool.or_eq_false_iff] at h
  exact h.2

/-- **A step that gives a pass does one of the three.** It leaves out a rule that has come up, skips one that
does not apply, or prices one; guards and journal entries are part of each case. -/
theorem step_eq_ok_iff : step setting p r = .ok p' ↔ Next setting p r p' := by
  unfold step
  constructor
  · intro h
    split at h
    · rename_i hseen
      obtain rfl := Except.ok.inj h
      exact .duplicate hseen
    · rename_i hseen
      rw [Bool.not_eq_true] at hseen
      obtain ⟨verdict, hv, h⟩ := bind_eq_ok_iff.1 h
      split at h
      · rename_i happlies
        obtain ⟨raw, hraw, h⟩ := bind_eq_ok_iff.1 h
        obtain ⟨value, hvalue, h⟩ := bind_eq_ok_iff.1 h
        obtain rfl := Except.ok.inj h
        exact .priced hseen (has_of_hasSeen_eq_false hseen) hv happlies hraw hvalue
      · rename_i happlies
        obtain rfl := Except.ok.inj h
        exact .skipped hseen hv (Bool.not_eq_true _ ▸ happlies)
  · rintro (hseen | ⟨hseen, hv, happlies⟩ | ⟨hseen, hnew, hv, happlies, hraw, hvalue⟩)
    · rw [dif_pos hseen]
    · rw [dif_neg (by simp [hseen]), hv, ok_bind, if_neg (by simp [happlies])]
      rfl
    · rw [dif_neg (by simp [hseen]), hv, ok_bind, if_pos happlies, price, hraw, ok_bind, hvalue]
      rfl

/-! ### Ids -/

/-- The ids of the rules that have an outcome. -/
def ids (p : Pass) : List String := p.outcomes.map Prod.fst

/-- Only rules with an outcome have a price. -/
def PricesIds (p : Pass) : Prop := ∀ id, p.ledger.has id → id ∈ p.ids

/-- A rule has come up just if its id has. -/
theorem hasSeen_iff (h : p.PricesIds) (id : String) : p.hasSeen id ↔ id ∈ p.ids := by
  rw [hasSeen, Bool.or_eq_true_iff, isSome_lookup?]
  exact ⟨fun hseen => hseen.elim (fun hid => hid) (h id), .inl⟩

/-- A new price adds its rule to those with a price, and no other. -/
theorem has_push {l : Ledger} {price : Price} (h : l.has price.ruleId = false) {id : String} :
    (l.push price h).has id ↔ l.has id ∨ id = price.ruleId := by
  simp [Ledger.has_iff, Ledger.prices_push]

/-- Only ids that have come up have prices, after one more rule too. -/
theorem Next.pricesIds (h : Next setting p r p') (hp : p.PricesIds) : p'.PricesIds := by
  have hkeep {id : String} {more : List (String × Outcome)} (hid : p.ledger.has id) :
      id ∈ (p.outcomes ++ more).map Prod.fst := by
    rw [List.map_append]
    exact List.mem_append_left _ (hp id hid)
  cases h with
  | duplicate => exact hp
  | skipped => exact fun id hid => hkeep hid
  | priced hseen hnew =>
    intro id hid
    rcases (has_push hnew).1 hid with hid | rfl
    · exact hkeep hid
    · simp [ids, Rule.price]

/-- A step adds the id of its rule unless it is there. -/
theorem Next.ids_eq (h : Next setting p r p') (hp : p.PricesIds) :
    p'.ids = if p.ids.contains r.id then p.ids else p.ids ++ [r.id] := by
  have hseen := hasSeen_iff hp r.id
  rw [← List.contains_iff_mem] at hseen
  cases h with
  | duplicate h => rw [if_pos (hseen.1 h)]; rfl
  | skipped h => rw [if_neg (by rw [← hseen, h]; decide)]; simp [ids]
  | priced h => rw [if_neg (by rw [← hseen, h]; decide)]; simp [ids]

/-! ### Passes -/

/-- A pass can be cut in two: the later rules go on from where the earlier ones leave off. -/
theorem run_append_eq_ok_iff {earlier later : List Rule} {q : Pass} :
    run setting (earlier ++ later) = .ok q ↔
      ∃ p, run setting earlier = .ok p ∧ later.foldlM (step setting) p = .ok q := by
  rw [run_append]
  exact bind_eq_ok_iff

/-- **One more rule is one more step**, of one of the ways in which a step can go. -/
theorem run_concat_eq_ok_iff {earlier : List Rule} {p' : Pass} :
    run setting (earlier ++ [r]) = .ok p' ↔ ∃ p, run setting earlier = .ok p ∧ Next setting p r p' := by
  rw [run_append_eq_ok_iff]
  refine exists_congr fun p => and_congr_right fun _ => ?_
  rw [List.foldlM_cons, bind_eq_ok_iff, ← step_eq_ok_iff]
  constructor
  · rintro ⟨p', hp', ⟨⟩⟩
    exact hp'
  · exact fun hp' => ⟨p', hp', rfl⟩

/-- A pass over a single rule is one step. -/
theorem run_singleton_eq_ok_iff : run setting [r] = .ok p ↔ Next setting {} r p := by
  rw [← List.nil_append [r], run_concat_eq_ok_iff]
  constructor
  · rintro ⟨p, ⟨⟩, hnext⟩
    exact hnext
  · exact fun hnext => ⟨{}, rfl, hnext⟩

/-- **What holds at the start and is kept by every step holds of every pass** and the rules behind it. `next`
adds one rule at the end of those so far, and may use that they had a pass. -/
theorem run_induction {motive : List Rule → Pass → Prop} (start : motive [] {})
    (next : ∀ {earlier p r p'}, run setting earlier = .ok p → motive earlier p → Next setting p r p' →
      motive (earlier ++ [r]) p')
    {rules : List Rule} (h : run setting rules = .ok p) : motive rules p := by
  -- The induction is on the rules to come, so those behind the pass are left open.
  have hfold : ∀ (rules earlier : List Rule) (p q : Pass), run setting earlier = .ok p →
      motive earlier p → rules.foldlM (step setting) p = .ok q → motive (earlier ++ rules) q := by
    intro rules
    induction rules with
    | nil =>
      intro earlier p q hrun hp h
      obtain rfl := Except.ok.inj h
      rwa [List.append_nil]
    | cons r rules ih =>
      intro earlier p q hrun hp h
      rw [List.foldlM_cons] at h
      obtain ⟨p', hp', h⟩ := bind_eq_ok_iff.1 h
      have hnext := step_eq_ok_iff.1 hp'
      have := ih (earlier ++ [r]) p' q (run_concat_eq_ok_iff.2 ⟨p, hrun, hnext⟩)
        (next hrun hp hnext) h
      rwa [List.append_assoc, List.singleton_append] at this
  exact hfold rules [] {} p rfl start h

theorem pricesIds_empty : PricesIds {} := fun id hid => by simp [Ledger.has, Ledger.empty] at hid

/-- In every pass only ids that have come up have prices, by induction on the steps. -/
theorem pricesIds_of_run {rules : List Rule} (h : run setting rules = .ok p) : p.PricesIds :=
  run_induction (motive := fun _ => PricesIds) pricesIds_empty (fun _ hp hnext => hnext.pricesIds hp) h

/-- **A pass has one outcome for each rule id,** in the order of their first places. A rule that comes again
adds a note but no outcome. -/
theorem ids_of_run {rules : List Rule} (h : run setting rules = .ok p) :
    p.ids = Formula.firsts (rules.map Rule.id) := by
  refine run_induction (motive := fun earlier p => p.ids = Formula.firsts (earlier.map Rule.id)) rfl ?_ h
  intro earlier p r p' hrun hids hnext
  rw [hnext.ids_eq (pricesIds_of_run hrun), hids, List.map_append, List.map_singleton,
    Formula.firsts_concat]

/-- The ids seen are those of the rules behind the pass. -/
theorem hasSeen_iff_of_run {rules : List Rule} (h : run setting rules = .ok p) {id : String} :
    p.hasSeen id ↔ id ∈ rules.map Rule.id := by
  rw [hasSeen_iff (pricesIds_of_run h), ids_of_run h, Formula.mem_firsts]

/-- What a pass has seen are the ids of its rules. -/
theorem hasSeen_eq_false_iff {rules : List Rule} (h : run setting rules = .ok p) {id : String} :
    p.hasSeen id = false ↔ id ∉ rules.map Rule.id := by
  rw [← Bool.not_eq_true, hasSeen_iff_of_run h]

end Pass
end Tariff
