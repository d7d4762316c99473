/-
# List and index of the register agree

A register writes its two structures one after the other and reads each of them for itself. It stays that of a ledger
(`Ledger.register`): its index has the entries, in the same order, each under its id, and no id comes twice. Adding a price
keeps this, whether it succeeds or fails (`add_register`), and so does any number of calls (`tryAll_register`). What is
observed of the register of a ledger is what is observed of the ledger (`mirrors`), and that is what the prices added say
(`shows`).

| call | entries | index |
| --- | --- | --- |
| the id is new | the price at the end | the price at the end, under its id |
| the id has a price | | |
-/

import Mathlib.Data.List.Induction
import Tariff.Pricing.Register
import Tariff.Proofs.Names
import Tariff.Proofs.Pricing.Bookkeeping

namespace Tariff

/-! ### Prices with ids of their own -/

namespace Ledger

variable {l : Ledger} {p : Price}

/-- A ledger takes no second price of a rule. -/
theorem add?_of_has (h : l.has p.ruleId = true) : l.add? p = none :=
  dif_neg (by simp [h])

/-- A ledger takes the first price of a rule, at the end. -/
theorem add?_of_has_eq_false (h : l.has p.ruleId = false) : l.add? p = some (l.push p h) :=
  dif_pos h

/-- Prices are entered one after the other, and the first that is refused stops. -/
theorem ofList_concat (ps : List Price) (p : Price) :
    ofList (ps ++ [p]) = (ofList ps).bind fun l => (l.add? p).elim (.error p.ruleId) .ok := by
  rw [ofList, List.foldlM_append, ← ofList]
  simp only [List.foldlM_cons, List.foldlM_nil, bind_pure]
  cases ofList ps with
  | error id => rfl
  | ok l =>
    rw [ok_bind, Except.bind]
    cases l.add? p with
    | none => rfl
    | some l => rfl

/-- A list without repeated ids makes a ledger. -/
theorem ofList_of_nodup {ps : List Price} (h : (ps.map Price.ruleId).Nodup) : ofList ps = .ok ⟨ps, h⟩ := by
  induction ps using List.reverseRecOn with
  | nil => rfl
  | append_singleton ps p ih =>
    have hnodup := h
    rw [List.map_append, List.nodup_append] at hnodup
    have hnew : has ⟨ps, hnodup.1⟩ p.ruleId = false := by
      rw [← Bool.not_eq_true, has_iff]
      exact fun hmem => hnodup.2.2 _ hmem _ List.mem_cons_self rfl
    rw [ofList_concat, ih hnodup.1, Except.bind, add?_of_has_eq_false hnew]
    rfl

/-- Try to add one price after another, going on where it fails. -/
def tryAll (l : Ledger) (ps : List Price) : Ledger := ps.foldl (fun l p => (l.add? p).getD l) l

theorem tryAll_cons (l : Ledger) (p : Price) (ps : List Price) :
    l.tryAll (p :: ps) = ((l.add? p).getD l).tryAll ps := rfl

/-- After some calls the ids of all of them have prices. -/
theorem has_tryAll (ps : List Price) (id : String) :
    ∀ l : Ledger, (l.tryAll ps).has id = true ↔ id ∈ (l.prices ++ ps).map Price.ruleId := by
  induction ps with
  | nil => simp [tryAll, has_iff]
  | cons p ps ih =>
    intro l
    rw [tryAll_cons, ih]
    cases hhas : l.has p.ruleId with
    | true =>
      have hmem := has_iff.1 hhas
      rw [add?_of_has hhas, Option.getD_none]
      simp only [List.map_append, List.map_cons, List.mem_append, List.mem_cons]
      exact ⟨fun h => h.imp_right .inr, fun h => h.elim .inl fun h => h.elim (fun heq => .inl (heq ▸ hmem)) .inr⟩
    | false =>
      rw [add?_of_has_eq_false hhas, Option.getD_some, prices_push]
      simp

end Ledger

/-! ### The register of a ledger -/

/-- The prices of a ledger in both structures. -/
def Ledger.register (l : Ledger) : Register := ⟨l.prices, l.prices.map fun p => (p.ruleId, p)⟩

namespace Register

/-- What is observed of a register is what is observed of a ledger. -/
structure Mirrors (r : Register) (l : Ledger) : Prop where
  entries : r.entries = l.prices
  size : r.size = l.size
  has (id : String) : r.has id = l.has id
  find? (id : String) : r.find? id = l.find? id
  values : r.values = l.values
  namesServices : r.namesServices = l.namesServices

/-- The register finds what the ledger finds. -/
theorem find?_register (l : Ledger) (id : String) : l.register.find? id = l.find? id :=
  lookup?_map_key Price.ruleId id l.prices

theorem has_register (l : Ledger) (id : String) : l.register.has id = l.has id := by
  rw [has, ← find?, find?_register, Ledger.find?, Ledger.has, List.isSome_find?]

theorem values_register (l : Ledger) : l.register.values = l.values :=
  foldl_assign_of_nodup Price.value (by simpa [Ledger.register] using l.unique)

/-- The register of a ledger is its list with an index over it. -/
theorem mirrors (l : Ledger) : l.register.Mirrors l where
  entries := rfl
  size := rfl
  has := has_register l
  find? := find?_register l
  values := values_register l
  namesServices := rfl

/-- **A call keeps list and index in agreement**, whether it succeeds or fails. -/
theorem add_register (l : Ledger) (p : Price) : add p l.register =
    (l.add? p).elim (.error (Ledger.duplicateMessage p.ruleId) l.register) fun l => .ok () l.register := by
  cases hhas : l.has p.ruleId with
  | true => rw [add_of_has ((has_register l _).trans hhas), Ledger.add?_of_has hhas, Option.elim]
  | false =>
    have hnew : p.ruleId ∉ l.register.index.map Prod.fst := by
      rw [← isSome_lookup?, ← Register.has, has_register, hhas]
      simp
    rw [add_of_has_eq_false ((has_register l _).trans hhas), assign_of_notMem hnew, Ledger.add?_of_has_eq_false hhas]
    simp [Ledger.register, Ledger.prices_push]

/-- The register of a list fails where the ledger fails, and is that of the ledger otherwise. -/
theorem ofList_eq (ps : List Price) :
    ofList ps = ((Ledger.ofList ps).map Ledger.register).mapError Ledger.duplicateMessage := by
  induction ps using List.reverseRecOn with
  | nil => rfl
  | append_singleton ps p ih =>
    rw [ofList, List.foldlM_append, ← ofList, ih, Ledger.ofList_concat]
    simp only [List.foldlM_cons, List.foldlM_nil, bind_pure]
    cases Ledger.ofList ps with
    | error id => rfl
    | ok l =>
      simp only [Except.map, Except.mapError, ok_bind, Except.bind, add_register]
      cases l.add? p with
      | none => rfl
      | some l => rfl

/-- **Any number of calls keeps list and index in agreement**, and the prices of those that succeed come in their order. -/
theorem tryAll_register (ps : List Price) : ∀ l : Ledger, ∃ added,
    tryAll ps l.register = (added, (l.tryAll ps).register) ∧ (l.tryAll ps).prices = l.prices ++ added := by
  induction ps with
  | nil => exact fun l => ⟨[], rfl, (List.append_nil _).symm⟩
  | cons p ps ih =>
    intro l
    rw [tryAll, add_register, Ledger.tryAll_cons]
    cases hhas : l.has p.ruleId with
    | true =>
      rw [Ledger.add?_of_has hhas]
      exact ih l
    | false =>
      obtain ⟨added, hadded, hprices⟩ := ih (l.push p hhas)
      rw [Ledger.add?_of_has_eq_false hhas]
      refine ⟨p :: added, ?_, ?_⟩
      · simp [hadded]
      · simp [hprices, Ledger.prices_push]

/-! ### What is observed -/

/-- What a register holds that has had these prices added, in this order, and what is observed of it. -/
structure Shows (r : Register) (added : List Price) : Prop where
  unique : (added.map Price.ruleId).Nodup
  entries : r.entries = added
  index : r.index = added.map fun p => (p.ruleId, p)
  size : r.size = added.length
  has (id : String) : r.has id = true ↔ id ∈ added.map Price.ruleId
  /-- The price found is the one added with the id. -/
  found (id : String) (p : Price) : r.find? id = some p ↔ p ∈ added ∧ p.ruleId = id
  absent (id : String) : r.find? id = none ↔ ∀ p ∈ added, p.ruleId ≠ id
  values : r.values = added.map fun p => (p.ruleId, p.value)

/-- The register of a ledger shows its prices to every observer. -/
theorem shows (l : Ledger) : l.register.Shows l.prices where
  unique := l.unique
  entries := rfl
  index := rfl
  size := rfl
  has id := by rw [has_register, Ledger.has_iff]
  found id p := by
    rw [find?_register]
    constructor
    · exact fun h => ⟨List.mem_of_find?_eq_some h, by simpa using List.find?_some h⟩
    · rintro ⟨hmem, rfl⟩
      exact Ledger.find?_of_mem hmem
  absent id := by simp [find?_register, Ledger.find?]
  values := values_register l

/-- **List and index agree with the order of the successful calls.** From any list without repeated ids on, and after any
calls, the register shows the prices of that list and those whose calls succeeded, as does the ledger. The next call
succeeds if its id has not come before, and else changes nothing. -/
theorem shows_after_calls (start calls : List Price) (hstart : (start.map Price.ruleId).Nodup) :
    ∃ r l, ofList start = .ok r ∧ Ledger.ofList start = .ok l ∧
      ∃ added now, tryAll calls r = (added, now) ∧
        now.Shows (start ++ added) ∧ now.Mirrors (l.tryAll calls) ∧
        ∀ p : Price,
          (p.ruleId ∉ (start ++ calls).map Price.ruleId ∧
            ∃ next, add p now = .ok () next ∧ next.Shows (start ++ added ++ [p])) ∨
          (p.ruleId ∈ (start ++ calls).map Price.ruleId ∧
            add p now = .error (Ledger.duplicateMessage p.ruleId) now ∧ (l.tryAll calls).add? p = none) := by
  have hl := Ledger.ofList_of_nodup hstart
  have hr : ofList start = .ok (Ledger.register ⟨start, hstart⟩) := by
    rw [ofList_eq, hl]
    rfl
  obtain ⟨added, hadded, hprices⟩ := tryAll_register calls ⟨start, hstart⟩
  refine ⟨_, _, hr, hl, added, _, hadded, hprices ▸ shows _, mirrors _, fun p => ?_⟩
  have hhas := Ledger.has_tryAll calls p.ruleId ⟨start, hstart⟩
  rw [add_register]
  cases h : (Ledger.tryAll ⟨start, hstart⟩ calls).has p.ruleId with
  | true =>
    rw [Ledger.add?_of_has h]
    exact .inr ⟨hhas.1 h, rfl, rfl⟩
  | false =>
    rw [Ledger.add?_of_has_eq_false h]
    refine .inl ⟨fun hmem => ?_, _, rfl, ?_⟩
    · rw [hhas.2 hmem] at h
      cases h
    · rw [← hprices, ← Ledger.prices_push _ _ h]
      exact shows _

/-- A second price of `base` is refused, and the price tried after it is added. -/
theorem shows_after_calls_repeatedId :
    ([⟨"base", .ofNat 100, none, none, none⟩].map Price.ruleId).Nodup ∧
      ∃ r now, ofList [⟨"base", .ofNat 100, none, none, none⟩] = .ok r ∧
        tryAll [⟨"base", .ofNat 200, none, none, none⟩, ⟨"tax", .ofNat 50, none, none, none⟩] r =
          ([⟨"tax", .ofNat 50, none, none, none⟩], now) ∧
        now.Shows [⟨"base", .ofNat 100, none, none, none⟩, ⟨"tax", .ofNat 50, none, none, none⟩] ∧
        add ⟨"base", .ofNat 200, none, none, none⟩ now = .error "Rule 'base' already has a computed price" now := by
  have hunique : ([⟨"base", .ofNat 100, none, none, none⟩].map Price.ruleId).Nodup := by decide
  obtain ⟨r, l, hr, -, added, now, hcalls, hshows, -, hnext⟩ := shows_after_calls
    [⟨"base", .ofNat 100, none, none, none⟩]
    [⟨"base", .ofNat 200, none, none, none⟩, ⟨"tax", .ofNat 50, none, none, none⟩] hunique
  obtain rfl : (⟨[_], [("base", _)]⟩ : Register) = r := Except.ok.inj hr
  obtain ⟨rfl, -⟩ : [_] = added ∧ _ := Prod.mk.inj hcalls
  refine ⟨hunique, _, now, hr, hcalls, hshows, ?_⟩
  obtain ⟨hnew, -⟩ | ⟨-, hfails, -⟩ := hnext ⟨"base", .ofNat 200, none, none, none⟩
  · simp at hnew
  · exact hfails

end Register
end Tariff
