/-
# Operands that become operations

Where an operand stands, an operation may be written without brackets, say `1 - 5.02` in place of
`10.02`. Operators may group otherwise than before, so the tree is another one and may be nested deeper,
but there still is one: a list of terminals is an *operation* (`IsOperation`) if it derives `tier 0` with
every call fitting, and operations may be put together by signs in front of them and by binary operators
of any level between them.

The main result (`Derivation.expands`) is an induction over the derivation that reads it from the right:
an operand is replaced in front of whatever its operation goes on with (`GoesOn`).
-/

import Tariff.Proofs.Formula.Grammar

namespace Tariff
namespace Formula

variable {α β : Type}

/-! ### Putting operations together -/

/-- Operands with operators of any level between them. -/
def IsOperation (ts : List (Terminal β)) : Prop :=
  ∃ d : Derivation β (.tier 0), d.yield = ts ∧ d.callsFit

/-- What may follow an operand in an operation: nothing, or an operator and an operation. -/
def GoesOn (ts : List (Terminal β)) : Prop :=
  ts = [] ∨ ∃ s op rest, ts = .symbol s :: rest ∧ Symbol.binary? s = some op ∧ IsOperation rest

namespace Derivation

/-- A derivation on the tier of the unary operators is one on every tier. -/
theorem exists_tier (u : Derivation β (.tier 6)) (hu : u.callsFit) : ∀ {k : Nat}, k ≤ 6 →
    ∃ d : Derivation β (.tier k), d.yield = u.yield ∧ d.callsFit
  | k, hk => by
    by_cases h : k = 6
    · subst h
      exact ⟨u, rfl, hu⟩
    · obtain ⟨d, hd, hfit⟩ := exists_tier u hu (show k + 1 ≤ 6 by omega)
      exact ⟨.tier (by omega) d .noOperator, by simp [yield, hd], by simp [callsFit, hfit]⟩
termination_by k => 6 - k

/-- An operand and an operator of a level may be put in front of every tier up to that level. -/
theorem exists_prepend (u : Derivation β (.tier 6)) (hu : u.callsFit) {s : Symbol} {op : BinaryOp}
    (hs : s.binary? = some op) : ∀ {k : Nat} (d : Derivation β (.tier k)), d.callsFit →
      k ≤ op.level → ∃ d' : Derivation β (.tier k), d'.yield = u.yield ++ .symbol s :: d.yield ∧
        d'.callsFit
  | k, .tier h first more, hd, hk => by
    simp only [callsFit, Bool.and_eq_true] at hd
    by_cases hl : op.level = k
    · obtain ⟨d, hy, hfit⟩ := exists_tier u hu (show k + 1 ≤ 6 by omega)
      exact ⟨.tier h d (.operator s op hs hl first more), by simp [yield, hy], by simp [callsFit, hfit, hd]⟩
    · obtain ⟨d, hy, hfit⟩ := exists_prepend u hu hs first hd.1 (by omega)
      exact ⟨.tier h d more, by simp [yield, hy], by simp [callsFit, hfit, hd]⟩
  | _, .signed .., _, hk => absurd op.level_lt (Nat.not_lt.2 hk)
  | _, .unsigned _, _, hk => absurd op.level_lt (Nat.not_lt.2 hk)

/-- A sign may be put in front of every tier. -/
theorem exists_sign {s : Symbol} {op : UnaryOp} (hs : s.unary? = some op) :
    ∀ {k : Nat} (d : Derivation β (.tier k)), d.callsFit →
      ∃ d' : Derivation β (.tier k), d'.yield = .symbol s :: d.yield ∧ d'.callsFit
  | _, .tier h first more, hd => by
    simp only [callsFit, Bool.and_eq_true] at hd
    obtain ⟨d, hy, hfit⟩ := exists_sign hs first hd.1
    exact ⟨.tier h d more, by simp [yield, hy], by simp [callsFit, hfit, hd]⟩
  | _, .signed s' op' hs' e, hd => ⟨.signed s op hs (.signed s' op' hs' e), rfl, hd⟩
  | _, .unsigned p, hd => ⟨.signed s op hs (.unsigned p), rfl, hd⟩

end Derivation

/-- An operand with what its operation goes on with. -/
theorem IsOperation.unit (u : Derivation β (.tier 6)) (hu : u.callsFit) {rest : List (Terminal β)}
    (h : GoesOn rest) : IsOperation (u.yield ++ rest) := by
  rcases h with rfl | ⟨s, op, rest, rfl, hs, d, rfl, hd⟩
  · obtain ⟨d, hy, hfit⟩ := u.exists_tier hu (Nat.zero_le 6)
    exact ⟨d, by simp [hy], hfit⟩
  · exact u.exists_prepend hu hs d hd (Nat.zero_le _)

/-- An operand with something behind it that goes on is an operation. -/
theorem IsOperation.operand (b : β) {rest : List (Terminal β)} (h : GoesOn rest) :
    IsOperation (.operand b :: rest) :=
  .unit (.unsigned (.operand b)) rfl h

theorem IsOperation.sign {s : Symbol} {op : UnaryOp} (hs : s.unary? = some op)
    {ts : List (Terminal β)} (h : IsOperation ts) : IsOperation (.symbol s :: ts) := by
  obtain ⟨d, rfl, hd⟩ := h
  exact d.exists_sign hs hd

/-! ### Replacing operands -/

/-- What a derivation becomes when `f` replaces its operands: before anything that an operation goes on
with, or by itself. -/
def Derivation.Expands (f : α → List (Terminal β)) : {c : Construct} → Derivation α c → Prop
  | .conditional, d => ∃ d' : Sentence β, d'.yield = d.yield.flatMap (Terminal.expand f) ∧ d'.callsFit
  | .tier _, d => ∀ rest, GoesOn rest → IsOperation (d.yield.flatMap (Terminal.expand f) ++ rest)
  | .primary, d => ∀ rest, GoesOn rest → IsOperation (d.yield.flatMap (Terminal.expand f) ++ rest)
  | .operators _, d => ∀ rest, GoesOn rest → GoesOn (d.yield.flatMap (Terminal.expand f) ++ rest)
  | .arguments, d => ∃ d' : Derivation β .arguments,
      d'.yield = d.yield.flatMap (Terminal.expand f) ∧ d'.callsFit ∧ d'.count = d.count

/-- **Operands may be replaced by operations.** -/
theorem Derivation.expands {f : α → List (Terminal β)} {c : Construct} (d : Derivation α c)
    (h : ∀ a, .operand a ∈ d.yield → ∀ rest, GoesOn rest → IsOperation (f a ++ rest))
    (hfit : d.callsFit) : d.Expands f := by
  induction d with
  | plain c ih =>
    obtain ⟨d, hd, hd'⟩ := ih h hfit [] (.inl rfl)
    exact ⟨.plain d, by simpa [yield] using hd, hd'⟩
  | choice c t e ihc iht ihe =>
    simp only [yield, List.mem_append, List.mem_cons, reduceCtorEq, false_or] at h
    simp only [callsFit, Bool.and_eq_true] at hfit
    obtain ⟨dc, hc, hc'⟩ := ihc (fun a ha => h a (.inl ha)) hfit.1.1 [] (.inl rfl)
    obtain ⟨dt, ht, ht'⟩ := iht (fun a ha => h a (.inr (.inl ha))) hfit.1.2
    obtain ⟨de, he, he'⟩ := ihe (fun a ha => h a (.inr (.inr ha))) hfit.2
    refine ⟨.choice dc dt de, ?_, by simp [callsFit, hc', ht', he']⟩
    simp [yield, hc, ht, he, Terminal.expand]
  | tier hlt first more ih ihm =>
    simp only [yield, List.mem_append] at h
    simp only [callsFit, Bool.and_eq_true] at hfit
    intro rest hrest
    have hmore := ihm (fun a ha => h a (.inr ha)) hfit.2 rest hrest
    -- What the operators become goes on, so the first operand may be an operation in front of it.
    simpa [yield] using ih (fun a ha => h a (.inl ha)) hfit.1 _ hmore
  | noOperator => exact fun rest hrest => hrest
  | operator s op hs hl right more ih ihm =>
    simp only [yield, List.mem_append, List.mem_cons, reduceCtorEq, false_or] at h
    simp only [callsFit, Bool.and_eq_true] at hfit
    intro rest hrest
    have hmore := ihm (fun a ha => h a (.inr ha)) hfit.2 rest hrest
    -- From the back: the right operand stands in front of what the further operators become.
    have hright := ih (fun a ha => h a (.inl ha)) hfit.1 _ hmore
    exact .inr ⟨s, op, _, by simp [yield, Terminal.expand], hs, hright⟩
  | signed s op hs e ih =>
    simp only [yield, List.mem_cons, reduceCtorEq, false_or] at h
    exact fun rest hrest => (ih h hfit rest hrest).sign hs
  | unsigned p ih => exact ih h hfit
  | operand a =>
    intro rest hrest
    simpa [yield, Terminal.expand] using h a (by simp [yield]) rest hrest
  | round e ih =>
    simp only [yield, List.mem_append, List.mem_cons, reduceCtorEq, false_or, List.not_mem_nil,
      or_false] at h
    obtain ⟨d, hd, hd'⟩ := ih h hfit
    intro rest hrest
    -- In brackets everything is derived anew, and with them it is a single operand.
    simpa [yield, hd, Terminal.expand] using IsOperation.unit (.unsigned (.round d)) hd' hrest
  | square e ih =>
    simp only [yield, List.mem_append, List.mem_cons, reduceCtorEq, false_or, List.not_mem_nil,
      or_false] at h
    obtain ⟨d, hd, hd'⟩ := ih h hfit
    intro rest hrest
    simpa [yield, hd, Terminal.expand] using IsOperation.unit (.unsigned (.square d)) hd' hrest
  | call text f hf first more ih ihm =>
    simp only [yield, List.mem_append, List.mem_cons, reduceCtorEq, false_or, List.not_mem_nil,
      or_false] at h
    simp only [callsFit, Bool.and_eq_true] at hfit
    obtain ⟨d, hd, hd'⟩ := ih (fun a ha => h a (.inl ha)) hfit.1.2
    obtain ⟨dm, hm, hm', hcount⟩ := ihm (fun a ha => h a (.inr ha)) hfit.2
    intro rest hrest
    have hcall : (Derivation.unsigned (.call text f hf d dm)).callsFit := by
      simp [callsFit, hcount, hfit.1.1, hd', hm']
    simpa [yield, hd, hm, Terminal.expand] using IsOperation.unit _ hcall hrest
  | noArgument => exact ⟨.noArgument, rfl, rfl, rfl⟩
  | argument e more ih ihm =>
    simp only [yield, List.mem_append, List.mem_cons, reduceCtorEq, false_or] at h
    simp only [callsFit, Bool.and_eq_true] at hfit
    obtain ⟨d, hd, hd'⟩ := ih (fun a ha => h a (.inl ha)) hfit.1
    obtain ⟨dm, hm, hm', hcount⟩ := ihm (fun a ha => h a (.inr ha)) hfit.2
    refine ⟨.argument d dm, ?_, by simp [callsFit, hd', hm'], by simp [count, hcount]⟩
    simp [yield, hd, hm, Terminal.expand]

/-! ### Renaming operands -/

/-- Terminals whose operands can be renamed so that they have a derivation have one themselves. -/
theorem Derivation.exists_of_yield_map (f : α → β) {c : Construct} (d : Derivation β c)
    {ts : List (Terminal α)} (h : ts.map (Terminal.map f) = d.yield) :
    ∃ d' : Derivation α c, d'.yield = ts ∧ d'.callsFit = d.callsFit ∧ d'.count = d.count ∧
      d'.nesting = d.nesting := by
  induction d generalizing ts with
  | plain c ih =>
    obtain ⟨d, hd, hfit, -, hn⟩ := ih h
    exact ⟨.plain d, hd, hfit, rfl, hn⟩
  | choice c t e ihc iht ihe =>
    simp only [yield, List.map_eq_append_iff, List.map_eq_cons_iff, Terminal.map_eq_symbol_iff] at h
    obtain ⟨us, _, rfl, hc, _, _, rfl, rfl, vs, _, rfl, ht, _, ws, rfl, rfl, he⟩ := h
    obtain ⟨dc, rfl, hc', -, hcn⟩ := ihc hc
    obtain ⟨dt, rfl, ht', -, htn⟩ := iht ht
    obtain ⟨de, rfl, he', -, hen⟩ := ihe he
    exact ⟨.choice dc dt de, rfl, by simp [callsFit, hc', ht', he'], rfl, by simp [nesting, hcn, htn, hen]⟩
  | tier hlt first more ih ihm =>
    simp only [yield, List.map_eq_append_iff] at h
    obtain ⟨us, vs, rfl, hfirst, hmore⟩ := h
    obtain ⟨d, rfl, hd, -, hn⟩ := ih hfirst
    obtain ⟨dm, rfl, hm, -, hmn⟩ := ihm hmore
    exact ⟨.tier hlt d dm, rfl, by simp [callsFit, hd, hm], rfl, by simp [nesting, hn, hmn]⟩
  | noOperator =>
    obtain rfl := List.map_eq_nil_iff.1 h
    exact ⟨.noOperator, rfl, rfl, rfl, rfl⟩
  | operator s op hs hl right more ih ihm =>
    simp only [yield, List.map_eq_append_iff, List.map_eq_cons_iff, Terminal.map_eq_symbol_iff] at h
    obtain ⟨_, _, rfl, rfl, us, vs, rfl, hright, hmore⟩ := h
    obtain ⟨d, rfl, hd, -, hn⟩ := ih hright
    obtain ⟨dm, rfl, hm, -, hmn⟩ := ihm hmore
    exact ⟨.operator s op hs hl d dm, rfl, by simp [callsFit, hd, hm], rfl, by simp [nesting, hn, hmn]⟩
  | signed s op hs e ih =>
    simp only [yield, List.map_eq_cons_iff, Terminal.map_eq_symbol_iff] at h
    obtain ⟨_, us, rfl, rfl, he⟩ := h
    obtain ⟨d, rfl, hd, -, hn⟩ := ih he
    exact ⟨.signed s op hs d, rfl, hd, rfl, congrArg (· + 1) hn⟩
  | unsigned p ih =>
    obtain ⟨d, hd, hfit, -, hn⟩ := ih h
    exact ⟨.unsigned d, hd, hfit, rfl, hn⟩
  | operand b =>
    simp only [yield, List.map_eq_cons_iff, List.map_eq_nil_iff, Terminal.map_eq_operand_iff] at h
    obtain ⟨_, _, rfl, ⟨a, rfl, -⟩, rfl⟩ := h
    exact ⟨.operand a, rfl, rfl, rfl, rfl⟩
  | round e ih =>
    simp only [yield, List.map_eq_append_iff, List.map_eq_cons_iff, List.map_eq_nil_iff,
      Terminal.map_eq_symbol_iff] at h
    obtain ⟨_, _, rfl, rfl, us, _, rfl, he, _, _, rfl, rfl, rfl⟩ := h
    obtain ⟨d, rfl, hd, -, hn⟩ := ih he
    exact ⟨.round d, rfl, hd, rfl, congrArg (· + 1) hn⟩
  | square e ih =>
    simp only [yield, List.map_eq_append_iff, List.map_eq_cons_iff, List.map_eq_nil_iff,
      Terminal.map_eq_symbol_iff] at h
    obtain ⟨_, _, rfl, rfl, us, _, rfl, he, _, _, rfl, rfl, rfl⟩ := h
    obtain ⟨d, rfl, hd, -, hn⟩ := ih he
    exact ⟨.square d, rfl, hd, rfl, congrArg (· + 1) hn⟩
  | call text g hg first more ih ihm =>
    simp only [yield, List.map_eq_append_iff, List.map_eq_cons_iff, List.map_eq_nil_iff,
      Terminal.map_eq_symbol_iff, Terminal.map_eq_name_iff] at h
    obtain ⟨_, _, rfl, rfl, _, _, rfl, rfl, us, _, rfl, hfirst, vs, _, rfl, hmore, _, _, rfl, rfl, rfl⟩ := h
    obtain ⟨d, rfl, hd, -, hn⟩ := ih hfirst
    obtain ⟨dm, rfl, hm, hcount, hmn⟩ := ihm hmore
    exact ⟨.call text g hg d dm, rfl, by simp [callsFit, hd, hm, hcount], rfl, by simp [nesting, hn, hmn]⟩
  | noArgument =>
    obtain rfl := List.map_eq_nil_iff.1 h
    exact ⟨.noArgument, rfl, rfl, rfl, rfl⟩
  | argument e more ih ihm =>
    simp only [yield, List.map_eq_append_iff, List.map_eq_cons_iff, Terminal.map_eq_symbol_iff] at h
    obtain ⟨_, _, rfl, rfl, us, vs, rfl, he, hmore⟩ := h
    obtain ⟨d, rfl, hd, -, hn⟩ := ih he
    obtain ⟨dm, rfl, hm, hcount, hmn⟩ := ihm hmore
    exact ⟨.argument d dm, rfl, by simp [callsFit, hd, hm], by simp [count, hcount],
      by simp [nesting, hn, hmn]⟩

end Formula
end Tariff
