/-
# Signs that belong to operands

An operand of a template may be negative. Written out it is two terminals then, a minus sign and its size, and a
derivation of terminals that are written out may take the sign for the operator of a difference.

| operands | written out | the sign is |
| --- | --- | --- |
| `a * x`, `x` negative | `a * - b` | the one of `x` |
| `- x`, `x` negative | `- - b` | the one of `x` |
| `a x`, `x` negative | `a - b` | an operator |

That needs the end of an operand in front of the sign. Where no negative operand stands behind one (`SignsApart`),
each sign is read as part of its operand, and the operands have a derivation as they are
(`Derivation.exists_of_yield_written`). The other direction is `Derivation.refill`.
-/

import Mathlib.Data.List.Chain
import Tariff.Proofs.Formula.Reading

namespace Tariff
namespace Formula

variable {α β : Type}

/-- Terminals with their operands written out: the size, behind a minus sign if the operand is negative. -/
def written (size : α → β) (neg : α → Bool) (ts : List (Terminal α)) : List (Terminal β) :=
  ts.flatMap (Terminal.expand fun a =>
    if neg a then [.symbol .minus, .operand (size a)] else [.operand (size a)])

/-- Whether an operand may end with a terminal. -/
def Terminal.endsOperand : Terminal α → Bool
  | operand _ | symbol .closeRound | symbol .closeSquare => true
  | _ => false

def Terminal.isNegative (neg : α → Bool) : Terminal α → Bool
  | operand a => neg a
  | _ => false

/-- No negative operand stands behind the end of an operand. -/
abbrev SignsApart (neg : α → Bool) : List (Terminal α) → Prop :=
  List.IsChain fun t u => t.endsOperand → u.isNegative neg = false

/-! ### Ends of operands -/

/-- The last terminal is one that an operand may end with. -/
def EndsOperand (ts : List (Terminal α)) : Prop := ∃ t ∈ ts.getLast?, t.endsOperand

theorem EndsOperand.behind {ts : List (Terminal α)} (h : EndsOperand ts) (front : List (Terminal α)) :
    EndsOperand (front ++ ts) := by
  obtain ⟨t, ht, hends⟩ := h
  exact ⟨t, by rw [List.getLast?_append, Option.mem_def.1 ht, Option.some_or, Option.mem_def], hends⟩

theorem EndsOperand.of_append {front ts : List (Terminal α)} (h : EndsOperand (front ++ ts)) (hne : ts ≠ []) :
    EndsOperand ts := by
  obtain ⟨t, ht, hends⟩ := h
  rw [List.getLast?_append, List.getLast?_eq_some_getLast hne, Option.some_or] at ht
  exact ⟨t, List.getLast?_eq_some_getLast hne ▸ ht, hends⟩

namespace Derivation

/-- A construct that is never empty ends an operand if it does whenever it is not empty. -/
theorem endsOperand_of_ne_nil {c : Construct} (d : Derivation β c)
    (hc : c ≠ .arguments ∧ ∀ level, c ≠ .operators level) (h : d.yield = [] ∨ EndsOperand d.yield) :
    EndsOperand d.yield := by
  obtain ⟨t, ys, hy, -⟩ := exists_yield_eq_cons d hc
  exact h.resolve_left (by simp [hy])

/-- What has a derivation ends as an operand does. Operators and arguments may be nothing at all. -/
theorem yield_eq_nil_or_endsOperand {c : Construct} (d : Derivation β c) :
    d.yield = [] ∨ EndsOperand d.yield := by
  have hround : EndsOperand [(.symbol .closeRound : Terminal β)] := ⟨_, rfl, rfl⟩
  have hsquare : EndsOperand [(.symbol .closeSquare : Terminal β)] := ⟨_, rfl, rfl⟩
  have happend {xs ys : List (Terminal β)} (hx : EndsOperand xs) (hy : ys = [] ∨ EndsOperand ys) :
      EndsOperand (xs ++ ys) := by
    obtain rfl | hy := hy
    · rwa [List.append_nil]
    · exact hy.behind xs
  induction d with
  | plain c ih => exact ih
  | choice c t e ihc iht ihe =>
    exact .inr ((((e.endsOperand_of_ne_nil (by simp) ihe).behind [_]).behind t.yield).behind [_] |>.behind c.yield)
  | tier h first more ih ihm => exact .inr (happend (first.endsOperand_of_ne_nil (by simp) ih) ihm)
  | noOperator => exact .inl rfl
  | operator s op hs hl right more ih ihm =>
    exact .inr ((happend (right.endsOperand_of_ne_nil (by simp) ih) ihm).behind [_])
  | signed s op hs e ih => exact .inr ((e.endsOperand_of_ne_nil (by simp) ih).behind [_])
  | unsigned p ih => exact ih
  | operand a => exact .inr ⟨_, rfl, rfl⟩
  | round e ih => exact .inr ((hround.behind e.yield).behind [_])
  | square e ih => exact .inr ((hsquare.behind e.yield).behind [_])
  | call text f hf first more ih ihm =>
    exact .inr (((hround.behind more.yield).behind first.yield).behind [_, _])
  | noArgument => exact .inl rfl
  | argument e more ih ihm => exact .inr ((happend (e.endsOperand_of_ne_nil (by simp) ih) ihm).behind [_])

/-- **Every construct that stands for a number ends an operand**: with a number, or with a closing bracket. -/
theorem endsOperand_yield {c : Construct} (d : Derivation β c)
    (hc : c ≠ .arguments ∧ ∀ level, c ≠ .operators level) : EndsOperand d.yield :=
  d.endsOperand_of_ne_nil hc d.yield_eq_nil_or_endsOperand

end Derivation

/-- Behind the end of an operand comes a symbol. -/
abbrev OperandsApart : List (Terminal α) → Prop := List.IsChain fun t u => t.endsOperand → u.isSymbol

/-- A symbol that closes nothing may stand in front, as no operand ends there. -/
theorem operandsApart_symbol_cons {s : Symbol} {ts : List (Terminal α)} (hs : s ≠ .closeRound ∧ s ≠ .closeSquare)
    (h : OperandsApart ts) : OperandsApart (.symbol s :: ts) := by
  refine List.isChain_cons.2 ⟨fun u _ hends => ?_, h⟩
  cases s <;> simp [Terminal.endsOperand] at hs hends

/-- **In a derivation every operand is followed by a symbol.** By induction on the derivation: what stands
behind an operand begins an operator, a comma or a closing bracket. -/
theorem Derivation.operandsApart_yield {c : Construct} (d : Derivation β c) : OperandsApart d.yield := by
  have happend {xs ys : List (Terminal β)} (hx : OperandsApart xs) (hy : OperandsApart ys)
      (hsymbol : ∀ u ∈ ys.head?, u.isSymbol) : OperandsApart (xs ++ ys) :=
    List.isChain_append.2 ⟨hx, hy, fun _ _ u hu _ => hsymbol u hu⟩
  have hclosing (s : Symbol) {xs : List (Terminal β)} (hx : OperandsApart xs) : OperandsApart (xs ++ [.symbol s]) :=
    happend hx (.singleton _) (by simp [Terminal.isSymbol])
  induction d with
  | plain c ih => exact ih
  | choice c t e ihc iht ihe =>
    have hother := operandsApart_symbol_cons (s := .colon) (by decide) ihe
    have hbranches := happend iht hother (by simp [Terminal.isSymbol])
    exact happend ihc (operandsApart_symbol_cons (by decide) hbranches) (by simp [Terminal.isSymbol])
  | tier h first more ih ihm => exact happend ih ihm (head?_yield more (.inr ⟨_, rfl⟩))
  | noOperator => exact .nil
  | operator s op hs hl right more ih ihm =>
    refine operandsApart_symbol_cons ?_ (happend ih ihm (head?_yield more (.inr ⟨_, rfl⟩)))
    constructor <;> (rintro rfl; cases hs)
  | signed s op hs e ih =>
    refine operandsApart_symbol_cons ?_ ih
    constructor <;> (rintro rfl; cases hs)
  | unsigned p ih => exact ih
  | operand a => exact .singleton _
  | round e ih => exact operandsApart_symbol_cons (by decide) (hclosing _ ih)
  | square e ih => exact operandsApart_symbol_cons (by decide) (hclosing _ ih)
  | call text f hf first more ih ihm =>
    have harguments := happend ih ihm (head?_yield more (.inl rfl))
    rw [yield, ← List.append_assoc]
    exact List.isChain_cons.2 ⟨by simp [Terminal.endsOperand],
      operandsApart_symbol_cons (by decide) (hclosing _ harguments)⟩
  | noArgument => exact .nil
  | argument e more ih ihm =>
    exact operandsApart_symbol_cons (by decide) (happend ih ihm (head?_yield more (.inl rfl)))

/-! ### Parts of what is written out -/

variable {size : α → β} {neg : α → Bool} {ts us : List (Terminal α)}

/-- Terminals are written out one by one, so parts can be written out apart. -/
theorem written_append : written size neg (ts ++ us) = written size neg ts ++ written size neg us :=
  List.flatMap_append

theorem written_cons (t : Terminal α) : written size neg (t :: ts) = written size neg [t] ++ written size neg ts := by
  rw [← written_append]
  rfl

/-- A terminal written out is itself with its operand renamed, behind a minus sign if it is negative. -/
theorem written_singleton (t : Terminal α) : written size neg [t] =
    if t.isNegative neg then [.symbol .minus, t.map size] else [t.map size] := by
  cases t with
  | operand a => cases h : neg a <;> simp [written, Terminal.expand, Terminal.isNegative, Terminal.map, h]
  | name text => rfl
  | symbol s => rfl

/-- Writing the size for an operand does not change whether an operand may end there. -/
theorem endsOperand_map (t : Terminal α) : (t.map size).endsOperand = t.endsOperand := by
  cases t with
  | operand a => rfl
  | name text => rfl
  | symbol s => cases s <;> rfl

/-- Writing out makes terminals more, if anything. -/
theorem length_le_length_written : ts.length ≤ (written size neg ts).length := by
  induction ts with
  | nil => exact Nat.le_refl _
  | cons t ts ih =>
    rw [written_cons, written_singleton, List.length_append, List.length_cons]
    split <;> simp only [List.length_cons, List.length_nil] <;> omega

theorem written_eq_nil_iff : written size neg ts = [] ↔ ts = [] := by
  cases ts with
  | nil => simp [written]
  | cons t ts =>
    rw [written_cons, written_singleton]
    split <;> simp

/-- What is written out ends as the operands do. -/
theorem endsOperand_of_written (h : EndsOperand (written size neg ts)) : EndsOperand ts := by
  rcases List.eq_nil_or_concat ts with rfl | ⟨ts, t, rfl⟩
  · simp [EndsOperand, written] at h
  · obtain ⟨u, hu, hends⟩ := h
    rw [List.concat_eq_append] at hu ⊢
    refine ⟨t, List.getLast?_concat, ?_⟩
    have hlast : (written size neg [t]).getLast? = some (t.map size) := by
      rw [written_singleton]
      split <;> rfl
    rw [written_append, List.getLast?_append, hlast, Option.some_or] at hu
    rw [← @endsOperand_map _ _ size t, Option.some.inj hu]
    exact hends

/-- **A part that does not end with a sign is a part of the operands.** What is written out can be cut in two
between a sign and its size only, so such a part is some operands written out. -/
theorem exists_of_written_eq_append {xs ys : List (Terminal β)} (h : written size neg ts = xs ++ ys)
    (hx : EndsOperand xs) : ∃ us vs, ts = us ++ vs ∧ written size neg us = xs ∧ written size neg vs = ys := by
  induction ts generalizing xs with
  | nil =>
    obtain ⟨rfl, rfl⟩ := List.nil_eq_append_iff.1 h
    exact ⟨[], [], rfl, rfl, rfl⟩
  | cons t ts ih =>
    rw [written_cons, List.append_eq_append_iff] at h
    obtain ⟨as, rfl, has⟩ | ⟨bs, hbs, rfl⟩ := h
    · by_cases hne : as = []
      · subst hne
        exact ⟨[t], ts, rfl, by rw [List.append_nil], has⟩
      · obtain ⟨us, vs, rfl, rfl, rfl⟩ := ih has (hx.of_append hne)
        exact ⟨t :: us, vs, rfl, written_cons t, rfl⟩
    · by_cases hne : bs = []
      · subst hne
        exact ⟨[t], ts, rfl, by rw [hbs, List.append_nil], rfl⟩
      · -- Only the sign of `t` is left for `xs`, and with a sign no operand ends.
        exfalso
        obtain ⟨u, hu, hends⟩ := hx
        rw [written_singleton] at hbs
        split at hbs
        · rcases xs with _ | ⟨x, _ | ⟨x', xs⟩⟩
          · simp at hu
          · obtain ⟨rfl, -⟩ := List.cons.inj hbs
            obtain rfl := Option.some.inj hu
            exact absurd hends (by simp [Terminal.endsOperand])
          · simp [hne] at hbs
        · rcases xs with _ | ⟨x, xs⟩
          · simp at hu
          · simp [hne] at hbs

/-- The first terminal that is written out: itself with its operand renamed, or the sign of a negative operand. -/
theorem written_eq_cons {x : Terminal β} {xs : List (Terminal β)} (h : written size neg ts = x :: xs) :
    ∃ t us, ts = t :: us ∧ (t.isNegative neg = false ∧ t.map size = x ∧ written size neg us = xs ∨
      t.isNegative neg ∧ x = .symbol .minus ∧ xs = t.map size :: written size neg us) := by
  cases ts with
  | nil => simp [written] at h
  | cons t us =>
    refine ⟨t, us, rfl, ?_⟩
    rw [written_cons, written_singleton] at h
    cases hneg : t.isNegative neg with
    | false =>
      rw [hneg] at h
      obtain ⟨rfl, rfl⟩ := List.cons.inj h
      exact .inl ⟨rfl, rfl, rfl⟩
    | true =>
      rw [hneg] at h
      obtain ⟨rfl, rfl⟩ := List.cons.inj h
      exact .inr ⟨rfl, rfl, rfl⟩

/-- A symbol is written as itself, so it is one of the terminals, unless it is the sign of an operand. -/
theorem exists_of_written_eq_symbol {s : Symbol} {xs : List (Terminal β)}
    (h : written size neg ts = .symbol s :: xs) (hs : SignsApart neg ts)
    (hsign : s = .minus → ∀ t ∈ ts.head?, t.isNegative neg = false) :
    ∃ us, ts = .symbol s :: us ∧ written size neg us = xs ∧ SignsApart neg us := by
  obtain ⟨t, us, rfl, ⟨-, ht, hus⟩ | ⟨ht, hminus, -⟩⟩ := written_eq_cons h
  · obtain rfl := Terminal.map_eq_symbol_iff.1 ht
    exact ⟨us, rfl, hus, hs.tail⟩
  · have := hsign (Terminal.symbol.inj hminus) t rfl
    simp [ht] at this

/-- Where an operand begins what is written out, an operand without a sign was at the front. -/
theorem exists_of_written_eq_operand {b : β} {xs : List (Terminal β)}
    (h : written size neg ts = .operand b :: xs) :
    ∃ a us, ts = .operand a :: us ∧ written size neg us = xs := by
  obtain ⟨t, us, rfl, ⟨-, ht, hus⟩ | ⟨-, hminus, -⟩⟩ := written_eq_cons h
  · obtain ⟨a, rfl, -⟩ := Terminal.map_eq_operand_iff.1 ht
    exact ⟨a, us, rfl, hus⟩
  · simp at hminus

namespace Derivation

/-- The terminals of a derivation in front of others. -/
theorem exists_of_written {c : Construct} (d : Derivation β c) {xs : List (Terminal β)}
    (h : written size neg ts = d.yield ++ xs) (hs : SignsApart neg ts) :
    ∃ us vs, ts = us ++ vs ∧ written size neg us = d.yield ∧ written size neg vs = xs ∧
      SignsApart neg us ∧ SignsApart neg vs ∧
      (EndsOperand d.yield → ∀ v ∈ vs.head?, v.isNegative neg = false) := by
  obtain hnil | hends := d.yield_eq_nil_or_endsOperand
  · rw [hnil, List.nil_append] at h
    refine ⟨[], ts, rfl, hnil ▸ rfl, h, .nil, hs, ?_⟩
    rintro ⟨t, ht, -⟩
    simp [hnil] at ht
  · obtain ⟨us, vs, rfl, hus, hvs⟩ := exists_of_written_eq_append h hends
    obtain ⟨hs, hs', hmeet⟩ := List.isChain_append.1 hs
    refine ⟨us, vs, rfl, hus, hvs, hs, hs', fun _ v hv => ?_⟩
    obtain ⟨t, ht, hend⟩ := endsOperand_of_written (hus ▸ hends)
    exact hmeet t ht v hv hend

/-- Behind a sign an operand stands alone. -/
theorem eq_operand_of_yield {e : Derivation β (.tier 6)} {b : β} {ys : List (Terminal β)}
    (h : e.yield = .operand b :: ys) : e = .unsigned (.operand b) ∧ ys = [] := by
  cases e with
  | tier hlt => exact absurd hlt (Nat.lt_irrefl 6)
  | signed => simp [yield] at h
  | unsigned p =>
    cases p with
    | operand a =>
      obtain ⟨ha, rfl⟩ := List.cons.inj h
      exact ⟨by rw [Terminal.operand.inj ha], rfl⟩
    | round => simp [yield] at h
    | square => simp [yield] at h
    | call => simp [yield] at h

/-- **Operands have a derivation if they have one written out,** where no negative one stands behind the end of
an operand. It is nested no deeper. The induction is on the derivation of what is written out; operators are
read with the operand to their left in mind, which is why none of them is the sign of an operand. -/
theorem exists_of_yield_written {c : Construct} (d : Derivation β c) {ts : List (Terminal α)}
    (h : written size neg ts = d.yield) (hs : SignsApart neg ts)
    (hhead : (∃ k, c = .operators k) → ∀ t ∈ ts.head?, t.isNegative neg = false) :
    ∃ d' : Derivation α c, d'.yield = ts ∧ d'.callsFit = d.callsFit ∧ d'.count = d.count ∧
      d'.nesting ≤ d.nesting := by
  induction d generalizing ts with
  | plain c ih =>
    obtain ⟨d, hd, hfit, -, hn⟩ := ih h hs (by simp)
    exact ⟨.plain d, hd, hfit, rfl, hn⟩
  | choice c t e ihc iht ihe =>
    obtain ⟨us, rest, rfl, hc, h, hus, hrest, -⟩ := c.exists_of_written h hs
    obtain ⟨branches, rfl, h, hbranches⟩ := exists_of_written_eq_symbol h hrest (by simp)
    obtain ⟨vs, other, rfl, ht, h, hvs, hother, -⟩ := t.exists_of_written h hbranches
    obtain ⟨ws, rfl, he, hws⟩ := exists_of_written_eq_symbol h hother (by simp)
    obtain ⟨dc, rfl, hc', -, hcn⟩ := ihc hc hus (by simp)
    obtain ⟨dt, rfl, ht', -, htn⟩ := iht ht hvs (by simp)
    obtain ⟨de, rfl, he', -, hen⟩ := ihe he hws (by simp)
    refine ⟨.choice dc dt de, rfl, by simp [callsFit, hc', ht', he'], rfl, ?_⟩
    simp only [nesting]
    omega
  | tier hlt first more ih ihm =>
    obtain ⟨us, vs, rfl, hfirst, hmore, hus, hvs, hmeet⟩ := first.exists_of_written h hs
    obtain ⟨d, rfl, hd, -, hn⟩ := ih hfirst hus (by simp)
    -- The operators stand behind the end of an operand, so their first symbol is no sign of an operand.
    obtain ⟨dm, rfl, hm, -, hmn⟩ := ihm hmore hvs fun _ => hmeet (first.endsOperand_yield (by simp))
    refine ⟨.tier hlt d dm, rfl, by simp [callsFit, hd, hm], rfl, ?_⟩
    simp only [nesting]
    omega
  | noOperator =>
    obtain rfl := written_eq_nil_iff.1 h
    exact ⟨.noOperator, rfl, rfl, rfl, Nat.le_refl _⟩
  | operator s op hsym hl right more ih ihm =>
    obtain ⟨rest, rfl, h, hrest⟩ := exists_of_written_eq_symbol h hs fun _ => hhead ⟨_, rfl⟩
    obtain ⟨us, vs, rfl, hright, hmore, hus, hvs, hmeet⟩ := right.exists_of_written h hrest
    obtain ⟨d, rfl, hd, -, hn⟩ := ih hright hus (by simp)
    obtain ⟨dm, rfl, hm, -, hmn⟩ := ihm hmore hvs fun _ => hmeet (right.endsOperand_yield (by simp))
    refine ⟨.operator s op hsym hl d dm, rfl, by simp [callsFit, hd, hm], rfl, ?_⟩
    simp only [nesting]
    omega
  | signed s op hsym e ih =>
    obtain ⟨t, us, rfl, ⟨-, ht, he⟩ | ⟨hneg, -, he⟩⟩ := written_eq_cons h
    · obtain rfl := Terminal.map_eq_symbol_iff.1 ht
      obtain ⟨d, rfl, hd, -, hn⟩ := ih he hs.tail (by simp)
      exact ⟨.signed s op hsym d, rfl, hd, rfl, Nat.succ_le_succ hn⟩
    · -- The sign of a negative operand, which becomes one operand again.
      cases t with
      | operand a =>
        obtain ⟨rfl, hus⟩ := eq_operand_of_yield he
        obtain rfl := written_eq_nil_iff.1 hus
        exact ⟨.unsigned (.operand a), rfl, rfl, rfl, Nat.zero_le _⟩
      | name => simp [Terminal.isNegative] at hneg
      | symbol => simp [Terminal.isNegative] at hneg
  | unsigned p ih =>
    obtain ⟨d, hd, hfit, -, hn⟩ := ih h hs (by simp)
    exact ⟨.unsigned d, hd, hfit, rfl, hn⟩
  | operand b =>
    obtain ⟨a, us, rfl, hus⟩ := exists_of_written_eq_operand h
    obtain rfl := written_eq_nil_iff.1 hus
    exact ⟨.operand a, rfl, rfl, rfl, Nat.le_refl _⟩
  | round e ih =>
    obtain ⟨rest, rfl, h, hrest⟩ := exists_of_written_eq_symbol h hs (by simp)
    obtain ⟨us, vs, rfl, he, h, hus, hvs, -⟩ := e.exists_of_written h hrest
    obtain ⟨vs, rfl, h, -⟩ := exists_of_written_eq_symbol h hvs (by simp)
    obtain rfl := written_eq_nil_iff.1 h
    obtain ⟨d, rfl, hd, -, hn⟩ := ih he hus (by simp)
    exact ⟨.round d, rfl, hd, rfl, Nat.succ_le_succ hn⟩
  | square e ih =>
    obtain ⟨rest, rfl, h, hrest⟩ := exists_of_written_eq_symbol h hs (by simp)
    obtain ⟨us, vs, rfl, he, h, hus, hvs, -⟩ := e.exists_of_written h hrest
    obtain ⟨vs, rfl, h, -⟩ := exists_of_written_eq_symbol h hvs (by simp)
    obtain rfl := written_eq_nil_iff.1 h
    obtain ⟨d, rfl, hd, -, hn⟩ := ih he hus (by simp)
    exact ⟨.square d, rfl, hd, rfl, Nat.succ_le_succ hn⟩
  | call text f hf first more ih ihm =>
    -- A name is written out as it is; a minus sign in its place would be that of an operand.
    obtain ⟨t, rest, rfl, ⟨-, ht, hopen⟩ | ⟨-, hminus, -⟩⟩ := written_eq_cons h
    · obtain rfl := Terminal.map_eq_name_iff.1 ht
      obtain ⟨inner, rfl, h, hinner⟩ := exists_of_written_eq_symbol hopen hs.tail (by simp)
      obtain ⟨us, others, rfl, hfirst, h, hus, hothers, -⟩ := first.exists_of_written h hinner
      obtain ⟨vs, ws, rfl, hmore, hclose, hvs, hws, -⟩ := more.exists_of_written h hothers
      obtain ⟨ws, rfl, hnil, -⟩ := exists_of_written_eq_symbol hclose hws (by simp)
      obtain rfl := written_eq_nil_iff.1 hnil
      obtain ⟨d, rfl, hd, -, hn⟩ := ih hfirst hus (by simp)
      obtain ⟨dm, rfl, hm, hcount, hmn⟩ := ihm hmore hvs (by simp)
      refine ⟨.call text f hf d dm, rfl, by simp [callsFit, hd, hm, hcount], rfl, ?_⟩
      simp only [nesting]
      omega
    · simp at hminus
  | noArgument =>
    obtain rfl := written_eq_nil_iff.1 h
    exact ⟨.noArgument, rfl, rfl, rfl, Nat.le_refl _⟩
  | argument e more ih ihm =>
    obtain ⟨rest, rfl, h, hrest⟩ := exists_of_written_eq_symbol h hs (by simp)
    obtain ⟨us, vs, rfl, he, hmore, hus, hvs, -⟩ := e.exists_of_written h hrest
    obtain ⟨d, rfl, hd, -, hn⟩ := ih he hus (by simp)
    obtain ⟨dm, rfl, hm, hcount, hmn⟩ := ihm hmore hvs (by simp)
    refine ⟨.argument d dm, rfl, by simp [callsFit, hd, hm], by simp [count, hcount], ?_⟩
    simp only [nesting]
    omega

end Derivation

end Formula
end Tariff
