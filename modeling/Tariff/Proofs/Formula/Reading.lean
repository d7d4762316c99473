/-
# Readers read the grammar

A reader of a construct is *exact* within a number of levels (`Exact`) if what it takes from the front
of the tokens always has a derivation of that construct, and if it takes every derivation that ends
where its construct ends, or reports that the derivation is nested too deep. Each way of building a
reader keeps exactness, from which it follows for all readers by induction on the levels
(`exact_conditional`, `exact_unary`).
-/

import Tariff.Proofs.Formula.Unambiguous
import Tariff.Proofs.Outcome

namespace Tariff
namespace Formula

/-- Derivations of tokens. -/
abbrev Parse (c : Construct) := Derivation (List Char) c

/-- A reader takes just what derives a construct within a number of levels. -/
structure Exact (c : Construct) (room : Nat) (R : Reads c.Meaning) : Prop where
  sound : ∀ {ts x rest}, R ts = .ok (x, rest) → ∃ (d : Parse c) (used : List Token),
    ts = used ++ rest ∧ used.map Token.terminal = d.yield ∧ d.nesting ≤ room ∧
      d.tree? numberValue = some x
  complete : ∀ (d : Parse c) (rest : List Token) {x used}, used.map Token.terminal = d.yield →
    d.tree? numberValue = some x → c.EndsBefore (rest.map Token.terminal) →
      R (used ++ rest) = if d.nesting ≤ room then .ok (x, rest) else .error .tooDeep

/-! ### Single symbols -/

theorem terminal_eq_symbol {t : Token} {s : Symbol} :
    t.terminal = .symbol s ↔ t.lexeme = .symbol s := by
  rcases t with ⟨_ | _ | _, _⟩ <;> simp [Token.terminal, Lexeme.terminal]

theorem terminal_eq_name {t : Token} {text : List Char} :
    t.terminal = .name text ↔ t.lexeme = .name text := by
  rcases t with ⟨_ | _ | _, _⟩ <;> simp [Token.terminal, Lexeme.terminal]

theorem terminal_eq_operand {t : Token} {text : List Char} :
    t.terminal = .operand text ↔ t.lexeme = .number text := by
  rcases t with ⟨_ | _ | _, _⟩ <;> simp [Token.terminal, Lexeme.terminal]

/-- A symbol is accepted just if it comes next. -/
theorem accept?_eq_some_iff {s : Symbol} {ts rest : List Token} :
    accept? s ts = some rest ↔ ∃ t, ts = t :: rest ∧ t.terminal = .symbol s := by
  rcases ts with _ | ⟨t, ts⟩
  · simp [accept?]
  · simp only [accept?, Option.ite_none_right_eq_some, Option.some.injEq, List.cons.injEq,
      terminal_eq_symbol]
    constructor
    · rintro ⟨ht, rfl⟩
      exact ⟨t, ⟨rfl, rfl⟩, ht⟩
    · rintro ⟨_, ⟨rfl, rfl⟩, ht⟩
      exact ⟨ht, rfl⟩

theorem accept?_cons {t : Token} {s : Symbol} (h : t.terminal = .symbol s) (rest : List Token) :
    accept? s (t :: rest) = some rest :=
  accept?_eq_some_iff.2 ⟨t, rfl, h⟩

/-- What does not come next is not accepted. -/
theorem accept?_eq_none {s : Symbol} {ts : List Token}
    (h : ∀ t ∈ (ts.map Token.terminal).head?, t ≠ .symbol s) : accept? s ts = none := by
  rcases ts with _ | ⟨t, ts⟩
  · rfl
  · have ht : t.lexeme ≠ .symbol s := fun he => h t.terminal rfl (terminal_eq_symbol.2 he)
    simp [accept?, ht]

/-- A symbol that has to come next is found just if it does. -/
theorem expect_eq_ok_iff {s : Symbol} {ts rest : List Token} :
    expect s ts = .ok rest ↔ ∃ t, ts = t :: rest ∧ t.terminal = .symbol s := by
  rcases ts with _ | ⟨t, ts⟩
  · simp [expect]
  · simp only [expect, List.cons.injEq, terminal_eq_symbol]
    split
    · rename_i ht
      simp only [Except.ok.injEq]
      constructor
      · rintro rfl
        exact ⟨t, ⟨rfl, rfl⟩, ht⟩
      · rintro ⟨_, ⟨rfl, rfl⟩, _⟩
        rfl
    · rename_i ht
      simp only [reduceCtorEq, false_iff]
      rintro ⟨_, ⟨rfl, rfl⟩, h⟩
      exact ht h

theorem expect_cons {t : Token} {s : Symbol} (h : t.terminal = .symbol s) (rest : List Token) :
    expect s (t :: rest) = .ok rest :=
  expect_eq_ok_iff.2 ⟨t, rfl, h⟩

/-- An operator of a level is found just if a symbol comes next that stands for one of that level. -/
theorem operator?_eq_some_iff {level : Nat} {ts rest : List Token} {op : BinaryOp} :
    operator? level ts = some (op, rest) ↔ ∃ t s, ts = t :: rest ∧ t.terminal = .symbol s ∧
      s.binary? = some op ∧ op.level = level := by
  rcases ts with _ | ⟨⟨text | text | s, position⟩, ts⟩
  · simp [operator?]
  · simp [operator?, Token.terminal, Lexeme.terminal]
  · simp [operator?, Token.terminal, Lexeme.terminal]
  · cases hs : s.binary? with
    | none =>
      simp only [operator?, hs, reduceCtorEq, false_iff]
      rintro ⟨t, s', ⟨rfl, -⟩, ht, hs', -⟩
      obtain rfl : s = s' := by simpa [Token.terminal, Lexeme.terminal] using ht
      simp [hs] at hs'
    | some op' =>
      simp only [operator?, hs, Option.ite_none_right_eq_some, Option.some.injEq, Prod.mk.injEq]
      constructor
      · rintro ⟨hl, rfl, rfl⟩
        exact ⟨_, s, rfl, rfl, hs, hl⟩
      · rintro ⟨t, s', h, ht, hs', hl⟩
        obtain ⟨rfl, rfl⟩ := List.cons.inj h
        obtain rfl : s = s' := by simpa [Token.terminal, Lexeme.terminal] using ht
        obtain rfl := Option.some.inj (hs.symm.trans hs')
        exact ⟨hl, rfl, rfl⟩

/-- No operator of a level comes where the operators of the level end. -/
theorem operator?_eq_none {level : Nat} {ts : List Token}
    (h : (Construct.operators level).EndsBefore (ts.map Token.terminal)) :
    operator? level ts = none := by
  rw [Option.eq_none_iff_forall_ne_some]
  rintro ⟨op, rest⟩ hop
  obtain ⟨t, s, rfl, ht, hs, hl⟩ := operator?_eq_some_iff.1 hop
  simp [ht, Construct.goesOn, Terminal.level?, hs, hl] at h

/-- A sign is found just if a symbol comes next that stands for one. -/
theorem unaryOperator?_eq_some_iff {ts rest : List Token} {op : UnaryOp} :
    unaryOperator? ts = some (op, rest) ↔ ∃ t s, ts = t :: rest ∧ t.terminal = .symbol s ∧
      s.unary? = some op := by
  rcases ts with _ | ⟨⟨text | text | s, position⟩, ts⟩
  · simp [unaryOperator?]
  · simp [unaryOperator?, Token.terminal, Lexeme.terminal]
  · simp [unaryOperator?, Token.terminal, Lexeme.terminal]
  · simp only [unaryOperator?, Option.map_eq_some_iff, Prod.mk.injEq]
    constructor
    · rintro ⟨op', hs, rfl, rfl⟩
      exact ⟨_, s, rfl, rfl, hs⟩
    · rintro ⟨t, s', h, ht, hs⟩
      obtain ⟨rfl, rfl⟩ := List.cons.inj h
      obtain rfl : s = s' := by simpa [Token.terminal, Lexeme.terminal] using ht
      exact ⟨op, hs, rfl, rfl⟩

/-! ### Operators of one level -/

/-- A chain of operators that was read has a derivation, whose tree is what it adds to the operand on its left.
The induction is on the count. -/
theorem chain_sound {room level : Nat} {operand : Reads Expr}
    (hop : Exact (.tier (level + 1)) room operand) {count : Nat} {left e : Expr}
    {ts rest : List Token} (h : chain operand level count left ts = .ok (e, rest)) :
    ∃ (d : Parse (.operators level)) (used : List Token) (xs : List (BinaryOp × Expr)),
      ts = used ++ rest ∧ used.map Token.terminal = d.yield ∧ d.nesting ≤ room ∧
        d.tree? numberValue = some xs ∧ Derivation.groupLeft left xs = e := by
  induction count generalizing left ts with
  | zero =>
    obtain ⟨rfl, rfl⟩ := Prod.mk.inj (Except.ok.inj h)
    exact ⟨.noOperator, [], [], rfl, rfl, Nat.zero_le _, rfl, rfl⟩
  | succ count ih =>
    rw [chain] at h
    split at h
    · rename_i op after hnext
      obtain ⟨t, s, rfl, ht, hs, hl⟩ := operator?_eq_some_iff.1 hnext
      split at h
      · rename_i right after' hright
        obtain ⟨d, used, rfl, hy, hn, hx⟩ := hop.sound hright
        obtain ⟨d', used', xs, rfl, hy', hn', hxs, rfl⟩ := ih h
        refine ⟨.operator s op hs hl d d', t :: used ++ used', (op, right) :: xs, by simp, ?_, ?_, ?_, rfl⟩
        · simp [Derivation.yield, ht, hy, hy']
        · exact Nat.max_le.2 ⟨hn, hn'⟩
        · simp [Derivation.tree?, hx, hxs]
      · simp at h
    · obtain ⟨rfl, rfl⟩ := Prod.mk.inj (Except.ok.inj h)
      exact ⟨.noOperator, [], [], rfl, rfl, Nat.zero_le _, rfl, rfl⟩

/-- Operators that have a derivation are read if their operands are not nested too deep, and refused for that
otherwise. The induction is on the derivation; the count is enough for its tokens. -/
theorem chain_complete {room level : Nat} {operand : Reads Expr}
    (hop : Exact (.tier (level + 1)) room operand) : ∀ (d : Parse (.operators level)) (count : Nat)
      (left : Expr) {xs : List (BinaryOp × Expr)} {used rest : List Token},
      used.map Token.terminal = d.yield → d.tree? numberValue = some xs →
      (Construct.tier level).EndsBefore (rest.map Token.terminal) → used.length ≤ count →
        chain operand level count left (used ++ rest) =
          if d.nesting ≤ room then .ok (Derivation.groupLeft left xs, rest) else .error .tooDeep
  | .noOperator, count, left, xs, used, rest, hy, hx, hrest, hcount => by
    obtain rfl := List.map_eq_nil_iff.1 hy
    obtain rfl := Option.some.inj hx
    cases count with
    | zero => simp [chain, Derivation.nesting, Derivation.groupLeft]
    | succ count => simp [chain, operator?_eq_none hrest, Derivation.nesting, Derivation.groupLeft]
  | .operator s op hs hl right more, count, left, xs, used, rest, hy, hx, hrest, hcount => by
    simp only [Derivation.yield, List.map_eq_cons_iff, List.map_eq_append_iff] at hy
    obtain ⟨t, _, rfl, ht, used₁, used₂, rfl, hy₁, hy₂⟩ := hy
    obtain ⟨e, he, es, hes, rfl⟩ := Derivation.tree?_operator_eq_some_iff.1 hx
    cases count with
    | zero => simp at hcount
    | succ count =>
      -- The right operand ends where the further operators begin, or else the rest.
      have hright := hop.complete right (used₂ ++ rest) hy₁ he
        (by rw [List.map_append, hy₂]; exact hrest.operand more)
      have hmore := chain_complete hop more count (.binary op left e) hy₂ hes hrest
        (by simp only [List.length_cons, List.length_append] at hcount; omega)
      have hnext : operator? level (t :: (used₁ ++ (used₂ ++ rest))) =
          some (op, used₁ ++ (used₂ ++ rest)) := operator?_eq_some_iff.2 ⟨t, s, rfl, ht, hs, hl⟩
      simp only [List.cons_append, List.append_assoc, chain, hnext, hright, Derivation.nesting,
        Nat.max_le]
      by_cases h : right.nesting ≤ room
      · simp [h, hmore, Derivation.groupLeft]
      · simp [h]

/-- Operands of one level are read exactly if operands of the next are. -/
theorem exact_tier {room level : Nat} (hlt : level < 6) {operand : Reads Expr}
    (hop : Exact (.tier (level + 1)) room operand) :
    Exact (.tier level) room (tier level operand) where
  sound {ts e rest} h := by
    obtain ⟨⟨left, after⟩, hleft, hchain⟩ := bind_eq_ok_iff.1 h
    obtain ⟨d, used, rfl, hy, hn, hx⟩ := hop.sound hleft
    obtain ⟨d', used', xs, rfl, hy', hn', hxs, rfl⟩ := chain_sound hop hchain
    refine ⟨.tier hlt d d', used ++ used', by simp, by simp [Derivation.yield, hy, hy'],
      Nat.max_le.2 ⟨hn, hn'⟩, ?_⟩
    simp [Derivation.tree?, hx, hxs]
  complete d rest {e used} hy hx hrest := by
    cases d with
    | signed => omega
    | unsigned => omega
    | tier _ first more =>
      simp only [Derivation.yield, List.map_eq_append_iff] at hy
      obtain ⟨used₁, used₂, rfl, hy₁, hy₂⟩ := hy
      obtain ⟨left, hleft, xs, hxs, rfl⟩ := Derivation.tree?_tier_eq_some_iff.1 hx
      have hfirst := hop.complete first (used₂ ++ rest) hy₁ hleft
        (by rw [List.map_append, hy₂]; exact hrest.operand more)
      have hmore := chain_complete hop more (used₂ ++ rest).length left hy₂ hxs
        hrest (by simp)
      simp only [tier, List.append_assoc, hfirst, Derivation.nesting, Nat.max_le]
      exact ite_bind hmore

/-- What each tier keeps of its operands, all of them keep together. -/
theorem tiers_keep {P : Nat → Reads Expr → Prop} {room : Nat} {operand : Reads Expr} (hop : Exact (.tier 6) room operand)
    (h : P 6 operand)
    (hkeep : ∀ {level : Nat} {operand : Reads Expr}, level < 6 → Exact (.tier (level + 1)) room operand →
      P (level + 1) operand → P level (tier level operand)) : P 0 (tiers operand) := by
  have hstep {level : Nat} {operand : Reads Expr} (hlt : level < 6)
      (h : Exact (.tier (level + 1)) room operand ∧ P (level + 1) operand) :
      Exact (.tier level) room (tier level operand) ∧ P level (tier level operand) :=
    ⟨exact_tier hlt h.1, hkeep hlt h.1 h.2⟩
  exact (hstep (by decide) <| hstep (by decide) <| hstep (by decide) <| hstep (by decide) <|
    hstep (by decide) <| hstep (by decide) ⟨hop, h⟩).2

/-- So are those of all levels, by the steps from the tightest to the loosest. -/
theorem exact_tiers {room : Nat} {operand : Reads Expr} (hop : Exact (.tier 6) room operand) :
    Exact (.tier 0) room (tiers operand) :=
  tiers_keep (P := fun level reads => Exact (.tier level) room reads) hop hop fun hlt hop _ => exact_tier hlt hop

/-! ### Brackets and calls -/

/-- The readers for one level further in are exact. -/
def ExactInside (room : Nat) : Prop :=
  ∀ m, room = m + 1 →
    Exact .conditional m (conditional (inside m)) ∧ Exact (.tier 6) m (unary (inside m))

/-- Without levels left nothing can be entered. -/
theorem enter_zero : enter (inside 0) = .error .tooDeep := rfl

/-- With room for one level more, the readers of the levels inside are there. -/
theorem enter_succ (m : Nat) :
    enter (inside (m + 1)) = .ok ⟨conditional (inside m), unary (inside m)⟩ := rfl

/-- What goes a level deeper fails for want of room or within that level. -/
theorem tooDeep_or_of_enter {room : Nat} {α : Type} {f : Inner → Except Fault α} {fault : Fault}
    (h : enter (inside room) >>= f = .error fault) :
    fault = .tooDeep ∨ ∃ m, room = m + 1 ∧ f ⟨conditional (inside m), unary (inside m)⟩ = .error fault := by
  cases room with
  | zero =>
    rw [enter_zero, error_bind] at h
    exact .inl (Except.error.inj h).symm
  | succ m =>
    rw [enter_succ, ok_bind] at h
    exact .inr ⟨m, rfl, h⟩

/-- What was read in brackets has a derivation, nested one level less deep than there is room. -/
theorem bracketed_sound {room : Nat} (hin : ExactInside room) {closing : Symbol} {ts rest : List Token}
    {e : Expr} (h : bracketed (inside room) closing ts = .ok (e, rest)) :
    ∃ (d : Parse .conditional) (used : List Token) (t : Token), ts = used ++ t :: rest ∧
      used.map Token.terminal = d.yield ∧ t.terminal = .symbol closing ∧ d.nesting + 1 ≤ room ∧
        d.tree? numberValue = some e := by
  cases room with
  | zero => simp [bracketed, enter_zero, error_bind] at h
  | succ m =>
    rw [bracketed, enter_succ, ok_bind, bind_eq_ok_iff] at h
    obtain ⟨⟨e', after⟩, he, h₁⟩ := h
    obtain ⟨after', hclose, h₂⟩ := bind_eq_ok_iff.1 h₁
    obtain ⟨rfl, rfl⟩ := Prod.mk.inj (Except.ok.inj h₂)
    obtain ⟨t, rfl, ht⟩ := expect_eq_ok_iff.1 hclose
    obtain ⟨d, used, rfl, hy, hn, hx⟩ := (hin m rfl).1.sound he
    exact ⟨d, used, t, rfl, hy, ht, Nat.succ_le_succ hn, hx⟩

/-- A formula in brackets is read if there is room for it one level further in, and refused as too deep
otherwise. -/
theorem bracketed_complete {room : Nat} (hin : ExactInside room) {closing : Symbol}
    (hop : closing.binary? = none) (hq : closing ≠ .question) (d : Parse .conditional) {e : Expr}
    {used rest : List Token} {t : Token} (hy : used.map Token.terminal = d.yield)
    (ht : t.terminal = .symbol closing) (hx : d.tree? numberValue = some e) :
    bracketed (inside room) closing (used ++ t :: rest) =
      if d.nesting + 1 ≤ room then .ok (e, rest) else .error .tooDeep := by
  cases room with
  | zero => simp [bracketed, enter_zero, error_bind]
  | succ m =>
    have hread := (hin m rfl).1.complete d (t :: rest) hy hx
      (by rw [List.map_cons, ht]; exact Construct.conditional_endsBefore hop hq)
    have hclose := expect_cons ht rest
    simp only [bracketed, enter_succ, ok_bind, Nat.add_le_add_iff_right, hread]
    refine ite_bind_ok ?_
    simp only [hclose, ok_bind]
    rfl

/-- Further arguments that were read have a derivation, one for each comma. -/
theorem moreArguments_sound {room : Nat} {argument : Reads Expr}
    (harg : Exact .conditional room argument) {count : Nat} {es : List Expr} {ts rest : List Token}
    (h : moreArguments argument count ts = .ok (es, rest)) :
    ∃ (d : Parse .arguments) (used : List Token), ts = used ++ rest ∧
      used.map Token.terminal = d.yield ∧ d.nesting ≤ room ∧ d.tree? numberValue = some es := by
  induction count generalizing es ts with
  | zero =>
    obtain ⟨rfl, rfl⟩ := Prod.mk.inj (Except.ok.inj h)
    exact ⟨.noArgument, [], rfl, rfl, Nat.zero_le _, rfl⟩
  | succ count ih =>
    rw [moreArguments] at h
    split at h
    · rename_i after hcomma
      obtain ⟨t, rfl, ht⟩ := accept?_eq_some_iff.1 hcomma
      obtain ⟨⟨e, after₁⟩, he, h₁⟩ := bind_eq_ok_iff.1 h
      obtain ⟨⟨es', after₂⟩, hes, h₂⟩ := bind_eq_ok_iff.1 h₁
      obtain ⟨rfl, rfl⟩ := Prod.mk.inj (Except.ok.inj h₂)
      obtain ⟨d, used, rfl, hy, hn, hx⟩ := harg.sound he
      obtain ⟨d', used', rfl, hy', hn', hxs⟩ := ih hes
      refine ⟨.argument d d', t :: used ++ used', by simp, ?_, Nat.max_le.2 ⟨hn, hn'⟩, ?_⟩
      · simp [Derivation.yield, ht, hy, hy']
      · simp [Derivation.tree?, hx, hxs]
    · obtain ⟨rfl, rfl⟩ := Prod.mk.inj (Except.ok.inj h)
      exact ⟨.noArgument, [], rfl, rfl, Nat.zero_le _, rfl⟩

/-- Further arguments that have a derivation are read if they are not nested too deep, and refused for that
otherwise. -/
theorem moreArguments_complete {room : Nat} {argument : Reads Expr}
    (harg : Exact .conditional room argument) : ∀ (d : Parse .arguments) (count : Nat)
      {es : List Expr} {used rest : List Token}, used.map Token.terminal = d.yield →
      d.tree? numberValue = some es → Construct.arguments.EndsBefore (rest.map Token.terminal) →
      used.length ≤ count →
        moreArguments argument count (used ++ rest) =
          if d.nesting ≤ room then .ok (es, rest) else .error .tooDeep
  | .noArgument, count, es, used, rest, hy, hx, hrest, hcount => by
    obtain rfl := List.map_eq_nil_iff.1 hy
    obtain rfl := Option.some.inj hx
    have hcomma : accept? .comma rest = none := accept?_eq_none fun t ht => by
      rintro rfl
      simpa [Construct.goesOn, Terminal.is] using hrest _ ht
    cases count with
    | zero => simp [moreArguments, Derivation.nesting]
    | succ count => simp [moreArguments, hcomma, Derivation.nesting]
  | .argument e more, count, es, used, rest, hy, hx, hrest, hcount => by
    simp only [Derivation.yield, List.map_eq_cons_iff, List.map_eq_append_iff] at hy
    obtain ⟨t, _, rfl, ht, used₁, used₂, rfl, hy₁, hy₂⟩ := hy
    obtain ⟨x, he, xs, hxs, rfl⟩ := Derivation.tree?_argument_eq_some_iff.1 hx
    cases count with
    | zero => simp at hcount
    | succ count =>
      have hfirst := harg.complete e (used₂ ++ rest) hy₁ he
        (by rw [List.map_append, hy₂]; exact hrest.argument more)
      have hmore := moreArguments_complete harg more count hy₂ hxs hrest
        (by simp only [List.length_cons, List.length_append] at hcount; omega)
      simp only [List.cons_append, List.append_assoc, moreArguments, accept?_cons ht, hfirst,
        Derivation.nesting, Nat.max_le]
      refine ite_bind ?_
      simp only [hmore]
      exact ite_bind_ok rfl

/-- No derivation of an operand is empty, and none begins with a closing bracket. -/
theorem exists_yield_eq_cons {α : Type} {c : Construct} (d : Derivation α c)
    (hc : c ≠ .arguments ∧ ∀ level, c ≠ .operators level) :
    ∃ t ys, d.yield = t :: ys ∧ t ≠ .symbol .closeRound := by
  induction d with
  | plain c ih => exact ih (by simp)
  | choice c t e ih _ _ =>
    obtain ⟨t, ys, hy, ht⟩ := ih (by simp)
    exact ⟨t, _, by rw [Derivation.yield, hy]; rfl, ht⟩
  | tier h first more ih _ =>
    obtain ⟨t, ys, hy, ht⟩ := ih (by simp)
    exact ⟨t, _, by rw [Derivation.yield, hy]; rfl, ht⟩
  | noOperator => exact absurd rfl (hc.2 _)
  | operator => exact absurd rfl (hc.2 _)
  | signed s op hs e _ =>
    refine ⟨.symbol s, _, rfl, ?_⟩
    rintro ⟨⟩
    simp [Symbol.unary?] at hs
  | unsigned p ih => exact ih (by simp)
  | operand a => exact ⟨_, _, rfl, by simp⟩
  | round e _ => exact ⟨_, _, rfl, by simp⟩
  | square e _ => exact ⟨_, _, rfl, by simp⟩
  | call text f hf first more _ _ => exact ⟨_, _, rfl, by simp⟩
  | noArgument => exact absurd rfl hc.1
  | argument => exact absurd rfl hc.1

/-- Arguments that were read up to the bracket are none, or a first one and further ones with derivations. -/
theorem arguments_sound {room : Nat} {argument : Reads Expr} (harg : Exact .conditional room argument)
    {es : List Expr} {ts rest : List Token} (h : arguments argument ts = .ok (es, rest)) :
    es = [] ∨ ∃ (d : Parse .conditional) (d' : Parse .arguments) (used : List Token) (t : Token)
      (x : Expr) (xs : List Expr), ts = used ++ t :: rest ∧
        used.map Token.terminal = d.yield ++ d'.yield ∧ t.terminal = .symbol .closeRound ∧
          max d.nesting d'.nesting ≤ room ∧ d.tree? numberValue = some x ∧
            d'.tree? numberValue = some xs ∧ es = x :: xs := by
  rw [arguments] at h
  split at h
  · exact .inl (Prod.mk.inj (Except.ok.inj h)).1.symm
  · obtain ⟨⟨e, after⟩, he, h₁⟩ := bind_eq_ok_iff.1 h
    obtain ⟨⟨es', after'⟩, hes, h₂⟩ := bind_eq_ok_iff.1 h₁
    obtain ⟨after'', hclose, h₃⟩ := bind_eq_ok_iff.1 h₂
    obtain ⟨rfl, rfl⟩ := Prod.mk.inj (Except.ok.inj h₃)
    obtain ⟨t, rfl, ht⟩ := expect_eq_ok_iff.1 hclose
    obtain ⟨d, used, rfl, hy, hn, hx⟩ := harg.sound he
    obtain ⟨d', used', rfl, hy', hn', hxs⟩ := moreArguments_sound harg hes
    exact .inr ⟨d, d', used ++ used', t, e, es', by simp, by simp [hy, hy'], ht,
      Nat.max_le.2 ⟨hn, hn'⟩, hx, hxs, rfl⟩

/-- Arguments that have derivations are read up to the closing bracket, if there is room for them. -/
theorem arguments_complete {room : Nat} {argument : Reads Expr}
    (harg : Exact .conditional room argument) (d : Parse .conditional) (d' : Parse .arguments)
    (used rest : List Token) {x : Expr} {xs : List Expr} {t : Token}
    (hy : used.map Token.terminal = d.yield ++ d'.yield) (ht : t.terminal = .symbol .closeRound)
    (hx : d.tree? numberValue = some x) (hxs : d'.tree? numberValue = some xs) :
    arguments argument (used ++ t :: rest) =
      if max d.nesting d'.nesting ≤ room then .ok (x :: xs, rest) else .error .tooDeep := by
  have hempty : accept? .closeRound (used ++ t :: rest) = none := accept?_eq_none fun u hu => by
    obtain ⟨u', ys, hd, hne⟩ := exists_yield_eq_cons d (by simp)
    rw [List.map_append, hy, hd] at hu
    obtain rfl := Option.some.inj hu
    exact hne
  obtain ⟨used₁, used₂, rfl, hy₁, hy₂⟩ := List.map_eq_append_iff.1 hy
  have hend : Construct.arguments.EndsBefore ((t :: rest).map Token.terminal) := by
    rw [List.map_cons, ht]
    exact Construct.arguments_endsBefore rfl (by decide) (by decide)
  have hfirst := harg.complete d (used₂ ++ t :: rest) hy₁ hx
    (by rw [List.map_append, hy₂]; exact hend.argument d')
  have hmore := moreArguments_complete harg d' (used₂ ++ t :: rest).length hy₂ hxs hend
    (by simp)
  rw [arguments, hempty]
  simp only [List.append_assoc, hfirst, Nat.max_le]
  refine ite_bind ?_
  simp only [hmore]
  refine ite_bind_ok ?_
  simp only [expect_cons ht, ok_bind]
  rfl

/-- A call that was read has a derivation, of a function with as many arguments as it takes. -/
theorem call_sound {room : Nat} (hin : ExactInside room) {t : Token} {text : List Char}
    (ht : t.lexeme = .name text) {ts rest : List Token} {e : Expr}
    (h : call (inside room) t ts = .ok (e, rest)) :
    ∃ (d : Parse .primary) (used : List Token), ts = used ++ rest ∧
      (t :: used).map Token.terminal = d.yield ∧ d.nesting ≤ room ∧ d.tree? numberValue = some e := by
  have htext : t.text = String.ofList text := by rw [Token.text, ht, Lexeme.chars]
  rw [call] at h
  split at h
  · simp at h
  · rename_i f hf
    obtain ⟨after, hopen, h₁⟩ := bind_eq_ok_iff.1 h
    obtain ⟨u, rfl, hu⟩ := expect_eq_ok_iff.1 hopen
    cases room with
    | zero => simp [enter_zero, error_bind] at h₁
    | succ m =>
      rw [enter_succ, ok_bind, bind_eq_ok_iff] at h₁
      obtain ⟨⟨es, after'⟩, hes, h₂⟩ := h₁
      dsimp only at h₂
      split at h₂
      · rename_i e' hcall
        obtain ⟨rfl, rfl⟩ := Prod.mk.inj (Except.ok.inj h₂)
        obtain rfl | ⟨d, d', used, v, x, xs, rfl, hy, hv, hn, hx, hxs, rfl⟩ :=
          arguments_sound (hin m rfl).1 hes
        · -- No function takes no arguments.
          rcases f with f | f <;> simp [Function.call?] at hcall
        · refine ⟨.call text f (htext ▸ hf) d d', u :: (used ++ [v]), by simp, ?_,
            Nat.succ_le_succ hn, ?_⟩
          · simp [Derivation.yield, terminal_eq_name.2 ht, hu, hy, hv]
          · simp [Derivation.tree?, hx, hxs, hcall]
      · simp at h₂

/-- A call that has a derivation is read if there is room for its arguments one level further in. -/
theorem call_complete {room : Nat} (hin : ExactInside room) {t : Token} {text : List Char}
    (ht : t.lexeme = .name text) {f : Function} (hf : Function.ofName? (String.ofList text) = some f)
    (d : Parse .conditional) (d' : Parse .arguments) {e : Expr} {used rest : List Token}
    (hy : used.map Token.terminal =
      .symbol .openRound :: (d.yield ++ (d'.yield ++ [.symbol .closeRound])))
    (hx : (Derivation.call text f hf d d').tree? numberValue = some e) :
    call (inside room) t (used ++ rest) =
      if max d.nesting d'.nesting + 1 ≤ room then .ok (e, rest) else .error .tooDeep := by
  have htext : t.text = String.ofList text := by rw [Token.text, ht, Lexeme.chars]
  simp only [List.map_eq_cons_iff, List.map_eq_append_iff, List.map_eq_nil_iff] at hy
  obtain ⟨u, _, rfl, hu, used₁, _, rfl, hy₁, used₂, _, rfl, hy₂, v, _, rfl, hv, rfl⟩ := hy
  obtain ⟨x, he, xs, hxs, hcall⟩ := Derivation.tree?_call_eq_some_iff.1 hx
  rw [call, htext, hf]
  simp only [List.cons_append, List.append_assoc, List.nil_append, expect_cons hu, ok_bind]
  cases room with
  | zero => simp [enter_zero, error_bind]
  | succ m =>
    have hargs := arguments_complete (hin m rfl).1 d d' (used₁ ++ used₂) rest
      (by rw [List.map_append, hy₁, hy₂]) hv he hxs
    rw [List.append_assoc] at hargs
    simp only [enter_succ, ok_bind, hargs, Nat.add_le_add_iff_right]
    refine ite_bind_ok ?_
    simp only [hcall]
    rfl

/-! ### All readers -/

/-- **Operands are read exactly** if what is one level further in is: numbers, brackets and calls. -/
theorem exact_primary {room : Nat} (hin : ExactInside room) :
    Exact .primary room (primary (inside room)) where
  sound {ts e rest} h := by
    rcases ts with _ | ⟨⟨l, position⟩, ts⟩
    · simp [primary] at h
    · rw [primary] at h
      dsimp only at h
      split at h
      · -- A number; the cases below are a name, the two brackets, and any other symbol.
        rename_i text
        obtain ⟨rfl, rfl⟩ := Prod.mk.inj (Except.ok.inj h)
        exact ⟨.operand text, [_], rfl, rfl, Nat.zero_le _, rfl⟩
      · obtain ⟨d, used, rfl, hy, hn, hx⟩ := call_sound hin rfl h
        exact ⟨d, _ :: used, rfl, hy, hn, hx⟩
      · obtain ⟨d, used, t, rfl, hy, ht, hn, hx⟩ := bracketed_sound hin h
        refine ⟨.round d, ⟨.symbol .openRound, position⟩ :: (used ++ [t]), by simp, ?_, hn, hx⟩
        simp only [List.map_cons, List.map_append, List.map_nil, hy, ht]
        rfl
      · obtain ⟨d, used, t, rfl, hy, ht, hn, hx⟩ := bracketed_sound hin h
        refine ⟨.square d, ⟨.symbol .openSquare, position⟩ :: (used ++ [t]), by simp, ?_, hn, hx⟩
        simp only [List.map_cons, List.map_append, List.map_nil, hy, ht]
        rfl
      · simp at h
  complete d rest {e used} hy hx hrest := by
    cases d with
    | operand a =>
      simp only [Derivation.yield, List.map_eq_cons_iff, List.map_eq_nil_iff] at hy
      obtain ⟨⟨l, position⟩, _, rfl, ht, rfl⟩ := hy
      obtain rfl : l = .number a := terminal_eq_operand.1 ht
      obtain rfl := Option.some.inj hx
      simp [primary, Derivation.nesting]
    | round d =>
      simp only [Derivation.yield, List.map_eq_cons_iff, List.map_eq_append_iff,
        List.map_eq_nil_iff] at hy
      obtain ⟨⟨l, position⟩, _, rfl, ht, used, _, rfl, hy, u, _, rfl, hu, rfl⟩ := hy
      obtain rfl : l = .symbol .openRound := terminal_eq_symbol.1 ht
      simp only [List.cons_append, List.append_assoc, List.nil_append, primary]
      exact bracketed_complete hin rfl (by decide) d hy hu hx
    | square d =>
      simp only [Derivation.yield, List.map_eq_cons_iff, List.map_eq_append_iff,
        List.map_eq_nil_iff] at hy
      obtain ⟨⟨l, position⟩, _, rfl, ht, used, _, rfl, hy, u, _, rfl, hu, rfl⟩ := hy
      obtain rfl : l = .symbol .openSquare := terminal_eq_symbol.1 ht
      simp only [List.cons_append, List.append_assoc, List.nil_append, primary]
      exact bracketed_complete hin rfl (by decide) d hy hu hx
    | call text f hf d d' =>
      rw [Derivation.yield, List.map_eq_cons_iff] at hy
      obtain ⟨⟨l, position⟩, used, rfl, ht, hy⟩ := hy
      obtain rfl : l = .name text := terminal_eq_name.1 ht
      exact call_complete hin rfl hf d d' hy hx

/-- Operands with their signs are read exactly if what is one level further in is. -/
theorem exact_unary {room : Nat} (hin : ExactInside room) :
    Exact (.tier 6) room (unary (inside room)) where
  sound {ts e rest} h := by
    rw [unary] at h
    split at h
    · rename_i op after hnext
      obtain ⟨t, s, rfl, ht, hs⟩ := unaryOperator?_eq_some_iff.1 hnext
      cases room with
      | zero => simp [enter_zero, error_bind] at h
      | succ m =>
        rw [enter_succ, ok_bind, bind_eq_ok_iff] at h
        obtain ⟨⟨e', after'⟩, he, h₁⟩ := h
        obtain ⟨rfl, rfl⟩ := Prod.mk.inj (Except.ok.inj h₁)
        obtain ⟨d, used, rfl, hy, hn, hx⟩ := (hin m rfl).2.sound he
        refine ⟨.signed s op hs d, t :: used, rfl, by simp [Derivation.yield, ht, hy],
          Nat.succ_le_succ hn, by simp [Derivation.tree?, hx]⟩
    · obtain ⟨d, used, rfl, hy, hn, hx⟩ := (exact_primary hin).sound h
      exact ⟨.unsigned d, used, rfl, hy, hn, hx⟩
  complete d rest {e used} hy hx hrest := by
    cases d with
    | tier hlt _ _ => omega
    | signed s op hs d =>
      rw [Derivation.yield, List.map_eq_cons_iff] at hy
      obtain ⟨t, used, rfl, ht, hy⟩ := hy
      obtain ⟨x, hd, rfl⟩ := Derivation.tree?_signed_eq_some_iff.1 hx
      have hnext : unaryOperator? (t :: (used ++ rest)) = some (op, used ++ rest) :=
        unaryOperator?_eq_some_iff.2 ⟨t, s, rfl, ht, hs⟩
      simp only [List.cons_append, unary, hnext]
      cases room with
      | zero => simp [enter_zero, error_bind, Derivation.nesting]
      | succ m =>
        simp only [enter_succ, ok_bind, (hin m rfl).2.complete d rest hy hd hrest, Derivation.nesting,
          Nat.add_le_add_iff_right]
        exact ite_bind_ok rfl
    | unsigned p =>
      -- No operand without a sign begins with one, so the reader takes none.
      have hnone : unaryOperator? (used ++ rest) = none := by
        rw [Option.eq_none_iff_forall_ne_some]
        rintro ⟨op, after⟩ hop
        obtain ⟨t, s, heq, ht, hs⟩ := unaryOperator?_eq_some_iff.1 hop
        refine Derivation.yield_primary_ne hs p (rest.map Token.terminal) (after.map Token.terminal) ?_
        rw [← ht, ← List.map_cons, ← heq, List.map_append, hy, Derivation.yield]
      rw [unary, hnone]
      exact (exact_primary hin).complete p rest hy hx (by simp [Construct.EndsBefore, Construct.goesOn])

/-- **Formulas are read exactly** if what is one level further in is: their condition at this level, their
branches at the next. -/
theorem exact_conditional {room : Nat} (hin : ExactInside room) :
    Exact .conditional room (conditional (inside room)) where
  sound {ts e rest} h := by
    obtain ⟨⟨c, after⟩, hc, h₁⟩ := bind_eq_ok_iff.1 h
    obtain ⟨d, used, rfl, hy, hn, hx⟩ := (exact_tiers (exact_unary hin)).sound hc
    dsimp only at h₁
    split at h₁
    · obtain ⟨rfl, rfl⟩ := Prod.mk.inj (Except.ok.inj h₁)
      exact ⟨.plain d, used, rfl, hy, hn, hx⟩
    · rename_i after₁ hquestion
      -- A question mark follows, so both branches are read one level further in.
      obtain ⟨t, rfl, ht⟩ := accept?_eq_some_iff.1 hquestion
      cases room with
      | zero => simp [enter_zero, error_bind] at h₁
      | succ m =>
        rw [enter_succ, ok_bind, bind_eq_ok_iff] at h₁
        obtain ⟨⟨e₁, after₂⟩, he₁, h₂⟩ := h₁
        obtain ⟨after₃, hcolon, h₃⟩ := bind_eq_ok_iff.1 h₂
        obtain ⟨⟨e₂, after₄⟩, he₂, h₄⟩ := bind_eq_ok_iff.1 h₃
        obtain ⟨rfl, rfl⟩ := Prod.mk.inj (Except.ok.inj h₄)
        obtain ⟨u, rfl, hu⟩ := expect_eq_ok_iff.1 hcolon
        obtain ⟨d₁, used₁, rfl, hy₁, hn₁, hx₁⟩ := (hin m rfl).1.sound he₁
        obtain ⟨d₂, used₂, rfl, hy₂, hn₂, hx₂⟩ := (hin m rfl).1.sound he₂
        refine ⟨.choice d d₁ d₂, used ++ t :: (used₁ ++ u :: used₂), by simp, ?_, ?_, ?_⟩
        · simp [Derivation.yield, hy, ht, hy₁, hu, hy₂]
        · exact Nat.max_le.2 ⟨hn, Nat.succ_le_succ (Nat.max_le.2 ⟨hn₁, hn₂⟩)⟩
        · simp [Derivation.tree?, hx, hx₁, hx₂]
  complete d rest {e used} hy hx hrest := by
    cases d with
    | plain d =>
      -- A question mark next would go on with the formula, which ends here.
      have hquestion : accept? .question rest = none := accept?_eq_none fun t ht => by
        rintro rfl
        simpa [Construct.goesOn, Terminal.is] using hrest _ ht
      simp only [conditional, (exact_tiers (exact_unary hin)).complete d rest hy hx hrest.tier_zero,
        Derivation.nesting]
      refine ite_bind_ok ?_
      simp only [hquestion]
      rfl
    | choice d d₁ d₂ =>
      simp only [Derivation.yield, List.map_eq_cons_iff, List.map_eq_append_iff] at hy
      obtain ⟨used, _, rfl, hy, t, _, rfl, ht, used₁, _, rfl, hy₁, u, used₂, rfl, hu, hy₂⟩ := hy
      obtain ⟨c, hd, e₁, hx₁, e₂, hx₂, rfl⟩ := Derivation.tree?_choice_eq_some_iff.1 hx
      -- The condition ends before the question mark, and the first branch before the colon.
      have hcond := (exact_tiers (exact_unary hin)).complete d
        (t :: (used₁ ++ u :: (used₂ ++ rest))) hy hd
        (by rw [List.map_cons, ht]; exact Construct.tier_endsBefore rfl 0)
      simp only [List.append_assoc, List.cons_append, conditional, hcond, Derivation.nesting,
        Nat.max_le]
      refine ite_bind ?_
      simp only [accept?_cons ht]
      cases room with
      | zero => simp [enter_zero, error_bind]
      | succ m =>
        have hcons := (hin m rfl).1.complete d₁ (u :: (used₂ ++ rest)) hy₁ hx₁
          (by rw [List.map_cons, hu]; exact Construct.conditional_endsBefore rfl (by decide))
        have halt := (hin m rfl).1.complete d₂ rest hy₂ hx₂ hrest
        simp only [enter_succ, ok_bind, hcons, Nat.add_le_add_iff_right, Nat.max_le]
        refine ite_bind ?_
        simp only [expect_cons hu, ok_bind, halt]
        exact ite_bind_ok rfl

/-- **The readers within any number of levels are exact.** By induction on the levels; with no level left there
are no readers, and everything nested is refused as too deep. -/
theorem exactInside (room : Nat) : ExactInside room := by
  induction room with
  | zero =>
    intro m hm
    omega
  | succ n ih =>
    intro m hm
    obtain rfl := Nat.succ.inj hm
    exact ⟨exact_conditional ih, exact_unary ih⟩

end Formula
end Tariff
