/-
# Readers stop at the first wrong token

A reader that fails has taken tokens that its construct can begin with, and stops before a token that the construct
cannot go on with, or at the end where it has to go on (`Stuck`); its fault says which (`Fault.Justified`). For that a
reader has to be greedy: what it takes has to be all that its construct can take, since otherwise the token at which a
later reader stops might be the next one of an earlier construct (`Prompt`). Each way of building a reader keeps both,
from which it follows for all readers by induction on the levels (`promptInside`).

| reader | what it has taken when it fails | what it stops at |
| --- | --- | --- |
| of an operand | nothing | the end, a symbol that opens nothing, a name of no function |
| of a call | the name | anything but `(` |
| of a closing bracket, a colon | what stands in front | anything else |
| of one construct behind another | what the one has taken, then what the other has | what the other stops at |
-/

import Tariff.Proofs.Formula.Acceptance
import Tariff.Proofs.Number.Literal

namespace Tariff
namespace Formula

/-- Terminals whose operands are numbers. -/
def Numbered (l : List (Terminal (List Char))) : Prop := ∀ text, .operand text ∈ l → Numeral.Positional text

/-- A construct stands at the front of terminals, and what follows is nothing that it could go on with. -/
def Opens (c : Construct) (l : List (Terminal (List Char))) : Prop :=
  ∃ (d : Parse c) (rest : List (Terminal (List Char))), c.EndsBefore rest ∧ l = d.yield ++ rest

/-- Tokens are wrong for a construct at a spot, a token or their end: what stands in front of the spot can begin the
construct, and whatever stands behind it, the construct is not at the front. -/
def Stuck (c : Construct) (ts : List Token) (spot : Option Token) : Prop :=
  ∃ used rest, ts = used ++ rest ∧ rest.head? = spot ∧
    (∃ (d : Parse c) (more : List (Terminal (List Char))), Numbered more ∧
      d.yield = used.map Token.terminal ++ more) ∧
    ∀ l, l.head? = spot.map Token.terminal → ¬ Opens c (used.map Token.terminal ++ l)

/-- What a fault in reading a construct says of the tokens; of an unknown name also that it is that of no function. Faults
of limits and of numbers of arguments say nothing, and the other faults of texts do not come up in reading tokens. -/
def Fault.Justified (c : Construct) (ts : List Token) : Fault → Prop
  | endsEarly => Stuck c ts none
  | unexpected t | expected _ t => Stuck c ts (some t)
  | unknownName t => Stuck c ts (some t) ∧ ∃ text, t.terminal = .name text ∧ ¬ IsFunctionName text
  | tooDeep | argumentCount .. => True
  | missing | empty | tooLong | foreignChar .. | strayChar .. => False

/-- A reader takes all that its construct can take, and fails at the first wrong token. -/
structure Prompt (c : Construct) (R : Reads c.Meaning) : Prop where
  greedy : ∀ {ts x rest}, R ts = .ok (x, rest) → c.EndsBefore (rest.map Token.terminal)
  justified : ∀ {ts fault}, R ts = .error fault → fault.Justified c ts

/-! ### Ends -/

section Numbered

variable {l l' : List (Terminal (List Char))}

theorem numbered_nil : Numbered [] := by simp [Numbered]

theorem Numbered.append (h : Numbered l) (h' : Numbered l') : Numbered (l ++ l') :=
  fun text ht => (List.mem_append.1 ht).elim (h text) (h' text)

theorem Numbered.left (h : Numbered (l ++ l')) : Numbered l :=
  fun text ht => h text (List.mem_append_left _ ht)

theorem Numbered.symbol_cons (h : Numbered l) (s : Symbol) : Numbered (.symbol s :: l) :=
  fun text ht => h text (by simpa using ht)

end Numbered

/-- A formula that is a single zero. -/
def zeroSentence : Sentence (List Char) :=
  .plain <| .tier BinaryOp.or.level_lt (.tier BinaryOp.and.level_lt (.tier BinaryOp.equal.level_lt
    (.tier BinaryOp.less.level_lt (.tier BinaryOp.plus.level_lt (.tier BinaryOp.times.level_lt
      (.unsigned (.operand ['0'])) .noOperator) .noOperator) .noOperator) .noOperator) .noOperator) .noOperator

/-- The smallest formula is a single zero; it fills in where a beginning has to be gone on with. -/
theorem yield_zeroSentence : zeroSentence.yield = [.operand ['0']] := rfl

/-- Its operand is a number. -/
theorem numbered_zeroSentence : Numbered zeroSentence.yield := by
  intro text htext
  rw [yield_zeroSentence, List.mem_singleton, Terminal.operand.injEq] at htext
  exact .whole (by simp [htext]) (by simp [htext])

/-- Whether a construct ends depends on the next terminal only. -/
theorem Construct.EndsBefore.of_head? {c : Construct} {l l' : List (Terminal (List Char))} (h : c.EndsBefore l)
    (hhead : l'.head? = l.head?) : c.EndsBefore l' :=
  fun t ht => h t (hhead ▸ ht)

/-! ### Wrong tokens in a larger construct -/

section Stuck

variable {c c' : Construct} {ts : List Token}

/-- A construct that is wrong is wrong within a larger one, behind what the larger one begins with, if nothing else can
stand there. -/
theorem Stuck.within {spot : Option Token} (h : Stuck c' ts spot) (u : List Token) (mk : Parse c' → Parse c)
    {post : List (Terminal (List Char))} (hpost : Numbered post)
    (hmk : ∀ d, (mk d).yield = u.map Token.terminal ++ (d.yield ++ post))
    (hopens : ∀ l, l.head? = (ts.map Token.terminal).head? → Opens c (u.map Token.terminal ++ l) → Opens c' l) :
    Stuck c (u ++ ts) spot := by
  obtain ⟨used, rest, rfl, hspot, ⟨d, more, hmore, hd⟩, hwrong⟩ := h
  refine ⟨u ++ used, rest, by rw [List.append_assoc], hspot, ⟨mk d, more ++ post, hmore.append hpost, ?_⟩, ?_⟩
  · rw [hmk, hd, List.map_append]
    simp only [List.append_assoc]
  · intro l hl hopen
    rw [List.map_append, List.append_assoc] at hopen
    refine hwrong l hl (hopens _ ?_ hopen)
    simp only [List.map_append, List.head?_append, List.head?_map, hspot, hl]

/-- **A fault of a part is a fault of the whole.** What the part was stuck at, the whole is stuck at: `mk` makes
the whole of the part, with `u` in front and `post` behind, and `hopens` says that the whole cannot be at the
front unless the part is. -/
theorem Fault.Justified.within {fault : Fault} (h : fault.Justified c' ts) (u : List Token) (mk : Parse c' → Parse c)
    {post : List (Terminal (List Char))} (hpost : Numbered post)
    (hmk : ∀ d, (mk d).yield = u.map Token.terminal ++ (d.yield ++ post))
    (hopens : ∀ l, l.head? = (ts.map Token.terminal).head? → Opens c (u.map Token.terminal ++ l) → Opens c' l) :
    fault.Justified c (u ++ ts) := by
  cases fault with
  | endsEarly | unexpected | expected => exact Stuck.within h u mk hpost hmk hopens
  | unknownName => exact ⟨h.1.within u mk hpost hmk hopens, h.2⟩
  | tooDeep | argumentCount => trivial
  | missing | empty | tooLong | foreignChar | strayChar => exact h.elim

/-- Tokens are wrong where what comes next cannot stand. -/
theorem stuck_here (u ts : List Token) (d : Parse c) {post : List (Terminal (List Char))} (hpost : Numbered post)
    (hd : d.yield = u.map Token.terminal ++ post)
    (hwrong : ∀ l, l.head? = (ts.map Token.terminal).head? → ¬ Opens c (u.map Token.terminal ++ l)) :
    Stuck c (u ++ ts) ts.head? :=
  ⟨u, ts, rfl, rfl, ⟨d, post, hpost, hd⟩, fun l hl => hwrong l (hl.trans List.head?_map.symm)⟩

/-- If a symbol is not accepted, it is not what comes next. -/
theorem head?_ne_of_accept? {s : Symbol} (h : accept? s ts = none) :
    (ts.map Token.terminal).head? ≠ some (.symbol s) := by
  cases ts with
  | nil => nofun
  | cons t rest =>
    intro hhead
    cases h.symm.trans (accept?_cons (Option.some.inj hhead) rest)

/-- A terminal other than a symbol is not that symbol. -/
theorem Terminal.is_eq_false {α : Type} {s : Symbol} {t : Terminal α} (h : t ≠ .symbol s) : t.is s = false := by
  cases t with
  | symbol s' => exact decide_eq_false fun heq => h (congrArg _ heq)
  | _ => rfl

/-- Where a symbol has to come next, tokens without it are wrong. -/
theorem justified_of_expect {s : Symbol} {fault : Fault} (h : expect s ts = .error fault) (u : List Token) (d : Parse c)
    {post : List (Terminal (List Char))} (hpost : Numbered post) (hd : d.yield = u.map Token.terminal ++ post)
    (hnext : ∀ l, l.head? = (ts.map Token.terminal).head? → Opens c (u.map Token.terminal ++ l) →
      l.head? = some (.symbol s)) : fault.Justified c (u ++ ts) := by
  have hstuck (hne : (ts.map Token.terminal).head? ≠ some (.symbol s)) : Stuck c (u ++ ts) ts.head? :=
    stuck_here u ts d hpost hd fun l hl hopen => hne (hl.symm.trans (hnext l hl hopen))
  cases ts with
  | nil =>
    obtain rfl := Except.error.inj h
    exact hstuck nofun
  | cons t rest =>
    rw [expect] at h
    split at h
    · cases h
    · rename_i hne
      obtain rfl := Except.error.inj h
      exact hstuck fun hhead => hne (terminal_eq_symbol.1 (Option.some.inj hhead))

end Stuck

/-! ### What can stand behind a beginning -/

namespace Opens

variable {l : List (Terminal (List Char))}

/-- Where operands in a row stand at the front, the first of them does. -/
theorem first {k : Nat} (hlt : k < 6) (h : Opens (.tier k) l) : Opens (.tier (k + 1)) l := by
  obtain ⟨d, rest, hrest, rfl⟩ := h
  cases d with
  | tier _ first more => exact ⟨first, more.yield ++ rest, hrest.operand more, by simp [Derivation.yield]⟩
  | signed => omega
  | unsigned => omega

/-- Behind the first operand, the operators stand at the front; the first operand is determined by where it
ends. -/
theorem operators {k : Nat} (hlt : k < 6) {first : Parse (.tier (k + 1))} (h : Opens (.tier k) (first.yield ++ l))
    (hl : (Construct.tier (k + 1)).EndsBefore l) : Opens (.operators k) l := by
  obtain ⟨d, rest, hrest, heq⟩ := h
  cases d with
  | tier _ first' more =>
    rw [Derivation.yield, List.append_assoc] at heq
    obtain ⟨-, rfl⟩ := first.determined first' hl (hrest.operand more) heq
    exact ⟨more, rest, hrest, rfl⟩
  | signed => omega
  | unsigned => omega

section Operators

variable {k : Nat} {s : Symbol} {op : BinaryOp} (hs : s.binary? = some op) (hl : op.level = k)

include hs hl

/-- Where operators begin with a symbol, an operand and further operators come behind it. -/
theorem exists_operator (h : Opens (.operators k) (.symbol s :: l)) :
    ∃ (right : Parse (.tier (k + 1))) (more : Parse (.operators k)) (rest : List (Terminal (List Char))),
      (Construct.operators k).EndsBefore rest ∧ l = right.yield ++ (more.yield ++ rest) := by
  obtain ⟨d, rest, hrest, heq⟩ := h
  cases d with
  | noOperator =>
    rw [Derivation.yield, List.nil_append] at heq
    simp [← heq, Construct.goesOn, Terminal.level?, hs, hl] at hrest
  | operator s' op' hs' hl' right more =>
    rw [Derivation.yield, List.cons_append, List.append_assoc] at heq
    exact ⟨right, more, rest, hrest, (List.cons.inj heq).2⟩

/-- Behind the operator stands its right operand. -/
theorem right (h : Opens (.operators k) (.symbol s :: l)) : Opens (.tier (k + 1)) l := by
  obtain ⟨right, more, rest, hrest, rfl⟩ := h.exists_operator hs hl
  exact ⟨right, _, Construct.EndsBefore.operand hrest more, rfl⟩

/-- Behind the right operand stand the further operators. -/
theorem moreOperators {right : Parse (.tier (k + 1))} (h : Opens (.operators k) (.symbol s :: (right.yield ++ l)))
    (hends : (Construct.tier (k + 1)).EndsBefore l) : Opens (.operators k) l := by
  obtain ⟨right', more, rest, hrest, heq⟩ := h.exists_operator hs hl
  obtain ⟨-, rfl⟩ := right.determined right' hends (Construct.EndsBefore.operand hrest more) heq
  exact ⟨more, rest, hrest, rfl⟩

end Operators

/-- Behind a sign stands the operand that it belongs to. -/
theorem signed {s : Symbol} {op : UnaryOp} (hs : s.unary? = some op) (h : Opens (.tier 6) (.symbol s :: l)) :
    Opens (.tier 6) l := by
  obtain ⟨d, rest, hrest, heq⟩ := h
  cases d with
  | tier hlt _ _ => omega
  | signed s' op' hs' e =>
    rw [Derivation.yield, List.cons_append] at heq
    exact ⟨e, rest, hrest, (List.cons.inj heq).2⟩
  | unsigned p => exact absurd heq.symm (Derivation.yield_primary_ne hs p _ _)

/-- Where no sign stands in front, an operand does without one. -/
theorem unsigned (hl : ∀ s op, l.head? = some (.symbol s) → s.unary? ≠ some op) (h : Opens (.tier 6) l) :
    Opens .primary l := by
  obtain ⟨d, rest, hrest, rfl⟩ := h
  cases d with
  | tier hlt _ _ => omega
  | signed s op hs e => exact absurd hs (hl s op rfl)
  | unsigned p => exact ⟨p, rest, fun _ _ => rfl, rfl⟩

/-- A formula with a symbol behind it. -/
def UpTo (s : Symbol) (l : List (Terminal (List Char))) : Prop :=
  ∃ (e : Sentence (List Char)) (rest : List (Terminal (List Char))), l = e.yield ++ .symbol s :: rest

section UpTo

variable {s : Symbol} (hs : s.binary? = none) (hq : s ≠ .question)

include hs hq

/-- A formula with a symbol behind it stands at the front where that symbol does not go on with it. -/
theorem of_upTo (h : UpTo s l) : Opens .conditional l := by
  obtain ⟨e, rest, rfl⟩ := h
  exact ⟨e, _, Construct.conditional_endsBefore hs hq, rfl⟩

/-- Behind the formula that has been taken comes the symbol: the formula in front of it is determined. -/
theorem head?_of_upTo {e : Sentence (List Char)} (h : UpTo s (e.yield ++ l)) (hl : Construct.conditional.EndsBefore l) :
    l.head? = some (.symbol s) := by
  obtain ⟨e', rest, heq⟩ := h
  obtain ⟨-, rfl⟩ := e.determined e' hl (Construct.conditional_endsBefore hs hq) heq
  rfl

end UpTo

/-- Behind a round bracket stands a formula up to the closing one. -/
theorem round (h : Opens .primary (.symbol .openRound :: l)) : UpTo .closeRound l := by
  obtain ⟨d, rest, -, heq⟩ := h
  cases d with
  | operand => simp [Derivation.yield] at heq
  | square => simp [Derivation.yield] at heq
  | call => simp [Derivation.yield] at heq
  | round e => exact ⟨e, rest, by simpa [Derivation.yield] using heq⟩

theorem square (h : Opens .primary (.symbol .openSquare :: l)) : UpTo .closeSquare l := by
  obtain ⟨d, rest, -, heq⟩ := h
  cases d with
  | operand => simp [Derivation.yield] at heq
  | round => simp [Derivation.yield] at heq
  | call => simp [Derivation.yield] at heq
  | square e => exact ⟨e, rest, by simpa [Derivation.yield] using heq⟩

/-- A name at the front is that of a function, with arguments in brackets behind it. -/
theorem call {text : List Char} (h : Opens .primary (.name text :: l)) :
    IsFunctionName text ∧ ∃ (first : Sentence (List Char)) (more : Parse .arguments)
      (rest : List (Terminal (List Char))),
        l = .symbol .openRound :: (first.yield ++ (more.yield ++ .symbol .closeRound :: rest)) := by
  obtain ⟨d, rest, -, heq⟩ := h
  cases d with
  | operand => simp [Derivation.yield] at heq
  | round => simp [Derivation.yield] at heq
  | square => simp [Derivation.yield] at heq
  | call text' f hf first more =>
    simp only [Derivation.yield, List.cons_append, List.append_assoc, List.cons.injEq, Terminal.name.injEq] at heq
    obtain ⟨rfl, rfl⟩ := heq
    exact ⟨⟨f, hf⟩, first, more, rest, rfl⟩

/-- No operand begins so. -/
theorem head?_primary (h : Opens .primary l) : (∃ text, l.head? = some (.operand text)) ∨
    (∃ text, l.head? = some (.name text)) ∨ l.head? = some (.symbol .openRound) ∨
      l.head? = some (.symbol .openSquare) := by
  obtain ⟨d, rest, -, rfl⟩ := h
  cases d with
  | operand a => exact .inl ⟨a, rfl⟩
  | round e => exact .inr (.inr (.inl rfl))
  | square e => exact .inr (.inr (.inr rfl))
  | call text f hf first more => exact .inr (.inl ⟨text, rfl⟩)

section Arguments

variable {text : List Char}

/-- The closing bracket of a call. -/
theorem closeRound_endsBefore (rest : List (Terminal (List Char))) :
    Construct.arguments.EndsBefore (.symbol .closeRound :: rest) :=
  Construct.arguments_endsBefore rfl (by decide) (by decide)

/-- Behind the opening bracket of a call stands its first argument. -/
theorem firstArgument (h : Opens .primary (.name text :: .symbol .openRound :: l)) : Opens .conditional l := by
  obtain ⟨-, first, more, rest, heq⟩ := h.call
  obtain rfl := (List.cons.inj heq).2
  exact ⟨first, _, (closeRound_endsBefore rest).argument more, rfl⟩

/-- Behind the first argument stand the further ones and the closing bracket. -/
theorem moreArguments {first : Sentence (List Char)}
    (h : Opens .primary (.name text :: .symbol .openRound :: (first.yield ++ l)))
    (hl : Construct.conditional.EndsBefore l) : ∃ (more : Parse .arguments) (rest : List (Terminal (List Char))),
      l = more.yield ++ .symbol .closeRound :: rest := by
  obtain ⟨-, first', more, rest, heq⟩ := h.call
  obtain ⟨-, rfl⟩ := first.determined first' hl ((closeRound_endsBefore rest).argument more) (List.cons.inj heq).2
  exact ⟨more, rest, rfl⟩

/-- Where further arguments begin with a comma, an argument and further ones come behind it. -/
theorem exists_argument (h : Opens .arguments (.symbol .comma :: l)) :
    ∃ (e : Sentence (List Char)) (more : Parse .arguments) (rest : List (Terminal (List Char))),
      Construct.arguments.EndsBefore rest ∧ l = e.yield ++ (more.yield ++ rest) := by
  obtain ⟨d, rest, hrest, heq⟩ := h
  cases d with
  | noArgument =>
    rw [Derivation.yield, List.nil_append] at heq
    simp [← heq, Construct.goesOn, Terminal.is] at hrest
  | argument e more =>
    rw [Derivation.yield, List.cons_append, List.append_assoc] at heq
    exact ⟨e, more, rest, hrest, (List.cons.inj heq).2⟩

/-- Behind the comma stands an argument. -/
theorem argument (h : Opens .arguments (.symbol .comma :: l)) : Opens .conditional l := by
  obtain ⟨e, more, rest, hrest, rfl⟩ := h.exists_argument
  exact ⟨e, _, hrest.argument more, rfl⟩

/-- Behind that argument stand the further ones. -/
theorem argumentsBehind {e : Sentence (List Char)} (h : Opens .arguments (.symbol .comma :: (e.yield ++ l)))
    (hl : Construct.conditional.EndsBefore l) : Opens .arguments l := by
  obtain ⟨e', more, rest, hrest, heq⟩ := h.exists_argument
  obtain ⟨-, rfl⟩ := e.determined e' hl (hrest.argument more) heq
  exact ⟨more, rest, hrest, rfl⟩

end Arguments

/-- Where a formula stands at the front, its condition does, or all of it if it is no choice. -/
theorem condition (h : Opens .conditional l) : Opens (.tier 0) l := by
  obtain ⟨d, rest, hrest, rfl⟩ := h
  cases d with
  | plain c => exact ⟨c, rest, hrest.tier_zero, rfl⟩
  | choice c t e => exact ⟨c, _, Construct.tier_endsBefore rfl 0, by rw [Derivation.yield, List.append_assoc]; rfl⟩

/-- Behind a question mark come two formulas with a colon between them. -/
theorem branches {c : Parse (.tier 0)} (h : Opens .conditional (c.yield ++ .symbol .question :: l)) :
    ∃ (t e : Sentence (List Char)) (rest : List (Terminal (List Char))), Construct.conditional.EndsBefore rest ∧
      l = t.yield ++ .symbol .colon :: (e.yield ++ rest) := by
  have hends (l : List (Terminal (List Char))) : (Construct.tier 0).EndsBefore (.symbol .question :: l) :=
    Construct.tier_endsBefore rfl 0
  obtain ⟨d, rest, hrest, heq⟩ := h
  cases d with
  | plain c' =>
    obtain ⟨-, rfl⟩ := c.determined c' (hends l) hrest.tier_zero heq
    simp [Construct.goesOn, Terminal.is] at hrest
  | choice c' t e =>
    simp only [Derivation.yield, List.append_assoc, List.cons_append] at heq
    obtain ⟨-, heq⟩ := c.determined c' (hends l) (hends _) heq
    exact ⟨t, e, rest, hrest, (List.cons.inj heq).2⟩

/-- Behind the question mark stands a formula up to the colon. -/
theorem consequent {c : Parse (.tier 0)} (h : Opens .conditional (c.yield ++ .symbol .question :: l)) :
    UpTo .colon l := by
  obtain ⟨t, e, rest, -, rfl⟩ := h.branches
  exact ⟨t, _, rfl⟩

/-- Behind the colon stands a formula. -/
theorem alternative {c : Parse (.tier 0)} {t : Sentence (List Char)}
    (h : Opens .conditional (c.yield ++ .symbol .question :: (t.yield ++ .symbol .colon :: l))) :
    Opens .conditional l := by
  obtain ⟨t', e, rest, hrest, heq⟩ := h.branches
  obtain ⟨-, rfl⟩ := t.determined.upTo rfl (by decide) heq
  exact ⟨e, rest, hrest, rfl⟩

end Opens

/-! ### Operators of one level -/

section Tiers

variable {room level : Nat} {operand : Reads Expr}

/-- Where an operand ends and no operator of the level above comes next, that level ends. -/
theorem endsBefore_of_operator? {ts : List Token} (hends : (Construct.tier (level + 1)).EndsBefore (ts.map Token.terminal))
    (h : operator? level ts = none) : (Construct.tier level).EndsBefore (ts.map Token.terminal) := by
  intro t ht
  have hlevel := hends t ht
  simp only [Construct.goesOn] at hlevel ⊢
  cases hl : t.level? with
  | none => rfl
  | some k =>
    simp only [hl, Option.any_some, decide_eq_false_iff_not] at hlevel ⊢
    intro hk
    obtain rfl : k = level := by omega
    -- Then the next token is an operator of the level, and would have been taken.
    cases t with
    | operand | name => cases hl
    | symbol s =>
      obtain ⟨op, hs, hop⟩ := Option.map_eq_some_iff.1 hl
      cases ts with
      | nil => cases ht
      | cons t ts =>
        have hnext : operator? k (t :: ts) = some (op, ts) :=
          operator?_eq_some_iff.2 ⟨t, s, rfl, Option.some.inj ht, hs, hop⟩
        cases h.symm.trans hnext

variable (hop : Exact (.tier (level + 1)) room operand) (hpr : Prompt (.tier (level + 1)) operand)

include hop hpr

/-- **A chain of operators is greedy**: it stops where no operator of its level or of a tighter one follows. The
count is not what it stops by, since there are no more operators than tokens. -/
theorem endsBefore_of_chain {count : Nat} {left e : Expr} {ts rest : List Token} (hcount : ts.length ≤ count)
    (hends : (Construct.tier (level + 1)).EndsBefore (ts.map Token.terminal))
    (h : chain operand level count left ts = .ok (e, rest)) :
    (Construct.tier level).EndsBefore (rest.map Token.terminal) := by
  induction count generalizing left ts with
  | zero =>
    obtain ⟨rfl, rfl⟩ := Prod.mk.inj (Except.ok.inj h)
    obtain rfl := List.length_eq_zero_iff.1 (Nat.le_zero.1 hcount)
    exact Construct.endsBefore_nil _
  | succ count ih =>
    rw [chain] at h
    split at h
    · rename_i op after hnext
      obtain ⟨t, s, rfl, -, -, -⟩ := operator?_eq_some_iff.1 hnext
      split at h
      · rename_i right after' hright
        obtain ⟨-, used, rfl, -⟩ := hop.sound hright
        refine ih ?_ (hpr.greedy hright) h
        simp only [List.length_cons, List.length_append] at hcount
        omega
      · cases h
    · rename_i hnone
      obtain ⟨rfl, rfl⟩ := Prod.mk.inj (Except.ok.inj h)
      exact endsBefore_of_operator? hends hnone

/-- If a chain of operators fails, it is stuck in the operand behind one of them. -/
theorem justified_chain {count : Nat} {left : Expr} {ts : List Token} {fault : Fault}
    (h : chain operand level count left ts = .error fault) :
    fault.Justified (.operators level) ts := by
  induction count generalizing left ts with
  | zero => cases h
  | succ count ih =>
    rw [chain] at h
    split at h
    · rename_i op after hnext
      obtain ⟨t, s, rfl, ht, hs, hl⟩ := operator?_eq_some_iff.1 hnext
      split at h
      · rename_i right after' hright
        obtain ⟨d, used, rfl, hy, -, -⟩ := hop.sound hright
        refine (ih h).within (t :: used) (.operator s op hs hl d) numbered_nil (by simp [Derivation.yield, ht, hy]) ?_
        intro l hl' hopen
        rw [List.map_cons, ht, hy] at hopen
        exact hopen.moreOperators hs hl ((hpr.greedy hright).of_head? hl')
      · rename_i fault' hfault
        obtain rfl := Except.error.inj h
        refine (hpr.justified hfault).within [t] (.operator s op hs hl · .noOperator) numbered_nil
          (by simp [Derivation.yield, ht]) ?_
        intro l _ hopen
        rw [List.map_singleton, ht] at hopen
        exact hopen.right hs hl
    · cases h

/-- A reader of operands of one level is prompt if the reader of its operands is. -/
theorem prompt_tier (hlt : level < 6) : Prompt (.tier level) (tier level operand) where
  greedy h := by
    obtain ⟨⟨left, after⟩, hleft, hchain⟩ := bind_eq_ok_iff.1 h
    exact endsBefore_of_chain hop hpr (Nat.le_refl _) (hpr.greedy hleft) hchain
  justified {ts fault} h := by
    rcases bind_eq_error_iff.1 h with hleft | ⟨⟨left, after⟩, hleft, hchain⟩
    · exact (hpr.justified hleft).within [] (.tier hlt · .noOperator) numbered_nil (by simp [Derivation.yield])
        fun l _ hopen => hopen.first hlt
    · obtain ⟨d, used, rfl, hy, -, -⟩ := hop.sound hleft
      refine (justified_chain hop hpr hchain).within used (.tier hlt d) numbered_nil (by simp [Derivation.yield, hy]) ?_
      intro l hl hopen
      rw [hy] at hopen
      exact hopen.operators hlt ((hpr.greedy hleft).of_head? hl)

end Tiers

/-- So are the readers of all levels, the loosest too. -/
theorem prompt_tiers {room : Nat} {operand : Reads Expr} (hop : Exact (.tier 6) room operand)
    (hpr : Prompt (.tier 6) operand) : Prompt (.tier 0) (tiers operand) :=
  tiers_keep (P := fun level reads => Prompt (.tier level) reads) hop hpr fun hlt hop hpr => prompt_tier hop hpr hlt

/-! ### Brackets and calls -/

/-- The readers for one level further in are prompt. -/
def PromptInside (room : Nat) : Prop :=
  ∀ m, room = m + 1 → Prompt .conditional (conditional (inside m)) ∧ Prompt (.tier 6) (unary (inside m))

section Inside

variable {room : Nat} (hex : ExactInside room) (hin : PromptInside room) {fault : Fault}

include hex hin

/-- A bracket fails inside it or where it has to be closed. -/
theorem justified_bracketed {t : Token} {ts : List Token} {closing : Symbol} (hs : closing.binary? = none)
    (hq : closing ≠ .question) (mk : Sentence (List Char) → Parse .primary)
    (hmk : ∀ e, (mk e).yield = t.terminal :: (e.yield ++ [.symbol closing]))
    (hopens : ∀ l, Opens .primary (t.terminal :: l) → Opens.UpTo closing l)
    (h : bracketed (inside room) closing ts = .error fault) :
    fault.Justified .primary (t :: ts) := by
  have hclosing : Numbered [.symbol closing] := numbered_nil.symbol_cons closing
  obtain rfl | ⟨m, rfl, h₁⟩ := tooDeep_or_of_enter h
  · trivial
  rcases bind_eq_error_iff.1 h₁ with he | ⟨⟨e, after⟩, he, h₂⟩
  · exact ((hin m rfl).1.justified he).within [t] mk hclosing (fun e => by rw [hmk]; rfl)
      fun l _ hopen => .of_upTo hs hq (hopens l hopen)
  obtain ⟨d, used, rfl, hy, -, -⟩ := (hex m rfl).1.sound he
  rcases bind_eq_error_iff.1 h₂ with hclose | ⟨after', -, h₃⟩
  · refine justified_of_expect hclose (t :: used) (mk d) hclosing (by rw [hmk, List.map_cons, hy]; rfl) ?_
    intro l hl hopen
    rw [List.map_cons, hy] at hopen
    exact Opens.head?_of_upTo hs hq (hopens _ hopen) (((hin m rfl).1.greedy he).of_head? hl)
  · cases h₃

end Inside

section Arguments

variable {room : Nat} {argument : Reads Expr} (hex : Exact .conditional room argument)
  (hpr : Prompt .conditional argument)

include hex hpr

/-- Further arguments are greedy: they stop where no comma follows. -/
theorem endsBefore_of_moreArguments {count : Nat} {es : List Expr} {ts rest : List Token} (hcount : ts.length ≤ count)
    (hends : Construct.conditional.EndsBefore (ts.map Token.terminal))
    (h : moreArguments argument count ts = .ok (es, rest)) :
    Construct.arguments.EndsBefore (rest.map Token.terminal) := by
  induction count generalizing es ts with
  | zero =>
    obtain ⟨rfl, rfl⟩ := Prod.mk.inj (Except.ok.inj h)
    obtain rfl := List.length_eq_zero_iff.1 (Nat.le_zero.1 hcount)
    exact Construct.endsBefore_nil _
  | succ count ih =>
    rw [moreArguments] at h
    split at h
    · rename_i after hcomma
      obtain ⟨t, rfl, -⟩ := accept?_eq_some_iff.1 hcomma
      obtain ⟨⟨e, after₁⟩, he, h₁⟩ := bind_eq_ok_iff.1 h
      obtain ⟨⟨es', after₂⟩, hes, h₂⟩ := bind_eq_ok_iff.1 h₁
      obtain ⟨rfl, rfl⟩ := Prod.mk.inj (Except.ok.inj h₂)
      obtain ⟨-, used, rfl, -⟩ := hex.sound he
      refine ih ?_ (hpr.greedy he) hes
      simp only [List.length_cons, List.length_append] at hcount
      omega
    · rename_i hnone
      obtain ⟨rfl, rfl⟩ := Prod.mk.inj (Except.ok.inj h)
      intro t ht
      have hconditional := hends t ht
      have hcomma := Terminal.is_eq_false fun heq => head?_ne_of_accept? hnone (heq ▸ ht)
      simp only [Construct.goesOn] at hconditional ⊢
      rw [hconditional, hcomma, Bool.or_self]

/-- If the reader of further arguments fails, it is stuck in the argument behind one of the commas. -/
theorem justified_moreArguments {count : Nat} {ts : List Token} {fault : Fault}
    (h : moreArguments argument count ts = .error fault) :
    fault.Justified .arguments ts := by
  induction count generalizing ts with
  | zero => cases h
  | succ count ih =>
    rw [moreArguments] at h
    split at h
    · rename_i after hcomma
      obtain ⟨t, rfl, ht⟩ := accept?_eq_some_iff.1 hcomma
      rcases bind_eq_error_iff.1 h with he | ⟨⟨e, after₁⟩, he, h₁⟩
      · refine (hpr.justified he).within [t] (.argument · .noArgument) numbered_nil
          (by simp [Derivation.yield, ht]) ?_
        intro l _ hopen
        rw [List.map_singleton, ht] at hopen
        exact hopen.argument
      · obtain ⟨d, used, rfl, hy, -, -⟩ := hex.sound he
        rcases bind_eq_error_iff.1 h₁ with hes | ⟨⟨es, after₂⟩, -, h₂⟩
        · refine (ih hes).within (t :: used) (.argument d) numbered_nil (by simp [Derivation.yield, ht, hy]) ?_
          intro l hl hopen
          rw [List.map_cons, ht, hy] at hopen
          exact hopen.argumentsBehind ((hpr.greedy he).of_head? hl)
        · cases h₂
    · cases h

/-- The arguments of a call fail in the first one, in a further one or where they have to be closed. -/
theorem justified_arguments {name opening : Token} {text : List Char} (hname : name.terminal = .name text)
    (hopening : opening.terminal = .symbol .openRound) {f : Function}
    (hf : Function.ofName? (String.ofList text) = some f) {ts : List Token} {fault : Fault}
    (h : arguments argument ts = .error fault) :
    fault.Justified .primary (name :: opening :: ts) := by
  have hclosing : Numbered [.symbol .closeRound] := numbered_nil.symbol_cons _
  rw [arguments] at h
  split at h
  · cases h
  rcases bind_eq_error_iff.1 h with he | ⟨⟨e, after⟩, he, h₁⟩
  · refine (hpr.justified he).within [name, opening] (.call text f hf · .noArgument) hclosing
      (by simp [Derivation.yield, hname, hopening]) ?_
    intro l _ hopen
    rw [List.map_cons, List.map_singleton, hname, hopening] at hopen
    exact hopen.firstArgument
  obtain ⟨d, used, rfl, hy, -, -⟩ := hex.sound he
  -- Behind the first argument stand further ones and a closing bracket.
  have hbehind {l : List (Terminal (List Char))} (hl : l.head? = (after.map Token.terminal).head?)
      (hopen : Opens .primary ((name :: opening :: used).map Token.terminal ++ l)) :
      ∃ (more : Parse .arguments) (rest : List (Terminal (List Char))), l = more.yield ++ .symbol .closeRound :: rest := by
    rw [List.map_cons, List.map_cons, hname, hopening, hy] at hopen
    exact Opens.moreArguments hopen ((hpr.greedy he).of_head? hl)
  rcases bind_eq_error_iff.1 h₁ with hes | ⟨⟨es, after'⟩, hes, h₂⟩
  · refine (justified_moreArguments hex hpr hes).within (name :: opening :: used) (.call text f hf d) hclosing
      (by simp [Derivation.yield, hname, hopening, hy]) ?_
    intro l hl hopen
    obtain ⟨more, rest, rfl⟩ := hbehind hl hopen
    exact ⟨more, _, Opens.closeRound_endsBefore rest, rfl⟩
  have hends := endsBefore_of_moreArguments hex hpr (Nat.le_refl _) (hpr.greedy he) hes
  obtain ⟨d', used', rfl, hy', -, -⟩ := moreArguments_sound hex hes
  rcases bind_eq_error_iff.1 h₂ with hclose | ⟨after'', -, h₃⟩
  · rw [← List.append_assoc]
    refine justified_of_expect hclose (name :: opening :: (used ++ used')) (.call text f hf d d') hclosing
      (by simp [Derivation.yield, hname, hopening, hy, hy']) ?_
    intro l hl hopen
    rw [← List.cons_append, ← List.cons_append, List.map_append, List.append_assoc] at hopen
    obtain ⟨more, rest, heq⟩ := hbehind (by simp only [List.map_append, List.head?_append, hl]) hopen
    rw [hy'] at heq
    obtain ⟨-, rfl⟩ := d'.determined more (hends.of_head? hl) (Opens.closeRound_endsBefore rest) heq
    rfl
  · cases h₃

end Arguments

/-! ### Branches -/

/-- The branches of a choice fail in either of them or where the colon has to stand. -/
theorem justified_branches {room : Nat} {branch : Reads Expr} (hex : Exact .conditional room branch)
    (hpr : Prompt .conditional branch) {c : Expr} {u ts : List Token} {d : Parse (.tier 0)}
    (hu : u.map Token.terminal = d.yield ++ [.symbol .question]) {fault : Fault}
    (h : (do
      let (consequent, rest) ← branch ts
      let rest ← expect .colon rest
      let (alternative, rest) ← branch rest
      return (Expr.choice c consequent alternative, rest)) = .error fault) :
    fault.Justified .conditional (u ++ ts) := by
  have hcolon : Numbered (.symbol .colon :: zeroSentence.yield) := numbered_zeroSentence.symbol_cons .colon
  rcases bind_eq_error_iff.1 h with he | ⟨⟨e, after⟩, he, h₁⟩
  · -- In the first branch: a colon and a zero behind it would make a choice.
    refine (hpr.justified he).within u (.choice d · zeroSentence) hcolon (by simp [Derivation.yield, hu]) ?_
    intro l _ hopen
    rw [hu, List.append_assoc, List.singleton_append] at hopen
    exact .of_upTo rfl (by decide) hopen.consequent
  obtain ⟨d₁, used, rfl, hy, -, -⟩ := hex.sound he
  rw [← List.append_assoc]
  rcases bind_eq_error_iff.1 h₁ with hclose | ⟨after', hclose, h₂⟩
  · -- At the colon: the first branch has been taken whole, so nothing else may come.
    refine justified_of_expect hclose (u ++ used) (.choice d d₁ zeroSentence) hcolon
      (by simp [Derivation.yield, hu, hy]) ?_
    intro l hl hopen
    rw [List.map_append, hu, hy, List.append_assoc, List.append_assoc, List.singleton_append] at hopen
    exact Opens.head?_of_upTo rfl (by decide) hopen.consequent ((hpr.greedy he).of_head? hl)
  obtain ⟨t, rfl, ht⟩ := expect_eq_ok_iff.1 hclose
  rcases bind_eq_error_iff.1 h₂ with he₂ | ⟨⟨e₂, after₂⟩, -, h₃⟩
  · rw [List.append_cons]
    -- In the second branch, with which the choice ends.
    refine (hpr.justified he₂).within (u ++ used ++ [t]) (.choice d d₁) numbered_nil
      (by simp [Derivation.yield, hu, hy, ht]) ?_
    intro l _ hopen
    rw [List.map_append, List.map_append, hu, hy, List.map_singleton, ht] at hopen
    simp only [List.append_assoc, List.singleton_append] at hopen
    exact hopen.alternative
  · cases h₃

/-! ### All readers -/

section Inside

variable {room : Nat} (hex : ExactInside room) (hin : PromptInside room)

include hex hin

/-- A call fails at a name of no function, where its bracket has to be opened, or in its arguments. -/
theorem justified_call {name : Token} {text : List Char} (hname : name.terminal = .name text) {ts : List Token}
    {fault : Fault} (h : call (inside room) name ts = .error fault) :
    fault.Justified .primary (name :: ts) := by
  have htext : name.text = String.ofList text := by rw [Token.text, terminal_eq_name.1 hname, Lexeme.chars]
  rw [call, htext] at h
  split at h
  · rename_i hnone
    obtain rfl := Except.error.inj h
    -- A name of no function is wrong itself, since an operand that begins with a name is a call.
    have hunknown : ¬ IsFunctionName text := by
      rintro ⟨f, hf⟩
      cases hnone.symm.trans hf
    refine ⟨stuck_here [] (name :: ts) (.operand ['0']) numbered_zeroSentence rfl fun l hl hopen => ?_, text, hname,
      hunknown⟩
    rw [List.map_cons, List.head?_cons, hname] at hl
    obtain ⟨rest, rfl⟩ := List.head?_eq_some_iff.1 hl
    exact hunknown hopen.call.1
  · rename_i f hf
    rcases bind_eq_error_iff.1 h with hopening | ⟨after, hopening, h₁⟩
    · -- Without the bracket the name is stuck; with a zero in brackets behind it, it would be a call.
      refine justified_of_expect hopening [name] (.call text f hf zeroSentence .noArgument)
        (numbered_zeroSentence.append (numbered_nil.symbol_cons .closeRound) |>.symbol_cons .openRound)
        (by simp [Derivation.yield, hname]) ?_
      intro l _ hopen
      rw [List.map_singleton, hname] at hopen
      obtain ⟨-, first, more, rest, rfl⟩ := hopen.call
      rfl
    obtain ⟨opening, rfl, hopening'⟩ := expect_eq_ok_iff.1 hopening
    obtain rfl | ⟨m, rfl, h₂⟩ := tooDeep_or_of_enter h₁
    · trivial
    rcases bind_eq_error_iff.1 h₂ with hes | ⟨⟨es, after'⟩, -, h₃⟩
    · exact justified_arguments (hex m rfl).1 (hin m rfl).1 hname hopening' hf hes
    · dsimp only at h₃
      split at h₃
      · cases h₃
      · obtain rfl := Except.error.inj h₃
        trivial

/-- **The reader of an operand is prompt**, with brackets and calls by the readers for one level further in. -/
theorem prompt_primary : Prompt .primary (primary (inside room)) where
  greedy _ := fun _ _ => rfl
  justified {ts fault} h := by
    have hnothing : (Derivation.operand ['0'] : Parse .primary).yield = [] ++ [.operand ['0']] := rfl
    rcases ts with _ | ⟨⟨text | text | s, position⟩, ts⟩
    · obtain rfl := Except.error.inj h
      refine stuck_here [] [] _ numbered_zeroSentence hnothing fun l hl hopen => ?_
      rcases hopen.head?_primary with ⟨_, hhead⟩ | ⟨_, hhead⟩ | hhead | hhead <;> cases hl.symm.trans hhead
    · cases h
    · exact justified_call hex hin rfl h
    · cases s with
      | openRound =>
        exact justified_bracketed hex hin rfl (by decide) .round (fun _ => rfl) (fun _ => Opens.round) h
      | openSquare =>
        exact justified_bracketed hex hin rfl (by decide) .square (fun _ => rfl) (fun _ => Opens.square) h
      | _ =>
        obtain rfl := Except.error.inj h
        refine stuck_here [] (_ :: ts) _ numbered_zeroSentence hnothing fun l hl hopen => ?_
        rcases hopen.head?_primary with ⟨_, hhead⟩ | ⟨_, hhead⟩ | hhead | hhead <;> cases hl.symm.trans hhead

/-- The reader of an operand with its signs is prompt. -/
theorem prompt_unary : Prompt (.tier 6) (unary (inside room)) where
  greedy _ := by
    intro t _
    simp only [Construct.goesOn]
    -- No operator of two operands is as tight as a sign, so behind an operand with its signs nothing goes on.
    cases hl : t.level? with
    | none => rfl
    | some k => simp [Nat.not_le.2 (Terminal.level?_lt hl)]
  justified {ts fault} h := by
    rw [unary] at h
    split at h
    · rename_i op after hnext
      obtain ⟨t, s, rfl, ht, hs⟩ := unaryOperator?_eq_some_iff.1 hnext
      obtain rfl | ⟨m, rfl, h₁⟩ := tooDeep_or_of_enter h
      · trivial
      rcases bind_eq_error_iff.1 h₁ with he | ⟨⟨e, after'⟩, -, h₂⟩
      · refine ((hin m rfl).2.justified he).within [t] (.signed s op hs) numbered_nil
          (by simp [Derivation.yield, ht]) ?_
        intro l _ hopen
        rw [List.map_singleton, ht] at hopen
        exact hopen.signed hs
      · cases h₂
    · rename_i hnone
      -- There is no sign in front, so what is wrong is wrong in the operand.
      refine ((prompt_primary hex hin).justified h).within [] .unsigned numbered_nil (by simp [Derivation.yield]) ?_
      intro l hl hopen
      refine Opens.unsigned ?_ hopen
      intro s op hhead hs
      cases ts with
      | nil => cases hl.symm.trans hhead
      | cons t ts =>
        have hnext : unaryOperator? (t :: ts) = some (op, ts) :=
          unaryOperator?_eq_some_iff.2 ⟨t, s, rfl, Option.some.inj (hl.symm.trans hhead), hs⟩
        cases hnone.symm.trans hnext

/-- The reader of formulas is greedy: it stops where no operator and no question mark follows. -/
theorem endsBefore_of_conditional {ts rest : List Token} {e : Expr}
    (h : conditional (inside room) ts = .ok (e, rest)) : Construct.conditional.EndsBefore (rest.map Token.terminal) := by
  have htiers := prompt_tiers (exact_unary hex) (prompt_unary hex hin)
  obtain ⟨⟨c, after⟩, hc, h₁⟩ := bind_eq_ok_iff.1 h
  dsimp only at h₁
  split at h₁
  · rename_i hnone
    obtain ⟨rfl, rfl⟩ := Prod.mk.inj (Except.ok.inj h₁)
    intro t ht
    have htier := htiers.greedy hc t ht
    have hquestion := Terminal.is_eq_false fun heq => head?_ne_of_accept? hnone (heq ▸ ht)
    simp only [Construct.goesOn] at htier ⊢
    rw [hquestion, Bool.or_false]
    simpa using htier
  · cases room with
    | zero => simp [enter_zero, error_bind] at h₁
    | succ m =>
      rw [enter_succ, ok_bind, bind_eq_ok_iff] at h₁
      obtain ⟨⟨e₁, after₂⟩, -, h₂⟩ := h₁
      obtain ⟨after₃, -, h₃⟩ := bind_eq_ok_iff.1 h₂
      obtain ⟨⟨e₂, after₄⟩, he₂, h₄⟩ := bind_eq_ok_iff.1 h₃
      obtain ⟨rfl, rfl⟩ := Prod.mk.inj (Except.ok.inj h₄)
      exact (hin m rfl).1.greedy he₂

/-- **The reader of formulas is prompt**: it is stuck in the condition, in one of the branches, or for want of
the colon. -/
theorem prompt_conditional : Prompt .conditional (conditional (inside room)) where
  greedy h := endsBefore_of_conditional hex hin h
  justified {ts fault} h := by
    have htiers := prompt_tiers (exact_unary hex) (prompt_unary hex hin)
    rcases bind_eq_error_iff.1 h with hc | ⟨⟨c, after⟩, hc, h₁⟩
    · exact (htiers.justified hc).within [] .plain numbered_nil (by simp [Derivation.yield])
        fun l _ hopen => hopen.condition
    obtain ⟨d, used, rfl, hy, -, -⟩ := (exact_tiers (exact_unary hex)).sound hc
    dsimp only at h₁
    split at h₁
    · cases h₁
    rename_i behind hquestion
    obtain ⟨t, rfl, ht⟩ := accept?_eq_some_iff.1 hquestion
    obtain rfl | ⟨m, rfl, h₂⟩ := tooDeep_or_of_enter h₁
    · trivial
    rw [List.append_cons]
    exact justified_branches (hex m rfl).1 (hin m rfl).1 (by rw [List.map_append, hy, List.map_singleton, ht]) h₂

end Inside

/-- **The readers within any number of levels are prompt.** By induction on the levels: the readers of one level
use those of the next one in, and are prompt if these are. -/
theorem promptInside (room : Nat) : PromptInside room := by
  induction room with
  | zero =>
    intro m hm
    omega
  | succ n ih =>
    intro m hm
    obtain rfl := Nat.succ.inj hm
    exact ⟨prompt_conditional (exactInside n) ih, prompt_unary (exactInside n) ih⟩

end Formula
end Tariff
