/-
# Where a syntax error is reported

A fault in how tokens stand together is reported at the first wrong token. The tokens in front of it begin a formula;
with it they begin none; and if the fault is at the end of the text, all tokens together begin a formula and are none
yet (`position_of_parse_eq_error`). A formula is meant here as the grammar has it, whatever its nesting and whatever
the numbers of its arguments.

For a list of tokens this is what a prompt reader says (`exists_wrongAt`), except for a token that is left over behind
a whole formula: another formula that goes on there would be a second derivation of what was read. Positions come in
because the tokens of a text stand one behind the other (`Lexes.ordered`), so that a position cuts the list of tokens
in two.
-/

import Tariff.Proofs.Formula.Evaluation
import Tariff.Proofs.Formula.Prefixes

namespace Tariff
namespace Formula

/-- Terminals that the grammar makes a formula of, with numbers for operands. -/
def IsSentence (l : List (Terminal (List Char))) : Prop :=
  Numbered l ∧ ∃ d : Sentence (List Char), d.yield = l

/-- Terminals that begin a formula. -/
def BeginsSentence (l : List (Terminal (List Char))) : Prop := ∃ rest, IsSentence (l ++ rest)

/-- The terminals of the tokens in front of a position. -/
def terminalsBefore (ts : List Token) (position : Nat) : List (Terminal (List Char)) :=
  (ts.filter (·.position < position)).map Token.terminal

/-- Tokens that are no formula are wrong at a spot, a token or their end: those in front begin a formula, and whatever
stands behind the spot, all together are none. -/
def WrongAt (ts : List Token) (spot : Option Token) : Prop :=
  ∃ used rest, ts = used ++ rest ∧ rest.head? = spot ∧ BeginsSentence (used.map Token.terminal) ∧
    ∀ l, l.head? = spot.map Token.terminal → ¬ IsSentence (used.map Token.terminal ++ l)

/-! ### Lists of tokens -/

section Tokens

variable {ts : List Token} (hn : Numbered (ts.map Token.terminal))

include hn

/-- Where the reader of a whole formula is stuck, the tokens are wrong. -/
theorem Stuck.wrongAt {spot : Option Token} (h : Stuck .conditional ts spot) : WrongAt ts spot := by
  obtain ⟨used, rest, rfl, hspot, ⟨d, more, hmore, hd⟩, hwrong⟩ := h
  refine ⟨used, rest, rfl, hspot, ⟨more, ?_, d, hd⟩, ?_⟩
  · rw [List.map_append] at hn
    exact (Numbered.left hn).append hmore
  · rintro l hl ⟨-, e, he⟩
    exact hwrong l hl ⟨e, [], Construct.endsBefore_nil _, by rw [List.append_nil, he]⟩

/-- Behind a whole formula that goes on with nothing, any token is wrong. -/
theorem wrongAt_leftOver {used rest : List Token} {t : Token} (hts : ts = used ++ t :: rest) {d : Sentence (List Char)}
    (hy : used.map Token.terminal = d.yield) (hends : Construct.conditional.EndsBefore [t.terminal]) :
    WrongAt ts (some t) := by
  subst hts
  refine ⟨used, t :: rest, rfl, rfl, ⟨[], ?_, d, by rw [List.append_nil, hy]⟩, ?_⟩
  · rw [List.map_append] at hn
    exact (Numbered.left hn).append numbered_nil
  · rintro l hl ⟨-, e, he⟩
    rw [hy] at he
    obtain ⟨-, hnil⟩ := e.determined d (Construct.endsBefore_nil _) (hends.of_head? hl) (by rw [List.append_nil, he])
    rw [← hnil] at hl
    cases hl

/-- **Tokens that are no formula are reported at the first wrong one.** Of the other faults of a list of tokens, depth
has no position and a number of arguments is left aside. -/
theorem exists_wrongAt {source : String} {fault : Fault} {p : Nat} (hpos : 1 ≤ ts.length) (hlong : ts.length ≤ tokenLimit)
    (h : ofTokens ts = .error fault) (harity : ∀ f count name, fault ≠ .argumentCount f count name)
    (hp : fault.position? source = some p) :
    ∃ spot, WrongAt ts spot ∧ (spot.map Token.position).getD source.length = p := by
  have hprompt : Prompt .conditional (conditional (inside nestingLimit)) :=
    prompt_conditional (exactInside nestingLimit) (promptInside nestingLimit)
  have hne : ts.isEmpty = false := by
    cases ts with
    | nil => simp at hpos
    | cons => rfl
  rw [ofTokens, if_neg (Nat.not_lt.2 hlong), hne, if_neg Bool.false_ne_true] at h
  split at h
  · rename_i fault' hread
    obtain rfl := Except.error.inj h
    have hjustified := hprompt.justified hread
    cases fault' with
    | endsEarly => exact ⟨none, Stuck.wrongAt hn hjustified, Option.some.inj hp⟩
    | unexpected t | expected _ t => exact ⟨some t, Stuck.wrongAt hn hjustified, Option.some.inj hp⟩
    | unknownName t => exact ⟨some t, hjustified.1.wrongAt hn, Option.some.inj hp⟩
    | tooDeep => cases hp
    | argumentCount f count name => exact absurd rfl (harity f count name)
    | missing | empty | tooLong | foreignChar | strayChar => exact hjustified.elim
  · cases h
  · rename_i e t rest hread
    obtain rfl := Except.error.inj h
    obtain ⟨d, used, hts, hy, -, -⟩ := exact_formula.sound hread
    -- A whole formula has been read and `t` is left over.
    exact ⟨some t, wrongAt_leftOver hn hts hy ((hprompt.greedy hread).of_head? rfl), Option.some.inj hp⟩

end Tokens

/-! ### Positions -/

/-- The tokens of a text lie within it. -/
theorem Lexes.within {position : Nat} {cs : List Char} {ts : List Token} (h : Lexes position cs ts) :
    ∀ t ∈ ts, position ≤ t.position ∧ t.position < position + cs.length := by
  induction h with
  | nil => simp
  | blank _ ih =>
    intro t ht
    have := ih t ht
    rw [List.length_cons]
    omega
  | lexeme hl _ ih =>
    have hpos := List.length_pos_iff.2 (lexemeAt?_ne_nil hl)
    intro t ht
    rw [List.length_append]
    rcases List.mem_cons.1 ht with rfl | ht
    · dsimp only
      omega
    · have := ih t ht
      omega

/-- The tokens of a text stand one behind the other. -/
theorem Lexes.ordered {position : Nat} {cs : List Char} {ts : List Token} (h : Lexes position cs ts) :
    ts.Pairwise (·.position < ·.position) := by
  induction h with
  | nil => exact .nil
  | blank _ ih => exact ih
  | lexeme hl hrest ih =>
    have hpos := List.length_pos_iff.2 (lexemeAt?_ne_nil hl)
    refine .cons (fun t ht => ?_) ih
    have := (hrest.within t ht).1
    dsimp only
    omega

/-- A position cuts tokens in two. -/
theorem terminalsBefore_append {used rest : List Token} {p : Nat} (hused : ∀ t ∈ used, t.position < p)
    (hrest : ∀ t ∈ rest, p ≤ t.position) : terminalsBefore (used ++ rest) p = used.map Token.terminal := by
  have hkept : used.filter (·.position < p) = used := List.filter_eq_self.2 fun t ht => decide_eq_true (hused t ht)
  have hdropped : rest.filter (·.position < p) = [] :=
    List.filter_eq_nil_iff.2 fun t ht => by simpa using hrest t ht
  rw [terminalsBefore, List.filter_append, hkept, hdropped, List.append_nil]

/-- The position of a token among tokens one behind the other. -/
theorem terminalsBefore_position {used rest : List Token} {t : Token}
    (h : (used ++ t :: rest).Pairwise (·.position < ·.position)) :
    terminalsBefore (used ++ t :: rest) t.position = used.map Token.terminal ∧
      terminalsBefore (used ++ t :: rest) (t.position + 1) = (used ++ [t]).map Token.terminal := by
  obtain ⟨-, hbehind, hfront⟩ := List.pairwise_append.1 h
  have hused (u : Token) (hu : u ∈ used) : u.position < t.position := hfront u hu t List.mem_cons_self
  have hrest (u : Token) (hu : u ∈ rest) : t.position < u.position := List.rel_of_pairwise_cons hbehind hu
  constructor
  · exact terminalsBefore_append hused
      (List.forall_mem_cons.2 ⟨Nat.le_refl _, fun u hu => Nat.le_of_lt (hrest u hu)⟩)
  · rw [List.append_cons]
    refine terminalsBefore_append (List.forall_mem_append.2 ⟨fun u hu => Nat.lt_succ_of_lt (hused u hu), ?_⟩) hrest
    exact List.forall_mem_singleton.2 (Nat.lt_succ_self _)

/-- The number tokens of a text are positional notation. -/
theorem numbered_of_tokensFrom {position : Nat} {cs : List Char} {ts : List Token}
    (h : tokensFrom position cs = .ok ts) : Numbered (ts.map Token.terminal) := by
  intro text htext
  obtain ⟨t, ht, hterminal⟩ := List.mem_map.1 htext
  exact positional_of_mem_tokens h ht (terminal_eq_operand.1 hterminal)

/-- **Syntax errors are reported at the first wrong token.** For a text of admissible characters with from 1 to
`tokenLimit` tokens: the tokens in front of the position of a fault other than a number of arguments begin a formula; at
the end of the text they are none yet, and elsewhere a token stands at the position, with which they begin none. -/
theorem position_of_parse_eq_error {source : String} {ts : List Token} {fault : Fault} {p : Nat}
    (hforeign : firstForeign? none 0 0 source.toList = none) (hts : tokensFrom 0 source.toList = .ok ts)
    (hpos : 1 ≤ ts.length) (hlong : ts.length ≤ tokenLimit) (h : parse source = .error fault)
    (harity : ∀ f count name, fault ≠ .argumentCount f count name) (hp : fault.position? source = some p) :
    BeginsSentence (terminalsBefore ts p) ∧
      (p = source.length → ¬ IsSentence (terminalsBefore ts p)) ∧
      (p ≠ source.length → (∃ t ∈ ts, t.position = p) ∧ ¬ BeginsSentence (terminalsBefore ts (p + 1))) := by
  have hlexes := lexes_of_tokensFrom hts
  -- Tokens stand inside the text, so its end is the position of none.
  have hwithin (t : Token) (ht : t ∈ ts) : t.position < source.length := by
    have := (hlexes.within t ht).2
    rwa [Nat.zero_add, String.length_toList] at this
  have hread : ofTokens ts = .error fault := by
    rwa [parse, tokens_eq_ok_iff.2 ⟨hforeign, hts⟩, ok_bind] at h
  obtain ⟨spot, ⟨used, rest, rfl, hspot, hbegins, hwrong⟩, hposition⟩ :=
    exists_wrongAt (numbered_of_tokensFrom hts) hpos hlong hread harity hp
  cases rest with
  | nil =>
    obtain rfl : none = spot := hspot
    obtain rfl : source.length = p := hposition
    rw [List.append_nil] at hwithin ⊢
    rw [← List.append_nil used, terminalsBefore_append hwithin (List.forall_mem_nil _)]
    refine ⟨hbegins, fun _ hwhole => hwrong [] rfl (by rwa [List.append_nil]), fun hne => absurd rfl hne⟩
  | cons t rest =>
    obtain rfl : some t = spot := hspot
    obtain rfl : t.position = p := hposition
    have ht : t ∈ used ++ t :: rest := List.mem_append_right _ List.mem_cons_self
    obtain ⟨hbefore, hupTo⟩ := terminalsBefore_position hlexes.ordered
    rw [hbefore, hupTo]
    refine ⟨hbegins, fun hend => absurd hend (Nat.ne_of_lt (hwithin t ht)), fun _ => ⟨⟨t, ht, rfl⟩, ?_⟩⟩
    rintro ⟨l, hsentence⟩
    rw [List.map_append, List.append_assoc] at hsentence
    exact hwrong _ rfl hsentence

/-- In `max 2` the number is wrong, since no bracket stands in front of it. -/
theorem position_of_parse_eq_error_missingBracket :
    parse "max 2" = .error (.expected .openRound ⟨.number ['2'], 4⟩) ∧
      BeginsSentence [.name ['m', 'a', 'x']] ∧ ¬ BeginsSentence [.name ['m', 'a', 'x'], .operand ['2']] := by
  have hforeign : firstForeign? none 0 0 "max 2".toList = none := by decide +kernel
  have hts : tokensFrom 0 "max 2".toList = .ok [⟨.name ['m', 'a', 'x'], 0⟩, ⟨.number ['2'], 4⟩] := by
    have hname : lexemeAt? ((Lexeme.name ['m', 'a', 'x']).chars ++ [' ', '2']) = some (.name ['m', 'a', 'x']) := by
      decide +kernel
    have hnumber : lexemeAt? ((Lexeme.number ['2']).chars ++ []) = some (.number ['2']) := by decide +kernel
    have hrest : tokensFrom 4 ['2'] = _ := tokensFrom_lexeme hnumber 4
    have hbehind : tokensFrom 3 [' ', '2'] = _ := tokensFrom_blank (by decide) 3 ['2']
    refine (tokensFrom_lexeme hname 0).trans ?_
    rw [show 0 + (Lexeme.name ['m', 'a', 'x']).chars.length = 3 from rfl, hbehind, hrest, tokensFrom]
    rfl
  have hfault : parse "max 2" = .error (.expected .openRound ⟨.number ['2'], 4⟩) := by
    rw [parse, tokens_eq_ok_iff.2 ⟨hforeign, hts⟩]
    rfl
  obtain ⟨hbegins, -, hwrong⟩ := position_of_parse_eq_error hforeign hts (by decide) (by decide) hfault (fun _ _ _ => by simp) rfl
  exact ⟨hfault, hbegins, (hwrong (by decide)).2⟩

end Formula
end Tariff
