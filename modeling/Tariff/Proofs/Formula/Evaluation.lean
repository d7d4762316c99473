/-
# Evaluation does not get stuck

A derivation has a tree without types (`Derivation.untyped`), made of the texts of its symbols and names and of as
many arguments as there are, whether they fit or not. What makes it well formed are the checks of the parser: symbols
are those of operators (`Symbol.binary?`, `Symbol.unary?`), names are those of functions (`Function.ofName?`), and a
call is given up where its arguments are too few or too many (`Function.call?`).

| check | of the untyped tree |
| --- | --- |
| `Function.ofName?` | the name is in the table of functions (`isFunctionName_iff`) |
| `Function.call?` | so it is, and the number of arguments is that of the table (`exists_takes_iff`) |
| both, in a whole derivation | it is well formed (`Derivation.wellFormed_untyped_iff`) |

The tree that is read is the untyped tree of a derivation that has passed them (`wellFormed_of_parse`), and so it is
run to its value without a mishap. So evaluation fails in its two ways only (`evaluate_outcomes`).
-/

import Tariff.Formula
import Tariff.Proofs.Formula.Acceptance
import Tariff.Proofs.Formula.Lexing
import Tariff.Proofs.Formula.Untyped
import Tariff.Proofs.Names

namespace Tariff
namespace Formula

/-! ### What the parser checks -/

/-- The name of a function without `Math.` in front. -/
def bareName (text : List Char) : String :=
  String.ofList (if "Math.".toList.isPrefixOf text then text.drop "Math.".length else text)

/-- What a name stands for has that name, apart from a `Math.` in front. -/
theorem bareName_of_ofName? {text : List Char} {f : Function} (hf : Function.ofName? (String.ofList text) = some f) :
    bareName text = f.name := by
  unfold Function.ofName? at hf
  have hname := List.find?_some hf
  simp only [Bool.or_eq_true, decide_eq_true_eq] at hname
  rcases hname with hname | hname
  · obtain rfl : f.name.toList = text := by rw [hname, String.toList_ofList]
    rcases f with (_ | _) | (_ | _ | _) <;> rfl
  · obtain rfl : ("Math." ++ f.name).toList = text := by rw [hname, String.toList_ofList]
    rcases f with (_ | _) | (_ | _ | _) <;> rfl

/-- **The parser takes a name just if the table has it,** apart from a `Math.` in front. The names that the
parser looks for are those of the table, each of them with `Math.` and without. -/
theorem isFunctionName_iff {text : List Char} : IsFunctionName text ↔ (lookup? (bareName text) arities).isSome := by
  constructor
  · rintro ⟨f, hf⟩
    rw [bareName_of_ofName? hf, lookup?_arities]
    rfl
  · intro h
    obtain ⟨f, hf, hbare⟩ := exists_function h
    have hname : (bareName text).toList ∈ Function.all.map fun f => f.name.toList :=
      List.mem_map.2 ⟨f, hf, congrArg String.toList hbare⟩
    rw [bareName, String.toList_ofList] at hname
    refine isFunctionName_of_mem_spellings (List.mem_append.2 ?_)
    split at hname
    · rename_i hprefix
      obtain ⟨behind, rfl⟩ := List.isPrefixOf_iff_prefix.1 hprefix
      rw [show "Math.".length = "Math.".toList.length from rfl, List.drop_left] at hname
      exact .inl (List.mem_map_of_mem hname)
    · exact .inr hname

/-- **The parser takes a name with a number of arguments just if the table does.** A call of them then gives a tree
(`Function.isSome_call?`). -/
theorem exists_takes_iff {text : List Char} {count : Nat} :
    (∃ f, Function.ofName? (String.ofList text) = some f ∧ f.takes count = true) ↔
      ∃ least most, lookup? (bareName text) arities = some (least, most) ∧ least ≤ count ∧ ∀ n ∈ most, count ≤ n := by
  constructor
  · rintro ⟨f, hf, htakes⟩
    rw [bareName_of_ofName? hf]
    exact takes_iff.1 htakes
  · rintro ⟨least, most, hlookup, hcount⟩
    obtain ⟨f, hf⟩ := isFunctionName_iff.2 (by rw [hlookup]; rfl)
    rw [bareName_of_ofName? hf] at hlookup
    exact ⟨f, hf, takes_iff.2 ⟨least, most, hlookup, hcount⟩⟩

/-- A symbol that stands for an operator between operands is spelled as it. -/
theorem symbol_of_binary? {s : Symbol} {op : BinaryOp} (h : s.binary? = some op) :
    String.ofList s.chars = op.symbol := by
  cases s <;> cases h <;> rfl

/-- A symbol that stands for an operator in front of an operand is spelled as it. -/
theorem symbol_of_unary? {s : Symbol} {op : UnaryOp} (h : s.unary? = some op) : String.ofList s.chars = op.symbol := by
  cases s <;> cases h <;> rfl

/-! ### Derivations without types -/

/-- What a construct is without types: operators wait for the operand to their left. -/
abbrev Construct.Untyped : Construct → Type
  | operators _ => List (String × Node)
  | arguments => List Node
  | conditional => Node
  | tier _ => Node
  | primary => Node

/-- Each part is well formed, and the operators that wait are those of two operands. -/
def Construct.WellFormed : (c : Construct) → c.Untyped → Prop
  | operators _, more => ∀ next ∈ more, (next.1 ∈ ["&&", "||"] ∨ next.1 ∈ operations.map Prod.fst) ∧ next.2.WellFormed
  | arguments, es => ∀ e ∈ es, e.WellFormed
  | conditional, e => e.WellFormed
  | tier _, e => e.WellFormed
  | primary, e => e.WellFormed

/-- What a construct means, without types. -/
def Construct.forget : (c : Construct) → c.Meaning → c.Untyped
  | operators _, more => more.map fun next => (next.1.symbol, next.2.node)
  | arguments, es => Expr.nodes es
  | conditional, e => e.node
  | tier _, e => e.node
  | primary, e => e.node

/-- Grouping to the left comes to the same with types and without. -/
theorem node_groupLeft {more : List (BinaryOp × Expr)} : ∀ {first : Expr}, (Derivation.groupLeft first more).node =
    Node.groupLeft first.node (more.map fun next => (next.1.symbol, next.2.node)) := by
  induction more with
  | nil => intro first; rfl
  | cons next more ih => intro first; exact ih

namespace Derivation

variable {α : Type} {leaf : α → Binary64}

/-- The tree of a derivation as its texts spell it, when `leaf` gives the numbers of the operands. A call gets the
arguments that are there, however many the function takes. -/
def untyped (leaf : α → Binary64) : {c : Construct} → Derivation α c → c.Untyped
  | _, plain c => c.untyped leaf
  | _, choice c t e => .choice (c.untyped leaf) (t.untyped leaf) (e.untyped leaf)
  | _, tier _ first more => Node.groupLeft (first.untyped leaf) (more.untyped leaf)
  | _, noOperator => []
  | _, operator s _ _ _ right more => (String.ofList s.chars, right.untyped leaf) :: more.untyped leaf
  | _, signed s _ _ e => .unary (String.ofList s.chars) (e.untyped leaf)
  | _, unsigned p => p.untyped leaf
  | _, operand a => .number (leaf a)
  | _, round e => e.untyped leaf
  | _, square e => e.untyped leaf
  | _, call text _ _ first more => .call (bareName text) (first.untyped leaf :: more.untyped leaf)
  | _, noArgument => []
  | _, argument e more => e.untyped leaf :: more.untyped leaf

theorem length_untyped : ∀ d : Derivation α .arguments, (d.untyped leaf).length = d.count
  | noArgument => rfl
  | argument e more => by
    rw [untyped, count, List.length_cons, length_untyped more]

/-- **The untyped tree is well formed just if every function gets as many arguments as it takes.** The symbols and
names are in the tables, since the productions ask for that. -/
theorem wellFormed_untyped_iff {c : Construct} (d : Derivation α c) :
    c.WellFormed (d.untyped leaf) ↔ d.callsFit = true := by
  induction d with
  | plain c ih => exact ih
  | choice c t e ihc iht ihe =>
    rw [callsFit, Bool.and_eq_true, Bool.and_eq_true, ← ihc, ← iht, ← ihe, and_assoc]
    exact Node.wellFormed_choice_iff
  | tier h first more ih ihm =>
    rw [callsFit, Bool.and_eq_true, ← ih, ← ihm]
    exact Node.wellFormed_groupLeft_iff
  | noOperator => simp [untyped, Construct.WellFormed, callsFit]
  | operator s op hs hl right more ih ihm =>
    have hop : String.ofList s.chars ∈ ["&&", "||"] ∨ String.ofList s.chars ∈ operations.map Prod.fst := by
      rw [symbol_of_binary? hs]
      cases op <;> decide
    rw [callsFit, Bool.and_eq_true, ← ih, ← ihm, untyped, Construct.WellFormed, List.forall_mem_cons]
    exact and_congr_left' (and_iff_right hop)
  | signed s op hs e ih =>
    have hop : String.ofList s.chars ∈ ["-", "+", "!"] := by
      rw [symbol_of_unary? hs]
      cases op <;> decide
    rw [callsFit, ← ih]
    exact Node.wellFormed_unary_iff.trans (and_iff_right hop)
  | unsigned p ih => exact ih
  | operand a => exact iff_of_true (.number _) rfl
  | round e ih => exact ih
  | square e ih => exact ih
  | call text f hf first more ih ihm =>
    have htakes : f.takes (more.count + 1) = true ↔
        ∃ f', Function.ofName? (String.ofList text) = some f' ∧ f'.takes (more.count + 1) = true := by simp [hf]
    rw [callsFit, Bool.and_eq_true, Bool.and_eq_true, ← ih, ← ihm, htakes, exists_takes_iff, and_assoc]
    refine Node.wellFormed_call_iff.trans ?_
    rw [List.length_cons, length_untyped, List.forall_mem_cons]
    rfl
  | noArgument => simp [untyped, Construct.WellFormed, callsFit]
  | argument e more ih ihm =>
    rw [callsFit, Bool.and_eq_true, ← ih, ← ihm]
    exact List.forall_mem_cons

/-- Where a derivation has a tree, that tree is the untyped one. -/
theorem untyped_of_tree? {c : Construct} (d : Derivation α c) :
    ∀ {x : c.Meaning}, d.tree? leaf = some x → d.untyped leaf = c.forget x := by
  induction d with
  | plain c ih => exact ih
  | choice c t e ihc iht ihe =>
    intro x h
    obtain ⟨c', hc, t', ht, e', he, rfl⟩ := tree?_choice_eq_some_iff.1 h
    rw [untyped, ihc hc, iht ht, ihe he]
    rfl
  | tier h first more ih ihm =>
    intro x h
    obtain ⟨first', hfirst, more', hmore, rfl⟩ := tree?_tier_eq_some_iff.1 h
    rw [untyped, ih hfirst, ihm hmore]
    exact node_groupLeft.symm
  | noOperator =>
    rintro _ ⟨⟩
    rfl
  | operator s op hs hl right more ih ihm =>
    intro x h
    obtain ⟨right', hright, more', hmore, rfl⟩ := tree?_operator_eq_some_iff.1 h
    rw [untyped, ih hright, ihm hmore, symbol_of_binary? hs]
    rfl
  | signed s op hs e ih =>
    intro x h
    obtain ⟨e', he, rfl⟩ := tree?_signed_eq_some_iff.1 h
    rw [untyped, ih he, symbol_of_unary? hs]
    rfl
  | unsigned p ih => exact ih
  | operand a =>
    rintro _ ⟨⟩
    rfl
  | round e ih => exact ih
  | square e ih => exact ih
  | call text f hf first more ih ihm =>
    intro x h
    obtain ⟨first', hfirst, more', hmore, hcall⟩ := tree?_call_eq_some_iff.1 h
    rw [untyped, ih hfirst, ihm hmore, bareName_of_ofName? hf]
    exact (Expr.node_of_call? hcall).symm
  | noArgument =>
    rintro _ ⟨⟩
    rfl
  | argument e more ih ihm =>
    intro x h
    obtain ⟨e', he, more', hmore, rfl⟩ := tree?_argument_eq_some_iff.1 h
    rw [untyped, ih he, ihm hmore]
    rfl

end Derivation

/-- **A tree that is read is well formed**: it is the untyped tree of a derivation, and the calls of that one have
passed the parser's check. -/
theorem wellFormed_of_parse {source : String} {e : Expr} (h : parse source = .ok e) : e.node.WellFormed := by
  obtain ⟨ts, -, hread⟩ := bind_eq_ok_iff.1 h
  obtain ⟨-, -, d, -, -, hx⟩ := ofTokens_eq_ok_iff.1 hread
  have hfit : d.callsFit = true := by rw [← d.isSome_tree? numberValue, hx]; rfl
  have huntyped : d.untyped numberValue = e.node := d.untyped_of_tree? hx
  rw [← huntyped]
  exact d.wellFormed_untyped_iff.2 hfit

/-! ### Reading numbers -/

/-- The numbers among the tokens of a text are positional notation. -/
theorem positional_of_mem_tokens {position : Nat} {cs : List Char} {ts : List Token}
    (h : tokensFrom position cs = .ok ts) {t : Token} (ht : t ∈ ts) {text : List Char}
    (htext : t.lexeme = .number text) : Numeral.Positional text := by
  have hlexes := lexes_of_tokensFrom h
  clear h
  induction hlexes with
  | nil => simp at ht
  | blank _ ih => exact ih ht
  | lexeme hl _ ih =>
    rcases List.mem_cons.1 ht with rfl | ht
    · obtain rfl := htext
      exact positional_of_lexemeAt? hl
    · exact ih ht

/-- Positional notation writes a decimal. -/
theorem exists_decimal?_of_positional {cs : List Char} (h : Numeral.Positional cs) :
    ∃ d, Numeral.decimal? false cs = some d := by
  cases h with
  | whole hne h => exact ⟨_, Numeral.decimal?_whole hne h false⟩
  | point hne h h' => exact ⟨_, Numeral.decimal?_point hne h h' false⟩

/-- Of a text that is read, the value is the result if it is finite, and is refused otherwise. -/
theorem evaluate_of_parse {source : String} {e : Expr} (h : parse source = .ok e) :
    evaluate source = if e.value.isFinite then .ok e.value else .error (.notFinite e.value) := by
  rw [evaluate, h]
  rfl

/-- A fault in reading is the fault of evaluation. -/
theorem evaluate_of_fault {source : String} {fault : Fault} (h : parse source = .error fault) :
    evaluate source = .error (.invalid fault) := by
  rw [evaluate, h]

/-- A text is refused as invalid just if it cannot be read, and with the same fault. -/
theorem evaluate_eq_invalid_iff {source : String} {fault : Fault} :
    evaluate source = .error (.invalid fault) ↔ parse source = .error fault := by
  cases h : parse source with
  | error fault' => simp [evaluate_of_fault h]
  | ok e =>
    rw [evaluate_of_parse h]
    split <;> simp

/-- A number is refused just if the tree of the text is run to it and it is an infinity or `nan`. -/
theorem evaluate_eq_notFinite_iff {source : String} {x : Binary64} : evaluate source = .error (.notFinite x) ↔
    ∃ e, parse source = .ok e ∧ e.node.run = .ok x ∧ x.isFinite = false := by
  cases h : parse source with
  | error fault => simp [evaluate_of_fault h]
  | ok e =>
    simp only [evaluate_of_parse h, Expr.run_node, Except.ok.injEq, exists_eq_left']
    split
    · rename_i hfinite
      simp only [reduceCtorEq, false_iff, not_and]
      rintro rfl
      simp [hfinite]
    · rename_i hfinite
      simp only [Except.error.injEq, Failure.notFinite.injEq, iff_self_and]
      rintro rfl
      simpa using hfinite

/-- A number is the result just if the tree of the text is run to it and it is finite. -/
theorem evaluate_eq_ok_iff {source : String} {x : Binary64} : evaluate source = .ok x ↔
    ∃ e, parse source = .ok e ∧ e.node.run = .ok x ∧ x.isFinite := by
  cases h : parse source with
  | error fault => simp [evaluate_of_fault h]
  | ok e =>
    simp only [evaluate_of_parse h, Expr.run_node, Except.ok.injEq, exists_eq_left']
    split
    · rename_i hfinite
      simp only [Except.ok.injEq, iff_self_and]
      rintro rfl
      exact hfinite
    · rename_i hfinite
      simp only [reduceCtorEq, false_iff, not_and]
      rintro rfl
      exact hfinite

/-- **Evaluation fails in two ways only.** A text is refused just if it has no tree; a number is refused just if
the tree of the text is run to it and it is an infinity or `nan`; and any other number that the tree is run to is
the result. Every number in the text can be read, and every tree is well formed and is run without a mishap. -/
theorem evaluate_outcomes (source : String) :
    (∀ fault, evaluate source = .error (.invalid fault) ↔ parse source = .error fault) ∧
    (∀ x, evaluate source = .error (.notFinite x) ↔
      ∃ e, parse source = .ok e ∧ e.node.run = .ok x ∧ x.isFinite = false) ∧
    (∀ x, evaluate source = .ok x ↔ ∃ e, parse source = .ok e ∧ e.node.run = .ok x ∧ x.isFinite) ∧
    (∀ ts, tokensFrom 0 source.toList = .ok ts → ∀ t ∈ ts, ∀ text, t.lexeme = .number text →
      ∃ d, Numeral.decimal? false text = some d ∧ numberValue text = d.toBinary64) ∧
    ∀ e, parse source = .ok e → e.node.WellFormed ∧ e.node.run = .ok e.value := by
  refine ⟨fun _ => evaluate_eq_invalid_iff, fun _ => evaluate_eq_notFinite_iff, fun _ => evaluate_eq_ok_iff, ?_,
    fun e h => ⟨wellFormed_of_parse h, e.run_node⟩⟩
  intro ts hts t ht text htext
  obtain ⟨d, hd⟩ := exists_decimal?_of_positional (positional_of_mem_tokens hts ht htext)
  exact ⟨d, hd, by rw [numberValue, hd, Option.map_some, Option.getD_some]⟩

end Formula
end Tariff
