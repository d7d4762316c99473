/-
# Lexemes in a longer text

What the lexeme at the front of a text is depends on little of what follows it, and so does whether its
characters are admissible.

| lexeme | stays as it is before |
| --- | --- |
| number | anything but a digit or a point |
| function name | a character that breaks words (`isBreak`) |
| symbol | anything but `=`, `&` and `|` |

White space and the beginnings of symbols break words; no digit, no point and no word character does.
-/

import Tariff.Proofs.Formula.Grammar
import Tariff.Proofs.Number.Literal
import Tariff.Proofs.Text

namespace Tariff

namespace Formula

/-- What is behind a part that is not empty is shorter than the whole. -/
theorem length_lt_append {α : Type} {front : List α} (h : front ≠ []) (rest : List α) :
    rest.length < (front ++ rest).length := by
  rw [List.length_append]
  exact Nat.lt_add_of_pos_left (List.length_pos_iff.2 h)

/-! ### Characters that break words -/

/-- White space and the characters that symbols begin with. -/
def isBreak (c : Char) : Bool := isBlank c || Symbol.all.any fun s => s.chars.head? = some c

/-- Whether a character is no part of a number, a name or a word. -/
def isApart (c : Char) : Bool := !c.isDigit && c != '.' && !isNameChar c && !isWordChar c

theorem isAlpha_eq_false_of_isDigit {c : Char} (h : c.isDigit) : c.isAlpha = false := by
  obtain ⟨-, hnine⟩ := Char.isDigit_iff_toNat.1 h
  have hupper : c.isUpper = false := decide_eq_false fun ⟨hA, _⟩ =>
    Nat.not_lt.2 hnine (Nat.lt_of_lt_of_le (by decide) (UInt32.le_iff_toNat_le.1 hA))
  have hlower : c.isLower = false := Bool.and_eq_false_iff.2 <| .inl <| decide_eq_false fun ha =>
    Nat.not_lt.2 hnine (Nat.lt_of_lt_of_le (by decide) (UInt32.le_iff_toNat_le.1 ha))
  exact Bool.or_eq_false_iff.2 ⟨hupper, hlower⟩

/-- No digit belongs to a name, so that a number and a name behind it are told apart. -/
theorem isNameChar_eq_false_of_isDigit {c : Char} (h : c.isDigit) : isNameChar c = false := by
  have hunderscore : c ≠ '_' := by
    rintro rfl
    exact absurd h (by decide)
  simp [isNameChar, isAlpha_eq_false_of_isDigit h, hunderscore]

theorem isApart_of_isBlank {c : Char} (h : isBlank c) : isApart c :=
  CharRanges.forall_of_has (P := isApart) (by decide +kernel) h

/-- Where a word breaks, a number ends too. -/
theorem isApart_of_isBreak {c : Char} (h : isBreak c) : isApart c := by
  rcases Bool.or_eq_true_iff.1 h with h | h
  · exact isApart_of_isBlank h
  · obtain ⟨s, hmem, hs⟩ := List.any_eq_true.1 h
    have hall : ∀ s ∈ Symbol.all, s.chars.head?.all isApart := by decide +kernel
    simpa [of_decide_eq_true hs] using hall s hmem

theorem isBreak_of_isBlank {c : Char} (h : isBlank c) : isBreak c := by
  simp [isBreak, h]

theorem isWordChar_of_isBreak {c : Char} (h : isBreak c) : isWordChar c = false := by
  have := isApart_of_isBreak h
  simp only [isApart, Bool.and_eq_true, Bool.not_eq_true'] at this
  exact this.2

/-- A text that nothing or a character that breaks words begins. -/
def Breaks (cs : List Char) : Prop := ∀ c ∈ cs.head?, isBreak c

/-- Where a word breaks, nothing follows that a number goes on with. -/
theorem Breaks.isApart {cs : List Char} (h : Breaks cs) : ∀ c ∈ cs.head?, isApart c :=
  fun c hc => isApart_of_isBreak (h c hc)

/-- No number goes on there. -/
theorem Breaks.ends_number {cs : List Char} (h : Breaks cs) :
    ∀ c ∈ cs.head?, c.isDigit = false ∧ c ≠ '.' := by
  intro c hc
  have := h.isApart c hc
  simp only [Formula.isApart, Bool.and_eq_true, Bool.not_eq_true', bne_iff_ne] at this
  exact this.1.1

/-- No name goes on there. -/
theorem Breaks.ends_name {cs : List Char} (h : Breaks cs) :
    ∀ c ∈ cs.head?, isNameChar c = false := by
  intro c hc
  have := h.isApart c hc
  simp only [Formula.isApart, Bool.and_eq_true, Bool.not_eq_true'] at this
  exact this.1.2

/-- No word goes on there. -/
theorem Breaks.ends_word {cs : List Char} (h : Breaks cs) :
    (cs.head?.map isWordChar).getD false = false := by
  cases cs with
  | nil => rfl
  | cons c cs => exact isWordChar_of_isBreak (h c rfl)

/-- Symbols break a word off. -/
theorem isBreak_of_head? {s : Symbol} {c : Char} (h : s.chars.head? = some c) : isBreak c := by
  have : ∀ s : Symbol, s ∈ Symbol.all := by
    intro s
    cases s <;> decide
  simp only [isBreak, Bool.or_eq_true, List.any_eq_true, decide_eq_true_eq]
  exact .inr ⟨s, this s, h⟩

/-- The character that a symbol begins with breaks words. -/
theorem isBreak_of_symbol {s : Symbol} {c : Char} {rest after : List Char}
    (h : c :: rest = s.chars ++ after) : isBreak c := by
  obtain ⟨d, ds, hds⟩ := List.exists_cons_of_ne_nil s.chars_ne_nil
  rw [hds, List.cons_append] at h
  refine isBreak_of_head? (s := s) ?_
  rw [hds, (List.cons.inj h).1]
  rfl

/-- What begins a text and does not hold the character behind its first part begins that part. -/
theorem prefix_of_prefix_append {α : Type} {xs ys tail : List α} (h : xs <+: ys ++ tail)
    (hn : ∀ a ∈ tail.head?, a ∉ xs) : xs <+: ys := by
  induction xs generalizing ys with
  | nil => exact List.nil_prefix
  | cons x xs ih =>
    cases ys with
    | nil =>
      cases tail with
      | nil => simp at h
      | cons a tail =>
        obtain ⟨rfl, -⟩ := List.cons_prefix_cons.1 h
        exact absurd List.mem_cons_self (hn x rfl)
    | cons y ys =>
      obtain ⟨rfl, h'⟩ := List.cons_prefix_cons.1 h
      exact List.cons_prefix_cons.2 ⟨rfl, ih h' fun a ha hm => hn a ha (List.mem_cons_of_mem _ hm)⟩

/-! ### One lexeme -/

/-- **The number at the front is the longest.** Positional notation is taken whole, and no further, where no
digit and no point follows. -/
theorem numberAt?_append {cs rest : List Char} (h : Numeral.Positional cs)
    (hr : ∀ c ∈ rest.head?, c.isDigit = false ∧ c ≠ '.') : numberAt? (cs ++ rest) = some cs := by
  have hdigit : ∀ c ∈ rest.head?, c.isDigit = false := fun c hc => (hr c hc).1
  cases h with
  | whole hne h =>
    simp only [numberAt?, takeWhile_run h hdigit, dropWhile_run h hdigit]
    split
    · exact absurd rfl hne
    · exact absurd rfl hne
    · exact absurd rfl (hr '.' rfl).2
    · rfl
  | @point digits places hne h h' =>
    have hpoint : ∀ c ∈ ('.' :: (places ++ rest)).head?, c.isDigit = false := by simp
    rw [List.append_assoc, List.cons_append]
    simp only [numberAt?, takeWhile_run h hpoint, dropWhile_run h hpoint]
    cases digits with
    | nil =>
      have hplaces : places ≠ [] := hne.resolve_left (by simp)
      simp [takeWhile_run h' hdigit, hplaces]
    | cons d ds => simp [takeWhile_run h' hdigit]

/-- A number is the lexeme at the front where no digit and no point follows. -/
theorem lexemeAt?_number {cs rest : List Char} (h : Numeral.Positional cs)
    (hr : ∀ c ∈ rest.head?, c.isDigit = false ∧ c ≠ '.') :
    lexemeAt? (cs ++ rest) = some (.number cs) := by
  rw [lexemeAt?, numberAt?_append h hr]

/-- The function names as texts, with `Math.` and without. -/
def spellings : List (List Char) :=
  let names := Function.all.map fun f => f.name.toList
  names.map ("Math.".toList ++ ·) ++ names

/-- A function name is one of those that the check of characters looks for. -/
theorem IsFunctionName.mem_spellings {text : List Char} (h : IsFunctionName text) :
    text ∈ spellings := by
  obtain ⟨f, hf⟩ := h
  have hname := List.find?_some hf
  have hmem : f.name.toList ∈ Function.all.map fun f => f.name.toList :=
    List.mem_map.2 ⟨f, List.mem_of_find?_eq_some hf, rfl⟩
  simp only [Bool.or_eq_true, decide_eq_true_eq] at hname
  rcases hname with hname | hname
  · have htext : f.name.toList = text := by rw [hname, String.toList_ofList]
    exact List.mem_append_right _ (htext ▸ hmem)
  · have htext : "Math.".toList ++ f.name.toList = text := by
      rw [← String.toList_append, hname, String.toList_ofList]
    exact List.mem_append_left _ (List.mem_map.2 ⟨_, hmem, htext⟩)

/-- A spelling begins and ends with letters. -/
theorem isFunctionName_of_mem_spellings {text : List Char} (h : text ∈ spellings) : IsFunctionName text := by
  refine Option.isSome_iff_exists.1 (List.find?_isSome.2 ?_)
  rcases List.mem_append.1 h with h | h
  · obtain ⟨name, hname, rfl⟩ := List.mem_map.1 h
    obtain ⟨f, hf, rfl⟩ := List.mem_map.1 hname
    exact ⟨f, hf, by rw [String.ofList_append, String.ofList_toList, String.ofList_toList]; simp⟩
  · obtain ⟨f, hf, rfl⟩ := List.mem_map.1 h
    exact ⟨f, hf, by simp⟩

/-- A function name begins and ends with a letter, so it is a word where no letter is next to it. -/
theorem isWordChar_of_mem_spellings {text : List Char} (h : text ∈ spellings) :
    (text.head?.map isWordChar).getD false = true ∧
      (text.getLast?.map isWordChar).getD false = true := by
  have : ∀ text ∈ spellings, (text.head?.map isWordChar).getD false = true ∧
      (text.getLast?.map isWordChar).getD false = true := by decide +kernel
  exact this text h

/-- No spelling begins another one. -/
theorem eq_of_prefix_of_mem_spellings {text other : List Char} (h : text ∈ spellings)
    (h' : other ∈ spellings) (hp : other <+: text ∨ text <+: other) : other = text := by
  have : ∀ text ∈ spellings, ∀ other ∈ spellings,
      other.isPrefixOf text ∨ text.isPrefixOf other → other = text := by decide +kernel
  exact this text h other h' (by simpa using hp)

/-- A function name is the lexeme at the front where no letter follows, and that with its `Math.`. -/
theorem lexemeAt?_spelling {text rest : List Char} (h : text ∈ spellings) (hr : ∀ c ∈ rest.head?, isNameChar c = false) :
    lexemeAt? (text ++ rest) = some (.name text) := by
  have hrest : rest.takeWhile isNameChar = [] := @takeWhile_run _ isNameChar [] rest (by simp) hr
  simp only [spellings, Function.all, Function.name, List.map_cons, List.map_nil,
    List.cons_append, List.nil_append, List.mem_cons, List.not_mem_nil, or_false] at h
  rcases h with rfl | rfl | rfl | rfl | rfl | rfl | rfl | rfl | rfl | rfl <;>
    simp [lexemeAt?, numberAt?, nameAt?, isNameChar, hrest]

/-- A function name is the lexeme at the front where a word breaks. -/
theorem lexemeAt?_name {text rest : List Char} (h : IsFunctionName text) (hr : Breaks rest) :
    lexemeAt? (text ++ rest) = some (.name text) :=
  lexemeAt?_spelling h.mem_spellings hr.ends_name

/-- Nothing but `=`, `&` and `|` turns a symbol into a longer one. -/
theorem symbolAt?_append {cs rest : List Char} (hne : cs ≠ [])
    (hr : ∀ c ∈ rest.head?, c ≠ '=' ∧ c ≠ '&' ∧ c ≠ '|') : symbolAt? (cs ++ rest) = symbolAt? cs := by
  have hfits : ∀ s : Symbol, s.chars.isPrefixOf (cs ++ rest) = s.chars.isPrefixOf cs := by
    intro s
    rcases rest with _ | ⟨c, rest⟩
    · rw [List.append_nil]
    · obtain ⟨h₁, h₂, h₃⟩ := hr c rfl
      rcases cs with _ | ⟨a, _ | ⟨b, _ | ⟨d, cs⟩⟩⟩
      · exact absurd rfl hne
      all_goals cases s <;> simp [Symbol.chars, List.isPrefixOf, h₁.symm, h₂.symm, h₃.symm]
  simp only [symbolAt?, hfits]

theorem prefix_of_symbolAt? {cs : List Char} {s : Symbol} (h : symbolAt? cs = some s) :
    s.chars <+: cs := by
  unfold symbolAt? at h
  exact List.isPrefixOf_iff_prefix.1 (by simpa using List.find?_some h)

theorem prefix_of_numberAt? {cs text : List Char} (h : numberAt? cs = some text) : text <+: cs := by
  have hcut := List.takeWhile_append_dropWhile (p := Char.isDigit) (l := cs)
  rw [← hcut]
  unfold numberAt? at h
  dsimp only at h
  split at h
  · rename_i rest hwhole hrest
    split at h
    · simp at h
    · obtain rfl := Option.some.inj h
      rw [hwhole, hrest]
      exact List.cons_prefix_cons.2 ⟨rfl, List.takeWhile_prefix _⟩
  · simp at h
  · rename_i hrest _
    obtain rfl := Option.some.inj h
    rw [hrest]
    exact List.prefix_append_right_inj _ |>.2 (List.cons_prefix_cons.2 ⟨rfl, List.takeWhile_prefix _⟩)
  · obtain rfl := Option.some.inj h
    exact List.prefix_append _ _

/-- The number that is found is positional notation. -/
theorem positional_of_numberAt? {cs text : List Char} (h : numberAt? cs = some text) :
    Numeral.Positional text := by
  have hdigits (cs : List Char) : ∀ c ∈ cs.takeWhile Char.isDigit, c.isDigit :=
    List.all_eq_true.1 List.all_takeWhile
  unfold numberAt? at h
  dsimp only at h
  split at h
  · split at h
    · simp at h
    · rename_i hplaces
      obtain rfl := Option.some.inj h
      exact .point (.inr (by simpa using hplaces)) (List.forall_mem_nil _) (hdigits _)
  · simp at h
  · rename_i hwhole
    obtain rfl := Option.some.inj h
    exact .point (.inl hwhole) (hdigits _) (hdigits _)
  · rename_i hwhole _ _
    obtain rfl := Option.some.inj h
    exact .whole hwhole (hdigits _)

theorem prefix_of_nameAt? {cs text : List Char} (h : nameAt? cs = some text) : text <+: cs := by
  unfold nameAt? at h
  dsimp only at h
  split at h
  · rename_i hq
    obtain ⟨rest, rfl⟩ := List.isPrefixOf_iff_prefix.1 (Bool.and_eq_true_iff.1 hq).1
    obtain rfl := Option.some.inj h
    rw [List.drop_left]
    exact List.prefix_append_right_inj _ |>.2 (List.takeWhile_prefix _)
  · split at h
    · simp at h
    · obtain rfl := Option.some.inj h
      exact List.takeWhile_prefix _

/-- A lexeme is the beginning of the text. -/
theorem prefix_of_lexemeAt? {cs : List Char} {l : Lexeme} (h : lexemeAt? cs = some l) :
    l.chars <+: cs := by
  unfold lexemeAt? at h
  split at h
  · rename_i text hn
    obtain rfl := Option.some.inj h
    exact prefix_of_numberAt? hn
  · split at h
    · rename_i text hn
      obtain rfl := Option.some.inj h
      exact prefix_of_nameAt? hn
    · obtain ⟨s, hs, rfl⟩ := Option.map_eq_some_iff.1 h
      exact prefix_of_symbolAt? hs

/-- The number lexemes are positional notation, so that each has a value. -/
theorem positional_of_lexemeAt? {cs text : List Char} (h : lexemeAt? cs = some (.number text)) :
    Numeral.Positional text := by
  unfold lexemeAt? at h
  split at h
  · rename_i hn
    obtain rfl := Lexeme.number.inj (Option.some.inj h)
    exact positional_of_numberAt? hn
  · split at h
    · simp at h
    · simp at h

/-- A symbol is taken where neither a number nor a name is. -/
theorem symbolAt?_of_lexemeAt? {cs : List Char} {s : Symbol} (h : lexemeAt? cs = some (.symbol s)) :
    symbolAt? cs = some s := by
  unfold lexemeAt? at h
  split at h
  · simp at h
  · split at h
    · simp at h
    · simpa using h

/-- No number and no name begins with a character that is no part of one. -/
theorem lexemeAt?_of_isApart {c : Char} (h : isApart c) (rest : List Char) :
    lexemeAt? (c :: rest) = (symbolAt? (c :: rest)).map .symbol := by
  simp only [isApart, Bool.and_eq_true, Bool.not_eq_true', bne_iff_ne] at h
  obtain ⟨⟨⟨hdigit, hpoint⟩, hname⟩, -⟩ := h
  have hM : c ≠ 'M' := by
    rintro rfl
    simp [isNameChar] at hname
  simp [lexemeAt?, numberAt?, nameAt?, hdigit, hpoint, hname, hM.symm]

/-- A symbol is the lexeme at the front if it is the longest that fits: no number and no name begins with its
character. -/
theorem lexemeAt?_symbol {s : Symbol} {rest : List Char} (h : symbolAt? (s.chars ++ rest) = some s) :
    lexemeAt? (s.chars ++ rest) = some (.symbol s) := by
  obtain ⟨c, cs, hcs⟩ := List.exists_cons_of_ne_nil s.chars_ne_nil
  have hc : isApart c := isApart_of_isBreak (isBreak_of_head? (by rw [hcs]; rfl))
  rw [hcs] at h ⊢
  rw [List.cons_append] at h ⊢
  rw [lexemeAt?_of_isApart hc, h]
  rfl

/-- White space is no part of a number or a name. -/
theorem isBlank_eq_false {c : Char} (h : c.isDigit ∨ c = '.' ∨ isNameChar c) : isBlank c = false := by
  cases hblank : isBlank c with
  | false => rfl
  | true =>
    have := isApart_of_isBlank hblank
    simp only [isApart, Bool.and_eq_true, Bool.not_eq_true', bne_iff_ne] at this
    simp [this] at h

/-- A name is letters and points, and its last character is no point. -/
theorem isNameChar_of_nameAt? {cs text : List Char} (h : nameAt? cs = some text) :
    (∀ c ∈ text, c = '.' ∨ isNameChar c) ∧ ∀ c ∈ text.getLast?, isNameChar c := by
  have hletters (cs : List Char) : ∀ c ∈ cs.takeWhile isNameChar, isNameChar c :=
    List.all_eq_true.1 List.all_takeWhile
  unfold nameAt? at h
  dsimp only at h
  split at h
  · rename_i hbehind
    obtain ⟨-, hbehind⟩ := Bool.and_eq_true_iff.1 hbehind
    obtain rfl := Option.some.inj h
    generalize hrun : (cs.drop "Math.".toList.length).takeWhile isNameChar = behind at hbehind ⊢
    have hall : ∀ c ∈ behind, isNameChar c := hrun ▸ hletters _
    have hqualifier : "Math.".toList.all fun c => c = '.' ∨ isNameChar c := by decide +kernel
    refine ⟨fun c hc => ?_, fun c hc => ?_⟩
    · rcases List.mem_append.1 hc with hc | hc
      · exact of_decide_eq_true (List.all_eq_true.1 hqualifier c hc)
      · exact .inr (hall c hc)
    · have hne : behind ≠ [] := by simpa using hbehind
      rw [List.getLast?_append, List.getLast?_eq_some_getLast hne, Option.some_or] at hc
      obtain rfl := Option.some.inj hc
      exact hall _ (List.getLast_mem hne)
  · split at h
    · simp at h
    · obtain rfl := Option.some.inj h
      exact ⟨fun c hc => .inr (hletters _ c hc), fun c hc => hletters _ c (List.mem_of_getLast? hc)⟩

/-- A name is taken where no number is. -/
theorem nameAt?_of_lexemeAt? {cs text : List Char} (h : lexemeAt? cs = some (.name text)) :
    nameAt? cs = some text := by
  unfold lexemeAt? at h
  split at h
  · simp at h
  · split at h
    · rename_i hname
      rwa [Lexeme.name.inj (Option.some.inj h)] at hname
    · simp at h

/-- No lexeme has white space. -/
theorem isBlank_eq_false_of_mem_chars {cs : List Char} {l : Lexeme} (h : lexemeAt? cs = some l) :
    ∀ c ∈ l.chars, isBlank c = false := by
  intro c hc
  cases l with
  | number text => exact isBlank_eq_false (((positional_of_lexemeAt? h).mem hc).imp_right .inl)
  | name text => exact isBlank_eq_false (.inr ((isNameChar_of_nameAt? (nameAt?_of_lexemeAt? h)).1 c hc))
  | symbol s =>
    have hall : s.chars.all fun c => !isBlank c := by cases s <;> decide
    simpa using List.all_eq_true.1 hall c hc

/-- No lexeme begins with white space, so passing over white space first changes nothing. -/
theorem isBlank_of_lexemeAt? {c : Char} {rest : List Char} {l : Lexeme}
    (h : lexemeAt? (c :: rest) = some l) : isBlank c = false := by
  obtain ⟨d, ds, hds⟩ := List.exists_cons_of_ne_nil (lexemeAt?_ne_nil h)
  have hfront := prefix_of_lexemeAt? h
  rw [hds, List.cons_prefix_cons] at hfront
  obtain ⟨rfl, -⟩ := hfront
  exact isBlank_eq_false_of_mem_chars h d (by simp [hds])

/-! ### All lexemes -/

/-- White space is passed over and moves the position on by one. -/
theorem tokensFrom_blank {c : Char} (h : isBlank c) (position : Nat) (rest : List Char) :
    tokensFrom position (c :: rest) = tokensFrom (position + 1) rest := by
  rw [tokensFrom, if_pos h]

/-- A run of white space is passed over and moves the position on by its length. -/
theorem tokensFrom_blank_append {front : List Char} (h : ∀ c ∈ front, isBlank c) (position : Nat)
    (rest : List Char) :
    tokensFrom position (front ++ rest) = tokensFrom (position + front.length) rest := by
  induction front generalizing position with
  | nil => rfl
  | cons c front ih =>
    rw [List.cons_append, tokensFrom_blank (h c List.mem_cons_self),
      ih fun c hc => h c (List.mem_cons_of_mem _ hc), List.length_cons, Nat.add_assoc, Nat.add_comm 1]

/-- A lexeme at the front gives its token, with the position where it begins; the rest is cut from where it
ends. -/
theorem tokensFrom_lexeme {l : Lexeme} {rest : List Char} (h : lexemeAt? (l.chars ++ rest) = some l)
    (position : Nat) : tokensFrom position (l.chars ++ rest) =
      (tokensFrom (position + l.chars.length) rest).map (⟨l, position⟩ :: ·) := by
  cases hcs : l.chars ++ rest with
  | nil => exact absurd (List.append_eq_nil_iff.1 hcs).1 (lexemeAt?_ne_nil h)
  | cons c cs =>
    rw [hcs] at h
    rw [tokensFrom, if_neg (by simp [isBlank_of_lexemeAt? h])]
    split
    · rename_i hnone
      simp [hnone] at h
    · rename_i l' hl
      obtain rfl := Option.some.inj (hl.symm.trans h)
      have hdrop : (c :: cs).drop l'.chars.length = rest := by rw [← hcs, List.drop_left]
      rw [hdrop]

/-- A minus sign is a token of its own. -/
theorem tokensFrom_minus (position : Nat) (rest : List Char) : tokensFrom position ('-' :: rest) =
    (tokensFrom (position + 1) rest).map (⟨.symbol .minus, position⟩ :: ·) :=
  @tokensFrom_lexeme (.symbol .minus) rest rfl position

/-- The first step of reading a text that has tokens. -/
theorem tokensFrom_cons_eq_ok {position : Nat} {c : Char} {rest : List Char} {ts : List Token}
    (h : tokensFrom position (c :: rest) = .ok ts) :
    isBlank c ∧ tokensFrom (position + 1) rest = .ok ts ∨
      ∃ l after ts', lexemeAt? (c :: rest) = some l ∧ c :: rest = l.chars ++ after ∧
        tokensFrom (position + l.chars.length) after = .ok ts' ∧ ts = ⟨l, position⟩ :: ts' := by
  by_cases hblank : isBlank c
  · exact .inl ⟨hblank, by rwa [tokensFrom_blank hblank] at h⟩
  · right
    cases hl : lexemeAt? (c :: rest) with
    | none =>
      rw [tokensFrom, if_neg hblank] at h
      split at h
      · simp at h
      · rename_i hsome
        simp [hl] at hsome
    | some l =>
      obtain ⟨after, hafter⟩ := prefix_of_lexemeAt? hl
      rw [← hafter] at hl h
      rw [tokensFrom_lexeme hl] at h
      cases hrest : tokensFrom (position + l.chars.length) after with
      | error => simp [hrest, Except.map] at h
      | ok ts' =>
        rw [hrest] at h
        exact ⟨l, after, ts', rfl, hafter.symm, hrest, (Except.ok.inj h).symm⟩

/-- The tokens of a text that begins at a position, step by step. -/
inductive Lexes : Nat → List Char → List Token → Prop where
  | nil {position : Nat} : Lexes position [] []
  | blank {position : Nat} {c : Char} {rest : List Char} {ts : List Token} :
    Lexes (position + 1) rest ts → Lexes position (c :: rest) ts
  | lexeme {position : Nat} {l : Lexeme} {after : List Char} {ts : List Token} :
    lexemeAt? (l.chars ++ after) = some l → Lexes (position + l.chars.length) after ts →
      Lexes position (l.chars ++ after) (⟨l, position⟩ :: ts)

/-- **What the lexer gives is a way to cut the text**: white space and lexemes, each at its own position. -/
theorem lexes_of_tokensFrom {position : Nat} {cs : List Char} {ts : List Token}
    (h : tokensFrom position cs = .ok ts) : Lexes position cs ts := by
  induction hn : cs.length using Nat.strongRecOn generalizing cs position ts with
  | ind n ih =>
    subst hn
    cases cs with
    | nil =>
      rw [tokensFrom] at h
      obtain rfl := Except.ok.inj h
      exact .nil
    | cons c rest =>
      obtain ⟨-, hrest⟩ | ⟨l, after, ts', hl, hafter, hts', rfl⟩ := tokensFrom_cons_eq_ok h
      · exact .blank (ih _ (Nat.lt_succ_self _) hrest rfl)
      · have hshorter : after.length < (c :: rest).length := by
          rw [hafter]
          exact length_lt_append (lexemeAt?_ne_nil hl) after
        rw [hafter] at hl ⊢
        exact .lexeme hl (ih _ hshorter hts' rfl)

/-- A text is made of these terminals, wherever it begins. -/
def Spells (cs : List Char) (ts : List (Terminal (List Char))) : Prop :=
  ∀ position, ∃ tokens, tokensFrom position cs = .ok tokens ∧ tokens.map Token.terminal = ts

theorem spells_nil : Spells [] [] := fun position => ⟨[], by rw [tokensFrom], rfl⟩

/-- White space in front changes nothing in what a text spells. -/
theorem Spells.blank {c : Char} {rest : List Char} {ts : List (Terminal (List Char))} (hc : isBlank c)
    (h : Spells rest ts) : Spells (c :: rest) ts := by
  intro position
  rw [tokensFrom_blank hc]
  exact h (position + 1)

/-- A lexeme in front of a text adds its terminal. -/
theorem Spells.lexeme {l : Lexeme} {rest : List Char} {ts : List (Terminal (List Char))}
    (hl : lexemeAt? (l.chars ++ rest) = some l) (h : Spells rest ts) :
    Spells (l.chars ++ rest) (l.terminal :: ts) := by
  intro position
  obtain ⟨tokens, htokens, rfl⟩ := h (position + l.chars.length)
  rw [tokensFrom_lexeme hl, htokens]
  exact ⟨_, rfl, rfl⟩

/-! ### Admissible characters -/

theorem isFormulaChar_of_positional {cs : List Char} (h : Numeral.Positional cs) :
    ∀ c ∈ cs, isFormulaChar c := by
  intro c hc
  rcases h.mem hc with hdigit | rfl
  · simp [isFormulaChar, hdigit]
  · decide

theorem isFormulaChar_of_mem_chars (s : Symbol) : ∀ c ∈ s.chars, isFormulaChar c := by
  have hall : s.chars.all isFormulaChar := by cases s <;> decide
  exact List.all_eq_true.1 hall

/-- No function name begins with a character that is admissible by itself. -/
theorem nameLength?_eq_none {c : Char} (h : isFormulaChar c) (before : Option Char) (rest : List Char) :
    nameLength? before (c :: rest) = none := by
  have hne : c ≠ 'M' ∧ c ≠ 'm' ∧ c ≠ 'f' ∧ c ≠ 'c' ∧ c ≠ 'r' := by
    refine ⟨?_, ?_, ?_, ?_, ?_⟩ <;> (rintro rfl; revert h; decide)
  obtain ⟨h₁, h₂, h₃, h₄, h₅⟩ := hne
  simp [nameLength?, Function.all, Function.name, List.isPrefixOf, h₁.symm, h₂.symm, h₃.symm,
    h₄.symm, h₅.symm]

/-- A character that is admissible by itself is passed over: no function name begins with it. -/
theorem firstForeign?_cons {c : Char} (h : isFormulaChar c) (before : Option Char) (position : Nat)
    (rest : List Char) : firstForeign? before 0 position (c :: rest) =
      firstForeign? (some c) 0 (position + 1) rest := by
  rw [firstForeign?, nameLength?_eq_none h]
  simp only [h, ↓reduceIte]

/-- Characters that are admissible by themselves are passed over one by one. -/
theorem firstForeign?_append {run : List Char} (h : ∀ c ∈ run, isFormulaChar c) (before : Option Char)
    (position : Nat) (rest : List Char) : firstForeign? before 0 position (run ++ rest) =
      firstForeign? (run.getLast?.or before) 0 (position + run.length) rest := by
  induction run generalizing before position with
  | nil => simp
  | cons c run ih =>
    rw [List.cons_append, firstForeign?_cons (h c List.mem_cons_self),
      ih (fun c hc => h c (List.mem_cons_of_mem _ hc)), List.length_cons, Nat.add_assoc, Nat.add_comm 1]
    cases run <;> rfl

/-- The characters of a function name are passed over together. -/
theorem firstForeign?_skip (run : List Char) (before : Option Char) (position : Nat)
    (rest : List Char) : firstForeign? before run.length position (run ++ rest) =
      firstForeign? (run.getLast?.or before) 0 (position + run.length) rest := by
  induction run generalizing before position with
  | nil => simp
  | cons c run ih =>
    rw [List.cons_append, List.length_cons, firstForeign?, ih, Nat.add_assoc, Nat.add_comm 1]
    cases run <;> rfl

/-- Whether a text begins with a name that ends at the edge of a word. -/
def beginsWithName (cs name : List Char) : Bool :=
  name.isPrefixOf cs && isWordEdge name.getLast? (cs.drop name.length).head?

/-- A function name is a word of its own, between the character before it, if there is one, and the text behind it. -/
structure StandsAlone (before : Option Char) (name after : List Char) : Prop where
  spelled : name ∈ spellings
  begins : isWordEdge before name.head?
  ends : isWordEdge name.getLast? after.head?

theorem ne_nil_of_mem_spellings {name : List Char} (h : name ∈ spellings) : name ≠ [] := by
  rintro rfl
  exact absurd h (by decide +kernel)

/-- A name begins a text if it stands in front and a word ends where it ends. -/
theorem beginsWithName_iff {cs name : List Char} : beginsWithName cs name ↔
    ∃ after, cs = name ++ after ∧ isWordEdge name.getLast? after.head? := by
  rw [beginsWithName, Bool.and_eq_true_iff, List.isPrefixOf_iff_prefix]
  constructor
  · rintro ⟨⟨after, rfl⟩, hend⟩
    exact ⟨after, rfl, by rwa [List.drop_left] at hend⟩
  · rintro ⟨after, rfl, hend⟩
    exact ⟨List.prefix_append name after, by rwa [List.drop_left]⟩

/-- A function name is taken just if it is a word of its own. -/
theorem nameLength?_eq_some_iff {before : Option Char} {cs : List Char} {n : Nat} : nameLength? before cs = some n ↔
    ∃ name after, cs = name ++ after ∧ StandsAlone before name after ∧ name.length = n := by
  have hhead {name after : List Char} (hname : name ∈ spellings) : (name ++ after).head? = name.head? := by
    rw [List.head?_append, Option.or_of_isSome]
    simpa using ne_nil_of_mem_spellings hname
  have hlength : nameLength? before cs = some n ↔ isWordEdge before cs.head? ∧
      ∃ name, spellings.find? (beginsWithName cs) = some name ∧ name.length = n := by
    rw [nameLength?, Option.ite_none_right_eq_some]
    exact and_congr_right fun _ => Option.map_eq_some_iff
  rw [hlength]
  constructor
  · rintro ⟨hedge, name, hfind, rfl⟩
    have hmem := List.mem_of_find?_eq_some hfind
    have hfits : beginsWithName cs name = true := List.find?_some hfind
    obtain ⟨after, rfl, hend⟩ := beginsWithName_iff.1 hfits
    exact ⟨name, after, rfl, ⟨hmem, hhead hmem ▸ hedge, hend⟩, rfl⟩
  · rintro ⟨name, after, rfl, h, rfl⟩
    refine ⟨(hhead h.spelled).symm ▸ h.begins, name, ?_, rfl⟩
    have hfits : beginsWithName (name ++ after) name := beginsWithName_iff.2 ⟨after, rfl, h.ends⟩
    obtain ⟨other, hfind⟩ := Option.isSome_iff_exists.1 (List.find?_isSome.2 ⟨name, h.spelled, hfits⟩)
    have hother : beginsWithName (name ++ after) other = true := List.find?_some hfind
    obtain ⟨after', hsplit, -⟩ := beginsWithName_iff.1 hother
    have hfront : other <+: name ++ after := ⟨after', hsplit.symm⟩
    rw [hfind, eq_of_prefix_of_mem_spellings h.spelled (List.mem_of_find?_eq_some hfind)
      (List.prefix_or_prefix_of_prefix hfront (List.prefix_append name after))]

/-- A function name is a word of its own between a character and a text that are no part of a word. -/
theorem IsFunctionName.standsAlone {before : Option Char} {text rest : List Char} (h : IsFunctionName text)
    (hr : Breaks rest) (hb : (before.map isWordChar).getD false = false) : StandsAlone before text rest := by
  obtain ⟨hfirst, hlast⟩ := isWordChar_of_mem_spellings h.mem_spellings
  exact ⟨h.mem_spellings, by rw [isWordEdge, hb, hfirst]; rfl, by rw [isWordEdge, hlast, hr.ends_word]; rfl⟩

/-- **A function name that is a word of its own is passed over whole.** The one that is found is this one, since
of two names at the same place only one is followed by the end of a word. -/
theorem StandsAlone.firstForeign? {before : Option Char} {name after : List Char} (h : StandsAlone before name after)
    (position : Nat) : firstForeign? before 0 position (name ++ after) =
      firstForeign? name.getLast? 0 (position + name.length) after := by
  have hlength := nameLength?_eq_some_iff.2 ⟨name, after, rfl, h, rfl⟩
  obtain ⟨c, cs, rfl⟩ := List.exists_cons_of_ne_nil (ne_nil_of_mem_spellings h.spelled)
  rw [List.cons_append] at hlength ⊢
  rw [Formula.firstForeign?, hlength]
  simp only [List.length_cons, Nat.add_sub_cancel]
  rw [firstForeign?_skip, Nat.add_assoc, Nat.add_comm 1]
  cases cs <;> rfl

/-- A function name is passed over whole between characters that break words. -/
theorem firstForeign?_name {text rest : List Char} (h : IsFunctionName text) (hr : Breaks rest)
    {before : Option Char} (hb : (before.map isWordChar).getD false = false) (position : Nat) :
    firstForeign? before 0 position (text ++ rest) =
      firstForeign? text.getLast? 0 (position + text.length) rest :=
  (h.standsAlone hr hb).firstForeign? position

end Formula
end Tariff
