/-
# The check of characters and the lexer

A text is gone over twice, with different rules for where a piece of it ends.

| at | the check passes over | the lexer takes |
| --- | --- | --- |
| white space | the character | the character, for no token |
| a digit, or a point before one | the character | a number |
| a function name that is a word of its own | the name | the name |
| `.`, `=`, `&` or `\|` that begins no lexeme | the character | nothing, and fails |
| any other character of `symbolChars` | the character | a symbol |
| anything else | nothing, and fails | |

The check fails at the first character that is not admissible (`check_exact`), where admissible is said of a place in the
text and not of how the check gets there (`AdmissibleAt`): function names that are words of their own do not overlap
(`NoneCrosses`), apart from the one in a name with `Math.`, which ends with it. A text that passes is cut up by the lexer
at the same places, so that its letters are those of function names (`lexed_of_check`).
-/

import Tariff.Proofs.Formula.Lexing
import Tariff.Proofs.Formula.Prefixes

namespace Tariff
namespace Formula

/-! ### What the check passes over -/

/-- What the check does at a character: it passes over a function name that is a word of its own, or else over a character
that is admissible by itself, or else it fails. -/
theorem firstForeign?_cases (before : Option Char) (position : Nat) (c : Char) (rest : List Char) :
    (∃ name after, c :: rest = name ++ after ∧ StandsAlone before name after ∧
      firstForeign? before 0 position (c :: rest) = firstForeign? name.getLast? 0 (position + name.length) after) ∨
    (isFormulaChar c ∧
      firstForeign? before 0 position (c :: rest) = firstForeign? (some c) 0 (position + 1) rest) ∨
    (isFormulaChar c = false ∧ (∀ name after, c :: rest = name ++ after → ¬ StandsAlone before name after) ∧
      firstForeign? before 0 position (c :: rest) = some (c, position)) := by
  cases hname : nameLength? before (c :: rest) with
  | some n =>
    obtain ⟨name, after, hsplit, halone, -⟩ := nameLength?_eq_some_iff.1 hname
    exact .inl ⟨name, after, hsplit, halone, by rw [hsplit, halone.firstForeign?]⟩
  | none =>
    right
    cases hc : isFormulaChar c with
    | true => exact .inl ⟨rfl, firstForeign?_cons hc before position rest⟩
    | false =>
      refine .inr ⟨rfl, fun name after hsplit halone => ?_, ?_⟩
      · cases hname.symm.trans (nameLength?_eq_some_iff.2 ⟨name, after, hsplit, halone, rfl⟩)
      · rw [firstForeign?, hname]
        simp [hc]

/-- A character is admissible at its place: it is admissible by itself, or belongs to a function name, perhaps with
`Math.`, that is a word of its own. -/
def AdmissibleAt (cs : List Char) (p : Nat) : Prop :=
  (∃ c, cs[p]? = some c ∧ isFormulaChar c) ∨
    ∃ front name back, cs = front ++ (name ++ back) ∧ StandsAlone front.getLast? name back ∧
      front.length ≤ p ∧ p < front.length + name.length

/-- The first character of a text that is not admissible, and its place. -/
structure FirstForeign (cs : List Char) (c : Char) (p : Nat) : Prop where
  there : cs[p]? = some c
  foreign : ¬ AdmissibleAt cs p
  first : ∀ q < p, AdmissibleAt cs q

/-- No function name that is a word of its own begins in the front part of a text and goes on behind it. -/
def NoneCrosses (front cs : List Char) : Prop :=
  ∀ front' name back, front ++ cs = front' ++ (name ++ back) → StandsAlone front'.getLast? name back →
    front'.length < front.length → front'.length + name.length ≤ front.length

/-- A function name begins with a letter, which is admissible as part of such a name only. -/
theorem isFormulaChar_eq_false_of_mem_spellings {c : Char} {cs : List Char} (h : c :: cs ∈ spellings) :
    isFormulaChar c = false := by
  have : ∀ name ∈ spellings, name.head?.all fun c => !isFormulaChar c := by decide +kernel
  simpa using this _ h

/-- A function name that begins with the end of another one goes on with a character of a word. -/
theorem isWordChar_of_overlap {a b more : List Char} {d : Char} (h : a ++ b ∈ spellings) (hb : b ≠ [])
    (h' : b ++ d :: more ∈ spellings) : isWordChar d := by
  have hall : ∀ name ∈ spellings, ∀ k < name.length, ∀ other ∈ spellings, (name.drop k).isPrefixOf other →
      (other.drop (name.drop k).length).head?.all isWordChar := by decide +kernel
  have hk : a.length < (a ++ b).length := by
    have := List.length_pos_iff.2 hb
    rw [List.length_append]
    omega
  have hnext := hall _ h a.length hk _ h'
  rw [List.drop_left, List.drop_left] at hnext
  exact hnext (List.isPrefixOf_iff_prefix.2 (List.prefix_append ..))

/-- Of two function names that are words of their own, one that begins within the other does not go on behind it. -/
theorem StandsAlone.length_le {before before' : Option Char} {a b after other back : List Char}
    (h : StandsAlone before (a ++ b) after) (hb : b ≠ []) (h' : StandsAlone before' other back)
    (heq : b ++ after = other ++ back) : other.length ≤ b.length := by
  rcases List.append_eq_append_iff.1 heq with ⟨more, rfl, hafter⟩ | ⟨more, rfl, -⟩
  · cases more with
    | nil => simp
    | cons d more =>
      have hword : isWordChar d := isWordChar_of_overlap h.spelled hb h'.spelled
      have hend := h.ends
      rw [hafter, isWordEdge, (isWordChar_of_mem_spellings h.spelled).2] at hend
      simp [hword] at hend
  · simp

/-- Going on by a character that is admissible by itself crosses no function name: such a character does not
begin one. -/
theorem NoneCrosses.char {front rest : List Char} {c : Char} (h : NoneCrosses front (c :: rest))
    (hc : isFormulaChar c) : NoneCrosses (front ++ [c]) rest := by
  intro front' name back heq halone hlt
  rw [List.append_assoc, List.singleton_append] at heq
  rw [List.length_append, List.length_singleton] at hlt ⊢
  rcases Nat.lt_succ_iff_lt_or_eq.1 hlt with hlt | hlen
  · exact Nat.le_succ_of_le (h front' name back heq halone hlt)
  · obtain ⟨-, hsplit⟩ := List.append_inj heq hlen.symm
    obtain ⟨d, ds, rfl⟩ := List.exists_cons_of_ne_nil (ne_nil_of_mem_spellings halone.spelled)
    have hforeign := isFormulaChar_eq_false_of_mem_spellings halone.spelled
    rw [← (List.cons.inj hsplit).1, hc] at hforeign
    cases hforeign

/-- Going on by a whole function name crosses no other: the only name that begins inside is the one behind
`Math.`, and it ends where the whole name ends. -/
theorem NoneCrosses.name {front name after : List Char} (h : NoneCrosses front (name ++ after))
    (halone : StandsAlone front.getLast? name after) : NoneCrosses (front ++ name) after := by
  intro front' other back heq halone' hlt
  rw [List.append_assoc] at heq
  rw [List.length_append] at hlt ⊢
  by_cases hearlier : front'.length < front.length
  · exact Nat.le_trans (h front' other back heq halone' hearlier) (Nat.le_add_right ..)
  · -- Then the other name begins within this one, behind a part `a` of it.
    obtain ⟨a, rfl, hsplit⟩ : ∃ a, front' = front ++ a ∧ name ++ after = a ++ (other ++ back) := by
      rcases List.append_eq_append_iff.1 heq with ⟨a, hfront', hsplit⟩ | ⟨a, rfl, hsplit⟩
      · exact ⟨a, hfront', hsplit⟩
      · rw [List.length_append] at hearlier
        obtain rfl : a = [] := List.length_eq_zero_iff.1 (by omega)
        exact ⟨[], by simp, by simpa using hsplit.symm⟩
    rw [List.length_append] at hlt ⊢
    rcases List.append_eq_append_iff.1 hsplit with ⟨more, rfl, -⟩ | ⟨b, rfl, hrest⟩
    · rw [List.length_append] at hlt
      omega
    · have hb : b ≠ [] := by
        rintro rfl
        simp at hlt
      have := halone.length_le hb halone' hrest.symm
      rw [List.length_append]
      omega

/-- The check of what is behind a part of a text in which all is admissible gives the first character that is not. -/
theorem check_exact {front cs : List Char} (hpast : ∀ q < front.length, AdmissibleAt (front ++ cs) q)
    (hcross : NoneCrosses front cs) :
    (firstForeign? front.getLast? 0 front.length cs = none ∧
      ∀ q < (front ++ cs).length, AdmissibleAt (front ++ cs) q) ∨
    ∃ c p, firstForeign? front.getLast? 0 front.length cs = some (c, p) ∧ FirstForeign (front ++ cs) c p := by
  induction hn : cs.length using Nat.strongRecOn generalizing front cs with
  | ind n ih =>
    subst hn
    cases cs with
    | nil => exact .inl ⟨rfl, by simpa using hpast⟩
    | cons c rest =>
      obtain ⟨name, after, hsplit, halone, hstep⟩ | ⟨hc, hstep⟩ | ⟨hc, hnone, hstep⟩ :=
        firstForeign?_cases front.getLast? front.length c rest
      · -- A function name is passed over: all its characters are admissible, and the next place is behind it.
        have hne := ne_nil_of_mem_spellings halone.spelled
        have hlast : (front ++ name).getLast? = name.getLast? := by
          rw [List.getLast?_append, Option.or_of_isSome (by simpa using hne)]
        have hshorter := length_lt_append hne after
        rw [hstep, hsplit, ← hlast, ← List.length_append, ← List.append_assoc]
        rw [hsplit] at hpast hcross ih
        refine ih _ hshorter (fun q hq => ?_) (hcross.name halone) rfl
        rw [List.append_assoc]
        by_cases hq' : q < front.length
        · exact hpast q hq'
        · rw [List.length_append] at hq
          exact .inr ⟨front, name, after, rfl, halone, by omega, hq⟩
      · -- A character that is admissible by itself is passed over.
        have hlast : (front ++ [c]).getLast? = some c := List.getLast?_concat
        have hlength : (front ++ [c]).length = front.length + 1 := List.length_append
        have hsplit : front ++ c :: rest = front ++ [c] ++ rest := List.append_cons ..
        rw [hstep, hsplit, ← hlast, ← hlength]
        refine ih _ (Nat.lt_succ_self _) (fun q hq => ?_) (hcross.char hc) rfl
        rw [← hsplit]
        rcases Nat.lt_succ_iff_lt_or_eq.1 (hlength ▸ hq) with hq | rfl
        · exact hpast q hq
        · exact .inl ⟨c, by simp, hc⟩
      · refine .inr ⟨c, front.length, hstep, by simp, ?_, hpast⟩
        -- The check stops here. The character is in no function name: none begins here, and none from before goes on.
        rintro (⟨d, hd, hadmissible⟩ | ⟨front', name, back, heq, halone, hle, hlt⟩)
        · obtain rfl : c = d := by simpa using hd
          rw [hc] at hadmissible
          cases hadmissible
        · rcases Nat.lt_or_eq_of_le hle with hearlier | hlen
          · exact absurd (hcross front' name back heq halone hearlier) (Nat.not_le.2 hlt)
          · obtain ⟨rfl, hsplit⟩ := List.append_inj heq hlen.symm
            exact hnone name back hsplit halone

/-! ### What the lexer takes -/

/-- From a position on, a text is white space and tokens, each at its own position. -/
inductive Placed : Nat → List Token → List Char → Prop where
  | nil {position : Nat} : Placed position [] []
  | blank {position : Nat} {c : Char} {ts : List Token} {rest : List Char} :
    isBlank c → Placed (position + 1) ts rest → Placed position ts (c :: rest)
  | token {position : Nat} {l : Lexeme} {ts : List Token} {after : List Char} :
    Placed (position + l.chars.length) ts after → Placed position (⟨l, position⟩ :: ts) (l.chars ++ after)

/-- The admissible characters that may begin no lexeme. -/
def looseChars : List Char := ['.', '=', '&', '|']

/-- The lexer gives the tokens of a text, with function names for names, or fails at a loose character. -/
def LexedWell (position : Nat) (cs : List Char) : Except (Char × Nat) (List Token) → Prop
  | .ok ts => Placed position ts cs ∧ ∀ t ∈ ts, ∀ text, t.lexeme = .name text → text ∈ spellings
  | .error (c, p) => ∃ k, p = position + k ∧ cs[k]? = some c ∧ c ∈ looseChars

section Lexer

variable {position : Nat} {x : Except (Char × Nat) (List Token)}

/-- White space is passed over, and does no harm to what comes behind. -/
theorem LexedWell.blank {c : Char} {rest : List Char} (hc : isBlank c) (h : LexedWell (position + 1) rest x) :
    LexedWell position (c :: rest) x := by
  rcases x with ⟨d, p⟩ | ts
  · obtain ⟨k, rfl, hd, hloose⟩ := h
    exact ⟨k + 1, by omega, by simpa using hd, hloose⟩
  · exact ⟨.blank hc h.1, h.2⟩

/-- A lexeme in front keeps the tokens behind it well cut, if it is a function name in case it is a name. -/
theorem LexedWell.lexeme {l : Lexeme} {after : List Char} (hl : ∀ text, l = .name text → text ∈ spellings)
    (h : LexedWell (position + l.chars.length) after x) :
    LexedWell position (l.chars ++ after) (x.map (⟨l, position⟩ :: ·)) := by
  rcases x with ⟨d, p⟩ | ts
  · obtain ⟨k, rfl, hd, hloose⟩ := h
    refine ⟨l.chars.length + k, by omega, ?_, hloose⟩
    rwa [List.getElem?_append_right (Nat.le_add_right ..), Nat.add_sub_cancel_left]
  · exact ⟨.token h.1, List.forall_mem_cons.2 ⟨hl, h.2⟩⟩

end Lexer

theorem isWordChar_of_isNameChar {c : Char} (h : isNameChar c) : isWordChar c := by
  have hall : ∀ n < 128, isNameChar (Char.ofNat n) → isWordChar (Char.ofNat n) := by decide +kernel
  have hlt : c.toNat < 128 := by
    rcases Bool.or_eq_true_iff.1 h with halpha | hunderscore
    · rcases Bool.or_eq_true_iff.1 halpha with hupper | hlower
      · exact Nat.lt_of_le_of_lt (UInt32.le_iff_toNat_le.1 (of_decide_eq_true hupper).2) (by decide)
      · have hz := of_decide_eq_true (Bool.and_eq_true_iff.1 hlower).2
        exact Nat.lt_of_le_of_lt (UInt32.le_iff_toNat_le.1 hz) (by decide)
    · obtain rfl := of_decide_eq_true hunderscore
      decide
  have := hall c.toNat hlt
  rw [Char.ofNat_toNat] at this
  exact this h

/-- No letter goes on behind a function name that is a word of its own. -/
theorem StandsAlone.ends_name {before : Option Char} {name after : List Char} (h : StandsAlone before name after) :
    ∀ c ∈ after.head?, isNameChar c = false := by
  intro c hc
  have hend := h.ends
  rw [hc, isWordEdge, (isWordChar_of_mem_spellings h.spelled).2] at hend
  rw [← Bool.not_eq_true]
  intro hname
  simp [isWordChar_of_isNameChar hname] at hend

/-- A digit begins a number. -/
theorem numberAt?_ne_none {c : Char} (h : c.isDigit) (rest : List Char) : numberAt? (c :: rest) ≠ none := by
  unfold numberAt?
  rw [List.takeWhile_cons_of_pos h]
  dsimp only
  split
  · simp_all
  · simp_all
  · simp
  · simp

/-- What is admissible by itself is no letter, so letters come into a text through function names only. -/
theorem isNameChar_eq_false_of_isFormulaChar {c : Char} (h : isFormulaChar c) : isNameChar c = false := by
  have hsymbol : symbolChars.all fun c => !isNameChar c := by decide
  simp only [isFormulaChar, Bool.or_eq_true, List.contains_iff_mem] at h
  rcases h with (h | h) | h
  · exact isNameChar_eq_false_of_isDigit h
  · simpa using List.all_eq_true.1 hsymbol c h
  · have := isApart_of_isBlank h
    simp only [isApart, Bool.and_eq_true, Bool.not_eq_true'] at this
    exact this.1.2

/-- A name begins with a letter, which is not admissible by itself. -/
theorem nameAt?_eq_none {c : Char} (h : isFormulaChar c) (rest : List Char) : nameAt? (c :: rest) = none := by
  have hletter := isNameChar_eq_false_of_isFormulaChar h
  have hM : 'M' ≠ c := by
    rintro rfl
    cases hletter
  simp [nameAt?, hletter, hM]

/-- Of the characters that are admissible by themselves, only white space and the loose ones begin no lexeme. -/
theorem mem_looseChars_of_lexemeAt? {c : Char} {rest : List Char} (hc : isFormulaChar c) (hblank : isBlank c = false)
    (h : lexemeAt? (c :: rest) = none) : c ∈ looseChars := by
  have halone : symbolChars.all fun c => c ∈ looseChars ∨ Symbol.all.any fun s => s.chars = [c] := by decide
  rw [lexemeAt?] at h
  split at h
  · cases h
  rename_i hnumber
  rw [nameAt?_eq_none hc, Option.map_eq_none_iff, symbolAt?, List.find?_eq_none] at h
  simp only [isFormulaChar, hblank, Bool.or_false, Bool.or_eq_true, List.contains_iff_mem] at hc
  rcases hc with hdigit | hsymbol
  · exact absurd hnumber (numberAt?_ne_none hdigit rest)
  · rcases of_decide_eq_true (List.all_eq_true.1 halone c hsymbol) with hloose | hany
    · exact hloose
    · obtain ⟨s, hs, hchars⟩ := List.any_eq_true.1 hany
      exact absurd (by simp [of_decide_eq_true hchars]) (h s hs)

/-- A lexeme that begins with a character that is admissible by itself is a number or a symbol. -/
theorem isFormulaChar_of_lexemeAt? {c : Char} {rest : List Char} {l : Lexeme} (hc : isFormulaChar c)
    (h : lexemeAt? (c :: rest) = some l) : (∀ text, l ≠ .name text) ∧ ∀ d ∈ l.chars, isFormulaChar d := by
  cases l with
  | number text => exact ⟨nofun, isFormulaChar_of_positional (positional_of_lexemeAt? h)⟩
  | name text => cases (nameAt?_of_lexemeAt? h).symm.trans (nameAt?_eq_none hc rest)
  | symbol s => exact ⟨nofun, isFormulaChar_of_mem_chars s⟩

/-- The lexer fails at a character that is no white space and begins no lexeme. -/
theorem tokensFrom_of_lexemeAt?_eq_none {c : Char} {rest : List Char} (hblank : isBlank c = false)
    (h : lexemeAt? (c :: rest) = none) (position : Nat) : tokensFrom position (c :: rest) = .error (c, position) := by
  rw [tokensFrom, if_neg (by simp [hblank])]
  split
  · rfl
  · rename_i hl
    cases h.symm.trans hl

/-- **A text that passes the check is cut into tokens, with function names for names, or at a loose character.**
The induction is on the text that is left, at places which no function name crosses. -/
theorem lexed_of_check {before : Option Char} {position : Nat} {cs : List Char}
    (h : firstForeign? before 0 position cs = none) : LexedWell position cs (tokensFrom position cs) := by
  induction hn : cs.length using Nat.strongRecOn generalizing before position cs with
  | ind n ih =>
    subst hn
    cases cs with
    | nil =>
      rw [tokensFrom]
      exact ⟨.nil, List.forall_mem_nil _⟩
    | cons c rest =>
      obtain ⟨name, after, hsplit, halone, hstep⟩ | ⟨hc, hstep⟩ | ⟨-, -, hstep⟩ :=
        firstForeign?_cases before position c rest
      · -- The check passes over a function name, and the lexer takes it whole.
        have hshorter := length_lt_append (ne_nil_of_mem_spellings halone.spelled) after
        have hl : lexemeAt? ((Lexeme.name name).chars ++ after) = some (.name name) :=
          lexemeAt?_spelling halone.spelled halone.ends_name
        rw [hsplit] at ih ⊢
        rw [hstep] at h
        refine tokensFrom_lexeme hl position ▸ LexedWell.lexeme ?_ (ih _ hshorter h rfl)
        rintro text ⟨⟩
        exact halone.spelled
      · -- The character is admissible by itself: white space, a loose one, or the first of a number or symbol.
        cases hblank : isBlank c with
        | true =>
          rw [tokensFrom_blank hblank]
          rw [hstep] at h
          exact (ih _ (Nat.lt_succ_self _) h rfl).blank hblank
        | false =>
          cases hl : lexemeAt? (c :: rest) with
          | none =>
            rw [tokensFrom_of_lexemeAt?_eq_none hblank hl]
            exact ⟨0, rfl, rfl, mem_looseChars_of_lexemeAt? hc hblank hl⟩
          | some l =>
            obtain ⟨hname, hchars⟩ := isFormulaChar_of_lexemeAt? hc hl
            obtain ⟨after, hafter⟩ := prefix_of_lexemeAt? hl
            have hshorter := length_lt_append (lexemeAt?_ne_nil hl) after
            rw [← hafter] at h hl ih ⊢
            rw [firstForeign?_append hchars] at h
            rw [tokensFrom_lexeme hl]
            exact LexedWell.lexeme (fun text htext => absurd htext (hname text)) (ih _ hshorter h rfl)
      · cases hstep.symm.trans h

/-! ### Both together -/

/-- Where all names are those of functions, none is reported as unknown. -/
theorem ofTokens_ne_unknownName {ts : List Token}
    (h : ∀ t ∈ ts, ∀ text, t.lexeme = .name text → IsFunctionName text) (t : Token) :
    ofTokens ts ≠ .error (.unknownName t) := by
  intro hread
  rw [ofTokens] at hread
  split at hread
  · cases hread
  split at hread
  · cases hread
  split at hread
  · rename_i fault hfault
    obtain rfl := Except.error.inj hread
    have hprompt : Prompt .conditional (conditional (inside nestingLimit)) :=
      prompt_conditional (exactInside nestingLimit) (promptInside nestingLimit)
    obtain ⟨⟨used, rest, rfl, hspot, -⟩, text, htext, hunknown⟩ := hprompt.justified hfault
    exact hunknown (h t (List.mem_append_right _ (List.mem_of_head? hspot)) text (terminal_eq_name.1 htext))
  · cases hread
  · cases hread

/-- No name is reported as unknown: the letters of a text that passes the check are those of function names. -/
theorem parse_ne_unknownName (source : String) (t : Token) : parse source ≠ .error (.unknownName t) := by
  intro h
  rcases bind_eq_error_iff.1 h with htokens | ⟨ts, htokens, hread⟩
  · unfold tokens at htokens
    split at htokens
    · cases htokens
    · split at htokens <;> cases htokens
  · obtain ⟨hcheck, hlex⟩ := tokens_eq_ok_iff.1 htokens
    have hwell := lexed_of_check hcheck
    rw [hlex] at hwell
    exact ofTokens_ne_unknownName
      (fun t ht text htext => isFunctionName_of_mem_spellings (hwell.2 t ht text htext)) t hread

/-- **The check of characters and the lexer agree.** A text is refused at its first character that is not admissible; or
all its characters are admissible, and it is white space and tokens, each at its position, whose names are function
names; or they are, and the lexer fails at a loose character. No name is ever reported as unknown. -/
theorem check_agrees_with_lexer (source : String) :
    ((∃ c p, firstForeign? none 0 0 source.toList = some (c, p) ∧ FirstForeign source.toList c p) ∨
      firstForeign? none 0 0 source.toList = none ∧ (∀ p < source.toList.length, AdmissibleAt source.toList p) ∧
        ((∃ ts, tokensFrom 0 source.toList = .ok ts ∧ Placed 0 ts source.toList ∧
            ∀ t ∈ ts, ∀ text, t.lexeme = .name text → text ∈ spellings) ∨
          ∃ c p, tokensFrom 0 source.toList = .error (c, p) ∧ source.toList[p]? = some c ∧ c ∈ looseChars)) ∧
      ∀ t, parse source ≠ .error (.unknownName t) := by
  refine ⟨?_, parse_ne_unknownName source⟩
  have hnothing : NoneCrosses [] source.toList := fun _ _ _ _ _ hlt => absurd hlt (Nat.not_lt_zero _)
  have hpast : ∀ q < ([] : List Char).length, AdmissibleAt ([] ++ source.toList) q := nofun
  rcases check_exact hpast hnothing with ⟨hcheck, hall⟩ | ⟨c, p, hcheck, hfirst⟩
  · refine .inr ⟨hcheck, hall, ?_⟩
    have hwell : LexedWell 0 source.toList (tokensFrom 0 source.toList) := lexed_of_check hcheck
    cases hlex : tokensFrom 0 source.toList with
    | ok ts =>
      rw [hlex] at hwell
      exact .inl ⟨ts, rfl, hwell⟩
    | error fault =>
      obtain ⟨c, p⟩ := fault
      rw [hlex] at hwell
      obtain ⟨k, rfl, hc, hloose⟩ := hwell
      exact .inr ⟨c, 0 + k, rfl, by rwa [Nat.zero_add], hloose⟩
  · exact .inl ⟨c, p, hcheck, hfirst⟩

/-- Behind a digit `Math.max` is no word of its own, though `max` still is. -/
example : firstForeign? none 0 0 "1Math.max".toList = some ('M', 1) ∧
    firstForeign? none 0 0 "1.Math.max".toList = none := by decide +kernel

end Formula
end Tariff
