/-
# The lines of a catalog file

A line of a text ends with `\n`, `\r` or both. A record of a CSV file can take more than one line, since a quoted
field can hold line breaks, and a blank line takes no record. What has been read of a file accounts for its lines
(`Csv.Reading.lines_foldl`):

| lines | |
| --- | --- |
| one for each record, and for each blank line that may yet come back as one | `records`, `skipped` |
| one for each line break in a field | `Csv.breaks` |
| blank lines that have been passed over for good | `Csv.Reading.blankLines` |

So a record begins behind as many lines as there are records before it, line breaks in their fields, and blank lines
that have been passed over (`Csv.lineEnds_opening?`). Every record that is not blank has a place in the text where it
begins (`Csv.Reading.exists_opening?`).
-/

import Tariff.Catalog.Csv

namespace Tariff
namespace Csv

/-! ### Line ends -/

/-- How many lines a character ends: a `\n` behind a `\r` ends none. -/
def lineEnd (returned : Bool) (c : Char) : Nat := if c = '\r' || c = '\n' && !returned then 1 else 0

/-- How many lines end in a text; `returned` says whether it stands behind a `\r`. -/
def lineEnds : Bool → List Char → Nat
  | _, [] => 0
  | returned, c :: cs => lineEnd returned c + lineEnds (c = '\r') cs

/-- The line on which a text goes on behind its front. -/
def lineBehind (front : List Char) : Nat := lineEnds false front + 1

/-- How many line breaks fields hold. -/
def breaks : List String → Nat
  | [] => 0
  | field :: fields => lineEnds false field.toList + breaks fields

/-- Other characters end no line. -/
theorem lineEnd_of_not_isLineEnd {c : Char} (h : Reading.isLineEnd c = false) (returned : Bool) :
    lineEnd returned c = 0 := by
  simp only [Reading.isLineEnd, Bool.or_eq_false_iff, decide_eq_false_iff_not] at h
  simp [lineEnd, h.1, h.2]

/-- A line end that does not stand behind a `\r` ends one line. -/
theorem lineEnd_of_isLineEnd {c : Char} (h : Reading.isLineEnd c) : lineEnd false c = 1 := by
  simp only [Reading.isLineEnd, Bool.or_eq_true, decide_eq_true_eq] at h
  rcases h with rfl | rfl <;> rfl

/-- One more character ends one more line or none, which depends on the character before it only. -/
theorem lineEnds_concat (returned : Bool) (cs : List Char) (c : Char) :
    lineEnds returned (cs ++ [c]) =
      lineEnds returned cs + lineEnd ((cs.getLast?.map fun d => decide (d = '\r')).getD returned) c := by
  induction cs generalizing returned with
  | nil => simp [lineEnds]
  | cons d cs ih =>
    rw [List.cons_append, lineEnds, lineEnds, ih, List.getLast?_cons, Nat.add_assoc]
    cases cs.getLast? with
    | none => rfl
    | some e => rfl

/-- A field is read with its last character first. -/
theorem lineEnds_reverse_cons (c : Char) (field : List Char) :
    lineEnds false (c :: field).reverse = lineEnds false field.reverse + lineEnd (field.head? = some '\r') c := by
  rw [List.reverse_cons, lineEnds_concat, List.getLast?_reverse]
  cases field.head? with
  | none => rfl
  | some d => simp

theorem breaks_append (fields others : List String) : breaks (fields ++ others) = breaks fields + breaks others := by
  induction fields with
  | nil => simp [breaks]
  | cons field fields ih => rw [List.cons_append, breaks, breaks, ih, Nat.add_assoc]

/-- Where a field stands does not matter to the number of line breaks. -/
theorem breaks_perm {fields others : List String} (h : fields.Perm others) : breaks fields = breaks others := by
  induction h with
  | nil => rfl
  | cons field _ ih => rw [breaks, breaks, ih]
  | swap field other fields =>
    rw [breaks, breaks, breaks, breaks]
    omega
  | trans _ _ ih ih' => rw [ih, ih']

/-! ### Blank text -/

/-- A text of blanks and tabs. -/
def IsGap (cs : List Char) : Prop := ∀ c ∈ cs, c = ' ' ∨ c = '\t'

/-- All fields of a record are blanks and tabs. -/
def IsBlankRecord (record : List String) : Prop := ∀ field ∈ record, IsGap field.toList

theorem lineEnds_of_isGap {cs : List Char} (h : IsGap cs) (returned : Bool) : lineEnds returned cs = 0 := by
  induction cs generalizing returned with
  | nil => rfl
  | cons c cs ih =>
    obtain ⟨hc, hcs⟩ := List.forall_mem_cons.1 h
    have hnone : Reading.isLineEnd c = false := by rcases hc with rfl | rfl <;> rfl
    rw [lineEnds, lineEnd_of_not_isLineEnd hnone, ih hcs]

theorem breaks_of_isBlankRecord {record : List String} (h : IsBlankRecord record) : breaks record = 0 := by
  induction record with
  | nil => rfl
  | cons field record ih =>
    obtain ⟨hfield, hrecord⟩ := List.forall_mem_cons.1 h
    rw [breaks, lineEnds_of_isGap hfield, ih hrecord]

/-! ### What has been read -/

namespace Reading

variable {r : Reading} {returned : Bool}

/-- Whether the reader is in a record: behind the first character of its line that is no blank. -/
def isInside (r : Reading) : Bool :=
  match r.place with
  | .lineStart | .blankLine => false
  | _ => true

/-- The line breaks in what has been read of the current record. -/
def openBreaks (r : Reading) : Nat := breaks r.record + lineEnds false r.field.reverse

/-- The lines that what has been read accounts for. -/
def lines (r : Reading) : Nat :=
  r.records.length + r.skipped.length + breaks r.records.flatten + r.openBreaks

/-- How many blank lines are passed over for good with the next character: those that have been skipped, unless they
stay skipped or are brought back, and the line that ends here. -/
def passedOver (r : Reading) (returned : Bool) (c : Char) : Nat :=
  if r.isInside then 0
  else if c = '\n' then r.skipped.length + lineEnd returned c
  else if c = '\r' || c = ' ' || c = '\t' || c = ',' && r.place = .blankLine || !r.field.isEmpty then 0
  else r.skipped.length

/-- What is so of a reading wherever the reader is; `returned` says whether the last character was a `\r`. -/
inductive IsSound (r : Reading) (returned : Bool) : Prop
  | between (hplace : r.isInside = false) (hfield : IsGap r.field) (hrecord : r.record = [] ∨ r.record = [""])
      (hskipped : ∀ line ∈ r.skipped, IsBlankRecord line)
  | fieldStart (hplace : r.place = .fieldStart) (hfield : r.field = []) (hskipped : r.skipped = [])
      (hreturned : returned = false)
  | unquoted (hplace : r.place = .plain ∨ r.place = .closing) (hskipped : r.skipped = []) (hreturned : returned = false)
  | quoted (hplace : r.place = .quoted) (hskipped : r.skipped = [])
      (hreturned : returned = decide (r.field.head? = some '\r'))

/-- Between records, what has been read of the line is blank, and so is each line that may come back as a
record. -/
theorem IsSound.of_not_isInside (h : r.IsSound returned) (hout : r.isInside = false) :
    IsGap r.field ∧ (r.record = [] ∨ r.record = [""]) ∧ ∀ line ∈ r.skipped, IsBlankRecord line := by
  cases h with
  | between _ hfield hrecord hskipped => exact ⟨hfield, hrecord, hskipped⟩
  | fieldStart hplace => simp [isInside, hplace] at hout
  | unquoted hplace => rcases hplace with hplace | hplace <;> simp [isInside, hplace] at hout
  | quoted hplace => simp [isInside, hplace] at hout

/-- In a record no lines wait to come back: they did when the record began, or were passed over. -/
theorem IsSound.skipped_eq_nil (h : r.IsSound returned) (hin : r.isInside) : r.skipped = [] := by
  cases h with
  | between hplace => simp [hplace] at hin
  | fieldStart _ _ hskipped => exact hskipped
  | unquoted _ hskipped => exact hskipped
  | quoted _ hskipped => exact hskipped

/-- Before the first character nothing has been read. -/
theorem isSound_empty : IsSound {} false := .between rfl nofun (.inl rfl) nofun

/-- A field that is complete counts the line breaks that were counted as it was read. -/
theorem breaks_fieldText_cons (field : List Char) (record : List String) :
    breaks (fieldText field :: record) = breaks record + lineEnds false field.reverse := by
  rw [breaks, fieldText, String.toList_ofList, Nat.add_comm]

/-! ### A field -/

/-- A character that is added to the field counts if it ends a line. -/
theorem openBreaks_push (r : Reading) (place : Place) (c : Char) :
    (r.push place c).openBreaks = r.openBreaks + lineEnd (r.field.head? = some '\r') c := by
  simp only [openBreaks, push, lineEnds_reverse_cons, Nat.add_assoc]

/-- It is accounted for among the lines as well. -/
theorem lines_push (r : Reading) (place : Place) (c : Char) :
    (r.push place c).lines = r.lines + lineEnd (r.field.head? = some '\r') c := by
  rw [lines, lines, openBreaks_push, ← Nat.add_assoc]
  rfl

/-- **A character in a field without quotes** accounts for a line just if it ends one. If it does, the record is
complete and takes that line; otherwise nothing is counted. -/
theorem nextPlain_spec (hskipped : r.skipped = []) (c : Char) :
    (r.nextPlain c).IsSound (c = '\r') ∧ (r.nextPlain c).lines = r.lines + lineEnd false c ∧
      ((r.nextPlain c).isInside → (r.nextPlain c).openBreaks = r.openBreaks) := by
  unfold nextPlain
  by_cases hend : isLineEnd c
  · rw [if_pos hend, lineEnd_of_isLineEnd hend]
    refine ⟨.between rfl nofun (.inl rfl) ?_, ?_, nofun⟩
    · simp [endLine, endField, hskipped]
    · simp only [lines, openBreaks, endLine, endField, List.length_cons, List.flatten_cons, breaks_append,
        breaks_perm (List.reverse_perm _), breaks_fieldText_cons]
      simp [breaks, lineEnds]
      omega
  · have hnone : isLineEnd c = false := Bool.not_eq_true _ ▸ hend
    rw [if_neg hend, lineEnd_of_not_isLineEnd hnone]
    by_cases hcomma : c = ','
    · rw [if_pos hcomma]
      refine ⟨.fieldStart rfl rfl hskipped (by simp [hcomma]), ?_, fun _ => ?_⟩
      · simp only [lines, openBreaks, endField, breaks_fieldText_cons]
        rfl
      · simp only [openBreaks, endField, breaks_fieldText_cons]
        rfl
    · rw [if_neg hcomma]
      have hplain : c ≠ '\r' := by
        rintro rfl
        cases hnone
      refine ⟨.unquoted (.inl rfl) hskipped (by simp [hplain]), ?_, fun _ => ?_⟩
      · rw [lines_push, lineEnd_of_not_isLineEnd hnone]
      · rw [openBreaks_push, lineEnd_of_not_isLineEnd hnone, Nat.add_zero]

/-- **At the beginning of a field** the next character keeps the reading sound, accounts for the line that it
may end, and leaves the line breaks of an unfinished record as they are. -/
theorem nextField_spec (hfield : r.field = []) (hskipped : r.skipped = []) (c : Char) :
    (r.nextField c).IsSound (c = '\r') ∧ (r.nextField c).lines = r.lines + lineEnd false c ∧
      ((r.nextField c).isInside → (r.nextField c).openBreaks = r.openBreaks) := by
  unfold nextField
  by_cases hquote : c = '"'
  · subst hquote
    rw [if_pos rfl]
    exact ⟨.quoted rfl hskipped (by simp [hfield]), rfl, fun _ => rfl⟩
  · rw [if_neg hquote]
    exact nextPlain_spec hskipped c

/-! ### Between records -/

/-- A comma behind a blank line that ends in `\r` is overlooked; otherwise a line begins there as anywhere. -/
theorem next_of_not_isInside (h : r.isInside = false) (c : Char) :
    r.next c = if c = ',' ∧ r.place = .blankLine then { r with place := .lineStart, record := [""] }
      else r.nextLine c := by
  cases hplace : r.place with
  | lineStart => simp [next, hplace]
  | blankLine =>
    by_cases hnewline : c = '\n'
    · subst hnewline
      simp [next, hplace, nextLine]
    · simp [next, hplace, hnewline]
  | _ => simp [isInside, hplace] at h

/-- Between records there are no line breaks in what has been read of the line. -/
theorem openBreaks_of_isGap (hfield : IsGap r.field) (hrecord : r.record = [] ∨ r.record = [""]) :
    r.openBreaks = 0 := by
  have hnone : lineEnds false r.field.reverse = 0 :=
    lineEnds_of_isGap (fun c hc => hfield c (List.mem_reverse.1 hc)) false
  rw [openBreaks, hnone]
  rcases hrecord with h | h
  · rw [h]
    rfl
  · rw [h]
    rfl

/-- Blank lines that are brought back account for a line each, as they did when they had been skipped. -/
theorem lines_bringBack (hskipped : ∀ line ∈ r.skipped, IsBlankRecord line) : r.bringBack.lines = r.lines := by
  have hnone : breaks r.skipped.flatten = 0 := breaks_of_isBlankRecord fun field hfield => by
    obtain ⟨line, hline, hfield⟩ := List.mem_flatten.1 hfield
    exact hskipped line hline field hfield
  simp only [lines, bringBack, openBreaks, List.length_append, List.flatten_append, breaks_append, hnone,
    List.length_nil]
  omega

/-- A line of blanks and tabs that ends is a blank record. -/
theorem isBlankRecord_skipLine (hfield : IsGap r.field) (hrecord : r.record = [] ∨ r.record = [""]) :
    IsBlankRecord (fieldText r.field :: r.record).reverse := by
  intro field hmem
  rcases List.mem_cons.1 (List.mem_reverse.1 hmem) with rfl | hmem
  · intro c hc
    rw [fieldText, String.toList_ofList] at hc
    exact hfield c (List.mem_reverse.1 hc)
  · rcases hrecord with h | h
    · rw [h] at hmem
      cases hmem
    · rw [h, List.mem_singleton] at hmem
      subst hmem
      exact nofun

/-- Forgetting the lines that might have come back takes them out of the account. -/
theorem lines_forget (hopen : r.openBreaks = 0) : r.forget.lines + r.skipped.length = r.lines := by
  simp only [lines, hopen]
  simp [forget, openBreaks, breaks, lineEnds]
  omega

/-- **A line of blanks and tabs that ends** is put with those that may come back, and accounted for as one line.
-/
theorem skipLine_spec (hfield : IsGap r.field) (hrecord : r.record = [] ∨ r.record = [""])
    (hskipped : ∀ line ∈ r.skipped, IsBlankRecord line) : r.skipLine.IsSound true ∧ r.skipLine.lines = r.lines + 1 := by
  constructor
  · refine .between rfl nofun (.inl rfl) ?_
    exact List.forall_mem_cons.2 ⟨isBlankRecord_skipLine hfield hrecord, hskipped⟩
  · simp only [lines, openBreaks_of_isGap hfield hrecord]
    simp [skipLine, endField, openBreaks, breaks, lineEnds]
    omega

/-- A blank or a tab between records goes on with the blank line. -/
theorem push_spec (hfield : IsGap r.field) (hrecord : r.record = [] ∨ r.record = [""])
    (hskipped : ∀ line ∈ r.skipped, IsBlankRecord line) {c : Char} (hc : c = ' ' ∨ c = '\t') :
    (r.push .lineStart c).IsSound false ∧ (r.push .lineStart c).lines = r.lines := by
  have hpush : IsGap (r.push .lineStart c).field := List.forall_mem_cons.2 ⟨hc, hfield⟩
  refine ⟨.between rfl hpush hrecord hskipped, ?_⟩
  have hnone : isLineEnd c = false := by rcases hc with rfl | rfl <;> rfl
  rw [lines_push, lineEnd_of_not_isLineEnd hnone, Nat.add_zero]

/-- **A character between records** ends a blank line, which is skipped or passed over, or goes on with one, or is the
first of a record. -/
theorem next_spec_of_between (hplace : r.isInside = false) (hfield : IsGap r.field)
    (hrecord : r.record = [] ∨ r.record = [""]) (hskipped : ∀ line ∈ r.skipped, IsBlankRecord line) (returned : Bool)
    (c : Char) :
    (r.next c).IsSound (c = '\r') ∧ (r.next c).lines + r.passedOver returned c = r.lines + lineEnd returned c ∧
      ((r.next c).isInside → (r.next c).openBreaks = 0) := by
  have hopen : r.openBreaks = 0 := openBreaks_of_isGap hfield hrecord
  have hforget := lines_forget hopen
  rw [next_of_not_isInside hplace, passedOver, hplace, if_neg Bool.false_ne_true]
  by_cases hcomma : c = ',' ∧ r.place = .blankLine
  · obtain ⟨rfl, hblank⟩ := hcomma
    rw [if_pos ⟨rfl, hblank⟩]
    have hopen' : ({ r with place := .lineStart, record := [""] } : Reading).openBreaks = 0 :=
      openBreaks_of_isGap hfield (.inr rfl)
    exact ⟨.between rfl hfield (.inr rfl) hskipped, by simp [lines, hopen, hopen', hblank, lineEnd], nofun⟩
  rw [if_neg hcomma, nextLine]
  by_cases hnewline : c = '\n'
  · subst hnewline
    rw [if_pos rfl, if_pos rfl]
    exact ⟨.between rfl nofun (.inl rfl) nofun, by omega, nofun⟩
  rw [if_neg hnewline, if_neg hnewline]
  by_cases hreturn : c = '\r'
  · subst hreturn
    obtain ⟨hsound, hlines⟩ := skipLine_spec hfield hrecord hskipped
    rw [if_pos rfl, if_pos (by simp)]
    exact ⟨hsound, hlines, nofun⟩
  rw [if_neg hreturn]
  have hnone : isLineEnd c = false := by simp [isLineEnd, hnewline, hreturn]
  rw [lineEnd_of_not_isLineEnd hnone]
  by_cases hgap : c = ' ' ∨ c = '\t'
  · obtain ⟨hsound, hlines⟩ := push_spec hfield hrecord hskipped hgap
    rw [if_pos (by simpa using hgap), if_pos (by rcases hgap with rfl | rfl <;> simp), decide_eq_false hreturn]
    exact ⟨hsound, hlines, nofun⟩
  rw [if_neg (by simpa using hgap)]
  obtain ⟨hspace, htab⟩ := not_or.1 hgap
  -- The first character of a record: blanks in front of it bring back what has been skipped.
  by_cases hempty : r.field.isEmpty
  · obtain ⟨hsound, hlines, hinside⟩ := nextField_spec (r := r.forget) rfl rfl c
    rw [if_pos hempty, if_neg (by simpa [hreturn, hspace, htab, hempty] using hcomma)]
    rw [lineEnd_of_not_isLineEnd hnone] at hlines
    exact ⟨hsound, by omega, fun h => (hinside h).trans rfl⟩
  · obtain ⟨hsound, hlines, hinside⟩ := nextPlain_spec (r := r.bringBack) rfl c
    rw [if_neg hempty, if_pos (by simp [hempty])]
    rw [lineEnd_of_not_isLineEnd hnone, lines_bringBack hskipped] at hlines
    exact ⟨hsound, by omega, fun h => (hinside h).trans hopen⟩

/-! ### Any character -/

/-- **Reading a character keeps count of the lines.** What has been read accounts for as many lines as have
ended, but for those that are passed over with this character. -/
theorem IsSound.next (h : r.IsSound returned) (c : Char) :
    (r.next c).IsSound (c = '\r') ∧ (r.next c).lines + r.passedOver returned c = r.lines + lineEnd returned c := by
  cases h with
  | between hplace hfield hrecord hskipped =>
    obtain ⟨hsound, hlines, -⟩ := next_spec_of_between hplace hfield hrecord hskipped returned c
    exact ⟨hsound, hlines⟩
  | fieldStart hplace hfield hskipped hreturned =>
    obtain ⟨hsound, hlines, -⟩ := nextField_spec hfield hskipped c
    subst hreturned
    rw [Reading.next, hplace]
    exact ⟨hsound, by simpa [passedOver, isInside, hplace] using hlines⟩
  | unquoted hplace hskipped hreturned =>
    -- In a record no line is passed over, so the lines that are accounted for are all that end.
    have hinside : r.isInside := by rcases hplace with h | h <;> simp [isInside, h]
    obtain ⟨hsound, hlines, -⟩ := nextPlain_spec hskipped c
    subst hreturned
    rw [passedOver, if_pos hinside, Nat.add_zero]
    rcases hplace with hplace | hplace
    · rw [Reading.next, hplace]
      exact ⟨hsound, hlines⟩
    · rw [Reading.next, hplace]
      by_cases hquote : c = '"'
      · subst hquote
        exact ⟨.quoted rfl hskipped rfl, lines_push r .quoted '"'⟩
      · dsimp only
        rw [if_neg hquote]
        exact ⟨hsound, hlines⟩
  | quoted hplace hskipped hreturned =>
    have hinside : r.isInside := by simp [isInside, hplace]
    rw [passedOver, if_pos hinside, Nat.add_zero, Reading.next, hplace]
    by_cases hquote : c = '"'
    · subst hquote
      exact ⟨.unquoted (.inr rfl) hskipped rfl, by simp [lineEnd]; rfl⟩
    · dsimp only
      rw [if_neg hquote, lines_push, ← hreturned]
      exact ⟨.quoted rfl hskipped (by simp [push]), rfl⟩

/-- How many blank lines are passed over for good in a text. -/
def blankLines : Reading → Bool → List Char → Nat
  | _, _, [] => 0
  | r, returned, c :: cs => r.passedOver returned c + blankLines (r.next c) (c = '\r') cs

/-- **What has been read of a text accounts for its lines,** but for the blank ones that have been passed over. -/
theorem lines_foldl (h : r.IsSound returned) (cs : List Char) :
    (∃ returned, (cs.foldl Reading.next r).IsSound returned) ∧
      (cs.foldl Reading.next r).lines + blankLines r returned cs = r.lines + lineEnds returned cs := by
  induction cs generalizing r returned with
  | nil => exact ⟨⟨returned, h⟩, rfl⟩
  | cons c cs ih =>
    obtain ⟨hsound, hlines⟩ := h.next c
    obtain ⟨hrest, hcount⟩ := ih hsound
    refine ⟨hrest, ?_⟩
    rw [List.foldl_cons, blankLines, lineEnds]
    omega

/-! ### Records -/

/-- Outside quotes a character either stays in the record, and then ends no line, or completes it. -/
theorem records_nextPlain (r : Reading) (c : Char) :
    isLineEnd c = false ∧ (r.nextPlain c).isInside ∧ (r.nextPlain c).records = r.records ∨
      (r.nextPlain c).isInside = false ∧ ∃ record, (r.nextPlain c).records = record :: r.records := by
  unfold nextPlain
  by_cases hend : isLineEnd c
  · rw [if_pos hend]
    exact .inr ⟨rfl, _, rfl⟩
  · rw [if_neg hend]
    refine .inl ⟨Bool.not_eq_true _ ▸ hend, ?_⟩
    by_cases hcomma : c = ','
    · rw [if_pos hcomma]
      exact ⟨rfl, rfl⟩
    · rw [if_neg hcomma]
      exact ⟨rfl, rfl⟩

/-- In a record, a character is part of it or ends it. -/
theorem records_next_of_isInside (h : r.isInside) (c : Char) :
    (r.next c).isInside ∧ (r.next c).records = r.records ∨
      (r.next c).isInside = false ∧ ∃ record, (r.next c).records = record :: r.records := by
  have hplain := (records_nextPlain r c).imp_left And.right
  cases hplace : r.place with
  | lineStart => simp [isInside, hplace] at h
  | blankLine => simp [isInside, hplace] at h
  | fieldStart =>
    rw [next, hplace]
    dsimp only
    unfold nextField
    split
    · exact .inl ⟨rfl, rfl⟩
    · exact hplain
  | plain =>
    rw [next, hplace]
    exact hplain
  | quoted =>
    rw [next, hplace]
    dsimp only
    split
    · exact .inl ⟨rfl, rfl⟩
    · exact .inl ⟨rfl, rfl⟩
  | closing =>
    rw [next, hplace]
    dsimp only
    split
    · exact .inl ⟨rfl, rfl⟩
    · exact hplain

/-- Between records, a character can only bring back what has been skipped. -/
theorem records_next_of_not_isInside (h : r.isInside = false) (c : Char) :
    (r.next c).records = r.records ∨ (r.next c).records = r.skipped ++ r.records := by
  rw [next_of_not_isInside h]
  by_cases hcomma : c = ',' ∧ r.place = .blankLine
  · rw [if_pos hcomma]
    exact .inl rfl
  rw [if_neg hcomma, nextLine]
  by_cases hnewline : c = '\n'
  · rw [if_pos hnewline]
    exact .inl rfl
  rw [if_neg hnewline]
  by_cases hreturn : c = '\r'
  · rw [if_pos hreturn]
    exact .inl rfl
  have hnone : isLineEnd c = false := by simp [isLineEnd, hnewline, hreturn]
  have hplain (r : Reading) : (r.nextPlain c).records = r.records := by
    unfold nextPlain
    rw [if_neg (by simp [hnone])]
    split
    · rfl
    · rfl
  rw [if_neg hreturn]
  split
  · exact .inl rfl
  · split
    · left
      unfold nextField
      split
      · rfl
      · exact hplain _
    · exact .inr (hplain _)

/-- Records that have been completed stay as they are. -/
theorem records_suffix_next (r : Reading) (c : Char) : r.records <:+ (r.next c).records := by
  cases h : r.isInside with
  | false =>
    rcases records_next_of_not_isInside h c with hnext | hnext
    · exact hnext ▸ List.suffix_refl _
    · exact hnext ▸ List.suffix_append _ _
  | true =>
    rcases records_next_of_isInside h c with ⟨-, hnext⟩ | ⟨-, record, hnext⟩
    · exact hnext ▸ List.suffix_refl _
    · exact hnext ▸ List.suffix_cons _ _

/-- At the end of the text the records are those that are complete, with the one that is not if the reader is in
one. -/
theorem finish?_eq_some {records : List (List String)} (h : r.finish? = some records) :
    r.isInside = false ∧ records = r.records.reverse ∨
      r.isInside ∧ ∃ record, records = (record :: r.records).reverse := by
  cases hplace : r.place with
  | lineStart =>
    rw [finish?, hplace] at h
    exact .inl ⟨by simp [isInside, hplace], (Option.some.inj h).symm⟩
  | blankLine =>
    rw [finish?, hplace] at h
    exact .inl ⟨by simp [isInside, hplace], (Option.some.inj h).symm⟩
  | quoted =>
    rw [finish?, hplace] at h
    cases h
  | _ =>
    rw [finish?, hplace] at h
    exact .inr ⟨by simp [isInside, hplace], _, (Option.some.inj h).symm⟩

/-- **The records that have been read stay the first of the text.** Further characters complete further records
behind them, so a record has its number once and for all. -/
theorem reverse_records_prefix {cs : List Char} {records : List (List String)}
    (h : (cs.foldl Reading.next r).finish? = some records) : r.records.reverse <+: records := by
  induction cs generalizing r with
  | nil =>
    rcases finish?_eq_some h with ⟨-, rfl⟩ | ⟨-, record, rfl⟩
    · exact List.prefix_refl _
    · rw [List.reverse_cons]
      exact List.prefix_append _ _
  | cons c cs ih => exact (List.reverse_prefix.2 (records_suffix_next r c)).trans (ih h)

/-! ### Where a record begins -/

/-- Whether the reader is in the record with a number, the first being `0`. -/
def isIn (r : Reading) (i : Nat) : Bool := r.isInside && r.records.length = i

theorem isIn_iff {i : Nat} : r.isIn i ↔ r.isInside ∧ r.records.length = i := by simp [isIn]

/-- The shortest part of a text after which the reader is in the record with a number. -/
def opening? (i : Nat) : Reading → List Char → Option (List Char)
  | r, [] => if r.isIn i then some [] else none
  | r, c :: cs => if r.isIn i then some [] else (opening? i (r.next c) cs).map (c :: ·)

/-- Where a record opens, the reader is in it, and none of its line breaks has been read yet. -/
theorem opening?_eq_some {i : Nat} {cs front : List Char} (hsound : r.IsSound returned)
    (hopen : r.isIn i → r.openBreaks = 0) (h : opening? i r cs = some front) :
    front <+: cs ∧ (front.foldl Reading.next r).isIn i ∧ (front.foldl Reading.next r).openBreaks = 0 := by
  induction cs generalizing r returned front with
  | nil =>
    rw [opening?] at h
    split at h
    · rename_i hin
      obtain rfl := Option.some.inj h
      exact ⟨List.prefix_refl _, hin, hopen hin⟩
    · cases h
  | cons c cs ih =>
    rw [opening?] at h
    split at h
    · rename_i hin
      obtain rfl := Option.some.inj h
      exact ⟨List.nil_prefix, hin, hopen hin⟩
    · rename_i hout
      obtain ⟨rest, hrest, rfl⟩ := Option.map_eq_some_iff.1 h
      -- A record is entered from between records; from inside another there is no way.
      have hentered : (r.next c).isIn i → (r.next c).openBreaks = 0 := by
        intro hin
        obtain ⟨hinside, hlength⟩ := isIn_iff.1 hin
        cases hplace : r.isInside with
        | false =>
          obtain ⟨hfield, hrecord, hskipped⟩ := hsound.of_not_isInside hplace
          exact (next_spec_of_between hplace hfield hrecord hskipped returned c).2.2 hinside
        | true =>
          rcases records_next_of_isInside hplace c with ⟨-, hsame⟩ | ⟨hleft, -⟩
          · exact absurd (isIn_iff.2 ⟨hplace, hsame ▸ hlength⟩) hout
          · rw [hleft] at hinside
            cases hinside
      obtain ⟨hpart, hin, hnone⟩ := ih (hsound.next c).1 hentered hrest
      exact ⟨(List.prefix_cons_inj c).2 hpart, hin, hnone⟩

/-- **A record that is not blank begins somewhere.** The reader gets into it with its first character that is no
blank, and the text in front of that ends on the line of the record. -/
theorem exists_opening? {i : Nat} {cs : List Char} {records : List (List String)} {record : List String}
    (hsound : r.IsSound returned) (hbefore : r.records.length ≤ i)
    (h : (cs.foldl Reading.next r).finish? = some records) (hi : records[i]? = some record)
    (hblank : ¬ IsBlankRecord record) : ∃ front, opening? i r cs = some front := by
  induction cs generalizing r returned with
  | nil =>
    rw [List.foldl_nil] at h
    rw [opening?]
    by_cases hin : r.isIn i
    · exact ⟨[], if_pos hin⟩
    · have hlength : records.length ≤ i := by
        rcases finish?_eq_some h with ⟨-, rfl⟩ | ⟨hinside, last, rfl⟩
        · simpa using hbefore
        · have hne : r.records.length ≠ i := fun hlength => hin (isIn_iff.2 ⟨hinside, hlength⟩)
          simp only [List.length_reverse, List.length_cons]
          omega
      rw [List.getElem?_eq_none hlength] at hi
      cases hi
  | cons c cs ih =>
    rw [opening?]
    by_cases hin : r.isIn i
    · exact ⟨[], if_pos hin⟩
    rw [if_neg hin]
    have hnext : (r.next c).records.length ≤ i := by
      cases hplace : r.isInside with
      | true =>
        have hne : r.records.length ≠ i := fun hlength => hin (isIn_iff.2 ⟨hplace, hlength⟩)
        rcases records_next_of_isInside hplace c with ⟨-, hsame⟩ | ⟨-, last, hlast⟩
        · exact hsame ▸ hbefore
        · rw [hlast, List.length_cons]
          omega
      | false =>
        rcases records_next_of_not_isInside hplace c with hsame | hback
        · exact hsame ▸ hbefore
        · -- Otherwise the record would be one of those brought back, and these are blank.
          refine Nat.not_lt.1 fun hlt => hblank ?_
          obtain ⟨-, -, hskipped⟩ := hsound.of_not_isInside hplace
          obtain ⟨later, rfl⟩ : (r.next c).records.reverse <+: records := reverse_records_prefix h
          rw [List.getElem?_append_left (by rwa [List.length_reverse]), hback, List.reverse_append,
            List.getElem?_append_right (by rwa [List.length_reverse])] at hi
          exact hskipped record (List.mem_reverse.1 (List.mem_of_getElem? hi))
    obtain ⟨front, hfront⟩ := ih (hsound.next c).1 hnext h
    exact ⟨c :: front, by rw [hfront]; rfl⟩

end Reading

/-- **A record begins behind as many lines as there are records before it,** line breaks in their fields, and blank
lines that have been passed over. -/
theorem lineEnds_opening? {i : Nat} {cs front : List Char} {records : List (List String)}
    (hrecords : records? cs = some records) (h : Reading.opening? i {} cs = some front) :
    lineEnds false front = i + breaks (records.take i).flatten + Reading.blankLines {} false front := by
  obtain ⟨⟨rest, rfl⟩, hin, hopen⟩ := Reading.opening?_eq_some Reading.isSound_empty nofun h
  obtain ⟨hinside, hlength⟩ := Reading.isIn_iff.1 hin
  obtain ⟨⟨returned, hsound⟩, hlines⟩ := Reading.lines_foldl Reading.isSound_empty front
  have hpart : (front.foldl Reading.next {}).records.reverse <+: records := by
    rw [records?, List.foldl_append] at hrecords
    exact Reading.reverse_records_prefix hrecords
  have htake : records.take i = (front.foldl Reading.next {}).records.reverse := by
    rw [← hlength, ← List.length_reverse]
    exact (List.prefix_iff_eq_take.1 hpart).symm
  have hempty : ({} : Reading).lines = 0 := rfl
  rw [hempty, Nat.zero_add, Reading.lines, hsound.skipped_eq_nil hinside, hopen, hlength] at hlines
  rw [htake, breaks_perm (List.reverse_perm _).flatten, ← hlines]
  simp

end Csv
end Tariff
