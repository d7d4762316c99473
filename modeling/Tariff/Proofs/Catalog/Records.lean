/-
# The records of a catalog file

A file that can be read holds records. The first names the columns, and each record below it is a row of the table,
in the order of the file (`Csv.exists_rows_of_ofRecords?`).

Where no two names of the header are the same but for white space, and no record is longer than the header, the cell
of a row under a column is the field of its record under that name: its text without white space at the ends, and
nothing if it is a missing word (`Csv.cell_zip_columnNames`).
-/

import Mathlib.Data.List.Forall2
import Mathlib.Data.List.Nodup
import Tariff.Catalog.Load
import Tariff.Proofs.Text

namespace Tariff
namespace Csv

/-- The characters of a text, without a byte order mark in front. -/
def body (text : String) : List Char :=
  match text.toList with
  | '\ufeff' :: rest => rest
  | cs => cs

/-- The field of a record under a name of the header; a record that is too short has none there. -/
def fieldUnder (header : List String) (column : String) (record : List String) : String :=
  (lookup? column ((header.map trim).zip record)).getD ""

/-! ### Rows -/

section

variable {header : List String} {records : List (List String)} {table : Table}

/-- A row without texts has nothing under any column. -/
theorem cell_of_blank {row : Row} (h : ∀ field ∈ row, field.2 = "") (column : String) : Row.cell row column = "" := by
  rw [Row.cell]
  induction row with
  | nil => rfl
  | cons field row ih =>
    obtain ⟨hfield, hrow⟩ := List.forall_mem_cons.1 h
    rw [lookup?]
    split
    · exact hfield
    · exact ih hrow

/-- A field of white space has no value. -/
theorem value_of_trim {field : String} (h : trim field = "") : value field = "" := by
  rw [value, h, ite_self]

/-- **Each record below the header is a row,** and one of white space is a row of blanks. So rows and records
are counted alike, which the numbers of lines in faults rest on. -/
theorem exists_rows_of_ofRecords? (h : ofRecords? (header :: records) = some table) :
    ∃ toRow : List String → Row, table.rows = records.map toRow ∧
      ∀ record, (∀ field ∈ record, trim field = "") → ∀ column, Row.cell (toRow record) column = "" := by
  unfold ofRecords? at h
  dsimp only at h
  split at h
  · cases h
  · obtain rfl := Option.some.inj h
    refine ⟨_, rfl, fun record hblank column => cell_of_blank (fun field hfield => ?_) column⟩
    have hvalue := List.mem_of_mem_drop (List.of_mem_zip hfield).2
    obtain ⟨text, htext, hfield⟩ := List.mem_map.1 hvalue
    rw [← hfield]
    rcases List.mem_append.1 htext with htext | htext
    · exact value_of_trim (hblank text htext)
    · rw [List.eq_of_mem_replicate htext]
      exact value_of_trim rfl

/-- If no record is longer than the header, each is a row, and the columns are those of the header. -/
theorem ofRecords?_of_length_le (h : ∀ record ∈ records, record.length ≤ header.length) :
    ofRecords? (header :: records) =
      some ⟨columnNames header, records.map fun record => (columnNames header).zip (values header.length record)⟩ := by
  have hfirst : (records.head?.map List.length).getD 0 ≤ header.length := by
    cases records with
    | nil => exact Nat.zero_le _
    | cons record records => exact h record List.mem_cons_self
  have hfit : (records.any fun record => header.length < record.length) = false := by
    rw [List.any_eq_false]
    intro record hrecord
    simpa using h record hrecord
  unfold ofRecords?
  dsimp only
  rw [Nat.max_eq_left hfirst, hfit, if_neg Bool.false_ne_true]
  simp

end

/-! ### Names of columns -/

/-- Whether a text begins as the name of a column that has been given none. -/
def BeginsUnnamed (s : String) : Prop := s.toList.head? = some 'U'

theorem beginsUnnamed_append {s : String} (h : BeginsUnnamed s) (t : String) : BeginsUnnamed (s ++ t) := by
  rw [BeginsUnnamed, String.toList_append, List.head?_append, h]
  rfl

theorem beginsUnnamed_trim {s : String} (h : BeginsUnnamed s) : BeginsUnnamed (trim s) := by
  rw [BeginsUnnamed, trim, String.toList_ofList]
  exact head?_trimChars h (by decide)

/-- The name of a column made from a name that was given: it is that name, unless both begin as those of a column
that has been given none. -/
def MadeFrom (given made : String) : Prop := made = given ∨ BeginsUnnamed given ∧ BeginsUnnamed made

/-- **Names that differ stay as they are** when those that come again are numbered. -/
theorem madeFrom_distinctNames {given names made : List String}
    (hnames : names.Pairwise fun a b => a = b → BeginsUnnamed a)
    (hmade : ∀ m ∈ made, BeginsUnnamed m ∨ ∀ name ∈ names, m ≠ name) :
    List.Forall₂ MadeFrom names (distinctNames given made names) := by
  induction names generalizing made with
  | nil => exact .nil
  | cons name names ih =>
    obtain ⟨hfirst, hnames⟩ := List.pairwise_cons.1 hnames
    have hearlier : ∀ m ∈ made, BeginsUnnamed m ∨ ∀ name ∈ names, m ≠ name := fun m hm =>
      (hmade m hm).imp_right fun hne other hother => hne other (List.mem_cons_of_mem _ hother)
    have hnext {fresh : String} (hfresh : BeginsUnnamed fresh ∨ ∀ name ∈ names, fresh ≠ name) :
        ∀ m ∈ made ++ [fresh], BeginsUnnamed m ∨ ∀ name ∈ names, m ≠ name := by
      intro m hm
      rcases List.mem_append.1 hm with hm | hm
      · exact hearlier m hm
      · exact List.mem_singleton.1 hm ▸ hfresh
    rw [distinctNames]
    split
    · rename_i hagain
      have hname : BeginsUnnamed name :=
        (hmade name (List.contains_iff_mem.1 hagain)).resolve_right fun hne => hne name List.mem_cons_self rfl
      have hfresh (n : Nat) : BeginsUnnamed (numbered name n) :=
        beginsUnnamed_append (beginsUnnamed_append hname ".") _
      exact .cons (.inr ⟨hname, hfresh _⟩) (ih hnames (hnext (.inl (hfresh _))))
    · refine .cons (.inl rfl) (ih hnames (hnext ?_))
      by_cases hname : BeginsUnnamed name
      · exact .inl hname
      · exact .inr fun other hother heq => hname (hfirst other hother heq)

/-- A column is named by the header, unless its name begins as that of a column that has been given none. -/
def NamedBy (name column : String) : Prop :=
  column = trim name ∨ BeginsUnnamed column ∧ (trim name = "" ∨ BeginsUnnamed (trim name))

/-- **The columns have the names of the header**, up to white space, if no two names are the same but for that.
Names that are made up for empty ones do not get in their way. -/
theorem namedBy_columnNames {header : List String} (h : (header.map trim).Nodup) :
    List.Forall₂ NamedBy header (columnNames header) := by
  let given : String × Nat → String := fun p => if p.1.isEmpty then "Unnamed: " ++ natText p.2 else p.1
  have hblank (i : Nat) : BeginsUnnamed ("Unnamed: " ++ natText i) :=
    beginsUnnamed_append (show "Unnamed: ".toList.head? = some 'U' by decide) _
  -- Names that come out the same begin as made-up ones, since no two that were given are the same.
  have hdistinct : (header.zipIdx.map given).Pairwise fun a b => a = b → BeginsUnnamed a := by
    have hheader : (header.zipIdx.map Prod.fst).Nodup := by
      rw [List.zipIdx_map_fst]
      exact List.Nodup.of_map trim h
    rw [List.pairwise_map]
    refine (List.pairwise_map.1 hheader).imp fun {p q} hne heq => ?_
    obtain ⟨name, i⟩ := p
    obtain ⟨other, k⟩ := q
    dsimp only [given] at hne heq ⊢
    by_cases hname : name.isEmpty
    · rw [if_pos hname]
      exact hblank i
    · rw [if_neg hname] at heq ⊢
      by_cases hother : other.isEmpty
      · rw [if_pos hother] at heq
        exact heq ▸ hblank k
      · rw [if_neg hother] at heq
        exact absurd heq hne
  have hmade : List.Forall₂ MadeFrom (header.zipIdx.map given)
      (distinctNames (header.zipIdx.map given) [] (header.zipIdx.map given)) :=
    madeFrom_distinctNames hdistinct nofun
  rw [List.forall₂_map_left_iff] at hmade
  -- What is left is one column: its name was given or made up, and kept or numbered.
  suffices hnamed : List.Forall₂ NamedBy (header.zipIdx.map Prod.fst) (columnNames header) by
    rwa [List.zipIdx_map_fst] at hnamed
  rw [columnNames, List.forall₂_map_right_iff, List.forall₂_map_left_iff]
  refine hmade.imp fun p made hp => ?_
  obtain ⟨name, i⟩ := p
  dsimp only [given] at hp
  by_cases hname : name.isEmpty
  · rw [if_pos hname] at hp
    have htrim : trim name = "" := by
      rw [String.isEmpty_iff.1 hname]
      rfl
    rcases hp with rfl | ⟨-, hunnamed⟩
    · exact .inr ⟨beginsUnnamed_trim (hblank i), .inl htrim⟩
    · exact .inr ⟨beginsUnnamed_trim hunnamed, .inl htrim⟩
  · rw [if_neg hname] at hp
    rcases hp with rfl | ⟨hgiven, hunnamed⟩
    · exact .inl rfl
    · exact .inr ⟨beginsUnnamed_trim hunnamed, .inr (beginsUnnamed_trim hgiven)⟩

/-! ### Cells -/

variable {column : String}

/-- A column has a name that is asked for just if the header gives it that name. -/
theorem eq_iff_of_namedBy (hcolumn : column ≠ "") (hnamed : ¬ BeginsUnnamed column) {name made : String}
    (h : NamedBy name made) : made = column ↔ trim name = column := by
  rcases h with rfl | ⟨hmade, hname⟩
  · exact Iff.rfl
  · refine iff_of_false (fun heq => hnamed (heq ▸ hmade)) fun heq => ?_
    rcases hname with hname | hname
    · exact hcolumn (heq ▸ hname)
    · exact hnamed (heq ▸ hname)

theorem values_nil_succ (n : Nat) : values (n + 1) [] = "" :: values n [] := by
  have hblank : value "" = "" := rfl
  simp [values, List.replicate_succ, hblank]

theorem values_cons (n : Nat) (field : String) (record : List String) :
    values (n + 1) (field :: record) = value field :: values n record := by
  simp [values]

/-- **The cell under a column is the field under that name**, and nothing where the record has none. -/
theorem lookup?_zip_values (hcolumn : column ≠ "") (hnamed : ¬ BeginsUnnamed column) {header columns : List String}
    (h : List.Forall₂ NamedBy header columns) (record : List String) :
    (lookup? column (columns.zip (values header.length record))).getD "" =
      value ((lookup? column ((header.map trim).zip record)).getD "") := by
  have hblank : value "" = "" := rfl
  induction h generalizing record with
  | nil => exact hblank.symm
  | @cons name made names columns hfirst _ ih =>
    have hsame := eq_iff_of_namedBy hcolumn hnamed hfirst
    cases record with
    | nil =>
      have hrest : (lookup? column (columns.zip (values names.length []))).getD "" = "" := by
        rw [ih [], List.zip_nil_right]
        exact hblank
      refine Eq.trans ?_ hblank.symm
      rw [List.length_cons, values_nil_succ, List.zip_cons_cons, lookup?]
      split
      · rfl
      · exact hrest
    | cons field record =>
      rw [List.length_cons, values_cons, List.map_cons, List.zip_cons_cons, List.zip_cons_cons, lookup?, lookup?]
      by_cases hname : trim name = column
      · rw [if_pos hname, if_pos (hsame.2 hname)]
        rfl
      · rw [if_neg hname, if_neg (mt hsame.1 hname)]
        exact ih record

/-- **The cell of a row under a column is the field of its record under that name,** without white space at the
ends, and blank if it is a missing word. -/
theorem cell_zip_columnNames {header : List String} (h : (header.map trim).Nodup) (hcolumn : column ≠ "")
    (hnamed : ¬ BeginsUnnamed column) (record : List String) :
    Row.cell ((columnNames header).zip (values header.length record)) column =
      value (fieldUnder header column record) :=
  lookup?_zip_values hcolumn hnamed (namedBy_columnNames h) record

end Csv

/-! ### Files -/

namespace CatalogFile

variable {f : CatalogFile}

/-- The characters of a file that is there and in UTF-8. -/
def body? (f : CatalogFile) : Option (List Char) := (f.content.bind String.fromUTF8?).map Csv.body

/-- What is loaded of a file is the table of its records. -/
theorem exists_records_of_table {required : String} {table : Csv.Table} (h : f.table required = .ok table) :
    ∃ cs records, f.body? = some cs ∧ Csv.records? cs = some records ∧ Csv.ofRecords? records = some table := by
  unfold CatalogFile.table at h
  split at h
  · cases h
  · rename_i bytes hbytes
    split at h
    · cases h
    · rename_i found hfound
      obtain ⟨text, htext, hparse⟩ := Option.bind_eq_some_iff.1 hfound
      obtain ⟨records, hrecords, htable⟩ := Option.bind_eq_some_iff.1 hparse
      split at h
      · cases h
      · split at h
        · obtain rfl := Except.ok.inj h
          exact ⟨_, records, by rw [body?, hbytes, Option.bind_some, htext]; rfl, hrecords, htable⟩
        · cases h

end CatalogFile
end Tariff
