/-
# The line that a fault names

The message of a fault begins with the number of a line (`LoadFault.message?_of_line?`). The number is that of the
first record that cannot be read, counted with the header among the records of its file. It is the number of the line
on which this record begins where each record before it takes one line; every blank line before it that has been
passed over and every line break in a cell before it puts the record one line further down
(`CatalogFiles.isNumbered_of_load`).
-/

import Tariff.Proofs.Catalog.Lines
import Tariff.Proofs.Catalog.Loading
import Tariff.Proofs.Catalog.Records

namespace Tariff

open Csv (Row)

/-- The line that the message of a fault begins with. -/
def LoadFault.line? : LoadFault → Option Nat
  | noId line _ | badNumber line _ | badFilter line _ _ => some line
  | _ => none

section

variable {fault : LoadFault} {row : Row} {line n : Nat}

/-- The message of a fault begins with its line. -/
theorem LoadFault.message?_of_line? (h : fault.line? = some n) :
    ∃ rest, fault.message? = some ("Line " ++ natText n ++ ": " ++ rest) := by
  cases fault with
  | noId line column =>
    obtain rfl := Option.some.inj h
    exact ⟨column ++ " is required", by simp [message?, String.append_assoc]⟩
  | badNumber line rule =>
    obtain rfl := Option.some.inj h
    refine ⟨"rule '" ++ (rule ++ "' has a non-numeric bound or unit price"), ?_⟩
    have hjoin : ": rule '" = ": " ++ "rule '" := by decide
    simp only [message?, String.append_assoc, hjoin]
  | badFilter line service reason =>
    obtain rfl := Option.some.inj h
    refine ⟨"service '" ++ (service ++ ("' has invalid aggregation_rules JSON" ++ (reason.map (": " ++ ·)).getD "")),
      ?_⟩
    have hjoin : ": service '" = ": " ++ "service '" := by decide
    simp only [message?, String.append_assoc, hjoin]
  | _ => cases h

/-! ### Rows -/

/-- A fault in reading a rule names the line that was handed in. -/
theorem Rule.line_eq_of_ofRow (h : Rule.ofRow row line = .error fault) (hline : fault.line? = some n) : n = line := by
  rcases Rule.ofRow_eq_error h with rfl | ⟨id, rfl⟩
  · exact (Option.some.inj hline).symm
  · exact (Option.some.inj hline).symm

/-- A fault in reading a service names the line that was handed in. -/
theorem Service.line_eq_of_ofRow (h : Service.ofRow row line = .error fault) (hline : fault.line? = some n) :
    n = line := by
  rcases Service.ofRow_eq_error h with rfl | ⟨id, reason, rfl⟩ | rfl
  · exact (Option.some.inj hline).symm
  · exact (Option.some.inj hline).symm
  · cases hline

end

/-! ### Files -/

/-- Blanks and tabs are trimmed to nothing. -/
theorem Csv.trim_of_isGap {field : String} (h : Csv.IsGap field.toList) : trim field = "" := by
  have hblank : ∀ c ∈ field.toList, isBlank c := by
    intro c hc
    rcases h c hc with rfl | rfl
    · decide
    · decide
  rw [trim, trimChars_of_forall_isBlank hblank]

namespace CatalogFile

variable {α : Type} {f : CatalogFile} {column : String} {read : Row → Nat → Except LoadFault α} {fault : LoadFault}
  {n : Nat}

/-- Reading a file fails at a record: `before` are the records before it, the header among them, and `front` is the
text up to its first character. -/
def FailsBehind (f : CatalogFile) (column : String) (read : Row → Nat → Except LoadFault α) (fault : LoadFault)
    (front : List Char) (before : List (List String)) : Prop :=
  ∃ cs header records table k, f.body? = some cs ∧ Csv.records? cs = some (header :: records) ∧
    Csv.ofRecords? (header :: records) = some table ∧ FailsAt column read 2 table.rows k fault ∧
      before = header :: records.take k ∧ Csv.Reading.opening? (k + 1) {} cs = some front

/-- A number is that of the first record that cannot be read, counted with the header among the records. The line on
which this record begins is further down by the blank lines that have been passed over before it and by the line
breaks in the cells of the records before it. -/
def IsNumbered (f : CatalogFile) (column : String) (read : Row → Nat → Except LoadFault α) (fault : LoadFault)
    (n : Nat) : Prop :=
  (∃ front before, f.FailsBehind column read fault front before) ∧
    ∀ front before, f.FailsBehind column read fault front before →
      n = before.length + 1 ∧
        Csv.lineBehind front = n + Csv.Reading.blankLines {} false front + Csv.breaks before.flatten

/-- A file that holds no table gives a fault that names no line. -/
theorem line?_of_table (h : f.table column = .error fault) : fault.line? = none := by
  unfold CatalogFile.table at h
  split at h
  · obtain rfl := Except.error.inj h
    rfl
  · split at h
    · obtain rfl := Except.error.inj h
      rfl
    · split at h
      · obtain rfl := Except.error.inj h
        rfl
      · split at h
        · cases h
        · obtain rfl := Except.error.inj h
          rfl

/-- The row that cannot be read is that of a record, which is not blank. -/
theorem exists_record_of_failsAt {header : List String} {records : List (List String)} {table : Csv.Table} {k : Nat}
    (htable : Csv.ofRecords? (header :: records) = some table) (h : FailsAt column read 2 table.rows k fault) :
    ∃ record, records[k]? = some record ∧ ¬ Csv.IsBlankRecord record := by
  obtain ⟨toRow, hrows, hblank⟩ := Csv.exists_rows_of_ofRecords? htable
  obtain ⟨row, hrow, hnamed, -⟩ := h.row
  rw [hrows, List.getElem?_map] at hrow
  obtain ⟨record, hrecord, rfl⟩ := Option.map_eq_some_iff.1 hrow
  refine ⟨record, hrecord, fun hgap => ?_⟩
  rw [hblank record (fun field hfield => Csv.trim_of_isGap (hgap field hfield)) column] at hnamed
  cases hnamed

/-- **The line that a fault names is the place of its record.** What remains is where in the file this record
begins, which is found by the records and line breaks before it. -/
theorem isNumbered_of_readRows {table : Csv.Table} (htable : f.table column = .ok table)
    (h : readRows column read 2 table.rows = .error fault)
    (hread : ∀ row line, read row line = .error fault → n = line) : f.IsNumbered column read fault n := by
  constructor
  · obtain ⟨cs, all, hcs, hrecords, htable⟩ := exists_records_of_table htable
    obtain ⟨header, records, rfl⟩ : ∃ header records, all = header :: records := by
      cases all with
      | nil => cases htable
      | cons header records => exact ⟨header, records, rfl⟩
    obtain ⟨k, hk⟩ := readRows_eq_error_iff.1 h
    obtain ⟨record, hrecord, hgap⟩ := exists_record_of_failsAt htable hk
    obtain ⟨front, hfront⟩ := Csv.Reading.exists_opening? (i := k + 1) Csv.Reading.isSound_empty (Nat.zero_le _)
      hrecords hrecord hgap
    exact ⟨front, _, cs, header, records, table, k, hcs, hrecords, htable, hk, rfl, hfront⟩
  · rintro front before ⟨cs, header, records, table, k, -, hrecords, htable, hk, rfl, hfront⟩
    obtain ⟨row, -, -, hrow⟩ := hk.row
    obtain ⟨record, hrecord, -⟩ := exists_record_of_failsAt htable hk
    obtain ⟨hlt, -⟩ := List.getElem?_eq_some_iff.1 hrecord
    have hlength : (header :: records.take k).length = k + 1 := by
      rw [List.length_cons, List.length_take, Nat.min_eq_left (Nat.le_of_lt hlt)]
    have hlines := Csv.lineEnds_opening? hrecords hfront
    rw [List.take_succ_cons] at hlines
    rw [Csv.lineBehind, hlines, hlength, hread row _ hrow]
    omega

end CatalogFile

namespace CatalogFiles

variable {files : CatalogFiles} {fault : LoadFault} {n : Nat}

/-- A fault in the rule catalog is numbered so. -/
theorem isNumbered_of_loadRules (h : files.loadRules = .error fault) (hline : fault.line? = some n) :
    files.rules.IsNumbered "rule_id" Rule.ofRow fault n := by
  rcases bind_eq_error_iff.1 h with htable | ⟨table, htable, h⟩
  · rw [CatalogFile.line?_of_table htable] at hline
    cases hline
  · exact CatalogFile.isNumbered_of_readRows htable h fun row line hrow => Rule.line_eq_of_ofRow hrow hline

/-- A fault in the service catalog is numbered so. -/
theorem isNumbered_of_loadServices (h : files.loadServices = .error fault) (hline : fault.line? = some n) :
    files.services.IsNumbered "service_id" Service.ofRow fault n := by
  rcases bind_eq_error_iff.1 h with htable | ⟨table, htable, h⟩
  · rw [CatalogFile.line?_of_table htable] at hline
    cases hline
  · have h := (bind_eq_error_iff.1 h).resolve_right fun ⟨_, _, h⟩ => by cases h
    exact CatalogFile.isNumbered_of_readRows htable h fun row line hrow => Service.line_eq_of_ofRow hrow hline

/-- **A fault names the number of its record,** which is that of a line if each record before it takes one line. Its
message begins with that number. In either file there is a first record that cannot be read, and it begins further down
than the line that the fault names by one line for each blank line before it that has been passed over, and for each
line break in a cell before it. -/
theorem isNumbered_of_load (files : CatalogFiles) {fault : LoadFault} {n : Nat} (hline : fault.line? = some n) :
    (∃ rest, fault.message? = some ("Line " ++ natText n ++ ": " ++ rest)) ∧
      (files.loadRules = .error fault → files.rules.IsNumbered "rule_id" Rule.ofRow fault n) ∧
      (files.loadServices = .error fault → files.services.IsNumbered "service_id" Service.ofRow fault n) :=
  ⟨LoadFault.message?_of_line? hline, fun h => isNumbered_of_loadRules h hline,
    fun h => isNumbered_of_loadServices h hline⟩

/-- Files whose third records cannot be read: one stands behind a blank line, the other behind a cell of two lines. -/
def stretchedFiles : CatalogFiles where
  rules := ⟨"pricing_rules.csv", "data/pricing_rules.csv",
    some "rule_id,minimum_value\nrent,1\n\nfee,lots\n".toUTF8⟩
  services := ⟨"services.csv", "data/services.csv",
    some "service_id,aggregation_rules\n\"desk\nlamp\",\nfee,[\n".toUTF8⟩

/-- Both faults name line three, though the record stands on line four in one file and on line five in the
other. -/
theorem exists_faults_stretchedFiles :
    (∃ fault, stretchedFiles.loadRules = .error fault ∧ fault.line? = some 3) ∧
      ∃ fault, stretchedFiles.loadServices = .error fault ∧ fault.line? = some 3 := by
  obtain ⟨hrules, hservices⟩ : (failure? stretchedFiles.loadRules).bind LoadFault.line? = some 3 ∧
      (failure? stretchedFiles.loadServices).bind LoadFault.line? = some 3 := by
    decide +kernel
  obtain ⟨fault, hfault, hline⟩ := Option.bind_eq_some_iff.1 hrules
  obtain ⟨other, hother, hlineOther⟩ := Option.bind_eq_some_iff.1 hservices
  exact ⟨⟨fault, failure?_eq_some_iff.1 hfault, hline⟩, other, failure?_eq_some_iff.1 hother, hlineOther⟩

/-- So the theorem applies to either file, with the blank line and the line break in a cell that it speaks of.
-/
theorem isNumbered_of_load_stretchedFiles :
    (∃ fault, stretchedFiles.loadRules = .error fault ∧ fault.line? = some 3 ∧
      stretchedFiles.rules.IsNumbered "rule_id" Rule.ofRow fault 3) ∧
    (∃ fault, stretchedFiles.loadServices = .error fault ∧ fault.line? = some 3 ∧
      stretchedFiles.services.IsNumbered "service_id" Service.ofRow fault 3) := by
  obtain ⟨⟨fault, hload, hline⟩, other, hloadOther, hlineOther⟩ := exists_faults_stretchedFiles
  exact ⟨⟨fault, hload, hline, (isNumbered_of_load stretchedFiles hline).2.1 hload⟩,
    other, hloadOther, hlineOther, (isNumbered_of_load stretchedFiles hlineOther).2.2 hloadOther⟩

/-- **Not every fault names the line on which its record begins:** behind a blank line the record is one line further
down. -/
theorem not_forall_lineBehind_of_load : ¬ ∀ (files : CatalogFiles) (fault : LoadFault) (n : Nat),
    fault.line? = some n →
      (files.loadRules = .error fault → ∀ front before,
        files.rules.FailsBehind "rule_id" Rule.ofRow fault front before → Csv.lineBehind front = n) ∧
      (files.loadServices = .error fault → ∀ front before,
        files.services.FailsBehind "service_id" Service.ofRow fault front before → Csv.lineBehind front = n) := by
  intro hall
  obtain ⟨⟨fault, hload, hline⟩, -⟩ := exists_faults_stretchedFiles
  obtain ⟨front, before, hbehind⟩ := (isNumbered_of_loadRules hload hline).1
  have hnamed := (hall stretchedFiles fault 3 hline).1 hload front before hbehind
  obtain ⟨cs, header, records, table, k, hcs, -, -, hk, -, hfront⟩ := hbehind
  obtain ⟨row, -, -, hrow⟩ := hk.row
  obtain rfl : k = 1 := by
    have := Rule.line_eq_of_ofRow hrow hline
    omega
  have hfourth : ((stretchedFiles.rules.body?.bind (Csv.Reading.opening? 2 {})).map Csv.lineBehind) = some 4 := by
    decide +kernel
  rw [hcs, Option.bind_some, hfront, Option.map_some, hnamed] at hfourth
  cases hfourth

end CatalogFiles
end Tariff
