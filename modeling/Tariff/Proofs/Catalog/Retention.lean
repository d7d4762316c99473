/-
# What a catalog keeps of its texts

A rule keeps the texts of its record: its id, its service, its name and its trigger are what the fields hold, without
white space at the ends. A field that is blank leaves the rule without that text, and a record whose id is blank is no
rule.

The missing words count as blank, so what they write is lost (`Cell.IsLost`):

| field | text | what is loaded |
| --- | --- | --- |
| `rule_id` | `NA` | no rule |
| `name` | `None` | a rule named by its id |
| `required_value` | `n/a` | a rule that requires nothing |

That is all that is lost: the rules are those of the records with an id that is no missing word, in the order of the
file, and each has every other text of its record (`CatalogFiles.keeps_of_loadRules`).
-/

import Tariff.Proofs.Catalog.Loading
import Tariff.Proofs.Catalog.Records

namespace Tariff

open Csv (Row fieldUnder)

/-! ### Fields -/

namespace Cell

/-- The text of a field that is neither blank nor a missing word. -/
def given? (field : String) : Option String := if Csv.missingWords.contains field then none else text? field

/-- A field has a text that is not kept. -/
def IsLost (field : String) : Prop := field ∈ Csv.missingWords ∧ (text? field).isSome

/-- A field that is no missing word keeps its text. -/
theorem given?_of_not_isLost {field : String} (h : ¬ IsLost field) : given? field = text? field := by
  rw [given?]
  split
  · rename_i hmissing
    have hblank : text? field = none :=
      Option.not_isSome_iff_eq_none.1 fun htext => h ⟨List.contains_iff_mem.1 hmissing, htext⟩
    exact hblank.symm
  · rfl

/-- White space at the ends does not belong to a text. -/
theorem text?_trim (field : String) : text? (trim field) = text? field := by
  have htrim : trim (trim field) = trim field := by
    rw [trim, trim, String.toList_ofList, trimChars_trimChars]
  rw [text?, text?, htrim]

/-- What a cell holds of its field is the text, unless it is a missing word. -/
theorem text?_value (field : String) : text? (Csv.value field) = given? field := by
  have hblank : text? "" = none := rfl
  rw [Csv.value, given?]
  split
  · exact hblank
  · exact text?_trim field

/-- A cell is empty just if its field is blank or a missing word. -/
theorem isEmpty_value (field : String) : (!(Csv.value field).isEmpty) = (given? field).isSome := by
  rw [Csv.value, given?]
  split
  · rfl
  · rw [text?]
    split
    · rename_i hempty
      rw [hempty]
      rfl
    · rename_i hnamed
      have hnamed : (trim field).isEmpty = false := Bool.not_eq_true _ ▸ hnamed
      rw [hnamed]
      rfl

end Cell

/-! ### Rules -/

/-- A rule has the texts that its columns hold: an id, and each of the others if it is there. A rule without a name
is named by its id. -/
structure Rule.Keeps (text? : String → Option String) (r : Rule) : Prop where
  id : text? "rule_id" = some r.id
  service : r.service = text? "service_id"
  title : r.title = (text? "name").getD r.id
  triggerField : r.triggerField = text? "trigger_field"
  required : r.required = text? "required_value"
  operator : r.operator = text? "comparison_logic"

/-- The columns whose texts a rule keeps. -/
def Rule.textColumns : List String :=
  ["rule_id", "service_id", "name", "trigger_field", "required_value", "comparison_logic"]

/-- Only the columns of texts matter to what a rule keeps. -/
theorem Rule.Keeps.congr {r : Rule} {text? other : String → Option String} (h : r.Keeps text?)
    (hsame : ∀ column ∈ textColumns, text? column = other column) : r.Keeps other := by
  simp only [textColumns, List.forall_mem_cons] at hsame
  obtain ⟨hid, hservice, htitle, htrigger, hrequired, hoperator, -⟩ := hsame
  exact ⟨hid ▸ h.id, hservice ▸ h.service, htitle ▸ h.title, htrigger ▸ h.triggerField, hrequired ▸ h.required,
    hoperator ▸ h.operator⟩

/-- A rule that is read from a row keeps the texts of the row. -/
theorem Rule.keeps_of_ofRow {row : Row} {line : Nat} {r : Rule} (h : Rule.ofRow row line = .ok r) :
    r.Keeps (Row.text? row) := by
  unfold Rule.ofRow at h
  dsimp only at h
  split at h
  · rename_i id hid
    rw [ok_bind] at h
    obtain ⟨lowest, -, h⟩ := bind_eq_ok_iff.1 h
    obtain ⟨highest, -, h⟩ := bind_eq_ok_iff.1 h
    obtain ⟨unitPrice, -, h⟩ := bind_eq_ok_iff.1 h
    obtain rfl := Except.ok.inj h
    refine ⟨hid, ?_, ?_, ?_, ?_, ?_⟩ <;> dsimp only
  · cases h

/-! ### Files -/

/-- A file holds a header and records below it, none longer than the header, and no two names of the header are the
same but for white space. -/
structure CatalogFile.HoldsRecords (f : CatalogFile) (header : List String) (records : List (List String)) : Prop where
  content : f.body?.bind Csv.records? = some (header :: records)
  fits : ∀ record ∈ records, record.length ≤ header.length
  distinct : (header.map trim).Nodup

/-- There is one rule for each record with an id, in the order of the records, and it keeps the texts of its record;
`text?` says what counts as a text. -/
def RulesKeep (text? : String → Option String) (header : List String) (records : List (List String))
    (rules : List Rule) : Prop :=
  List.Forall₂ (fun record r => Rule.Keeps (fun column => text? (fieldUnder header column record)) r)
    (records.filter fun record => (text? (fieldUnder header "rule_id" record)).isSome) rules

section

variable {header : List String} {records : List (List String)} {rules : List Rule}

/-- The cell of a row under a column that rules are read from. -/
theorem cell_row (hdistinct : (header.map trim).Nodup) {column : String} (hcolumn : column ∈ Rule.textColumns)
    (record : List String) :
    Row.cell ((Csv.columnNames header).zip (Csv.values header.length record)) column =
      Csv.value (fieldUnder header column record) := by
  have hnames : ∀ column ∈ Rule.textColumns, column ≠ "" ∧ column.toList.head? ≠ some 'U' := by decide
  exact Csv.cell_zip_columnNames hdistinct (hnames column hcolumn).1 (hnames column hcolumn).2 record

/-- **The rules are those of the records with an id**, in the order of the file, and each keeps its texts; the
induction is on the records. -/
theorem rulesKeep_of_readRows (hdistinct : (header.map trim).Nodup) {line : Nat}
    (h : readRows "rule_id" Rule.ofRow line
      (records.map fun record => (Csv.columnNames header).zip (Csv.values header.length record)) = .ok rules) :
    RulesKeep Cell.given? header records rules := by
  have hrows := forall₂_of_readRows h
  rw [List.filter_map, List.forall₂_map_left_iff] at hrows
  have hnamed : (fun record => (Cell.given? (fieldUnder header "rule_id" record)).isSome) =
      (fun row => !(Row.cell row "rule_id").isEmpty) ∘
        fun record => (Csv.columnNames header).zip (Csv.values header.length record) := by
    funext record
    rw [Function.comp_apply, cell_row hdistinct List.mem_cons_self, Cell.isEmpty_value]
  rw [RulesKeep, hnamed]
  refine hrows.imp fun record r ⟨line, hr⟩ => (Rule.keeps_of_ofRow hr).congr fun column hcolumn => ?_
  rw [Row.text?, cell_row hdistinct hcolumn, Cell.text?_value]

/-- Where no text is lost, it does not matter that missing words are none. -/
theorem RulesKeep.of_not_isLost (h : RulesKeep Cell.given? header records rules)
    (hkept : ∀ record ∈ records, ∀ column ∈ Rule.textColumns, ¬ Cell.IsLost (fieldUnder header column record)) :
    RulesKeep Cell.text? header records rules := by
  have hsame {record : List String} (hrecord : record ∈ records) :
      ∀ column ∈ Rule.textColumns, Cell.given? (fieldUnder header column record) =
        Cell.text? (fieldUnder header column record) :=
    fun column hcolumn => Cell.given?_of_not_isLost (hkept record hrecord column hcolumn)
  have hnamed : (records.filter fun record => (Cell.given? (fieldUnder header "rule_id" record)).isSome) =
      records.filter fun record => (Cell.text? (fieldUnder header "rule_id" record)).isSome :=
    List.filter_congr fun record hrecord => by rw [hsame hrecord "rule_id" List.mem_cons_self]
  rw [RulesKeep, hnamed] at h
  have hmem := (List.forall₂_and_left _ _).2 ⟨fun record hrecord => hsame (List.mem_of_mem_filter hrecord), h⟩
  exact hmem.imp fun record r ⟨hkeep, hr⟩ => hr.congr hkeep

end

namespace CatalogFiles

variable {files : CatalogFiles} {header : List String} {records : List (List String)} {rules : List Rule}

/-- **A catalog keeps every text that is no missing word.** When the rules can be loaded, there is exactly one for
each record with an id that is neither blank nor a missing word, in the order of the file, and it keeps all texts of
its record but the missing words. Where no text is lost, that is one rule for each record with an id that is not
blank, which keeps all texts of its record. -/
theorem keeps_of_loadRules (hfile : files.rules.HoldsRecords header records) (h : files.loadRules = .ok rules) :
    RulesKeep Cell.given? header records rules ∧
      ((∀ record ∈ records, ∀ column ∈ Rule.textColumns, ¬ Cell.IsLost (fieldUnder header column record)) →
        RulesKeep Cell.text? header records rules) := by
  obtain ⟨table, htable, hread⟩ := bind_eq_ok_iff.1 h
  obtain ⟨cs, found, hcs, hfound, htable⟩ := CatalogFile.exists_records_of_table htable
  have hrecords : some found = some (header :: records) := by
    rw [← hfile.content, hcs, Option.bind_some, hfound]
  rw [Option.some.inj hrecords, Csv.ofRecords?_of_length_le hfile.fits] at htable
  obtain rfl := Option.some.inj htable
  have hkeeps := rulesKeep_of_readRows hfile.distinct hread
  exact ⟨hkeeps, hkeeps.of_not_isLost⟩

/-- Files with three records of rules, of which one has no id and one is short. -/
def rentFiles : CatalogFiles where
  rules := ⟨"pricing_rules.csv", "data/pricing_rules.csv",
    some "rule_id,name,trigger_field\n rent , Rent ,size\n,Desk,size\nfee\n".toUTF8⟩
  services := ⟨"services.csv", "data/services.csv", some "service_id\n".toUTF8⟩

/-- Of three records one has no id and gives no rule; the others keep their texts without white space at the
ends. -/
theorem keeps_of_loadRules_rentFiles : ∃ rules, rentFiles.loadRules = .ok rules ∧
    RulesKeep Cell.text? ["rule_id", "name", "trigger_field"]
      [[" rent ", " Rent ", "size"], ["", "Desk", "size"], ["fee"]] rules := by
  have hread : rentFiles.rules.body?.bind Csv.records? = some [["rule_id", "name", "trigger_field"],
      [" rent ", " Rent ", "size"], ["", "Desk", "size"], ["fee"]] ∧
      rentFiles.loadRules.toOption.map List.length = some 2 := by
    decide +kernel
  have hfile : rentFiles.rules.HoldsRecords ["rule_id", "name", "trigger_field"]
      [[" rent ", " Rent ", "size"], ["", "Desk", "size"], ["fee"]] :=
    ⟨hread.1, by decide, by decide⟩
  obtain ⟨rules, hrules, -⟩ := exists_of_toOption_map hread.2
  refine ⟨rules, hrules, (keeps_of_loadRules hfile hrules).2 ?_⟩
  unfold Cell.IsLost
  decide

/-- Files with one rule, whose id is a missing word. -/
def wordFiles : CatalogFiles where
  rules := ⟨"pricing_rules.csv", "data/pricing_rules.csv", some "rule_id,expression\nNA,1\n".toUTF8⟩
  services := ⟨"services.csv", "data/services.csv", some "service_id\n".toUTF8⟩

/-- **Not every rule file keeps all its texts:** a rule with the id `NA` is left out. -/
theorem not_forall_keeps_of_loadRules : ¬ ∀ (files : CatalogFiles) (header : List String)
    (records : List (List String)) (rules : List Rule), files.rules.HoldsRecords header records →
      files.loadRules = .ok rules → RulesKeep Cell.text? header records rules := by
  intro hall
  have hread : wordFiles.rules.body?.bind Csv.records? = some [["rule_id", "expression"], ["NA", "1"]] ∧
      wordFiles.loadRules.toOption.map List.length = some 0 := by
    decide +kernel
  have hfile : wordFiles.rules.HoldsRecords ["rule_id", "expression"] [["NA", "1"]] :=
    ⟨hread.1, by decide, by decide⟩
  obtain ⟨rules, hrules, hnone⟩ := exists_of_toOption_map hread.2
  have hnamed : [["NA", "1"]].filter
      (fun record => (Cell.text? (fieldUnder ["rule_id", "expression"] "rule_id" record)).isSome) =
        [["NA", "1"]] := by
    decide
  have hkeeps := hall wordFiles _ _ rules hfile hrules
  rw [RulesKeep, hnamed] at hkeeps
  have hone := hkeeps.length_eq
  rw [hnone] at hone
  cases hone

end CatalogFiles
end Tariff
