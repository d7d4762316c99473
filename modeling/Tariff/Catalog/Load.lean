/-
# Loading the catalogs

The rule catalog and the service catalog are two CSV files. A rule or a service is a row with an id;
rows without one are left out. Rules keep their order in the file, services are sorted by their
`service_order`.

Rows are numbered from two on, the header being the first, so blank lines and lines inside quotes do
not count.
-/

import Tariff.Catalog.Cell
import Tariff.Catalog.Csv
import Tariff.Json.Reader
import Tariff.Pricing.Quote

namespace Tariff

/-- Why the catalogs cannot be loaded. -/
inductive LoadFault where
  | missingFile (path : String)
  /-- A file that is no table in UTF-8. -/
  | unreadable (file : String)
  | missingColumn (file column : String)
  /-- Two columns have one name but for white space. -/
  | ambiguousColumn
  | noId (line : Nat) (column : String)
  | badNumber (line : Nat) (rule : String)
  /-- What the filter of a service is written as is no JSON, or no filter for a reason. -/
  | badFilter (line : Nat) (service : String) (reason : Option String)
  /-- A number without bound where a whole or finite one is needed. -/
  | unbounded
  /-- A whole number with more digits than can be written. -/
  | overlong

namespace LoadFault

/-- The message of a fault; the last resort faults have none. -/
def message? : LoadFault → Option String
  | missingFile path => some ("Catalog file not found: " ++ path)
  | unreadable file => some ("Could not read " ++ file)
  | missingColumn file column => some (file ++ " is missing column(s): " ++ column)
  | noId line column => some ("Line " ++ natText line ++ ": " ++ column ++ " is required")
  | badNumber line rule =>
    some ("Line " ++ natText line ++ ": rule '" ++ rule ++ "' has a non-numeric bound or unit price")
  | badFilter line service reason =>
    some ("Line " ++ natText line ++ ": service '" ++ service ++ "' has invalid aggregation_rules JSON"
      ++ (reason.map (": " ++ ·)).getD "")
  | ambiguousColumn | unbounded | overlong => none

end LoadFault

namespace Csv.Row

/-- The cell of a column; a column that is not there is blank. -/
def cell (row : Row) (column : String) : String := (lookup? column row).getD ""

def text? (row : Row) (column : String) : Option String := Cell.text? (cell row column)

end Csv.Row

open Csv (Row)

/-- The bound in a cell. -/
def boundAt (row : Row) (fault : LoadFault) (column : String) : Except LoadFault (Option Binary64) :=
  match Cell.bound? (Row.cell row column) with
  | some x => .ok x
  | none => .error fault

/-- The rule of a row. -/
def Rule.ofRow (row : Row) (line : Nat) : Except LoadFault Rule := do
  let id ← match Row.text? row "rule_id" with
    | some id => .ok id
    | none => .error (LoadFault.noId line "rule_id")
  let fault := LoadFault.badNumber line id
  let lowest ← boundAt row fault "minimum_value"
  let highest ← boundAt row fault "maximum_value"
  let unitPrice ← boundAt row fault "unit_price"
  return {
    id := id
    formula := trim (Row.cell row "expression")
    lowest := lowest
    highest := highest
    service := Row.text? row "service_id"
    title := (Row.text? row "name").getD id
    category := Row.text? row "pricing_type"
    billing := Row.text? row "billing_frequency"
    isActive := Cell.flag true (Row.cell row "active")
    method := lower ((Row.text? row "calculation_method").getD Method.formula.name)
    basePrice := Cell.amount (Row.cell row "base_price")
    unitPrice := unitPrice
    unitName := Row.text? row "unit_name"
    quantityField := Row.text? row "quantity_source_field"
    triggerField := Row.text? row "trigger_field"
    required := Row.text? row "required_value"
    operator := Row.text? row "comparison_logic"
    isDiscountable := Cell.flag false (Row.cell row "discount_eligible")
    discount := Cell.share (Row.cell row "discount_percentage") }

/-- The filter that a cell writes as JSON. -/
def filterAt (line : Nat) (service : String) (cell : Option String) :
    Except LoadFault (Option Filter) :=
  match cell with
  | none => .ok none
  | some text =>
    match Json.parse? text with
    | none => .error (.badFilter line service none)
    | some data =>
      match Filter.ofJson data with
      | .ok f => .ok (some f)
      | .error .feeTooLarge => .error .unbounded
      | .error fault => .error (.badFilter line service fault.message?)

/-- The place of a service among the others: the whole part of a number, `999` for other text. -/
def orderAt (cell : String) : Except LoadFault Int :=
  match if cell.isEmpty then none else Binary64.parse? cell with
  | some (.infinite _) => .error .unbounded
  | some x => .ok (x.truncate?.getD 999)
  | none => .ok 999

/-- The service of a row. -/
def Service.ofRow (row : Row) (line : Nat) : Except LoadFault Service := do
  let id ← match Row.text? row "service_id" with
    | some id => .ok id
    | none => .error (LoadFault.noId line "service_id")
  let filter ← filterAt line id (Row.text? row "aggregation_rules")
  let order ← orderAt (Row.cell row "service_order")
  return {
    id := id
    total := Row.text? row "total_variable_name"
    billing := Row.text? row "billing_frequency"
    filter := filter
    title := (Row.text? row "title").getD id
    displayName := Row.text? row "display_name"
    order := order
    isActive := Cell.flag true (Row.cell row "active") }

/-- A file of a catalog: its name, the path it is looked for at, and its bytes if it is there. -/
structure CatalogFile where
  name : String
  path : String
  content : Option ByteArray

namespace CatalogFile

/-- The table in a file, which must have a column. -/
def table (f : CatalogFile) (required : String) : Except LoadFault Csv.Table :=
  match f.content with
  | none => .error (.missingFile f.path)
  | some bytes =>
    match (String.fromUTF8? bytes).bind Csv.parse? with
    | none => .error (.unreadable f.name)
    | some table =>
      if ¬ table.columns.Nodup then .error .ambiguousColumn
      else if table.columns.contains required then .ok table
      else .error (.missingColumn f.name required)

end CatalogFile

/-- What a reader makes of the rows with something in a column, numbered from `line` on. -/
def readRows {α : Type} (column : String) (read : Row → Nat → Except LoadFault α) :
    Nat → List Row → Except LoadFault (List α)
  | _, [] => .ok []
  | line, row :: rest =>
    if (Row.cell row column).isEmpty then readRows column read (line + 1) rest
    else do
      let x ← read row line
      let xs ← readRows column read (line + 1) rest
      return x :: xs

/-- The files of both catalogs. -/
structure CatalogFiles where
  rules : CatalogFile
  services : CatalogFile

namespace CatalogFiles

/-- The rules in file order. -/
def loadRules (f : CatalogFiles) : Except LoadFault (List Rule) := do
  readRows "rule_id" Rule.ofRow 2 (← f.rules.table "rule_id").rows

/-- The services by their order, those of one order as in the file. -/
def loadServices (f : CatalogFiles) : Except LoadFault (List Service) := do
  let services ← readRows "service_id" Service.ofRow 2 (← f.services.table "service_id").rows
  return services.mergeSort fun s t => s.order ≤ t.order

def load (f : CatalogFiles) : Except LoadFault Catalog := do
  let rules ← f.loadRules
  return ⟨rules, ← f.loadServices⟩

end CatalogFiles
end Tariff
