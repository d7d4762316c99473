/-
# Comma-separated tables

| rule | |
| --- | --- |
| lines | end in `\n`, `\r\n` or `\r`; lines of blanks and tabs only are blank and skipped |
| a comma behind a blank line that ends in `\r` | is overlooked |
| blanks in front of a field at the start of a line | bring back the blank lines just before it, and the comma overlooked there, as long as all of them end in `\r` |
| fields | are divided by commas; a quote at the start of a field opens a quoted part |
| quoted part | holds anything, a quote written twice; what follows the closing quote is appended |
| missing values | a field that is one of `missingWords`, quoted or not, counts as blank |
| white space | is trimmed from fields and column names |
| first record | names the columns; a name that comes again gets a number |
| shorter records | are filled up with blanks |
| longer records | are refused, unless the first record below the names is as long: then the columns in front have no name and are left out |
-/

import Tariff.Json
import Tariff.Text.Blank

namespace Tariff
namespace Csv

/-! ### Records -/

/-- Where in a line the reader is. -/
inductive Place where
  /-- At the start of a line, perhaps behind blanks. -/
  | lineStart
  /-- Behind the `\r` of a blank line. -/
  | blankLine
  | fieldStart
  | plain
  | quoted
  /-- Behind a quote in a quoted part. -/
  | closing
  deriving DecidableEq, Repr

/-- What has been read: characters of the current field, fields of the current record, and records,
each with the last one first. -/
structure Reading where
  place : Place := .lineStart
  field : List Char := []
  /-- At the start of a line, a blank field if a comma has been overlooked there. -/
  record : List String := []
  records : List (List String) := []
  /-- Blank lines that end in `\r`, with no other line behind them. -/
  skipped : List (List String) := []

namespace Reading

def fieldText (field : List Char) : String := String.ofList field.reverse

def endField (r : Reading) (place : Place) : Reading :=
  { r with place := place, field := [], record := fieldText r.field :: r.record }

def endLine (r : Reading) : Reading :=
  let r := r.endField .lineStart
  { r with record := [], records := r.record.reverse :: r.records }

def push (r : Reading) (place : Place) (c : Char) : Reading :=
  { r with place := place, field := c :: r.field }

def isLineEnd (c : Char) : Bool := c = '\n' || c = '\r'

/-- Skip a line of blanks that ends in `\r`. -/
def skipLine (r : Reading) : Reading :=
  let r := r.endField .blankLine
  { r with record := [], skipped := r.record.reverse :: r.skipped }

/-- Forget what has been skipped. -/
def forget (r : Reading) : Reading :=
  { r with place := .lineStart, field := [], record := [], skipped := [] }

/-- Bring back what has been skipped. -/
def bringBack (r : Reading) : Reading :=
  { r with records := r.skipped ++ r.records, skipped := [] }

/-- The next character in a field without quotes. -/
def nextPlain (r : Reading) (c : Char) : Reading :=
  if isLineEnd c then r.endLine
  else if c = ',' then r.endField .fieldStart
  else r.push .plain c

/-- The next character where a field begins. -/
def nextField (r : Reading) (c : Char) : Reading :=
  if c = '"' then { r with place := .quoted } else r.nextPlain c

/-- The next character at the start of a line. -/
def nextLine (r : Reading) (c : Char) : Reading :=
  if c = '\n' then r.forget
  else if c = '\r' then r.skipLine
  else if c = ' ' || c = '\t' then r.push .lineStart c
  else if r.field.isEmpty then r.forget.nextField c
  else r.bringBack.nextPlain c

/-- The next character. -/
def next (r : Reading) (c : Char) : Reading :=
  match r.place with
  | .lineStart => r.nextLine c
  | .blankLine =>
    if c = '\n' then r.forget
    else if c = ',' then { r with place := .lineStart, record := [""] }
    else r.nextLine c
  | .fieldStart => r.nextField c
  | .plain => r.nextPlain c
  | .quoted => if c = '"' then { r with place := .closing } else r.push .quoted c
  | .closing => if c = '"' then r.push .quoted c else r.nextPlain c

/-- All records at the end of the text; a quoted part must be closed. -/
def finish? (r : Reading) : Option (List (List String)) :=
  match r.place with
  | .quoted => none
  | .lineStart | .blankLine => some r.records.reverse
  | _ => some r.endLine.records.reverse

end Reading

/-- The records of a text, of any lengths. -/
def records? (cs : List Char) : Option (List (List String)) :=
  (cs.foldl Reading.next {}).finish?

/-! ### Columns -/

/-- The words that stand for a missing value. -/
def missingWords : List String :=
  ["", "#N/A", "#N/A N/A", "#NA", "-1.#IND", "-1.#QNAN", "-NaN", "-nan", "1.#IND", "1.#QNAN", "<NA>",
    "N/A", "NA", "NULL", "NaN", "None", "n/a", "nan", "null"]

def value (field : String) : String := if missingWords.contains field then "" else trim field

def numbered (name : String) (n : Nat) : String := name ++ "." ++ natText n

/-- The first number from `n` on under which a name is not taken; `count` numbers are tried. -/
def freeNumber (taken : List String) (name : String) : Nat → Nat → Nat
  | 0, n => n
  | count + 1, n => if taken.contains (numbered name n) then freeNumber taken name count (n + 1) else n

/-- Number the names that come again, apart from all names that were given and those made so far. -/
def distinctNames (given : List String) : List String → List String → List String
  | _, [] => []
  | made, name :: rest =>
    let fresh := if made.contains name then
        numbered name (freeNumber (given ++ made) name (given.length + made.length)
          (made.countP (· = name)))
      else name
    fresh :: distinctNames given (made ++ [fresh]) rest

/-- Names for all columns: a column without one is named by its position. -/
def columnNames (header : List String) : List String :=
  let given := header.zipIdx.map fun (name, i) =>
    if name.isEmpty then "Unnamed: " ++ natText i else name
  (distinctNames given [] given).map trim

/-! ### Tables -/

/-- A row as the texts of its columns. -/
abbrev Row := List (String × String)

structure Table where
  columns : List String
  rows : List Row

/-- A record at a width, its values trimmed. -/
def values (width : Nat) (record : List String) : List String :=
  (record ++ List.replicate (width - record.length) "").map value

/-- The table of records; `none` without a header or with a record that is too long. -/
def ofRecords? : List (List String) → Option Table
  | [] => none
  | header :: rest =>
    let columns := columnNames header
    let width := max header.length ((rest.head?.map List.length).getD 0)
    if rest.any fun record => width < record.length then none
    else
      let unnamed := width - header.length
      some ⟨columns, rest.map fun record => columns.zip ((values width record).drop unnamed)⟩

/-- The table of a text. -/
def parse? (text : String) : Option Table :=
  let cs := match text.toList with
    | '\ufeff' :: rest => rest
    | cs => cs
  (records? cs).bind ofRecords?

end Csv
end Tariff
