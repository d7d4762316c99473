/-
# The report on an answer file

A report checks the catalogs and prices a file of answers by them, as lines of text: the findings on
each rule, the quote in columns, and on request the whole journal. What stops it leaves the lines
before it standing.
-/

import Tariff.Book
import Tariff.Catalog.Check

namespace Tariff

/-- What stops a report. -/
inductive ReportFault where
  | load (fault : LoadFault)
  /-- The answers are no object, so no selection can be looked up in them. -/
  | answersNoObject
  /-- The selection holds a container, which is no service id. -/
  | selectionItem
  | halt (h : Halt)

/-- The lines of a report, and what stopped it if something did. -/
structure Report where
  lines : List String
  fault : Option ReportFault

namespace Report

/-- Text filled up with blanks behind it. -/
def padBehind (width : Nat) (s : String) : String :=
  s ++ String.ofList (List.replicate (width - s.length) ' ')

/-- Text filled up with blanks in front of it. -/
def padBefore (width : Nat) (s : String) : String :=
  String.ofList (List.replicate (width - s.length) ' ') ++ s

def amountColumn (width : Nat) (x : Binary64) : String := padBefore width x.amount

/-- Lines of one text that may itself hold line ends. -/
def linesOf (s : String) : List String := (splitAtChar '\n' s.toList).map String.ofList

def warningLine (message : String) : String := "  ⚠️  " ++ message

/-- The findings on a rule. -/
def findingLines (r : Rule) (f : Findings) : List String :=
  f.errors.map (fun e => "  ❌ " ++ r.id ++ ": " ++ e)
    ++ f.warnings.map fun w => warningLine (r.id ++ ": " ++ w)

/-- The lines before anything is priced. -/
def opening (terms : Terms) (b : Book) : List String :=
  ["Loaded " ++ natText b.catalog.rules.length ++ " rules, " ++ natText b.catalog.services.length
      ++ " services (hash " ++ b.fingerprint ++ ")", "", "Validating rules..."]
    ++ (checkAll terms.rulePrefix [] b.catalog.rules).flatMap fun (r, f) => findingLines r f

def priceLine (p : Price) : String :=
  "  " ++ padBehind 32 p.ruleId ++ " " ++ amountColumn 10 p.value ++ "  "
    ++ (nonEmpty? p.billing).getD "-"

def totalLine (total : String × Binary64) : String :=
  "  " ++ padBehind 32 total.1 ++ " " ++ amountColumn 10 total.2

def serviceLine (line : Line) : String :=
  "  " ++ padBehind 24 line.title ++ " monthly " ++ amountColumn 9 line.fees.monthly
    ++ "  one-time " ++ amountColumn 9 line.fees.oneTime ++ "  annual " ++ amountColumn 10 line.year

/-- The lines of a quote. -/
def quoteLines (q : Quote) (withJournal : Bool) : List String :=
  ["", "Computed prices:"] ++ q.prices.map priceLine
    ++ ["", "Totals:"] ++ q.totals.map totalLine
    ++ ["", "Services:"] ++ q.lines.map serviceLine
    ++ ["", "Monthly fees:  " ++ q.fees.monthly.amount, "One-time fees: " ++ q.fees.oneTime.amount,
      "Annual total:  " ++ q.year.amount]
    ++ (if q.journal.warnings.isEmpty then []
      else ["", "Warnings:"] ++ q.journal.warnings.map warningLine)
    ++ (if withJournal then ["", "Trace:", q.journal.text] else [])

/-- The line above a quote. -/
def heading (file : String) (selected : Option (List Json)) : List String :=
  let services := match selected with
    | some (v :: rest) => (Json.list (v :: rest)).shown
    | _ => "all"
  ["", "--- Quote for " ++ file ++ " (services: " ++ services ++ ") ---"]

/-- The selection: the one given, else a list among the answers, which have to be an object. -/
def selection (answers : Json) (given : Option (List Json)) : Except ReportFault (Option (List Json)) :=
  match given with
  | some items => .ok (some items)
  | none =>
    match answers with
    | .object fields =>
      match lookup? "services" fields with
      | some (.list items) => .ok (some items)
      | _ => .ok none
    | _ => .error .answersNoObject

/-- The quote for a selection. -/
def quoteFor (terms : Terms) (b : Book) (answers : Json) (selected : Option (List Json)) :
    Except ReportFault Quote :=
  let priced := fun (s : Selection) =>
    match Quote.calculate b.catalog terms answers s with
    | .ok q => .ok q
    | .error h => .error (.halt h)
  match selected with
  | none => priced none
  | some items =>
    match Selection.ids? items with
    | some ids => priced (some ids)
    | none => .error .selectionItem

/-- The report on answers from a file. -/
def ofAnswers (terms : Terms) (files : CatalogFiles) (file : String) (answers : Json)
    (given : Option (List Json)) (withJournal : Bool) : Report :=
  match Book.open? files with
  | .error fault => ⟨[], some (.load fault)⟩
  | .ok b =>
    let opened := opening terms b
    match selection answers given with
    | .error fault => ⟨opened, some fault⟩
    | .ok selected =>
      let headed := opened ++ heading file selected
      match quoteFor terms b answers selected with
      | .error fault => ⟨headed, some fault⟩
      | .ok q => ⟨headed ++ quoteLines q withJournal, none⟩

/-- All lines, split where one holds a line end, with an empty last one behind the last line end. -/
def output (r : Report) : List String := r.lines.flatMap linesOf ++ [""]

end Report
end Tariff
