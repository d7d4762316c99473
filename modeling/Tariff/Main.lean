/-
# Command line

`tariff [FILE] [--services ID ...] [--trace]` reports on a JSON file of answers.

| argument | effect |
| --- | --- |
| `FILE` | the answers; without it those that come with the program |
| `--services ID ...` | only these services are priced |
| `--trace` | the journal follows the quote |

The catalogs are read from the data directory of the deployment; without one those that come with the
program are used.
-/

import Tariff.Catalog.Bundled
import Tariff.Deployment
import Tariff.Report

namespace Tariff
namespace CommandLine

/-- What to report on, as far as the arguments have been read. -/
structure Options where
  file : Option String := none
  services : Option (List String) := none
  withJournal : Bool := false
  /-- Whether the next argument may be a service id. -/
  listing : Bool := false
  deriving DecidableEq, Repr

namespace Options

/-- The next argument; `none` if there is no place for it. -/
def next (o : Options) (arg : String) : Option Options :=
  if arg = "--trace" then some { o with withJournal := true, listing := false }
  else if arg = "--services" then some { o with services := some [], listing := true }
  else if "--".toList.isPrefixOf arg.toList then none
  else
    match o.listing, o.services, o.file with
    | true, some ids, _ => some { o with services := some (ids ++ [arg]) }
    | _, _, none => some { o with file := some arg }
    | _, _, some _ => none

def read (args : List String) : Option Options := args.foldlM next {}

example : read ["a.json", "--services", "tax", "payroll", "--trace"] =
    some ⟨some "a.json", some ["tax", "payroll"], true, false⟩ := by decide

end Options

def usage : String := "usage: tariff [FILE] [--services ID ...] [--trace]"

/-- What the answers of the program itself are reported under. -/
def bundledName : String := "sample answers"

/-- The directory that stands for the catalogs of the program itself. -/
def bundledDirectory : String := "data"

/-- The last part of a path. -/
def fileName (path : String) : String := ((Path.parts path.toList).getLast?).getD path

def faultText : ReportFault → String
  | .load fault => fault.message?.getD "The catalogs cannot be loaded"
  | .answersNoObject => "The answers are no object"
  | .selectionItem => "The selection holds a container"
  | .halt (.badIndex key) => "A list has no position " ++ quoted key
  | .halt (.unroundable x) => "The amount " ++ x.text ++ " cannot be rounded to cents"

/-- The bytes of a file that can be read. -/
def bytes? (path : String) : IO (Option ByteArray) := do
  try return some (← IO.FS.readBinFile path) catch _ => return none

/-- The environment, as far as it matters. -/
def environment : IO (List (String × String)) :=
  Deployment.variableNames.filterMapM fun name => do return (← IO.getEnv name).map (name, ·)

/-- The catalog files of a deployment. -/
def files (d : Deployment) : IO CatalogFiles := do
  let own := d.dataDirectory = bundledDirectory
  let content := fun (path bundled : String) => do
    return (← bytes? path).or (if own then some bundled.toUTF8 else none)
  let rules ← content d.rulesPath Bundled.rules
  let services ← content d.servicesPath Bundled.services
  return (Office.ofFiles d.dataDirectory d.rulesPath d.servicesPath d.terms rules services).files

/-- The answers and the name to report them under. -/
def answers? (o : Options) : IO (Option Json × String) := do
  match o.file with
  | none => return (Json.parse? Bundled.answers, bundledName)
  | some path =>
    return (((← bytes? path).bind String.fromUTF8?).bind Json.parse?, fileName path)

/-- Complain, and say that the run failed. -/
def refuse (message : String) : IO UInt32 := do
  IO.eprintln message
  return 1

def report (o : Options) : IO UInt32 := do
  match Deployment.ofEnvironment bundledDirectory none (← environment) with
  | .error (.badNumber name _) => refuse (name ++ " is no number")
  | .ok d =>
    match ← answers? o with
    | (none, name) => refuse (name ++ " cannot be read as JSON")
    | (some answers, name) =>
      let given := o.services.map fun ids => ids.map Json.text
      let r := Report.ofAnswers d.terms (← files d) name answers given o.withJournal
      r.lines.forM fun line => IO.println line
      match r.fault with
      | some fault => refuse (faultText fault)
      | none => return 0

end CommandLine
end Tariff

def main (args : List String) : IO UInt32 :=
  match Tariff.CommandLine.Options.read args with
  | some o => Tariff.CommandLine.report o
  | none => Tariff.CommandLine.refuse Tariff.CommandLine.usage
