/-
# The book: catalogs in use

A book holds the catalogs that quotes are priced by, with their fingerprint. It is opened from two files and
reloaded from them on demand. Both files are read first. Then the catalogs are put into the book in steps, and
what one step has written stays if the next one fails.

| step | may fail |
| --- | --- |
| read both files | yes, and the book is as before |
| write the rules | no |
| write the services | no |
| take and write the fingerprint | if a whole number has too many digits |

Every quote carries the fingerprint of the book that priced it.
-/

import Tariff.Catalog.Fingerprint
import Tariff.Catalog.Load

namespace Tariff

structure Book where
  catalog : Catalog
  fingerprint : String
  deriving DecidableEq, Inhabited

namespace Book

/-- A book before its first catalogs. -/
def blank : Book := ⟨⟨[], []⟩, ""⟩

/-- Put catalogs into a book: the rules, the services, their fingerprint. -/
def setCatalogs (b : Book) (c : Catalog) : Except LoadFault Unit × Book :=
  let b := { b with catalog.rules := c.rules }
  let b := { b with catalog.services := c.services }
  match c.fingerprint? with
  | some fingerprint => (.ok (), { b with fingerprint := fingerprint })
  | none => (.error .overlong, b)

/-- Load the catalogs in two files into a book. -/
def reload (b : Book) (files : CatalogFiles) : Except LoadFault Unit × Book :=
  match files.load with
  | .ok c => b.setCatalogs c
  | .error fault => (.error fault, b)

/-- A new book of the catalogs in two files. -/
def open? (files : CatalogFiles) : Except LoadFault Book :=
  match blank.reload files with
  | (.ok _, b) => .ok b
  | (.error fault, _) => .error fault

/-- Price answers, and say by which catalogs. -/
def quote (b : Book) (terms : Terms) (answers : Json) (selection : Selection) :
    Except Halt (Quote × String) := do
  return (← Quote.calculate b.catalog terms answers selection, b.fingerprint)

end Book

/-- The two catalogs. -/
inductive CatalogKind where
  | rules | services
  deriving DecidableEq, Repr

/-- Where quotes are made: a directory with the catalog files, the terms, and a book once one has
been opened. -/
structure Office where
  directory : String
  files : CatalogFiles
  terms : Terms
  book : Option Book := none

namespace Office

/-- An office on the files of a directory, each given by its bytes if it is there. -/
def ofFiles (directory rulesPath servicesPath : String) (terms : Terms)
    (rules services : Option ByteArray) : Office where
  directory := directory
  files := ⟨⟨"pricing_rules.csv", rulesPath, rules⟩, ⟨"services.csv", servicesPath, services⟩⟩
  terms := terms

/-- Write a catalog file, or remove it. -/
def write (o : Office) (kind : CatalogKind) (content : Option ByteArray) : Office :=
  match kind with
  | .rules => { o with files.rules.content := content }
  | .services => { o with files.services.content := content }

/-- What can be done in an office. -/
inductive Action where
  /-- Open a new book. -/
  | openBook
  /-- Reload the book in use. -/
  | reload
  | write (kind : CatalogKind) (content : Option ByteArray)
  | quote (answers : Json) (selection : Selection)

/-- What comes of it. -/
inductive Reply where
  /-- The book in use after catalogs have been loaded. -/
  | loaded (b : Book)
  | fault (f : LoadFault)
  | written
  | quoted (q : Quote) (fingerprint : String)
  | halted (h : Halt)
  /-- There is no book to reload or to price by. -/
  | noBook

/-- The office after an action, and the reply to it. -/
def act (o : Office) : Action → Office × Reply
  | .openBook =>
    match Book.open? o.files with
    | .ok b => ({ o with book := some b }, .loaded b)
    | .error fault => (o, .fault fault)
  | .reload =>
    match o.book with
    | none => (o, .noBook)
    | some b =>
      match b.reload o.files with
      | (.ok _, b) => ({ o with book := some b }, .loaded b)
      | (.error fault, b) => ({ o with book := some b }, .fault fault)
  | .write kind content => (o.write kind content, .written)
  | .quote answers selection =>
    match o.book with
    | none => (o, .noBook)
    | some b =>
      match b.quote o.terms answers selection with
      | .ok (q, fingerprint) => (o, .quoted q fingerprint)
      | .error h => (o, .halted h)

/-- The office after several actions. -/
def run (o : Office) (actions : List Action) : Office := actions.foldl (fun o a => (o.act a).1) o

end Office
end Tariff
