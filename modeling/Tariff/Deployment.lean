/-
# Deployment

Where the catalogs are, what the terms are and where clients are served. Environment variables
override the defaults; an empty variable counts as not set.

| variable | sets |
| --- | --- |
| `QUOTE_ENGINE_DATA_DIR` | the directory of the catalogs, unless one is given |
| `QUOTE_ENGINE_RECURRING_RATE_FALLBACK` | the fallback of the recurring rate |
| `QUOTE_ENGINE_DISCOUNT_SERVICE` | the service that discounts others |
| `QUOTE_ENGINE_HOST`, `QUOTE_ENGINE_PORT` | the address of the server |
-/

import Tariff.Answers
import Tariff.Pricing.Rule
import Tariff.Pricing.Terms

namespace Tariff

/-! ### Paths -/

namespace Path

/-- The root of a path: one slash, two if there are exactly two in front, or none. -/
def root (path : List Char) : String :=
  match (path.takeWhile (· = '/')).length with
  | 0 => ""
  | 2 => "//"
  | _ => "/"

/-- The parts of a path between slashes, without empty ones and single points. -/
def parts (path : List Char) : List String :=
  ((splitAtChar '/' path).map String.ofList).filter fun part => part ≠ "" && part ≠ "."

def text (root : String) (parts : List String) : String :=
  if root.isEmpty && parts.isEmpty then "." else root ++ "/".intercalate parts

/-- A path in its simplest form. -/
def normalise (path : String) : String := text (root path.toList) (parts path.toList)

/-- A file in a directory. -/
def join (directory file : String) : String :=
  text (root directory.toList) (parts directory.toList ++ parts file.toList)

end Path

structure Deployment where
  dataDirectory : String
  rulesPath : String
  servicesPath : String
  terms : Terms := {}
  host : String := "0.0.0.0"
  port : Int := 8000

namespace Deployment

/-- Why an environment cannot be used. -/
inductive Fault where
  | badNumber (name text : String)
  deriving DecidableEq, Repr

/-- The variables that are looked at. -/
def variableNames : List String :=
  ["QUOTE_ENGINE_DATA_DIR", "QUOTE_ENGINE_RECURRING_RATE_FALLBACK", "QUOTE_ENGINE_DISCOUNT_SERVICE",
    "QUOTE_ENGINE_HOST", "QUOTE_ENGINE_PORT"]

/-- A deployment on a directory. -/
def onDirectory (directory : String) : Deployment where
  dataDirectory := Path.normalise directory
  rulesPath := Path.join directory "pricing_rules.csv"
  servicesPath := Path.join directory "services.csv"

/-- Read a variable, if it is set, by a reader that may refuse it. -/
def read {α : Type} (env : List (String × String)) (name : String) (reader : String → Option α)
    (default : α) : Except Fault α :=
  match nonEmpty? (lookup? name env) with
  | none => .ok default
  | some text =>
    match reader text with
    | some x => .ok x
    | none => .error (.badNumber name text)

/-- The deployment of an environment; `bundled` is the directory of the catalogs that come with the
program. -/
def ofEnvironment (bundled : String) (given : Option String) (env : List (String × String)) :
    Except Fault Deployment := do
  let directory := ((nonEmpty? given).or (nonEmpty? (lookup? "QUOTE_ENGINE_DATA_DIR" env))).getD bundled
  let base := onDirectory directory
  let fallback ← read env "QUOTE_ENGINE_RECURRING_RATE_FALLBACK" Binary64.parse? base.terms.rateFallback
  let discount ← read env "QUOTE_ENGINE_DISCOUNT_SERVICE" (some ∘ trim) base.terms.discountService
  let host ← read env "QUOTE_ENGINE_HOST" (some ∘ trim) base.host
  let port ← read env "QUOTE_ENGINE_PORT" Numeral.int? base.port
  return { base with
    terms := { base.terms with rateFallback := fallback, discountService := discount }
    host := host
    port := port }

end Deployment
end Tariff
