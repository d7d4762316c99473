/-
# Routes

A path has routes; each route answers one method and refuses others. A rule id is one part of a path, so
`GET` on the paths of the actions looks for rules of those names. One line end at the end of a path is
overlooked, except in a rule id. Where a path has no route, but has one without the slashes at its end, the
client is sent there, whatever its method.

| request | response |
| --- | --- |
| `GET /quote` | 405 |
| `GET /api/rules/test` | the rule `test`, or 404 |
| `GET /quote/`, `POST /api/rules//` | 307 |
| `HEAD /quote` | 405 with an empty text |
-/

import Tariff.Web.Handlers

namespace Tariff
namespace Web

/-- The routes that a path may take. -/
inductive Route where
  | welcome | status | quote | tryFormula
  | listRules | showRule (id : String) | checkRule | tryRule | reload
  deriving DecidableEq, Repr

namespace Route

def method : Route → String
  | welcome | status | listRules | showRule _ => "GET"
  | quote | tryFormula | checkRule | tryRule | reload => "POST"

/-- The beginning of the path of a single rule. -/
def rulePath : List Char := "/api/rules/".toList

/-- The route of a path without parameters. -/
def ofFixedPath? (path : String) : Option Route :=
  match path with
  | "/" => some welcome
  | "/system/status" => some status
  | "/quote" => some quote
  | "/expressions/evaluate" => some tryFormula
  | "/api/rules" => some listRules
  | "/api/rules/validate" => some checkRule
  | "/api/rules/test" => some tryRule
  | "/api/rules/reload" => some reload
  | _ => none

/-- A path without one line end at its end. -/
def withoutLineEnd (path : String) : String :=
  match path.toList.reverse with
  | '\n' :: front => String.ofList front.reverse
  | _ => path

/-- The rule id in a path, if it is that of a single rule. -/
def ruleId? (path : String) : Option String :=
  let id := path.toList.drop rulePath.length
  if rulePath.isPrefixOf path.toList && !id.isEmpty && !id.contains '/' then some (String.ofList id)
  else none

/-- The routes of a path. -/
def ofPath (path : String) : List Route :=
  ((ruleId? path).map showRule).toList ++ (ofFixedPath? (withoutLineEnd path)).toList

def withoutSlashes (path : String) : String :=
  String.ofList (path.toList.reverse.dropWhile (· = '/')).reverse

/-- Whether a path only has slashes too many. -/
def isElsewhere (path : String) : Bool := !(ofPath (withoutSlashes path)).isEmpty

end Route

/-- Answer on a route by a book. -/
def answer (o : Office) (b : Book) (r : Request) : Route → Office × Response
  | .welcome => (o, welcome)
  | .status => (o, status o.directory b)
  | .quote => (o, withForm (quoteForm r.body) (quote o.terms b))
  | .tryFormula => (o, withForm (formulaForm r.body) (tryFormula o.terms b))
  | .listRules => (o, listRules b r.parameters)
  | .showRule id => (o, showRule b id)
  | .checkRule => (o, withForm (r.body.bind ruleForm) (checkRule o.terms b))
  | .tryRule => (o, withForm (trialForm r.body) (tryRule o.terms b))
  | .reload => reload o

/-- The response to a request and the office after it, the body not yet left out. -/
def respondInFull (o : Office) (r : Request) : Office × Response :=
  match Route.ofPath r.path with
  | [] => (o, if Route.isElsewhere r.path then .elsewhere else .notFound)
  | routes =>
    match routes.find? fun route => route.method = r.method, o.book with
    | some route, some b => answer o b r route
    | some _, none => (o, .broken)
    | none, _ => (o, .wrongMethod)

/-- The response to a request and the office after it. An office without a book answers nothing, and
`HEAD` asks for no body. -/
def respond (o : Office) (r : Request) : Office × Response :=
  let (o, response) := respondInFull o r
  (o, if r.method = "HEAD" then { response with body := .text "" } else response)

end Web
end Tariff
