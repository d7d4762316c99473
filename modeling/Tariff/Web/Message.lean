/-
# Requests and responses

A request has a method, a path, parameters and perhaps a JSON body. A response has a status and a JSON
body, except where the request could not be read (`422`, worded elsewhere), where the answer broke off
(`500`, a fixed text) and where the path has a neighbour (`307`, an empty text).

Standard JSON writes no infinity and no `nan`. What a successful answer does with one hangs on its form:

| form | an infinity or `nan` |
| --- | --- |
| free, its fields vary with the request (`Response.ok`) | breaks the answer off |
| fixed (`Response.fixedForm`) | is written as null |
-/

import Tariff.Json

namespace Tariff
namespace Web

structure Request where
  method : String
  path : String
  parameters : List (String × String) := []
  body : Option Json := none

inductive Body where
  | json (v : Json)
  | text (s : String)
  | unspecified

structure Response where
  status : Nat
  body : Body

namespace Response

def detail (status : Nat) (v : Json) : Response := ⟨status, .json (.object [("detail", v)])⟩

def notFound : Response := detail 404 (.text "Not Found")

def wrongMethod : Response := detail 405 (.text "Method Not Allowed")

/-- The body or a parameter is not of the form asked for. -/
def unprocessable : Response := ⟨422, .unspecified⟩

/-- The answer could not be completed. -/
def broken : Response := ⟨500, .text "Internal Server Error"⟩

/-- The path has slashes too many at its end. -/
def elsewhere : Response := ⟨307, .text ""⟩

mutual

/-- Whether every number in a value can be written as standard JSON. -/
def isWritable : Json → Bool
  | .real x => x.isFinite
  | .list items => areWritable items
  | .object fields => fieldsWritable fields
  | _ => true

def areWritable : List Json → Bool
  | [] => true
  | x :: rest => isWritable x && areWritable rest

def fieldsWritable : List (String × Json) → Bool
  | [] => true
  | (_, x) :: rest => isWritable x && fieldsWritable rest

end

mutual

/-- A value with null in the place of every number that standard JSON does not write. -/
def writable : Json → Json
  | .real x => if x.isFinite then .real x else .null
  | .list items => .list (writableItems items)
  | .object fields => .object (writableFields fields)
  | v => v

def writableItems : List Json → List Json
  | [] => []
  | x :: rest => writable x :: writableItems rest

def writableFields : List (String × Json) → List (String × Json)
  | [] => []
  | (k, x) :: rest => (k, writable x) :: writableFields rest

end

/-- A successful answer of free form; one that holds an infinity or `nan` breaks off. -/
def ok (v : Json) : Response := if isWritable v then ⟨200, .json v⟩ else broken

/-- A successful answer of fixed form. -/
def fixedForm (v : Json) : Response := ok (writable v)

end Response
end Web
end Tariff
