/-
# Request targets

The target of a request is a path, perhaps with a query behind a question mark and a fragment behind a
number sign, which is left out. A query is pairs of key and value divided by ampersands; of several
values of a key the last counts. A percent sign and two hexadecimal digits stand for a byte of UTF-8; in a
query a plus sign stands for a blank.

| target | path |
| --- | --- |
| `/a/b?k=v`, `a/b#f`, `/x/../a/./b` | `/a/b` |
| `//host/a/b` | `/a/b` |
| `/a%2Fb` | `/a/b` |
| `/%2E%2E` | `/..` |

Control characters of ASCII have to be written as bytes: a target that holds one is none.
-/

import Tariff.Answers
import Tariff.Json.Reader
import Tariff.Text.Utf8
import Tariff.Web.Message

namespace Tariff
namespace Web
namespace Target

/-- The bytes of a text, percent signs resolved. -/
def bytes : List Char → List UInt8
  | '%' :: a :: b :: rest =>
    match Json.Token.hexValue? a, Json.Token.hexValue? b with
    | some h, some l => UInt8.ofNat (16 * h + l) :: bytes rest
    | _, _ => 37 :: bytes (a :: b :: rest)
  | c :: rest => c.toString.toUTF8.toList ++ bytes rest
  | [] => []
termination_by cs => cs.length

/-- A text with percent signs resolved. -/
def decode (cs : List Char) : String := String.ofList (Utf8.decode (bytes cs))

/-! ### Queries -/

/-- A key or a value. -/
def queryPart (cs : List Char) : String := decode (cs.map fun c => if c = '+' then ' ' else c)

/-- The pairs of a query, empty ones left out. -/
def queryPairs (query : List Char) : List (String × String) :=
  ((splitAtChar '&' query).filter fun pair => !pair.isEmpty).map fun pair =>
    (queryPart (pair.takeWhile (· ≠ '=')), queryPart ((pair.dropWhile (· ≠ '=')).drop 1))

/-- The value of each key. -/
def lastValues (pairs : List (String × String)) : List (String × String) :=
  pairs.foldl (fun seen (k, v) => assign k v seen) []

/-! ### Paths -/

/-- The rest behind the name of a host, if there is one. -/
def withoutHost : List Char → List Char
  | '/' :: '/' :: rest => rest.dropWhile fun c => c ≠ '/' && c ≠ '?'
  | cs => cs

/-- Follow the parts of a path, `.` staying and `..` going back, but not in front of the first part;
`passed` has the last part first. -/
def follow (passed : List (List Char)) : List (List Char) → List (List Char)
  | [] => passed.reverse
  | ['.'] :: rest => follow passed rest
  | ['.', '.'] :: rest => follow (if passed = [[]] then passed else passed.drop 1) rest
  | part :: rest => follow (part :: passed) rest

/-- A path from the root without `.` and `..`. -/
def rooted (cs : List Char) : List Char :=
  match ['/'].intercalate (follow [] (splitAtChar '/' ('/' :: cs.dropWhile (· = '/')))) with
  | [] => ['/']
  | path => path

/-- The path and the query of a target. -/
def parse? (target : String) : Option (String × List Char) :=
  let cs := target.toList
  if cs.any fun c => c < ' ' || c = '\x7f' then none
  else
    let rest := withoutHost (cs.takeWhile (· ≠ '#'))
    some (decode (rooted (rest.takeWhile (· ≠ '?'))), (rest.dropWhile (· ≠ '?')).drop 1)

end Target

/-- The request for a target. Parameters that are given take the place of its query. -/
def Request.ofTarget? (method target : String) (given : Option (List (String × String)))
    (body : Option Json) : Option Request := do
  let (path, query) ← Target.parse? target
  let pairs := given.getD (Target.queryPairs query)
  return ⟨method.toUpper, path, Target.lastValues pairs, body⟩

end Web
end Tariff
