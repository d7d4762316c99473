/-
# Fingerprints

The fingerprint of a catalog is the beginning of the SHA-256 digest of its canonical JSON text, so it
changes with any field of any rule or service and with their order. Only the places of services are whole
numbers without a bound, and one of more digits than `Numeral.longest` has no text.
-/

import Tariff.Catalog.Record
import Tariff.Digest
import Tariff.Json.Canonical
import Tariff.Pricing.Quote

namespace Tariff
namespace Catalog

/-- The text that a fingerprint is taken of. -/
def canonical (c : Catalog) : String :=
  (Json.object [
    ("rules", .list (c.rules.map Rule.record)),
    ("services", .list (c.services.map Service.record))]).canonical

/-- Twelve hexadecimal digits. -/
def fingerprint (c : Catalog) : String :=
  String.ofList ((Digest.sha256 c.canonical.toUTF8.toList).toList.take 12)

/-- The fingerprint, if the canonical text can be written: a whole number with too many digits cannot. -/
def fingerprint? (c : Catalog) : Option String :=
  if c.services.all fun s => digitCount s.order.natAbs ≤ Numeral.longest then some c.fingerprint else none

end Catalog
end Tariff
