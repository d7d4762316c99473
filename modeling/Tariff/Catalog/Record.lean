/-
# Rules and services as records

Every field of a rule or a service under its catalog name, for fingerprints and for clients.
-/

import Tariff.Pricing.Service

namespace Tariff

namespace Json

def ofReal? : Option Binary64 → Json
  | some x => real x
  | none => null

end Json

def Rule.record (r : Rule) : Json :=
  .object [
    ("rule_id", .text r.id),
    ("expression", .text r.formula),
    ("minimum_value", .ofReal? r.lowest),
    ("maximum_value", .ofReal? r.highest),
    ("service_id", .ofText? r.service),
    ("name", .text r.title),
    ("pricing_type", .ofText? r.category),
    ("billing_frequency", .ofText? r.billing),
    ("active", .bool r.isActive),
    ("calculation_method", .text r.method),
    ("base_price", .real r.basePrice),
    ("unit_price", .ofReal? r.unitPrice),
    ("unit_name", .ofText? r.unitName),
    ("quantity_source_field", .ofText? r.quantityField),
    ("trigger_field", .ofText? r.triggerField),
    ("required_value", .ofText? r.required),
    ("comparison_logic", .ofText? r.operator),
    ("discount_eligible", .bool r.isDiscountable),
    ("discount_percentage", .real r.discount)]

def Filter.record (f : Filter) : Json :=
  .object [
    ("include_types", .ofTexts f.includeTypes.names),
    ("exclude_types", .ofTexts f.excludeTypes.names),
    ("include_billing_frequencies", .ofTexts f.includeBillings.names),
    ("exclude_billing_frequencies", .ofTexts f.excludeBillings.names),
    ("minimum_fee", .real f.minimumFee)]

/-- A service with its filter in a given form. -/
def Service.recordWith (filterForm : Filter → Json) (s : Service) : Json :=
  .object [
    ("service_id", .text s.id),
    ("total_variable_name", .ofText? s.total),
    ("billing_frequency", .ofText? s.billing),
    ("aggregation_rules", (s.filter.map filterForm).getD .null),
    ("title", .text s.title),
    ("display_name", .ofText? s.displayName),
    ("service_order", .int s.order),
    ("active", .bool s.isActive)]

def Service.record (s : Service) : Json := s.recordWith Filter.record

end Tariff
