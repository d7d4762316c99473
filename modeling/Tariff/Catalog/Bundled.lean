/-
# The bundled catalogs

The rules and services that come with the program, as the texts of their files, and answers to try
them on.
-/

namespace Tariff
namespace Bundled

/-- The rule catalog. -/
def rules : String := String.join [
  "rule_id,service_id,name,pricing_type,billing_frequency,active,calculation_method,",
  "base_price,unit_price,unit_name,quantity_source_field,trigger_field,required_value,",
  "comparison_logic,discount_eligible,discount_percentage,expression,minimum_value,",
  "maximum_value\n",
  "bookkeeping-transactions,bookkeeping,Monthly Bookkeeping,Base Service,Monthly,true,",
  "formula,,,,,,,,false,,",
  "\"\x7b\x7bmonthlyTransactions\x7d\x7d <= 100 ? 200 : 200 + (\x7b\x7bmonthlyTransactions\x7d\x7d - 100) * 1.5\",",
  "200,\n",
  "bookkeeping-bank-accounts,bookkeeping,Bank Account Reconciliation,Add-on,Monthly,true,",
  "per-unit,$25.00,25,account,bookkeeping.bankAccounts,,,,true,50%,,,\n",
  "bookkeeping-catchup,bookkeeping,Bookkeeping Catchup/Cleanup,Add-on,One-Time Fee,true,",
  "formula,,,,,monthsBehind,0,greaterThan,false,,",
  "\x7b\x7bmonthsBehind\x7d\x7d * \x7b\x7bmonthlyBookkeepingRate\x7d\x7d,300,\n",
  "bookkeeping-catchup-rush,bookkeeping,Catchup Rush Surcharge,Add-on,One-Time Fee,true,",
  "formula,,,,,,,,false,,",
  "\x7b\x7brushCatchup\x7d\x7d == 1 ? \x7b\x7bpricingRule.bookkeeping-catchup\x7d\x7d * 0.25 : 0,",
  ",\n",
  "individual-tax-base,individual-tax,Individual Tax Return,Base Service,One-Time Fee,true,",
  "simple,$150.00,,,,,,,false,,,,\n",
  "individual-tax-schedules,individual-tax,Additional Schedules,Add-on,One-Time Fee,true,",
  "formula,,,,,,,,false,,\"max(\x7b\x7bindividualTax.scheduleCount\x7d\x7d - 1, 0) * 75\",,\n",
  "individual-tax-rentals,individual-tax,Rental Properties,Add-on,One-Time Fee,true,per-unit,",
  ",100,property,individualTax.rentalProperties,hasRentals,yes,equals,false,,,,\n",
  "individual-tax-states,individual-tax,Additional State Returns,Add-on,One-Time Fee,true,",
  "per-unit,,50,state,individualTax.additionalStates,,,,false,,,,\n",
  "advisory-retainer,advisory,Advisory Retainer,Base Service,Monthly,true,simple,",
  "\"$2,500.00\",,,,,,,false,,,,\n",
  "advisory-tax-credit,advisory,Tax Preparation Credit,Discount,Monthly,true,formula,,,,,,,,",
  "false,,\"-min(\x7b\x7bindividualTaxTotal\x7d\x7d * 0.25, 500)\",,0\n"]

/-- The service catalog. -/
def services : String := String.join [
  "service_id,title,service_order,active,total_variable_name,billing_frequency,",
  "aggregation_rules,display_name\n",
  "bookkeeping,Bookkeeping,1,true,monthlyBookkeepingTotal,Monthly,",
  "\"\x7b\"\"minimumFee\"\": 250\x7d\",Monthly Bookkeeping\n",
  "bookkeeping,Bookkeeping,1,true,bookkeepingCatchupTotal,One-Time Fee,,Bookkeeping Catchup\n",
  "individual-tax,Individual Tax,2,true,individualTaxTotal,,,Individual Tax Return\n",
  "advisory,Advisory,3,true,advisoryTotal,Monthly,",
  "\"\x7b\"\"includeTypes\"\": [\"\"Base Service\"\", \"\"Add-on\"\",",
  " \"\"Discount\"\"]\x7d\",Advisory Services\n"]

/-- A set of answers. -/
def answers : String := String.join [
  "\x7b\"services\": [\"bookkeeping\", \"individual-tax\"], \"monthlyTransactions\": 250,",
  " \"monthsBehind\": 3, \"rushCatchup\": false, \"hasRentals\": \"Yes\",",
  " \"bookkeeping\": \x7b\"bankAccounts\": 2\x7d, \"individualTax\": \x7b\"scheduleCount\": 3,",
  " \"rentalProperties\": 2, \"additionalStates\": 1\x7d\x7d\n"]

end Bundled
end Tariff
