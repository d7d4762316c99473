import Tariff.Main
import Tariff.Proofs.Amounts
import Tariff.Proofs.Catalog.Faults
import Tariff.Proofs.Catalog.Fingerprinting
import Tariff.Proofs.Catalog.Numbering
import Tariff.Proofs.Catalog.References
import Tariff.Proofs.Catalog.Retention
import Tariff.Proofs.Catalog.Validity
import Tariff.Proofs.Formula.Admission
import Tariff.Proofs.Formula.Descent
import Tariff.Proofs.Formula.Evaluation
import Tariff.Proofs.Formula.Literals
import Tariff.Proofs.Formula.Placeholders
import Tariff.Proofs.Formula.Positions
import Tariff.Proofs.Formula.Template
import Tariff.Proofs.Formula.Unfilling
import Tariff.Proofs.Number.Nearest
import Tariff.Proofs.Operators
import Tariff.Proofs.Pricing.Bookkeeping
import Tariff.Proofs.Pricing.Bounds
import Tariff.Proofs.Pricing.Dependence
import Tariff.Proofs.Pricing.Failure
import Tariff.Proofs.Pricing.Fees
import Tariff.Proofs.Pricing.FilterForms
import Tariff.Proofs.Pricing.Finite
import Tariff.Proofs.Pricing.Isolation
import Tariff.Proofs.Pricing.Minimums
import Tariff.Proofs.Pricing.Notes
import Tariff.Proofs.Pricing.Omission
import Tariff.Proofs.Pricing.Quantities
import Tariff.Proofs.Pricing.Register
import Tariff.Proofs.Pricing.Splitting
import Tariff.Proofs.Reloading
import Tariff.Proofs.Web.OwnRules
import Tariff.Proofs.Web.Predictions
import Tariff.Web.Routes
import Tariff.Web.Target
