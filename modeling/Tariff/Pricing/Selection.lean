/-
# Which rules apply

A rule applies if it is active, its service is selected, and its trigger holds. What decides is
written down as a reason. Without a selection every service counts as selected, and a rule without a
service is never refused for that.
-/

import Tariff.Pricing.Rule
import Tariff.Trigger

namespace Tariff

/-- The selected services, or no selection at all. -/
abbrev Selection := Option (List String)

namespace Selection

/-- The service ids among the items of a selection, which holds no container; an item that is no text
selects nothing. -/
def ids? : List Json → Option (List String)
  | [] => some []
  | .list _ :: _ => none
  | .object _ :: _ => none
  | .text s :: rest => (ids? rest).map (s :: ·)
  | _ :: rest => ids? rest

def has (s : Selection) (service : String) : Bool :=
  match s with
  | some services => services.contains service
  | none => true

/-- Whether a service was selected by name. -/
def names (s : Selection) (service : String) : Bool :=
  match s with
  | some services => services.contains service
  | none => false

end Selection

/-- Whether a rule applies, and why. -/
structure Verdict where
  applies : Bool
  reason : String
  deriving DecidableEq, Repr

namespace Rule

/-- The part of a reason that names the trigger. -/
def triggerText (r : Rule) (field operator : String) : String :=
  field ++ " " ++ operator ++ " '" ++ r.required.getD "" ++ "'"

/-- The reason for a service that decides about the rule: whether it is selected. -/
def serviceCheck (r : Rule) (selection : Selection) : Option Verdict :=
  match selection, nonEmpty? r.service with
  | some services, some service =>
    some (if services.contains service then ⟨true, "service=" ++ service⟩
      else ⟨false, "service " ++ service ++ " not selected"⟩)
  | _, _ => none

/-- The reason for a trigger: whether it holds. -/
def triggerCheck (r : Rule) (answers : Json) : Except Halt (Option Verdict) :=
  match r.trigger? with
  | none => .ok none
  | some (field, operator) => do
    let met ← Trigger.holds answers field (r.required.getD "") operator
    return some (if met then ⟨true, r.triggerText field operator⟩
      else ⟨false, r.triggerText field operator ++ " not met"⟩)

/-- Whether a rule applies to answers. -/
def verdict (r : Rule) (selection : Selection) (answers : Json) : Except Halt Verdict :=
  if !r.isActive then .ok ⟨false, "inactive"⟩
  else
    match r.serviceCheck selection with
    | some ⟨false, reason⟩ => .ok ⟨false, reason⟩
    | byService => do
      match ← r.triggerCheck answers with
      | some ⟨false, reason⟩ => return ⟨false, reason⟩
      | byTrigger =>
        let reasons := byService.toList ++ byTrigger.toList
        return ⟨true,
          if reasons.isEmpty then "default" else ", ".intercalate (reasons.map Verdict.reason)⟩

end Rule
end Tariff
