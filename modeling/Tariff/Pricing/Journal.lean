/-
# Journal

A calculation keeps a journal: entries for what was done, in order, and warnings, each once. Both only
grow.
-/

import Tariff.Json

namespace Tariff

structure Entry where
  step : String
  description : String
  value : Option String := none
  ruleId : Option String := none
  deriving DecidableEq, Inhabited, Repr

structure Journal where
  entries : List Entry := []
  warnings : List String := []
  deriving DecidableEq, Inhabited, Repr

namespace Journal

def record (j : Journal) (es : List Entry) : Journal := { j with entries := j.entries ++ es }

/-- Add a warning that is not there yet. -/
def warn (j : Journal) (warning : String) : Journal :=
  if j.warnings.contains warning then j else { j with warnings := j.warnings ++ [warning] }

/-- The line of an entry. -/
def line (e : Entry) : String :=
  let tag := match e.ruleId with
    | some id => if id.isEmpty then "" else "[" ++ id ++ "] "
    | none => ""
  let value := match e.value with
    | some v => " = " ++ v
    | none => ""
  "• " ++ tag ++ e.step ++ ": " ++ e.description ++ value

/-- All entries as text, a line each. -/
def text (j : Journal) : String := "\n".intercalate (j.entries.map line)

/-- One journal begins with another. -/
def Extends (j k : Journal) : Prop := j.entries <+: k.entries ∧ j.warnings <+: k.warnings

theorem extends_refl (j : Journal) : j.Extends j := ⟨List.prefix_rfl, List.prefix_rfl⟩

/-- What was added in two turns was added: so one may look at a pass step by step. -/
theorem Extends.trans {i j k : Journal} (h : i.Extends j) (h' : j.Extends k) : i.Extends k :=
  ⟨h.1.trans h'.1, h.2.trans h'.2⟩

/-- Entries are added at the end, behind everything that was recorded before. -/
theorem extends_record (j : Journal) (es : List Entry) : j.Extends (j.record es) :=
  ⟨List.prefix_append _ _, List.prefix_rfl⟩

/-- A warning is added at the end as well. -/
theorem extends_warn (j : Journal) (warning : String) : j.Extends (j.warn warning) := by
  unfold warn
  split
  · exact j.extends_refl
  · exact ⟨List.prefix_rfl, List.prefix_append _ _⟩

end Journal
end Tariff
