import Catalog.Request.Error

/-!
Naming rules for databases. Without limits they accept every name that is not empty.
-/

namespace Catalog

structure NamingRules where
  /-- The longest name, in characters. -/
  maxLength : Option Nat := none
  forbidden : List Char := []
deriving DecidableEq

namespace NamingRules

/-- The first rule that `name` breaks. -/
def breach? (rules : NamingRules) (name : String) : Option Reason :=
  if name = "" then some .empty
  else if rules.maxLength.any (· < name.length) then
    some (.tooLong name.length (rules.maxLength.getD 0))
  else (name.toList.find? (rules.forbidden.contains ·)).map .forbidden

def check (rules : NamingRules) (field : Field) (name : String) : Except Violation Unit :=
  match rules.breach? name with
  | some r => .error ⟨field, r⟩
  | none => .ok ()

theorem ne_empty_of_breach?_eq_none {rules : NamingRules} {name : String}
    (h : rules.breach? name = none) : name ≠ "" := by
  intro he
  simp [breach?, he] at h

end NamingRules
end Catalog
