import Catalog.KeyMap
import Catalog.Request.Naming

/-!
Requests to create a database with some properties.
-/

namespace Catalog

structure CreateDatabase where
  name : String
  properties : KeyMap String
  name_ne : name ≠ ""
  keys_ne : properties.contains "" = false
deriving DecidableEq

namespace CreateDatabase

/-- The name is checked before the properties. -/
def new (rules : NamingRules) (name : String) (properties : KeyMap String) :
    Except Violation CreateDatabase :=
  match hn : rules.breach? name with
  | some r => .error ⟨.ofKey "name", r⟩
  | none =>
    if hk : properties.startsEmpty = true then .error ⟨.ofKey "properties", .emptyKey⟩
    else .ok ⟨name, properties, NamingRules.ne_empty_of_breach?_eq_none hn,
      KeyMap.contains_empty_eq_false hk⟩

def encode (r : CreateDatabase) : Json :=
  .object [("name", .string r.name), ("properties", .ofTexts r.properties)]

end CreateDatabase
end Catalog
