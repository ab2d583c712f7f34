import Catalog.Json.Printer
import Catalog.Schema.Basic

/-!
What a schema finds wrong with a value.
-/

namespace Catalog

inductive Issue where
  | wrongType (v : Json) (names : List TypeName)
  | notConst (c : Json)
  | notInEnum (v : Json) (options : List Json)
  | outOfBounds (v : Json) (b : Bound) (limit : Number)
  | shorter (v : Json) (n : Nat)
  | longer (v : Json) (n : Nat)
  | fewerItems (v : Json) (n : Nat)
  | moreItems (v : Json) (n : Nat)
  | fewerMembers (v : Json) (n : Nat)
  | moreMembers (v : Json) (n : Nat)
  | repeatedItems (v : Json)
  | missing (name : String)
  | noMatch (v : Json) (pattern : String)
  | unexpected (names : List String)
  | refused (v : Json)
  | noneContained (v : Json)
  | noneOf (v : Json) (keyword : String)
  | manyOf (v : Json)
  | excluded (schema v : Json)
  | unevaluatedItems (items : List Json)
  | unevaluatedMembers (names : List String)
  /-- References lead back to the same value without end. -/
  | endless (pointer : String)

namespace Issue

/-- A count with its noun, which stands in the singular after one. -/
def count (n : Nat) (one many : String) : String :=
  toString n ++ " " ++ if n = 1 then one else many

/-- The options of an enumeration, of which not more than three are listed. -/
def options (vs : List Json) : String :=
  match vs.map Json.compact with
  | [] => ""
  | [a] => a
  | [a, b] => a ++ " or " ++ b
  | [a, b, c] => a ++ ", " ++ b ++ " or " ++ c
  | a :: b :: rest => a ++ ", " ++ b ++ " or " ++ toString rest.length ++ " other candidates"

/-- A number beyond its limit, in words. -/
def beyond : Bound → String
  | .minimum => "less than the minimum"
  | .maximum => "greater than the maximum"
  | .exclusiveMinimum => "less than or equal to the minimum"
  | .exclusiveMaximum => "greater than or equal to the maximum"

/-- What there is too much of, each in quotes. -/
def unexpectedList (parts : List String) : String :=
  "(" ++ ", ".intercalate (parts.map fun p => "'" ++ p ++ "'")
    ++ (if parts.length = 1 then " was" else " were") ++ " unexpected)"

def message : Issue → String
  | .wrongType v [t] => v.compact ++ " is not of type \"" ++ t.name ++ "\""
  | .wrongType v ts =>
    v.compact ++ " is not of types " ++ ", ".intercalate (ts.map fun t => "\"" ++ t.name ++ "\"")
  | .notConst c => c.compact ++ " was expected"
  | .notInEnum v vs => v.compact ++ " is not one of " ++ options vs
  | .outOfBounds v b limit =>
    v.compact ++ " is " ++ beyond b ++ " of " ++ (Json.number limit).compact
  | .shorter v n => v.compact ++ " is shorter than " ++ count n "character" "characters"
  | .longer v n => v.compact ++ " is longer than " ++ count n "character" "characters"
  | .fewerItems v n => v.compact ++ " has less than " ++ count n "item" "items"
  | .moreItems v n => v.compact ++ " has more than " ++ count n "item" "items"
  | .fewerMembers v n => v.compact ++ " has less than " ++ count n "property" "properties"
  | .moreMembers v n => v.compact ++ " has more than " ++ count n "property" "properties"
  | .repeatedItems v => v.compact ++ " has non-unique elements"
  | .missing name => Json.quoted name ++ " is a required property"
  | .noMatch v p => v.compact ++ " does not match \"" ++ p ++ "\""
  | .unexpected names => "Additional properties are not allowed " ++ unexpectedList names
  | .refused v => "False schema does not allow " ++ v.compact
  | .noneContained v => "None of " ++ v.compact ++ " are valid under the given schema"
  | .noneOf v keyword =>
    v.compact ++ " is not valid under any of the schemas listed in the '" ++ keyword ++ "' keyword"
  | .manyOf v =>
    v.compact ++ " is valid under more than one of the schemas listed in the 'oneOf' keyword"
  | .excluded s v => s.compact ++ " is not allowed for " ++ v.compact
  | .unevaluatedItems vs =>
    "Unevaluated items are not allowed " ++ unexpectedList (vs.map Json.compact)
  | .unevaluatedMembers names => "Unevaluated properties are not allowed " ++ unexpectedList names
  | .endless p => "the reference " ++ Json.quoted p ++ " leads back to itself"

end Issue
end Catalog
