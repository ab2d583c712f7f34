import Catalog.Json.Basic
import Catalog.Schema.Pattern

/-!
JSON schemas. An object schema is the list of what its keywords ask for, in the order in which they
are checked; keywords that work together are one rule. Schemas elsewhere in a document are named by
pointers.
-/

namespace Catalog

/-- The type names of JSON Schema, in increasing order. -/
inductive TypeName where
  | array
  | boolean
  | integer
  | null
  | number
  | object
  | string
deriving DecidableEq

namespace TypeName

def all : List TypeName :=
  [.array, .boolean, .integer, .null, .number, .object, .string]

def name : TypeName → String
  | .array => "array"
  | .boolean => "boolean"
  | .integer => "integer"
  | .null => "null"
  | .number => "number"
  | .object => "object"
  | .string => "string"

def ofName? (s : String) : Option TypeName :=
  all.find? (·.name = s)

/-- The value is of the type. An integer is any number without a fraction. -/
def admits (t : TypeName) (v : Json) : Bool :=
  match t, v with
  | .array, .array _ => true
  | .boolean, .bool _ => true
  | .integer, .number n => n.isWhole
  | .null, .null => true
  | .number, .number _ => true
  | .object, .object _ => true
  | .string, .string _ => true
  | _, _ => false

end TypeName

/-- How a number is bounded. -/
inductive Bound where
  | minimum
  | maximum
  | exclusiveMinimum
  | exclusiveMaximum

/-- The number `n` is on the right side of the limit. -/
def Bound.holds (limit n : Number) : Bound → Bool
  | .minimum => limit.le n
  | .maximum => n.le limit
  | .exclusiveMinimum => !n.le limit
  | .exclusiveMaximum => !limit.le n

/-- What a keyword asks of a value without looking at schemas for its parts. -/
inductive Assertion where
  | type (names : List TypeName)
  | const (v : Json)
  | enum (options : List Json)
  | bound (b : Bound) (limit : Number)
  | minLength (n : Nat)
  | maxLength (n : Nat)
  | minItems (n : Nat)
  | maxItems (n : Nat)
  | minProperties (n : Nat)
  | maxProperties (n : Nat)
  | uniqueItems
  /-- With a member of the one name, those of the others must be there. -/
  | dependentRequired (names : List (String × List String))
  | required (names : List String)
  | pattern (p : Schema.Pattern)

/-- A schema, where `known` are schemas by the names of members, and `matching` by patterns for
them. -/
inductive Schema where
  | anything
  | nothing
  | every (rules : List Schema)
  | assert (a : Assertion)
  | properties (known : List (String × Schema))
  | patternProperties (matching : List (Schema.Pattern × Schema))
  /-- The known members, and `rest` for the members that are neither known nor match. -/
  | others (known : List (String × Schema)) (matching : List (Schema.Pattern × Schema))
      (rest : Schema)
  /-- The known members, and no others. A single required name is looked for among the known
  ones. -/
  | closed (known : List (String × Schema)) (matching : List (Schema.Pattern × Schema))
      (single : Option String)
  /-- No members at all. -/
  | memberless
  /-- The names of an object's members as texts. If no name is allowed, the object itself is
  refused. -/
  | propertyNames (s : Schema)
  /-- The items of an array from an index on. -/
  | items (start : Nat) (s : Schema)
  | prefixItems (ss : List Schema)
  /-- How many items keep the schema is bounded. -/
  | contains (s : Schema) (least : Nat) (most : Option Nat)
  | dependentSchemas (known : List (String × Schema))
  | allOf (ss : List Schema)
  | anyOf (ss : List Schema)
  | oneOf (ss : List Schema)
  /-- The schema is kept as it is written, for the message. -/
  | not (source : Json) (s : Schema)
  | conditional (condition consequence alternative : Schema)
  | ref (pointer : String)
  /-- The items that no rule `beside` this one evaluates. -/
  | unevaluatedItems (beside : List Schema) (s : Schema)
  /-- The members that no rule `beside` this one evaluates. -/
  | unevaluatedProperties (beside : List Schema) (s : Schema)

end Catalog
