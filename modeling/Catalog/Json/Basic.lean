import Catalog.Json.Number
import Catalog.KeyMap

/-!
JSON values. An object keeps its members as they are written, in order and with repeats; `collapse`
gives the value that they stand for, where each object has its keys in order and of repeated keys
the last.
-/

namespace Catalog

inductive Json where
  | null
  | bool (b : Bool)
  | number (n : Number)
  | string (s : String)
  | array (items : List Json)
  | object (members : List (String × Json))

namespace Json

instance : Inhabited Json := ⟨.null⟩

/-- The six shapes of a value. -/
inductive Shape where
  | null
  | boolean
  | number
  | string
  | array
  | object
deriving DecidableEq

def Shape.name : Shape → String
  | .null => "null"
  | .boolean => "boolean"
  | .number => "number"
  | .string => "string"
  | .array => "array"
  | .object => "object"

def shape : Json → Shape
  | .null => .null
  | .bool _ => .boolean
  | .number _ => .number
  | .string _ => .string
  | .array _ => .array
  | .object _ => .object

/-- The object whose members are texts. -/
def ofTexts (m : KeyMap String) : Json :=
  .object (m.entries.map fun e => (e.1, .string e.2))

mutual

/-- The value with the keys of every object in order, and of repeated keys the last. -/
def collapse : Json → Json
  | .array items => .array (collapseItems items)
  | .object members => .object (Entries.collect (collapseMembers members))
  | v => v

def collapseItems : List Json → List Json
  | [] => []
  | v :: vs => v.collapse :: collapseItems vs

def collapseMembers : List (String × Json) → List (String × Json)
  | [] => []
  | (k, v) :: ms => (k, v.collapse) :: collapseMembers ms

end

mutual

/-- How many arrays and objects are nested in each other. -/
def depth : Json → Nat
  | .array items => depthItems items + 1
  | .object members => depthMembers members + 1
  | _ => 0

def depthItems : List Json → Nat
  | [] => 0
  | v :: vs => max v.depth (depthItems vs)

def depthMembers : List (String × Json) → Nat
  | [] => 0
  | (_, v) :: ms => max v.depth (depthMembers ms)

end

mutual

/-- Equality of values, where numbers are compared by value. Objects are taken with their keys in
order. -/
def agrees : Json → Json → Bool
  | .null, .null => true
  | .bool a, .bool b => a = b
  | .number a, .number b => a.agrees b
  | .string a, .string b => a = b
  | .array xs, .array ys => agreesItems xs ys
  | .object xs, .object ys => agreesMembers xs ys
  | _, _ => false

def agreesItems : List Json → List Json → Bool
  | [], [] => true
  | x :: xs, y :: ys => x.agrees y && agreesItems xs ys
  | _, _ => false

def agreesMembers : List (String × Json) → List (String × Json) → Bool
  | [], [] => true
  | (k, x) :: xs, (l, y) :: ys => k = l && x.agrees y && agreesMembers xs ys
  | _, _ => false

end

end Json
end Catalog
