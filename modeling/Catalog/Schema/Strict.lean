import Catalog.Json.Basic

/-!
Strict documents: every object schema that says nothing about further members is closed to them.
Schemas are looked for below the usual keywords; what stands under others is left as it is.
-/

namespace Catalog.Schema

/-- Keywords that show an object schema where no type is given. -/
def objectKeywords : List String :=
  ["properties", "required", "propertyNames"]

/-- The members describe objects: their type says so, or without one their keywords do. -/
def isObjectSchema (members : Entries Json) : Bool :=
  match members.lookup "type" with
  | some (.string t) => t = "object"
  | some (.array ts) => ts.any fun
    | .string t => t = "object"
    | _ => false
  | _ => objectKeywords.any fun k => (members.lookup k).isSome

/-- Keywords that hold schemas by name. -/
def mapKeywords : List String :=
  ["properties", "$defs", "definitions"]

/-- Keywords that hold one schema. -/
def schemaKeywords : List String :=
  ["items", "additionalProperties", "not"]

/-- Keywords that hold lists of schemas. -/
def listKeywords : List String :=
  ["prefixItems", "allOf", "anyOf", "oneOf"]

/-- The members describe objects and leave it open which further ones there are. -/
def isOpen (members : Entries Json) : Bool :=
  isObjectSchema members && (members.lookup "additionalProperties").isNone

mutual

def strict : Json → Json
  | .object members =>
    if isOpen members then
      .object (Entries.insert "additionalProperties" (.bool false) (strictMembers members))
    else .object (strictMembers members)
  | .array vs => .array (strictItems vs)
  | v => v

def strictItems : List Json → List Json
  | [] => []
  | v :: vs => strict v :: strictItems vs

/-- The members of a schema, of which those that hold schemas are changed. -/
def strictMembers : List (String × Json) → List (String × Json)
  | [] => []
  | (k, v) :: ms =>
    let w :=
      if schemaKeywords.contains k then strict v
      else match v with
        | .object children =>
          if mapKeywords.contains k then .object (strictChildren children) else v
        | .array children => if listKeywords.contains k then .array (strictItems children) else v
        | v => v
    (k, w) :: strictMembers ms

/-- Schemas by name. -/
def strictChildren : List (String × Json) → List (String × Json)
  | [] => []
  | (k, v) :: ms => (k, strict v) :: strictChildren ms

end

end Catalog.Schema
