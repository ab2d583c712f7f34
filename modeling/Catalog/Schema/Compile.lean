import Catalog.Schema.Basic
import Catalog.Text.Split

/-!
Schemas from JSON documents. A document has a draft, which says what its keywords mean; a keyword
that does not have the form that its draft asks for makes the whole document no schema. Keywords
that ask nothing are passed over.
-/

namespace Catalog

inductive Draft where
  | draft7
  | draft2020
deriving DecidableEq

namespace Draft

/-- What stands between the slashes in the name of a draft. -/
def parts : Draft → List String
  | .draft7 => ["http:", "", "json-schema.org", "draft-07", "schema"]
  | .draft2020 => ["https:", "", "json-schema.org", "draft", "2020-12", "schema"]

/-- The draft with a name, which may end in an empty fragment. -/
def ofName? (name : String) : Option Draft :=
  let named := Text.split '/' ((Text.dropEnding? "#" name).getD name)
  [draft7, draft2020].find? fun d => d.parts = named

/-- The draft of a document: the one that it names, which is to be a known one, and else the newer
one. -/
def ofDocument? : Json → Option Draft
  | .object members =>
    match members.lookup "$schema" with
    | some (.string s) => ofName? s
    | _ => some .draft2020
  | _ => some .draft2020

/-- The draft of a document of a known draft. No contract is made of any other, so it does not matter
what is said of those. -/
def ofDocument (document : Json) : Draft :=
  (ofDocument? document).getD .draft2020

/-- Keywords of a draft that ask something and are not read here. Nothing is a schema that has one of
them, so that no schema asks for less than its document does. -/
def unread : Draft → List String
  | .draft7 => ["multipleOf", "format", "contentEncoding", "contentMediaType"]
  | .draft2020 => ["multipleOf", "dependencies"]

end Draft

namespace Schema

/-- What the keywords of an object schema say, each in its form. -/
structure Keywords where
  type : Option (List TypeName) := none
  const : Option Json := none
  enum : Option (List Json) := none
  minimum : Option Number := none
  maximum : Option Number := none
  exclusiveMinimum : Option Number := none
  exclusiveMaximum : Option Number := none
  minLength : Option Nat := none
  maxLength : Option Nat := none
  minItems : Option Nat := none
  maxItems : Option Nat := none
  minProperties : Option Nat := none
  maxProperties : Option Nat := none
  uniqueItems : Option Bool := none
  dependentRequired : Option (List (String × List String)) := none
  required : Option (List String) := none
  pattern : Option String := none
  properties : Option (List (String × Schema)) := none
  patternProperties : Option (List (String × Schema)) := none
  additionalProperties : Option Schema := none
  propertyNames : Option Schema := none
  items : Option Schema := none
  prefixItems : Option (List Schema) := none
  additionalItems : Option Schema := none
  contains : Option Schema := none
  minContains : Option Nat := none
  maxContains : Option Nat := none
  dependentSchemas : Option (List (String × Schema)) := none
  allOf : Option (List Schema) := none
  anyOf : Option (List Schema) := none
  oneOf : Option (List Schema) := none
  excluded : Option (Json × Schema) := none
  condition : Option Schema := none
  consequence : Option Schema := none
  alternative : Option Schema := none
  ref : Option String := none
  dynamicRef : Option String := none
  unevaluatedItems : Option Schema := none
  unevaluatedProperties : Option Schema := none

/-- A count: a whole number that is not negative, however it is written. -/
def count? : Json → Option Nat
  | .number (.int n) => if 0 ≤ n then some n.toNat else none
  | .number (.double x) => if x.isWhole && 0 ≤ x.truncate then some x.truncate.toNat else none
  | _ => none

def text? : Json → Option String
  | .string s => some s
  | _ => none

def number? : Json → Option Number
  | .number n => some n
  | _ => none

def flag? : Json → Option Bool
  | .bool b => some b
  | _ => none

/-- A list of texts without repeats. -/
def names? : Json → Option (List String)
  | .array xs => (xs.mapM text?).filter fun names => names.eraseDups.length = names.length
  | _ => none

/-- One type, or a list of them without repeats that is not empty; the types are put in order. -/
def types? : Json → Option (List TypeName)
  | .string s => (TypeName.ofName? s).map ([·])
  | v => do
    let names ← names? v
    let types ← names.mapM TypeName.ofName?
    if types.isEmpty then none else some (TypeName.all.filter types.contains)

/-- The members that are lists, or those that are none. -/
def lists (b : Bool) (ms : List (String × Json)) : List (String × Json) :=
  ms.filter fun e => (e.2.shape = .array) = b

/-- Lists of names by name. -/
def nameLists? (ms : List (String × Json)) : Option (List (String × List String)) :=
  ms.mapM fun (k, v) => (names? v).map fun names => (k, names)

/-- The names that other names ask for. -/
def requirements? : Json → Option (List (String × List String))
  | .object ms => nameLists? ms
  | _ => none

/-- The names that other names ask for, where some of these have schemas instead. -/
def listedRequirements? : Json → Option (List (String × List String))
  | .object ms => nameLists? (lists true ms)
  | _ => none

def always (b : Bool) : Schema :=
  if b then .anything else .nothing

/-- The rules for members by name and by pattern, each checked on its own. -/
def listedRules (k : Keywords) (matching : List (Pattern × Schema)) : List Schema :=
  (if k.properties.isSome then [.properties (k.properties.getD [])] else []) ++
    if k.patternProperties.isSome then [.patternProperties matching] else []

/-- Rules about the members of an object that their schemas share. A schema for further members
takes over the listed ones. One that lets every member through asks nothing, but leaves no member
over. -/
def memberRules (k : Keywords) : Option (List Schema) := do
  let matching ← (k.patternProperties.getD []).mapM fun (p, s) =>
    (Pattern.parse p).map fun p => (p, s)
  match k.additionalProperties with
  | none => return listedRules k matching
  | some .anything => return listedRules k matching ++ [.others [] [] .anything]
  | some .nothing =>
    if k.properties.isNone && k.patternProperties.isNone then return [.memberless]
    else
      let single := match k.required with
        | some [name] =>
          if k.properties.isSome && k.patternProperties.isNone then some name else none
        | _ => none
      return [.closed (k.properties.getD []) matching single]
  | some rest => return [.others (k.properties.getD []) matching rest]

/-- A single required name that is looked for together with the closed members. -/
def isFused (rules : List Schema) : Bool :=
  rules.any fun
    | .closed _ _ (some _) => true
    | _ => false

/-- The rule of a keyword that is there. -/
def rule {α : Type} (f : α → Schema) (a : Option α) : List Schema :=
  (a.map f).toList

def assertion {α : Type} (f : α → Assertion) (a : Option α) : List Schema :=
  rule (fun x => .assert (f x)) a

namespace Keywords
variable (k : Keywords)

/-- What is asked without looking at schemas for the parts of a value, apart from the required names
and the pattern. -/
def assertions : List Assertion :=
  (k.type.map .type).toList ++ (k.const.map .const).toList ++ (k.enum.map .enum).toList ++
    (k.minimum.map (.bound .minimum)).toList ++ (k.maximum.map (.bound .maximum)).toList ++
    (k.exclusiveMinimum.map (.bound .exclusiveMinimum)).toList ++
    (k.exclusiveMaximum.map (.bound .exclusiveMaximum)).toList ++
    (k.minLength.map .minLength).toList ++ (k.maxLength.map .maxLength).toList ++
    (k.minItems.map .minItems).toList ++ (k.maxItems.map .maxItems).toList ++
    (k.minProperties.map .minProperties).toList ++ (k.maxProperties.map .maxProperties).toList ++
    (if k.uniqueItems = some true then [.uniqueItems] else []) ++
    (k.dependentRequired.map .dependentRequired).toList

/-- The schema of the items that come after those with schemas of their own, which without such
items has nothing to go by. -/
def furtherItems : Option Schema :=
  if k.prefixItems.isSome then k.additionalItems else none

/-- The rule of the three keywords that work together. -/
def conditional : Option Schema :=
  k.condition.map fun c =>
    .conditional c (k.consequence.getD .anything) (k.alternative.getD .anything)

/-- What is referred to. A reference of the second kind is followed like one of the first. -/
def references : List String :=
  k.ref.toList ++ k.dynamicRef.toList

/-- The rules of the keywords in the order in which they are checked, with those about members and
the pattern as they have been read. -/
def rules (members pattern : List Schema) : List Schema :=
  let first := (k.prefixItems.getD []).length
  k.assertions.map .assert ++ (if isFused members then [] else assertion .required k.required) ++
    pattern ++ members ++ rule .propertyNames k.propertyNames ++ rule (.items first) k.items ++
    rule .prefixItems k.prefixItems ++ rule (.items first) k.furtherItems ++
    rule (.contains · (k.minContains.getD 1) k.maxContains) k.contains ++
    rule .dependentSchemas k.dependentSchemas ++ rule .allOf k.allOf ++ rule .anyOf k.anyOf ++
    rule .oneOf k.oneOf ++ rule (fun e => .not e.1 e.2) k.excluded ++ k.conditional.toList ++
    k.references.map .ref

/-- The rules about what the others leave over. -/
def leftover (beside : List Schema) : List Schema :=
  rule (.unevaluatedItems beside) k.unevaluatedItems ++
    rule (.unevaluatedProperties beside) k.unevaluatedProperties

/-- The schema of some keywords. In the older draft a reference is all that counts. -/
def schema (draft : Draft) : Option Schema := do
  match draft, k.ref with
  | .draft7, some pointer => return .every [.ref pointer]
  | _, _ =>
    let members ← memberRules k
    let pattern ← match k.pattern with
      | some p => (Pattern.parse p).map fun p => [.assert (.pattern p)]
      | none => some []
    let rules := k.rules members pattern
    return .every (rules ++ k.leftover rules)

end Keywords

/-- Lists of schemas may not be empty. -/
def nonempty {α : Type} (l : List α) : Option (List α) :=
  if l.isEmpty then none else some l

mutual

/-- The schema that a document, or a part of it, stands for. -/
def ofJson? (draft : Draft) : Json → Option Schema
  | .bool b => some (always b)
  | .object members => (keywords? draft members).bind (·.schema draft)
  | _ => none

def list? (draft : Draft) : List Json → Option (List Schema)
  | [] => some []
  | v :: vs => do
    let s ← ofJson? draft v
    let rest ← list? draft vs
    return s :: rest

def named? (draft : Draft) : List (String × Json) → Option (List (String × Schema))
  | [] => some []
  | (k, v) :: ms => do
    let s ← ofJson? draft v
    let rest ← named? draft ms
    return (k, s) :: rest

/-- Schemas by name, where members that are lists are passed over. -/
def unlisted? (draft : Draft) : List (String × Json) → Option (List (String × Schema))
  | [] => some []
  | (_, .array _) :: ms => unlisted? draft ms
  | (k, v) :: ms => do
    let s ← ofJson? draft v
    let rest ← unlisted? draft ms
    return (k, s) :: rest

/-- A list of schemas that is not empty. -/
def schemas? (draft : Draft) : Json → Option (List Schema)
  | .array vs => (list? draft vs).bind nonempty
  | _ => none

/-- Schemas by name. -/
def members? (draft : Draft) : Json → Option (List (String × Schema))
  | .object ms => named? draft ms
  | _ => none

/-- Schemas by name, where some of the names have lists of names instead. -/
def dependents? (draft : Draft) : Json → Option (List (String × Schema))
  | .object ms => unlisted? draft ms
  | _ => none

def keywords? (draft : Draft) : List (String × Json) → Option Keywords
  | [] => some {}
  | (name, v) :: ms => do
    let k ← keywords? draft ms
    match name, draft with
    | "type", _ => (types? v).map fun x => { k with type := some x }
    | "const", _ => some { k with const := some v }
    | "enum", _ =>
      match v with
      | .array options => some { k with enum := some options }
      | _ => none
    | "minimum", _ => (number? v).map fun x => { k with minimum := some x }
    | "maximum", _ => (number? v).map fun x => { k with maximum := some x }
    | "exclusiveMinimum", _ => (number? v).map fun x => { k with exclusiveMinimum := some x }
    | "exclusiveMaximum", _ => (number? v).map fun x => { k with exclusiveMaximum := some x }
    | "minLength", _ => (count? v).map fun x => { k with minLength := some x }
    | "maxLength", _ => (count? v).map fun x => { k with maxLength := some x }
    | "minItems", _ => (count? v).map fun x => { k with minItems := some x }
    | "maxItems", _ => (count? v).map fun x => { k with maxItems := some x }
    | "minProperties", _ => (count? v).map fun x => { k with minProperties := some x }
    | "maxProperties", _ => (count? v).map fun x => { k with maxProperties := some x }
    | "uniqueItems", _ => (flag? v).map fun x => { k with uniqueItems := some x }
    | "required", _ => (names? v).map fun x => { k with required := some x }
    | "pattern", _ => (text? v).map fun x => { k with pattern := some x }
    | "properties", _ => (members? draft v).map fun x => { k with properties := some x }
    | "patternProperties", _ =>
      (members? draft v).map fun x => { k with patternProperties := some x }
    | "additionalProperties", _ =>
      (ofJson? draft v).map fun x => { k with additionalProperties := some x }
    | "propertyNames", _ => (ofJson? draft v).map fun x => { k with propertyNames := some x }
    | "items", .draft2020 => (ofJson? draft v).map fun x => { k with items := some x }
    | "items", .draft7 =>
      match v with
      | .array _ => (schemas? draft v).map fun x => { k with prefixItems := some x }
      | _ => (ofJson? draft v).map fun x => { k with items := some x }
    | "prefixItems", .draft2020 => (schemas? draft v).map fun x => { k with prefixItems := some x }
    | "additionalItems", .draft7 =>
      (ofJson? draft v).map fun x => { k with additionalItems := some x }
    | "contains", _ => (ofJson? draft v).map fun x => { k with contains := some x }
    | "minContains", .draft2020 => (count? v).map fun x => { k with minContains := some x }
    | "maxContains", .draft2020 => (count? v).map fun x => { k with maxContains := some x }
    | "dependentSchemas", .draft2020 =>
      (members? draft v).map fun x => { k with dependentSchemas := some x }
    | "dependentRequired", .draft2020 =>
      (requirements? v).map fun x => { k with dependentRequired := some x }
    | "dependencies", .draft7 => do
      let known ← dependents? draft v
      let names ← listedRequirements? v
      return { k with dependentSchemas := some known, dependentRequired := some names }
    | "allOf", _ => (schemas? draft v).map fun x => { k with allOf := some x }
    | "anyOf", _ => (schemas? draft v).map fun x => { k with anyOf := some x }
    | "oneOf", _ => (schemas? draft v).map fun x => { k with oneOf := some x }
    | "not", _ => (ofJson? draft v).map fun x => { k with excluded := some (v, x) }
    | "if", _ => (ofJson? draft v).map fun x => { k with condition := some x }
    | "then", _ => (ofJson? draft v).map fun x => { k with consequence := some x }
    | "else", _ => (ofJson? draft v).map fun x => { k with alternative := some x }
    | "$ref", _ => (text? v).map fun x => { k with ref := some x }
    | "$dynamicRef", .draft2020 => (text? v).map fun x => { k with dynamicRef := some x }
    | "unevaluatedItems", .draft2020 =>
      (ofJson? draft v).map fun x => { k with unevaluatedItems := some x }
    | "unevaluatedProperties", .draft2020 =>
      (ofJson? draft v).map fun x => { k with unevaluatedProperties := some x }
    | "$defs", .draft2020 => (members? draft v).map fun _ => k
    | "definitions", _ => (members? draft v).map fun _ => k
    | "$schema", _ => (text? v).map fun _ => k
    | "$id", _ => (text? v).map fun _ => k
    | "$comment", _ => (text? v).map fun _ => k
    | "title", _ => (text? v).map fun _ => k
    | "description", _ => (text? v).map fun _ => k
    | _, _ => if draft.unread.contains name then none else some k

end

end Schema
end Catalog
