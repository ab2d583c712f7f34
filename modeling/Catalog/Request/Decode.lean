import Catalog.Json.Repeats
import Catalog.Request.Basic

/-!
Requests from bodies. The fields of a body decide its kind; then they are read and checked in the
order in which they are declared, so an error names the first field that is at fault.
-/

namespace Catalog

/-- The kind of a body: its fields are exactly those of the kind, whatever they hold. -/
def Kind.classify : Json → Except Mismatch Kind
  | .object members =>
    match Kind.ofFields? (Entries.keys members) with
    | some k => .ok k
    | none => .error (.unknownFields (Entries.keys members))
  | v => .error (.notObject v.shape)

/-- An object of a body, with its place and what the text of the body repeats. -/
structure Scope where
  place : Field
  members : Entries Json
  repeats : List Json.Repeat

namespace Scope

/-- The place of a member. -/
def field (s : Scope) (name : String) : Field :=
  s.place.child (.key name)

/-- The value of a field that must be there, and only once. Places are compared as they are
written. -/
def value (s : Scope) (name : String) : Except Violation Json :=
  if s.repeats.any fun r => r.place.text = s.place.text && r.key = name then
    .error ⟨s.field name, .repeatedField⟩
  else match s.members.lookup name with
    | some v => .ok v
    | none => .error ⟨s.field name, .missing⟩

def asText (place : Field) : Json → Except Violation String
  | .string s => .ok s
  | v => .error ⟨place, .wrongShape .string v.shape⟩

def text (s : Scope) (name : String) : Except Violation String := do
  asText (s.field name) (← s.value name)

/-- The first key that an object whose place is written like `place` repeats. -/
def firstRepeat? (s : Scope) (place : Field) : Option String :=
  (s.repeats.find? (·.place.text = place.text)).map (·.key)

/-- The members of an object as texts. -/
def textEntries (place : Field) : Entries Json → Except Violation (Entries String)
  | [] => .ok []
  | (k, v) :: ms => do
    let t ← asText (place.child (.key k)) v
    let rest ← textEntries place ms
    return (k, t) :: rest

def textMap (s : Scope) (name : String) : Except Violation (KeyMap String) := do
  match ← s.value name with
  | .object members =>
    match s.firstRepeat? (s.field name) with
    | some key => .error ⟨s.field name, .duplicateKey key⟩
    | none => (textEntries (s.field name) members).map .ofEntries
  | v => .error ⟨s.field name, .wrongShape .object v.shape⟩

/-- The items of an array as texts, the first of them at the index `i`. -/
def textItems (place : Field) (i : Nat) : List Json → Except Violation (List String)
  | [] => .ok []
  | v :: vs => do
    let t ← asText (place.child (.index i)) v
    let rest ← textItems place (i + 1) vs
    return t :: rest

def textList (s : Scope) (name : String) : Except Violation (List String) := do
  match ← s.value name with
  | .array items => textItems (s.field name) 0 items
  | v => .error ⟨s.field name, .wrongShape .array v.shape⟩

/-- The fields of an identifier. -/
def identifierFields : List String :=
  ["database_name", "object_name"]

def identifier (s : Scope) (name : String) : Except Violation Identifier := do
  match ← s.value name with
  | .object members =>
    let inner : Scope := ⟨s.field name, members, s.repeats⟩
    match (Entries.keys members).find? (fun k => !identifierFields.contains k) with
    | some k => .error ⟨inner.field k, .unknownField⟩
    | none =>
      let database ← inner.text "database_name"
      let object ← inner.text "object_name"
      match Identifier.new database object with
      | .ok id => .ok id
      | .error v => .error ⟨s.field name ++ v.field, v.reason⟩
  | v => .error ⟨s.field name, .wrongShape .object v.shape⟩

end Scope

namespace Request

/-- Reads the fields of a body of a known kind. -/
def ofScope (rules : NamingRules) (s : Scope) : Kind → Except Violation Request
  | .createDatabase => do
    let name ← s.text "name"
    rules.check (s.field "name") name
    let properties ← s.textMap "properties"
    return .create (← CreateDatabase.new rules name properties)
  | .alterDatabase => do
    let removals ← s.textList "removals"
    match AlterDatabase.emptyRemoval? removals with
    | some i => .error ⟨AlterDatabase.removalField i, .empty⟩
    | none =>
      let updates ← s.textMap "updates"
      return .alter (← AlterDatabase.new removals updates)
  | .renameTable => do
    let source ← s.identifier "source"
    let destination ← s.identifier "destination"
    return .rename (← RenameTable.new source destination)

def ofScanned (rules : NamingRules) (body : Json.Scanned) : Except RequestError Request :=
  match Kind.classify body.value, body.value with
  | .ok k, .object members => (ofScope rules ⟨[], members, body.repeats⟩ k).mapError .violation
  | .ok _, v => .error (.mismatch (.notObject v.shape))
  | .error m, _ => .error (.mismatch m)

/-- The request of a body whose text is not at hand. -/
def ofValue (rules : NamingRules) (body : Json) : Except RequestError Request :=
  ofScanned rules (.ofValue body)

/-- The request of the text of a body. Keys may not be repeated anywhere in it. -/
def ofSource (rules : NamingRules) (s : Json.Source) : Except RequestError Request :=
  match Json.scan s with
  | .ok body => ofScanned rules body
  | .error e => .error (.unread e)

end Request
end Catalog
