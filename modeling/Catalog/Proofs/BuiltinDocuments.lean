import Catalog.Proofs.Construction
import Catalog.Proofs.Values
import Catalog.Registry.Basic

/-! What the built-in contracts come to: the documents that their texts stand for, and the schemas
that these are. A registry of them has a contract for every kind, under any configuration. -/

namespace Catalog

namespace Text
variable {line : String} {lines : List String} {cs ds : List Char}

theorem joinLines_one (h : line = String.ofList cs) : joinLines [line] = cs := by
  rw [h, joinLines, String.toList_ofList]

theorem joinLines_more {next : String} (h : line = String.ofList cs)
    (hmore : joinLines (next :: lines) = ds) :
    joinLines (line :: next :: lines) = cs ++ '\n' :: ds := by
  rw [h, joinLines, String.toList_ofList, hmore]
  exact List.cons_ne_nil next lines

end Text

namespace Schema

/-- Texts that are not empty. -/
def textDocument : Json :=
  .object [("minLength", .number (.int 1)), ("type", .string "string")]

/-- Maps from texts that are not empty to texts. -/
def textMapDocument : Json :=
  .object [("additionalProperties", .object [("type", .string "string")]),
    ("propertyNames", .object [("minLength", .number (.int 1))]), ("type", .string "object")]

def textListDocument : Json :=
  .object [("items", textDocument), ("type", .string "array")]

def identifierDocument : Json :=
  .object [("additionalProperties", .bool false),
    ("properties",
      .object [("database_name", textDocument), ("object_name", textDocument)]),
    ("required", .array [.string "database_name", .string "object_name"]),
    ("type", .string "object")]

/-- The members of a document for bodies with two fields, given in increasing order. -/
def bodyMembers (id title : String) (a b : String × Json) (required : List String) : Entries Json :=
  [("$id", .string id), ("$schema", .string "https://json-schema.org/draft/2020-12/schema"),
    ("additionalProperties", .bool false), ("properties", .object [a, b]),
    ("required", .array (required.map .string)), ("title", .string title),
    ("type", .string "object")]

/-- Where the built-in documents keep the schema of identifiers. -/
def identifierPointer : String :=
  "#/$defs/identifier"

def referenceDocument : Json :=
  .object [("$ref", .string identifierPointer)]

/-- The built-in contract of a kind as a value. -/
def builtinDocument : Kind → Json
  | .createDatabase =>
    .object (bodyMembers "https://schemas.catalogrest.dev/v1/create-database.schema.json"
      "CreateDatabaseRequest" ("name", textDocument) ("properties", textMapDocument)
      ["name", "properties"])
  | .alterDatabase =>
    .object (bodyMembers "https://schemas.catalogrest.dev/v1/alter-database.schema.json"
      "AlterDatabaseRequest" ("removals", textListDocument) ("updates", textMapDocument)
      ["removals", "updates"])
  | .renameTable =>
    .object (("$defs", .object [("identifier", identifierDocument)]) ::
      bodyMembers "https://schemas.catalogrest.dev/v1/rename-table.schema.json"
        "RenameTableRequest" ("destination", referenceDocument) ("source", referenceDocument)
        ["source", "destination"])

/-- A value is read from lines when it is read from their characters. -/
theorem parse_of_joinLines {lines : List String} {cs : List Char} {v : Json}
    (hlines : Text.joinLines lines = cs) (hv : (Json.parse (cs.map some)).toOption = some v) :
    Json.parse ((Text.joinLines lines).map some) = .ok v := by
  rw [hlines]
  exact toOption_eq_some.mp hv

theorem ofText_builtinText (k : Kind) :
    Json.Source.ofText (builtinText k) = (Text.joinLines (builtinLines k)).map some := by
  rw [Json.Source.ofText, builtinText, String.toList_ofList]

theorem parse_builtinText (k : Kind) :
    Json.parse (.ofText (builtinText k)) = .ok (builtinDocument k) := by
  rw [ofText_builtinText]
  -- Each line is turned into its characters, so that the reader is run on those: to find them in the
  -- bytes of a string takes longer than to read them.
  cases k
  all_goals
    apply parse_of_joinLines
    · repeat apply Text.joinLines_more rfl
      exact Text.joinLines_one rfl
    · decide +kernel

/-- The built-in documents are closed already. -/
theorem strict_builtinDocument (k : Kind) : strict (builtinDocument k) = builtinDocument k := by
  cases k <;> rfl

def textSchema : Schema :=
  .every [.assert (.type [.string]), .assert (.minLength 1)]

def textMapSchema : Schema :=
  .every [.assert (.type [.object]), .others [] [] (.every [.assert (.type [.string])]),
    .propertyNames (.every [.assert (.minLength 1)])]

def textListSchema : Schema :=
  .every [.assert (.type [.array]), .items 0 textSchema]

/-- Objects of two members. -/
def pairSchema (required : List String) (a b : String × Schema) : Schema :=
  .every [.assert (.type [.object]), .assert (.required required), .closed [a, b] [] none]

def identifierSchema : Schema :=
  pairSchema ["database_name", "object_name"] ("database_name", textSchema)
    ("object_name", textSchema)

def referenceSchema : Schema :=
  .every [.ref identifierPointer]

def builtinContract : Kind → Contract
  | .createDatabase =>
    ⟨pairSchema ["name", "properties"] ("name", textSchema) ("properties", textMapSchema), []⟩
  | .alterDatabase =>
    ⟨pairSchema ["removals", "updates"] ("removals", textListSchema) ("updates", textMapSchema), []⟩
  | .renameTable =>
    ⟨pairSchema ["source", "destination"] ("destination", referenceSchema)
      ("source", referenceSchema), [(identifierPointer, identifierSchema)]⟩

theorem ofDocument_builtinDocument (k : Kind) :
    Contract.ofDocument? (builtinDocument k) = some (builtinContract k) := by
  cases k <;> rfl

end Schema

namespace Registry

theorem register_builtinText (g : Registry) (k : Kind) :
    g.register k (.ofText (Schema.builtinText k)) = .ok { g with
      contracts := fun l => if l = k then some (Schema.builtinContract k) else g.contracts l } := by
  have hdocument : (if g.config.strictMode then Schema.strict (Schema.builtinDocument k)
      else Schema.builtinDocument k) = Schema.builtinDocument k := by
    rw [Schema.strict_builtinDocument, ite_self]
  simp only [register, Schema.parse_builtinText, registerValue, hdocument,
    Schema.ofDocument_builtinDocument]

/-- The built-in contracts are registered under any configuration. -/
theorem builtin_eq_ok (config : RegistryConfig) :
    builtin config = .ok ⟨config, fun k => some (Schema.builtinContract k)⟩ := by
  have hcontracts : (⟨config, fun k => some (Schema.builtinContract k)⟩ : Registry) =
      ⟨config, fun k => if k = .renameTable then some (Schema.builtinContract .renameTable)
        else if k = .alterDatabase then some (Schema.builtinContract .alterDatabase)
        else if k = .createDatabase then some (Schema.builtinContract .createDatabase)
        else none⟩ := by
    congr 1
    funext k
    cases k <;> rfl
  rw [hcontracts]
  simp only [builtin, Kind.all, List.foldlM_cons, List.foldlM_nil, register_builtinText, empty]
  rfl

end Registry
end Catalog
