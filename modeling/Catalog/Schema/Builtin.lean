import Catalog.Request.Kind
import Catalog.Text.Split

/-!
The built-in contracts of the request kinds, as JSON Schema texts. They describe the shape of a body
only: that a key is both removed and updated, or a table renamed to itself, is found when the
request is built.
-/

namespace Catalog.Schema

def createDatabaseLines : List String := [
  "\x7b",
  "    \"$schema\": \"https://json-schema.org/draft/2020-12/schema\",",
  "    \"$id\": \"https://schemas.catalogrest.dev/v1/create-database.schema.json\",",
  "    \"title\": \"CreateDatabaseRequest\",",
  "    \"type\": \"object\",",
  "    \"properties\": \x7b",
  "        \"name\": \x7b \"type\": \"string\", \"minLength\": 1 \x7d,",
  "        \"properties\": \x7b",
  "            \"type\": \"object\",",
  "            \"propertyNames\": \x7b \"minLength\": 1 \x7d,",
  "            \"additionalProperties\": \x7b \"type\": \"string\" \x7d",
  "        \x7d",
  "    \x7d,",
  "    \"required\": [\"name\", \"properties\"],",
  "    \"additionalProperties\": false",
  "\x7d"]

def alterDatabaseLines : List String := [
  "\x7b",
  "    \"$schema\": \"https://json-schema.org/draft/2020-12/schema\",",
  "    \"$id\": \"https://schemas.catalogrest.dev/v1/alter-database.schema.json\",",
  "    \"title\": \"AlterDatabaseRequest\",",
  "    \"type\": \"object\",",
  "    \"properties\": \x7b",
  "        \"removals\": \x7b",
  "            \"type\": \"array\",",
  "            \"items\": \x7b \"type\": \"string\", \"minLength\": 1 \x7d",
  "        \x7d,",
  "        \"updates\": \x7b",
  "            \"type\": \"object\",",
  "            \"propertyNames\": \x7b \"minLength\": 1 \x7d,",
  "            \"additionalProperties\": \x7b \"type\": \"string\" \x7d",
  "        \x7d",
  "    \x7d,",
  "    \"required\": [\"removals\", \"updates\"],",
  "    \"additionalProperties\": false",
  "\x7d"]

def renameTableLines : List String := [
  "\x7b",
  "    \"$schema\": \"https://json-schema.org/draft/2020-12/schema\",",
  "    \"$id\": \"https://schemas.catalogrest.dev/v1/rename-table.schema.json\",",
  "    \"title\": \"RenameTableRequest\",",
  "    \"type\": \"object\",",
  "    \"properties\": \x7b",
  "        \"source\": \x7b \"$ref\": \"#/$defs/identifier\" \x7d,",
  "        \"destination\": \x7b \"$ref\": \"#/$defs/identifier\" \x7d",
  "    \x7d,",
  "    \"required\": [\"source\", \"destination\"],",
  "    \"additionalProperties\": false,",
  "    \"$defs\": \x7b",
  "        \"identifier\": \x7b",
  "            \"type\": \"object\",",
  "            \"properties\": \x7b",
  "                \"database_name\": \x7b \"type\": \"string\", \"minLength\": 1 \x7d,",
  "                \"object_name\": \x7b \"type\": \"string\", \"minLength\": 1 \x7d",
  "            \x7d,",
  "            \"required\": [\"database_name\", \"object_name\"],",
  "            \"additionalProperties\": false",
  "        \x7d",
  "    \x7d",
  "\x7d"]

/-- The lines of the built-in contract of a kind. -/
def builtinLines : Kind → List String
  | .createDatabase => createDatabaseLines
  | .alterDatabase => alterDatabaseLines
  | .renameTable => renameTableLines

/-- The text of the built-in contract of a kind. -/
def builtinText (k : Kind) : String :=
  String.ofList (Text.joinLines (builtinLines k))

end Catalog.Schema
