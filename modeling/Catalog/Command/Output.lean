import Catalog.Command.Table
import Catalog.Request.Basic

/-!
The ways in which a request is printed.
-/

namespace Catalog

inductive OutputFormat where
  | json
  | table
  | pretty
  | raw
deriving DecidableEq

namespace OutputFormat

def all : List OutputFormat :=
  [.json, .table, .pretty, .raw]

def name : OutputFormat → String
  | .json => "json"
  | .table => "table"
  | .pretty => "pretty"
  | .raw => "raw"

def ofName? (s : String) : Option OutputFormat :=
  all.find? (·.name = s)

end OutputFormat

namespace Json

mutual

/-- The text of a value in a cell of a table: parts on lines of their own, and a dash for no
parts. -/
def cellText : Json → String
  | .string s => s
  | .array [] => "-"
  | .array items => "\n".intercalate (cellItems items)
  | .object [] => "-"
  | .object members => "\n".intercalate (cellMembers members)
  | v => v.compact

def cellItems : List Json → List String
  | [] => []
  | v :: vs => cellText v :: cellItems vs

def cellMembers : List (String × Json) → List String
  | [] => []
  | (k, v) :: ms => (k ++ "=" ++ cellText v) :: cellMembers ms

end

/-- The members of an object. -/
def members : Json → Entries Json
  | .object ms => ms
  | _ => []

end Json

namespace Request

/-- What names the form of the JSON output. -/
def outputSchemaId : String :=
  "https://schemas.catalogrest.dev/cli/v1/request.schema.json"

def table (r : Request) : Table where
  header := ("FIELD", "VALUE")
  rows := ("kind", r.kind.name) :: r.body.members.map fun (name, v) => (name, v.cellText)

/-- The lines that are printed for a request; `raw` is the body that would be sent. -/
def render (r : Request) : OutputFormat → List String
  | .json => [(Json.object [("schema_id", .string outputSchemaId), ("kind", .string r.kind.name),
      ("body", r.body)]).compact]
  | .table => r.table.lines
  | .pretty => ["kind: " ++ r.kind.name, r.body.pretty 0]
  | .raw => [r.body.compact]

end Request
end Catalog
