import Catalog.Json.Printer
import Catalog.Request.Alter
import Catalog.Request.Create
import Catalog.Request.Rename

/-!
Catalog requests of any kind. A request is sent as its bare body, whose fields imply the kind.
-/

namespace Catalog

inductive Request where
  | create (r : CreateDatabase)
  | alter (r : AlterDatabase)
  | rename (r : RenameTable)
deriving DecidableEq

namespace Request

def kind : Request → Kind
  | .create _ => .createDatabase
  | .alter _ => .alterDatabase
  | .rename _ => .renameTable

/-- The body with its fields in the order in which they are declared. -/
def encode : Request → Json
  | .create r => r.encode
  | .alter r => r.encode
  | .rename r => r.encode

/-- The body as a value, with its fields in increasing order. -/
def body (r : Request) : Json :=
  r.encode.collapse

/-- The compact text of the body. -/
def text (r : Request) : String :=
  r.encode.compact

end Request
end Catalog
