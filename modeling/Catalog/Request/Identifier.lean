import Catalog.Request.Error
import Catalog.Text.Split

/-!
Qualified names: an object inside a database, written with a point between the two names.
-/

namespace Catalog

/-- Both names are kept exactly as given; neither is empty. -/
structure Identifier where
  database : String
  object : String
  names_ne : database ≠ "" ∧ object ≠ ""
deriving DecidableEq

namespace Identifier

/-- The database name is looked at first. -/
def new (database object : String) : Except Violation Identifier :=
  if hd : database = "" then .error ⟨.ofKey "database_name", .empty⟩
  else if ho : object = "" then .error ⟨.ofKey "object_name", .empty⟩
  else .ok ⟨database, object, hd, ho⟩

/-- Reads a qualified name. It is cut at its first point, so the object may hold further ones. -/
def parse (qualified : String) : Except Violation Identifier :=
  match Text.splitFirst? '.' qualified with
  | some (database, object) => new database object
  | none => .error ⟨.ofKey "identifier", .unqualified qualified⟩

/-- The qualified name. -/
def text (id : Identifier) : String :=
  id.database ++ "." ++ id.object

/-- The order of identifiers: by database, and inside a database by object. -/
def before (a b : Identifier) : Bool :=
  a.database < b.database || (a.database = b.database && a.object < b.object)

/-- Puts an identifier at its place in an ordered list, unless it stands there already. -/
def insertOrdered (id : Identifier) : List Identifier → List Identifier
  | [] => [id]
  | x :: xs =>
    if id = x then x :: xs
    else if id.before x then id :: x :: xs
    else x :: insertOrdered id xs

/-- The identifiers in order, each once. -/
def sortedDistinct (ids : List Identifier) : List Identifier :=
  ids.foldl (fun acc id => insertOrdered id acc) []

def encode (id : Identifier) : Json :=
  .object [("database_name", .string id.database), ("object_name", .string id.object)]

end Identifier
end Catalog
