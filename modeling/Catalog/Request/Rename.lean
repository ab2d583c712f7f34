import Catalog.Request.Identifier

/-!
Requests to rename a table, or to move it to another database.
-/

namespace Catalog

structure RenameTable where
  source : Identifier
  destination : Identifier
  source_ne : source ≠ destination
deriving DecidableEq

namespace RenameTable

def new (source destination : Identifier) : Except Violation RenameTable :=
  if h : source = destination then .error ⟨.ofKey "destination", .sameAsSource source.text⟩
  else .ok ⟨source, destination, h⟩

/-- The table changes its database. -/
def crossesDatabases (r : RenameTable) : Bool :=
  r.source.database ≠ r.destination.database

def encode (r : RenameTable) : Json :=
  .object [("source", r.source.encode), ("destination", r.destination.encode)]

end RenameTable
end Catalog
