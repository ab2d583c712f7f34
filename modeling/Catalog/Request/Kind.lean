/-!
The kinds of catalog request. A body shows its kind by its fields alone.
-/

namespace Catalog

inductive Kind where
  | createDatabase
  | alterDatabase
  | renameTable
deriving DecidableEq

namespace Kind

def all : List Kind :=
  [.createDatabase, .alterDatabase, .renameTable]

def name : Kind → String
  | .createDatabase => "create-database"
  | .alterDatabase => "alter-database"
  | .renameTable => "rename-table"

/-- The fields of a body of the kind, in increasing order. -/
def fields : Kind → List String
  | .createDatabase => ["name", "properties"]
  | .alterDatabase => ["removals", "updates"]
  | .renameTable => ["destination", "source"]

def ofName? (s : String) : Option Kind :=
  all.find? (·.name = s)

/-- The kind whose fields are exactly `names`. -/
def ofFields? (names : List String) : Option Kind :=
  all.find? (·.fields = names)

end Kind
end Catalog
