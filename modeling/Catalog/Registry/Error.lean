import Catalog.Files
import Catalog.Request.Error
import Catalog.Schema.Issue

/-!
Why a schema is not registered, and why a body does not keep its contract.
-/

namespace Catalog

/-- Why a directory of schema files is not loaded. -/
inductive LoadError where
  | directory (path : String) (e : FileError)
  | link (name : String)
  | unknownKind (name : String)
  | tooMany (max loaded : Nat)
  | unreadable (path : String) (e : FileError)
  | tooLarge (max : Nat) (path : String)

def LoadError.message : LoadError → String
  | .directory path e => path ++ ": " ++ e.message
  | .link name => "refusing to load schema symlink: " ++ name
  | .unknownKind name => "unrecognized schema filename: " ++ name
  | .tooMany max loaded =>
    "schema count exceeds configured max (" ++ toString max ++ "): " ++ toString loaded
  | .unreadable path e => "failed reading schema " ++ path ++ ": " ++ e.message
  | .tooLarge max path => "schema file too large (max " ++ toString max ++ " bytes): " ++ path

inductive SchemaError where
  | load (e : LoadError)
  | notSchema (kind : Kind)
  /-- The body has the issue `first` and then `others`. -/
  | invalid (kind : Kind) (first : Issue) (others : List Issue)
  | tooLarge (kind : Kind) (size max : Nat)
  | unread (e : Json.ReadError)
  | noContract (kind : Kind)

namespace SchemaError

/-- How many issues are reported after the first. -/
def otherIssues : Nat :=
  3

def message : SchemaError → String
  | .load e => "failed to load schema: " ++ e.message
  | .notSchema kind => "failed to compile schema: " ++ kind.name
  | .invalid kind first others =>
    kind.name ++ " body failed validation: " ++
      "; ".intercalate ((first :: others.take otherIssues).map Issue.message)
  | .tooLarge kind size max =>
    kind.name ++ " body is " ++ toString size ++ " bytes, max " ++ toString max
  | .unread e => "body is not valid JSON: " ++ e.message
  | .noContract kind => "no schema registered for " ++ kind.name

end SchemaError
end Catalog
