import Catalog.Registry.Error

/-!
Why a command fails, with the exit code and the message of each cause.
-/

namespace Catalog

/-- The exit codes of the command. -/
inductive ExitCode where
  | success
  | failure
  /-- The arguments do not make up a command. -/
  | arguments
  | denied
  /-- The data that was given is not valid. -/
  | data
  | usage
  | internal
deriving DecidableEq

def ExitCode.number : ExitCode → Nat
  | .success => 0
  | .failure => 1
  | .arguments => 2
  | .denied => 50
  | .data => 60
  | .usage => 64
  | .internal => 125

inductive Failure where
  | request (context : String) (e : RequestError)
  | schema (context : String) (e : SchemaError)
  | file (path : String) (e : FileError)
  | repeatedKey (flag key : String)

namespace Failure

def message : Failure → String
  | .request context e => context ++ ": " ++ e.message
  | .schema context e => context ++ ": " ++ e.message
  | .file path e => "failed reading " ++ path ++ ": " ++ e.message
  | .repeatedKey flag key => "--" ++ flag ++ " given more than once for key " ++ Text.quote key

def code : Failure → ExitCode
  | .request _ _ => .data
  | .schema _ (.invalid _ _ _) => .data
  | .schema _ (.tooLarge _ _ _) => .data
  | .schema _ (.unread _) => .data
  | .schema _ (.noContract _) => .usage
  | .schema _ (.load _) => .failure
  | .schema _ (.notSchema _) => .failure
  | .file _ .denied => .denied
  | .file _ .notFound => .usage
  | .file _ _ => .internal
  | .repeatedKey _ _ => .usage

end Failure
end Catalog
