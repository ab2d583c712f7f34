import Catalog.Registry.Basic
import Catalog.Text.Split

/-!
Registries from directories. A directory holds a schema file for each kind, named after it; files
with other endings are passed over. One file at fault makes the whole directory unusable.
-/

namespace Catalog

namespace SchemaFile

/-- The ending of the names of schema files. -/
def ending : String :=
  ".schema.json"

/-- The name of a schema file without its ending. -/
def stem? (name : String) : Option String :=
  Text.dropEnding? ending name

/-- The path of a file in the directory at `path`. -/
def pathIn (path name : String) : String :=
  if (Text.dropEnding? "/" path).isSome then path ++ name else path ++ "/" ++ name

/-- The content of a schema file. One byte more than allowed is looked at, so that a file that is
too large shows. -/
def readLimited (path : String) (max : Nat) (bytes : ByteArray) : Except LoadError String :=
  match Files.decodeText (bytes.extract 0 (max + 1)) with
  | .error e => .error (.unreadable path e)
  | .ok text => if max < text.utf8ByteSize then .error (.tooLarge max path) else .ok text

end SchemaFile

/-- A directory that is being loaded. -/
structure Loading where
  registry : Registry
  /-- The kinds and the paths of the files that have been loaded, in their order. -/
  loaded : List (Kind × String)

namespace Loading

/-- Takes in one entry of the directory at `path`. -/
def step (path : String) (l : Loading) (entry : DirectoryEntry) : Except SchemaError Loading :=
  match SchemaFile.stem? entry.name, entry.item with
  | none, _ => .ok l
  | some _, .link => .error (.load (.link entry.name))
  | some _, .other => .ok l
  | some stem, .file bytes =>
    match Kind.ofName? stem with
    | none => .error (.load (.unknownKind entry.name))
    | some kind =>
      let config := l.registry.config
      let count := l.loaded.length + 1
      let file := SchemaFile.pathIn path entry.name
      if config.maxSchemasFromDirectory < count then
        .error (.load (.tooMany config.maxSchemasFromDirectory count))
      else
        match SchemaFile.readLimited file config.maxSchemaFileSize bytes with
        | .error e => .error (.load e)
        | .ok text =>
          (l.registry.register kind (.ofText text)).map fun r => ⟨r, l.loaded ++ [(kind, file)]⟩

/-- Takes in the entries in their order, up to the first that is at fault. -/
def run (path : String) (l : Loading) : List DirectoryEntry → Loading × Option SchemaError
  | [] => (l, none)
  | entry :: entries =>
    match l.step path entry with
    | .ok l => l.run path entries
    | .error e => (l, some e)

/-- Loads the directory at `path`: what has been loaded, and the error that ended it. -/
def directory (files : Files) (config : RegistryConfig) (path : String) :
    Loading × Option SchemaError :=
  let start : Loading := ⟨.empty config, []⟩
  match files.list path with
  | .error e => (start, some (.load (.directory path e)))
  | .ok entries => start.run path entries

end Loading

namespace Registry

def ofDirectory (files : Files) (config : RegistryConfig) (path : String) :
    Except SchemaError Registry :=
  match Loading.directory files config path with
  | (l, none) => .ok l.registry
  | (_, some e) => .error e

end Registry
end Catalog
