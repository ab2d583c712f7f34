import Catalog.Command.Run

/-!
The command line program. All that it decides is decided by `Outcome.ofArguments`; here the
environment and the files are read and the outcome is written.
-/

namespace Catalog.Disk

/-- Reads the variables that stand in for arguments. -/
def readVariables : IO (List (String × String)) := do
  let mut found := []
  for a in [Arg.logLevel, .maxNameLength, .forbiddenChars, .schemaDir] do
    if let some name := a.env? then
      if let some value ← IO.getEnv name then
        found := (name, value) :: found
  return found

def fileError : IO.Error → FileError
  | .noFileOrDirectory .. => .notFound
  | .inappropriateType .. => .isDirectory
  | .permissionDenied .. => .denied
  | e => .other (toString e)

def readFile (path : String) : IO (Except FileError ByteArray) := do
  try return .ok (← IO.FS.readBinFile path)
  catch e => return .error (fileError e)

/-- The entries of a directory, with the bytes of its schema files. -/
def readDirectory (path : String) : IO (Except FileError (List DirectoryEntry)) := do
  try
    let mut entries := []
    for e in ← (System.mkFilePath [path]).readDir do
      let item ←
        match (← e.path.symlinkMetadata).type with
        | .symlink => pure DirectoryItem.link
        | .file =>
          if (SchemaFile.stem? e.fileName).isSome then pure (.file (← IO.FS.readBinFile e.path))
          else pure .other
        | _ => pure .other
      entries := entries ++ [⟨e.fileName, item⟩]
    return .ok entries
  catch
    | .inappropriateType .. => return .error .notDirectory
    | e => return .error (fileError e)

/-- A file system of one file and one directory, whose paths need not be looked at. -/
def filesOf (body : Except FileError ByteArray)
    (schemas : Except FileError (List DirectoryEntry)) : Files where
  read _ := body
  list _ := schemas

/-- Reads the files that a command asks for. -/
def readFiles : Command → IO Files
  | .check source _ schemaDir => do
    let body ← match source with
      | .file path => readFile path
      | .text _ => pure (.error .notFound)
    let schemas ← match schemaDir with
      | some path => readDirectory path
      | none => pure (.error .notFound)
    return filesOf body schemas
  | _ => return filesOf (.error .notFound) (.error .notFound)

end Catalog.Disk

open Catalog in
def main (arguments : List String) : IO UInt32 := do
  let environment ← Disk.readVariables
  let output ← IO.getStdout
  let errors ← IO.getStderr
  let standard := if ← output.isTty then OutputFormat.table else .json
  let outcome ← match Invocation.parse (environment.lookup ·) arguments with
    | .ok i => do
      let files ← Disk.readFiles i.command
      pure (i.run files standard)
    | .error s => pure (.ofStop s)
  outcome.output.forM output.putStrLn
  outcome.errors.forM errors.putStrLn
  return outcome.code.number.toUInt32
