/-!
What the library asks of a file system: the bytes of a file, and the entries of a directory with the
bytes of its files.
-/

namespace Catalog

inductive FileError where
  | notFound
  | notDirectory
  | isDirectory
  | denied
  /-- The bytes of a file that is to be a text are not well-formed UTF-8. -/
  | notText
  | other (message : String)
deriving DecidableEq

def FileError.message : FileError → String
  | .notFound => "No such file or directory (os error 2)"
  | .notDirectory => "Not a directory (os error 20)"
  | .isDirectory => "Is a directory (os error 21)"
  | .denied => "Permission denied (os error 13)"
  | .notText => "stream did not contain valid UTF-8"
  | .other message => message

/-- What stands under a name in a directory. A link is not followed. -/
inductive DirectoryItem where
  | file (bytes : ByteArray)
  | link
  | other

structure DirectoryEntry where
  name : String
  item : DirectoryItem

structure Files where
  read : String → Except FileError ByteArray
  list : String → Except FileError (List DirectoryEntry)

/-- The text that the bytes of a file stand for. -/
def Files.decodeText (bytes : ByteArray) : Except FileError String :=
  match String.fromUTF8? bytes with
  | some s => .ok s
  | none => .error .notText

end Catalog
