import Catalog.Files
import Catalog.Text.Split

/-!
Trees of files in memory. A link names a path from the root of the tree and is followed wherever it
stands on the way to a file or directory.
-/

namespace Catalog

inductive FileTree where
  | file (bytes : ByteArray)
  | link (target : String)
  | directory (children : List (String × FileTree))

namespace FileTree

def empty : FileTree :=
  .directory []

/-- The parts of a path. -/
def parts (path : String) : List String :=
  (Text.split '/' path).filter fun p => p ≠ "" && p ≠ "."

/-- Puts a node at a path and makes the directories above it; a directory that is there already is
kept. -/
def insert (node : FileTree) : List String → FileTree → FileTree
  | [], t =>
    match node, t with
    | .directory [], .directory children => .directory children
    | _, _ => node
  | p :: ps, t =>
    let children := match t with
      | .directory children => children
      | _ => []
    let child := node.insert ps ((children.lookup p).getD empty)
    .directory (children.filter (·.1 ≠ p) ++ [(p, child)])

/-- Where a walk down a path ends. -/
inductive Walk where
  | found (t : FileTree)
  | linked (target : String) (rest : List String)
  | failed (e : FileError)

/-- Walks down the parts of a path to the first link or the end. -/
def walk : List String → FileTree → Walk
  | ps, .link target => .linked target ps
  | [], t => .found t
  | p :: ps, .directory children =>
    match children.lookup p with
    | some t => walk ps t
    | none => .failed .notFound
  | _ :: _, .file _ => .failed .notDirectory

/-- The node at a path, after so many links at most. -/
def find (root : FileTree) : Nat → List String → Except FileError FileTree
  | 0, _ => .error (.other "Too many levels of symbolic links (os error 40)")
  | fuel + 1, ps =>
    match root.walk ps with
    | .found t => .ok t
    | .linked target rest => root.find fuel (parts target ++ rest)
    | .failed e => .error e

/-- The path below `base`, by its parts, if it is there. -/
def below? (base path : String) : Option (List String) :=
  if path = base then some []
  else if (base ++ "/").toList.isPrefixOf path.toList then
    some (parts (String.ofList (path.toList.drop (base.toList.length + 1))))
  else none

def findPath (root : FileTree) (base path : String) : Except FileError FileTree :=
  match below? base path with
  | some ps => root.find 40 ps
  | none => .error .notFound

/-- The tree as a file system whose files stand below `base`. -/
def files (root : FileTree) (base : String) : Files where
  read path := do
    match ← root.findPath base path with
    | .file bytes => .ok bytes
    | _ => .error .isDirectory
  list path := do
    match ← root.findPath base path with
    | .directory children =>
      return children.map fun (name, t) =>
        ⟨name, match t with
          | .file bytes => .file bytes
          | .link _ => .link
          | .directory _ => .other⟩
    | _ => .error .notDirectory

end FileTree
end Catalog
