/-!
Places in a request body. A place is given by the steps that lead to it from the body, and is
written the way they would be in code: `properties.owner`, `removals[2]`.
-/

namespace Catalog

inductive Step where
  | key (k : String)
  | index (i : Nat)
deriving DecidableEq

/-- The steps to a place, from the outside in. The body itself is reached by no step. -/
abbrev Field := List Step

namespace Field

def ofKey (k : String) : Field :=
  [.key k]

/-- The place of a member or item of the value at `f`. -/
def child (f : Field) (s : Step) : Field :=
  f ++ [s]

def extend (text : String) : Step → String
  | .key k => if text = "" then k else text ++ "." ++ k
  | .index i => text ++ "[" ++ toString i ++ "]"

def text (f : Field) : String :=
  f.foldl extend ""

end Field
end Catalog
