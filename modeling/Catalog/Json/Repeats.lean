import Catalog.Field
import Catalog.Json.Reader

/-!
Repeated keys. The value of a text keeps the last of repeated keys, so what a text repeats is kept
beside its value, with the object that repeats it.
-/

namespace Catalog.Json

/-- The object at `place` has the key once more than before. -/
structure Repeat where
  place : Field
  key : String
deriving DecidableEq

mutual

/-- Every occurrence of a key beyond its first in the same object, in the order in which the members
that repeat them end. -/
def repeats (place : Field) : Json → List Repeat
  | .array items => repeatsItems place 0 items
  | .object members => repeatsMembers place [] members
  | _ => []

def repeatsItems (place : Field) (i : Nat) : List Json → List Repeat
  | [] => []
  | v :: vs => v.repeats (place.child (.index i)) ++ repeatsItems place (i + 1) vs

/-- The keys in front of these members are `seen`. -/
def repeatsMembers (place : Field) (seen : List String) : List (String × Json) → List Repeat
  | [] => []
  | (k, v) :: ms =>
    v.repeats (place.child (.key k)) ++ (if seen.contains k then [⟨place, k⟩] else []) ++
      repeatsMembers place (k :: seen) ms

end

/-- A value, with what its text repeats. -/
structure Scanned where
  value : Json
  repeats : List Repeat

namespace Scanned

/-- A value that comes from no text repeats nothing. -/
def ofValue (v : Json) : Scanned :=
  ⟨v.collapse, []⟩

def ofTree (t : Json) : Scanned :=
  ⟨t.collapse, t.repeats []⟩

end Scanned

/-- Reads a JSON text and keeps what it repeats. -/
def scan (s : Source) : Except ReadError Scanned :=
  (parseTree s).map .ofTree

end Catalog.Json
