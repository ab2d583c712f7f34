/-!
Texts on their way into the JSON reader. A source is a list of units: the characters of a text, and
for every byte that belongs to no well-formed UTF-8 sequence a unit without a character.
-/

namespace Catalog.Json

abbrev Source := List (Option Char)

/-- Why a source is no JSON text. -/
inductive ReadError where
  /-- The text ends before the value does. -/
  | unfinished
  /-- The text cannot be continued to a JSON text. -/
  | malformed
deriving DecidableEq

def ReadError.message : ReadError → String
  | .unfinished => "the text ends too early"
  | .malformed => "the text is malformed"

namespace Source

def ofText (s : String) : Source :=
  s.toList.map some

/-- The units of `bytes` from position `i` on, in reverse, put before `acc`. -/
def ofBytesFrom (bytes : ByteArray) : Nat → Nat → Source → Source
  | 0, _, acc => acc
  | fuel + 1, i, acc =>
    if i < bytes.size then
      match bytes.utf8DecodeChar? i with
      | some c => ofBytesFrom bytes fuel (i + c.utf8Size) (some c :: acc)
      | none => ofBytesFrom bytes fuel (i + 1) (none :: acc)
    else acc

/-- Every unit takes at least one byte, so the length bounds the number of units. -/
def ofBytes (bytes : ByteArray) : Source :=
  (ofBytesFrom bytes bytes.size 0 []).reverse

/-- How many bytes the source was written with. -/
def byteCount (s : Source) : Nat :=
  s.foldl (fun n u => n + u.elim 1 Char.utf8Size) 0

def isBlank (u : Option Char) : Bool :=
  u = some ' ' || u = some '\t' || u = some '\n' || u = some '\r'

/-- The source from its first unit that is not blank on. -/
def skipBlank (s : Source) : Source :=
  s.dropWhile isBlank

end Source

/-- A reader takes a value off the front of a source and leaves the rest. -/
abbrev Reader (ε α : Type) := Source → Except ε (α × Source)

/-- The characters of `w` must stand in front. -/
def readWord : List Char → Reader ReadError Unit
  | [], s => .ok ((), s)
  | _ :: _, [] => .error .unfinished
  | c :: w, u :: s => if u = some c then readWord w s else .error .malformed

end Catalog.Json
