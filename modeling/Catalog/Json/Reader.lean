import Catalog.Json.Basic
import Catalog.Json.Numeral
import Catalog.Json.Text

/-!
Reading JSON texts. A value is read from its front: a scalar, or the bracket that opens an array or
object, whose parts are then read in a loop. The loops take what they do with each part as an
argument, so that values of other types are read by the same rules. Their fuel is the length of the
source, of which every round takes at least one unit.
-/

namespace Catalog.Json

/-- The front of a value. -/
inductive Opening where
  | scalar (v : Json)
  | array
  | object

/-- How exactly the scalars are read. -/
inductive Care where
  /-- Scalars are read for their values. -/
  | exact
  /-- Scalars are only skipped: a number may be too large, and a surrogate may lack its partner. -/
  | skipped
deriving DecidableEq

def readNumber (care : Care) : Reader ReadError Number := fun s =>
  match care, readNumeral s with
  | .exact, .error e => .error e
  | .skipped, .error _ => .error .malformed
  | .exact, .ok (n, rest) =>
    match n.value? with
    | some v => .ok (v, rest)
    | none => .error .malformed
  | .skipped, .ok (_, rest) => .ok (.int 0, rest)

def readOpening (care : Care) : Reader ReadError Opening := fun s =>
  match s.skipBlank with
  | [] => .error .unfinished
  | u :: rest =>
    if u = some '[' then .ok (.array, rest)
    else if u = some '\x7b' then .ok (.object, rest)
    else if u = some '"' then
      (readText (care = .exact) rest).map fun r => (.scalar (.string r.1), r.2)
    else if u = some 'n' then (readWord ['u', 'l', 'l'] rest).map fun r => (.scalar .null, r.2)
    else if u = some 't' then
      (readWord ['r', 'u', 'e'] rest).map fun r => (.scalar (.bool true), r.2)
    else if u = some 'f' then
      (readWord ['a', 'l', 's', 'e'] rest).map fun r => (.scalar (.bool false), r.2)
    else if u = some '-' || (digit? u).isSome then
      (readNumber care (u :: rest)).map fun r => (.scalar (.number r.1), r.2)
    else .error .malformed

/-- Goes to the next item of an array: the rest from there on, or none with the rest after the
bracket. -/
def nextItem (first : Bool) (s : Source) : Except ReadError (Bool × Source) :=
  match s.skipBlank with
  | [] => .error .unfinished
  | u :: rest =>
    if u = some ']' then .ok (false, rest)
    else if first then .ok (true, u :: rest)
    else if u = some ',' then
      match Source.skipBlank rest with
      | [] => .error .unfinished
      | w :: rest => if w = some ']' then .error .malformed else .ok (true, w :: rest)
    else .error .malformed

/-- Goes to the next member of an object: its key, with the rest after it, or none with the rest
after the bracket. -/
def nextKey (care : Care) (first : Bool) (s : Source) : Except ReadError (Option String × Source) :=
  match s.skipBlank with
  | [] => .error .unfinished
  | u :: rest =>
    if u = some '\x7d' then .ok (none, rest)
    else if !first && u ≠ some ',' then .error .malformed
    else
      match if first then u :: rest else Source.skipBlank rest with
      | [] => .error .unfinished
      | w :: rest =>
        if w = some '"' then (readText (care = .exact) rest).map fun r => (some r.1, r.2)
        else .error .malformed

/-- The colon between a key and its value. -/
def readColon : Reader ReadError Unit := fun s =>
  match s.skipBlank with
  | [] => .error .unfinished
  | u :: rest => if u = some ':' then .ok ((), rest) else .error .malformed

section Loops
variable {ε σ : Type} (fail : ReadError → ε)

/-- Folds the items of an array, after its opening bracket. -/
def foldItems (item : σ → Reader ε σ) : Nat → Bool → σ → Reader ε σ
  | 0, _, _, _ => .error (fail .unfinished)
  | fuel + 1, first, acc, s =>
    match nextItem first s with
    | .error e => .error (fail e)
    | .ok (false, rest) => .ok (acc, rest)
    | .ok (true, rest) =>
      match item acc rest with
      | .error e => .error e
      | .ok (acc, rest) => foldItems item fuel false acc rest

/-- Folds the members of an object, after its opening bracket. The reader of a member starts after
its key. -/
def foldMembers (care : Care) (member : σ → String → Reader ε σ) : Nat → Bool → σ → Reader ε σ
  | 0, _, _, _ => .error (fail .unfinished)
  | fuel + 1, first, acc, s =>
    match nextKey care first s with
    | .error e => .error (fail e)
    | .ok (none, rest) => .ok (acc, rest)
    | .ok (some k, rest) =>
      match member acc k rest with
      | .error e => .error e
      | .ok (acc, rest) => foldMembers care member fuel false acc rest

end Loops

/-- A value whose arrays and objects hold what `inner` reads; without it there are none. -/
def readWith (care : Care) (inner : Option (Reader ReadError Json)) :
    Reader ReadError Json := fun s =>
  match readOpening care s, inner with
  | .error e, _ => .error e
  | .ok (.scalar v, rest), _ => .ok (v, rest)
  | .ok _, none => .error .malformed
  | .ok (.array, rest), some inner =>
    (foldItems id (fun acc s => (inner s).map fun r => (r.1 :: acc, r.2))
      rest.length true [] rest).map fun r => (.array r.1.reverse, r.2)
  | .ok (.object, rest), some inner =>
    (foldMembers id care (fun acc k s => do
        let (_, s) ← readColon s
        let (v, s) ← inner s
        return ((k, v) :: acc, s))
      rest.length true [] rest).map fun r => (.object r.1.reverse, r.2)

/-- A value with at most `depth` arrays and objects nested in each other. -/
def readValue (care : Care) : Nat → Reader ReadError Json
  | 0 => readWith care none
  | depth + 1 => readWith care (some (readValue care depth))

/-- How many arrays and objects may be nested in each other. -/
def depthLimit : Nat :=
  127

/-- Skips a value of any depth. -/
def skipValue : Reader ReadError Unit := fun s =>
  (readValue .skipped s.length s).map fun r => ((), r.2)

/-- Nothing but blanks may follow a value. -/
def readEnd (s : Source) : Except ReadError Unit :=
  if s.skipBlank.isEmpty then .ok () else .error .malformed

/-- The tree of a JSON text, with the members of its objects as they are written. -/
def parseTree (s : Source) : Except ReadError Json := do
  let (v, rest) ← readValue .exact depthLimit s
  readEnd rest
  return v

/-- The value of a JSON text. -/
def parse (s : Source) : Except ReadError Json :=
  (parseTree s).map collapse

end Catalog.Json
