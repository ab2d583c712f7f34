import Catalog.Form.Error
import Catalog.Json.Reader

/-!
Forms: how the values of a type stand in JSON. A form reads from a text, where the first problem in
the order of the text is reported, and from a value, whose objects have their keys in order.
-/

namespace Catalog

structure Form (α : Type) where
  /-- Reads from a text, with so many arrays and objects nested in each other. -/
  fromText : (depth : Nat) → Json.Reader Fault α
  fromValue : Json → Except Misfit α

namespace Form
variable {α β : Type}

/-- The front of a value and how deep the values inside it may be. -/
def openValue (depth : Nat) : Json.Reader Fault Json.Opening := fun s =>
  match Json.readOpening .exact s with
  | .error e => .error (.unread e)
  | .ok (.scalar v, rest) => .ok (.scalar v, rest)
  | .ok (o, rest) => if depth = 0 then .error (.unread .malformed) else .ok (o, rest)

def misfitAt (o : Json.Opening) (expected : Expected) : Fault :=
  .misfit (.wrongType
    (match o with
      | .scalar v => .ofJson v
      | .array => .sequence
      | .object => .map)
    expected)

def readColon (s : Json.Source) : Except Fault (Unit × Json.Source) :=
  (Json.readColon s).mapError .unread

/-- The bracket after the last item of an array that is to have no more. -/
def closeArray (s : Json.Source) : Except Fault (Unit × Json.Source) :=
  match s.skipBlank with
  | [] => .error (.unread .unfinished)
  | u :: rest => if u = some ']' then .ok ((), rest) else .error (.unread .malformed)

def text : Form String where
  fromText _ s :=
    match Json.readOpening .exact s with
    | .ok (.scalar (.string t), rest) => .ok (t, rest)
    | .ok (o, _) => .error (misfitAt o .text)
    | .error e => .error (.unread e)
  fromValue
    | .string t => .ok t
    | v => .error (.wrongType (.ofJson v) .text)

def valueItems (f : Form α) : List Json → Except Misfit (List α)
  | [] => .ok []
  | v :: vs => do
    let a ← f.fromValue v
    let rest ← f.valueItems vs
    return a :: rest

/-- A list stands as an array. -/
def list (f : Form α) : Form (List α) where
  fromText depth s := do
    let (o, s) ← openValue depth s
    match o with
    | .array =>
      let (items, s) ← Json.foldItems .unread
        (fun acc s => (f.fromText (depth - 1) s).map fun r => (r.1 :: acc, r.2)) s.length true [] s
      return (items.reverse, s)
    | o => .error (misfitAt o .sequence)
  fromValue
    | .array items => f.valueItems items
    | v => .error (.wrongType (.ofJson v) .sequence)

def valueTexts : Entries Json → Except Misfit (Entries String)
  | [] => .ok []
  | (k, v) :: ms => do
    let t ← text.fromValue v
    let rest ← valueTexts ms
    return (k, t) :: rest

/-- A map from texts to texts stands as an object, whose keys may not be repeated. -/
def textMap : Form (KeyMap String) where
  fromText depth s := do
    let (o, s) ← openValue depth s
    match o with
    | .object =>
      Json.foldMembers .unread .exact (fun (m : KeyMap String) k s => do
          let (_, s) ← readColon s
          let (t, s) ← text.fromText (depth - 1) s
          if m.contains k then .error (.misfit (.duplicateKey k)) else .ok (m.insert k t, s))
        s.length true .empty s
    | o => .error (misfitAt o .textMap)
  fromValue
    | .object members => (valueTexts members).map .ofEntries
    | v => .error (.wrongType (.ofJson v) .textMap)

/-- Of the values of a form those that `check` accepts, once they have been read to the end. -/
def refine (f : Form α) (check : α → Except RequestError β) : Form β where
  fromText depth s := do
    let (a, s) ← f.fromText depth s
    match check a with
    | .ok b => .ok (b, s)
    | .error e => .error (.misfit (.refused e))
  fromValue v := do
    match check (← f.fromValue v) with
    | .ok b => .ok b
    | .error e => .error (.refused e)

/-- Reads a text that holds one value of the form. -/
def parse (f : Form α) (s : Json.Source) : Except Fault α := do
  let (a, rest) ← f.fromText Json.depthLimit s
  match Json.readEnd rest with
  | .ok () => .ok a
  | .error e => .error (.unread e)

end Form
end Catalog
