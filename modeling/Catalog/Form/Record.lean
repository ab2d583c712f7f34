import Catalog.Form.Basic

/-!
Records: an object with a member for every field, or an array of the fields in the order of
declaration. The fields are read into slots, one after the other, and a record is closed when all
have been read.
-/

namespace Catalog.Form
variable {σ α : Type}

/-- A field of a record that is being read into `σ`. -/
structure Slot (σ : Type) where
  name : String
  filled : σ → Bool
  fromText : (depth : Nat) → σ → Json.Reader Fault σ
  fromValue : σ → Json → Except Misfit σ

/-- The slot of a field, with its place in `σ`. -/
def slot (name : String) (f : Form α) (get : σ → Option α) (set : α → σ → σ) : Slot σ where
  name := name
  filled st := (get st).isSome
  fromText depth st s := (f.fromText depth s).map fun r => (set r.1 st, r.2)
  fromValue st v := (f.fromValue v).map fun a => set a st

/-- The value of a field, which may not be missing. -/
def filledOr (name : String) (a : Option α) : Except Misfit α :=
  match a with
  | some a => .ok a
  | none => .error (.missingField name)

structure Record (σ α : Type) where
  name : String
  slots : List (Slot σ)
  empty : σ
  /-- Fields without a slot are skipped. -/
  lenient : Bool
  /-- Names the first field that is missing, in the order of declaration. -/
  close : σ → Except Misfit α

namespace Record
variable (r : Record σ α)

def slot? (name : String) : Option (Slot σ) :=
  r.slots.find? (·.name = name)

def unknown (name : String) : Misfit :=
  .unknownField name (r.slots.map (·.name))

/-- One member, after its key. An unknown or repeated field is reported before its value is read. -/
def readMember (depth : Nat) (st : σ) (key : String) : Json.Reader Fault σ := fun s =>
  match r.slot? key with
  | some slot =>
    if slot.filled st then .error (.misfit (.duplicateField key))
    else do
      let (_, s) ← readColon s
      slot.fromText depth st s
  | none =>
    if r.lenient then do
      let (_, s) ← readColon s
      match Json.skipValue s with
      | .ok (_, s) => .ok (st, s)
      | .error e => .error (.unread e)
    else .error (.misfit (r.unknown key))

/-- The fields of the slots from the `i`-th on, as items of an array. -/
def readItems (depth : Nat) (i : Nat) (st : σ) : List (Slot σ) → Json.Reader Fault σ
  | [], s => do
    let (_, s) ← closeArray s
    return (st, s)
  | slot :: slots, s =>
    match Json.nextItem (i = 0) s with
    | .error e => .error (.unread e)
    | .ok (false, _) => .error (.misfit (.tooShort i r.name r.slots.length))
    | .ok (true, s) => do
      let (st, s) ← slot.fromText depth st s
      readItems depth (i + 1) st slots s

def closeText (st : σ) (s : Json.Source) : Except Fault (α × Json.Source) :=
  match r.close st with
  | .ok a => .ok (a, s)
  | .error m => .error (.misfit m)

def valueMembers (st : σ) : Entries Json → Except Misfit σ
  | [] => .ok st
  | (k, v) :: ms =>
    match r.slot? k with
    | some slot =>
      if slot.filled st then .error (.duplicateField k)
      else do
        let st ← slot.fromValue st v
        valueMembers st ms
    | none => if r.lenient then valueMembers st ms else .error (r.unknown k)

/-- The fields of the slots from the `i`-th on, among `length` items. -/
def valueItems (length i : Nat) (st : σ) : List (Slot σ) → List Json → Except Misfit σ
  | [], [] => .ok st
  | [], _ :: _ => .error (.tooLong length)
  | _ :: _, [] => .error (.tooShort i r.name r.slots.length)
  | slot :: slots, v :: vs => do
    let st ← slot.fromValue st v
    valueItems length (i + 1) st slots vs

def form : Form α where
  fromText depth s := do
    let (o, s) ← openValue depth s
    match o with
    | .object =>
      let (st, s) ←
        Json.foldMembers .unread .exact (r.readMember (depth - 1)) s.length true r.empty s
      r.closeText st s
    | .array =>
      let (st, s) ← r.readItems (depth - 1) 0 r.empty r.slots s
      r.closeText st s
    | o => .error (misfitAt o (.record r.name))
  fromValue
    | .object members => do r.close (← r.valueMembers r.empty members)
    | .array items => do r.close (← r.valueItems items.length 0 r.empty r.slots items)
    | v => .error (.wrongType (.ofJson v) (.record r.name))

end Record

section Pair
variable {α β : Type} (name : String) (a : String × Form α) (b : String × Form β)

/-- The record of two fields, neither of which may be missing, and no others. -/
def pairRecord : Record (Option α × Option β) (α × β) where
  name := name
  slots := [slot a.1 a.2 (·.1) (fun x st => (some x, st.2)),
    slot b.1 b.2 (·.2) (fun y st => (st.1, some y))]
  empty := (none, none)
  lenient := false
  close st := do return (← filledOr a.1 st.1, ← filledOr b.1 st.2)

def pair : Form (α × β) :=
  (pairRecord name a b).form

end Pair

end Catalog.Form
