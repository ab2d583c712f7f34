import Catalog.Form.Record
import Catalog.Request.Decode

/-!
The forms of requests and of their parts, for readers that know beforehand what a text holds.
-/

namespace Catalog

namespace Identifier

def form : Form Identifier :=
  (Form.pair "RawIdentifier" ("database_name", .text) ("object_name", .text)).refine
    fun (database, object) => (new database object).mapError .violation

end Identifier

namespace CreateDatabase

def form : Form CreateDatabase :=
  (Form.pair "RawCreateDatabaseRequest" ("name", .text) ("properties", .textMap)).refine
    fun (name, properties) => (new {} name properties).mapError .violation

end CreateDatabase

namespace AlterDatabase

def form : Form AlterDatabase :=
  (Form.pair "RawAlterDatabaseRequest" ("removals", .list .text) ("updates", .textMap)).refine
    fun (removals, updates) => (new removals updates).mapError .violation

end AlterDatabase

namespace RenameTable

def form : Form RenameTable :=
  (Form.pair "RawRenameTableRequest" ("source", Identifier.form)
    ("destination", Identifier.form)).refine
      fun (source, destination) => (new source destination).mapError .violation

end RenameTable

namespace AlterOutcome

/-- An outcome while it is being read. -/
structure Partial where
  removed : Option (List String) := none
  updated : Option (List String) := none
  missing : Option (List String) := none

/-- Outcomes may have further fields. -/
def form : Form AlterOutcome :=
  Form.Record.form (σ := Partial) {
    name := "AlterOutcome"
    slots := [
      Form.slot "removed" (.list .text) (·.removed) (fun x st => { st with removed := some x }),
      Form.slot "updated" (.list .text) (·.updated) (fun x st => { st with updated := some x }),
      Form.slot "missing" (.list .text) (·.missing) (fun x st => { st with missing := some x })]
    empty := {}
    lenient := true
    close := fun st => do
      return ⟨← Form.filledOr "removed" st.removed, ← Form.filledOr "updated" st.updated,
        ← Form.filledOr "missing" st.missing⟩ }

end AlterOutcome

namespace Kind

def choose (name : String) : Except Misfit Kind :=
  match ofName? name with
  | some k => .ok k
  | none => .error (.unknownChoice name (all.map Kind.name))

/-- Null is all that may stand beside the name of a kind. -/
def readNothing : Json.Reader Fault Unit := fun s =>
  match Json.readOpening .exact s with
  | .ok (.scalar .null, rest) => .ok ((), rest)
  | .ok (o, _) => .error (Form.misfitAt o .nothing)
  | .error e => .error (.unread e)

/-- The only member of an object that names a kind, after its opening bracket. -/
def readMember : Json.Reader Fault Kind := fun s => do
  match Json.readOpening .exact s with
  | .ok (.scalar (.string name), rest) =>
    let k ← (choose name).mapError .misfit
    let (_, rest) ← Form.readColon rest
    let (_, rest) ← readNothing rest
    match rest.skipBlank with
    | [] => .error (.unread .unfinished)
    | u :: rest => if u = some '\x7d' then .ok (k, rest) else .error (.unread .malformed)
  | .ok (o, _) => .error (Form.misfitAt o .choiceName)
  | .error e => .error (.unread e)

/-- A kind stands as its name, or as an object with the name as its only key and null as its
value. -/
def form : Form Kind where
  fromText _ s := do
    match s.skipBlank with
    | [] => .error (.unread .unfinished)
    | some '"' :: rest =>
      match Json.readText true rest with
      | .ok (name, rest) => return (← (choose name).mapError .misfit, rest)
      | .error e => .error (.unread e)
    | some '\x7b' :: rest => readMember rest
    | _ :: _ => .error (.unread .malformed)
  fromValue
    | .string name => choose name
    | .object [(name, v)] => do
      let k ← choose name
      match v with
      | .null => .ok k
      | v => .error (.wrongType (.ofJson v) .nothing)
    | .object _ => .error .manyChoices
    | v => .error (.wrongType (.ofJson v) .choice)

end Kind

namespace Request

/-- A body of any kind is read to its end before it is looked into. -/
def form : Form Request where
  fromText depth s := do
    match Json.readValue .exact depth s with
    | .error e => .error (.unread e)
    | .ok (tree, rest) =>
      match ofScanned {} (.ofTree tree) with
      | .ok r => .ok (r, rest)
      | .error e => .error (.misfit (.refused e))
  fromValue v := (ofValue {} v).mapError .refused

end Request
end Catalog
