import Catalog.Command.Arguments

/-!
One level of the command line: the part before the subcommand or the part after it. Arguments are
taken from the left. A value that stands apart from its option, or for a position, is read only when
the next known argument arrives or the level ends; a value that is attached to its option is read at
once.
-/

namespace Catalog

inductive Subcommand where
  | createDatabase
  | alterDatabase
  | renameTable
  | check
  | schema
  | version
deriving DecidableEq

namespace Subcommand

def all : List Subcommand :=
  [.createDatabase, .alterDatabase, .renameTable, .check, .schema, .version]

def name : Subcommand → String
  | .createDatabase => "create-database"
  | .alterDatabase => "alter-database"
  | .renameTable => "rename-table"
  | .check => "check"
  | .schema => "schema"
  | .version => "version"

def ofName? (s : String) : Option Subcommand :=
  all.find? (·.name = s)

/-- The options that only this subcommand has. -/
def options : Subcommand → List Arg
  | .createDatabase => [.property]
  | .alterDatabase => [.remove, .set]
  | .check => [.json, .file, .expectedKind, .schemaDir]
  | .version => [.extended]
  | .renameTable | .schema => []

/-- What stands at the positions of the subcommand; all of it is required. -/
def positions : Subcommand → List Arg
  | .createDatabase => [.name]
  | .renameTable => [.source, .destination]
  | .schema => [.kind]
  | .alterDatabase | .check | .version => []

end Subcommand

/-- What a level knows. -/
structure Level where
  options : List Arg
  positions : List Arg
  hasSubcommands : Bool

namespace Level

/-- Options that may stand at either level. -/
def shared : List Arg :=
  [.format, .logFormat, .logLevel, .maxNameLength, .forbiddenChars]

def outer : Level :=
  ⟨shared ++ [.version, .help], [], true⟩

def inner (c : Subcommand) : Level :=
  ⟨c.options ++ shared ++ [.help], c.positions, false⟩

def long? (l : Level) (name : String) : Option Arg :=
  l.options.find? (·.long? = some name)

def short? (l : Level) (letter : Char) : Option Arg :=
  l.options.find? (·.short? = some letter)

end Level

/-- Why no command is run. -/
inductive Stop where
  | usage (e : UsageError)
  | version
  | help

/-- The arguments of a level that have been taken so far. -/
structure Taken where
  settings : List Setting := []
  /-- An argument whose value has not been read, or for which a value has still to come. -/
  pending : Option (Arg × Option String) := none
  /-- How many positions are filled. -/
  position : Nat := 0

namespace Taken

def awaitsValue (t : Taken) : Bool :=
  t.pending.any (·.2.isNone)

def has (t : Taken) (a : Arg) : Bool :=
  t.settings.any (·.arg = a)

/-- Adds an argument with its value; most may not be repeated. -/
def add (t : Taken) (a : Arg) (value : String) : Except Stop Taken :=
  if !a.repeats && t.has a then .error (.usage (.repeated a.label))
  else
    match a.read value with
    | .ok s => .ok { t with settings := t.settings ++ [s] }
    | .error e => .error (.usage e)

/-- Reads the pending value. -/
def settle (t : Taken) : Except Stop Taken :=
  match t.pending with
  | none => .ok t
  | some (a, none) => .error (.usage (.missingValue a.label))
  | some (a, some value) => ({ t with pending := none }).add a value

/-- Takes an argument without a value. -/
def addFlag (t : Taken) (a : Arg) : Except Stop Taken := do
  let t ← t.settle
  match a with
  | .version => .error .version
  | .help => .error .help
  | a =>
    if t.has a then .error (.usage (.repeated a.label))
    else return { t with settings := t.settings ++ [.extended] }

/-- Takes an option, with its value if one is attached. -/
def addOption (t : Taken) (a : Arg) (attached : Option String) : Except Stop Taken := do
  let t ← t.settle
  match attached with
  | some value => t.add a value
  | none => return { t with pending := some (a, none) }

/-- Takes an argument with two dashes: a name, and a value if there is an equals sign. -/
def addLong (t : Taken) (l : Level) (body : String) : Except Stop Taken :=
  let (name, attached) := match Text.splitFirst? '=' body with
    | some (name, value) => (name, some value)
    | none => (body, none)
  match l.long? name with
  | none => .error (.usage (.unknown body))
  | some a =>
    if !a.isFlag then t.addOption a attached
    else if attached.isSome then .error (.usage (.needlessValue a.label))
    else t.addFlag a

/-- Takes an argument with one dash. What follows the letter is its value, after an equals sign or
without one. -/
def addShort (t : Taken) (l : Level) (letter : Char) (rest : List Char) : Except Stop Taken :=
  match l.short? letter with
  | none => .error (.usage (.unknown (String.singleton letter)))
  | some a =>
    if a.isFlag then t.addFlag a
    else
      match rest with
      | [] => t.addOption a none
      | '=' :: value => t.addOption a (some (String.ofList value))
      | value => t.addOption a (some (String.ofList value))

/-- Takes an argument at the next position. -/
def addPosition (t : Taken) (l : Level) (text : String) : Except Stop Taken :=
  match l.positions[t.position]? with
  | none => .error (.usage (.unknown text))
  | some a => do
    let t ← t.settle
    return { t with pending := some (a, some text), position := t.position + 1 }

/-- Takes arguments up to a subcommand, which is returned with the arguments after it. After two
dashes alone, no argument is an option or a subcommand. -/
def take (l : Level) (escaped : Bool) (t : Taken) :
    List String → Except Stop (Taken × Option (Subcommand × List String))
  | [] => .ok (t, none)
  | text :: rest =>
    if escaped then do
      let t ← t.addPosition l text
      take l true t rest
    else if !t.awaitsValue && l.hasSubcommands && (Subcommand.ofName? text).isSome then
      .ok (t, (Subcommand.ofName? text).map fun c => (c, rest))
    else
      match text.toList with
      | ['-', '-'] => take l true t rest
      | '-' :: '-' :: body => do
        let t ← t.addLong l (String.ofList body)
        take l false t rest
      | '-' :: letter :: value => do
        let t ← t.addShort l letter value
        take l false t rest
      | _ =>
        match t.pending with
        | some (a, none) => take l false { t with pending := some (a, some text) } rest
        | _ => do
          let t ← t.addPosition l text
          take l false t rest

end Taken

/-- The settings that the environment adds to those of a level. -/
def Taken.environment (lookup : String → Option String) (l : Level) (t : Taken) :
    Except Stop (List Setting) :=
  l.options.foldlM (fun acc a =>
    match a.env?.bind lookup with
    | some value =>
      if t.has a then .ok acc
      else
        match a.read value with
        | .ok s => .ok (acc ++ [s])
        | .error e => .error (.usage e)
    | none => .ok acc) []

end Catalog
