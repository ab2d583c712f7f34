import Catalog.Command.Failure
import Catalog.Command.Invocation
import Catalog.Registry.Directory
import Catalog.Request.Decode

/-!
Running commands. A command logs events, and ends with the lines that it prints or with a failure.
What it asks of files is answered by a file system that is given to it.
-/

namespace Catalog

/-- A computation that logs events; what was logged before a failure is kept. -/
abbrev Session := ExceptT Failure (StateM (List LogEvent))

namespace Session

def log (level : LogLevel) (message : String) (fields : List (String × LogValue)) : Session Unit :=
  modify (· ++ [⟨level, message, fields⟩])

/-- Turns an error into a failure. -/
def check {ε α : Type} (f : ε → Failure) : Except ε α → Session α
  | .ok a => pure a
  | .error e => throw (f e)

end Session

namespace Command

/-- The map of keys and values that were given by one flag. Keys may not be repeated. -/
def collectPairs (flag : String) (pairs : List (String × String)) :
    Except Failure (KeyMap String) :=
  pairs.foldlM (fun (m : KeyMap String) (k, v) =>
    if m.contains k then .error (.repeatedKey flag k) else .ok (m.insert k v)) .empty

def buildCreate (rules : NamingRules) (name : String) (properties : List (String × String)) :
    Session Request := do
  let properties ← Session.check id (collectPairs "property" properties)
  let r ← Session.check (fun v => .request "invalid create-database request" (.violation v))
    (CreateDatabase.new rules name properties)
  Session.log .debug "built create-database request"
    [("name", .text r.name), ("properties", .count r.properties.size)]
  return .create r

def buildAlter (removals : List String) (updates : List (String × String)) : Session Request := do
  let updates ← Session.check id (collectPairs "set" updates)
  let r ← Session.check (fun v => .request "invalid alter-database request" (.violation v))
    (AlterDatabase.new removals updates)
  Session.log .debug "built alter-database request"
    [("removals", .count r.distinctRemovals.length), ("updates", .count r.updates.size)]
  return .alter r

def buildRename (source destination : Identifier) : Session Request := do
  let r ← Session.check (fun v => .request "invalid rename-table request" (.violation v))
    (RenameTable.new source destination)
  Session.log .debug "built rename-table request"
    [("source", .shown r.source.text), ("destination", .shown r.destination.text),
      ("cross_database", .flag r.crossesDatabases)]
  return .rename r

/-- The text of the body to be checked. -/
def readBody (files : Files) : BodySource → Except FileError String
  | .text s => .ok s
  | .file path => do Files.decodeText (← files.read path)

def bodyFailure : BodySource → FileError → Failure
  | .text _, e => .file "" e
  | .file path, e => .file path e

def logClassified (kind : Kind) : Session Unit :=
  Session.log .debug "classified request body" [("kind", .shown kind.name)]

/-- The kind of a body. A kind that the caller expects must be the kind that it shows. -/
def resolveKind (body : Json) (expected : Option Kind) : Session Kind := do
  let reject (m : Mismatch) : Session Kind := do
    Session.log .warn "rejected request body" [("error", .shown (RequestError.mismatch m).message)]
    throw (.request "unrecognized request body" (.mismatch m))
  match Kind.classify body with
  | .error m => reject m
  | .ok kind => do
    logClassified kind
    match expected with
    | some e => if e = kind then return kind else reject (.otherKind e kind)
    | none => return kind

def logRegistered (r : Registry) (kind : Kind) : Session Unit :=
  Session.log .debug "registered schema"
    [("kind", .shown kind.name), ("strict", .flag r.config.strictMode)]

/-- The contracts to check against: those of a directory, or else the built-in ones. -/
def loadRegistry (files : Files) : Option String → Session Registry
  | none => do
    let r ← Session.check (.schema "failed loading schemas") (Registry.builtin {})
    r.kinds.forM (logRegistered r)
    return r
  | some path => do
    let (l, e) := Loading.directory files {} path
    l.loaded.forM fun (kind, file) => do
      logRegistered l.registry kind
      Session.log .debug "loaded schema file" [("kind", .shown kind.name), ("path", .shown file)]
    match e with
    | some e => throw (.schema "failed loading schemas" e)
    | none => return l.registry

/-- Checks a body: its syntax, its shape, its contract, and last what its request demands. The last
step reads the text once more, so that repeated keys are refused. -/
def checkBody (files : Files) (rules : NamingRules) (source : BodySource) (expected : Option Kind)
    (schemaDir : Option String) : Session Request := do
  let text ← Session.check (bodyFailure source) (readBody files source)
  let body ← Session.check (fun e => .request "invalid request body" (.unread e))
    (Json.parse (.ofText text))
  let kind ← resolveKind body expected
  let registry ← loadRegistry files schemaDir
  match registry.validate kind text.toUTF8 with
  | .error e =>
    Session.log .warn "request body failed schema check"
      [("kind", .shown kind.name), ("error", .shown e.message)]
    throw (.schema "schema check failed" e)
  | .ok () => pure ()
  logClassified kind
  match Request.ofSource rules (.ofText text) with
  | .error e =>
    Session.log .warn "request body failed validation"
      [("kind", .shown kind.name), ("error", .shown e.message)]
    throw (.request "invalid request" e)
  | .ok request =>
    Session.log .debug "request body accepted" [("kind", .shown kind.name)]
    return request

/-- The name and version of the command. -/
def versionLine : String :=
  "catalogrest 0.1.0"

def versionLines : List String :=
  ["name: catalogrest", "version: 0.1.0", "target: unknown", "git_hash: unknown",
    "features: schema=true, cli=true",
    "request_kinds: " ++ ", ".intercalate (Kind.all.map Kind.name)]

/-- Runs a command and returns the lines that it prints. -/
def run (files : Files) (rules : NamingRules) (format : OutputFormat) :
    Command → Session (List String)
  | .createDatabase name properties => return (← buildCreate rules name properties).render format
  | .alterDatabase removals updates => return (← buildAlter removals updates).render format
  | .renameTable source destination => return (← buildRename source destination).render format
  | .check source expected schemaDir => do
    return (← checkBody files rules source expected schemaDir).render format
  | .schema kind => return [Schema.builtinText kind]
  | .version extended => return if extended then versionLines else [versionLine]

end Command

/-- What a run of the program shows. -/
structure Outcome where
  code : ExitCode
  /-- The lines on the standard output. -/
  output : List String
  /-- The lines on the standard error. -/
  errors : List String

namespace Invocation

def run (i : Invocation) (files : Files) (standard : OutputFormat) : Outcome :=
  let (result, events) := (i.command.run files i.rules (i.format.getD standard)).run.run []
  let logged := (events.filter (LogEvent.isWithin i.logLevel)).map (LogEvent.line i.logFormat)
  match result with
  | .ok output => ⟨.success, output, logged⟩
  | .error e => ⟨e.code, [], logged ++ ["error: " ++ e.message]⟩

end Invocation

namespace Outcome

def helpLine : String :=
  "Usage: catalogrest [OPTIONS] <COMMAND>"

def ofStop : Stop → Outcome
  | .usage e => ⟨.arguments, [], ["error: " ++ e.message, "", helpLine]⟩
  | .version => ⟨.success, [Command.versionLine], []⟩
  | .help => ⟨.success, [helpLine], []⟩

/-- Runs the program on its arguments; `standard` is the format where none is asked for. -/
def ofArguments (lookup : String → Option String) (files : Files) (standard : OutputFormat)
    (arguments : List String) : Outcome :=
  match Invocation.parse lookup arguments with
  | .ok i => i.run files standard
  | .error s => ofStop s

end Outcome
end Catalog
