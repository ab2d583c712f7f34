import Catalog.Command.Level
import Catalog.Request.Naming

/-!
Invocations: what the arguments and the environment ask for. A setting after the subcommand goes
before the same one in front of it, and both go before the environment.
-/

namespace Catalog

/-- Where the body to be checked comes from. -/
inductive BodySource where
  | text (s : String)
  | file (path : String)

inductive Command where
  | createDatabase (name : String) (properties : List (String × String))
  | alterDatabase (removals : List String) (updates : List (String × String))
  | renameTable (source destination : Identifier)
  | check (body : BodySource) (kind : Option Kind) (schemaDir : Option String)
  | schema (kind : Kind)
  | version (extended : Bool)

structure Invocation where
  /-- Without a format the output is JSON, or a table on a terminal. -/
  format : Option OutputFormat
  logFormat : LogFormat
  logLevel : LogLevel
  rules : NamingRules
  command : Command

namespace Setting

def format? : Setting → Option OutputFormat
  | .format f => some f
  | _ => none

def logFormat? : Setting → Option LogFormat
  | .logFormat f => some f
  | _ => none

def logLevel? : Setting → Option LogLevel
  | .logLevel l => some l
  | _ => none

def maxNameLength? : Setting → Option Nat
  | .maxNameLength n => some n
  | _ => none

def forbiddenChars? : Setting → Option (List Char)
  | .forbiddenChars cs => some cs
  | _ => none

def name? : Setting → Option String
  | .name s => some s
  | _ => none

def property? : Setting → Option (String × String)
  | .property k v => some (k, v)
  | _ => none

def remove? : Setting → Option String
  | .remove k => some k
  | _ => none

def set? : Setting → Option (String × String)
  | .set k v => some (k, v)
  | _ => none

def source? : Setting → Option Identifier
  | .source id => some id
  | _ => none

def destination? : Setting → Option Identifier
  | .destination id => some id
  | _ => none

def json? : Setting → Option String
  | .json s => some s
  | _ => none

def file? : Setting → Option String
  | .file s => some s
  | _ => none

def expectedKind? : Setting → Option Kind
  | .expectedKind k => some k
  | _ => none

def schemaDir? : Setting → Option String
  | .schemaDir s => some s
  | _ => none

def kind? : Setting → Option Kind
  | .kind k => some k
  | _ => none

def extended? : Setting → Option Unit
  | .extended => some ()
  | _ => none

end Setting

namespace Command

/-- A setting that must be there. -/
def required {α : Type} (settings : List Setting) (a : Arg) (f : Setting → Option α) :
    Except UsageError α :=
  match settings.findSome? f with
  | some x => .ok x
  | none => .error (.missing a.label)

/-- The body of a check is given in one of two ways. -/
def bodySource (settings : List Setting) : Except UsageError BodySource :=
  match settings.findSome? Setting.json?, settings.findSome? Setting.file? with
  | some text, none => .ok (.text text)
  | none, some path => .ok (.file path)
  | some _, some _ => .error (.conflict Arg.json.label Arg.file.label)
  | none, none => .error (.missing Arg.json.label)

def ofSettings (settings : List Setting) : Subcommand → Except UsageError Command
  | .createDatabase => do
    let name ← required settings .name Setting.name?
    return .createDatabase name (settings.filterMap Setting.property?)
  | .alterDatabase =>
    .ok (.alterDatabase (settings.filterMap Setting.remove?) (settings.filterMap Setting.set?))
  | .renameTable => do
    let source ← required settings .source Setting.source?
    let destination ← required settings .destination Setting.destination?
    return .renameTable source destination
  | .check => do
    let body ← bodySource settings
    return .check body (settings.findSome? Setting.expectedKind?)
      (settings.findSome? Setting.schemaDir?)
  | .schema => do
    let kind ← required settings .kind Setting.kind?
    return .schema kind
  | .version => .ok (.version (settings.findSome? Setting.extended?).isSome)

end Command

namespace Invocation

def usage {α : Type} (e : Except UsageError α) : Except Stop α :=
  e.mapError .usage

/-- The invocation of a command with the settings of both levels, those that count more in front. -/
def ofSettings (settings : List Setting) (command : Command) : Invocation where
  format := settings.findSome? Setting.format?
  logFormat := (settings.findSome? Setting.logFormat?).getD .text
  logLevel := (settings.findSome? Setting.logLevel?).getD .warn
  rules := ⟨settings.findSome? Setting.maxNameLength?,
    (settings.findSome? Setting.forbiddenChars?).getD []⟩
  command := command

/-- The level after the subcommand is completed before the level in front of it. -/
def parse (lookup : String → Option String) (arguments : List String) : Except Stop Invocation := do
  match ← Taken.take .outer false {} arguments with
  | (outer, none) => do
    let outer ← outer.settle
    let _ ← outer.environment lookup .outer
    .error (.usage .missingCommand)
  | (outer, some (subcommand, rest)) => do
    let level := Level.inner subcommand
    let (inner, _) ← Taken.take level false {} rest
    let inner ← inner.settle
    let innerEnv ← inner.environment lookup level
    let command ← usage (Command.ofSettings (inner.settings ++ innerEnv) subcommand)
    let outer ← outer.settle
    let outerEnv ← outer.environment lookup .outer
    return ofSettings (inner.settings ++ outer.settings ++ innerEnv ++ outerEnv) command

end Invocation
end Catalog
