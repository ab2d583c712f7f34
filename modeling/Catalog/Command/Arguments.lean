import Catalog.Command.Log
import Catalog.Command.Output
import Catalog.Request.Identifier
import Catalog.Text.Split

/-!
The arguments of the command line, each with how it is written and how its value is read.
-/

namespace Catalog

inductive Arg where
  | format
  | logFormat
  | logLevel
  | maxNameLength
  | forbiddenChars
  | version
  | help
  | name
  | property
  | remove
  | set
  | source
  | destination
  | json
  | file
  | expectedKind
  | schemaDir
  | kind
  | extended
deriving DecidableEq

/-- An argument with its value. -/
inductive Setting where
  | format (f : OutputFormat)
  | logFormat (f : LogFormat)
  | logLevel (l : LogLevel)
  | maxNameLength (n : Nat)
  | forbiddenChars (cs : List Char)
  | name (s : String)
  | property (key value : String)
  | remove (key : String)
  | set (key value : String)
  | source (id : Identifier)
  | destination (id : Identifier)
  | json (text : String)
  | file (path : String)
  | expectedKind (k : Kind)
  | schemaDir (path : String)
  | kind (k : Kind)
  | extended

def Setting.arg : Setting → Arg
  | .format _ => .format
  | .logFormat _ => .logFormat
  | .logLevel _ => .logLevel
  | .maxNameLength _ => .maxNameLength
  | .forbiddenChars _ => .forbiddenChars
  | .name _ => .name
  | .property _ _ => .property
  | .remove _ => .remove
  | .set _ _ => .set
  | .source _ => .source
  | .destination _ => .destination
  | .json _ => .json
  | .file _ => .file
  | .expectedKind _ => .expectedKind
  | .schemaDir _ => .schemaDir
  | .kind _ => .kind
  | .extended => .extended

/-- Why arguments do not make up a command. -/
inductive UsageError where
  /-- Values of a fixed choice are refused without a reason. -/
  | invalidValue (value label : String) (reason : Option String)
  | emptyValue (label : String)
  | missingValue (label : String)
  | needlessValue (label : String)
  | repeated (label : String)
  | conflict (label other : String)
  | unknown (text : String)
  | missing (label : String)
  | missingCommand
deriving DecidableEq

def UsageError.message : UsageError → String
  | .invalidValue value label reason =>
    "invalid value '" ++ value ++ "' for '" ++ label ++ "'" ++ (reason.map (": " ++ ·)).getD ""
  | .emptyValue label => "a value is required for '" ++ label ++ "' but none was supplied"
  | .missingValue label => "a value is required for '" ++ label ++ "' but none was supplied"
  | .needlessValue label => "unexpected value for '" ++ label ++ "' found; no more were expected"
  | .repeated label => "the argument '" ++ label ++ "' cannot be used multiple times"
  | .conflict label other => "the argument '" ++ label ++ "' cannot be used with '" ++ other ++ "'"
  | .unknown text => "unexpected argument '" ++ text ++ "' found"
  | .missing label => "the following required arguments were not provided: " ++ label
  | .missingCommand => "a subcommand is required"

/-- Why a text is no number of 64 bits. -/
inductive CountError where
  | empty
  | digit
  | tooLarge

def CountError.message : CountError → String
  | .empty => "cannot parse integer from empty string"
  | .digit => "invalid digit found in string"
  | .tooLarge => "number too large to fit in target type"

namespace Arg

/-- Digits after those that make `n`; the first problem from the left is reported. -/
def readCountFrom (n : Nat) : List Char → Except CountError Nat
  | [] => .ok n
  | c :: cs =>
    if !c.isDigit then .error .digit
    else if Nat.pow 2 64 ≤ n * 10 + (c.toNat - '0'.toNat) then .error .tooLarge
    else readCountFrom (n * 10 + (c.toNat - '0'.toNat)) cs

/-- A number of 64 bits, which may have a plus sign. -/
def readCount (s : String) : Except CountError Nat :=
  match s.toList with
  | [] => .error .empty
  | ['+'] => .error .digit
  | '+' :: cs => readCountFrom 0 cs
  | cs => readCountFrom 0 cs

/-- The name after two dashes. -/
def long? : Arg → Option String
  | .format => some "format"
  | .logFormat => some "log-format"
  | .logLevel => some "log-level"
  | .maxNameLength => some "max-name-length"
  | .forbiddenChars => some "forbidden-chars"
  | .version => some "version"
  | .help => some "help"
  | .property => some "property"
  | .remove => some "remove"
  | .set => some "set"
  | .json => some "json"
  | .file => some "file"
  | .expectedKind => some "kind"
  | .schemaDir => some "schema-dir"
  | .extended => some "extended"
  | .name | .source | .destination | .kind => none

/-- The letter after one dash. -/
def short? : Arg → Option Char
  | .property => some 'p'
  | .version => some 'V'
  | .help => some 'h'
  | _ => none

/-- The argument as it is named in messages. -/
def label : Arg → String
  | .format => "--format <FORMAT>"
  | .logFormat => "--log-format <FORMAT>"
  | .logLevel => "--log-level <LEVEL>"
  | .maxNameLength => "--max-name-length <N>"
  | .forbiddenChars => "--forbidden-chars <CHARS>"
  | .version => "--version"
  | .help => "--help"
  | .name => "<NAME>"
  | .property => "--property <KEY=VALUE>"
  | .remove => "--remove <KEY>"
  | .set => "--set <KEY=VALUE>"
  | .source => "<SOURCE>"
  | .destination => "<DESTINATION>"
  | .json => "--json <JSON>"
  | .file => "--file <FILE>"
  | .expectedKind => "--kind <KIND>"
  | .schemaDir => "--schema-dir <DIR>"
  | .kind => "<KIND>"
  | .extended => "--extended"

/-- The environment variable that stands in for the argument. -/
def env? : Arg → Option String
  | .logLevel => some "CATALOGREST_LOG_LEVEL"
  | .maxNameLength => some "CATALOGREST_MAX_NAME_LENGTH"
  | .forbiddenChars => some "CATALOGREST_FORBIDDEN_CHARS"
  | .schemaDir => some "CATALOGREST_SCHEMA_DIR"
  | _ => none

/-- The argument may be given more than once. -/
def repeats : Arg → Bool
  | .property | .remove | .set => true
  | _ => false

/-- The argument has no value. -/
def isFlag : Arg → Bool
  | .version | .help | .extended => true
  | _ => false

def invalid (a : Arg) (value reason : String) : UsageError :=
  .invalidValue value a.label (some reason)

/-- One of a fixed choice of words. -/
def readChoice {α : Type} (a : Arg) (ofName? : String → Option α) (value : String) :
    Except UsageError α :=
  match ofName? value with
  | some x => .ok x
  | none => .error (if value = "" then .emptyValue a.label else .invalidValue value a.label none)

/-- A path, which is not empty. -/
def readPath (a : Arg) (value : String) : Except UsageError String :=
  if value = "" then .error (.emptyValue a.label) else .ok value

/-- A key and a value, cut at the first equals sign. -/
def readPair (a : Arg) (value : String) : Except UsageError (String × String) :=
  match Text.splitFirst? '=' value with
  | some p => .ok p
  | none => .error (a.invalid value ("expected KEY=VALUE, got " ++ Text.quote value))

def readIdentifier (a : Arg) (value : String) : Except UsageError Identifier :=
  (Identifier.parse value).mapError fun v => a.invalid value v.message

def readKind (a : Arg) (value : String) : Except UsageError Kind :=
  match Kind.ofName? value with
  | some k => .ok k
  | none => .error (a.invalid value ("unknown request kind " ++ Text.quote value
      ++ " (expected one of: " ++ ", ".intercalate (Kind.all.map Kind.name) ++ ")"))

/-- Reads the value of an argument. -/
def read (a : Arg) (value : String) : Except UsageError Setting :=
  match a with
  | .format => (a.readChoice OutputFormat.ofName? value).map .format
  | .logFormat => (a.readChoice LogFormat.ofName? value).map .logFormat
  | .logLevel => (a.readChoice LogLevel.ofName? value).map .logLevel
  | .maxNameLength =>
    match readCount value with
    | .ok n => .ok (.maxNameLength n)
    | .error e => .error (a.invalid value e.message)
  | .forbiddenChars => .ok (.forbiddenChars value.toList)
  | .name => .ok (.name value)
  | .property => (a.readPair value).map fun p => .property p.1 p.2
  | .remove => .ok (.remove value)
  | .set => (a.readPair value).map fun p => .set p.1 p.2
  | .source => (a.readIdentifier value).map .source
  | .destination => (a.readIdentifier value).map .destination
  | .json => .ok (.json value)
  | .file => (a.readPath value).map .file
  | .expectedKind => (a.readKind value).map .expectedKind
  | .schemaDir => (a.readPath value).map .schemaDir
  | .kind => (a.readKind value).map .kind
  | .version | .help | .extended => .error (.needlessValue a.label)

end Arg
end Catalog
