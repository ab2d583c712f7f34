import Catalog.Json.Printer
import Catalog.Text.Quoted

/-!
Log events of the command, and the two ways in which they are written.
-/

namespace Catalog

inductive LogLevel where
  | off
  | error
  | warn
  | info
  | debug
  | trace
deriving DecidableEq

namespace LogLevel

def all : List LogLevel :=
  [.off, .error, .warn, .info, .debug, .trace]

def name : LogLevel → String
  | .off => "off"
  | .error => "error"
  | .warn => "warn"
  | .info => "info"
  | .debug => "debug"
  | .trace => "trace"

def ofName? (s : String) : Option LogLevel :=
  all.find? (·.name = s)

/-- How much is logged at the level. -/
def rank (l : LogLevel) : Nat :=
  all.findIdx (· = l)

def label (l : LogLevel) : String :=
  l.name.map Char.toUpper

end LogLevel

inductive LogFormat where
  | text
  | json
deriving DecidableEq

namespace LogFormat

def all : List LogFormat :=
  [.text, .json]

def name : LogFormat → String
  | .text => "text"
  | .json => "json"

def ofName? (s : String) : Option LogFormat :=
  all.find? (·.name = s)

end LogFormat

/-- A value in a log event. -/
inductive LogValue where
  /-- Text in the form in which people read it. -/
  | shown (s : String)
  /-- Text as data, which is quoted. -/
  | text (s : String)
  | count (n : Nat)
  | flag (b : Bool)
deriving DecidableEq

namespace LogValue

def line : LogValue → String
  | .shown s => s
  | .text s => Text.quote s
  | .count n => toString n
  | .flag b => toString b

def json : LogValue → Json
  | .shown s => .string s
  | .text s => .string s
  | .count n => .number (.int n)
  | .flag b => .bool b

end LogValue

structure LogEvent where
  level : LogLevel
  message : String
  fields : List (String × LogValue)
deriving DecidableEq

namespace LogEvent

/-- The event is logged where `limit` is the most that is asked for. -/
def isWithin (limit : LogLevel) (e : LogEvent) : Bool :=
  e.level.rank ≤ limit.rank

def line (format : LogFormat) (e : LogEvent) : String :=
  match format with
  | .text =>
    let label := e.level.label
    String.ofList (List.replicate (5 - label.length) ' ') ++ label ++ " " ++ e.message ++
      String.join (e.fields.map fun f => " " ++ f.1 ++ "=" ++ f.2.line)
  | .json =>
    let fields := ("message", .string e.message) :: e.fields.map fun f => (f.1, f.2.json)
    (Json.object [("level", .string e.level.label), ("fields", .object fields)]).compact

end LogEvent
end Catalog
