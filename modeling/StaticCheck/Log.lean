import StaticCheck.Run

/-! # Log lines

How the events of a check are written to a log, and which of them a threshold lets through. -/

namespace StaticCheck

/-- How much is logged, from nothing to everything. -/
inductive LogLevel where
  | off | error | warn | info | debug | trace
deriving DecidableEq

namespace LogLevel

/-- The place of a level in that order. -/
def rank : LogLevel → Nat
  | off => 0
  | error => 1
  | warn => 2
  | info => 3
  | debug => 4
  | trace => 5

/-- The name of a level in capitals. -/
def name : LogLevel → String
  | off => "OFF"
  | error => "ERROR"
  | warn => "WARN"
  | info => "INFO"
  | debug => "DEBUG"
  | trace => "TRACE"

def all : List LogLevel := [off, error, warn, info, debug, trace]

/-- The level of a name, in whatever case it is written. -/
def ofName? (name : String) : Option LogLevel :=
  all.find? fun level => level.name == name.map Char.toUpper

/-- Whether a threshold lets an event of this level through. -/
def passes (level threshold : LogLevel) : Bool := level.rank ≤ threshold.rank

end LogLevel

/-- The value of a field of an event. -/
inductive FieldValue where
  | number (n : Nat)
  | text (s : String)
deriving DecidableEq

def FieldValue.render : FieldValue → String
  | number n => toString n
  | text s => s

namespace Event

def level : Event → LogLevel
  | typed _ _ => .trace
  | declared _ _ _ => .debug
  | entered _ _ => .debug
  | left _ => .debug
  | completed _ => .info

def component : Event → String
  | typed _ _ => "semck::sema::expr"
  | _ => "semck::sema::analyzer"

def message : Event → String
  | typed _ _ => "expression typed"
  | declared _ _ _ => "declared"
  | entered _ _ => "enter block"
  | left _ => "leave block"
  | completed _ => "semantic analysis complete"

/-- The fields of an event, in the order they are written. -/
def fields : Event → List (String × FieldValue)
  | typed e ty =>
    [("span", .text e.span.describe), ("expr", .text e.render), ("ty", .text ty.name)]
  | declared name ty depth =>
    [("name", .text name), ("ty", .text ty.name), ("depth", .number depth)]
  | entered depth bindings => [("depth", .number depth), ("bindings", .number bindings)]
  | left depth => [("depth", .number depth)]
  | completed metrics => [("metrics", .text metrics.report)]

/-- The log line of an event; the level is aligned to the right in five columns. -/
def line (event : Event) : String :=
  let level := event.level.name
  let margin := String.ofList (List.replicate (5 - level.length) ' ')
  let fields := event.fields.map fun (key, value) => " " ++ key ++ "=" ++ value.render
  margin ++ level ++ " " ++ event.component ++ ": " ++ event.message ++ String.join fields

end Event

/-- The log lines of the events that pass a threshold. -/
def logLines (threshold : LogLevel) (events : List Event) : List String :=
  (events.filter fun event => event.level.passes threshold).map Event.line

end StaticCheck
