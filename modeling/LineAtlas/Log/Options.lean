import LineAtlas.Exchange.Data
import LineAtlas.Exchange.Node

/-!
# Options of the log

How much is logged, and how. The log of a process is set up once; every later attempt finds
it as it is.
-/

namespace LineAtlas

open Exchange (Data Node)

/-- How grave an event has to be to be logged. -/
inductive LogLevel where
  | error | warn | info | debug | trace
  deriving DecidableEq, Repr

namespace LogLevel

/-- All levels, from the gravest on. -/
def all : List LogLevel := [.error, .warn, .info, .debug, .trace]

/-- The name of a level. -/
def name : LogLevel → String
  | .error => "error"
  | .warn => "warn"
  | .info => "info"
  | .debug => "debug"
  | .trace => "trace"

/-- The name by which events of a level are marked. -/
def eventName (level : LogLevel) : String := level.name.map Char.toUpper

/-- The level unless another one is asked for. -/
def standard : LogLevel := .warn

/-- The level and all that tell more. -/
def andBeyond (level : LogLevel) : List LogLevel := all.dropWhile (· != level)

/-- A name that no level has, in lower case. -/
structure Unknown where
  /-- The name. -/
  name : String
  deriving DecidableEq, Repr

/-- The wording of the complaint about an unknown level. -/
def Unknown.message (u : Unknown) : String := "unknown log level \x60" ++ u.name ++ "\x60"

/-- The level of a name, in upper or lower case. One level also goes by a longer name. -/
def parse (text : String) : Except Unknown LogLevel :=
  let lower := text.map Char.toLower
  if lower == "warning" then .ok .warn
  else
    match all.find? (·.name == lower) with
    | some level => .ok level
    | none => .error ⟨lower⟩

end LogLevel

/-- How an event is shown. -/
inductive LogFormat where
  /-- As a line of text. -/
  | compact
  /-- As JSON. -/
  | json
  deriving DecidableEq, Repr

namespace LogFormat

/-- All formats. -/
def all : List LogFormat := [.compact, .json]

/-- The name of a format. -/
def name : LogFormat → String
  | .compact => "compact"
  | .json => "json"

/-- The format unless another one is asked for. -/
def standard : LogFormat := .compact

end LogFormat

/-- Options of the log. -/
structure LogOptions where
  /-- How grave an event has to be. -/
  level : LogLevel
  /-- How an event is shown. -/
  format : LogFormat
  deriving DecidableEq, Repr

namespace LogOptions

/-- The options unless others are asked for. -/
def standard : LogOptions := ⟨.standard, .standard⟩

/-- The written form. -/
def toData (o : LogOptions) : Data :=
  .record (Data.field "level" (.text o.level.name) ++ Data.field "format" (.text o.format.name))

/-- The options that a node offers. -/
def ofNode? (node : Node) : Option LogOptions := do
  let fields ← node.fields? ["level", "format"]
  let level ← fields.required? "level" (Node.choice? LogLevel.all LogLevel.name)
  let format ← fields.required? "format" (Node.choice? LogFormat.all LogFormat.name)
  return ⟨level, format⟩

end LogOptions

/-- The log of a process. -/
structure Log where
  /-- The options with which it was set up. -/
  active : Option LogOptions := none
  deriving DecidableEq, Repr

namespace Log

/-- Sets the log up, unless that was done before. As nothing else logs, the log always is the
one of this library afterwards. -/
def setUp (log : Log) (options : LogOptions) : Bool × Log :=
  (true, ⟨log.active.or (some options)⟩)

end Log

end LineAtlas
