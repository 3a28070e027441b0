import LineAtlas.Exchange.AsJson
import LineAtlas.Exchange.AsYaml
import LineAtlas.Json.Read
import LineAtlas.Json.Write
import LineAtlas.Report.OfNode
import LineAtlas.Report.ToData
import LineAtlas.Yaml.Read

/-!
# Reports as text

A report is written in one of two formats, and read back from it.
-/

namespace LineAtlas

/-- The format of a written report. -/
inductive ReportFormat where
  /-- JSON. -/
  | json
  /-- YAML. -/
  | yaml
  deriving DecidableEq, Repr, Inhabited

namespace ReportFormat

/-- All formats. -/
def all : List ReportFormat := [.json, .yaml]

/-- The name of a format, which is also the extension of files in it. -/
def name : ReportFormat → String
  | .json => "json"
  | .yaml => "yaml"

/-- Reports are read from texts that nest at most this deep. -/
def maxDepth : ReportFormat → Nat
  | .json => 127
  | .yaml => 128

end ReportFormat

namespace Report

/-- The text of a report. Only JSON has a form with line breaks and one without. -/
def render (r : Report) : (format : ReportFormat) → (isPretty : Bool) → String
  | .json, false => r.toData.toJson.compact
  | .json, true => r.toData.toJson.pretty
  | .yaml, _ => r.toData.toYaml.render

/-- What a text in a format offers. -/
def node? (text : String) : ReportFormat → Option Exchange.Node
  | .json => (Json.parse? text).map .ofJson
  | .yaml => (Yaml.parse? text).map .ofYaml

/-- The report that a text spells. -/
def parse? (text : String) (format : ReportFormat) : Option Report :=
  (node? text format).bind (ofNode? format.maxDepth)

end Report

end LineAtlas
