import LineAtlas.Proofs.Exchange.Formats
import LineAtlas.Proofs.Report.ReadBack
import LineAtlas.Report.Text

/-!
# Reports read back from their text

A report that is written and read again is the same report, in both formats and in both styles of
JSON. It has to be no deeper than the reader of the format goes, and its YAML text has to be read as
the values that it was written from. For JSON that holds of every text.
-/

namespace LineAtlas.Report

open Exchange (Data Node)

/-- Reading a report from JSON text is reading it from what its data offers, in either style. -/
theorem parse?_json (r : Report) (isPretty : Bool) :
    parse? (r.render .json isPretty) .json
      = ofNode? ReportFormat.json.maxDepth r.toData.jsonNode := by
  have htext (style : Json.Value.Style) :
      Json.parse? (r.toData.toJson.render style) = some r.toData.toJson.reread :=
    Json.parse?_render_natural style (Data.natural_toJson r.toData)
  have hnode : node? (r.render .json isPretty) .json = some r.toData.jsonNode := by
    cases isPretty with
    | false => exact congrArg (Option.map Node.ofJson) (htext .compact)
    | true => exact congrArg (Option.map Node.ofJson) (htext (.indented 0))
  rw [parse?, hnode]
  rfl

/-- A report comes back from its text when it nests no deeper than its format is read. -/
theorem parse?_render (r : Report) (format : ReportFormat) (isPretty : Bool)
    (hlevels : r.toData.levels ≤ format.maxDepth)
    (hyaml : format = .yaml → Yaml.parse? r.toData.toYaml.render = some r.toData.toYaml) :
    parse? (r.render format isPretty) format = some r := by
  cases format with
  | json =>
    rw [parse?_json]
    exact ofNode?_toData Exchange.offering_json r hlevels
  | yaml =>
    have hnode : node? (r.render .yaml isPretty) .yaml = some (Node.ofYaml r.toData.toYaml) := by
      rw [node?, render, hyaml rfl]
      rfl
    rw [parse?, hnode]
    exact ofNode?_toData Exchange.offering_yaml r hlevels

/-- A report on a function with the name of nothing, one line of which has no branch at all. -/
def smallReport : Report :=
  ⟨[⟨"é", [], [⟨"null", none, "f()V", ⟨[(3, .branched .empty)], by decide⟩, none, .empty⟩], [], [],
    none⟩]⟩

/-- The report `smallReport` comes back from JSON on several lines and from YAML. -/
theorem parse?_render_small :
    parse? (smallReport.render .json true) .json = some smallReport ∧
      parse? (smallReport.render .yaml false) .yaml = some smallReport := by
  have hyaml : Yaml.parse? smallReport.toData.toYaml.render = some smallReport.toData.toYaml := by
    decide +kernel
  exact ⟨parse?_render smallReport .json true (by decide) (by simp),
    parse?_render smallReport .yaml false (by decide) fun _ => hyaml⟩

/-- Functions inside each other. -/
def tower : Nat → FunctionEntry
  | 0 => ⟨"f", none, "f()V", .empty, none, .empty⟩
  | height + 1 => ⟨"f", none, "f()V", .empty, none, ⟨[tower height], [], [], [], []⟩⟩

/-- A report on a file with functions inside each other. -/
def towerReport (height : Nat) : Report := ⟨[⟨"Tower.kt", [], [tower height], [], [], none⟩]⟩

/-- Reports that nest deeper than JSON is read do not come back. -/
theorem parse?_render_tower :
    (towerReport 61).toData.levels = ReportFormat.json.maxDepth + 1 ∧
      parse? ((towerReport 61).render .json false) .json = none := by
  have hnone : (ofNode? 127 (towerReport 61).toData.jsonNode).isNone = true := by decide +kernel
  refine ⟨by decide +kernel, ?_⟩
  rw [parse?_json]
  exact Option.isNone_iff_eq_none.mp hnone

end LineAtlas.Report
