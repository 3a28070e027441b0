import LineAtlas.Files.ClassPath
import LineAtlas.Files.SourceIndex
import LineAtlas.Resolution.Resolve
import LineAtlas.Run.Config
import LineAtlas.Run.Outcome

/-!
# Runs

A reporter runs with its configuration as often as it is asked to. Once it is cancelled, it
takes no further class files, neither in this run nor in later ones.
-/

namespace LineAtlas

/-- Something that can run. -/
structure Reporter where
  /-- The configuration, which is valid. -/
  config : Config
  /-- Whether it was cancelled. -/
  isCancelled : Bool := false

namespace Reporter

/-- A reporter with a configuration. -/
def ofConfig (c : Config) : Except Failure Reporter := c.validate.map fun config => { config }

/-- The reporter, cancelled. -/
def cancel (r : Reporter) : Reporter := { r with isCancelled := true }

/-- What comes out of a class file. -/
def processFile (policy : AccountingPolicy) (tree : FileTree) (sources : SourceIndex)
    (p : Path) : FileResult :=
  match ClassFile.read tree p with
  | .error failure => .failed ⟨p.text, none, failure⟩
  | .ok file =>
    match file.resolve policy with
    | .error failure => .failed ⟨p.text, some file.name, failure⟩
    | .ok resolution =>
      match resolution.unit with
      | .foreign => .foreign file.name
      | _ => .resolved ⟨p, sources.sourceOf file.name file.sourceFile, resolution⟩

/-- Whether a result ends a run under a policy. -/
def ends (policy : ErrorPolicy) : FileResult → Bool
  | .failed _ => policy == .failFast
  | _ => false

/-- The results up to and including the first one that ends the run, and whether one did. -/
def takeResults (policy : ErrorPolicy) : Numbered FileResult → Numbered FileResult × Bool
  | [] => ([], false)
  | first :: rest =>
    if ends policy first.2 then ([first], true)
    else
      let (results, isEnded) := takeResults policy rest
      (first :: results, isEnded)

/-- Runs on the files of a tree. -/
def run (r : Reporter) (tree : FileTree) : Outcome × Reporter :=
  let c := r.config
  let discovery := Discovery.ofRoots tree c.classRoots
  let sources := SourceIndex.ofRoots tree c.sourceRoots c.projectRoot
  let startsCancelled :=
    r.isCancelled || (c.errorPolicy == .failFast && !discovery.failures.isEmpty)
  let (results, isEnded) :=
    if startsCancelled then ([], false)
    else takeResults c.errorPolicy (discovery.files.mapIdx fun position p =>
      (position, processFile c.accounting tree sources p))
  let isCancelled := startsCancelled || isEnded
  (.assemble c.accounting discovery.files.length discovery.failures results isCancelled,
    { r with isCancelled })

/-- The text of a report in the format of the configuration. -/
def render (r : Reporter) (report : Report) : String :=
  report.render r.config.format r.config.isPretty

/-- Writes a report to a file. -/
def write (r : Reporter) (report : Report) (tree : FileTree) (p : Path) :
    Except Failure FileTree :=
  (tree.write p (r.render report).toUTF8.toList).mapError fun fault => .io fault.message

end Reporter

end LineAtlas
