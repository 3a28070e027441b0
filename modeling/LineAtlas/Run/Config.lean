import LineAtlas.Files.FileTree
import LineAtlas.Report.Text
import LineAtlas.Resolution.Ledger

/-!
# Configuration of a run

Which files are read, how strict the run is, and how its report is written. A configuration
is put together in the program or read from YAML.
-/

namespace LineAtlas

open Exchange (Data Node)

namespace AccountingPolicy

/-- All policies. -/
def all : List AccountingPolicy := [.strict, .lenient]

/-- The name of a policy. -/
def name : AccountingPolicy → String
  | .strict => "strict"
  | .lenient => "lenient"

end AccountingPolicy

/-- What a failure does to the rest of a run. -/
inductive ErrorPolicy where
  /-- It is noted. -/
  | collectAll
  /-- It ends the run. -/
  | failFast
  deriving DecidableEq, Repr, Inhabited

namespace ErrorPolicy

/-- All policies. -/
def all : List ErrorPolicy := [.collectAll, .failFast]

/-- The name of a policy. -/
def name : ErrorPolicy → String
  | .collectAll => "collect-all"
  | .failFast => "fail-fast"

end ErrorPolicy

/-- The configuration of a run. -/
structure Config where
  /-- Directories of class files. -/
  classRoots : List Path := []
  /-- Directories of source files. -/
  sourceRoots : List Path := []
  /-- The directory below which source files are shown. -/
  projectRoot : Option Path := none
  /-- The number of workers; zero leaves it to the machine. It never shows in the result. -/
  jobs : Nat := 0
  /-- What a failure does to the rest of the run. -/
  errorPolicy : ErrorPolicy := .collectAll
  /-- What happens to methods that fit no rule. -/
  accounting : AccountingPolicy := .strict
  /-- The format of the report. -/
  format : ReportFormat := .json
  /-- Whether the report has line breaks. -/
  isPretty : Bool := false
  deriving DecidableEq, Repr, Inhabited

namespace Config

/-- The configuration, if a run is possible with it. -/
def validate (c : Config) : Except Failure Config :=
  if c.classRoots.isEmpty then .error (.invalidConfig "at least one class root is required")
  else
    match (c.classRoots ++ c.sourceRoots).find? (·.text.isEmpty) with
    | some root => .error (.invalidConfig ("empty root path " ++ root.text))
    | none => .ok c

/-- The number of workers, unless it is left to the machine. -/
def fixedJobs? (c : Config) : Option Nat := if c.jobs = 0 then none else some c.jobs

/-- A node as a path. -/
def path? (node : Node) : Option Path := node.text?.map Path.mk

/-- The names of the settings. -/
def settingNames : List String :=
  ["class_roots", "source_roots", "project_root", "jobs", "error_policy", "accounting", "format",
    "pretty"]

/-- The configuration that a node offers. Settings that are left out have their defaults. -/
def ofNode? (node : Node) : Option Config := do
  let fields ← node.fields? settingNames
  let classRoots ← fields.withDefault? "class_roots" [] (Node.list? path?)
  let sourceRoots ← fields.withDefault? "source_roots" [] (Node.list? path?)
  let projectRoot ← fields.optional? "project_root" path?
  let jobs ← fields.withDefault? "jobs" 0 (Node.numberBelow? UInt64.size)
  let errorPolicy ← fields.withDefault? "error_policy" .collectAll
    (Node.choice? ErrorPolicy.all ErrorPolicy.name)
  let accounting ← fields.withDefault? "accounting" .strict
    (Node.choice? AccountingPolicy.all AccountingPolicy.name)
  let format ← fields.withDefault? "format" .json
    (Node.choice? ReportFormat.all ReportFormat.name)
  let isPretty ← fields.withDefault? "pretty" false Node.truth?
  return { classRoots, sourceRoots, projectRoot, jobs, errorPolicy, accounting, format, isPretty }

/-- The written form. -/
def toData (c : Config) : Data :=
  let paths (roots : List Path) : Data := .list (roots.map fun root => .text root.text)
  .record (Data.field "class_roots" (paths c.classRoots)
    ++ Data.field "source_roots" (paths c.sourceRoots)
    ++ Data.field "project_root" (.ofOption (c.projectRoot.map fun root => .text root.text))
    ++ Data.field "jobs" (.number c.jobs)
    ++ Data.field "error_policy" (.text c.errorPolicy.name)
    ++ Data.field "accounting" (.text c.accounting.name)
    ++ Data.field "format" (.text c.format.name)
    ++ Data.field "pretty" (.truth c.isPretty))

/-- The configuration that a YAML text spells. -/
def parse (text : String) : Except Failure Config :=
  match (Yaml.parse? text).bind fun value => ofNode? (.ofYaml value) with
  | some c => c.validate
  | none => .error .yaml

/-- The configuration with its paths taken from a directory. -/
def rebase (base : Path) (c : Config) : Config :=
  { c with
    classRoots := c.classRoots.map base.join
    sourceRoots := c.sourceRoots.map base.join
    projectRoot := c.projectRoot.map base.join }

/-- The configuration in a file, with its paths taken from the directory of the file. -/
def read (t : FileTree) (p : Path) : Except Failure Config :=
  match t.readText p with
  | .error fault => .error (.io fault.message)
  | .ok text =>
    match parse text with
    | .error failure => .error failure
    | .ok c =>
      match p.parent? with
      | some base => .ok (if base.text.isEmpty then c else c.rebase base)
      | none => .ok c

end Config

end LineAtlas
