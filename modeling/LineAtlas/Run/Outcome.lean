import LineAtlas.Exchange.Data
import LineAtlas.Files.Path
import LineAtlas.Report.OfTree
import LineAtlas.Resolution.ResolvedUnit
import LineAtlas.Tree.Placement

/-!
# Outcome of a run

Class files are read and resolved one by one, and what came out of each of them is put
together in the end. Nothing depends on the order in which the parts arrive.
-/

namespace LineAtlas

open Exchange (Data)

/-- A class file that was resolved. -/
structure ResolvedFile where
  /-- Path of the class file. -/
  file : Path
  /-- Its source file, as it is shown. -/
  source : String
  /-- What it contributes, and the roles of its methods. -/
  resolution : Resolution

/-- What came out of a class file. -/
inductive FileResult where
  /-- It was resolved. -/
  | resolved (file : ResolvedFile)
  /-- It has no metadata; the internal name of the class is kept. -/
  | foreign (className : String)
  /-- It failed. -/
  | failed (failure : ClassFailure)

/-- Values with the positions of the class files that they belong to. -/
abbrev Numbered (α : Type) := List (Nat × α)

namespace Numbered

variable {α : Type}

/-- The values in the order of the class files. Values of one position keep their order. -/
def sorted (values : Numbered α) : Numbered α := values.mergeSort fun a b => a.1 ≤ b.1

/-- The values in the order of the class files, without positions. -/
def inOrder (values : Numbered α) : List α := (sorted values).map Prod.snd

end Numbered

namespace FileResult

/-- The resolved files among results. -/
def resolvedFiles (results : Numbered FileResult) : Numbered ResolvedFile :=
  results.filterMap fun entry =>
    match entry.2 with
    | .resolved file => some (entry.1, file)
    | _ => none

/-- The names of classes without metadata among results. -/
def foreignClasses (results : Numbered FileResult) : Numbered String :=
  results.filterMap fun entry =>
    match entry.2 with
    | .foreign name => some (entry.1, name)
    | _ => none

/-- The failures among results. -/
def failures (results : Numbered FileResult) : Numbered ClassFailure :=
  results.filterMap fun entry =>
    match entry.2 with
    | .failed failure => some (entry.1, failure)
    | _ => none

end FileResult

/-- The class files of one source file, in order. -/
structure SourceGroup where
  /-- The source file. -/
  source : String
  /-- Its class files. -/
  files : Numbered ResolvedFile

namespace SourceGroup

/-- The groups of all source files, in ascending order. -/
def ofFiles (files : Numbered ResolvedFile) : List SourceGroup :=
  let sources := ((files.map (·.2.source)).eraseDups).mergeSort fun a b => a ≤ b
  sources.map fun source => ⟨source, Numbered.sorted (files.filter (·.2.source == source))⟩

/-- The tree of a source file and what could not be placed in it. -/
def compose (policy : AccountingPolicy) (g : SourceGroup) : Composition :=
  SourceTree.compose g.source policy (g.files.map fun entry =>
    (entry.2.file.text, entry.2.resolution.unit))

/-- The position of the first class file. -/
def firstPosition (g : SourceGroup) : Nat := (g.files.head?.map Prod.fst).getD 0

/-- What could not be placed, at the position of the first class file. -/
def failures (policy : AccountingPolicy) (g : SourceGroup) : Numbered ClassFailure :=
  (g.compose policy).failures.map fun failure => (g.firstPosition, failure)

end SourceGroup

/-- Counts of a run. -/
structure RunStats where
  /-- Class files below the class roots. -/
  classFiles : Nat
  /-- Class files that were resolved. -/
  resolvedClasses : Nat
  /-- Class files without metadata. -/
  foreignClasses : Nat
  /-- Source files in the report. -/
  sourceFiles : Nat
  /-- Methods of resolved classes. -/
  methods : Nat
  /-- Methods by role. -/
  methodsWithRole : Role → Nat

/-- The written form of counts. Only roles that occur are listed. -/
def RunStats.toData (s : RunStats) : Data :=
  let roles := Role.all.filter fun role => 0 < s.methodsWithRole role
  .record (Data.field "class_files" (.number s.classFiles)
    ++ Data.field "resolved_classes" (.number s.resolvedClasses)
    ++ Data.field "foreign_classes" (.number s.foreignClasses)
    ++ Data.field "source_files" (.number s.sourceFiles)
    ++ Data.field "methods" (.number s.methods)
    ++ Data.field "methods_by_role" (.record (roles.map fun role =>
      (role.name, .number (s.methodsWithRole role)))))

/-- How a run ended. -/
inductive RunStatus where
  /-- Without any failure. -/
  | success
  /-- With failures. -/
  | failed
  /-- Before its time. -/
  | cancelled
  deriving DecidableEq, Repr

/-- The name of a status. -/
def RunStatus.name : RunStatus → String
  | .success => "success"
  | .failed => "failed"
  | .cancelled => "cancelled"

/-- What a run leads to. -/
structure Outcome where
  /-- The report. -/
  report : Report
  /-- What went wrong, in the order of the class files. -/
  failures : List ClassFailure
  /-- Classes without metadata, in the order of the class files. -/
  foreignClasses : List String
  /-- Roles of the methods of resolved classes, in the order of the class files. -/
  ledgers : List Ledger
  /-- Counts. -/
  stats : RunStats
  /-- Whether the run was cancelled. -/
  isCancelled : Bool

namespace Outcome

/-- How the run ended. -/
def status (o : Outcome) : RunStatus :=
  if o.isCancelled then .cancelled
  else if o.failures.isEmpty then .success
  else .failed

/-- The outcome of a run, from the failures of its roots and the results of its class
files. -/
def assemble (policy : AccountingPolicy) (classFiles : Nat) (rootFailures : List ClassFailure)
    (results : Numbered FileResult) (isCancelled : Bool) : Outcome :=
  let files := FileResult.resolvedFiles results
  let foreign := FileResult.foreignClasses results
  let groups := SourceGroup.ofFiles files
  let ledgers := (Numbered.inOrder files).map (·.resolution.ledger)
  { report := ⟨groups.map fun g => (g.compose policy).tree.fileEntry⟩
    failures := Numbered.inOrder (rootFailures.map (fun failure => (0, failure))
      ++ FileResult.failures results ++ groups.flatMap (SourceGroup.failures policy))
    foreignClasses := Numbered.inOrder foreign
    ledgers
    stats := {
      classFiles
      resolvedClasses := files.length
      foreignClasses := foreign.length
      sourceFiles := groups.length
      methods := (ledgers.map Ledger.size).foldr (· + ·) 0
      methodsWithRole := fun role => (ledgers.map (·.count role)).foldr (· + ·) 0 }
    isCancelled }

end Outcome

end LineAtlas
