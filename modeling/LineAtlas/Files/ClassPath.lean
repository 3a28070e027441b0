import LineAtlas.ClassFile.Layout
import LineAtlas.Failure
import LineAtlas.Files.FileTree

/-!
# Class files on disk

The class files below some directories, each once and in the order of their paths, and what
they contain.
-/

namespace LineAtlas

/-- What is below a set of class roots. -/
structure Discovery where
  /-- Paths of the class files, in ascending order. -/
  files : List Path
  /-- A failure for every root that is missing and every directory that cannot be entered. -/
  failures : List ClassFailure

namespace Discovery

/-- Whether a path is that of a class file. -/
def isClassFile (p : Path) : Bool := p.extension? == some "class"

/-- Paths without those that only spell the one before in another way. -/
def withoutRepeats : List Path → List Path
  | first :: second :: rest =>
    if first.same second then withoutRepeats (first :: rest)
    else first :: withoutRepeats (second :: rest)
  | paths => paths

/-- The failure for a path that cannot be entered. -/
def walkFailure (p : Path) (fault : PathFault) : ClassFailure :=
  ⟨p.text, none, .io ("IO error for operation on " ++ p.text ++ ": " ++ fault.message)⟩

/-- The class files below some roots. A root may be a class file itself. -/
def ofRoots (t : FileTree) (roots : List Path) : Discovery :=
  let findings := roots.flatMap t.findingsBelow
  let files := (findings.filterMap (·.file?)).filter isClassFile
  { files := withoutRepeats (files.mergeSort Path.notAfter)
    failures := (findings.filterMap (·.fault?)).map fun entry => walkFailure entry.1 entry.2 }

end Discovery

/-- The class file at a path. -/
def ClassFile.read (t : FileTree) (p : Path) : Except Failure ClassFile :=
  match t.read p with
  | .error fault => .error (.malformedClassFile p.text fault.message)
  | .ok bytes =>
    match ClassFile.ofBytes bytes with
    | .ok file => .ok file
    | .error fault => .error (.malformedClassFile p.text fault.message)

end LineAtlas
