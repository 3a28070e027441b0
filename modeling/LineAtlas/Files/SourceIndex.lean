import LineAtlas.ClassFile.Basic
import LineAtlas.Files.FileTree
import LineAtlas.Name.Mangled

/-!
# Source files of classes

A class knows the name of its source file, and its package. The file is looked for in the
directory of the package first, and then by its name anywhere.
-/

namespace LineAtlas

/-- The source files below some directories. -/
structure SourceIndex where
  /-- All files. -/
  tree : FileTree
  /-- The source roots. -/
  roots : List Path
  /-- The directory below which source files are shown. -/
  projectRoot : Option Path
  /-- The files below the source roots. -/
  files : List Path

namespace SourceIndex

/-- The index of the files below some roots. Missing roots have no files. -/
def ofRoots (tree : FileTree) (roots : List Path) (projectRoot : Option Path) : SourceIndex :=
  { tree, roots, projectRoot
    files := (roots.flatMap tree.findingsBelow).filterMap (·.file?) }

/-- The path of a source file that was not found. -/
def assumedPath (package file : String) : String :=
  if package.isEmpty then file else package ++ "/" ++ file

/-- The name of the class at the top level that a class is in. -/
def outermostName (simpleName : String) : String :=
  match Mangled.split simpleName with
  | .ok (first :: _) => first
  | _ => simpleName

/-- The file of a name in the directory of a package, in the first root that has it. -/
def inPackage? (index : SourceIndex) (package file : String) : Option Path :=
  (index.roots.map fun root => (root.join ⟨package⟩).join ⟨file⟩).find? index.tree.hasFile

/-- The only file of a name. -/
def onlyNamed? (index : SourceIndex) (file : String) : Option Path :=
  match index.files.filter (·.fileName? == some file) with
  | [only] => some only
  | _ => none

/-- The source file of a class, as it is shown. A file that is not found, or not the only one
of its name, is assumed to be in the package of the class. -/
def sourceOf (index : SourceIndex) (className : String) (sourceFile : Option String) : String :=
  let package := ClassFile.packageOf className
  match sourceFile with
  | none => assumedPath package (outermostName (ClassFile.simpleNameOf className))
  | some file =>
    match (index.inPackage? package file).or (index.onlyNamed? file) with
    | some path => path.shownBelow index.projectRoot
    | none => assumedPath package file

end SourceIndex

end LineAtlas
