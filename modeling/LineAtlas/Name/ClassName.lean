import LineAtlas.Text.Split

/-!
# Declared class names

A declared class is named by its package and by the dotted chain of the classes around it.
The same name has a metadata form (`com/example/Outer.Inner`) and an internal form
(`com/example/Outer$Inner`).
-/

namespace LineAtlas

/-- A declared class name, split into its package and its name inside the package. -/
structure ClassName where
  /-- Dotted package name, empty for the root package. -/
  packageName : String
  /-- Enclosing classes and the class itself, joined by dots. -/
  relative : String
  deriving DecidableEq, Repr, Inhabited, Hashable

namespace ClassName

/-- Reads the metadata form: the package ends at the last slash. -/
def ofMetadata (text : String) : ClassName :=
  match Text.cutLast? '/' text with
  | some (package, relative) => ⟨Text.replaceChar '/' '.' package, relative⟩
  | none => ⟨"", text⟩

/-- The classes of the chain, outermost first. -/
def segments (n : ClassName) : List String := Text.pieces '.' n.relative

/-- The number of classes in the chain. -/
def depth (n : ClassName) : Nat := n.segments.length

/-- The innermost class of the chain. -/
def last (n : ClassName) : String :=
  match Text.cutLast? '.' n.relative with
  | some (_, last) => last
  | none => n.relative

/-- The enclosing class, when there is one. -/
def parent? (n : ClassName) : Option ClassName :=
  (Text.cutLast? '.' n.relative).map fun (outer, _) => ⟨n.packageName, outer⟩

/-- The name of a class declared directly inside this one. -/
def nested (n : ClassName) (inner : String) : ClassName :=
  ⟨n.packageName, n.relative ++ "." ++ inner⟩

/-- The internal form: slashes in the package and dollars between the classes. -/
def internal (n : ClassName) : String :=
  let relative := Text.replaceChar '.' '$' n.relative
  if n.packageName.isEmpty then relative
  else Text.replaceChar '.' '/' n.packageName ++ "/" ++ relative

/-- The package, a slash and the relative name; the relative name alone in the root package. -/
def display (n : ClassName) : String :=
  if n.packageName.isEmpty then n.relative else n.packageName ++ "/" ++ n.relative

end ClassName

end LineAtlas
