import LineAtlas.Text.Split

/-!
# Paths

A path keeps the spelling in which it was given. Paths are compared by their parts, where
repeated slashes and most single dots do not count.
-/

namespace LineAtlas

/-- The spelling of a path. -/
structure Path where
  /-- The text. -/
  text : String
  deriving DecidableEq, Repr, Inhabited

/-- A part of a path. -/
inductive PathPart where
  /-- The slash at the start of an absolute path. -/
  | root
  /-- The single dot at the start of a relative path. -/
  | here
  /-- Two dots. -/
  | up
  /-- A name. -/
  | named (name : String)
  deriving DecidableEq, Repr

namespace PathPart

/-- The text of a part. -/
def text : PathPart → String
  | .root => "/"
  | .here => "."
  | .up => ".."
  | .named name => name

/-- The part that a piece between slashes stands for, unless it is skipped. -/
def ofPiece? (piece : String) : Option PathPart :=
  if piece.isEmpty || piece == "." then none
  else if piece == ".." then some .up
  else some (.named piece)

/-- Position among the kinds of parts. -/
def rank : PathPart → Nat
  | .root => 0
  | .here => 1
  | .up => 2
  | .named _ => 3

/-- Order of parts: by kind, and names by their characters. -/
def order : PathPart → PathPart → Ordering
  | .named a, .named b => compare a b
  | a, b => compare a.rank b.rank

end PathPart

namespace Path

/-- The pieces of a path between slashes. -/
def pieces (p : Path) : List String := Text.pieces '/' p.text

/-- The number of bytes that a path has at most. -/
def maxBytes : Nat := 4095

/-- Whether a path has too many bytes to be looked up. -/
def isTooLong (p : Path) : Bool := maxBytes < p.text.utf8ByteSize

/-- Whether a path starts at the root. -/
def isAbsolute (p : Path) : Bool := p.text.startsWith "/"

/-- The parts of a path. -/
def parts (p : Path) : List PathPart :=
  match p.pieces with
  | [] => []
  | first :: rest =>
    let start :=
      if p.isAbsolute then [.root]
      else if first == "." then [.here]
      else (PathPart.ofPiece? first).toList
    start ++ rest.filterMap PathPart.ofPiece?

/-- Order of paths by their parts. -/
def order (a b : Path) : Ordering := List.compareLex PathPart.order a.parts b.parts

/-- Whether a path is not behind another one. -/
def notAfter (a b : Path) : Bool := (order a b).isLE

/-- Whether two paths have the same parts. -/
def same (a b : Path) : Bool := a.parts == b.parts

/-- A path below another one. An absolute path stays as it is. -/
def join (base p : Path) : Path :=
  if p.isAbsolute then p
  else if base.text.isEmpty || base.text.endsWith "/" then ⟨base.text ++ p.text⟩
  else ⟨base.text ++ "/" ++ p.text⟩

/-- The last part of a path, when it is a name. -/
def fileName? (p : Path) : Option String :=
  match p.parts.getLast? with
  | some (.named name) => some name
  | _ => none

/-- What follows the last dot of the file name. A dot at its start begins no extension. -/
def extension? (p : Path) : Option String := do
  let name ← p.fileName?
  let (stem, extension) ← Text.cutLast? '.' name
  if stem.isEmpty then none else return extension

/-- Pieces, last first, without those at the end that do not count. The first piece of a path
always counts. -/
def dropIdle : List String → List String
  | [] => []
  | [first] => [first]
  | piece :: others => if piece.isEmpty || piece == "." then dropIdle others else piece :: others

/-- The path without its last part. -/
def parent? (p : Path) : Option Path :=
  match p.parts.getLast? with
  | none | some .root => none
  | some _ =>
    match dropIdle ((dropIdle p.pieces.reverse).drop 1) with
    | [""] => some ⟨"/"⟩
    | pieces => some ⟨"/".intercalate pieces.reverse⟩

/-- Parts without those of a path that they start with. -/
def dropParts? : (base parts : List PathPart) → Option (List PathPart)
  | [], parts => some parts
  | _ :: _, [] => none
  | b :: base, p :: parts => if b = p then dropParts? base parts else none

/-- How a path is shown below a directory, when it is there, and in full otherwise. -/
def shownBelow (base : Option Path) (p : Path) : String :=
  let parts := (base.bind fun b => dropParts? b.parts p.parts).getD p.parts
  "/".intercalate (parts.map PathPart.text)

end Path

end LineAtlas
