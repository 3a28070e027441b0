import LineAtlas.Files.Path

/-!
# Trees of files

The files below a directory. Paths lead from that directory. Outside it there are directories,
of which nothing else is known.
-/

namespace LineAtlas

/-- A file or directory. -/
inductive FileTree where
  /-- A file and its bytes. -/
  | file (bytes : List UInt8)
  /-- A directory and what it contains, by name and in the order of names. -/
  | directory (entries : List (String × FileTree))
  deriving Inhabited

/-- Why a path leads to no file. -/
inductive PathFault where
  /-- Nothing is there. -/
  | missing
  /-- The path goes through a file. -/
  | notDirectory
  /-- The path leads to a directory. -/
  | isDirectory
  /-- The path or a name in it has too many bytes. -/
  | tooLong
  /-- No path has a null character. -/
  | nullCharacter
  /-- The bytes of the file are no text. -/
  | notText
  deriving DecidableEq, Repr

/-- The wording of a fault. -/
def PathFault.message : PathFault → String
  | .missing => "No such file or directory (os error 2)"
  | .notDirectory => "Not a directory (os error 20)"
  | .isDirectory => "Is a directory (os error 21)"
  | .tooLong => "File name too long (os error 36)"
  | .nullCharacter => "file name contained an unexpected NUL byte"
  | .notText => "stream did not contain valid UTF-8"

namespace FileTree

/-- A directory without entries. -/
def empty : FileTree := .directory []

/-- Whether the node is a directory. -/
def isDirectory : FileTree → Bool
  | .directory _ => true
  | .file _ => false

/-- What lies outside the tree. -/
def outside : FileTree := .empty

/-- The number of bytes that a name has at most. -/
def maxNameBytes : Nat := 255

/-- The entry of a directory with a name. -/
def child? (name : String) : FileTree → Except PathFault FileTree
  | .file _ => .error .notDirectory
  | .directory entries =>
    if maxNameBytes < name.utf8ByteSize then .error .tooLong
    else
      match entries.find? (·.1 == name) with
      | some (_, node) => .ok node
      | none => .error .missing

/-- Goes along one piece of a path from a node below the given ancestors. -/
def step (piece : String) (node : FileTree) (ancestors : List FileTree) :
    Except PathFault (FileTree × List FileTree) :=
  if !node.isDirectory then .error .notDirectory
  else if piece.isEmpty || piece == "." then .ok (node, ancestors)
  else if piece == ".." then
    match ancestors with
    | [] => .ok (outside, [])
    | above :: ancestors => .ok (above, ancestors)
  else (node.child? piece).map fun child => (child, node :: ancestors)

/-- Goes along the pieces of a path. -/
def follow : List String → FileTree → List FileTree → Except PathFault FileTree
  | [], node, _ => .ok node
  | piece :: rest, node, ancestors => do
    let (node, ancestors) ← step piece node ancestors
    follow rest node ancestors

/-- Why nothing can be looked up under a path, whatever the files are. -/
def faultOf? (p : Path) : Option PathFault :=
  if p.text.contains '\x00' then some .nullCharacter
  else if p.text.isEmpty then some .missing
  else if p.isTooLong then some .tooLong
  else none

/-- The node at which a path starts. -/
def startOf (t : FileTree) (p : Path) : FileTree := if p.isAbsolute then outside else t

/-- What a path leads to. -/
def find (t : FileTree) (p : Path) : Except PathFault FileTree :=
  match faultOf? p with
  | some fault => .error fault
  | none => follow p.pieces (t.startOf p) []

/-- Whether a path leads to a file. -/
def hasFile (t : FileTree) (p : Path) : Bool :=
  match t.find p with
  | .ok (.file _) => true
  | _ => false

/-- The bytes of a file. -/
def read (t : FileTree) (p : Path) : Except PathFault (List UInt8) :=
  match t.find p with
  | .ok (.file bytes) => .ok bytes
  | .ok (.directory _) => .error .isDirectory
  | .error fault => .error fault

/-- The text of a file. -/
def readText (t : FileTree) (p : Path) : Except PathFault String :=
  match t.read p with
  | .error fault => .error fault
  | .ok bytes =>
    match String.fromUTF8? ⟨bytes.toArray⟩ with
    | some text => .ok text
    | none => .error .notText

/-- What one comes by below a path. -/
inductive Finding where
  /-- A file. -/
  | file (path : Path)
  /-- A path that cannot be entered. -/
  | fault (path : Path) (cause : PathFault)
  deriving DecidableEq, Repr

/-- The file that was found. -/
def Finding.file? : Finding → Option Path
  | .file path => some path
  | .fault _ _ => none

/-- The path that cannot be entered, and why. -/
def Finding.fault? : Finding → Option (Path × PathFault)
  | .file _ => none
  | .fault path cause => some (path, cause)

mutual

/-- What one comes by at and below a node, which is found under a path itself. -/
def findingsAt (path : Path) : FileTree → List Finding
  | .file _ => [.file path]
  | .directory entries =>
    if path.isTooLong then [.fault path .tooLong] else findingsAmong path entries

/-- What one comes by among the entries of a directory. -/
def findingsAmong (path : Path) : List (String × FileTree) → List Finding
  | [] => []
  | (name, node) :: rest => findingsAt (path.join ⟨name⟩) node ++ findingsAmong path rest

end

/-- What one comes by at and below a path. -/
def findingsBelow (t : FileTree) (p : Path) : List Finding :=
  match t.find p with
  | .ok node => findingsAt p node
  | .error fault => [.fault p fault]

/-- Entries with one put under its name. -/
def putEntry (name : String) (node : FileTree) :
    List (String × FileTree) → List (String × FileTree)
  | [] => [(name, node)]
  | first :: rest =>
    if first.1 == name then (name, node) :: rest
    else if name < first.1 then (name, node) :: first :: rest
    else first :: putEntry name node rest

/-- The tree with a node put under names. With them come the directories in which it lies. -/
def put (node : FileTree) : List String → FileTree → FileTree
  | [], _ => node
  | name :: rest, tree =>
    let entries :=
      match tree with
      | .directory entries => entries
      | .file _ => []
    let child := ((entries.find? (·.1 == name)).map Prod.snd).getD .empty
    .directory (putEntry name (put node rest child) entries)

/-- The tree with a directory under names. One that is already there keeps its entries. -/
def putDirectory (names : List String) (t : FileTree) : FileTree :=
  match follow names t [] with
  | .ok (.directory _) => t
  | _ => put .empty names t

/-- Goes along one part of a path from a directory with the given names, innermost first, and
makes the directory to which it leads. Two dots take back a name. There is no way out of the
tree. -/
def makeStep (place : FileTree × List String) : PathPart → Option (FileTree × List String)
  | .named name =>
    let names := name :: place.2
    some (putDirectory names.reverse place.1, names)
  | .here => some place
  | .up => place.2.tail?.map (place.1, ·)
  | .root => none

/-- The tree with all directories on the way along some parts of a path, also where it leads
back out of one, and the names of the last one, innermost first. -/
def makeWay (t : FileTree) (parts : List PathPart) : Option (FileTree × List String) :=
  parts.foldlM makeStep (t, [])

/-- The tree with a file at a path and the directories on the way to it, if the path stays in
the tree. -/
def withFile (t : FileTree) (p : Path) (bytes : List UInt8) : FileTree :=
  match p.parts.getLast?, t.makeWay p.parts.dropLast with
  | some (.named name), some (made, names) => put (.file bytes) (name :: names).reverse made
  | _, _ => t

/-- The tree with a directory at a path and those on the way to it, if the path stays in the
tree. -/
def withDirectory (t : FileTree) (p : Path) : FileTree :=
  ((t.makeWay p.parts).map Prod.fst).getD t

/-- The tree with a file put under the last piece of a path, which lies in a given node. A slash
at the end or a piece of dots asks for a directory. -/
def writeIn (t node : FileTree) (p : Path) (last : Option String) (bytes : List UInt8) :
    Except PathFault FileTree :=
  if !node.isDirectory then .error .notDirectory
  else if p.text.endsWith "/" then .error .isDirectory
  else
    match last with
    | none | some "." | some ".." => .error .isDirectory
    | some name =>
      match node.child? name with
      | .ok (.directory _) => .error .isDirectory
      | .ok (.file _) | .error .missing => .ok (t.withFile p bytes)
      | .error fault => .error fault

/-- The tree with the bytes of a file replaced, or with a new file in an existing
directory. -/
def write (t : FileTree) (p : Path) (bytes : List UInt8) : Except PathFault FileTree :=
  match faultOf? p with
  | some fault => .error fault
  | none => do
    let pieces := p.pieces.filter (!·.isEmpty)
    let node ← follow pieces.dropLast (t.startOf p) []
    t.writeIn node p pieces.getLast? bytes

end FileTree

end LineAtlas
