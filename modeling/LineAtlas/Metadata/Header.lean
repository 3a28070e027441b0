import LineAtlas.ClassFile.Basic
import LineAtlas.Metadata.Decode
import LineAtlas.Metadata.Packing

/-!
# Metadata headers

The compiler attaches an annotation to every class file that it makes. It gives the kind of
the class file, the version of the format, and the declarations in packed form.
-/

namespace LineAtlas.Metadata

open ClassFile (ElementValue AnnotationEntry)

/-- The contents of the metadata annotation. -/
structure Header where
  /-- Kind of the class file. -/
  kind : Int
  /-- Version of the format. -/
  version : List Int
  /-- Strings with the packed messages. -/
  payload : List String
  /-- Strings with names. -/
  strings : List String
  /-- An additional string, such as the name of a facade. -/
  extraString : Option String
  /-- Package name, when it differs from that of the class file. -/
  packageName : Option String
  /-- Additional flags. -/
  extraInt : Int
  deriving DecidableEq, Repr

namespace Header

/-- Descriptor of the metadata annotation. -/
def typeDescriptor : String := "Lkotlin/Metadata;"

/-- The integer in a value. -/
def intIn? : ElementValue → Option Int
  | .int value => some value
  | _ => none

/-- The text in a value. -/
def textIn? : ElementValue → Option String
  | .string text => some text
  | _ => none

/-- The values of a list, or nothing. -/
def valuesIn : Option ElementValue → List ElementValue
  | some (.array values) => values
  | _ => []

/-- The header in a metadata annotation. Empty strings count as missing. -/
def ofEntry (a : AnnotationEntry) : Header :=
  let int? (name : String) := (a.element? name).bind intIn?
  let text? (name : String) := ((a.element? name).bind textIn?).filter (· != "")
  let texts (name : String) := (valuesIn (a.element? name)).filterMap textIn?
  { kind := (int? "k").getD 1
    version := (valuesIn (a.element? "mv")).filterMap intIn?
    payload := texts "d1"
    strings := texts "d2"
    extraString := text? "xs"
    packageName := text? "pn"
    extraInt := (int? "xi").getD 0 }

/-- The header of a class file, when it has one. -/
def ofClass? (c : ClassFile) : Option Header :=
  (c.annotationOf? typeDescriptor).map ofEntry

/-- Whether the layout of a version is known: from 1.1 on and before 3. -/
def isSupported : List Int → Bool
  | [] => false
  | [major] => 1 < major && major < 3
  | major :: minor :: _ => (1 < major || major == 1 && 1 ≤ minor) && major < 3

/-- The names and the declaration message of a payload. -/
def openPayload (h : Header) : Except Malformed (Scope × List UInt8) := do
  let bytes ← Packing.unpack h.payload
  let (table, message) ← Wire.delimited bytes
  let names ← NameTable.ofBytes h.strings table
  return ({ names }, message)

/-- The declaration in a payload, by the reader of its kind of message. -/
def read {α : Type} (h : Header) (decode : Scope → List UInt8 → Except Malformed α) :
    Except Malformed α := do
  let (scope, message) ← h.openPayload
  decode scope message

/-- What the header describes. Unknown kinds and versions are described as such. -/
def decode (h : Header) : Except Malformed Document :=
  if isSupported h.version then
    match h.kind with
    | 1 => .classDecl <$> h.read Scope.classDecl
    | 2 => .fileFacade <$> h.read Scope.packageDecl
    | 3 =>
      if h.payload.isEmpty then .ok (.syntheticClass none)
      else (.syntheticClass ∘ some) <$> h.read Scope.function
    | 4 => .ok (.multiFileFacade h.payload)
    | 5 => .multiFilePart (h.extraString.getD "") <$> h.read Scope.packageDecl
    | kind => .ok (.unknown kind h.version)
  else .ok (.unknown h.kind h.version)

end Header

end LineAtlas.Metadata
