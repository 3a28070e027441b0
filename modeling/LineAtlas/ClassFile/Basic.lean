import LineAtlas.ClassFile.AnnotationEntry
import LineAtlas.ClassFile.LineSet
import LineAtlas.Name.Signature
import LineAtlas.Text.Split

/-!
# Class files

What is kept of a compiled class: its names and flags, the methods with their lines, and the
attributes that tell where the class comes from.
-/

namespace LineAtlas

/-- A method of a class file. -/
structure Method where
  /-- Access flags. -/
  access : Nat
  /-- Name and descriptor. -/
  signature : Signature
  /-- Lines of the source that the code comes from. -/
  lines : LineSet
  deriving DecidableEq

namespace Method

/-- Whether the method belongs to the class and not to its instances. -/
def isStatic (m : Method) : Bool := m.access.testBit 3

/-- Whether the method only forwards to one with another descriptor. -/
def isBridge (m : Method) : Bool := m.access.testBit 6

/-- Whether the compiler made the method. -/
def isSynthetic (m : Method) : Bool := m.access.testBit 12

end Method

/-- A field of a class file. -/
structure Field where
  /-- Access flags. -/
  access : Nat
  /-- Name. -/
  name : String
  /-- Descriptor of the type. -/
  descriptor : String
  deriving DecidableEq

/-- The place in another class where a local class is declared. -/
structure EnclosingMethod where
  /-- Internal name of the enclosing class. -/
  className : String
  /-- The enclosing method; none when the class is declared in an initializer. -/
  method : Option Signature
  deriving DecidableEq

/-- A class file. -/
structure ClassFile where
  /-- Internal name. -/
  name : String
  /-- Internal name of the superclass. -/
  superName : Option String
  /-- Internal names of the implemented interfaces. -/
  interfaces : List String
  /-- Access flags. -/
  access : Nat
  /-- Name of the source file. -/
  sourceFile : Option String
  /-- Where the class is declared, for a local class. -/
  enclosing : Option EnclosingMethod
  /-- Fields in order. -/
  fields : List Field
  /-- Methods in order. -/
  methods : List Method
  /-- Annotations in order. -/
  annotations : List ClassFile.AnnotationEntry

namespace ClassFile

/-- The package part of an internal name, empty in the root package. -/
def packageOf (name : String) : String :=
  match Text.cutLast? '/' name with
  | some (package, _) => package
  | none => ""

/-- An internal name without its package. -/
def simpleNameOf (name : String) : String :=
  match Text.cutLast? '/' name with
  | some (_, simple) => simple
  | none => name

/-- The package of the class, with slashes. -/
def packagePath (c : ClassFile) : String := packageOf c.name

/-- The name of the class without its package. -/
def simpleName (c : ClassFile) : String := simpleNameOf c.name

/-- Whether the class is an interface. -/
def isInterface (c : ClassFile) : Bool := c.access.testBit 9

/-- The first annotation of a given type. -/
def annotationOf? (c : ClassFile) (type : String) : Option AnnotationEntry :=
  c.annotations.find? (·.type == type)

/-- The position of the first method with a signature. -/
def findMethod? (c : ClassFile) (signature : Signature) : Option Nat :=
  c.methods.findIdx? (·.signature == signature)

end ClassFile

end LineAtlas
