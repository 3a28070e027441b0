/-!
# Method signatures

A method of a class file is identified by its name and descriptor. Constructors and static
initializers have reserved names.
-/

namespace LineAtlas

/-- The name and descriptor of a method. -/
structure Signature where
  /-- Name of the method. -/
  name : String
  /-- Descriptor in its written form. -/
  descriptor : String
  deriving DecidableEq, Repr, Inhabited, Hashable

namespace Signature

/-- Name of every constructor. -/
def constructorName : String := "<init>"

/-- Name of the static initializer. -/
def staticInitializerName : String := "<clinit>"

/-- Whether the signature is that of a constructor. -/
def isConstructor (s : Signature) : Bool := s.name == constructorName

/-- Whether the signature is that of the static initializer. -/
def isStaticInitializer (s : Signature) : Bool := s.name == staticInitializerName

/-- The name followed directly by the descriptor. -/
def display (s : Signature) : String := s.name ++ s.descriptor

/-- The signature of an interface method's body in the holder of default bodies: the
interface instance comes first among the parameters. -/
def inDefaultImpls (s : Signature) (interfaceName : String) : Signature :=
  let parameters :=
    match s.descriptor.toList with
    | '(' :: rest => String.ofList rest
    | _ => s.descriptor
  { name := s.name, descriptor := "(L" ++ interfaceName ++ ";" ++ parameters }

end Signature

end LineAtlas
