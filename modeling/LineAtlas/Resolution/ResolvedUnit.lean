import LineAtlas.Name.ClassName
import LineAtlas.Name.Local
import LineAtlas.Resolution.Ledger

/-!
# Resolved units

What one class file contributes to its source file: declared members bound to their methods,
and where the class belongs.
-/

namespace LineAtlas

/-- A function or constructor bound to its method. -/
structure BoundFunction where
  /-- Declared name; that of the method for constructors. -/
  name : String
  /-- Receivers and parameters as they are shown, for a declared function. -/
  descriptor : Option String
  /-- Whether it is listed among the constructors. -/
  isConstructor : Bool
  /-- The method. -/
  body : Body
  /-- The helper that fills in default arguments. -/
  defaultValues : Option Body
  deriving DecidableEq

/-- The names under which local functions of this function are known. -/
def BoundFunction.localKeys (f : BoundFunction) : List String :=
  if f.body.signature.isConstructor then [LocalName.constructorKey]
  else if f.body.signature.name == f.name then [f.name]
  else [f.name, f.body.signature.name]

/-- A property bound to the methods of its accessors. -/
structure BoundProperty where
  /-- Name. -/
  name : String
  /-- Whether the property can be set. -/
  isVar : Bool
  /-- Whether the getter has a body in the source. -/
  customGetter : Bool
  /-- Whether the setter has a body in the source. -/
  customSetter : Bool
  /-- The getter's method. -/
  getter : Option Body
  /-- The setter's method. -/
  setter : Option Body
  deriving DecidableEq

/-- The members of a class or of the top level of a file. -/
structure Members where
  /-- Declared functions, in the order of the metadata. -/
  functions : List BoundFunction := []
  /-- Declared constructors, then implicit ones, then the static initializer of a class. -/
  constructors : List BoundFunction := []
  /-- Declared properties, in the order of the metadata. -/
  properties : List BoundProperty := []
  /-- Local functions and lambdas, in the order of the class file. -/
  locals : List Body := []
  /-- The static initializer of a file's top level. -/
  init : Option Body := none
  /-- Static methods that should forward to members of the companion object. -/
  forwarders : List Body := []
  deriving DecidableEq

/-- The place where a local class is declared. -/
structure Origin where
  /-- Internal name of the class around it. -/
  outerClass : String
  /-- The function around it; none means an initializer. -/
  outerMethod : Option Signature
  deriving DecidableEq

/-- How a class declared in a function body is shown. -/
inductive LocalKind where
  /-- A class with a name. -/
  | named (name : String)
  /-- An object expression. -/
  | anonymous
  /-- A lambda compiled to a class. -/
  | lambda
  deriving DecidableEq, Repr

/-- A class, object or interface with a name of its own. -/
structure ClassUnit where
  /-- Internal name. -/
  jvmName : String
  /-- Declared name. -/
  declaredName : ClassName
  /-- Whether it is an object. -/
  isObject : Bool
  /-- Whether it is a data class. -/
  isData : Bool
  /-- Whether it is an interface. -/
  isInterface : Bool
  /-- Name of the companion object. -/
  companion : Option String
  /-- Members. -/
  members : Members
  deriving DecidableEq

/-- A class declared in a function body. -/
structure LocalClassUnit where
  /-- Internal name. -/
  jvmName : String
  /-- How the class is shown. -/
  kind : LocalKind
  /-- Where it is declared. -/
  origin : Origin
  /-- Members. -/
  members : Members
  deriving DecidableEq

/-- The top level of a file. -/
structure FacadeUnit where
  /-- Internal name. -/
  jvmName : String
  /-- Members. -/
  members : Members
  deriving DecidableEq

/-- The holder of the bodies of interface methods. -/
structure DefaultImplsUnit where
  /-- Internal name. -/
  jvmName : String
  /-- Internal name of the interface. -/
  interfaceName : String
  /-- Bodies in order. -/
  methods : List Body
  deriving DecidableEq

/-- What one class file contributes. -/
inductive ResolvedUnit where
  /-- A class. -/
  | classUnit (unit : ClassUnit)
  /-- A class declared in a function body. -/
  | localClass (unit : LocalClassUnit)
  /-- The top level of a file. -/
  | facade (unit : FacadeUnit)
  /-- Bodies of interface methods. -/
  | defaultImpls (unit : DefaultImplsUnit)
  /-- Nothing, as only the compiler knows about the class. -/
  | opaqueUnit
  /-- Nothing, as the class has no metadata. -/
  | foreign
  deriving DecidableEq

/-- The internal name of the class file, when it contributes something. -/
def ResolvedUnit.jvmName? : ResolvedUnit → Option String
  | .classUnit unit => some unit.jvmName
  | .localClass unit => some unit.jvmName
  | .facade unit => some unit.jvmName
  | .defaultImpls unit => some unit.jvmName
  | .opaqueUnit | .foreign => none

/-- What a class file contributes and the roles of its methods. -/
structure Resolution where
  /-- The contribution. -/
  unit : ResolvedUnit
  /-- The roles. -/
  ledger : Ledger
  deriving DecidableEq

end LineAtlas
